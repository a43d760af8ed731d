import Astrologer.BinaryHeap.Basic

/-!
# What the sift loops do

Two facts about each operation, from which everything later is read off.

**It only exchanges slots.**  `Swaps s t` says that `t` comes from `s` by
exchanging slots below `size`, through the callback, any number of times.  Every
loop is such a sequence (`swaps_heapifyUp`, `swaps_heapifyDown`,
`swaps_binaryHeapUpdate`), so whatever one exchange preserves, the operations
preserve.  This needs nothing of the callbacks.

**It restores the order.**  Here the callbacks have to be what the comments of
the source promise: `Lawful key heap` says that `compare` is the `>=` of `key`
and that `swap` exchanges the two slots and moves no key.  The keys may be
stored in the memory, so `key` reads it.  The order of the keys need only be a
total preorder: different elements may have equal keys.
-/

namespace Astrologer

open ImplicitHeap

variable {M α : Type*}

/-! ## Exchanges

Both loops exchange stored entries and do nothing else, so whatever one exchange keeps they keep.
-/

/-- One exchange of two stored entries.  A whole sift is a chain of these, so what an exchange
keeps (the multiset of the entries, the callbacks, the bounds) every sift keeps. -/
inductive SwapStep : HeapMem M α → HeapMem M α → Prop
  | swap (s : HeapMem M α) {i j : ℕ} (hi : i < s.heap.size) (hj : j < s.heap.size) :
      SwapStep s (s.swapIx i j)

/-- Any number of exchanges of stored entries. -/
abbrev Swaps : HeapMem M α → HeapMem M α → Prop := Relation.ReflTransGen SwapStep

/-- What one exchange preserves, a sequence of them preserves. -/
theorem Swaps.preserves {P : HeapMem M α → Prop}
    (hP : ∀ s i j, i < s.heap.size → j < s.heap.size → P s → P (s.swapIx i j))
    {s t : HeapMem M α} (h : Swaps s t) (hs : P s) : P t := by
  induction h with
  | refl => exact hs
  | tail _ hstep ih =>
    cases hstep with
    | swap hi hj => exact hP _ _ _ hi hj ih

theorem Swaps.size_eq {s t : HeapMem M α} (h : Swaps s t) :
    t.heap.size = s.heap.size :=
  Swaps.preserves (P := fun t => t.heap.size = s.heap.size)
    (fun _ _ _ _ _ h => h) h rfl

theorem Swaps.capacity_eq {s t : HeapMem M α} (h : Swaps s t) :
    t.heap.capacity = s.heap.capacity :=
  Swaps.preserves (P := fun t => t.heap.capacity = s.heap.capacity)
    (fun _ _ _ _ _ h => h) h rfl

theorem Swaps.compare_eq {s t : HeapMem M α} (h : Swaps s t) :
    t.heap.compare = s.heap.compare :=
  Swaps.preserves (P := fun t => t.heap.compare = s.heap.compare)
    (fun _ _ _ _ _ h => h) h rfl

theorem Swaps.swap_eq {s t : HeapMem M α} (h : Swaps s t) :
    t.heap.swap = s.heap.swap :=
  Swaps.preserves (P := fun t => t.heap.swap = s.heap.swap)
    (fun _ _ _ _ _ h => h) h rfl

theorem swaps_heapifyUp (s : HeapMem M α) (ix : ℕ) (hix : ix < s.heap.size) :
    Swaps s (heapifyUp s ix) := by
  induction ix using Nat.strongRecOn generalizing s with
  | ind ix ih =>
    rw [heapifyUp_eq]
    split
    next h =>
      have hp := parent_lt h.1
      have hps : parent ix < s.heap.size := lt_trans hp hix
      exact Relation.ReflTransGen.head (SwapStep.swap s hix hps) (ih _ hp _ hps)
    next => exact Relation.ReflTransGen.refl

theorem swaps_heapifyDown (s : HeapMem M α) (ix : ℕ) :
    Swaps s (heapifyDown s ix) := by
  rcases lt_or_ge s.heap.size 2 with hlt | h2
  · rw [heapifyDown_of_size_lt ix hlt]
  · obtain ⟨d, hd⟩ : ∃ d, s.heap.size ≤ ix + d := ⟨s.heap.size, by omega⟩
    induction d generalizing s ix with
    | zero =>
      have hlast : ¬ ix ≤ parent (s.heap.size - 1) := by
        unfold parent
        omega
      rw [heapifyDown_eq s ix h2, if_neg hlast]
    | succ d ih =>
      rw [heapifyDown_eq s ix h2]
      split
      next hlast =>
        split
        · exact Relation.ReflTransGen.refl
        · have hchild := s.childIx_lt ((leftChild_lt_iff h2).mpr hlast)
          have hlt := s.lt_childIx ix
          exact Relation.ReflTransGen.head (SwapStep.swap s (lt_trans hlt hchild) hchild)
            (ih _ _ h2 (by rw [HeapMem.swapIx_size]; omega))
      next => exact Relation.ReflTransGen.refl

theorem swaps_binaryHeapUpdate (s : HeapMem M α) (ix : ℕ) (hix : ix < s.heap.size) :
    Swaps s (binaryHeapUpdate s ix) := by
  unfold binaryHeapUpdate
  split
  · exact swaps_heapifyUp s ix hix
  · exact swaps_heapifyDown s ix

theorem update_update_eq_swap (a : ℕ → α) (i j : ℕ) :
    Function.update (Function.update a i (a j)) j (a i) = a ∘ Equiv.swap i j := by
  funext l
  rw [Function.comp_apply, Equiv.swap_apply_def]
  rcases eq_or_ne l j with rfl | hj
  · rw [Function.update_self]
    split_ifs with h h'
    · rw [h]
    · rfl
    · exact absurd rfl h'
  · rw [Function.update_of_ne hj]
    rcases eq_or_ne l i with rfl | hi
    · rw [Function.update_self, if_pos rfl]
    · rw [Function.update_of_ne hi, if_neg hi, if_neg hj]

/-! ## Lawful callbacks

What is asked of the two callbacks: the comparison is one of keys, and the exchange swaps the
contents of two slots and leaves every key as it was, whatever else it writes. -/

section Lawful

variable {K : Type*} [Preorder K] {key : M → α → K}

/-- The two callbacks do what they are for: `compare` is `>=` on keys, and
`swap` exchanges the slots without moving a key. -/
structure Lawful (key : M → α → K) (heap : BinaryHeap M α) : Prop where
  compare_iff : ∀ m a b, heap.compare m a b = true ↔ key m b ≤ key m a
  swap_slots : ∀ m a b, (heap.swap m a b).2 = (b, a)
  key_swap : ∀ m a b x, key (heap.swap m a b).1 x = key m x

/-- The keys of the slots. -/
def HeapMem.keys (key : M → α → K) (s : HeapMem M α) (i : ℕ) : K :=
  key s.mem (s.heap.arr i)

theorem Lawful.of_eq {h h' : BinaryHeap M α} (hl : Lawful key h)
    (hc : h'.compare = h.compare) (hs : h'.swap = h.swap) : Lawful key h' := by
  constructor
  · rw [hc]
    exact hl.compare_iff
  · rw [hs]
    exact hl.swap_slots
  · rw [hs]
    exact hl.key_swap

theorem Lawful.of_swaps {s t : HeapMem M α} (hl : Lawful key s.heap)
    (h : Swaps s t) : Lawful key t.heap :=
  hl.of_eq h.compare_eq h.swap_eq

theorem Lawful.swapIx_arr {s : HeapMem M α} (hl : Lawful key s.heap) (i j : ℕ) :
    (s.swapIx i j).heap.arr = s.heap.arr ∘ Equiv.swap i j := by
  have h := hl.swap_slots s.mem (s.heap.arr i) (s.heap.arr j)
  simp only [HeapMem.swapIx, h]
  exact update_update_eq_swap s.heap.arr i j

theorem Lawful.keys_swapIx {s : HeapMem M α} (hl : Lawful key s.heap) (i j : ℕ) :
    (s.swapIx i j).keys key = s.keys key ∘ Equiv.swap i j := by
  funext l
  have hmem : (s.swapIx i j).mem =
      (s.heap.swap s.mem (s.heap.arr i) (s.heap.arr j)).1 := rfl
  rw [HeapMem.keys, hl.swapIx_arr, hmem, hl.key_swap]
  rfl

theorem Lawful.compareIx_iff {s : HeapMem M α} (hl : Lawful key s.heap) (i j : ℕ) :
    s.compareIx i j = true ↔ s.keys key j ≤ s.keys key i :=
  hl.compare_iff s.mem (s.heap.arr i) (s.heap.arr j)

/-- The exchanges keep every key of the memory. -/
theorem Lawful.key_of_swaps {s t : HeapMem M α} (hl : Lawful key s.heap)
    (h : Swaps s t) (x : α) : key t.mem x = key s.mem x := by
  have hP : Lawful key t.heap ∧ key t.mem x = key s.mem x := by
    refine Swaps.preserves
      (P := fun t => Lawful key t.heap ∧ key t.mem x = key s.mem x) ?_ h ⟨hl, rfl⟩
    rintro u i j - - ⟨hu, heq⟩
    exact ⟨hu.of_eq rfl rfl, (hu.key_swap _ _ _ _).trans heq⟩
  exact hP.2

/-- **Nothing is lost or duplicated**: exchanges keep the multiset of what the first slots hold,
as each permutes two of them. -/
theorem Lawful.contents_of_swaps {s t : HeapMem M α} (hl : Lawful key s.heap)
    (h : Swaps s t) :
    contents t.heap.arr t.heap.size = contents s.heap.arr s.heap.size := by
  have hP : Lawful key t.heap ∧
      contents t.heap.arr t.heap.size = contents s.heap.arr s.heap.size := by
    refine Swaps.preserves (P := fun t => Lawful key t.heap ∧
      contents t.heap.arr t.heap.size = contents s.heap.arr s.heap.size) ?_ h ⟨hl, rfl⟩
    rintro u i j hi hj ⟨hu, heq⟩
    refine ⟨hu.of_eq rfl rfl, ?_⟩
    rw [hu.swapIx_arr, HeapMem.swapIx_size, contents_swap _ hi hj, heq]
  exact hP.2

end Lawful

/-! ## The loops restore the order

Each loop is an instance of the general theorem about its sift, by the keys of the slots. -/

section Order

variable {K : Type*} [Preorder K] [Std.Total (fun a b : K => a ≤ b)] {key : M → α → K}

/-- The comparison fails: by totality the first key is below the second. -/
theorem Lawful.le_of_compareIx {s : HeapMem M α} (hl : Lawful key s.heap) {i j : ℕ}
    (h : ¬ s.compareIx i j = true) : s.keys key i ≤ s.keys key j := by
  rw [hl.compareIx_iff] at h
  exact (total_of (· ≤ ·) _ _).resolve_right h

theorem ordered_heapifyUp (s : HeapMem M α) (ix : ℕ) (hl : Lawful key s.heap)
    (hix : ix < s.heap.size) (h : UpReady (s.keys key) s.heap.size ix) :
    Ordered ((heapifyUp s ix).keys key) s.heap.size := by
  induction ix using Nat.strongRecOn generalizing s with
  | ind ix ih =>
    rw [heapifyUp_eq]
    split
    next hc =>
      have hp := parent_lt hc.1
      have hlt : s.keys key ix ≤ s.keys key (parent ix) :=
        hl.le_of_compareIx (by simpa using hc.2)
      refine ih (parent ix) hp (s.swapIx ix (parent ix)) (hl.of_eq rfl rfl)
        (lt_trans hp hix) ?_
      rw [hl.keys_swapIx]
      exact h.swap hc.1 hix hlt
    next hc =>
      refine h.ordered fun h0 => (hl.compareIx_iff ix (parent ix)).mp ?_
      by_contra hcmp
      exact hc ⟨h0, by simpa using hcmp⟩

/-- The child looked at is a least child. -/
theorem Lawful.childIx_le {s : HeapMem M α} (hl : Lawful key s.heap) {ix c : ℕ}
    (hc0 : 0 < c) (hc : c < s.heap.size) (hp : parent c = ix) :
    s.keys key (s.childIx ix) ≤ s.keys key c := by
  have hcmp : ∀ i j, ¬ s.compareIx i j = true → s.keys key i ≤ s.keys key j :=
    fun _ _ => hl.le_of_compareIx
  unfold HeapMem.childIx
  simp only
  split
  next hr =>
    rcases eq_child_of_parent_eq hc0 hp with rfl | rfl
    · exact hcmp _ _ (by simpa using hr.2)
    · exact le_rfl
  next hr =>
    rcases eq_child_of_parent_eq hc0 hp with rfl | rfl
    · exact le_rfl
    · refine (hl.compareIx_iff _ _).mp ?_
      by_contra hcon
      exact hr ⟨hc, by simpa using hcon⟩

theorem ordered_heapifyDown (s : HeapMem M α) (ix : ℕ) (hl : Lawful key s.heap)
    (h : DownReady (s.keys key) s.heap.size ix) :
    Ordered ((heapifyDown s ix).keys key) s.heap.size := by
  rcases lt_or_ge s.heap.size 2 with hlt | h2
  · rw [heapifyDown_of_size_lt ix hlt]
    intro i h0 hi
    omega
  · obtain ⟨d, hd⟩ : ∃ d, s.heap.size ≤ ix + d := ⟨s.heap.size, by omega⟩
    induction d generalizing s ix with
    | zero =>
      have hlast : ¬ ix ≤ parent (s.heap.size - 1) := by
        unfold parent
        omega
      rw [heapifyDown_eq s ix h2, if_neg hlast]
      refine h.ordered fun i h0 hi hpi => ?_
      have := parent_lt h0
      omega
    | succ d ih =>
      rw [heapifyDown_eq s ix h2]
      split
      next hlast =>
        have hchild := s.childIx_lt ((leftChild_lt_iff h2).mpr hlast)
        have hix := s.lt_childIx ix
        have hp := s.parent_childIx ix
        have hmin : ∀ i, 0 < i → i < s.heap.size → parent i = ix →
            s.keys key (s.childIx ix) ≤ s.keys key i :=
          fun i h0 hi hpi => hl.childIx_le h0 hi hpi
        split
        next hc =>
          exact h.ordered fun i h0 hi hpi =>
            le_trans ((hl.compareIx_iff _ _).mp hc) (hmin i h0 hi hpi)
        next hc =>
          refine ih (s.swapIx ix (s.childIx ix)) (s.childIx ix) (hl.of_eq rfl rfl) ?_ h2
            (by rw [HeapMem.swapIx_size]; omega)
          rw [hl.keys_swapIx, HeapMem.swapIx_size]
          exact h.swap (by omega) hchild hp hmin (hl.le_of_compareIx hc)
      next hlast =>
        refine h.ordered fun i h0 hi hpi => ?_
        rw [← leftChild_lt_iff h2] at hlast
        rcases eq_child_of_parent_eq h0 hpi with rfl | rfl <;> omega

/-- `binary_heap_update` repairs an array that is broken at `ix`. -/
theorem ordered_binaryHeapUpdate (s : HeapMem M α) (ix : ℕ) (hl : Lawful key s.heap)
    (hix : ix < s.heap.size) (h : Broken (s.keys key) s.heap.size ix) :
    Ordered ((binaryHeapUpdate s ix).keys key) s.heap.size := by
  unfold binaryHeapUpdate
  split
  next hc =>
    exact ordered_heapifyUp s ix hl hix
      (h.upReady hc.1 (hl.le_of_compareIx (by simpa using hc.2)))
  next hc =>
    refine ordered_heapifyDown s ix hl (h.downReady fun h0 => ?_)
    rw [← hl.compareIx_iff]
    by_contra hcmp
    exact hc ⟨h0, by simpa using hcmp⟩

end Order

end Astrologer
