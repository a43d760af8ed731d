import Mathlib

/-!
# Trees stored level by level in an array

A binary tree without pointers: the node at index `i` has its children at
`2 * i + 1` and `2 * i + 2`, so the parent of a node other than the root is at
`(i - 1) / 2`.  A key is attached to every index below a bound `n`, and the tree
is *heap ordered* when no key is below the key of its parent.

Nothing here knows how the keys are stored.  An algorithm that restores the
order exchanges two entries at a time, and an exchange of entries is a
composition with `Equiv.swap`, so the whole theory is about functions `ℕ → K`
and what such a composition does to them.

## The one-hole conditions

A sift loop runs on an array whose order is broken at one place.

* `UpReady k n hole` --- only the edge *entering* `hole` may be wrong.
* `DownReady k n hole` --- only the edges *leaving* `hole` may be wrong.
* `Broken k n hole` --- both may be: what is left of an ordered array after the
  key at `hole` has been replaced by any other.

Each carries the same side condition `grand`, that the children of the hole
are not below the parent of the hole.  It is what makes an exchange across the
hole safe on the far side, and without it neither step lemma
(`UpReady.swap`, `DownReady.swap`) is provable.
-/

namespace ImplicitHeap

/-- The parent of a node.  The root is sent to itself; every use is guarded by
`0 < i`. -/
def parent (i : ℕ) : ℕ := (i - 1) / 2

/-- The left child of a node; the right child comes next. -/
def leftChild (i : ℕ) : ℕ := 2 * i + 1

theorem parent_lt {i : ℕ} (h : 0 < i) : parent i < i := by
  unfold parent
  omega

theorem parent_leftChild (i : ℕ) : parent (leftChild i) = i := by
  unfold parent leftChild
  omega

theorem parent_rightChild (i : ℕ) : parent (leftChild i + 1) = i := by
  unfold parent leftChild
  omega

theorem lt_leftChild (i : ℕ) : i < leftChild i := by
  unfold leftChild
  omega

/-- A node has no children but the two. -/
theorem eq_child_of_parent_eq {c i : ℕ} (hc : 0 < c) (h : parent c = i) :
    c = leftChild i ∨ c = leftChild i + 1 := by
  unfold parent at h
  unfold leftChild
  omega

/-- A node has a left child exactly when it is not past the parent of the last
node. -/
theorem leftChild_lt_iff {i n : ℕ} (hn : 2 ≤ n) :
    leftChild i < n ↔ i ≤ parent (n - 1) := by
  unfold leftChild parent
  omega

/-- How far a node is from the root. -/
def depth (i : ℕ) : ℕ := Nat.log 2 (i + 1)

theorem depth_mono {i j : ℕ} (h : i ≤ j) : depth i ≤ depth j :=
  Nat.log_mono_right (Nat.succ_le_succ h)

theorem depth_parent {i : ℕ} (h : 0 < i) : depth i = depth (parent i) + 1 := by
  have hparent : (i + 1) / 2 = parent i + 1 := by
    unfold parent
    omega
  have hge : 2 ≤ i + 1 := Nat.succ_le_succ h
  rw [depth, Nat.log_of_one_lt_of_le Nat.one_lt_two hge, hparent]
  rfl

/-! ## Exchanging two entries -/

section Swap

variable {α : Type*}

theorem swap_left (a : ℕ → α) (i j : ℕ) : (a ∘ Equiv.swap i j) i = a j := by
  rw [Function.comp_apply, Equiv.swap_apply_left]

theorem swap_right (a : ℕ → α) (i j : ℕ) : (a ∘ Equiv.swap i j) j = a i := by
  rw [Function.comp_apply, Equiv.swap_apply_right]

theorem swap_of_ne (a : ℕ → α) {i j l : ℕ} (hi : l ≠ i) (hj : l ≠ j) :
    (a ∘ Equiv.swap i j) l = a l := by
  rw [Function.comp_apply, Equiv.swap_apply_of_ne_of_ne hi hj]

end Swap

/-! ## Heap order -/

section Order

variable {K : Type*} [Preorder K]

/-- No key below `n` is less than the key of its parent. -/
def Ordered (k : ℕ → K) (n : ℕ) : Prop :=
  ∀ i, 0 < i → i < n → k (parent i) ≤ k i

theorem Ordered.mono {k : ℕ → K} {m n : ℕ} (h : Ordered k n) (hmn : m ≤ n) :
    Ordered k m :=
  fun i h0 hi => h i h0 (lt_of_lt_of_le hi hmn)

/-- Heap order only reads the keys below the bound. -/
theorem Ordered.congr {k k' : ℕ → K} {n : ℕ} (h : Ordered k n)
    (heq : ∀ i, i < n → k' i = k i) : Ordered k' n := by
  intro i h0 hi
  rw [heq i hi, heq (parent i) (lt_trans (parent_lt h0) hi)]
  exact h i h0 hi

/-- **The root is minimal.**  Induction along the path from a node up to the
root. -/
theorem Ordered.root_le {k : ℕ → K} {n : ℕ} (h : Ordered k n) :
    ∀ i, i < n → k 0 ≤ k i := by
  intro i
  induction i using Nat.strongRecOn with
  | ind i ih =>
    intro hi
    rcases Nat.eq_zero_or_pos i with rfl | h0
    · exact le_rfl
    · have hp := parent_lt h0
      exact le_trans (ih (parent i) hp (lt_trans hp hi)) (h i h0 hi)

/-- `i` is on the way from `j` to the root, and not `j` itself. -/
inductive Ancestor : ℕ → ℕ → Prop
  | parent {j : ℕ} (h : 0 < j) : Ancestor (parent j) j
  | above {i j : ℕ} (h : 0 < j) (hi : Ancestor i (ImplicitHeap.parent j)) : Ancestor i j

theorem Ancestor.lt {i j : ℕ} (h : Ancestor i j) : i < j := by
  induction h with
  | parent h => exact parent_lt h
  | above h _ ih => exact lt_trans ih (parent_lt h)

/-- **Order along the paths.**  An array is heap ordered when no key is below the key of an
ancestor. -/
theorem ordered_iff_ancestor {k : ℕ → K} {n : ℕ} :
    Ordered k n ↔ ∀ i j, j < n → Ancestor i j → k i ≤ k j := by
  constructor
  · intro h i j hj ha
    induction ha with
    | parent h0 => exact h _ h0 hj
    | above h0 ha ih => exact le_trans (ih (lt_trans (parent_lt h0) hj)) (h _ h0 hj)
  · exact fun h i h0 hi => h (parent i) i hi (.parent h0)

/-- Only the edge entering `hole` may be out of order, as it is while an entry is sifted up.  The
children of `hole` are in order with its parent, which is what comes to stand above them. -/
structure UpReady (k : ℕ → K) (n hole : ℕ) : Prop where
  except : ∀ i, 0 < i → i < n → i ≠ hole → k (parent i) ≤ k i
  grand : 0 < hole → ∀ i, 0 < i → i < n → parent i = hole →
    k (parent hole) ≤ k i

/-- Only the edges leaving `hole` may be out of order, as they are while an entry is sifted down.
Again the children of `hole` are in order with its parent. -/
structure DownReady (k : ℕ → K) (n hole : ℕ) : Prop where
  except : ∀ i, 0 < i → i < n → parent i ≠ hole → k (parent i) ≤ k i
  grand : 0 < hole → ∀ i, 0 < i → i < n → parent i = hole →
    k (parent hole) ≤ k i

/-- Only the edges that touch `hole` may be out of order: what an update or a removal leaves
before it is known which way the entry has to go. -/
structure Broken (k : ℕ → K) (n hole : ℕ) : Prop where
  except : ∀ i, 0 < i → i < n → i ≠ hole → parent i ≠ hole →
    k (parent i) ≤ k i
  grand : 0 < hole → ∀ i, 0 < i → i < n → parent i = hole →
    k (parent hole) ≤ k i

/-- Replacing one key of an ordered array breaks it at that place only. -/
theorem Ordered.broken {k k' : ℕ → K} {n hole : ℕ} (h : Ordered k n)
    (hlt : hole < n) (heq : ∀ i, i < n → i ≠ hole → k' i = k i) :
    Broken k' n hole := by
  constructor
  · intro i h0 hi hne hpne
    rw [heq i hi hne, heq (parent i) (lt_trans (parent_lt h0) hi) hpne]
    exact h i h0 hi
  · intro hh0 i h0 hi hp
    have hlt' := parent_lt h0
    have hpl := parent_lt hh0
    rw [heq i hi (by omega), heq (parent hole) (by omega) (by omega)]
    exact le_trans (h hole hh0 hlt) (hp ▸ h i h0 hi)

/-- An ordered array is broken nowhere. -/
theorem Ordered.downReady {k : ℕ → K} {n hole : ℕ} (h : Ordered k n)
    (hlt : hole < n) : DownReady k n hole where
  except i h0 hi _ := h i h0 hi
  grand hh0 i h0 hi hp := le_trans (h hole hh0 hlt) (hp ▸ h i h0 hi)

/-- A broken array whose hole is not below its parent needs sifting down. -/
theorem Broken.downReady {k : ℕ → K} {n hole : ℕ} (h : Broken k n hole)
    (hle : 0 < hole → k (parent hole) ≤ k hole) : DownReady k n hole := by
  refine ⟨fun i h0 hi hpne => ?_, h.grand⟩
  rcases eq_or_ne i hole with rfl | hne
  · exact hle h0
  · exact h.except i h0 hi hne hpne

/-- A broken array whose hole is below its parent needs sifting up. -/
theorem Broken.upReady {k : ℕ → K} {n hole : ℕ} (h : Broken k n hole)
    (h0 : 0 < hole) (hle : k hole ≤ k (parent hole)) : UpReady k n hole := by
  refine ⟨fun i hi0 hi hne => ?_, h.grand⟩
  rcases eq_or_ne (parent i) hole with hp | hpne
  · rw [hp]
    exact le_trans hle (h.grand h0 i hi0 hi hp)
  · exact h.except i hi0 hi hne hpne

/-- One entry more than an ordered array: only the last edge may be wrong. -/
theorem Ordered.upReady_succ {k : ℕ → K} {n : ℕ} (h : Ordered k n) :
    UpReady k (n + 1) n := by
  constructor
  · intro i h0 hi hne
    exact h i h0 (by omega)
  · intro _ i h0 hi hp
    have := parent_lt h0
    omega

/-- Dropping the last entry and moving it into a hole. -/
theorem Ordered.broken_of_last {k k' : ℕ → K} {n hole : ℕ}
    (h : Ordered k (n + 1)) (hlt : hole < n)
    (heq : ∀ i, i < n → i ≠ hole → k' i = k i) : Broken k' n hole :=
  (h.mono (Nat.le_succ n)).broken hlt heq

/-! ### Sifting one step -/

/-- **One step up.**  The hole holds a key below its parent's; after the
exchange the hole has moved to the parent. -/
theorem UpReady.swap {k : ℕ → K} {n hole : ℕ} (h : UpReady k n hole)
    (h0 : 0 < hole) (hlt : hole < n) (hle : k hole ≤ k (parent hole)) :
    UpReady (k ∘ Equiv.swap hole (parent hole)) n (parent hole) := by
  have hp := parent_lt h0
  constructor
  · intro i hi0 hi hne
    rcases eq_or_ne i hole with rfl | hih
    · rw [swap_left, swap_right]
      exact hle
    · rw [swap_of_ne k hih hne]
      rcases eq_or_ne (parent i) hole with hph | hph
      · -- a child of the old hole now hangs under the old parent's key
        rw [hph, swap_left]
        exact h.grand h0 i hi0 hi hph
      · rcases eq_or_ne (parent i) (parent hole) with hpp | hpp
        · -- the sibling of the old hole
          rw [hpp, swap_right]
          exact le_trans hle (hpp ▸ h.except i hi0 hi hih)
        · rw [swap_of_ne k hph hpp]
          exact h.except i hi0 hi hih
  · intro hp0 i hi0 hi hpi
    have hpp := parent_lt hp0
    have hgrand : k (parent (parent hole)) ≤ k (parent hole) :=
      h.except (parent hole) hp0 (by omega) (by omega)
    rw [swap_of_ne k (by omega : parent (parent hole) ≠ hole) (by omega)]
    rcases eq_or_ne i hole with rfl | hih
    · rw [swap_left]
      exact hgrand
    · have hil := parent_lt hi0
      rw [swap_of_ne k hih (by omega)]
      exact le_trans hgrand (hpi ▸ h.except i hi0 hi hih)

/-- The loop going up stops at the root, or under a parent that is not above
the hole. -/
theorem UpReady.ordered {k : ℕ → K} {n hole : ℕ} (h : UpReady k n hole)
    (hle : 0 < hole → k (parent hole) ≤ k hole) : Ordered k n := by
  intro i h0 hi
  rcases eq_or_ne i hole with rfl | hne
  · exact hle h0
  · exact h.except i h0 hi hne

/-- **One step down.**  `c` is a least child of the hole and is below it; after
the exchange the hole has moved to `c`. -/
theorem DownReady.swap {k : ℕ → K} {n hole c : ℕ} (h : DownReady k n hole)
    (hc0 : 0 < c) (hcn : c < n) (hc : parent c = hole)
    (hmin : ∀ i, 0 < i → i < n → parent i = hole → k c ≤ k i)
    (hle : k c ≤ k hole) : DownReady (k ∘ Equiv.swap hole c) n c := by
  have hlt : hole < c := hc ▸ parent_lt hc0
  constructor
  · intro i hi0 hi hpi
    rcases eq_or_ne i hole with rfl | hih
    · -- the edge entering the old hole
      have hp := parent_lt hi0
      rw [swap_left, swap_of_ne k (by omega) (by omega)]
      exact h.grand hi0 c hc0 hcn hc
    · rcases eq_or_ne (parent i) hole with hph | hph
      · rw [hph, swap_left]
        rcases eq_or_ne i c with rfl | hic
        · rw [swap_right]
          exact hle
        · rw [swap_of_ne k hih hic]
          exact hmin i hi0 hi hph
      · have hic : i ≠ c := fun hic => hph (hic ▸ hc)
        rw [swap_of_ne k hih hic, swap_of_ne k hph hpi]
        exact h.except i hi0 hi hph
  · intro _ i hi0 hi hpi
    have hil := parent_lt hi0
    rw [hc, swap_left, swap_of_ne k (by omega) (by omega)]
    exact hpi ▸ h.except i hi0 hi (by omega)

/-- The loop going down stops where no child is below the hole. -/
theorem DownReady.ordered {k : ℕ → K} {n hole : ℕ} (h : DownReady k n hole)
    (hle : ∀ i, 0 < i → i < n → parent i = hole → k hole ≤ k i) :
    Ordered k n := by
  intro i h0 hi
  rcases eq_or_ne (parent i) hole with hp | hne
  · rw [hp]
    exact hle i h0 hi hp
  · exact h.except i h0 hi hne

end Order

/-! ## What the array holds -/

section Contents

variable {α : Type*}

/-- The entries below `n`, with multiplicity. -/
def contents (a : ℕ → α) (n : ℕ) : Multiset α := (Multiset.range n).map a

@[simp] theorem contents_zero (a : ℕ → α) : contents a 0 = 0 := rfl

theorem contents_succ (a : ℕ → α) (n : ℕ) :
    contents a (n + 1) = a n ::ₘ contents a n := by
  unfold contents
  rw [Multiset.range_succ, Multiset.map_cons]

theorem contents_congr {a b : ℕ → α} {n : ℕ} (h : ∀ i, i < n → a i = b i) :
    contents a n = contents b n :=
  Multiset.map_congr rfl fun i hi => h i (Multiset.mem_range.mp hi)

theorem mem_contents {a : ℕ → α} {n : ℕ} {x : α} :
    x ∈ contents a n ↔ ∃ i, i < n ∧ a i = x := by
  unfold contents
  rw [Multiset.mem_map]
  exact exists_congr fun i => and_congr_left' Multiset.mem_range

/-- Exchanging two entries below the bound keeps the multiset. -/
theorem contents_swap (a : ℕ → α) {n i j : ℕ} (hi : i < n) (hj : j < n) :
    contents (a ∘ Equiv.swap i j) n = contents a n := by
  have hrange : (Multiset.range n).map (Equiv.swap i j) = Multiset.range n := by
    refine (Multiset.Nodup.ext ?_ (Multiset.nodup_range n)).mpr fun l => ?_
    · exact (Multiset.nodup_range n).map (Equiv.swap i j).injective
    · rw [Multiset.mem_map]
      constructor
      · rintro ⟨m, hm, rfl⟩
        rw [Multiset.mem_range] at hm ⊢
        rw [Equiv.swap_apply_def]
        split_ifs <;> assumption
      · intro hl
        refine ⟨Equiv.swap i j l, ?_, Equiv.swap_apply_self i j l⟩
        rw [Multiset.mem_range] at hl ⊢
        rw [Equiv.swap_apply_def]
        split_ifs <;> assumption
  unfold contents
  rw [← Multiset.map_map, hrange]

/-- Taking out the entry at `i` by moving it behind the bound. -/
theorem contents_swap_last (a : ℕ → α) {n i : ℕ} (hi : i ≤ n) :
    contents a (n + 1) = a i ::ₘ contents (a ∘ Equiv.swap i n) n := by
  rw [← contents_swap a (Nat.lt_succ_of_le hi) (Nat.lt_succ_self n),
    contents_succ, Function.comp_apply, Equiv.swap_apply_right]

end Contents

end ImplicitHeap
