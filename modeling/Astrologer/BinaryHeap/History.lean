import Astrologer.BinaryHeap.Sift

/-!
# Every history of a heap

A heap is allocated, then pushed to, popped from, searched and re-keyed in any
order.  `HeapReachable key s` is all of these histories, with nothing assumed of
them: an operation may be refused, an index may be out of range, and a stored
element may be given any other key, up or down, if `binary_heap_update` is
called on its index before anything else.

* `heapReachable_minimal`: the array is heap ordered after every operation, so
  `binary_heap_top` shows a minimal element.
* `heapReachable_exact`: what each operation adds or takes out is exactly what
  it says, and popping until the heap is empty lists the stored elements in
  order.

Both are read off the invariant `HeapWf` and one lemma for each operation.
-/

namespace Astrologer

open ImplicitHeap

variable {M α K : Type*} [Preorder K] [Std.Total (fun a b : K => a ≤ b)]
  {key : M → α → K}

/-- The stored elements. -/
def HeapMem.elems (s : HeapMem M α) : Multiset α := contents s.heap.arr s.heap.size

/-- The invariant of a heap between two operations: the callbacks compare and exchange as they
should, and no stored element is above its parent. -/
structure HeapWf (key : M → α → K) (s : HeapMem M α) : Prop where
  lawful : Lawful key s.heap
  ordered : Ordered (s.keys key) s.heap.size

omit [Std.Total (fun a b : K => a ≤ b)] in
/-- A sequence of exchanges that ends in order ends in a well-formed heap. -/
theorem HeapWf.of_swaps {s t : HeapMem M α} (hl : Lawful key s.heap)
    (h : Swaps s t) (ho : Ordered (t.keys key) s.heap.size) : HeapWf key t :=
  ⟨hl.of_swaps h, h.size_eq.symm ▸ ho⟩

/-! ## The operations, one lemma each

What an operation does to the order and to the contents, in all of its cases.  The sifts are taken
from `BinaryHeap.Sift`; what is left is what an operation does to the array before it sifts. -/

omit [Preorder K] [Std.Total (fun a b : K => a ≤ b)] in
theorem binaryHeapPush_of_full {s : HeapMem M α} (h : s.heap.capacity ≤ s.heap.size)
    (elem : α) : binaryHeapPush s elem = (-1, s) :=
  if_pos h

/-- The heap a successful push sifts: the new element stands behind the last. -/
def HeapMem.append (s : HeapMem M α) (elem : α) : HeapMem M α :=
  { s with heap := { s.heap with
      arr := Function.update s.heap.arr s.heap.size elem
      size := s.heap.size + 1 } }

omit [Preorder K] [Std.Total (fun a b : K => a ≤ b)] in
theorem binaryHeapPush_of_room {s : HeapMem M α} (h : s.heap.size < s.heap.capacity)
    (elem : α) :
    binaryHeapPush s elem = (0, heapifyUp (s.append elem) s.heap.size) := by
  rw [binaryHeapPush, if_neg (not_le.mpr h)]
  rfl

theorem HeapWf.push {s : HeapMem M α} (hs : HeapWf key s)
    (h : s.heap.size < s.heap.capacity) (elem : α) :
    (binaryHeapPush s elem).1 = 0 ∧ HeapWf key (binaryHeapPush s elem).2 ∧
      Swaps (s.append elem) (binaryHeapPush s elem).2 ∧
      (binaryHeapPush s elem).2.elems = elem ::ₘ s.elems := by
  rw [binaryHeapPush_of_room h]
  have hl : Lawful key (s.append elem).heap := hs.lawful.of_eq rfl rfl
  have hold : ∀ i, i < s.heap.size → (s.append elem).heap.arr i = s.heap.arr i :=
    fun i hi => Function.update_of_ne (Nat.ne_of_lt hi) _ _
  have hnew : (s.append elem).heap.arr s.heap.size = elem := Function.update_self _ _ _
  have hready : UpReady ((s.append elem).keys key) (s.heap.size + 1) s.heap.size := by
    refine (hs.ordered.congr fun i hi => ?_).upReady_succ
    exact congrArg (key s.mem) (hold i hi)
  have hsw := swaps_heapifyUp (s.append elem) s.heap.size (Nat.lt_succ_self _)
  refine ⟨rfl, HeapWf.of_swaps hl hsw
    (ordered_heapifyUp _ _ hl (Nat.lt_succ_self _) hready), hsw, ?_⟩
  calc contents _ _
      = contents (s.append elem).heap.arr (s.heap.size + 1) := hl.contents_of_swaps hsw
    _ = elem ::ₘ s.elems := by
        rw [contents_succ, hnew, contents_congr hold]
        rfl

/-- The heap that a removal leaves to be repaired: one entry shorter, with the
last entry in the place of the one removed. -/
def HeapMem.dropIx (s : HeapMem M α) (ix : ℕ) : HeapMem M α :=
  HeapMem.swapIx
    { s with heap := { s.heap with size := s.heap.size - 1 } } ix (s.heap.size - 1)

omit [Std.Total (fun a b : K => a ≤ b)] in
theorem Lawful.elems_dropIx {s : HeapMem M α} (hl : Lawful key s.heap) {ix : ℕ}
    (hix : ix < s.heap.size) : s.elems = s.heap.arr ix ::ₘ (s.dropIx ix).elems := by
  obtain ⟨n, hn⟩ : ∃ n, s.heap.size = n + 1 := ⟨s.heap.size - 1, by omega⟩
  have hl' : Lawful key (HeapMem.heap
      { s with heap := { s.heap with size := s.heap.size - 1 } }) := hl.of_eq rfl rfl
  have harr : (s.dropIx ix).heap.arr = s.heap.arr ∘ Equiv.swap ix n := by
    rw [HeapMem.dropIx, hl'.swapIx_arr, hn]
    rfl
  have hsize : (s.dropIx ix).heap.size = n := by
    rw [HeapMem.dropIx, HeapMem.swapIx_size]
    show s.heap.size - 1 = n
    omega
  rw [HeapMem.elems, HeapMem.elems, harr, hsize, hn]
  exact contents_swap_last s.heap.arr (by omega)

omit [Std.Total (fun a b : K => a ≤ b)] in
theorem HeapWf.broken_dropIx {s : HeapMem M α} (hs : HeapWf key s) {ix : ℕ}
    (hix : ix < s.heap.size - 1) :
    Broken ((s.dropIx ix).keys key) (s.dropIx ix).heap.size ix := by
  have hl' : Lawful key (HeapMem.heap
      { s with heap := { s.heap with size := s.heap.size - 1 } }) :=
    hs.lawful.of_eq rfl rfl
  have hkeys : (s.dropIx ix).keys key =
      s.keys key ∘ Equiv.swap ix (s.heap.size - 1) := hl'.keys_swapIx ix _
  have hord : Ordered (s.keys key) (s.heap.size - 1 + 1) :=
    hs.ordered.mono (by omega)
  refine hord.broken_of_last hix fun i hi hne => ?_
  have hi' : i < s.heap.size - 1 := hi
  rw [hkeys, swap_of_ne _ hne (by omega)]

omit [Preorder K] [Std.Total (fun a b : K => a ≤ b)] in
theorem binaryHeapRemove_of_le {s : HeapMem M α} {ix : ℕ} (h : s.heap.size ≤ ix)
    (elem : α) : binaryHeapRemove s ix elem = (-1, s, elem) :=
  if_pos h

omit [Preorder K] [Std.Total (fun a b : K => a ≤ b)] in
/-- What a removal does to the slots: the last entry is dropped where it stands, or
exchanged and sifted. -/
theorem swaps_binaryHeapRemove {s : HeapMem M α} {ix : ℕ} (hix : ix < s.heap.size)
    (elem : α) :
    (binaryHeapRemove s ix elem).2.1 =
        { s with heap := { s.heap with size := s.heap.size - 1 } } ∨
      ix < s.heap.size - 1 ∧ Swaps (s.dropIx ix) (binaryHeapRemove s ix elem).2.1 := by
  rw [binaryHeapRemove, if_neg (not_le.mpr hix)]
  simp only
  split
  next hne =>
    have hlt : ix < s.heap.size - 1 := by
      have : ix ≠ s.heap.size - 1 := hne
      omega
    exact Or.inr ⟨hlt, swaps_binaryHeapUpdate (s.dropIx ix) ix hlt⟩
  next => exact Or.inl rfl

theorem HeapWf.remove {s : HeapMem M α} (hs : HeapWf key s) {ix : ℕ}
    (hix : ix < s.heap.size) (elem : α) :
    (binaryHeapRemove s ix elem).1 = 0 ∧
      (binaryHeapRemove s ix elem).2.2 = s.heap.arr ix ∧
      HeapWf key (binaryHeapRemove s ix elem).2.1 ∧
      s.elems = s.heap.arr ix ::ₘ (binaryHeapRemove s ix elem).2.1.elems := by
  have hdrop := hs.lawful.elems_dropIx hix
  rw [binaryHeapRemove, if_neg (not_le.mpr hix)]
  simp only
  split
  next hne =>
    have hlt : ix < s.heap.size - 1 := by
      have : ix ≠ s.heap.size - 1 := hne
      omega
    have hl : Lawful key (s.dropIx ix).heap := hs.lawful.of_eq rfl rfl
    have hbroken := hs.broken_dropIx hlt
    have hsw : Swaps (s.dropIx ix) (binaryHeapUpdate (s.dropIx ix) ix) :=
      swaps_binaryHeapUpdate (s.dropIx ix) ix hlt
    refine ⟨rfl, rfl, HeapWf.of_swaps hl hsw
      (ordered_binaryHeapUpdate (s.dropIx ix) ix hl hlt hbroken), ?_⟩
    rw [hdrop]
    exact congrArg _ (hl.contents_of_swaps hsw).symm
  next heq =>
    have hlast : ix = s.heap.size - 1 := not_not.mp heq
    refine ⟨rfl, rfl, ⟨hs.lawful.of_eq rfl rfl, hs.ordered.mono (Nat.sub_le _ _)⟩, ?_⟩
    -- the entry removed was the last one: no exchange takes place
    obtain ⟨n, hn⟩ : ∃ n, s.heap.size = n + 1 := ⟨s.heap.size - 1, by omega⟩
    have hn' : ix = n := by omega
    rw [HeapMem.elems, hn, contents_succ, hn']
    rfl

omit [Preorder K] [Std.Total (fun a b : K => a ≤ b)] in
theorem binaryHeapPop_of_empty {s : HeapMem M α} (h : s.heap.size = 0) (elem : α) :
    binaryHeapPop s elem = (-1, s, elem) :=
  if_pos h

theorem HeapWf.pop {s : HeapMem M α} (hs : HeapWf key s) (h0 : 0 < s.heap.size)
    (elem : α) :
    (binaryHeapPop s elem).1 = 0 ∧
      (binaryHeapPop s elem).2.2 = s.heap.arr 0 ∧
      HeapWf key (binaryHeapPop s elem).2.1 ∧
      Swaps (s.dropIx 0) (binaryHeapPop s elem).2.1 ∧
      s.elems = s.heap.arr 0 ::ₘ (binaryHeapPop s elem).2.1.elems := by
  have hl : Lawful key (s.dropIx 0).heap := hs.lawful.of_eq rfl rfl
  have hsw : Swaps (s.dropIx 0) (heapifyDown (s.dropIx 0) 0) :=
    swaps_heapifyDown (s.dropIx 0) 0
  have hpop : binaryHeapPop s elem =
      (0, heapifyDown (s.dropIx 0) 0, s.heap.arr 0) := by
    rw [binaryHeapPop, if_neg (by omega)]
    rfl
  have hready : DownReady ((s.dropIx 0).keys key) (s.dropIx 0).heap.size 0 := by
    rcases Nat.lt_or_ge 0 (s.heap.size - 1) with hlt | hge
    · exact (hs.broken_dropIx hlt).downReady fun h => absurd h (lt_irrefl 0)
    · -- the only entry was popped
      have hempty : (s.dropIx 0).heap.size = 0 := by
        show s.heap.size - 1 = 0
        omega
      exact ⟨fun i _ hi => absurd hi (by omega), fun h => absurd h (lt_irrefl 0)⟩
  rw [hpop]
  refine ⟨rfl, rfl, HeapWf.of_swaps hl hsw (ordered_heapifyDown _ 0 hl hready), hsw, ?_⟩
  rw [hs.lawful.elems_dropIx h0]
  exact congrArg _ (hl.contents_of_swaps hsw).symm

/-- The keys other than the one at `ix` are as they were; the element at `ix`
has been given some other key, in the memory or in its slot. -/
structure KeyChange (key : M → α → K) (s s' : HeapMem M α) (ix : ℕ) : Prop where
  size_eq : s'.heap.size = s.heap.size
  capacity_eq : s'.heap.capacity = s.heap.capacity
  compare_eq : s'.heap.compare = s.heap.compare
  swap_eq : s'.heap.swap = s.heap.swap
  arr_eq : ∀ i, i < s.heap.size → i ≠ ix → s'.heap.arr i = s.heap.arr i
  keys_eq : ∀ i, i < s.heap.size → i ≠ ix → s'.keys key i = s.keys key i

theorem HeapWf.update {s s' : HeapMem M α} (hs : HeapWf key s) {ix : ℕ}
    (hix : ix < s.heap.size) (h : KeyChange key s s' ix) :
    HeapWf key (binaryHeapUpdate s' ix) ∧ Swaps s' (binaryHeapUpdate s' ix) ∧
      (binaryHeapUpdate s' ix).elems = s'.elems := by
  have hl : Lawful key s'.heap := hs.lawful.of_eq h.compare_eq h.swap_eq
  have hix' : ix < s'.heap.size := h.size_eq.symm ▸ hix
  have hbroken : Broken (s'.keys key) s'.heap.size ix := by
    rw [h.size_eq]
    exact hs.ordered.broken hix h.keys_eq
  have hsw := swaps_binaryHeapUpdate s' ix hix'
  exact ⟨HeapWf.of_swaps hl hsw (ordered_binaryHeapUpdate s' ix hl hix' hbroken), hsw,
    hl.contents_of_swaps hsw⟩

omit [Std.Total (fun a b : K => a ≤ b)] in
/-- The root of a well-formed heap has a least key. -/
theorem HeapWf.top_le {s : HeapMem M α} (hs : HeapWf key s) {x : α}
    (hx : binaryHeapTop s = some x) :
    x ∈ s.elems ∧ ∀ y ∈ s.elems, key s.mem x ≤ key s.mem y := by
  unfold binaryHeapTop at hx
  split at hx
  · exact absurd hx (by simp)
  next hne =>
    have h0 : 0 < s.heap.size := Nat.pos_of_ne_zero hne
    rw [Option.some.injEq] at hx
    refine ⟨mem_contents.mpr ⟨0, h0, hx⟩, fun y hy => ?_⟩
    obtain ⟨i, hi, rfl⟩ := mem_contents.mp hy
    rw [← hx]
    exact hs.ordered.root_le i hi

/-! ## Histories

By induction on the history: each operation keeps the invariant, and the invariant puts a least
key at the top. -/

/-- The states a heap can get into: it is allocated with callbacks that are lawful, and then the
operations are called in any order, with any arguments, whether they fail or not.  Before an
update the caller has changed one key; `KeyChange` is what it may touch. -/
inductive HeapReachable (key : M → α → K) : HeapMem M α → Prop
  | allocate {arr : Option (ℕ → α)} {capacity : ℕ} {compare : M → α → α → Bool}
      {swap : M → α → α → M × α × α} {heap : BinaryHeap M α} (mem : M)
      (h : binaryHeapAllocate arr capacity compare swap = some heap)
      (hl : Lawful key heap) : HeapReachable key ⟨mem, heap⟩
  | push {s : HeapMem M α} (elem : α) (h : HeapReachable key s) :
      HeapReachable key (binaryHeapPush s elem).2
  | pop {s : HeapMem M α} (elem : α) (h : HeapReachable key s) :
      HeapReachable key (binaryHeapPop s elem).2.1
  | remove {s : HeapMem M α} (ix : ℕ) (elem : α) (h : HeapReachable key s) :
      HeapReachable key (binaryHeapRemove s ix elem).2.1
  | update {s s' : HeapMem M α} {ix : ℕ} (h : HeapReachable key s)
      (hix : ix < s.heap.size) (hk : KeyChange key s s' ix) :
      HeapReachable key (binaryHeapUpdate s' ix)

theorem HeapReachable.wf {s : HeapMem M α} (h : HeapReachable key s) :
    HeapWf key s := by
  induction h with
  | @allocate arr capacity compare swap heap mem halloc hl =>
    obtain ⟨a, -, rfl⟩ := Option.map_eq_some_iff.mp halloc
    exact ⟨hl, fun i _ hi => absurd hi (Nat.not_lt_zero i)⟩
  | @push s elem _ ih =>
    rcases lt_or_ge s.heap.size s.heap.capacity with hlt | hge
    · exact (ih.push hlt elem).2.1
    · rw [binaryHeapPush_of_full hge]
      exact ih
  | @pop s elem _ ih =>
    rcases Nat.eq_zero_or_pos s.heap.size with h0 | h0
    · rw [binaryHeapPop_of_empty h0]
      exact ih
    · exact (ih.pop h0 elem).2.2.1
  | @remove s ix elem _ ih =>
    rcases lt_or_ge ix s.heap.size with hlt | hge
    · exact (ih.remove hlt elem).2.2.1
    · rw [binaryHeapRemove_of_le hge]
      exact ih
  | update _ hix hk ih => exact (ih.update hix hk).1

/-- **Heap order survives every history**, and the top is minimal. -/
theorem heapReachable_minimal {s : HeapMem M α} (h : HeapReachable key s) :
    (∀ i, 0 < i → i < s.heap.size →
      ¬ key s.mem (s.heap.arr i) < key s.mem (s.heap.arr (parent i))) ∧
    ∀ x, binaryHeapTop s = some x →
      x ∈ s.elems ∧ ∀ y ∈ s.elems, key s.mem x ≤ key s.mem y :=
  ⟨fun i h0 hi => not_lt_of_ge (h.wf.ordered i h0 hi), fun _ hx => h.wf.top_le hx⟩

/-! A history to run: the keys live in the memory, the elements `0`, `1`, `2` are
pushed with the keys `5`, `3`, `4`, the least is raised to `9` where it stands,
and the second entry is removed. -/

/-- The key of an element is what the memory holds for it. -/
def sampleKey (m : ℕ → ℤ) (x : ℕ) : ℤ := m x

/-- A fresh heap of capacity four. -/
def sampleFresh : HeapMem (ℕ → ℤ) ℕ where
  mem := fun x => if x = 0 then 5 else if x = 1 then 3 else 4
  heap :=
    { arr := fun _ => 0
      capacity := 4
      size := 0
      compare := fun m a b => decide (sampleKey m b ≤ sampleKey m a)
      swap := fun m a b => (m, b, a) }

def samplePushed : HeapMem (ℕ → ℤ) ℕ :=
  (binaryHeapPush (binaryHeapPush (binaryHeapPush sampleFresh 0).2 1).2 2).2

/-- The key of the element `1`, at the root, raised to `9`. -/
def sampleRaised : HeapMem (ℕ → ℤ) ℕ :=
  { samplePushed with mem := Function.update samplePushed.mem 1 9 }

def sampleHistory : HeapMem (ℕ → ℤ) ℕ :=
  (binaryHeapRemove (binaryHeapUpdate sampleRaised 0) 1 0).2.1

theorem sampleHistory_reachable : HeapReachable sampleKey sampleHistory := by
  have hpushed : HeapReachable sampleKey samplePushed := by
    have halloc : binaryHeapAllocate (some fun _ => 0) 4
        (fun m a b => decide (sampleKey m b ≤ sampleKey m a)) (fun m a b => (m, b, a)) =
        some (sampleFresh.heap) := rfl
    have hl : Lawful sampleKey sampleFresh.heap :=
      ⟨fun _ _ _ => decide_eq_true_iff, fun _ _ _ => rfl, fun _ _ _ _ => rfl⟩
    exact (((HeapReachable.allocate sampleFresh.mem halloc hl).push 0).push 1).push 2
  have hsize : samplePushed.heap.size = 3 := rfl
  have hkeys : ∀ i, i < 3 → i ≠ 0 →
      sampleRaised.keys sampleKey i = samplePushed.keys sampleKey i := by
    decide
  have hchange : KeyChange sampleKey samplePushed sampleRaised 0 :=
    ⟨rfl, rfl, rfl, rfl, fun _ _ _ => rfl, hkeys⟩
  exact (hpushed.update (by omega) hchange).remove 1 0

theorem sampleHistory_minimal :
    binaryHeapTop sampleHistory = some 2 ∧
      ∀ y ∈ sampleHistory.elems,
        sampleKey sampleHistory.mem 2 ≤ sampleKey sampleHistory.mem y :=
  ⟨by decide, ((heapReachable_minimal sampleHistory_reachable).2 2 (by decide)).2⟩

/-! ## Popping everything

The elements come out in order, since each is a least one of those that are left. -/

/-- Pop at most `n` times, stopping when a pop fails; the elements popped, and
the heap left. -/
def popAll (elem : α) : ℕ → HeapMem M α → List α × HeapMem M α
  | 0, s => ([], s)
  | n + 1, s =>
    let r := binaryHeapPop s elem
    if r.1 = 0 then
      let t := popAll elem n r.2.1
      (r.2.2 :: t.1, t.2)
    else
      ([], s)

/-- The drain: induction on the number of pops.  A pop keeps every key, so
"in order" can be said with the keys of the heap drained. -/
theorem HeapWf.popAll {s : HeapMem M α} (hs : HeapWf key s) (elem : α) (n : ℕ)
    (hn : s.heap.size ≤ n) :
    (popAll elem n s).2.heap.size = 0 ∧
      ((popAll elem n s).1 : Multiset α) = s.elems ∧
      (popAll elem n s).1.Pairwise fun x y => key s.mem x ≤ key s.mem y := by
  induction n generalizing s with
  | zero =>
    have h0 : s.heap.size = 0 := by omega
    have hempty : s.elems = 0 := by rw [HeapMem.elems, h0, contents_zero]
    exact ⟨h0, hempty.symm, List.Pairwise.nil⟩
  | succ n ih =>
    rcases Nat.eq_zero_or_pos s.heap.size with h0 | h0
    · have hempty : s.elems = 0 := by rw [HeapMem.elems, h0, contents_zero]
      have hpop : Astrologer.popAll elem (n + 1) s = ([], s) := by
        rw [Astrologer.popAll, binaryHeapPop_of_empty h0]
        exact if_neg (show ¬ (-1 : ℤ) = 0 by omega)
      rw [hpop]
      exact ⟨h0, hempty.symm, List.Pairwise.nil⟩
    · obtain ⟨hret, helem, hwf, hsw, hcont⟩ := hs.pop h0 elem
      have hl : Lawful key (s.dropIx 0).heap := hs.lawful.of_eq rfl rfl
      have hkey : ∀ x, key (binaryHeapPop s elem).2.1.mem x = key s.mem x := fun x =>
        (hl.key_of_swaps hsw x).trans (hs.lawful.key_swap _ _ _ _)
      have hsize : (binaryHeapPop s elem).2.1.heap.size ≤ n := by
        rw [hsw.size_eq]
        show s.heap.size - 1 ≤ n
        omega
      obtain ⟨hend, hmem, hsorted⟩ := ih hwf hsize
      have hpop : Astrologer.popAll elem (n + 1) s =
          (s.heap.arr 0 :: (Astrologer.popAll elem n (binaryHeapPop s elem).2.1).1,
            (Astrologer.popAll elem n (binaryHeapPop s elem).2.1).2) := by
        rw [Astrologer.popAll, if_pos hret, helem]
      rw [hpop]
      refine ⟨hend, ?_, ?_⟩
      · rw [hcont, ← hmem]
        rfl
      · rw [List.pairwise_cons]
        refine ⟨fun y hy => ?_, hsorted.imp fun {a b} hab => ?_⟩
        · have hy' : y ∈ (binaryHeapPop s elem).2.1.elems := by
            rw [← hmem]
            exact hy
          have hys : y ∈ s.elems := by
            rw [hcont]
            exact Multiset.mem_cons_of_mem hy'
          obtain ⟨i, hi, rfl⟩ := mem_contents.mp hys
          exact hs.ordered.root_le i hi
        · rwa [hkey, hkey] at hab

/-- **Every operation moves exactly the elements it names**, after any history,
and popping until the heap is empty lists what is stored, each element once, in
non-decreasing order of the keys. -/
theorem heapReachable_exact {s : HeapMem M α} (h : HeapReachable key s) (elem : α) :
    (s.heap.size < s.heap.capacity →
      (binaryHeapPush s elem).1 = 0 ∧
        (binaryHeapPush s elem).2.elems = elem ::ₘ s.elems) ∧
    (s.heap.capacity ≤ s.heap.size → binaryHeapPush s elem = (-1, s)) ∧
    (s.heap.size = 0 →
      binaryHeapTop s = none ∧ binaryHeapPop s elem = (-1, s, elem)) ∧
    (0 < s.heap.size →
      (binaryHeapPop s elem).1 = 0 ∧
        binaryHeapTop s = some (binaryHeapPop s elem).2.2 ∧
        s.elems = (binaryHeapPop s elem).2.2 ::ₘ (binaryHeapPop s elem).2.1.elems) ∧
    (∀ ix, s.heap.size ≤ ix → binaryHeapRemove s ix elem = (-1, s, elem)) ∧
    (∀ ix, ix < s.heap.size →
      (binaryHeapRemove s ix elem).1 = 0 ∧
        (binaryHeapRemove s ix elem).2.2 = s.heap.arr ix ∧
        s.elems = s.heap.arr ix ::ₘ (binaryHeapRemove s ix elem).2.1.elems) ∧
    (∀ s' ix, ix < s.heap.size → KeyChange key s s' ix →
      (binaryHeapUpdate s' ix).elems = s'.elems) ∧
    (∀ n, s.heap.size ≤ n →
      (popAll elem n s).2.heap.size = 0 ∧
        ((popAll elem n s).1 : Multiset α) = s.elems ∧
        (popAll elem n s).1.Pairwise fun x y => key s.mem x ≤ key s.mem y) := by
  have hwf := h.wf
  refine ⟨fun hlt => ?_, fun hge => binaryHeapPush_of_full hge elem, fun h0 => ?_,
    fun h0 => ?_, fun ix hge => binaryHeapRemove_of_le hge elem, fun ix hlt => ?_,
    fun s' ix hix hk => (hwf.update hix hk).2.2, fun n hn => hwf.popAll elem n hn⟩
  · obtain ⟨hret, -, -, hcont⟩ := hwf.push hlt elem
    exact ⟨hret, hcont⟩
  · exact ⟨if_pos h0, binaryHeapPop_of_empty h0 elem⟩
  · obtain ⟨hret, helem, -, -, hcont⟩ := hwf.pop h0 elem
    rw [helem]
    exact ⟨hret, if_neg (Nat.pos_iff_ne_zero.mp h0), hcont⟩
  · obtain ⟨hret, helem, -, hcont⟩ := hwf.remove hlt elem
    exact ⟨hret, helem, hcont⟩

theorem sampleHistory_exact :
    (popAll 0 4 sampleHistory).1 = [2, 1] ∧
      ((popAll 0 4 sampleHistory).1 : Multiset ℕ) = sampleHistory.elems :=
  ⟨by decide,
    ((heapReachable_exact sampleHistory_reachable 0).2.2.2.2.2.2.2 4 (by decide)).2.1⟩

end Astrologer
