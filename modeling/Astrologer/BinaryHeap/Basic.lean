import Astrologer.Library.ImplicitHeap

/-!
# `binary_heap.c`

The heap of the server is generic in the C way: an array of slots of
`elem_size` bytes, and two function pointers that are handed the addresses of
two slots.  `compare` answers whether the first is *not below* the second (it is
the `>=` of the keys), and `swap` exchanges the contents of the two slots and
may do more: the slots of the server hold pointers, and its callback also
exchanges the `heap_ix` fields of the structures pointed to.

The model keeps that shape.  A callback reads, and `swap` also writes, a memory
`M` outside the array, so an operation takes and returns a `HeapMem`, the memory
together with the heap.  An entry of the array is a value of a type `α`; a slot
number stands for its address, and `elem_size` is left to the address
arithmetic, which nothing here depends on.

Every function returns what the C function returns, and the value of an
out-parameter `*p_elem` is an argument and a result.

## The loops

`heapify_up` runs at most `ix` times and `heapify_down` at most `size` times, so
both loops recurse on a counter that starts there.  That the counter is never
what stops them is `heapifyUp_eq` and `heapifyDown_eq`, the equations of the
source loops.
-/

namespace Astrologer

open ImplicitHeap (parent leftChild)

/-- `struct binary_heap`: the array, its bounds and the two callbacks. -/
structure BinaryHeap (M α : Type*) where
  /-- The slots.  Those at `size` and above hold whatever was left in them. -/
  arr : ℕ → α
  capacity : ℕ
  size : ℕ
  /-- `compare_func`, on the contents of two slots. -/
  compare : M → α → α → Bool
  /-- `swap_func`: the memory and the contents of the two slots afterwards. -/
  swap : M → α → α → M × α × α

/-- The memory the callbacks work on, with the heap. -/
structure HeapMem (M α : Type*) where
  mem : M
  heap : BinaryHeap M α

variable {M α : Type*}

/-- The static function `compare`. -/
def HeapMem.compareIx (s : HeapMem M α) (ixA ixB : ℕ) : Bool :=
  s.heap.compare s.mem (s.heap.arr ixA) (s.heap.arr ixB)

/-- The static function `swap`.  When the two slots are one, the second write
is the one that stays. -/
def HeapMem.swapIx (s : HeapMem M α) (ixA ixB : ℕ) : HeapMem M α :=
  let r := s.heap.swap s.mem (s.heap.arr ixA) (s.heap.arr ixB)
  { mem := r.1
    heap := { s.heap with
      arr := Function.update (Function.update s.heap.arr ixA r.2.1) ixB r.2.2 } }

/-- The loop of `heapify_up`. -/
def heapifyUpLoop : ℕ → HeapMem M α → ℕ → HeapMem M α
  | 0, s, _ => s
  | n + 1, s, ix =>
    if 0 < ix ∧ !s.compareIx ix (parent ix) then
      heapifyUpLoop n (s.swapIx ix (parent ix)) (parent ix)
    else
      s

def heapifyUp (s : HeapMem M α) (ix : ℕ) : HeapMem M α := heapifyUpLoop ix s ix

/-- The child that `heapify_down` compares with its parent: the right one when
it exists and is below the left one. -/
def HeapMem.childIx (s : HeapMem M α) (ix : ℕ) : ℕ :=
  let childIx := leftChild ix
  if childIx + 1 < s.heap.size ∧ !s.compareIx (childIx + 1) childIx then
    childIx + 1
  else
    childIx

/-- The loop of `heapify_down`. -/
def heapifyDownLoop (lastRootIx : ℕ) : ℕ → HeapMem M α → ℕ → HeapMem M α
  | 0, s, _ => s
  | n + 1, s, ix =>
    if ix ≤ lastRootIx then
      let childIx := s.childIx ix
      if s.compareIx childIx ix then
        s
      else
        heapifyDownLoop lastRootIx n (s.swapIx ix childIx) childIx
    else
      s

def heapifyDown (s : HeapMem M α) (ix : ℕ) : HeapMem M α :=
  if s.heap.size < 2 then
    s
  else
    heapifyDownLoop (parent (s.heap.size - 1)) s.heap.size s ix

/-- `binary_heap_allocate`.  The argument `arr` is what `malloc` returned: no
block, or a block with arbitrary contents. -/
def binaryHeapAllocate (arr : Option (ℕ → α)) (capacity : ℕ)
    (compare : M → α → α → Bool) (swap : M → α → α → M × α × α) :
    Option (BinaryHeap M α) :=
  arr.map fun arr => { arr, capacity, size := 0, compare, swap }

/-- `binary_heap_top`.  The result is `none` for `-1`; else it is the element in
the slot whose address is stored in `*pp_elem`. -/
def binaryHeapTop (s : HeapMem M α) : Option α :=
  if s.heap.size = 0 then none else some (s.heap.arr 0)

def binaryHeapPush (s : HeapMem M α) (elem : α) : ℤ × HeapMem M α :=
  if s.heap.size ≥ s.heap.capacity then
    (-1, s)
  else
    let s := { s with heap := { s.heap with
      arr := Function.update s.heap.arr s.heap.size elem
      size := s.heap.size + 1 } }
    (0, heapifyUp s (s.heap.size - 1))

def binaryHeapPop (s : HeapMem M α) (elem : α) : ℤ × HeapMem M α × α :=
  if s.heap.size = 0 then
    (-1, s, elem)
  else
    let elem := s.heap.arr 0
    let s := { s with heap := { s.heap with size := s.heap.size - 1 } }
    let s := s.swapIx 0 s.heap.size
    (0, heapifyDown s 0, elem)

def binaryHeapUpdate (s : HeapMem M α) (ix : ℕ) : HeapMem M α :=
  if 0 < ix ∧ !s.compareIx ix (parent ix) then
    heapifyUp s ix
  else
    heapifyDown s ix

def binaryHeapRemove (s : HeapMem M α) (ix : ℕ) (elem : α) :
    ℤ × HeapMem M α × α :=
  if ix ≥ s.heap.size then
    (-1, s, elem)
  else
    let elem := s.heap.arr ix
    let s := { s with heap := { s.heap with size := s.heap.size - 1 } }
    if ix ≠ s.heap.size then
      (0, binaryHeapUpdate (s.swapIx ix s.heap.size) ix, elem)
    else
      (0, s, elem)

/-! ## The source loops -/

@[simp] theorem HeapMem.swapIx_size (s : HeapMem M α) (i j : ℕ) :
    (s.swapIx i j).heap.size = s.heap.size := rfl

/-- The counter of `heapifyUpLoop` does not matter once it is large enough. -/
theorem heapifyUpLoop_of_le {n : ℕ} (s : HeapMem M α) (ix : ℕ) (h : ix ≤ n) :
    heapifyUpLoop n s ix = heapifyUp s ix := by
  unfold heapifyUp
  induction ix using Nat.strongRecOn generalizing n s with
  | ind ix ih =>
    rcases Nat.eq_zero_or_pos ix with rfl | h0
    · cases n <;> simp [heapifyUpLoop]
    · obtain ⟨m, rfl⟩ : ∃ m, n = m + 1 := ⟨n - 1, by omega⟩
      obtain ⟨l, rfl⟩ : ∃ l, ix = l + 1 := ⟨ix - 1, by omega⟩
      have hp := ImplicitHeap.parent_lt h0
      simp only [heapifyUpLoop]
      split
      · rw [ih _ hp _ (by omega : parent (l + 1) ≤ m),
          ih _ hp _ (by omega : parent (l + 1) ≤ l)]
      · rfl

/-- `while (ix > 0 && !compare(heap, ix, PARENT(ix)))`. -/
theorem heapifyUp_eq (s : HeapMem M α) (ix : ℕ) :
    heapifyUp s ix =
      if 0 < ix ∧ !s.compareIx ix (parent ix) then
        heapifyUp (s.swapIx ix (parent ix)) (parent ix)
      else s := by
  have hunfold : heapifyUp s ix = heapifyUpLoop (ix + 1) s ix :=
    (heapifyUpLoop_of_le s ix (Nat.le_succ ix)).symm
  rw [hunfold, heapifyUpLoop]
  split
  next h =>
    have hp := ImplicitHeap.parent_lt h.1
    rw [heapifyUpLoop_of_le _ _ (by omega)]
  next => rfl

theorem HeapMem.leftChild_le_childIx (s : HeapMem M α) (ix : ℕ) :
    leftChild ix ≤ s.childIx ix := by
  unfold HeapMem.childIx
  simp only
  split <;> omega

/-- The child looked at exists when the left child does. -/
theorem HeapMem.childIx_lt (s : HeapMem M α) {ix : ℕ}
    (h : leftChild ix < s.heap.size) : s.childIx ix < s.heap.size := by
  unfold HeapMem.childIx
  simp only
  split
  next hr => exact hr.1
  next => exact h

theorem HeapMem.parent_childIx (s : HeapMem M α) (ix : ℕ) :
    parent (s.childIx ix) = ix := by
  unfold HeapMem.childIx
  simp only
  split
  · exact ImplicitHeap.parent_rightChild ix
  · exact ImplicitHeap.parent_leftChild ix

theorem HeapMem.lt_childIx (s : HeapMem M α) (ix : ℕ) : ix < s.childIx ix :=
  lt_of_lt_of_le (ImplicitHeap.lt_leftChild ix) (s.leftChild_le_childIx ix)

/-- The counter of `heapifyDownLoop` does not matter while it covers the rest of
the array: every round moves to a child that is still inside. -/
theorem heapifyDownLoop_of_le {n m : ℕ} (s : HeapMem M α) (ix : ℕ)
    (h2 : 2 ≤ s.heap.size) (hn : s.heap.size ≤ ix + n)
    (hm : s.heap.size ≤ ix + m) :
    heapifyDownLoop (parent (s.heap.size - 1)) n s ix =
      heapifyDownLoop (parent (s.heap.size - 1)) m s ix := by
  induction n generalizing m s ix with
  | zero =>
    have hix : ¬ ix ≤ parent (s.heap.size - 1) := by
      unfold parent
      omega
    cases m <;> simp [heapifyDownLoop, hix]
  | succ n ih =>
    rcases m with _ | m
    · have hix : ¬ ix ≤ parent (s.heap.size - 1) := by
        unfold parent
        omega
      simp [heapifyDownLoop, hix]
    · have hlt := s.lt_childIx ix
      simp only [heapifyDownLoop]
      split
      · split
        · rfl
        · exact ih (s.swapIx ix (s.childIx ix)) (s.childIx ix) h2
            (by rw [HeapMem.swapIx_size]; omega)
            (by rw [HeapMem.swapIx_size]; omega)
      · rfl

/-- `while (ix <= last_root_ix)`, for a heap that has a last root. -/
theorem heapifyDown_eq (s : HeapMem M α) (ix : ℕ) (h2 : 2 ≤ s.heap.size) :
    heapifyDown s ix =
      if ix ≤ parent (s.heap.size - 1) then
        if s.compareIx (s.childIx ix) ix then s
        else heapifyDown (s.swapIx ix (s.childIx ix)) (s.childIx ix)
      else s := by
  have hne : ¬ s.heap.size < 2 := by omega
  have hlt := s.lt_childIx ix
  have hunfold : heapifyDown s ix = heapifyDownLoop (parent (s.heap.size - 1))
      (s.heap.size + 1) s ix := by
    rw [heapifyDown, if_neg hne]
    exact heapifyDownLoop_of_le s ix h2 (by omega) (by omega)
  rw [hunfold, heapifyDownLoop]
  split
  · simp only
    split
    · rfl
    · rw [heapifyDown, HeapMem.swapIx_size, if_neg hne]
  · rfl

theorem heapifyDown_of_size_lt {s : HeapMem M α} (ix : ℕ) (h : s.heap.size < 2) :
    heapifyDown s ix = s := by
  rw [heapifyDown, if_pos h]

end Astrologer
