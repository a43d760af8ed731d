import Astrologer.BinaryHeap.History

/-!
# How often the heap exchanges

What a heap operation costs are the calls of the callbacks.  In the server every exchange
writes to the blocks of two connections, wherever these are in the memory, so the exchanges are
what is counted here.  They can be counted without another heap: the one that there is knows
nothing of its memory, so the memory may have a counter, and the callback `swap` increments it
(`HeapMem.counting`).

A loop moves one level up or down in each round.  So it makes no more exchanges than the tree
has levels above the entry, or below it (`heapifyUp_counting`, `heapifyDown_counting`).  An
operation makes one more than that at most, and a sequence of operations at most so many for
each of them (`heapCalls_swaps`).  Nothing is asked of the callbacks, so this holds for keys
that are in no order at all, too.
-/

namespace Astrologer

open ImplicitHeap

variable {M α : Type*}

/-! ## Counting

A heap with other callbacks does the same, if these do the same and count besides.  The counter is
put into the memory, and the heap is carried from the one to the other. -/

/-- The same heap, with callbacks that count the exchanges. -/
def BinaryHeap.counting (heap : BinaryHeap M α) : BinaryHeap (M × ℕ) α where
  arr := heap.arr
  capacity := heap.capacity
  size := heap.size
  compare m := heap.compare m.1
  swap m a b :=
    let r := heap.swap m.1 a b
    ((r.1, m.2 + 1), r.2)

/-- The counter shows `n`. -/
def HeapMem.counting (s : HeapMem M α) (n : ℕ) : HeapMem (M × ℕ) α where
  mem := (s.mem, n)
  heap := s.heap.counting

section Loops

variable (s : HeapMem M α) (n : ℕ)

@[simp] theorem counting_size : (s.counting n).heap.size = s.heap.size := rfl

@[simp] theorem counting_compareIx (i j : ℕ) :
    (s.counting n).compareIx i j = s.compareIx i j := rfl

@[simp] theorem counting_swapIx (i j : ℕ) :
    (s.counting n).swapIx i j = (s.swapIx i j).counting (n + 1) := rfl

@[simp] theorem counting_childIx (ix : ℕ) : (s.counting n).childIx ix = s.childIx ix := rfl

/-- **`heapify_up` makes an exchange for each level above the entry**, at most: behind each the
entry is one level higher. -/
theorem heapifyUp_counting (ix : ℕ) :
    ∃ k ≤ depth ix, heapifyUp (s.counting n) ix = (heapifyUp s ix).counting (n + k) := by
  induction ix using Nat.strongRecOn generalizing s n with
  | ind ix ih =>
    rw [heapifyUp_eq s, heapifyUp_eq (s.counting n), counting_compareIx]
    split
    next h =>
      obtain ⟨k, hk, heq⟩ := ih (parent ix) (parent_lt h.1) (s.swapIx ix (parent ix)) (n + 1)
      refine ⟨k + 1, ?_, ?_⟩
      · rw [depth_parent h.1]
        exact Nat.succ_le_succ hk
      · rw [counting_swapIx, heq, Nat.add_assoc, Nat.add_comm 1 k]
    next => exact ⟨0, Nat.zero_le _, rfl⟩

/-- **`heapify_down` makes one for each level below it**, at most; the lowest level is the one of
the last entry. -/
theorem heapifyDown_counting {ix : ℕ} (hix : ix < s.heap.size) :
    ∃ k, depth ix + k ≤ depth (s.heap.size - 1) ∧
      heapifyDown (s.counting n) ix = (heapifyDown s ix).counting (n + k) := by
  have hbase : depth ix + 0 ≤ depth (s.heap.size - 1) := depth_mono (Nat.le_sub_one_of_lt hix)
  rcases lt_or_ge s.heap.size 2 with hlt | h2
  · refine ⟨0, hbase, ?_⟩
    rw [heapifyDown_of_size_lt ix hlt]
    exact heapifyDown_of_size_lt ix hlt
  · obtain ⟨d, hd⟩ : ∃ d, s.heap.size ≤ ix + d := ⟨s.heap.size, Nat.le_add_left _ _⟩
    -- induction on the rest of the array behind the entry
    induction d generalizing s n ix with
    | zero => omega
    | succ d ih =>
      have hsize : 2 ≤ (s.counting n).heap.size := h2
      rw [heapifyDown_eq s ix h2, heapifyDown_eq (s.counting n) ix hsize, counting_childIx,
        counting_compareIx, counting_size]
      split
      next hlast =>
        split
        · exact ⟨0, hbase, rfl⟩
        · have hchild := s.childIx_lt ((leftChild_lt_iff h2).mpr hlast)
          have hlt := s.lt_childIx ix
          have hdepth : depth (s.childIx ix) = depth ix + 1 := by
            rw [depth_parent (Nat.zero_lt_of_lt hlt), s.parent_childIx ix]
          obtain ⟨k, hk, heq⟩ := ih (s.swapIx ix (s.childIx ix)) (n + 1) hchild
            (depth_mono (Nat.le_sub_one_of_lt hchild)) h2 (by rw [HeapMem.swapIx_size]; omega)
          rw [HeapMem.swapIx_size, hdepth] at hk
          refine ⟨k + 1, by omega, ?_⟩
          rw [counting_swapIx, heq, Nat.add_assoc, Nat.add_comm 1 k]
      next => exact ⟨0, hbase, rfl⟩

end Loops

/-! ## The operations

Each operation sifts an entry up or down, and a removal moves one besides. -/

section Operations

variable {s : HeapMem M α} {n ix : ℕ}

theorem binaryHeapUpdate_counting (hix : ix < s.heap.size) :
    ∃ k ≤ depth (s.heap.size - 1),
      binaryHeapUpdate (s.counting n) ix = (binaryHeapUpdate s ix).counting (n + k) := by
  rw [binaryHeapUpdate, binaryHeapUpdate, counting_compareIx]
  split
  · obtain ⟨k, hk, heq⟩ := heapifyUp_counting s n ix
    exact ⟨k, hk.trans (depth_mono (Nat.le_sub_one_of_lt hix)), heq⟩
  · obtain ⟨k, hk, heq⟩ := heapifyDown_counting s n hix
    exact ⟨k, (Nat.le_add_left k _).trans hk, heq⟩

theorem binaryHeapPush_counting (elem : α) :
    ∃ k ≤ depth s.heap.size,
      (binaryHeapPush (s.counting n) elem).2 = (binaryHeapPush s elem).2.counting (n + k) := by
  rcases lt_or_ge s.heap.size s.heap.capacity with hroom | hfull
  · have hroom' : (s.counting n).heap.size < (s.counting n).heap.capacity := hroom
    rw [binaryHeapPush_of_room hroom, binaryHeapPush_of_room hroom']
    exact heapifyUp_counting (s.append elem) n s.heap.size
  · have hfull' : (s.counting n).heap.capacity ≤ (s.counting n).heap.size := hfull
    rw [binaryHeapPush_of_full hfull, binaryHeapPush_of_full hfull']
    exact ⟨0, Nat.zero_le _, rfl⟩

theorem binaryHeapPop_of_pos (h : 0 < s.heap.size) (elem : α) :
    (binaryHeapPop s elem).2.1 = heapifyDown (s.dropIx 0) 0 := by
  rw [binaryHeapPop, if_neg (Nat.ne_of_gt h)]
  rfl

theorem binaryHeapPop_counting (elem : α) :
    ∃ k ≤ 1 + depth (s.heap.size - 2),
      (binaryHeapPop (s.counting n) elem).2.1 =
        (binaryHeapPop s elem).2.1.counting (n + k) := by
  rcases Nat.eq_zero_or_pos s.heap.size with h0 | h0
  · rw [binaryHeapPop_of_empty h0,
      binaryHeapPop_of_empty (show (s.counting n).heap.size = 0 from h0)]
    exact ⟨0, Nat.zero_le _, rfl⟩
  · rw [binaryHeapPop_of_pos h0, binaryHeapPop_of_pos (show 0 < (s.counting n).heap.size from h0)]
    show ∃ k ≤ 1 + depth (s.heap.size - 2),
      heapifyDown ((s.dropIx 0).counting (n + 1)) 0 = _
    have hsize : (s.dropIx 0).heap.size = s.heap.size - 1 := rfl
    rcases Nat.eq_zero_or_pos (s.heap.size - 1) with hlast | hlast
    · have hlt : (s.dropIx 0).heap.size < 2 := by omega
      refine ⟨1, Nat.le_add_right 1 _, ?_⟩
      rw [heapifyDown_of_size_lt 0 hlt]
      exact heapifyDown_of_size_lt 0 hlt
    · obtain ⟨k, hk, heq⟩ := heapifyDown_counting (s.dropIx 0) (n + 1) (hsize ▸ hlast)
      refine ⟨1 + k, Nat.add_le_add_left ((Nat.le_add_left k _).trans hk) 1, ?_⟩
      rw [heq, Nat.add_assoc]

theorem binaryHeapRemove_of_lt (h : ix < s.heap.size) (elem : α) :
    (binaryHeapRemove s ix elem).2.1 =
      if ix ≠ s.heap.size - 1 then binaryHeapUpdate (s.dropIx ix) ix
      else { s with heap := { s.heap with size := s.heap.size - 1 } } := by
  rw [binaryHeapRemove, if_neg (Nat.not_le_of_lt h)]
  dsimp only
  split <;> rfl

theorem binaryHeapRemove_counting (elem : α) :
    ∃ k ≤ 1 + depth (s.heap.size - 2),
      (binaryHeapRemove (s.counting n) ix elem).2.1 =
        (binaryHeapRemove s ix elem).2.1.counting (n + k) := by
  rcases lt_or_ge ix s.heap.size with hix | hix
  · rw [binaryHeapRemove_of_lt hix,
      binaryHeapRemove_of_lt (show ix < (s.counting n).heap.size from hix), counting_size]
    by_cases hne : ix ≠ s.heap.size - 1
    · rw [if_pos hne, if_pos hne]
      show ∃ k ≤ 1 + depth (s.heap.size - 2),
        binaryHeapUpdate ((s.dropIx ix).counting (n + 1)) ix = _
      have hlt : ix < (s.dropIx ix).heap.size := by
        show ix < s.heap.size - 1
        omega
      obtain ⟨k, hk, heq⟩ := binaryHeapUpdate_counting (n := n + 1) hlt
      refine ⟨1 + k, Nat.add_le_add_left hk 1, ?_⟩
      rw [heq, Nat.add_assoc]
    · rw [if_neg hne, if_neg hne]
      exact ⟨0, Nat.zero_le _, rfl⟩
  · rw [binaryHeapRemove_of_le hix,
      binaryHeapRemove_of_le (show (s.counting n).heap.size ≤ ix from hix)]
    exact ⟨0, Nat.zero_le _, rfl⟩

end Operations

/-! ## A sequence of them

The costs are added up; what bounds the levels is the capacity, which never changes. -/

/-- A call of an operation.  The key of an entry is changed where it is, just before
`binary_heap_update` is called. -/
inductive HeapCall (M α : Type*)
  | push (elem : α)
  | pop (elem : α)
  | update (ix : ℕ) (change : M → M)
  | remove (ix : ℕ) (elem : α)

namespace HeapCall

def run : HeapCall M α → HeapMem M α → HeapMem M α
  | push elem, s => (binaryHeapPush s elem).2
  | pop elem, s => (binaryHeapPop s elem).2.1
  | update ix change, s => binaryHeapUpdate { s with mem := change s.mem } ix
  | remove ix elem, s => (binaryHeapRemove s ix elem).2.1

/-- An entry that is updated is one of the heap. -/
def Valid : HeapCall M α → HeapMem M α → Prop
  | update ix _, s => ix < s.heap.size
  | _, _ => True

/-- The counter is not changed with the keys. -/
def counting : HeapCall M α → HeapCall (M × ℕ) α
  | push elem => push elem
  | pop elem => pop elem
  | update ix change => update ix (Prod.map change id)
  | remove ix elem => remove ix elem

def runAll (calls : List (HeapCall M α)) (s : HeapMem M α) : HeapMem M α :=
  calls.foldl (fun s call => call.run s) s

/-- Every call of a sequence is valid. -/
def AllValid : List (HeapCall M α) → HeapMem M α → Prop
  | [], _ => True
  | call :: calls, s => call.Valid s ∧ AllValid calls (call.run s)

variable {call : HeapCall M α} {s : HeapMem M α} {n : ℕ}

/-- The heap stays within its capacity. -/
theorem bounds_run (h : call.Valid s) (hroom : s.heap.size ≤ s.heap.capacity) :
    (call.run s).heap.size ≤ s.heap.capacity ∧
      (call.run s).heap.capacity = s.heap.capacity := by
  cases call with
  | push elem =>
    rw [run]
    rcases lt_or_ge s.heap.size s.heap.capacity with hlt | hfull
    · rw [binaryHeapPush_of_room hlt]
      have hsw := swaps_heapifyUp (s.append elem) s.heap.size (Nat.lt_succ_self _)
      exact ⟨hsw.size_eq ▸ hlt, hsw.capacity_eq⟩
    · rw [binaryHeapPush_of_full hfull]
      exact ⟨hroom, rfl⟩
  | pop elem =>
    rw [run]
    rcases Nat.eq_zero_or_pos s.heap.size with h0 | h0
    · rw [binaryHeapPop_of_empty h0]
      exact ⟨hroom, rfl⟩
    · rw [binaryHeapPop_of_pos h0]
      have hsw := swaps_heapifyDown (s.dropIx 0) 0
      exact ⟨hsw.size_eq ▸ (Nat.sub_le _ 1).trans hroom, hsw.capacity_eq⟩
  | update ix change =>
    have hsw := swaps_binaryHeapUpdate { s with mem := change s.mem } ix h
    exact ⟨hsw.size_eq ▸ hroom, hsw.capacity_eq⟩
  | remove ix elem =>
    rw [run]
    rcases lt_or_ge ix s.heap.size with hix | hix
    · rcases swaps_binaryHeapRemove hix elem with heq | ⟨-, hsw⟩
      · rw [heq]
        exact ⟨(Nat.sub_le _ 1).trans hroom, rfl⟩
      · exact ⟨hsw.size_eq ▸ (Nat.sub_le _ 1).trans hroom, hsw.capacity_eq⟩
    · rw [binaryHeapRemove_of_le hix]
      exact ⟨hroom, rfl⟩

/-- **A call** makes one exchange more than the tree has levels, at most. -/
theorem run_counting (h : call.Valid s) (hroom : s.heap.size ≤ s.heap.capacity) :
    ∃ k ≤ 1 + Nat.log 2 s.heap.capacity,
      call.counting.run (s.counting n) = (call.run s).counting (n + k) := by
  have hlevels : ∀ j, j < s.heap.capacity → depth j ≤ Nat.log 2 s.heap.capacity :=
    fun j hj => Nat.log_mono_right hj
  have hless : depth (s.heap.size - 2) ≤ Nat.log 2 s.heap.capacity := by
    rcases Nat.eq_zero_or_pos s.heap.capacity with h0 | h0
    · have hsize : s.heap.size - 2 = 0 := by omega
      rw [hsize]
      exact Nat.zero_le _
    · exact hlevels _ (by omega)
  cases call with
  | push elem =>
    rcases lt_or_ge s.heap.size s.heap.capacity with hlt | hfull
    · obtain ⟨k, hk, heq⟩ := binaryHeapPush_counting (s := s) (n := n) elem
      exact ⟨k, (hk.trans (hlevels _ hlt)).trans (Nat.le_add_left _ 1), heq⟩
    · have hfull' : (s.counting n).heap.capacity ≤ (s.counting n).heap.size := hfull
      rw [counting, run, run, binaryHeapPush_of_full hfull, binaryHeapPush_of_full hfull']
      exact ⟨0, Nat.zero_le _, rfl⟩
  | pop elem =>
    obtain ⟨k, hk, heq⟩ := binaryHeapPop_counting (s := s) (n := n) elem
    exact ⟨k, hk.trans (Nat.add_le_add_left hless 1), heq⟩
  | update ix change =>
    obtain ⟨k, hk, heq⟩ := binaryHeapUpdate_counting (s := { s with mem := change s.mem })
      (n := n) h
    have hix : ix < s.heap.size := h
    exact ⟨k, (hk.trans (hlevels _ (by show s.heap.size - 1 < _; omega))).trans
      (Nat.le_add_left _ 1), heq⟩
  | remove ix elem =>
    obtain ⟨k, hk, heq⟩ := binaryHeapRemove_counting (s := s) (n := n) elem
    exact ⟨k, hk.trans (Nat.add_le_add_left hless 1), heq⟩

end HeapCall

open HeapCall

/-- **Every sequence of operations is cheap.**  With callbacks that count it leads to the same
heap, and the counter shows one more than the levels of a full tree for each operation, at
most. -/
theorem heapCalls_swaps {calls : List (HeapCall M α)} {s : HeapMem M α}
    (hroom : s.heap.size ≤ s.heap.capacity) (hvalid : AllValid calls s) (n : ℕ) :
    ∃ k ≤ calls.length * (1 + Nat.log 2 s.heap.capacity),
      runAll (calls.map counting) (s.counting n) = (runAll calls s).counting (n + k) := by
  induction calls generalizing s n with
  | nil => exact ⟨0, Nat.zero_le _, rfl⟩
  | cons call calls ih =>
    obtain ⟨hcall, hcalls⟩ := hvalid
    obtain ⟨k, hk, heq⟩ := run_counting (n := n) hcall hroom
    obtain ⟨hsize, hcapacity⟩ := bounds_run hcall hroom
    obtain ⟨l, hl, hrest⟩ := ih (hcapacity ▸ hsize) hcalls (n + k)
    rw [hcapacity] at hl
    refine ⟨k + l, ?_, ?_⟩
    · rw [List.length_cons, Nat.succ_mul, Nat.add_comm k l]
      exact Nat.add_le_add hl hk
    · have hfirst : runAll ((call :: calls).map counting) (s.counting n) =
          runAll (calls.map counting) (call.counting.run (s.counting n)) := rfl
      rw [hfirst, heq, hrest, Nat.add_assoc]
      rfl

/-- Three entries are pushed, the key of the second is lowered, and two are popped. -/
def sampleOperations : List (HeapCall (ℕ → ℤ) ℕ) :=
  [.push 0, .push 1, .push 2, .update 1 fun m => Function.update m 0 1, .pop 0, .pop 0]

theorem sampleOperations_swaps : ∃ k ≤ 18,
    runAll (sampleOperations.map counting) (sampleFresh.counting 0) =
      (runAll sampleOperations sampleFresh).counting k := by
  have hvalid : AllValid sampleOperations sampleFresh :=
    ⟨trivial, trivial, trivial, Nat.one_lt_succ_succ 1, trivial, trivial, trivial⟩
  obtain ⟨k, hk, heq⟩ := heapCalls_swaps (Nat.zero_le 4) hvalid 0
  exact ⟨k, hk, heq.trans (congrArg _ (Nat.zero_add k))⟩

end Astrologer
