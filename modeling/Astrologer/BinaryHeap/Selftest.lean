import Astrologer.BinaryHeap.Validate
import Astrologer.Generic
import Astrologer.Library.Numeral
import Mathlib.Data.Stream.Init

/-!
# `binary_heap_test.c`

The program takes the size of a heap, fills the heap with elements that have random times,
changes the times at random places, removes half of the elements at random places and pops the
others.  After every operation it asks `binary_heap_validate`, and in the end it asks whether
the popped elements are in order.  Whatever goes wrong, it frees what it has allocated, and it
fails when it has allocated more than it has freed.

`Process` is its memory.  Blocks have the addresses `1`, `2`, ... in the order in which they
are allocated.  Freeing a block that is not allocated is not defined, and neither is a remainder
by zero; a function that may come to that has no result then.  What `rand` and `malloc` give is
a stream, and so is what is in a block before it is written: `create_elem` leaves `tv_nsec` as
it is.  A sum that is too large is taken modulo `2 ^ 64`; whatever the times are, they are
compared as numbers.

`main_spec` is what there is to say about a run.  It always comes to its end; nothing is freed
twice, and nothing is left; and the result is `EXIT_SUCCESS` if and only if `malloc` has never
failed.
-/

namespace Astrologer.HeapTest

open ImplicitHeap Numeral

/-! ## Memory

Times and `heap_ix` are in blocks of memory, and the heap has their addresses; so `swap_elem`
writes the memory, as it does in the server.  The set of allocated blocks is not known to the
program, which counts. -/

abbrev Ptr := ℕ

/-- `struct testing_elem`. -/
structure TestingElem where
  tvSec : ℤ
  tvNsec : ℤ
  heapIx : ℕ

abbrev Mem := Ptr → TestingElem

/-- The process of the self-test: its memory and heap, the books that it keeps of its allocations,
and what the library functions will return to it. -/
structure Process where
  mem : Mem
  heap : BinaryHeap Mem Ptr
  /-- The blocks of elements that are allocated. -/
  allocated : Finset Ptr
  /-- The address of the next block. -/
  next : Ptr
  activeAllocations : ℤ
  /-- What `rand` returns. -/
  rands : Stream' ℕ
  /-- What `malloc` returns for an element: the block, with something in it. -/
  mallocs : Stream' (Option TestingElem)

def Process.heapMem (s : Process) : HeapMem Mem Ptr := ⟨s.mem, s.heap⟩

def Process.withHeap (s : Process) (h : HeapMem Mem Ptr) : Process :=
  { s with mem := h.mem, heap := h.heap }

/-- `rand() % m`. -/
def Process.randMod (s : Process) (m : ℕ) : Option (ℕ × Process) :=
  if m = 0 then none else some (s.rands.head % m, { s with rands := s.rands.tail })

/-! ## The functions

The functions of the test, in their order.  One that may come to something undefined returns an
option; a loop over a number of rounds is a recursion on the number. -/

/-- `UPDATE_TIME_STEP`. -/
def updateTimeStep : ℤ := 10

/-- `ACCUM_TIME_NS`, in the `long` of the platform.  The times of the test are what stood in the
blocks, so the sum may be too large; signed overflow is undefined in C, and here it wraps around,
as it does on the machines the program runs on.  Nothing that is proved depends on it, but that
the callbacks compare by some key. -/
def accumTimeNs (e : TestingElem) : ℤ := (e.tvSec * 1000000000 + e.tvNsec).bmod (2 ^ 64)

/-- A block is allocated, with this element in it. -/
def Process.create (s : Process) (e : TestingElem) : Process :=
  { s with
    mem := Function.update s.mem s.next e
    allocated := insert s.next s.allocated
    next := s.next + 1
    activeAllocations := s.activeAllocations + 1 }

/-- `tv_nsec` is what was in the block. -/
def createElem (heapIx limit : ℕ) (s : Process) : Option (Option Ptr × Process) :=
  let s' := { s with mallocs := s.mallocs.tail }
  match s.mallocs.head with
  | none => some (none, s')
  | some raw => do
    -- `(int)limit`
    let (r, s) ← s'.randMod ((limit : ℤ).bmod (2 ^ 32)).natAbs
    some (some s.next, s.create { raw with heapIx := heapIx, tvSec := r })

def freeElem (e : Ptr) (s : Process) : Option Process :=
  if e ∈ s.allocated then
    some { s with
      allocated := s.allocated.erase e
      activeAllocations := s.activeAllocations - 1 }
  else none

/-- Free one after the other. -/
def freeAll : List Ptr → Process → Option Process
  | [], s => some s
  | e :: es, s => (freeElem e s).bind (freeAll es)

def lessTs (a b : TestingElem) : Bool := decide (accumTimeNs b ≤ accumTimeNs a)

def compareElem (mem : Mem) (a b : Ptr) : Bool := lessTs (mem a) (mem b)

/-- The two slots are exchanged, and then the `heap_ix` of what they point to. -/
def swapElem (mem : Mem) (a b : Ptr) : Mem × Ptr × Ptr :=
  let elemA := b
  let elemB := a
  let tmpHeapIx := (mem elemA).heapIx
  let mem := Function.update mem elemA { mem elemA with heapIx := (mem elemB).heapIx }
  let mem := Function.update mem elemB { mem elemB with heapIx := tmpHeapIx }
  (mem, elemA, elemB)

/-- `n` rounds of the loop of `test_heap_push`. -/
def testHeapPushLoop : ℕ → ℕ → Process → Option (ℤ × Process)
  | 0, _, s => some (0, s)
  | n + 1, i, s => do
    let (elem, s) ← createElem i s.heap.capacity s
    match elem with
    | none => some (-1, s)
    | some elem =>
      let r := binaryHeapPush s.heapMem elem
      let s := s.withHeap r.2
      if r.1 ≠ 0 then
        let s ← freeElem elem s
        some (-1, s)
      else if binaryHeapValidate s.heapMem ≠ 0 then some (-1, s)
      else testHeapPushLoop n (i + 1) s

def testHeapPush (s : Process) : Option (ℤ × Process) :=
  testHeapPushLoop s.heap.capacity 0 s

/-- `elem_arr[ix]->ts.tv_sec += step`. -/
def Process.addTime (s : Process) (ix : ℕ) (step : ℤ) : Process :=
  let p := s.heap.arr ix
  { s with mem := Function.update s.mem p { s.mem p with tvSec := (s.mem p).tvSec + step } }

/-- A half of a round of `test_heap_update`: it makes a time later, or earlier. -/
def updateOnce (step : ℤ) (s : Process) : Option (ℤ × Process) := do
  let (ix, s) ← s.randMod s.heap.size
  let s := s.addTime ix step
  let s := s.withHeap (binaryHeapUpdate s.heapMem ix)
  if binaryHeapValidate s.heapMem ≠ 0 then some (-1, s) else some (0, s)

def testHeapUpdate : ℕ → Process → Option (ℤ × Process)
  | 0, s => some (0, s)
  | n + 1, s => do
    let (ret, s) ← updateOnce updateTimeStep s
    if ret ≠ 0 then some (-1, s)
    else
      let (ret, s) ← updateOnce (-updateTimeStep) s
      if ret ≠ 0 then some (-1, s) else testHeapUpdate n s

def testHeapRemove : ℕ → Process → Option (ℤ × Process)
  | 0, s => some (0, s)
  | n + 1, s => do
    let (ix, s) ← s.randMod s.heap.size
    let r := binaryHeapRemove s.heapMem ix 0
    let s := s.withHeap r.2.1
    if r.1 ≠ 0 then some (-1, s)
    else
      let s ← freeElem r.2.2 s
      if binaryHeapValidate s.heapMem ≠ 0 then some (-1, s) else testHeapRemove n s

/-- `test_heap_pop`; `elemArr` is what has been popped. -/
def testHeapPop : ℕ → List Ptr → Process → Option (ℤ × List Ptr × Process)
  | 0, elemArr, s => some (0, elemArr, s)
  | n + 1, elemArr, s =>
    match binaryHeapTop s.heapMem with
    | none => (freeAll elemArr.reverse s).map fun s => (-1, elemArr, s)
    | some _ =>
      let r := binaryHeapPop s.heapMem 0
      let s := s.withHeap r.2.1
      if r.1 ≠ 0 then (freeAll elemArr.reverse s).map fun s => (-1, elemArr, s)
      else
        let elemArr := elemArr ++ [r.2.2]
        if binaryHeapValidate s.heapMem ≠ 0 then
          (freeAll elemArr.reverse s).map fun s => (-1, elemArr, s)
        else testHeapPop n elemArr s

def isSorted (mem : Mem) : List Ptr → ℤ
  | [] => 0
  | [_] => 0
  | a :: b :: arr => if !lessTs (mem b) (mem a) then -1 else isSorted mem (b :: arr)

/-- `strtoul(s, &endptr, 10)`. -/
def strtoul (s : List UInt8) : Conversion :=
  let rest := takeSign (s.dropWhile isSpace)
  let digits := rest.2.takeWhile (isDigit 10)
  if digits = [] then { result := 0, endptr := s, erange := false }
  else conversion rest.1 (value 10 digits) (rest.2.dropWhile (isDigit 10))

def parseHeapSize (s : List UInt8) : ℕ :=
  let c := strtoul s
  if c.erange then 0 else if c.endptr.headD 0 ≠ 0 then 0 else c.result.toNat

/-! ## `main`

The three labels of the error path, each with what it frees, and `main` from the argument on. -/

def exitSuccess : ℤ := 0
def exitFailure : ℤ := 1

/-- From `FREE_HEAP_ELEMS`. -/
def freeHeapElems (result : ℤ) (s : Process) : Option (ℤ × Process) := do
  let s ← freeAll ((List.range s.heap.size).map s.heap.arr) s
  if result = exitSuccess ∧ s.activeAllocations ≠ 0 then some (exitFailure, s)
  else some (result, s)

/-- From `FREE_POPPED_ELEMS`. -/
def freePoppedElems (result : ℤ) (poppedElems : List Ptr) (s : Process) :
    Option (ℤ × Process) := do
  let s ← freeAll poppedElems s
  freeHeapElems result s

/-- When half of the elements are removed. -/
def popTests (elemToPop : ℕ) (s : Process) : Option (ℤ × Process) := do
  let (ret, poppedElems, s) ← testHeapPop elemToPop [] s
  if ret ≠ 0 then freeHeapElems exitFailure s
  else if (binaryHeapTop s.heapMem).isSome then freePoppedElems exitFailure poppedElems s
  else
    let r := binaryHeapPop s.heapMem 0
    let s := s.withHeap r.2.1
    if r.1 = 0 then freePoppedElems exitFailure poppedElems s
    else if isSorted s.mem poppedElems ≠ 0 then freePoppedElems exitFailure poppedElems s
    else freePoppedElems exitSuccess poppedElems s

/-- When the heap is allocated.  The argument is whether `malloc` gives a block for
`popped_elems`. -/
def heapTests (elemToAllocate : ℕ) (popped : Bool) (s : Process) : Option (ℤ × Process) := do
  let (ret, s) ← testHeapPush s
  if ret ≠ 0 then freeHeapElems exitFailure s
  else
    let r := binaryHeapPush s.heapMem 0
    let s := s.withHeap r.2
    if r.1 = 0 then freeHeapElems exitFailure s
    else
      let (ret, s) ← testHeapUpdate elemToAllocate s
      if ret ≠ 0 then freeHeapElems exitFailure s
      else
        let (ret, s) ← testHeapRemove (elemToAllocate / 2) s
        if ret ≠ 0 then freeHeapElems exitFailure s
        else if !popped then freeHeapElems exitFailure s
        else popTests (elemToAllocate - elemToAllocate / 2) s

/-- What the rest of the world gives to a run: the block for the heap, whether there is one for
`popped_elems`, and the streams. -/
structure World where
  heapBlock : Option (ℕ → Ptr)
  popped : Bool
  mem : Mem
  rands : Stream' ℕ
  mallocs : Stream' (Option TestingElem)

/-- Nothing has been allocated. -/
def World.process (w : World) (heap : BinaryHeap Mem Ptr) : Process where
  mem := w.mem
  heap := heap
  allocated := ∅
  next := 1
  activeAllocations := 0
  rands := w.rands
  mallocs := w.mallocs

/-- `main`, with the arguments behind the name of the program: the result, and the process if
there was a heap. -/
def main (argv : List (List UInt8)) (w : World) : Option (ℤ × Option Process) :=
  match argv with
  | [arg] =>
    let elemToAllocate := parseHeapSize arg
    if elemToAllocate = 0 then some (exitFailure, none)
    else
      match binaryHeapAllocate w.heapBlock elemToAllocate compareElem swapElem with
      | none => some (exitFailure, none)
      | some heap =>
        (heapTests elemToAllocate w.popped (w.process heap)).map fun r => (r.1, some r.2)
  | _ => some (exitFailure, none)

/-! ## What is allocated

The ledger says which blocks are allocated, by the names of those who have them: the heap, the
elements that were popped, and the one in hand.  A block that is freed is one of these, so the
`free` is defined. -/

/-- The time of an element. -/
def key (mem : Mem) (p : Ptr) : ℤ := accumTimeNs (mem p)

/-- These blocks are allocated, each once, and the counter of the program says how many they are.
The two multisets are equal, so nothing is lost and nothing is freed twice. -/
structure Ledger (s : Process) (blocks : Multiset Ptr) : Prop where
  allocated : blocks = s.allocated.val
  active : s.activeAllocations = s.allocated.card

/-- The invariant of the self-test: the heap is in order, every allocated block is either in the
heap or among `out`, the pointers that the functions hold at the moment, and the next address is
above them all. -/
structure Inv (s : Process) (out : Multiset Ptr) : Prop where
  wf : HeapWf key s.heapMem
  ledger : Ledger s (s.heapMem.elems + out)
  next : ∀ p ∈ s.allocated, p < s.next

section Blocks

variable {s s' : Process} {p : Ptr} {rest out : Multiset Ptr}

/-- **A block that is freed is allocated.**  It is in the ledger, so `free` is defined, and behind
it the ledger is the rest. -/
theorem Ledger.free (h : Ledger s (p ::ₘ rest)) :
    ∃ s', freeElem p s = some s' ∧ Ledger s' rest ∧ s' = { s with
      allocated := s.allocated.erase p, activeAllocations := s.activeAllocations - 1 } := by
  have hmem : p ∈ s.allocated := by
    rw [← Finset.mem_val, ← h.allocated]
    exact Multiset.mem_cons_self p rest
  refine ⟨_, if_pos hmem, ⟨?_, ?_⟩, rfl⟩
  · dsimp only
    rw [Finset.erase_val, ← h.allocated, Multiset.erase_cons_head]
  · dsimp only
    have hpos := Finset.card_pos.mpr ⟨p, hmem⟩
    rw [Finset.card_erase_of_mem hmem, h.active]
    omega

theorem Ledger.freeAll {ps : List Ptr} (h : Ledger s (ps + rest)) :
    ∃ s', HeapTest.freeAll ps s = some s' ∧ Ledger s' rest ∧ s'.heap = s.heap := by
  induction ps generalizing s with
  | nil =>
    refine ⟨s, rfl, ?_, rfl⟩
    rwa [Multiset.coe_nil, zero_add] at h
  | cons p ps ih =>
    rw [← Multiset.cons_coe, Multiset.cons_add] at h
    obtain ⟨s₁, hfree, hledger, rfl⟩ := h.free
    obtain ⟨s₂, hall, hledger₂, hheap⟩ := ih hledger
    refine ⟨s₂, ?_, hledger₂, hheap⟩
    rw [HeapTest.freeAll, hfree]
    exact hall

/-- **`FREE_HEAP_ELEMS`**: when all that is allocated is in the heap, nothing is left behind it,
and the counter is `0`. -/
theorem Ledger.freeHeapElems (h : Ledger s s.heapMem.elems) (result : ℤ) :
    ∃ s', HeapTest.freeHeapElems result s = some (result, s') ∧ s'.allocated = ∅ ∧
      s'.activeAllocations = 0 := by
  have hheap : Ledger s (((List.range s.heap.size).map s.heap.arr : List Ptr) + 0) := by
    rw [add_zero]
    exact h
  obtain ⟨s', hall, hledger, -⟩ := hheap.freeAll
  have hempty : s'.allocated = ∅ := Finset.val_eq_zero.mp hledger.allocated.symm
  have hactive : s'.activeAllocations = 0 := by
    rw [hledger.active, hempty]
    rfl
  refine ⟨s', ?_, hempty, hactive⟩
  simp [HeapTest.freeHeapElems, hall, hactive]

theorem Inv.freeHeapElems (h : Inv s 0) (result : ℤ) :
    ∃ s', HeapTest.freeHeapElems result s = some (result, s') ∧ s'.allocated = ∅ ∧
      s'.activeAllocations = 0 := by
  have hledger := h.ledger
  rw [add_zero] at hledger
  exact hledger.freeHeapElems result

theorem Inv.freePoppedElems {popped : List Ptr} (h : Inv s popped) (result : ℤ) :
    ∃ s', HeapTest.freePoppedElems result popped s = some (result, s') ∧ s'.allocated = ∅ ∧
      s'.activeAllocations = 0 := by
  have hledger := h.ledger
  rw [add_comm] at hledger
  obtain ⟨s₁, hall, hledger₁, hheap⟩ := hledger.freeAll
  have helems : s.heapMem.elems = s₁.heapMem.elems := by
    simp only [HeapMem.elems, Process.heapMem, hheap]
  rw [helems] at hledger₁
  obtain ⟨s', hfree, hend⟩ := hledger₁.freeHeapElems result
  refine ⟨s', ?_, hend⟩
  simp [HeapTest.freePoppedElems, hall, hfree]

end Blocks

/-! ## The operations of the heap

The callbacks of the test are lawful, so each operation is taken from the history of a heap, and
the block that it moves changes its owner in the ledger. -/

theorem swapElem_key (mem : Mem) (a b x : Ptr) : key (swapElem mem a b).1 x = key mem x := by
  by_cases ha : x = a
  · by_cases hab : a = b <;> simp [swapElem, key, accumTimeNs, ha, hab]
  · by_cases hb : x = b
    · have hba : b ≠ a := hb ▸ ha
      simp [swapElem, key, accumTimeNs, hb, hba]
    · simp [swapElem, key, accumTimeNs, ha, hb]

/-- The callbacks of the test. -/
theorem lawful {heap : BinaryHeap Mem Ptr} (hc : heap.compare = compareElem)
    (hs : heap.swap = swapElem) : Lawful key heap := by
  refine ⟨fun mem a b => ?_, fun mem a b => ?_, fun mem a b x => ?_⟩
  · rw [hc, compareElem, lessTs, decide_eq_true_iff]
    rfl
  · rw [hs]
    rfl
  · rw [hs]
    exact swapElem_key mem a b x

/-- A heap that is in order passes the test. -/
theorem validate_of_wf {h : HeapMem Mem Ptr} (hwf : HeapWf key h) : binaryHeapValidate h = 0 := by
  have hcmp := hwf.lawful.compare_iff h.mem
  refine binaryHeapValidate_eq_zero_iff.mpr fun i hleft => (hcmp _ _).mpr ?_
  exact (childIx_le hcmp hleft).mpr fun j h0 hj hparent => hparent ▸ hwf.ordered j h0 hj

section Operations

variable {s s' : Process} {p : Ptr} {out : Multiset Ptr}

/-- No block is in two slots. -/
theorem Inv.arr_injOn (h : Inv s out) {i j : ℕ} (hi : i < s.heap.size) (hj : j < s.heap.size)
    (heq : s.heap.arr i = s.heap.arr j) : i = j := by
  have hnodup : (s.heapMem.elems + out).Nodup := by
    rw [h.ledger.allocated]
    exact s.allocated.nodup
  have helems : ((Multiset.range s.heap.size).map s.heap.arr).Nodup :=
    (Multiset.nodup_add.mp hnodup).1
  exact Multiset.inj_on_of_nodup_map helems i (Multiset.mem_range.mpr hi) j
    (Multiset.mem_range.mpr hj) heq

/-- A block outside the heap. -/
theorem Inv.free (h : Inv s (p ::ₘ out)) : ∃ s', freeElem p s = some s' ∧ Inv s' out ∧
    s' = { s with
      allocated := s.allocated.erase p, activeAllocations := s.activeAllocations - 1 } := by
  have hledger := h.ledger
  rw [Multiset.add_cons] at hledger
  obtain ⟨s', hfree, hledger', rfl⟩ := hledger.free
  exact ⟨_, hfree, ⟨h.wf, hledger', fun q hq => h.next q (Finset.mem_of_mem_erase hq)⟩, rfl⟩

/-- The keys of the heap are the same in another memory. -/
theorem HeapWf.of_keys {mem mem' : Mem} {heap : BinaryHeap Mem Ptr} (h : HeapWf key ⟨mem, heap⟩)
    (hkeys : ∀ i, i < heap.size → key mem' (heap.arr i) = key mem (heap.arr i)) :
    HeapWf key ⟨mem', heap⟩ :=
  ⟨h.lawful, h.ordered.congr hkeys⟩

theorem Inv.mem_allocated (h : Inv s out) {i : ℕ} (hi : i < s.heap.size) :
    s.heap.arr i ∈ s.allocated := by
  rw [← Finset.mem_val, ← h.ledger.allocated]
  exact Multiset.mem_add.mpr (Or.inl (mem_contents.mpr ⟨i, hi, rfl⟩))

theorem Inv.create (h : Inv s out) (e : TestingElem) : Inv (s.create e) (s.next ::ₘ out) := by
  have hfresh : s.next ∉ s.allocated := fun hmem => lt_irrefl _ (h.next _ hmem)
  refine ⟨HeapWf.of_keys h.wf fun i hi => ?_, ⟨?_, ?_⟩, fun p hp => ?_⟩
  · have hne : s.heap.arr i ≠ s.next := fun heq => hfresh (heq ▸ h.mem_allocated hi)
    simp [key, Process.create, Function.update_of_ne hne]
  · show s.heapMem.elems + _ = (insert s.next s.allocated).val
    rw [Multiset.add_cons, h.ledger.allocated, Finset.insert_val_of_notMem hfresh]
  · show s.activeAllocations + 1 = ((insert s.next s.allocated).card : ℤ)
    rw [Finset.card_insert_of_notMem hfresh, h.ledger.active]
    rfl
  · show p < s.next + 1
    rcases Finset.mem_insert.mp hp with rfl | hp
    · exact Nat.lt_succ_self _
    · exact Nat.lt_succ_of_lt (h.next p hp)

/-- An element is created, outside the heap, or `malloc` fails. -/
theorem Inv.createElem (h : Inv s out) (heapIx : ℕ) {limit : ℕ} (hpos : 0 < limit)
    (hlimit : limit < 2 ^ 31) :
    (s.mallocs.head = none ∧ HeapTest.createElem heapIx limit s =
      some (none, { s with mallocs := s.mallocs.tail })) ∨
    (s.mallocs.head.isSome ∧ ∃ p s', HeapTest.createElem heapIx limit s = some (some p, s') ∧
      Inv s' (p ::ₘ out) ∧ s'.heap = s.heap ∧ s'.mallocs = s.mallocs.tail) := by
  cases hhead : s.mallocs.head with
  | none =>
    refine Or.inl ⟨rfl, ?_⟩
    simp [HeapTest.createElem, hhead]
  | some raw =>
    have hint : ((limit : ℤ).bmod (2 ^ 32)).natAbs = limit := by
      rw [Int.bmod_eq_of_le (by omega) (by omega)]
      exact Int.natAbs_natCast limit
    have hne : limit ≠ 0 := Nat.pos_iff_ne_zero.mp hpos
    have hinv : Inv { s with mallocs := s.mallocs.tail, rands := s.rands.tail } out :=
      ⟨h.wf, ⟨h.ledger.allocated, h.ledger.active⟩, h.next⟩
    refine Or.inr ⟨rfl, s.next, _, ?_,
      hinv.create { raw with heapIx := heapIx, tvSec := (s.rands.head % limit : ℕ) }, rfl, rfl⟩
    simp only [HeapTest.createElem, hhead, hint, Process.randMod, if_neg hne]
    rfl

/-- **`binary_heap_push`** puts the block into the heap. -/
theorem Inv.push (h : Inv s (p ::ₘ out)) (hroom : s.heap.size < s.heap.capacity) :
    let r := binaryHeapPush s.heapMem p
    r.1 = 0 ∧ Inv (s.withHeap r.2) out ∧ r.2.heap.size = s.heap.size + 1 ∧
      r.2.heap.capacity = s.heap.capacity := by
  obtain ⟨hret, hwf, hsw, hcont⟩ := h.wf.push hroom p
  refine ⟨hret, ⟨hwf, ⟨?_, h.ledger.active⟩, h.next⟩, hsw.size_eq, hsw.capacity_eq⟩
  have hall := h.ledger.allocated
  show (binaryHeapPush s.heapMem p).2.elems + out = s.allocated.val
  rw [hcont, ← hall, Multiset.cons_add, Multiset.add_cons]

/-- **`binary_heap_remove`** takes it out. -/
theorem Inv.remove (h : Inv s out) {ix : ℕ} (hix : ix < s.heap.size) :
    let r := binaryHeapRemove s.heapMem ix 0
    r.1 = 0 ∧ Inv (s.withHeap r.2.1) (r.2.2 ::ₘ out) ∧ r.2.1.heap.size = s.heap.size - 1 := by
  obtain ⟨hret, helem, hwf, hcont⟩ := h.wf.remove (show ix < s.heapMem.heap.size from hix) 0
  refine ⟨hret, ⟨hwf, ⟨?_, h.ledger.active⟩, h.next⟩, ?_⟩
  · have hall := h.ledger.allocated
    show (binaryHeapRemove s.heapMem ix 0).2.1.elems + _ = s.allocated.val
    rw [← hall, hcont, helem, Multiset.cons_add, Multiset.add_cons]
  · rcases swaps_binaryHeapRemove (show ix < s.heapMem.heap.size from hix) 0 with heq | ⟨-, hsw⟩
    · rw [heq]
      rfl
    · rw [hsw.size_eq]
      rfl

/-- **`binary_heap_pop`** takes out the least, and changes no time. -/
theorem Inv.pop (h : Inv s out) (h0 : 0 < s.heap.size) :
    let r := binaryHeapPop s.heapMem 0
    r.1 = 0 ∧ Inv (s.withHeap r.2.1) (r.2.2 ::ₘ out) ∧ r.2.1.heap.size = s.heap.size - 1 ∧
      (∀ x, key r.2.1.mem x = key s.mem x) ∧
      s.heapMem.elems = r.2.2 ::ₘ r.2.1.elems ∧
      ∀ x ∈ r.2.1.elems, key s.mem r.2.2 ≤ key s.mem x := by
  obtain ⟨hret, helem, hwf, hsw, hcont⟩ := h.wf.pop (show 0 < s.heapMem.heap.size from h0) 0
  have hl : Lawful key (s.heapMem.dropIx 0).heap := h.wf.lawful.of_eq rfl rfl
  have hkey : ∀ x, key (binaryHeapPop s.heapMem 0).2.1.mem x = key s.mem x := fun x =>
    (hl.key_of_swaps hsw x).trans (h.wf.lawful.key_swap _ _ _ _)
  refine ⟨hret, ⟨hwf, ⟨?_, h.ledger.active⟩, h.next⟩, hsw.size_eq, hkey, ?_, fun x hx => ?_⟩
  · have hall := h.ledger.allocated
    show (binaryHeapPop s.heapMem 0).2.1.elems + _ = s.allocated.val
    rw [← hall, hcont, helem, Multiset.cons_add, Multiset.add_cons]
  · rw [hcont, helem]
  · rw [helem]
    have hxs : x ∈ s.heapMem.elems := by
      rw [hcont]
      exact Multiset.mem_cons_of_mem hx
    obtain ⟨i, hi, rfl⟩ := mem_contents.mp hxs
    exact h.wf.ordered.root_le i hi

/-- A time is changed, and **`binary_heap_update`** puts the heap in order again. -/
theorem Inv.update (h : Inv s out) {ix : ℕ} (hix : ix < s.heap.size) (step : ℤ) :
    let t := binaryHeapUpdate (s.addTime ix step).heapMem ix
    Inv ((s.addTime ix step).withHeap t) out ∧ t.heap.size = s.heap.size ∧
      t.heap.capacity = s.heap.capacity := by
  have hchange : KeyChange key s.heapMem (s.addTime ix step).heapMem ix := by
    refine ⟨rfl, rfl, rfl, rfl, fun _ _ _ => rfl, fun i hi hne => ?_⟩
    have hne' : s.heap.arr i ≠ s.heap.arr ix := fun heq => hne (h.arr_injOn hi hix heq)
    simp [HeapMem.keys, Process.heapMem, Process.addTime, key, Function.update_of_ne hne']
  obtain ⟨hwf, hsw, helems⟩ := h.wf.update (show ix < s.heapMem.heap.size from hix) hchange
  refine ⟨⟨hwf, ⟨?_, h.ledger.active⟩, h.next⟩, hsw.size_eq, hsw.capacity_eq⟩
  show (binaryHeapUpdate (s.addTime ix step).heapMem ix).elems + out = s.allocated.val
  rw [helems]
  exact h.ledger.allocated

end Operations

/-! ## The loops

Each test keeps the invariant in every round.  The invariant implies that `binary_heap_validate`
returns `0`, so a test can only fail where `malloc` does. -/

section Loops

variable {s : Process} {out : Multiset Ptr}

theorem Inv.validate (h : Inv s out) : binaryHeapValidate s.heapMem = 0 := validate_of_wf h.wf

theorem Inv.randMod (h : Inv s out) {m : ℕ} (hm : 0 < m) :
    ∃ r, r < m ∧ s.randMod m = some (r, { s with rands := s.rands.tail }) ∧
      Inv { s with rands := s.rands.tail } out :=
  ⟨s.rands.head % m, Nat.mod_lt _ hm, if_neg (Nat.pos_iff_ne_zero.mp hm),
    ⟨h.wf, ⟨h.ledger.allocated, h.ledger.active⟩, h.next⟩⟩

/-- **`test_heap_push`** fills the heap, unless `malloc` fails. -/
theorem Inv.testHeapPushLoop {n : ℕ} (h : Inv s 0) (i : ℕ)
    (hsize : s.heap.size + n = s.heap.capacity)
    (hcap : s.heap.capacity < 2 ^ 31) :
    ∃ r s', HeapTest.testHeapPushLoop n i s = some (r, s') ∧ Inv s' 0 ∧
      s'.heap.capacity = s.heap.capacity ∧ (r = 0 → s'.heap.size = s.heap.capacity) ∧
      (r = 0 ↔ ∀ k < n, (s.mallocs.get k).isSome) := by
  induction n generalizing s i with
  | zero => exact ⟨0, s, rfl, h, rfl, fun _ => hsize, by simp⟩
  | succ n ih =>
    rcases h.createElem i (by omega : 0 < s.heap.capacity) hcap with
      ⟨hhead, hcreate⟩ | ⟨hhead, p, s₁, hcreate, hinv, hheap, hmallocs⟩
    · refine ⟨-1, { s with mallocs := s.mallocs.tail }, ?_,
        ⟨h.wf, ⟨h.ledger.allocated, h.ledger.active⟩, h.next⟩, rfl, by omega, ?_⟩
      · simp [HeapTest.testHeapPushLoop, hcreate]
      · refine iff_of_false (by omega) fun hall => ?_
        have hzero : (s.mallocs.get 0).isSome := hall 0 (Nat.succ_pos n)
        have hget : s.mallocs.get 0 = none := hhead
        rw [hget] at hzero
        cases hzero
    · have hroom : s₁.heap.size < s₁.heap.capacity := by
        rw [hheap]
        omega
      obtain ⟨hret, hpush, hsize', hcap'⟩ := hinv.push hroom
      rw [hheap] at hsize' hcap'
      obtain ⟨r, s', hloop, hinv', hcapacity, hfull, hiff⟩ := ih (i := i + 1) hpush
        (by rw [Process.withHeap, hsize', hcap']; omega)
        (by rw [Process.withHeap, hcap']; exact hcap)
      refine ⟨r, s', ?_, hinv', hcapacity.trans hcap', fun hr => (hfull hr).trans hcap', ?_⟩
      · simp [HeapTest.testHeapPushLoop, hcreate, hret, hpush.validate, hloop]
      · rw [hiff]
        have hget : ∀ k, ((s₁.withHeap (binaryHeapPush s₁.heapMem p).2).mallocs.get k) =
            s.mallocs.get (k + 1) := by
          intro k
          rw [Process.withHeap, hmallocs]
          rfl
        constructor
        · intro hall k hk
          cases k with
          | zero => exact hhead
          | succ k =>
            rw [← hget]
            exact hall k (by omega)
        · intro hall k hk
          rw [hget]
          exact hall (k + 1) (by omega)

/-- A time is changed at a random place. -/
theorem Inv.updateOnce (h : Inv s out) (hpos : 0 < s.heap.size) (step : ℤ) :
    ∃ s', HeapTest.updateOnce step s = some (0, s') ∧ Inv s' out ∧
      s'.heap.size = s.heap.size ∧ s'.heap.capacity = s.heap.capacity := by
  obtain ⟨ix, hix, hrand, hinv⟩ := h.randMod hpos
  obtain ⟨hupdate, hsize, hcap⟩ := hinv.update hix step
  refine ⟨_, ?_, hupdate, hsize, hcap⟩
  simp [HeapTest.updateOnce, hrand, hupdate.validate]

/-- **`test_heap_update`** never fails: behind each change the heap is in order, and so the
validation finds nothing. -/
theorem Inv.testHeapUpdate {n : ℕ} (h : Inv s out) (hpos : 0 < s.heap.size) :
    ∃ s', HeapTest.testHeapUpdate n s = some (0, s') ∧ Inv s' out ∧
      s'.heap.size = s.heap.size ∧ s'.heap.capacity = s.heap.capacity := by
  induction n generalizing s with
  | zero => exact ⟨s, rfl, h, rfl, rfl⟩
  | succ n ih =>
    obtain ⟨s₁, honce, hinv₁, hsize₁, hcap₁⟩ := h.updateOnce hpos updateTimeStep
    obtain ⟨s₂, honce', hinv₂, hsize₂, hcap₂⟩ :=
      hinv₁.updateOnce (hsize₁ ▸ hpos) (-updateTimeStep)
    obtain ⟨s', hloop, hinv', hsize', hcap'⟩ := ih hinv₂ (hsize₂.trans hsize₁ ▸ hpos)
    refine ⟨s', ?_, hinv', hsize'.trans (hsize₂.trans hsize₁), hcap'.trans (hcap₂.trans hcap₁)⟩
    simp [HeapTest.testHeapUpdate, honce, honce', hloop]

/-- **`test_heap_remove`** never fails, as long as it does not remove more than there is; every
block that it takes out it frees. -/
theorem Inv.testHeapRemove {n : ℕ} (h : Inv s out) (hn : n ≤ s.heap.size) :
    ∃ s', HeapTest.testHeapRemove n s = some (0, s') ∧ Inv s' out ∧
      s'.heap.size = s.heap.size - n := by
  induction n generalizing s with
  | zero => exact ⟨s, rfl, h, rfl⟩
  | succ n ih =>
    obtain ⟨ix, hix, hrand, hinv⟩ := h.randMod (by omega : 0 < s.heap.size)
    obtain ⟨hret, hremove, hsize⟩ := hinv.remove hix
    obtain ⟨s₁, hfree, hinv₁, rfl⟩ := hremove.free
    obtain ⟨s', hloop, hinv', hsize'⟩ := ih hinv₁ (by
      show n ≤ (binaryHeapRemove _ ix 0).2.1.heap.size
      rw [hsize]
      dsimp only
      omega)
    refine ⟨s', ?_, hinv', ?_⟩
    · simp [HeapTest.testHeapRemove, hrand, hret, hfree, hinv₁.validate, hloop]
    · rw [hsize']
      show (binaryHeapRemove _ ix 0).2.1.heap.size - n = _
      rw [hsize]
      dsimp only
      omega

/-- These have been popped: they are in order among themselves, and none of them is above an
element still in the heap, so that the next one popped continues the order. -/
structure Popped (s : Process) (elemArr : List Ptr) : Prop where
  sorted : elemArr.Pairwise fun x y => key s.mem x ≤ key s.mem y
  below : ∀ x ∈ elemArr, ∀ y ∈ s.heapMem.elems, key s.mem x ≤ key s.mem y

/-- **`test_heap_pop`** never fails, and pops in order. -/
theorem Inv.testHeapPop {n : ℕ} {elemArr : List Ptr} (h : Inv s elemArr) (hn : n ≤ s.heap.size)
    (hpopped : Popped s elemArr) :
    ∃ elemArr' s', HeapTest.testHeapPop n elemArr s = some (0, elemArr', s') ∧
      Inv s' elemArr' ∧ s'.heap.size = s.heap.size - n ∧ Popped s' elemArr' := by
  induction n generalizing s elemArr with
  | zero => exact ⟨elemArr, s, rfl, h, rfl, hpopped⟩
  | succ n ih =>
    have h0 : 0 < s.heap.size := by omega
    obtain ⟨hret, hinv, hsize, hkey, helems, hleast⟩ := h.pop h0
    have htop : binaryHeapTop s.heapMem = some (s.heap.arr 0) :=
      if_neg (Nat.pos_iff_ne_zero.mp h0)
    generalize hr : binaryHeapPop s.heapMem 0 = r at hret hinv hsize hkey helems hleast
    obtain ⟨ret, t, p⟩ := r
    dsimp only at hret hinv hsize hkey helems hleast
    subst hret
    have hmem : ∀ y ∈ t.elems, y ∈ s.heapMem.elems := by
      intro y hy
      rw [helems]
      exact Multiset.mem_cons_of_mem hy
    have hp : p ∈ s.heapMem.elems := by
      rw [helems]
      exact Multiset.mem_cons_self p _
    have hinv' : Inv (s.withHeap t) (elemArr ++ [p] : List Ptr) := by
      rwa [← Multiset.coe_add, Multiset.coe_singleton, add_comm, Multiset.singleton_add]
    have hpopped' : Popped (s.withHeap t) (elemArr ++ [p]) := by
      have hkey' : ∀ x, key (s.withHeap t).mem x = key s.mem x := hkey
      constructor
      · simp only [hkey']
        refine List.pairwise_append.mpr ⟨hpopped.sorted, List.pairwise_singleton _ _, ?_⟩
        intro x hx y hy
        rw [List.mem_singleton.mp hy]
        exact hpopped.below x hx p hp
      · intro x hx y hy
        rw [hkey', hkey']
        rcases List.mem_append.mp hx with hx | hx
        · exact hpopped.below x hx y (hmem y hy)
        · rw [List.mem_singleton.mp hx]
          exact hleast y hy
    obtain ⟨elemArr', s', hloop, hend, hsize', hsorted⟩ := ih hinv' (by
      show n ≤ t.heap.size
      omega) hpopped'
    refine ⟨elemArr', s', ?_, hend, ?_, hsorted⟩
    · simp [HeapTest.testHeapPop, htop, hr, hinv'.validate, hloop]
    · rw [hsize']
      show t.heap.size - n = _
      omega

/-- **`is_sorted`** finds nothing wrong with what was popped in order; it compares neighbours
only. -/
theorem isSorted_of_pairwise {mem : Mem} {arr : List Ptr}
    (h : arr.Pairwise fun x y => key mem x ≤ key mem y) : isSorted mem arr = 0 := by
  induction arr with
  | nil => rfl
  | cons a arr ih =>
    obtain ⟨ha, harr⟩ := List.pairwise_cons.mp h
    cases arr with
    | nil => rfl
    | cons b arr =>
      have hless : lessTs (mem b) (mem a) = true := decide_eq_true (ha b List.mem_cons_self)
      rw [isSorted, hless]
      exact ih harr

end Loops

/-! ## The program

The tests one behind the other, with the error path of each, and what is left behind the labels.
-/

section Main

variable {s : Process}

theorem Inv.popTests {n : ℕ} (h : Inv s 0) (hn : s.heap.size = n) :
    ∃ s', HeapTest.popTests n s = some (exitSuccess, s') ∧ s'.allocated = ∅ ∧
      s'.activeAllocations = 0 := by
  have hnone : Popped s [] := ⟨List.Pairwise.nil, fun _ hx => absurd hx List.not_mem_nil⟩
  obtain ⟨popped, s₁, hpop, hinv, hsize, hsorted⟩ := h.testHeapPop (le_of_eq hn.symm) hnone
  have hempty : s₁.heap.size = 0 := by omega
  have htop : binaryHeapTop s₁.heapMem = none := if_pos hempty
  have hfail : binaryHeapPop s₁.heapMem 0 = (-1, s₁.heapMem, 0) := if_pos hempty
  obtain ⟨s', hfree, hend⟩ := hinv.freePoppedElems exitSuccess
  refine ⟨s', ?_, hend⟩
  have hsame : s₁.withHeap s₁.heapMem = s₁ := rfl
  simp [HeapTest.popTests, hpop, htop, hfail, hsame, isSorted_of_pairwise hsorted.sorted, hfree]

theorem Inv.heapTests {n : ℕ} (h : Inv s 0) (hn : 0 < n) (hlimit : n < 2 ^ 31)
    (hsize : s.heap.size = 0) (hcap : s.heap.capacity = n) (popped : Bool) :
    ∃ r s', HeapTest.heapTests n popped s = some (r, s') ∧ s'.allocated = ∅ ∧
      s'.activeAllocations = 0 ∧ (r = exitSuccess ∨ r = exitFailure) ∧
      (r = exitSuccess ↔ (∀ k < n, (s.mallocs.get k).isSome) ∧ popped = true) := by
  obtain ⟨r, s₁, hpush, hinv₁, hcap₁, hfull, hiff⟩ :=
    Inv.testHeapPushLoop (n := n) h 0 (by omega) (by omega)
  have hpush' : testHeapPush s = some (r, s₁) := by rwa [testHeapPush, hcap]
  have hne : ¬ exitFailure = exitSuccess := by decide
  by_cases hr : r = 0
  · subst hr
    have hsize₁ : s₁.heap.size = n := (hfull rfl).trans hcap
    have hrefused : binaryHeapPush s₁.heapMem 0 = (-1, s₁.heapMem) :=
      binaryHeapPush_of_full (show s₁.heap.capacity ≤ s₁.heap.size by omega) 0
    have hsame : s₁.withHeap s₁.heapMem = s₁ := rfl
    obtain ⟨s₂, hupdate, hinv₂, hsize₂, -⟩ := Inv.testHeapUpdate (n := n) hinv₁ (by omega)
    obtain ⟨s₃, hremove, hinv₃, hsize₃⟩ :=
      Inv.testHeapRemove (n := n / 2) hinv₂ (by omega)
    cases popped with
    | false =>
      obtain ⟨s', hfree, hempty, hactive⟩ := hinv₃.freeHeapElems exitFailure
      refine ⟨exitFailure, s', ?_, hempty, hactive, Or.inr rfl, by simp [hne]⟩
      simp [HeapTest.heapTests, hpush', hrefused, hsame, hupdate, hremove, hfree]
    | true =>
      obtain ⟨s', hpop, hempty, hactive⟩ := hinv₃.popTests (n := n - n / 2) (by omega)
      refine ⟨exitSuccess, s', ?_, hempty, hactive, Or.inl rfl, ?_⟩
      · simp [HeapTest.heapTests, hpush', hrefused, hsame, hupdate, hremove, hpop]
      · simpa using hiff
  · obtain ⟨s', hfree, hempty, hactive⟩ := hinv₁.freeHeapElems exitFailure
    refine ⟨exitFailure, s', ?_, hempty, hactive, Or.inr rfl, ?_⟩
    · simp [HeapTest.heapTests, hpush', hr, hfree]
    · exact iff_of_false hne fun hall => hr (hiff.mpr hall.1)

/-- **The test passes unless `malloc` fails**, whatever the random numbers are; and whenever it
ends, everything has been freed, once. -/
theorem main_spec (arg : List UInt8) (w : World) (hlimit : parseHeapSize arg < 2 ^ 31) :
    ∃ r s, main [arg] w = some (r, s) ∧ (r = exitSuccess ∨ r = exitFailure) ∧
      (∀ t ∈ s, t.allocated = ∅ ∧ t.activeAllocations = 0) ∧
      (r = exitSuccess ↔ 0 < parseHeapSize arg ∧ w.heapBlock.isSome ∧
        (∀ k < parseHeapSize arg, (w.mallocs.get k).isSome) ∧ w.popped = true) := by
  have hne : ¬ exitFailure = exitSuccess := by decide
  by_cases hzero : parseHeapSize arg = 0
  · refine ⟨exitFailure, none, by simp [main, hzero], Or.inr rfl, by simp, ?_⟩
    exact iff_of_false hne fun h => absurd hzero (Nat.pos_iff_ne_zero.mp h.1)
  · have hpos := Nat.pos_of_ne_zero hzero
    cases hblock : w.heapBlock with
    | none =>
      refine ⟨exitFailure, none, by simp [main, hzero, hblock, binaryHeapAllocate], Or.inr rfl,
        by simp, ?_⟩
      exact iff_of_false hne fun h => Bool.noConfusion h.2.1
    | some arr =>
      let heap : BinaryHeap Mem Ptr := ⟨arr, parseHeapSize arg, 0, compareElem, swapElem⟩
      have hinv : Inv (w.process heap) 0 :=
        ⟨⟨lawful rfl rfl, fun i _ hi => absurd hi (Nat.not_lt_zero i)⟩, ⟨rfl, rfl⟩,
          fun p hp => absurd hp (Finset.notMem_empty p)⟩
      obtain ⟨r, s, htests, hempty, hactive, hr, hiff⟩ :=
        hinv.heapTests hpos hlimit rfl rfl w.popped
      refine ⟨r, some s, ?_, hr, ?_, ?_⟩
      · simp only [main, if_neg hzero, hblock, binaryHeapAllocate, Option.map_some]
        rw [htests]
        rfl
      · intro t ht
        obtain rfl := Option.some.inj ht
        exact ⟨hempty, hactive⟩
      · rw [hiff]
        constructor
        · exact fun h => ⟨hpos, rfl, h⟩
        · exact fun h => h.2.2

/-- Three elements, whose times are garbage. -/
def sampleWorld : World where
  heapBlock := some fun _ => 0
  popped := true
  mem _ := ⟨0, 0, 0⟩
  rands := Stream'.const 7
  mallocs := Stream'.const (some ⟨5, 2 ^ 63 - 1, 9⟩)

theorem sampleWorld_main : ∃ s, main [str "3"] sampleWorld = some (exitSuccess, s) := by
  obtain ⟨r, s, hmain, -, -, hr⟩ := main_spec (str "3") sampleWorld (by decide)
  have hsuccess : r = exitSuccess := hr.mpr ⟨by decide, rfl, fun k _ => rfl, rfl⟩
  exact ⟨s, hsuccess ▸ hmain⟩

end Main

end Astrologer.HeapTest
