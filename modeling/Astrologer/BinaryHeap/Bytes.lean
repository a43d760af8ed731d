import Mathlib
import Astrologer.Library.ImplicitHeap

/-!
# `binary_heap.c` and its bytes

`BinaryHeap.Basic` has slots, and leaves the address of a slot to the machine.  Here are the
addresses.  `ByteHeap` is the same file again with `size_t` arithmetic: an address is the
distance from `heap->arr`, computed as `ix * elem_size` modulo `2 ^ 64`, and the block behind
it has as many bytes as `malloc` was asked for.  The callbacks are handed two addresses.  They
may do anything to the bytes and to the rest of the memory, and so may the caller between two
operations.

`log` records what the code does with addresses: each range of bytes that it hands to
`memcpy` or to a callback, and the exact value of each index expression.  An operation is
safe when its ranges are inside the block and its index expressions are inside `size_t`
(`Access.Safe`).

## The result

The number of bytes is a product, and nobody looks whether it fits.  If it does, everything
is safe in every run (`ByteHeap.Fits`, `Sifts`).  If it does not, the block is smaller than
`capacity` elements, the pushes do not know, and the first one without room writes behind
the block.  So the property holds exactly when `capacity * elem_size < 2 ^ 64`
(`addressed_iff`).  The index that `binary_heap_update` is given is not compared with
anything.  An index of `capacity` or more addresses bytes behind the block at once; the
condition on it is `ByteHeap.Guard`.

The loops have counters as they have in `BinaryHeap.Basic`, and `heapifyUp_eq` and
`heapifyDownLoop_eq` are the loops of the source again.
-/

namespace Astrologer

/-! ## The data

The heap with addresses in bytes and indices of type `size_t`.  Each index expression and each
range is written down where the C computes it, before it is used; nothing is checked, and what
lies outside the block is read and written like the rest. -/

/-- What the heap does with addresses and indices: it reads or writes bytes of its array, or it
computes an index.  The C of the operations is followed access by access, so that a bound on the
record is a bound on the code. -/
inductive Access
  /-- These bytes behind `heap->arr` are addressed. -/
  | range (start len : ℕ)
  /-- An index expression of type `size_t`; this is its exact value. -/
  | index (exact : ℤ)
  deriving DecidableEq

/-- The range is inside a block of so many bytes; the expression does not wrap. -/
def Access.Safe (block : ℕ) : Access → Prop
  | .range start len => start + len ≤ block
  | .index exact => 0 ≤ exact ∧ exact < 2 ^ 64

instance (block : ℕ) : DecidablePred (Access.Safe block)
  | .range start len => inferInstanceAs (Decidable (start + len ≤ block))
  | .index exact => inferInstanceAs (Decidable (0 ≤ exact ∧ exact < 2 ^ 64))

/-- The value of a `size_t` expression. -/
def sizeT (exact : ℤ) : ℕ := (exact % 2 ^ 64).toNat

/-- `struct binary_heap`, with the bytes behind `arr`, the rest of the memory, and the
accesses so far. -/
structure ByteHeap (W : Type*) where
  bytes : ℕ → UInt8
  world : W
  /-- What `malloc` was asked for. -/
  block : ℕ
  capacity : ℕ
  size : ℕ
  elemSize : ℕ
  /-- `compare_func`, on two addresses. -/
  compare : (ℕ → UInt8) → W → ℕ → ℕ → Bool
  /-- `swap_func`, on two addresses. -/
  swap : (ℕ → UInt8) → W → ℕ → ℕ → (ℕ → UInt8) × W
  log : List Access

namespace ByteHeap

variable {W : Type*}

def note (h : ByteHeap W) (as : List Access) : ByteHeap W := { h with log := h.log ++ as }

/-- `PARENT(ix)`. -/
def parentIx (ix : ℕ) : ℕ := sizeT ((ix : ℤ) - 1) / 2

/-- `LEFT_CHILD(ix)`. -/
def leftChildIx (ix : ℕ) : ℕ := sizeT (2 * (ix : ℤ) + 1)

/-- `ix * heap->elem_size`. -/
def address (h : ByteHeap W) (ix : ℕ) : ℕ := sizeT ((ix : ℤ) * h.elemSize)

/-- To address the element at an index. -/
def addressed (h : ByteHeap W) (ix : ℕ) : List Access :=
  [.index ((ix : ℤ) * h.elemSize), .range (h.address ix) h.elemSize]

/-- `memcpy(heap->arr + start, p_elem, heap->elem_size)`. -/
def copyIn (h : ByteHeap W) (start : ℕ) (elem : ℕ → UInt8) : ByteHeap W :=
  { h with bytes := fun x =>
      if start ≤ x ∧ x < start + h.elemSize then elem (x - start) else h.bytes x }

/-- `memcpy(p_elem, heap->arr + start, heap->elem_size)`. -/
def copyOut (h : ByteHeap W) (start : ℕ) (elem : ℕ → UInt8) : ℕ → UInt8 :=
  fun x => if x < h.elemSize then h.bytes (start + x) else elem x

/-! ## The functions

The functions once more, now on bytes.  They are written next to the C, with the same expressions
in the same order, so that the record is the one of the C. -/

/-- The static function `compare`. -/
def compareIx (h : ByteHeap W) (ixA ixB : ℕ) : Bool × ByteHeap W :=
  (h.compare h.bytes h.world (h.address ixA) (h.address ixB),
    h.note (h.addressed ixA ++ h.addressed ixB))

/-- The static function `swap`. -/
def swapIx (h : ByteHeap W) (ixA ixB : ℕ) : ByteHeap W :=
  let r := h.swap h.bytes h.world (h.address ixA) (h.address ixB)
  { h.note (h.addressed ixA ++ h.addressed ixB) with bytes := r.1, world := r.2 }

/-- The loop of `heapify_up`, in which `PARENT(ix)` is written three times. -/
def heapifyUpLoop : ℕ → ByteHeap W → ℕ → ByteHeap W
  | 0, h, _ => h
  | n + 1, h, ix =>
    if 0 < ix then
      let parentCalc : List Access := [.index ((ix : ℤ) - 1)]
      let r := (h.note parentCalc).compareIx ix (parentIx ix)
      if r.1 then
        r.2
      else
        let h := (r.2.note parentCalc).swapIx ix (parentIx ix)
        heapifyUpLoop n (h.note parentCalc) (parentIx ix)
    else
      h

def heapifyUp (h : ByteHeap W) (ix : ℕ) : ByteHeap W := heapifyUpLoop ix h ix

/-- The child that `heapify_down` compares with its parent. -/
def childIx (h : ByteHeap W) (ix : ℕ) : ℕ × ByteHeap W :=
  let childIx := leftChildIx ix
  let right := sizeT ((childIx : ℤ) + 1)
  let h := h.note [.index (2 * (ix : ℤ) + 1), .index ((childIx : ℤ) + 1)]
  if right < h.size then
    let r := (h.note [.index ((childIx : ℤ) + 1)]).compareIx right childIx
    if r.1 then (childIx, r.2) else (right, r.2.note [.index ((childIx : ℤ) + 1)])
  else
    (childIx, h)

/-- The loop of `heapify_down`. -/
def heapifyDownLoop (lastRootIx : ℕ) : ℕ → ByteHeap W → ℕ → ByteHeap W
  | 0, h, _ => h
  | n + 1, h, ix =>
    if ix ≤ lastRootIx then
      let child := h.childIx ix
      let r := child.2.compareIx child.1 ix
      if r.1 then r.2
      else heapifyDownLoop lastRootIx n (r.2.swapIx ix child.1) child.1
    else
      h

def heapifyDown (h : ByteHeap W) (ix : ℕ) : ByteHeap W :=
  if h.size < 2 then
    h
  else
    let last := sizeT ((h.size : ℤ) - 1)
    heapifyDownLoop (parentIx last) h.size
      (h.note [.index ((h.size : ℤ) - 1), .index ((last : ℤ) - 1)]) ix

/-- `binary_heap_allocate`, when `malloc(capacity * elem_size)` succeeds. -/
def binaryHeapAllocate (capacity elemSize : UInt64) (bytes : ℕ → UInt8) (world : W)
    (compare : (ℕ → UInt8) → W → ℕ → ℕ → Bool)
    (swap : (ℕ → UInt8) → W → ℕ → ℕ → (ℕ → UInt8) × W) : ByteHeap W where
  bytes := bytes
  world := world
  block := (capacity * elemSize).toNat
  capacity := capacity.toNat
  size := 0
  elemSize := elemSize.toNat
  compare := compare
  swap := swap
  log := []

/-- `++heap->size`. -/
def grow (h : ByteHeap W) : ByteHeap W :=
  { h.note [.index ((h.size : ℤ) + 1)] with size := sizeT ((h.size : ℤ) + 1) }

/-- `--heap->size`. -/
def shrink (h : ByteHeap W) : ByteHeap W :=
  { h.note [.index ((h.size : ℤ) - 1)] with size := sizeT ((h.size : ℤ) - 1) }

def binaryHeapPush (h : ByteHeap W) (elem : ℕ → UInt8) : ℤ × ByteHeap W :=
  if h.size ≥ h.capacity then
    (-1, h)
  else
    let h := ((h.note (h.addressed h.size)).copyIn (h.address h.size) elem).grow
    (0, (h.note [.index ((h.size : ℤ) - 1)]).heapifyUp (sizeT ((h.size : ℤ) - 1)))

def binaryHeapPop (h : ByteHeap W) (elem : ℕ → UInt8) : ℤ × ByteHeap W × (ℕ → UInt8) :=
  if h.size = 0 then
    (-1, h, elem)
  else
    let elem := h.copyOut 0 elem
    let h := (h.note [.range 0 h.elemSize]).shrink
    (0, (h.swapIx 0 h.size).heapifyDown 0, elem)

def binaryHeapUpdate (h : ByteHeap W) (ix : ℕ) : ByteHeap W :=
  if 0 < ix then
    let r := (h.note [.index ((ix : ℤ) - 1)]).compareIx ix (parentIx ix)
    if r.1 then r.2.heapifyDown ix else r.2.heapifyUp ix
  else
    h.heapifyDown ix

def binaryHeapRemove (h : ByteHeap W) (ix : ℕ) (elem : ℕ → UInt8) :
    ℤ × ByteHeap W × (ℕ → UInt8) :=
  if ix ≥ h.size then
    (-1, h, elem)
  else
    let elem := h.copyOut (h.address ix) elem
    let h := (h.note (h.addressed ix)).shrink
    if ix ≠ h.size then
      (0, (h.swapIx ix h.size).binaryHeapUpdate ix, elem)
    else
      (0, h, elem)

/-! ## Runs

The operations follow each other, with the caller's own writes in between.  An index for
`binary_heap_update` comes from the caller, and the source does not check it. -/

/-- An operation that the heap accepts.  There is nothing about `binary_heap_update` that it
would not accept. -/
inductive Op
  | push (elem : ℕ → UInt8)
  | pop (elem : ℕ → UInt8)
  | update (ix : UInt64)
  | remove (ix : UInt64) (elem : ℕ → UInt8)
  /-- The caller writes somewhere. -/
  | caller

/-- A step of a run: an operation that has succeeded, with the accesses it adds to the record, or
a caller who changes elements in place.  A call that the heap refuses leaves it alone and is no
step; the index of a removal or an update is any `size_t`. -/
inductive Step (h : ByteHeap W) : Op → ByteHeap W → Prop
  | push {elem : ℕ → UInt8} (hret : (h.binaryHeapPush elem).1 = 0) :
    Step h (.push elem) (h.binaryHeapPush elem).2
  | pop {elem : ℕ → UInt8} (hret : (h.binaryHeapPop elem).1 = 0) :
    Step h (.pop elem) (h.binaryHeapPop elem).2.1
  | update (ix : UInt64) : Step h (.update ix) (h.binaryHeapUpdate ix.toNat)
  | remove {ix : UInt64} {elem : ℕ → UInt8} (hret : (h.binaryHeapRemove ix.toNat elem).1 = 0) :
    Step h (.remove ix elem) (h.binaryHeapRemove ix.toNat elem).2.1
  | caller (bytes : ℕ → UInt8) (world : W) :
    Step h .caller { h with bytes := bytes, world := world }

/-- `binary_heap_update` is called with an index of the array, as it is by all its callers;
the index `0` is never compared with its parent. -/
def Guard (h : ByteHeap W) : Op → Prop
  | .update ix => ix = 0 ∨ ix.toNat < h.capacity
  | _ => True

/-- A run whose calls of `binary_heap_update` are all for an index of the array. -/
def GuardedRun : ByteHeap W → ByteHeap W → Prop :=
  Relation.ReflTransGen fun a b => ∃ op, a.Step op b ∧ a.Guard op

/-- Everything done so far is safe. -/
def Safe (h : ByteHeap W) : Prop := ∀ a ∈ h.log, a.Safe h.block

/-! ## What an operation does

Each function is a `Does` or a `Sifts`: what it adds to the record is safe under a condition on
where it is called.  These compose, so an operation is read off from its parts, and no record is
ever looked at as a whole. -/

theorem sizeT_eq {exact : ℤ} (h0 : 0 ≤ exact) (hlt : exact < 2 ^ 64) :
    (sizeT exact : ℤ) = exact := by
  rw [sizeT, Int.emod_eq_of_lt h0 hlt, Int.toNat_of_nonneg h0]

theorem sizeT_natCast {n : ℕ} (h : n < 2 ^ 64) : sizeT (n : ℤ) = n := by
  have heq : (sizeT (n : ℤ) : ℤ) = n :=
    sizeT_eq (Int.natCast_nonneg n) (by exact_mod_cast h)
  exact_mod_cast heq

theorem parentIx_lt {i : ℕ} (h : 0 < i) : parentIx i < i := by
  have hle : sizeT ((i : ℤ) - 1) ≤ i - 1 := by
    rw [sizeT]
    omega
  rw [parentIx]
  omega

/-- The block has room for all elements, and its size has not wrapped: the product that
`binary_heap_allocate` gives `malloc` is the exact one. -/
structure Fits (h : ByteHeap W) : Prop where
  block_eq : h.block = h.capacity * h.elemSize
  product_lt : h.capacity * h.elemSize < 2 ^ 64
  capacity_lt : h.capacity < 2 ^ 64

/-- What happens between two states, for an operation that is called under `P`: the array and its
bounds stay, accesses are added to the record, and they are safe if `P` holds.  Two such pieces
compose (`Does.trans`), which is how the operations are put together. -/
structure Does (P : Prop) (h h' : ByteHeap W) : Prop where
  block_eq : h'.block = h.block
  capacity_eq : h'.capacity = h.capacity
  elemSize_eq : h'.elemSize = h.elemSize
  log : ∃ as, h'.log = h.log ++ as ∧ (P → ∀ a ∈ as, a.Safe h.block)

/-- Nothing is added or taken out. -/
structure Sifts (P : Prop) (h h' : ByteHeap W) : Prop extends Does P h h' where
  size_eq : h'.size = h.size

section Does

variable {P Q : Prop} {h h' h'' : ByteHeap W} {i j k : ℕ}

theorem Does.fits (hd : Does P h h') (hf : h.Fits) : h'.Fits := by
  obtain ⟨hblock, hproduct, hcap⟩ := hf
  constructor
  · rw [hd.block_eq, hd.capacity_eq, hd.elemSize_eq, hblock]
  · rwa [hd.capacity_eq, hd.elemSize_eq]
  · rwa [hd.capacity_eq]

/-- **Safety is kept** by an operation that is called where it may be: the accesses before it were
safe, and so are those that it adds. -/
theorem Does.safe (hd : Does P h h') (hok : P) (hs : h.Safe) : h'.Safe := by
  obtain ⟨as, hlog, has⟩ := hd.log
  intro a ha
  rw [hlog, List.mem_append] at ha
  rw [hd.block_eq]
  exact ha.elim (hs a) (has hok a)

theorem Does.trans (hd : Does P h h') (hd' : Does Q h' h'') (himp : P → Q) :
    Does P h h'' := by
  obtain ⟨as, hlog, has⟩ := hd.log
  obtain ⟨bs, hlog', hbs⟩ := hd'.log
  refine ⟨hd'.block_eq.trans hd.block_eq, hd'.capacity_eq.trans hd.capacity_eq,
    hd'.elemSize_eq.trans hd.elemSize_eq, as ++ bs, ?_, fun hok a ha => ?_⟩
  · rw [hlog', hlog, List.append_assoc]
  · rcases List.mem_append.mp ha with ha | ha
    · exact has hok a ha
    · exact hd.block_eq ▸ hbs (himp hok) a ha

theorem Sifts.trans (hd : Sifts P h h') (hd' : Sifts Q h' h'') (himp : P → Q) :
    Sifts P h h'' :=
  ⟨hd.toDoes.trans hd'.toDoes himp, hd'.size_eq.trans hd.size_eq⟩

theorem sifts_refl (P : Prop) (h : ByteHeap W) : Sifts P h h :=
  ⟨⟨rfl, rfl, rfl, [], (List.append_nil _).symm, fun _ _ ha => absurd ha List.not_mem_nil⟩, rfl⟩

theorem sifts_note {as : List Access} (has : P → ∀ a ∈ as, a.Safe h.block) :
    Sifts P h (h.note as) :=
  ⟨⟨rfl, rfl, rfl, as, rfl, has⟩, rfl⟩

/-- Another index expression. -/
theorem sifts_index {exact : ℤ} (hexact : P → 0 ≤ exact ∧ exact < 2 ^ 64) :
    Sifts P h (h.note [.index exact]) :=
  sifts_note fun hok _ ha => List.mem_singleton.mp ha ▸ hexact hok

/-- **An index of the array addresses bytes of the block**, and the product that is the offset
does not wrap. -/
theorem addressed_safe (hf : h.Fits) (hix : i < h.capacity) :
    ∀ a ∈ h.addressed i, a.Safe h.block := by
  have hmul : i * h.elemSize + h.elemSize ≤ h.capacity * h.elemSize := by
    rw [← Nat.succ_mul]
    exact Nat.mul_le_mul_right _ hix
  have hlt : i * h.elemSize < 2 ^ 64 := by
    have hproduct := hf.product_lt
    omega
  have haddr : h.address i = i * h.elemSize := by
    rw [address, ← Nat.cast_mul, sizeT_natCast hlt]
  intro a ha
  rcases List.mem_cons.mp ha with rfl | ha
  · exact ⟨by positivity, by exact_mod_cast hlt⟩
  · rw [List.mem_singleton.mp ha, haddr, hf.block_eq]
    exact hmul

theorem addressed_pair_safe (hf : h.Fits) (hA : j < h.capacity) (hB : k < h.capacity) :
    ∀ a ∈ h.addressed j ++ h.addressed k, a.Safe h.block := fun a ha =>
  (List.mem_append.mp ha).elim (addressed_safe hf hA a) (addressed_safe hf hB a)

theorem sifts_compareIx (hok : P → h.Fits ∧ j < h.capacity ∧ k < h.capacity) :
    Sifts P h (h.compareIx j k).2 :=
  sifts_note fun ho => addressed_pair_safe (hok ho).1 (hok ho).2.1 (hok ho).2.2

theorem sifts_swapIx (hok : P → h.Fits ∧ j < h.capacity ∧ k < h.capacity) :
    Sifts P h (h.swapIx j k) :=
  ⟨⟨rfl, rfl, rfl, _, rfl,
    fun ho => addressed_pair_safe (hok ho).1 (hok ho).2.1 (hok ho).2.2⟩, rfl⟩

/-- A parent is computed: of an index of the array it is one. -/
theorem sifts_parent (h0 : 0 < i) (hok : P → h.Fits ∧ i < h.capacity) :
    Sifts P h (h.note [.index ((i : ℤ) - 1)]) := by
  refine sifts_index fun ho => ?_
  have hlt := (hok ho).2
  have hcap := (hok ho).1.capacity_lt
  omega

/-- **The loop of `heapify_up`** stays inside the array, since the parent of an index is a smaller
one. By induction on the counter. -/
theorem sifts_heapifyUpLoop (n : ℕ) (hok : P → h.Fits ∧ i < h.capacity) :
    Sifts P h (heapifyUpLoop n h i) := by
  induction n generalizing h i with
  | zero => exact sifts_refl P h
  | succ n ih =>
    rw [heapifyUpLoop]
    by_cases h0 : 0 < i
    · have hlt := parentIx_lt h0
      have hmore : ∀ {h' : ByteHeap W}, Sifts P h h' →
          P → h'.Fits ∧ i < h'.capacity ∧ parentIx i < h'.capacity := by
        intro h' hd ho
        obtain ⟨hf, hix⟩ := hok ho
        rw [hd.capacity_eq]
        exact ⟨hd.fits hf, hix, hlt.trans hix⟩
      have hcalc := sifts_parent h0 hok
      have hcompare := hcalc.trans (sifts_compareIx (hmore hcalc)) id
      rw [if_pos h0]
      simp only
      split
      · exact hcompare
      · have hcalc' := hcompare.trans
          (sifts_parent h0 fun ho => ⟨(hmore hcompare ho).1, (hmore hcompare ho).2.1⟩) id
        have hswap := hcalc'.trans (sifts_swapIx (hmore hcalc')) id
        have hcalc'' := hswap.trans
          (sifts_parent h0 fun ho => ⟨(hmore hswap ho).1, (hmore hswap ho).2.1⟩) id
        exact hcalc''.trans (ih fun ho => ⟨(hmore hcalc'' ho).1, (hmore hcalc'' ho).2.2⟩) id
    · rw [if_neg h0]
      exact sifts_refl P h

theorem sifts_heapifyUp (hok : P → h.Fits ∧ i < h.capacity) : Sifts P h (h.heapifyUp i) :=
  sifts_heapifyUpLoop i hok

/-- What `max_child_ix` needs to be safe at the root `i`: the block fits, and the left child is
stored.  The right child may be missing; it is compared with the size before it is read. -/
structure HasChild (h : ByteHeap W) (i : ℕ) : Prop where
  fits : h.Fits
  size_le : h.size ≤ h.capacity
  left : 2 * i + 1 < h.size

theorem HasChild.leftChildIx_eq (hc : h.HasChild i) : leftChildIx i = 2 * i + 1 := by
  have hcap := hc.fits.capacity_lt
  have hsize := hc.size_le
  have hleft := hc.left
  have hcast : 2 * (i : ℤ) + 1 = ((2 * i + 1 : ℕ) : ℤ) := by push_cast; ring
  rw [leftChildIx, hcast, sizeT_natCast (by omega)]

theorem HasChild.right_eq (hc : h.HasChild i) :
    sizeT ((leftChildIx i : ℤ) + 1) = 2 * i + 2 := by
  have hcap := hc.fits.capacity_lt
  have hsize := hc.size_le
  have hleft := hc.left
  have hcast : ((2 * i + 1 : ℕ) : ℤ) + 1 = ((2 * i + 2 : ℕ) : ℤ) := by push_cast; ring
  rw [hc.leftChildIx_eq, hcast, sizeT_natCast (by omega)]

/-- **The child is in the heap**, whichever of the two it is: the right one is taken only when its
index is below the size. -/
theorem HasChild.childIx_lt (hc : h.HasChild i) : (h.childIx i).1 < h.size := by
  have hleft := hc.left
  rw [childIx]
  simp only
  split
  next hlt =>
    have hlt' : sizeT ((leftChildIx i : ℤ) + 1) < h.size := hlt
    split
    · show leftChildIx i < h.size
      rw [hc.leftChildIx_eq]
      exact hleft
    · exact hlt'
  next =>
    show leftChildIx i < h.size
    rw [hc.leftChildIx_eq]
    exact hleft

theorem sifts_childIx (hok : P → h.HasChild i) : Sifts P h (h.childIx i).2 := by
  have hright : P → 0 ≤ (leftChildIx i : ℤ) + 1 ∧ (leftChildIx i : ℤ) + 1 < 2 ^ 64 := by
    intro ho
    have hcap := (hok ho).fits.capacity_lt
    have hsize := (hok ho).size_le
    have hleft := (hok ho).left
    rw [(hok ho).leftChildIx_eq]
    omega
  have hcalc : Sifts P h
      (h.note [.index (2 * (i : ℤ) + 1), .index ((leftChildIx i : ℤ) + 1)]) := by
    refine sifts_note fun ho a ha => ?_
    rcases List.mem_cons.mp ha with rfl | ha
    · have hcap := (hok ho).fits.capacity_lt
      have hsize := (hok ho).size_le
      have hleft := (hok ho).left
      show 0 ≤ 2 * (i : ℤ) + 1 ∧ 2 * (i : ℤ) + 1 < 2 ^ 64
      omega
    · exact List.mem_singleton.mp ha ▸ hright ho
  rw [childIx]
  simp only
  split
  next hlt =>
    have hagain := hcalc.trans (sifts_index hright) id
    have hcompare := hagain.trans (sifts_compareIx (P := P)
      (j := sizeT ((leftChildIx i : ℤ) + 1)) (k := leftChildIx i) fun ho => by
        have hsize := (hok ho).size_le
        have hleft := (hok ho).left
        have hlt' : sizeT ((leftChildIx i : ℤ) + 1) < h.size := hlt
        refine ⟨hagain.fits (hok ho).fits, Nat.lt_of_lt_of_le hlt' hsize, ?_⟩
        show leftChildIx i < h.capacity
        rw [(hok ho).leftChildIx_eq]
        omega) id
    split
    · exact hcompare
    · exact hcompare.trans (sifts_index hright) id
  next => exact hcalc

/-- **The loop of `heapify_down`** stays inside the heap: up to the last root there is a left
child, and behind it the loop ends. -/
theorem sifts_heapifyDownLoop (n : ℕ) {last : ℕ} (hok : P → h.Fits ∧ h.size ≤ h.capacity ∧
    2 * last + 1 < h.size) : Sifts P h (heapifyDownLoop last n h i) := by
  induction n generalizing h i with
  | zero => exact sifts_refl P h
  | succ n ih =>
    rw [heapifyDownLoop]
    by_cases hix : i ≤ last
    · have hchild : P → h.HasChild i := fun ho =>
        ⟨(hok ho).1, (hok ho).2.1, by have hlast := (hok ho).2.2; omega⟩
      have hfind := sifts_childIx hchild
      have hmore : ∀ {h' : ByteHeap W}, Sifts P h h' →
          P → h'.Fits ∧ (h.childIx i).1 < h'.capacity ∧ i < h'.capacity := by
        intro h' hd ho
        have hlt := (hchild ho).childIx_lt
        have hsize := (hok ho).2.1
        have hlast := (hok ho).2.2
        rw [hd.capacity_eq]
        exact ⟨hd.fits (hok ho).1, by omega, by omega⟩
      have hcompare := hfind.trans (sifts_compareIx (hmore hfind)) id
      rw [if_pos hix]
      simp only
      split
      · exact hcompare
      · have hswap := hcompare.trans (sifts_swapIx fun ho =>
          ⟨(hmore hcompare ho).1, (hmore hcompare ho).2.2, (hmore hcompare ho).2.1⟩) id
        refine hswap.trans (ih fun ho => ?_) id
        rw [hswap.size_eq, hswap.capacity_eq]
        exact ⟨hswap.fits (hok ho).1, (hok ho).2⟩
    · rw [if_neg hix]
      exact sifts_refl P h

theorem sifts_heapifyDown (hok : P → h.Fits ∧ h.size ≤ h.capacity) :
    Sifts P h (h.heapifyDown i) := by
  rw [heapifyDown]
  by_cases h2 : h.size < 2
  · rw [if_pos h2]
    exact sifts_refl P h
  · rw [if_neg h2]
    simp only
    have hlast : P → sizeT ((h.size : ℤ) - 1) = h.size - 1 ∧
        sizeT (((h.size - 1 : ℕ) : ℤ) - 1) = h.size - 2 := by
      intro ho
      have hcap := (hok ho).1.capacity_lt
      have hsize := (hok ho).2
      constructor
      · rw [show (h.size : ℤ) - 1 = ((h.size - 1 : ℕ) : ℤ) by omega, sizeT_natCast (by omega)]
      · rw [show ((h.size - 1 : ℕ) : ℤ) - 1 = ((h.size - 2 : ℕ) : ℤ) by omega,
          sizeT_natCast (by omega)]
    have hcalc : Sifts P h (h.note [.index ((h.size : ℤ) - 1),
        .index ((sizeT ((h.size : ℤ) - 1) : ℤ) - 1)]) := by
      refine sifts_note fun ho a ha => ?_
      have hcap := (hok ho).1.capacity_lt
      have hsize := (hok ho).2
      rcases List.mem_cons.mp ha with rfl | ha
      · show 0 ≤ (h.size : ℤ) - 1 ∧ (h.size : ℤ) - 1 < 2 ^ 64
        omega
      · rw [List.mem_singleton.mp ha, (hlast ho).1]
        show 0 ≤ ((h.size - 1 : ℕ) : ℤ) - 1 ∧ ((h.size - 1 : ℕ) : ℤ) - 1 < 2 ^ 64
        omega
    refine hcalc.trans (sifts_heapifyDownLoop _ fun ho => ?_) id
    refine ⟨hcalc.fits (hok ho).1, (hok ho).2, ?_⟩
    show 2 * parentIx (sizeT ((h.size : ℤ) - 1)) + 1 < h.size
    rw [parentIx, (hlast ho).1, (hlast ho).2]
    omega

/-! ## The operations

A push makes the heap larger before it writes, and a removal copies the element out before it
makes the heap smaller; so each of them touches the slot at the boundary.  The invariant covers
it. -/

/-- What holds between two operations while the product fits: the size never exceeds the capacity,
and no access so far was outside the block or of a wrapped index. -/
structure Inv (h : ByteHeap W) : Prop where
  fits : h.Fits
  size_le : h.size ≤ h.capacity
  safe : h.Safe

theorem Does.inv (hd : Does P h h') (hok : P) (hi : h.Inv) (hsize : h'.size ≤ h.capacity) :
    h'.Inv :=
  ⟨hd.fits hi.fits, hd.capacity_eq.symm ▸ hsize, hd.safe hok hi.safe⟩

theorem does_grow (hlt : h.size < h.capacity) (hcap : h.capacity < 2 ^ 64) :
    Does P h h.grow ∧ h.grow.size = h.size + 1 := by
  have hnote : Sifts P h (h.note [.index ((h.size : ℤ) + 1)]) := sifts_index fun _ => by omega
  refine ⟨⟨rfl, rfl, rfl, hnote.log⟩, ?_⟩
  show sizeT ((h.size : ℤ) + 1) = h.size + 1
  rw [show (h.size : ℤ) + 1 = ((h.size + 1 : ℕ) : ℤ) by omega, sizeT_natCast (by omega)]

theorem does_shrink (h0 : 0 < h.size) (hsize : h.size ≤ h.capacity)
    (hcap : h.capacity < 2 ^ 64) : Does P h h.shrink ∧ h.shrink.size = h.size - 1 := by
  have hnote : Sifts P h (h.note [.index ((h.size : ℤ) - 1)]) := sifts_index fun _ => by omega
  refine ⟨⟨rfl, rfl, rfl, hnote.log⟩, ?_⟩
  show sizeT ((h.size : ℤ) - 1) = h.size - 1
  rw [show (h.size : ℤ) - 1 = ((h.size - 1 : ℕ) : ℤ) by omega, sizeT_natCast (by omega)]

/-- **A push that is accepted.**  It addresses the element behind the last one, and then it
sifts. -/
theorem push_of_room (hroom : h.size < h.capacity) (hcap : h.capacity < 2 ^ 64)
    (elem : ℕ → UInt8) : (h.binaryHeapPush elem).1 = 0 ∧
      (h.binaryHeapPush elem).2.size = h.size + 1 ∧
      Does h.Fits h (h.binaryHeapPush elem).2 ∧
      ∀ a ∈ h.addressed h.size, a ∈ (h.binaryHeapPush elem).2.log := by
  obtain ⟨w, hw⟩ : ∃ w, w = (h.note (h.addressed h.size)).copyIn (h.address h.size) elem :=
    ⟨_, rfl⟩
  have hwrite : Does h.Fits h w := by
    rw [hw]
    exact ⟨rfl, rfl, rfl, _, rfl, fun hf => addressed_safe hf hroom⟩
  have hwsize : w.size = h.size := by rw [hw]; rfl
  have hwlog : w.log = h.log ++ h.addressed h.size := by rw [hw]; rfl
  obtain ⟨hgrow, hgsize⟩ : Does h.Fits w w.grow ∧ w.grow.size = w.size + 1 :=
    does_grow (by rw [hwsize, hwrite.capacity_eq]; exact hroom)
      (by rw [hwrite.capacity_eq]; exact hcap)
  rw [hwsize] at hgsize
  have hgrown := hwrite.trans hgrow id
  have hsub : Sifts h.Fits w.grow (w.grow.note [.index ((w.grow.size : ℤ) - 1)]) :=
    sifts_index fun _ => by rw [hgsize]; omega
  have hlast : sizeT ((w.grow.size : ℤ) - 1) = h.size := by
    rw [hgsize, show ((h.size + 1 : ℕ) : ℤ) - 1 = (h.size : ℤ) by omega,
      sizeT_natCast (by omega)]
  have hup := hsub.trans (sifts_heapifyUp (P := h.Fits) (i := h.size) fun hf =>
    ⟨hsub.fits (hgrown.fits hf), by rw [hsub.capacity_eq, hgrown.capacity_eq]; exact hroom⟩) id
  have hres : h.binaryHeapPush elem =
      (0, (w.grow.note [.index ((w.grow.size : ℤ) - 1)]).heapifyUp h.size) := by
    rw [binaryHeapPush, if_neg (Nat.not_le.mpr hroom)]
    simp only
    rw [← hw, hlast]
  rw [hres]
  refine ⟨rfl, hup.size_eq.trans hgsize, hgrown.trans hup.toDoes id, fun a ha => ?_⟩
  obtain ⟨as, hlog, -⟩ := (hgrow.trans hup.toDoes (id : h.Fits → h.Fits)).log
  show a ∈ (heapifyUp _ _).log
  rw [hlog, hwlog]
  exact List.mem_append_left as (List.mem_append_right _ ha)

theorem push_of_full (hfull : h.capacity ≤ h.size) (elem : ℕ → UInt8) :
    h.binaryHeapPush elem = (-1, h) := by
  rw [binaryHeapPush, if_pos hfull]

theorem Inv.push (hi : h.Inv) (elem : ℕ → UInt8) : (h.binaryHeapPush elem).2.Inv := by
  by_cases hroom : h.size < h.capacity
  · obtain ⟨-, hsize, hdoes, -⟩ := push_of_room hroom hi.fits.capacity_lt elem
    exact hdoes.inv hi.fits hi (hsize ▸ hroom)
  · rw [push_of_full (Nat.not_lt.mp hroom)]
    exact hi

/-- An element is copied out, and the size goes down. -/
theorem Inv.shrink (hi : h.Inv) (h0 : 0 < h.size) {as : List Access}
    (has : ∀ a ∈ as, a.Safe h.block) :
    (h.note as).shrink.Inv ∧ (h.note as).shrink.capacity = h.capacity ∧
      (h.note as).shrink.size = h.size - 1 := by
  have hsize := hi.size_le
  obtain ⟨hshrink, heq⟩ : Does True (h.note as) (h.note as).shrink ∧ _ :=
    does_shrink (h := h.note as) h0 hsize hi.fits.capacity_lt
  have heq' : (h.note as).shrink.size = h.size - 1 := heq
  have hdoes := (sifts_note (P := True) fun _ => has).toDoes.trans hshrink id
  exact ⟨hdoes.inv trivial hi (by omega), hdoes.capacity_eq, heq'⟩

theorem Sifts.inv (hd : Sifts True h h') (hi : h.Inv) : h'.Inv :=
  hd.toDoes.inv trivial hi (hd.size_eq ▸ hi.size_le)

theorem Inv.swapIx (hi : h.Inv) (hA : j < h.capacity) (hB : k < h.capacity) :
    (h.swapIx j k).Inv :=
  Sifts.inv (sifts_swapIx fun _ => ⟨hi.fits, hA, hB⟩) hi

theorem Inv.heapifyDown (hi : h.Inv) (i : ℕ) : (h.heapifyDown i).Inv :=
  Sifts.inv (sifts_heapifyDown fun _ => ⟨hi.fits, hi.size_le⟩) hi

theorem Inv.pop (hi : h.Inv) (elem : ℕ → UInt8) : (h.binaryHeapPop elem).2.1.Inv := by
  rw [binaryHeapPop]
  by_cases h0 : h.size = 0
  · rw [if_pos h0]
    exact hi
  · rw [if_neg h0]
    have hpos := Nat.pos_of_ne_zero h0
    have hsize := hi.size_le
    have hfirst : ∀ a ∈ [Access.range 0 h.elemSize], a.Safe h.block := by
      intro a ha
      have hrange : h.address 0 + h.elemSize ≤ h.block :=
        addressed_safe hi.fits (Nat.lt_of_lt_of_le hpos hsize) (.range _ _)
          (List.mem_cons_of_mem _ List.mem_cons_self)
      rw [List.mem_singleton.mp ha]
      show 0 + h.elemSize ≤ h.block
      omega
    obtain ⟨hinv, hcap, heq⟩ := hi.shrink hpos hfirst
    exact (hinv.swapIx (by omega) (by omega)).heapifyDown 0

/-- **`binary_heap_update` at an index of the array.**  The index need not be one of the heap: up
to the capacity there is room, and at `0` nothing is compared with a parent. -/
theorem Inv.update (hi : h.Inv) (hix : i = 0 ∨ i < h.capacity) :
    (h.binaryHeapUpdate i).Inv := by
  rw [binaryHeapUpdate]
  by_cases h0 : 0 < i
  · have hlt : i < h.capacity := hix.resolve_left (Nat.ne_of_gt h0)
    have hparent := parentIx_lt h0
    have hcalc : Sifts True h _ := sifts_parent h0 fun _ => ⟨hi.fits, hlt⟩
    have hcompare := hcalc.trans (sifts_compareIx (P := True) (j := i) (k := parentIx i)
      fun _ => ⟨hcalc.fits hi.fits, hlt, hparent.trans hlt⟩) id
    have hinv := hcompare.inv hi
    rw [if_pos h0]
    simp only
    split
    · exact hinv.heapifyDown i
    · exact Sifts.inv (sifts_heapifyUp fun _ => ⟨hinv.fits, hlt⟩) hinv
  · rw [if_neg h0]
    exact hi.heapifyDown i

theorem Inv.remove (hi : h.Inv) (i : ℕ) (elem : ℕ → UInt8) :
    (h.binaryHeapRemove i elem).2.1.Inv := by
  rw [binaryHeapRemove]
  by_cases hge : i ≥ h.size
  · rw [if_pos hge]
    exact hi
  · rw [if_neg hge]
    have hsize := hi.size_le
    have hix : i < h.capacity := by omega
    obtain ⟨hinv, hcap, heq⟩ := hi.shrink (by omega) (addressed_safe hi.fits hix)
    simp only
    split
    · exact (hinv.swapIx (by omega) (by omega)).update (Or.inr (by
        show i < (h.note (h.addressed i)).shrink.capacity
        omega))
    · exact hinv

theorem update_elemSize (h : ByteHeap W) (i : ℕ) :
    (h.binaryHeapUpdate i).elemSize = h.elemSize := by
  rw [binaryHeapUpdate]
  split
  · simp only
    split
    · exact (sifts_heapifyDown False.elim).elemSize_eq
    · exact (sifts_heapifyUp False.elim).elemSize_eq
  · exact (sifts_heapifyDown False.elim).elemSize_eq

theorem Step.elemSize_eq {op : Op} (hs : h.Step op h') : h'.elemSize = h.elemSize := by
  cases hs with
  | push hret =>
    rw [binaryHeapPush]
    split
    · rfl
    · exact (sifts_heapifyUp False.elim).elemSize_eq
  | pop hret =>
    rw [binaryHeapPop]
    split
    · rfl
    · exact (sifts_heapifyDown False.elim).elemSize_eq
  | update i => exact update_elemSize h i.toNat
  | remove hret =>
    rw [binaryHeapRemove]
    split
    · rfl
    · simp only
      split
      · exact update_elemSize _ _
      · rfl
  | caller bytes world => rfl

theorem GuardedRun.elemSize_eq (hr : GuardedRun h h') : h'.elemSize = h.elemSize := by
  induction hr with
  | refl => rfl
  | tail _ hs ih =>
    obtain ⟨op, hstep, -⟩ := hs
    exact hstep.elemSize_eq.trans ih

/-- **One operation keeps the invariant**, if an index that is given to `binary_heap_update` is
one of the array. -/
theorem Inv.step {op : Op} (hi : h.Inv) (hs : h.Step op h') (hg : h.Guard op) : h'.Inv := by
  cases hs with
  | push hret => exact hi.push _
  | pop hret => exact hi.pop _
  | update i =>
    refine hi.update (hg.imp (fun h0 => ?_) id)
    rw [h0]
    rfl
  | remove hret => exact hi.remove _ _
  | caller bytes world => exact ⟨⟨hi.fits.1, hi.fits.2, hi.fits.3⟩, hi.size_le, hi.safe⟩

/-- **And so does a run.** -/
theorem Inv.run (hi : h.Inv) (hr : GuardedRun h h') : h'.Inv := by
  induction hr with
  | refl => exact hi
  | tail _ hs ih =>
    obtain ⟨op, hstep, hg⟩ := hs
    exact ih.step hstep hg

/-! ## When the product does not fit

The other direction.  A heap whose product has wrapped has a block that is smaller than its
elements, and pushes that the heap accepts lead to the first element that has no room. -/

/-- The heap is filled, and stays what it is. -/
theorem pushes_reach (hcap : h.capacity < 2 ^ 64) (n : ℕ) (hn : h.size + n ≤ h.capacity) :
    ∃ h', GuardedRun h h' ∧ h'.size = h.size + n ∧ h'.block = h.block ∧
      h'.capacity = h.capacity ∧ h'.elemSize = h.elemSize := by
  induction n with
  | zero => exact ⟨h, .refl, rfl, rfl, rfl, rfl⟩
  | succ n ih =>
    obtain ⟨g, hrun, hsize, hblock, hgcap, helem⟩ := ih (by omega)
    obtain ⟨hret, hsize', hdoes, -⟩ :=
      push_of_room (h := g) (by omega) (by omega) fun _ => 0
    refine ⟨_, hrun.tail ⟨_, .push hret, trivial⟩, by omega, hdoes.block_eq.trans hblock,
      hdoes.capacity_eq.trans hgcap, hdoes.elemSize_eq.trans helem⟩

/-- **A block that is too small is left.**  The first element that has no room in it is
written behind it, or over its end. -/
theorem exists_unsafe (hcap : h.capacity < 2 ^ 64) (hempty : h.size = 0)
    (hsmall : h.block < h.capacity * h.elemSize) (hblock : h.block < 2 ^ 64) :
    ∃ h', GuardedRun h h' ∧ ¬ h'.Safe := by
  have helem : 0 < h.elemSize := by
    rcases Nat.eq_zero_or_pos h.elemSize with h0 | h0
    · rw [h0, Nat.mul_zero] at hsmall
      exact absurd hsmall (Nat.not_lt_zero _)
    · exact h0
  -- so many elements have room
  obtain ⟨k, hk⟩ : ∃ k, k = h.block / h.elemSize := ⟨_, rfl⟩
  have hle : k * h.elemSize ≤ h.block := hk ▸ Nat.div_mul_le_self _ _
  have hlt : h.block < k * h.elemSize + h.elemSize := by
    rw [hk]
    exact Nat.lt_div_mul_add helem
  have hroom : k < h.capacity := by
    rw [hk]
    exact Nat.div_lt_of_lt_mul (by rwa [Nat.mul_comm])
  obtain ⟨g, hrun, hsize, hgblock, hgcap, hgelem⟩ :=
    pushes_reach hcap k (by rw [hempty]; omega)
  rw [hempty, Nat.zero_add] at hsize
  obtain ⟨hret, -, hdoes, hlog⟩ := push_of_room (h := g) (by omega) (by omega) fun _ => 0
  refine ⟨_, hrun.tail ⟨_, .push hret, trivial⟩, fun hsafe => ?_⟩
  have hrange := hsafe (.range (g.address g.size) g.elemSize)
    (hlog _ (List.mem_cons_of_mem _ List.mem_cons_self))
  have haddr : g.address g.size = k * h.elemSize := by
    rw [address, hsize, hgelem, ← Nat.cast_mul, sizeT_natCast (by omega)]
  have hinside : g.address g.size + g.elemSize ≤ (g.binaryHeapPush fun _ => 0).2.block := hrange
  rw [haddr, hgelem, hdoes.block_eq, hgblock] at hinside
  omega

/-- An index behind the array is addressed at once. -/
theorem update_unsafe (hf : h.Fits) (h0 : 0 < h.elemSize) {i : ℕ} (hne : i ≠ 0)
    (hge : h.capacity ≤ i) : ¬ (h.binaryHeapUpdate i).Safe := by
  have hpos := Nat.pos_of_ne_zero hne
  obtain ⟨g, hg⟩ : ∃ g, g = (h.note [.index ((i : ℤ) - 1)]).compareIx i (parentIx i) := ⟨_, rfl⟩
  have hmem : ∀ a ∈ h.addressed i, a ∈ g.2.log := by
    intro a ha
    rw [hg]
    exact List.mem_append_right _ (List.mem_append_left _ ha)
  have hgblock : g.2.block = h.block := by rw [hg]; rfl
  have hlater : Sifts False g.2 (h.binaryHeapUpdate i) := by
    rw [binaryHeapUpdate, if_pos hpos, ← hg]
    simp only
    split
    · exact sifts_heapifyDown False.elim
    · exact sifts_heapifyUp False.elim
  intro hsafe
  have hboth : ∀ a ∈ h.addressed i, a.Safe h.block := by
    intro a ha
    obtain ⟨as, hlog, -⟩ := hlater.log
    have hsafe' := hsafe a (hlog ▸ List.mem_append_left as (hmem a ha))
    rwa [hlater.block_eq, hgblock] at hsafe'
  obtain ⟨hnonneg, hlt⟩ : (0 : ℤ) ≤ (i : ℤ) * h.elemSize ∧ (i : ℤ) * h.elemSize < 2 ^ 64 :=
    hboth _ List.mem_cons_self
  have hrange : h.address i + h.elemSize ≤ h.block :=
    hboth (.range _ _) (List.mem_cons_of_mem _ List.mem_cons_self)
  have hlt' : i * h.elemSize < 2 ^ 64 := by exact_mod_cast hlt
  have hmul : h.capacity * h.elemSize ≤ i * h.elemSize := Nat.mul_le_mul_right _ hge
  rw [address, ← Nat.cast_mul, sizeT_natCast hlt', hf.block_eq] at hrange
  omega

/-! ## The counters of the loops

The loops are recursions on a counter.  It is never what ends them, so the conditions of the
source are what they are about. -/

/-- The counter of `heapifyUpLoop` does not matter once it is large enough. -/
theorem heapifyUpLoop_of_le {n : ℕ} (h : ByteHeap W) (i : ℕ) (hle : i ≤ n) :
    heapifyUpLoop n h i = h.heapifyUp i := by
  rw [heapifyUp]
  induction i using Nat.strongRecOn generalizing n h with
  | ind i ih =>
    rcases Nat.eq_zero_or_pos i with rfl | h0
    · cases n <;> simp [heapifyUpLoop]
    · obtain ⟨m, rfl⟩ : ∃ m, n = m + 1 := ⟨n - 1, by omega⟩
      obtain ⟨l, hl⟩ : ∃ l, i = l + 1 := ⟨i - 1, by omega⟩
      have hp := parentIx_lt h0
      have hloop : heapifyUpLoop i h i = heapifyUpLoop (l + 1) h i := by rw [← hl]
      rw [hloop]
      simp only [heapifyUpLoop, if_pos h0]
      split
      · rfl
      · rw [ih _ hp _ (by omega : parentIx i ≤ m), ih _ hp _ (by omega : parentIx i ≤ l)]

theorem HasChild.lt_childIx (hc : h.HasChild i) : i < (h.childIx i).1 := by
  rw [childIx]
  simp only
  have hleft : i < leftChildIx i := by
    rw [hc.leftChildIx_eq]
    omega
  split
  · split
    · exact hleft
    · show i < sizeT ((leftChildIx i : ℤ) + 1)
      rw [hc.right_eq]
      omega
  · exact hleft

/-- The counter of `heapifyDownLoop` does not matter while it covers the rest of the heap. -/
theorem heapifyDownLoop_of_le {n m last : ℕ} (hi : h.Inv) (hlast : 2 * last + 1 < h.size)
    (hn : h.size ≤ i + n) (hm : h.size ≤ i + m) :
    heapifyDownLoop last n h i = heapifyDownLoop last m h i := by
  induction n generalizing m h i with
  | zero =>
    have hix : ¬ i ≤ last := by omega
    cases m <;> simp [heapifyDownLoop, hix]
  | succ n ih =>
    rcases m with _ | m
    · have hix : ¬ i ≤ last := by omega
      simp [heapifyDownLoop, hix]
    · simp only [heapifyDownLoop]
      split
      next hle =>
        have hc : h.HasChild i := ⟨hi.fits, hi.size_le, by omega⟩
        have hlt := hc.lt_childIx
        have hchild := hc.childIx_lt
        have hsize := hi.size_le
        have hfind : Sifts True h (h.childIx i).2 := sifts_childIx fun _ => hc
        have hcompare := hfind.trans (sifts_compareIx (P := True) (j := (h.childIx i).1)
          (k := i) fun _ => by
            rw [hfind.capacity_eq]
            exact ⟨hfind.fits hi.fits, by omega, by omega⟩) id
        split
        · rfl
        · have hinv := (hcompare.inv hi).swapIx (j := i) (k := (h.childIx i).1)
            (by rw [hcompare.capacity_eq]; omega) (by rw [hcompare.capacity_eq]; omega)
          have hsame : (((h.childIx i).2.compareIx (h.childIx i).1 i).2.swapIx i
              (h.childIx i).1).size = h.size := hcompare.size_eq
          exact ih hinv (hsame.symm ▸ hlast) (by omega) (by omega)
      next => rfl

/-- `while (i <= last_root_ix)`, whose counter starts at the size. -/
theorem heapifyDownLoop_eq {last : ℕ} (hi : h.Inv) (hlast : 2 * last + 1 < h.size) :
    heapifyDownLoop last h.size h i =
      if i ≤ last then
        let child := h.childIx i
        let r := child.2.compareIx child.1 i
        if r.1 then r.2
        else heapifyDownLoop last h.size (r.2.swapIx i child.1) child.1
      else h := by
  rw [heapifyDownLoop_of_le hi hlast (m := h.size + 1) (by omega) (by omega)]
  rfl

/-- `while (i > 0 && !compare(heap, i, PARENT(i)))`. -/
theorem heapifyUp_eq (h : ByteHeap W) (i : ℕ) :
    h.heapifyUp i =
      if 0 < i then
        let parentCalc : List Access := [.index ((i : ℤ) - 1)]
        let r := (h.note parentCalc).compareIx i (parentIx i)
        if r.1 then
          r.2
        else
          let h := (r.2.note parentCalc).swapIx i (parentIx i)
          (h.note parentCalc).heapifyUp (parentIx i)
      else h := by
  rw [← heapifyUpLoop_of_le h i (Nat.le_succ i)]
  simp only [heapifyUpLoop]
  split
  next h0 =>
    rw [heapifyUpLoop_of_le _ _ (Nat.le_of_lt (parentIx_lt h0))]
  next => rfl

end Does

/-! ## The condition

Both directions together, for every heap that was allocated. -/

section Allocate

variable (capacity elemSize : UInt64) (bytes : ℕ → UInt8) (world : W)
  (compare : (ℕ → UInt8) → W → ℕ → ℕ → Bool)
  (swap : (ℕ → UInt8) → W → ℕ → ℕ → (ℕ → UInt8) × W)

/-- The invariant holds of a new heap, if the product fits. -/
theorem inv_allocate (h : capacity.toNat * elemSize.toNat < 2 ^ 64) :
    (binaryHeapAllocate capacity elemSize bytes world compare swap).Inv := by
  refine ⟨⟨?_, h, capacity.toNat_lt⟩, Nat.zero_le _, fun a ha => absurd ha List.not_mem_nil⟩
  show (capacity * elemSize).toNat = capacity.toNat * elemSize.toNat
  rw [UInt64.toNat_mul, Nat.mod_eq_of_lt h]

/-- **When the heap stays in its block.**  In every run whose updates are for indices of the
array, every range that is addressed is inside the block and no index expression wraps, if
and only if the product of `capacity` and `elem_size` does not wrap.  Then, unless the
elements are empty, any other update addresses bytes behind the block. -/
theorem addressed_iff :
    ((∀ h, GuardedRun (binaryHeapAllocate capacity elemSize bytes world compare swap) h →
        h.Safe) ↔ capacity.toNat * elemSize.toNat < 2 ^ 64) ∧
      (capacity.toNat * elemSize.toNat < 2 ^ 64 → elemSize ≠ 0 → ∀ h i,
        GuardedRun (binaryHeapAllocate capacity elemSize bytes world compare swap) h →
          ¬ h.Guard (.update i) → ¬ (h.binaryHeapUpdate i.toNat).Safe) := by
  obtain ⟨h₀, hh₀⟩ : ∃ h₀, h₀ =
    binaryHeapAllocate capacity elemSize bytes world compare swap := ⟨_, rfl⟩
  have hcap : h₀.capacity = capacity.toNat := by rw [hh₀]; rfl
  have helem : h₀.elemSize = elemSize.toNat := by rw [hh₀]; rfl
  rw [← hh₀]
  refine ⟨⟨fun hall => ?_, fun hfit h hrun => ?_⟩, fun hfit hne h i hrun hguard => ?_⟩
  · by_contra hwrap
    have hblock : h₀.block = capacity.toNat * elemSize.toNat % 2 ^ 64 := by
      rw [hh₀]
      exact UInt64.toNat_mul capacity elemSize
    have hlt : h₀.block < 2 ^ 64 := hblock ▸ Nat.mod_lt _ (by decide)
    obtain ⟨h, hrun, hunsafe⟩ := exists_unsafe (h := h₀) (hcap ▸ capacity.toNat_lt)
      (by rw [hh₀]; rfl) (by rw [hcap, helem]; omega) hlt
    exact hunsafe (hall h hrun)
  · have hinv := inv_allocate capacity elemSize bytes world compare swap hfit
    rw [← hh₀] at hinv
    exact (hinv.run hrun).safe
  · have hinv := inv_allocate capacity elemSize bytes world compare swap hfit
    rw [← hh₀] at hinv
    obtain ⟨hix, hge⟩ := not_or.mp hguard
    refine update_unsafe (hinv.run hrun).fits ?_ (fun h0 => hix ?_) (Nat.not_lt.mp hge)
    · rw [GuardedRun.elemSize_eq hrun, helem]
      exact Nat.pos_of_ne_zero fun h0 => hne (UInt64.toNat_inj.mp h0)
    · exact UInt64.toNat_inj.mp h0

end Allocate

/-- `binary_heap_test 2305843009213693953`: so many pointers take `2 ^ 64 + 8` bytes, and the
block has room for one of them. -/
def sampleWrapped : ByteHeap Unit :=
  binaryHeapAllocate 2305843009213693953 8 (fun _ => 0) () (fun _ _ _ _ => true)
    fun bytes world _ _ => (bytes, world)

/-- The second element is written behind the block. -/
theorem sampleWrapped_unsafe :
    sampleWrapped.block = 8 ∧ sampleWrapped.capacity = 2305843009213693953 ∧
      ¬ ∀ h, GuardedRun sampleWrapped h → h.Safe := by
  obtain ⟨h₁, hh₁⟩ : ∃ h₁, h₁ = (sampleWrapped.binaryHeapPush fun _ => 0).2 := ⟨_, rfl⟩
  have hfirst : (sampleWrapped.binaryHeapPush fun _ => 0).1 = 0 := by decide
  have hsecond : (h₁.binaryHeapPush fun _ => 0).1 = 0 := by
    rw [hh₁]
    decide
  have hmem : Access.range 8 8 ∈ (h₁.binaryHeapPush fun _ => 0).2.log := by
    rw [hh₁]
    decide
  have hblock : (h₁.binaryHeapPush fun _ => 0).2.block = 8 := by
    rw [hh₁]
    decide
  refine ⟨by decide, by decide, fun h => ?_⟩
  have hrun : GuardedRun sampleWrapped (h₁.binaryHeapPush fun _ => 0).2 := by
    refine .tail (.single ⟨_, .push hfirst, trivial⟩) ⟨.push fun _ => 0, ?_, trivial⟩
    rw [← hh₁]
    exact .push hsecond
  have hsafe : 8 + 8 ≤ (h₁.binaryHeapPush fun _ => 0).2.block := h _ hrun _ hmem
  omega

end ByteHeap

end Astrologer
