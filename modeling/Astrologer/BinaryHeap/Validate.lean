import Astrologer.BinaryHeap.History

/-!
# `binary_heap_validate`

The tests of the heap ask this function whether an array is a heap.  It goes through the
nodes that have a child and compares each with one child only, the one that it takes to be
the smaller.

That is enough when `compare` is the `>=` of a total preorder: a node is not above its
smaller child if and only if it is above neither (`childIx_le`).  And the nodes up to the
parent of the last node are all that have a child, so what is checked is every edge of the
tree, and with the edges the paths.

An index is a natural number here.  `size` is a `size_t`, and the largest number that the
function computes is `child_ix + 1`, which is at most `size`.
-/

namespace Astrologer

open ImplicitHeap

variable {M α : Type*}

/-- The loop of `binary_heap_validate`. -/
def validateLoop (lastRootIx : ℕ) (s : HeapMem M α) : ℕ → ℕ → ℤ
  | 0, _ => 0
  | n + 1, ix =>
    if ix ≤ lastRootIx then
      if !s.compareIx (s.childIx ix) ix then -1 else validateLoop lastRootIx s n (ix + 1)
    else
      0

def binaryHeapValidate (s : HeapMem M α) : ℤ :=
  if s.heap.size < 2 then 0
  else validateLoop (parent (s.heap.size - 1)) s s.heap.size 0

/-- The loop looks at every node that is left, as far as its counter goes. -/
theorem validateLoop_eq_zero_iff {lastRootIx : ℕ} {s : HeapMem M α} {n ix : ℕ} :
    validateLoop lastRootIx s n ix = 0 ↔
      ∀ i, ix ≤ i → i < ix + n → i ≤ lastRootIx → s.compareIx (s.childIx i) i = true := by
  induction n generalizing ix with
  | zero =>
    refine iff_of_true rfl fun i hle hlt => ?_
    omega
  | succ n ih =>
    rw [validateLoop]
    by_cases hlast : ix ≤ lastRootIx
    · rw [if_pos hlast]
      cases hcmp : s.compareIx (s.childIx ix) ix with
      | false =>
        refine iff_of_false (by simp) fun h => ?_
        have hix := h ix (le_refl ix) (by omega) hlast
        rw [hcmp] at hix
        cases hix
      | true =>
        refine ih.trans ⟨fun h i hle hlt hi => ?_, fun h i hle hlt hi => h i (by omega) (by omega) hi⟩
        rcases Nat.eq_or_lt_of_le hle with rfl | hlt'
        · exact hcmp
        · exact h i hlt' (by omega) hi
    · rw [if_neg hlast]
      refine iff_of_true rfl fun i hle _ hi => ?_
      omega

/-- Every node with a child is looked at. -/
theorem binaryHeapValidate_eq_zero_iff {s : HeapMem M α} :
    binaryHeapValidate s = 0 ↔
      ∀ i, leftChild i < s.heap.size → s.compareIx (s.childIx i) i = true := by
  unfold binaryHeapValidate
  split
  next hsize =>
    refine iff_of_true rfl fun i hi => ?_
    unfold leftChild at hi
    omega
  next hsize =>
    have h2 : 2 ≤ s.heap.size := Nat.le_of_not_lt hsize
    rw [validateLoop_eq_zero_iff]
    refine ⟨fun h i hi => ?_, fun h i _ _ hi => h i ((leftChild_lt_iff h2).mpr hi)⟩
    have hlt := lt_leftChild i
    exact h i (Nat.zero_le i) (by omega) ((leftChild_lt_iff h2).mp hi)

section Order

variable {K : Type*} [Preorder K] [Std.Total (fun a b : K => a ≤ b)] {key : M → α → K}
  {s : HeapMem M α}

/-- **The smaller child**: a node is not above the child that is looked at if and only if it is
not above any of its children. -/
theorem childIx_le (hcmp : ∀ a b, s.heap.compare s.mem a b = true ↔ key s.mem b ≤ key s.mem a)
    {i : ℕ} (hleft : leftChild i < s.heap.size) :
    s.keys key i ≤ s.keys key (s.childIx i) ↔
      ∀ j, 0 < j → j < s.heap.size → parent j = i → s.keys key i ≤ s.keys key j := by
  have hix : ∀ a b, s.compareIx a b = true ↔ s.keys key b ≤ s.keys key a :=
    fun a b => hcmp (s.heap.arr a) (s.heap.arr b)
  have hlt := s.lt_childIx i
  refine ⟨fun h j h0 hj hparent => ?_,
    fun h => h _ (by omega) (s.childIx_lt hleft) (s.parent_childIx i)⟩
  -- the child that is looked at is not above the other one
  refine le_trans h ?_
  unfold HeapMem.childIx
  dsimp only
  split
  next hright =>
    have hnot : ¬ s.keys key (leftChild i) ≤ s.keys key (leftChild i + 1) := by
      intro hle
      have htrue := (hix _ _).mpr hle
      rw [htrue] at hright
      exact absurd hright.2 (by decide)
    rcases eq_child_of_parent_eq h0 hparent with rfl | rfl
    · exact (Std.Total.total _ _).resolve_left hnot
    · exact le_rfl
  next hright =>
    rcases eq_child_of_parent_eq h0 hparent with rfl | rfl
    · exact le_rfl
    · refine (hix _ _).mp ?_
      by_contra hne
      exact hright ⟨hj, by rw [Bool.eq_false_of_not_eq_true hne]; rfl⟩

/-- **`binary_heap_validate` is right.**  Whatever the array holds, it returns `0` if and only
if no node has a greater key than a node below it. -/
theorem validate_iff (hcmp : ∀ a b, s.heap.compare s.mem a b = true ↔ key s.mem b ≤ key s.mem a) :
    binaryHeapValidate s = 0 ↔ ∀ i j, i < s.heap.size → j < s.heap.size → Ancestor i j →
      ¬ key s.mem (s.heap.arr j) < key s.mem (s.heap.arr i) := by
  have hix : ∀ a b, s.compareIx a b = true ↔ s.keys key b ≤ s.keys key a :=
    fun a b => hcmp (s.heap.arr a) (s.heap.arr b)
  have hordered : binaryHeapValidate s = 0 ↔ Ordered (s.keys key) s.heap.size := by
    rw [binaryHeapValidate_eq_zero_iff]
    constructor
    · intro h j h0 hj
      have hleft : leftChild (parent j) < s.heap.size := by
        rcases eq_child_of_parent_eq h0 rfl with heq | heq <;> omega
      exact (childIx_le hcmp hleft).mp ((hix _ _).mp (h _ hleft)) j h0 hj rfl
    · intro h i hleft
      refine (hix _ _).mpr ((childIx_le hcmp hleft).mpr fun j h0 hj hparent => ?_)
      exact hparent ▸ h j h0 hj
  have hnot : ∀ a b : K, a ≤ b ↔ ¬ b < a := fun a b =>
    ⟨not_lt_of_ge, fun h => by
      by_contra hle
      have hge : b ≤ a := (Std.Total.total a b).resolve_left hle
      exact h (lt_of_le_not_ge hge hle)⟩
  rw [hordered, ordered_iff_ancestor]
  constructor
  · exact fun h i j _ hj ha => (hnot _ _).mp (h i j hj ha)
  · exact fun h i j hj ha => (hnot _ _).mpr (h i j (lt_trans ha.lt hj) hj ha)

end Order

/-! An array with equal keys, and one where the right child is the smaller. -/

/-- Four entries, whose keys are the array. -/
def sampleArray (keys : ℕ → ℕ) : HeapMem Unit ℕ where
  mem := ()
  heap :=
    { arr := keys
      capacity := 4
      size := 4
      compare := fun _ a b => decide (b ≤ a)
      swap := fun m a b => (m, b, a) }

def sampleTies : ℕ → ℕ := fun i => [1, 3, 1, 3].getD i 0

/-- The entries are their own keys. -/
def sampleRank (_ : Unit) (x : ℕ) : ℕ := x

theorem sampleTies_validate : binaryHeapValidate (sampleArray sampleTies) = 0 ∧
    ∀ i j, i < 4 → j < 4 → Ancestor i j → ¬ sampleTies j < sampleTies i := by
  have hcmp : ∀ a b, (sampleArray sampleTies).heap.compare () a b = true ↔
      sampleRank () b ≤ sampleRank () a := fun a b => decide_eq_true_iff
  exact ⟨by decide, (validate_iff (s := sampleArray sampleTies) hcmp).mp (by decide)⟩

example : binaryHeapValidate (sampleArray fun i => [2, 3, 1, 4].getD i 0) = -1 := by decide

end Astrologer
