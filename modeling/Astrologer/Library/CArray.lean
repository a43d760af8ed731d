import Mathlib

/-!
# Arrays of a fixed length

A C array `T a[n]` never changes its length; what a program does to it is to
overwrite a stretch and to read a stretch.  `CArray α n` is a list that carries
its length, so an array of the wrong size cannot be built, with those two
operations:

* `memcpy a off src` overwrites from `off` on, and what does not fit is lost
  (in C that would be a write outside the array);
* `slice a off len` reads.

Only one law is used again and again: an array filled from its start, where each
piece is appended behind the pieces before it (`slice_memcpy`).
-/

/-- Overwrite a list from an offset on, keeping its length. -/
def List.overwrite {α : Type*} : List α → ℕ → List α → List α
  | [], _, _ => []
  | a :: l, 0, [] => a :: l
  | _ :: l, 0, b :: src => b :: overwrite l 0 src
  | a :: l, off + 1, src => a :: overwrite l off src

/-- An array of `n` entries.  Its length is a part of it, so that what is written into it can
never be longer. -/
structure CArray (α : Type*) (n : ℕ) where
  toList : List α
  length_eq : toList.length = n
  deriving DecidableEq

namespace CArray

variable {α : Type*} {n : ℕ}

theorem length_overwrite (l : List α) (off : ℕ) (src : List α) :
    (l.overwrite off src).length = l.length := by
  fun_induction List.overwrite l off src with
  | case1 => rfl
  | case2 => rfl
  | case3 l a b src ih => rw [List.length_cons, ih, List.length_cons]
  | case4 a l off src ih => rw [List.length_cons, ih, List.length_cons]

/-- While it fits, overwriting replaces a middle piece. -/
theorem overwrite_eq (l : List α) (off : ℕ) (src : List α)
    (h : off + src.length ≤ l.length) :
    l.overwrite off src = l.take off ++ src ++ l.drop (off + src.length) := by
  fun_induction List.overwrite l off src with
  | case1 off src =>
    rw [List.length_nil] at h
    have hsrc : src = [] := List.eq_nil_of_length_eq_zero (by omega)
    simp [hsrc]
  | case2 => simp
  | case3 l a b src ih =>
    rw [List.length_cons, List.length_cons] at h
    rw [ih (by omega)]
    simp [List.drop_succ_cons]
  | case4 a l off src ih =>
    rw [List.length_cons] at h
    have hoff : off.succ + src.length = off + src.length + 1 := by omega
    rw [ih (by omega), hoff, List.drop_succ_cons, List.take_succ_cons]
    rfl

/-- An array all of whose entries are equal. -/
def replicate (n : ℕ) (x : α) : CArray α n := ⟨List.replicate n x, List.length_replicate⟩

/-- `memcpy(a + off, src, |src|)`. -/
def memcpy (a : CArray α n) (off : ℕ) (src : List α) : CArray α n :=
  ⟨a.toList.overwrite off src, (length_overwrite _ _ _).trans a.length_eq⟩

@[simp] theorem toList_memcpy (a : CArray α n) (off : ℕ) (src : List α) :
    (a.memcpy off src).toList = a.toList.overwrite off src := rfl

/-- `a[i] = x`. -/
def poke (a : CArray α n) (i : ℕ) (x : α) : CArray α n := a.memcpy i [x]

/-- The entries `a[off]`, …, `a[off + len - 1]`. -/
def slice (a : CArray α n) (off len : ℕ) : List α := (a.toList.drop off).take len

theorem length_slice (a : CArray α n) (off len : ℕ) :
    (a.slice off len).length = min len (n - off) := by
  rw [slice, List.length_take, List.length_drop, a.length_eq]

@[simp] theorem slice_zero (a : CArray α n) (off : ℕ) : a.slice off 0 = [] := rfl

/-- A stretch read in two pieces. -/
theorem slice_append (a : CArray α n) (off len len' : ℕ) :
    a.slice off len ++ a.slice (off + len) len' = a.slice off (len + len') := by
  rw [slice, slice, slice, List.take_add, List.drop_drop]

theorem take_slice (a : CArray α n) (off len k : ℕ) :
    (a.slice off len).take k = a.slice off (min k len) := by
  rw [slice, slice, List.take_take]

theorem drop_slice (a : CArray α n) (off len k : ℕ) :
    (a.slice off len).drop k = a.slice (off + k) (len - k) := by
  rw [slice, slice, List.drop_take, List.drop_drop]

/-- The entry under the end of a stretch. -/
theorem slice_last_of_snoc {a : CArray α n} {k : ℕ} {text : List α} {x : α}
    (h : a.slice 0 k = text ++ [x]) (hk : k ≤ n) : a.slice (k - 1) 1 = [x] := by
  have hlen := congrArg List.length h
  rw [length_slice, List.length_append, List.length_singleton] at hlen
  have hsplit := a.slice_append 0 (k - 1) 1
  rw [Nat.zero_add, show k - 1 + 1 = k by omega, h] at hsplit
  refine (List.append_inj' hsplit ?_).2
  rw [length_slice, List.length_singleton]
  omega

theorem slice_last_of_notMem {a : CArray α n} {k : ℕ} {x : α}
    (h : x ∉ a.slice 0 k) (hk : 0 < k) : a.slice (k - 1) 1 ≠ [x] := by
  intro heq
  have hsplit := a.slice_append 0 (k - 1) 1
  rw [Nat.zero_add, show k - 1 + 1 = k by omega, heq] at hsplit
  exact h (hsplit ▸ List.mem_append_right _ List.mem_cons_self)

/-- **Filling an array from its start.**  A piece copied behind what is there is
appended to it. -/
theorem slice_memcpy (a : CArray α n) (off : ℕ) (src : List α)
    (h : off + src.length ≤ n) :
    (a.memcpy off src).slice 0 (off + src.length) = a.slice 0 off ++ src := by
  have hlen : off + src.length ≤ a.toList.length := a.length_eq.symm ▸ h
  have hoff : (a.toList.take off).length = off := by
    rw [List.length_take]
    omega
  rw [slice, slice, toList_memcpy, overwrite_eq _ _ _ hlen, List.drop_zero, List.drop_zero]
  refine List.take_left' ?_
  rw [List.length_append, hoff]

/-- What is in front of the piece stays. -/
theorem slice_memcpy_of_le (a : CArray α n) {k off : ℕ} (src : List α) (hk : k ≤ off)
    (h : off + src.length ≤ n) : (a.memcpy off src).slice 0 k = a.slice 0 k := by
  have htake := congrArg (List.take k) (a.slice_memcpy off src h)
  have hlen : (a.slice 0 off).length = off := by
    rw [length_slice]
    omega
  rw [take_slice, List.take_append_of_le_length (by omega), take_slice,
    Nat.min_eq_left (by omega), Nat.min_eq_left hk] at htake
  exact htake

/-- The piece is where it has been copied to. -/
theorem slice_memcpy_self (a : CArray α n) (off : ℕ) (src : List α)
    (h : off + src.length ≤ n) : (a.memcpy off src).slice off src.length = src := by
  have hsplit := (a.memcpy off src).slice_append 0 off src.length
  rw [a.slice_memcpy off src h, a.slice_memcpy_of_le src (Nat.le_refl off) h,
    Nat.zero_add] at hsplit
  exact List.append_cancel_left hsplit

/-- A piece copied to the start is there. -/
theorem slice_memcpy_zero (a : CArray α n) (src : List α) (h : src.length ≤ n) :
    (a.memcpy 0 src).slice 0 src.length = src := by
  have h' := a.slice_memcpy 0 src (by omega)
  rwa [Nat.zero_add, slice_zero, List.nil_append] at h'

end CArray
