import Astrologer.Generic
import Astrologer.Library.Numeral

/-!
# `Convert` of `common.h`

`Convert` is for the arguments on the command line.  `strtoull` does the reading, with base
`0`, and then there are three checks: that it has read to the end, that it has set no error,
and that the number is between `min` and `max`.

A text is in order when it is a numeral with a value between `min` and `max`
(`Numeral.IsNumeral`).  `Meets` says that `Convert` accepts these texts, with their values,
and refuses all others.  There are three kinds of texts of which it is not true (`Misread`).

* The empty text is read to its end, too.  It counts as `0`.
* A negative number is taken modulo `2 ^ 64`, which is no error.  It is accepted when that
  is between `min` and `max`; `-1` is the largest number of a `size_t`.
* `max` may be larger than the type.  The number is cut to the size of the type.

Of all others it is true: `convert_iff`.  The ports of the servers and the number of clients
are read with the bounds of their types.  For these only the first two kinds remain
(`convert_default_iff`).
-/

namespace Astrologer.Boost

open Numeral

/-! ## The data

The type of the result is given by its width; a value of it is a number below the bound, and a
conversion to it cuts a number. -/

/-- A text that ends with the first zero byte. -/
structure CString where
  chars : List Byte
  nul_notMem : 0 ∉ chars

/-- An unsigned integral type of at most 64 bits. -/
inductive UnsignedType
  | bool
  | word (width : ℕ) (width_le : width ≤ 64)

namespace UnsignedType

/-- The number of its values. -/
def card : UnsignedType → ℕ
  | bool => 2
  | word width _ => 2 ^ width

theorem card_pos (t : UnsignedType) : 0 < t.card := by
  cases t with
  | bool => exact Nat.two_pos
  | word width _ => exact Nat.two_pow_pos width

theorem card_le (t : UnsignedType) : t.card ≤ 2 ^ 64 := by
  cases t with
  | bool => decide
  | word width hwidth => exact Nat.pow_le_pow_right Nat.two_pos hwidth

/-- A value of the type. -/
abbrev Value (t : UnsignedType) : Type := Fin t.card

/-- `static_cast<T>`. -/
def cast (t : UnsignedType) (n : UInt64) : t.Value :=
  match t with
  | bool => if n = 0 then ⟨0, Nat.two_pos⟩ else ⟨1, Nat.one_lt_two⟩
  | word width _ => ⟨n.toNat % 2 ^ width, Nat.mod_lt _ (Nat.two_pow_pos width)⟩

/-- `std::numeric_limits<T>::max()`, as a `std::size_t`. -/
def max (t : UnsignedType) : UInt64 := UInt64.ofNat (t.card - 1)

theorem toNat_max (t : UnsignedType) : t.max.toNat = t.card - 1 := by
  have hpos := t.card_pos
  have hle := t.card_le
  rw [max, UInt64.toNat_ofNat', Nat.mod_eq_of_lt (by omega)]

/-- **A number is cut exactly when it is too large** for the type; otherwise the conversion keeps
it. -/
theorem cast_val_iff {t : UnsignedType} {n : UInt64} :
    (t.cast n).val = n.toNat ↔ n.toNat < t.card := by
  refine ⟨fun h => h ▸ (t.cast n).isLt, fun hlt => ?_⟩
  cases t with
  | bool =>
    have hlt : n.toNat < 2 := hlt
    rw [cast]
    split
    next h0 => rw [h0]; rfl
    next h0 =>
      have hne : n.toNat ≠ 0 := fun h => h0 (UInt64.toNat_inj.mp h)
      show 1 = n.toNat
      omega
  | word width hwidth => exact Nat.mod_eq_of_lt hlt

end UnsignedType

/-- What a call of `Convert` leaves. -/
structure Converted (t : UnsignedType) where
  ret : Bool
  val : t.Value
  errno : ℕ
  /-- What it has written to `std::cerr`. -/
  cerr : List Byte

def erange : ℕ := 34

/-! ## The function -/

section Convert

variable (strerror : ℕ → List Byte)

/-- `Convert`.  The texts of the errors are those of the machine. -/
def convert (t : UnsignedType) (s : CString) (val : t.Value) (min max : UInt64) :
    Converted t :=
  let conversion := strtoull s.chars
  let errno := if conversion.erange then erange else 0
  let tmp := conversion.result
  if conversion.endptr.headD 0 ≠ 0 then
    { ret := false, val := val, errno := errno
      cerr := str "Failed to convert value " ++ s.chars ++ str "\n" }
  else if errno ≠ 0 then
    { ret := false, val := val, errno := 0
      cerr := str "Bad value " ++ s.chars ++ str ", error: " ++ strerror errno ++ str "\n" }
  else if tmp < min ∨ tmp > max then
    { ret := false, val := val, errno := errno
      cerr := str "Value " ++ str (toString tmp.toNat) ++ str " out of range [" ++
        str (toString min.toNat) ++ str ", " ++ str (toString max.toNat) ++ str "]\n" }
  else
    { ret := true, val := t.cast tmp, errno := errno, cerr := [] }

/-! ## What is asked of it

The specification has a grammar of numerals, and nothing of `strtoull` in it. -/

/-- The text is a numeral with a value in the range. -/
def InRange (s : CString) (min max : UInt64) (v : ℤ) : Prop :=
  IsNumeral s.chars v ∧ min.toNat ≤ v ∧ v ≤ max.toNat

/-- **The numbers in range are accepted, and nothing else**, and what is accepted is written with
its value. -/
def Meets (t : UnsignedType) (s : CString) (val : t.Value) (min max : UInt64) : Prop :=
  ((convert strerror t s val min max).ret = true ↔ ∃ v, InRange s min max v) ∧
    (∀ v, InRange s min max v → ((convert strerror t s val min max).val : ℤ) = v) ∧
    ((¬ ∃ v, InRange s min max v) → (convert strerror t s val min max).val = val)

end Convert

/-- The texts that are not treated so. -/
inductive Misread (t : UnsignedType) (s : CString) (min max : UInt64) : Prop
  /-- Nothing counts as zero. -/
  | empty (hs : s.chars = []) (hmin : min = 0)
  /-- A negative number becomes a number in the range. -/
  | negative {n : ℕ} (hs : IsNumeral s.chars (-n)) (hpos : 0 < n) (hlt : n < 2 ^ 64)
      (hmin : min.toNat ≤ 2 ^ 64 - n) (hmax : 2 ^ 64 - n ≤ max.toNat)
  /-- A number in the range is too large for the type. -/
  | cut {n : ℕ} (hs : IsNumeral s.chars n) (hcard : t.card ≤ n)
      (hmin : min.toNat ≤ n) (hmax : n ≤ max.toNat)

/-! ## The condition

What the three checks of the function let through is a numeral with its value modulo `2 ^ 64`.  It
is a number in the range, unless the text is empty, which counts as zero, or it is a negative
number that becomes one in the range, or the number is too large for the type and is cut. -/

section Convert

variable {strerror : ℕ → List Byte} {t : UnsignedType} {s : CString} {val : t.Value}
  {min max : UInt64}

/-- The zero byte is where the text ends. -/
theorem endptr_headD_eq_zero_iff (s : CString) :
    (strtoull s.chars).endptr.headD 0 = 0 ↔ (strtoull s.chars).endptr = [] := by
  obtain ⟨cs, hcs⟩ := endptr_suffix s.chars
  rcases hend : (strtoull s.chars).endptr with _ | ⟨c, rest⟩
  · simp
  · refine iff_of_false (fun h0 => s.nul_notMem ?_) (List.cons_ne_nil c rest)
    rw [List.headD_cons] at h0
    rw [← hcs, hend, h0]
    exact List.mem_append_right _ List.mem_cons_self

/-- The three checks. -/
theorem convert_ret_iff : (convert strerror t s val min max).ret = true ↔
    (strtoull s.chars).endptr = [] ∧ ¬ (strtoull s.chars).erange = true ∧
      min ≤ (strtoull s.chars).result ∧ (strtoull s.chars).result ≤ max := by
  have herange : erange ≠ 0 := by decide
  rw [← endptr_headD_eq_zero_iff, convert]
  by_cases hend : (strtoull s.chars).endptr.headD 0 = 0
  · rw [if_neg (not_not.mpr hend)]
    by_cases herr : (strtoull s.chars).erange = true
    · rw [if_pos herr, if_pos herange]
      exact iff_of_false Bool.false_ne_true fun h => h.2.1 herr
    · rw [if_neg herr, if_neg (not_not.mpr rfl)]
      split
      next hout =>
        refine iff_of_false Bool.false_ne_true fun h => ?_
        rcases hout with hlt | hlt
        · exact absurd h.2.2.1 (UInt64.not_le.mpr hlt)
        · exact absurd h.2.2.2 (UInt64.not_le.mpr hlt)
      next hin =>
        obtain ⟨hmin, hmax⟩ := not_or.mp hin
        exact iff_of_true rfl ⟨hend, herr, UInt64.not_lt.mp hmin, UInt64.not_lt.mp hmax⟩
  · rw [if_pos hend]
    exact iff_of_false Bool.false_ne_true fun h => hend h.1

/-- The value is written when the text is accepted, and not otherwise. -/
theorem convert_val : (convert strerror t s val min max).val =
    if (convert strerror t s val min max).ret then t.cast (strtoull s.chars).result else val := by
  rw [convert]
  split
  · rfl
  · split
    · rfl
    · split
      · rfl
      · split <;> rfl

/-- **What is accepted**, modulo `2 ^ 64`: the empty text, if zero is in the range, and the
numerals whose value is not out of the range of `strtoull` and in the bounds. -/
theorem accepts_iff : (convert strerror t s val min max).ret = true ↔
    (s.chars = [] ∧ min = 0) ∨ ∃ v, IsNumeral s.chars v ∧ |v| < 2 ^ 64 ∧
      min.toNat ≤ v % 2 ^ 64 ∧ v % 2 ^ 64 ≤ max.toNat := by
  rw [convert_ret_iff, endptr_eq_nil_iff]
  constructor
  · rintro ⟨hs | ⟨v, hv⟩, herr, hmin, hmax⟩
    · refine Or.inl ⟨hs, ?_⟩
      rw [hs] at hmin
      exact UInt64.toNat_inj.mp (Nat.le_zero.mp (UInt64.le_iff_toNat_le.mp hmin))
    · obtain ⟨-, herange, hresult⟩ := strtoull_of_isNumeral hv
      have hlt : |v| < 2 ^ 64 := not_le.mp fun hle => herr (herange.mpr hle)
      rw [UInt64.le_iff_toNat_le] at hmin hmax
      refine Or.inr ⟨v, hv, hlt, ?_⟩
      rw [← hresult hlt]
      exact ⟨by exact_mod_cast hmin, by exact_mod_cast hmax⟩
  · rintro (⟨hs, rfl⟩ | ⟨v, hv, hlt, hmin, hmax⟩)
    · rw [hs]
      exact ⟨Or.inl rfl, Bool.false_ne_true, UInt64.zero_le, UInt64.zero_le⟩
    · obtain ⟨-, herange, hresult⟩ := strtoull_of_isNumeral hv
      rw [← hresult hlt] at hmin hmax
      refine ⟨Or.inr ⟨v, hv⟩, fun herr => absurd (herange.mp herr) (not_le.mpr hlt), ?_⟩
      rw [UInt64.le_iff_toNat_le, UInt64.le_iff_toNat_le]
      exact ⟨by exact_mod_cast hmin, by exact_mod_cast hmax⟩

/-- A number in the range is accepted, and read as what it is. -/
theorem InRange.accepts {v : ℤ} (h : InRange s min max v) :
    (convert strerror t s val min max).ret = true ∧
      ((strtoull s.chars).result.toNat : ℤ) = v := by
  obtain ⟨hv, hmin, hmax⟩ := h
  have hlt := max.toNat_lt
  have habs : |v| < 2 ^ 64 := by
    rw [abs_of_nonneg (by omega)]
    omega
  have hmod : v % 2 ^ 64 = v := Int.emod_eq_of_lt (by omega) (by omega)
  refine ⟨accepts_iff.mpr (Or.inr ⟨v, hv, habs, ?_⟩), ?_⟩
  · rw [hmod]
    exact ⟨hmin, hmax⟩
  · rw [(strtoull_of_isNumeral hv).2.2 habs, hmod]

theorem InRange.unique {v w : ℤ} (hv : InRange s min max v) (hw : IsNumeral s.chars w) :
    v = w := hv.1.unique hw

theorem not_meets_of_misread (h : Misread t s min max) :
    ¬ Meets strerror t s val min max := by
  rintro ⟨hret, hval, -⟩
  cases h with
  | empty hs hmin =>
    obtain ⟨v, hv, -⟩ := hret.mp (accepts_iff.mpr (Or.inl ⟨hs, hmin⟩))
    exact not_isNumeral_nil v (hs ▸ hv)
  | @negative n hs hpos hlt hmin hmax =>
    have habs : |(-n : ℤ)| < 2 ^ 64 := by
      rw [abs_neg, Nat.abs_cast]
      exact_mod_cast hlt
    have hmod : (-n : ℤ) % 2 ^ 64 = 2 ^ 64 - n := by omega
    obtain ⟨v, hv⟩ := hret.mp (accepts_iff.mpr (Or.inr ⟨-n, hs, habs, by omega, by omega⟩))
    have heq := hv.unique hs
    have hnonneg := hv.2.1
    omega
  | @cut n hs hcard hmin hmax =>
    have hlt := (convert strerror t s val min max).val.isLt
    have heq := hval n ⟨hs, by exact_mod_cast hmin, by exact_mod_cast hmax⟩
    omega

/-- Whatever is accepted and not in the range is one of these texts. -/
theorem misread_of_accepts (h : (convert strerror t s val min max).ret = true)
    (hout : ¬ ∃ v, InRange s min max v) : Misread t s min max := by
  rcases accepts_iff.mp h with ⟨hs, hmin⟩ | ⟨v, hv, habs, hmin, hmax⟩
  · exact .empty hs hmin
  · rcases le_or_gt 0 v with hnonneg | hneg
    · rw [abs_of_nonneg hnonneg] at habs
      rw [Int.emod_eq_of_lt hnonneg habs] at hmin hmax
      exact absurd ⟨v, hv, hmin, hmax⟩ hout
    · obtain ⟨n, rfl⟩ : ∃ n : ℕ, v = -n := ⟨v.natAbs, by omega⟩
      rw [abs_neg, Nat.abs_cast] at habs
      exact .negative hv (by omega) (by omega) (by omega) (by omega)

/-- **When `Convert` accepts exactly the numbers in range.**  It does for a text and bounds unless
the text is misread: it is empty, or negative, or too large for the type. -/
theorem convert_iff : Meets strerror t s val min max ↔ ¬ Misread t s min max := by
  refine ⟨fun h hmis => not_meets_of_misread hmis h, fun h => ⟨⟨fun hret => ?_, ?_⟩, ?_, ?_⟩⟩
  · by_contra hout
    exact h (misread_of_accepts hret hout)
  · rintro ⟨v, hv⟩
    exact hv.accepts.1
  · intro v hv
    obtain ⟨hret, hresult⟩ := @InRange.accepts strerror t s val min max v hv
    have hcard : (strtoull s.chars).result.toNat < t.card := by
      by_contra hge
      refine h (.cut (n := (strtoull s.chars).result.toNat) (hresult ▸ hv.1) (by omega) ?_ ?_)
      · exact_mod_cast hresult ▸ hv.2.1
      · exact_mod_cast hresult ▸ hv.2.2
    rw [convert_val, if_pos hret, UnsignedType.cast_val_iff.mpr hcard, hresult]
  · intro hout
    have hret : ¬ (convert strerror t s val min max).ret = true := fun hret =>
      h (misread_of_accepts hret hout)
    rw [convert_val, if_neg hret]

/-- **With the bounds of the type** a number is never cut. -/
theorem convert_default_iff : Meets strerror t s val 0 t.max ↔
    s.chars ≠ [] ∧ ∀ n : ℕ, IsNumeral s.chars (-n) → 0 < n → n < 2 ^ 64 →
      t.card ≤ 2 ^ 64 - n := by
  have hmax := t.toNat_max
  have hpos := t.card_pos
  rw [convert_iff]
  constructor
  · intro h
    refine ⟨fun hs => h (.empty hs rfl), fun n hn hn0 hlt => ?_⟩
    by_contra hge
    exact h (.negative hn hn0 hlt (Nat.zero_le _) (by omega))
  · rintro ⟨hne, hneg⟩ hmis
    cases hmis with
    | empty hs => exact hne hs
    | negative hs hn0 hlt hmin hle =>
      have hge := hneg _ hs hn0 hlt
      omega
    | cut hs hcard hmin hle => omega

end Convert

/-- `client multi address port -1`. -/
def sampleMinusOne : CString := ⟨str "-1", by decide⟩

/-- The number of clients is then `2 ^ 64 - 1`. -/
theorem sampleMinusOne_accepted :
    (convert (fun _ => []) (.word 64 le_rfl) sampleMinusOne ⟨0, by decide⟩ 0
        (UnsignedType.word 64 le_rfl).max).ret = true ∧
      (convert (fun _ => []) (.word 64 le_rfl) sampleMinusOne ⟨0, by decide⟩ 0
        (UnsignedType.word 64 le_rfl).max).val.val = 2 ^ 64 - 1 ∧
      ¬ Meets (fun _ => []) (.word 64 le_rfl) sampleMinusOne ⟨0, by decide⟩ 0
        (UnsignedType.word 64 le_rfl).max := by
  have hret : (convert (fun _ => []) (.word 64 le_rfl) sampleMinusOne ⟨0, by decide⟩ 0
      (UnsignedType.word 64 le_rfl).max).ret = true := by decide
  refine ⟨hret, by decide, fun h => ?_⟩
  obtain ⟨v, hv, hnonneg, -⟩ := h.1.mp hret
  have hempty : ∀ {q : UInt8 → Bool}, ∀ x ∈ ([] : List UInt8), q x = true :=
    fun _ hx => absurd hx List.not_mem_nil
  have hdigit : IsConstant [49] (value 10 [49]) := .decimal (by decide) (by decide) hempty
  have hone : IsNumeral sampleMinusOne.chars (-1) := .intro hempty .minus hdigit
  obtain rfl : v = -1 := hv.unique hone
  exact absurd hnonneg (by decide)

end Astrologer.Boost
