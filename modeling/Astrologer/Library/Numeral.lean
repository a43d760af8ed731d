import Mathlib

/-!
# Numerals and how C reads them

An integer constant is written in the decimal, octal or hexadecimal system, and its first
characters say in which (`IsConstant`).  A numeral has white space and a sign before the
constant (`IsNumeral`).  Its value is an integer of any size.

`scan` reads the longest constant off the front of a text.  It looks at two or three
characters to choose the base and then takes digits while there are any.  That this finds
the longest one is `scan_longest`: when the text begins with a constant, what `scan` leaves
is at most what is behind that constant.  So a text that is a constant is read to its end,
and has one value only (`IsConstant.unique`).

`strtoull` is the function of the C standard with base `0`.  It knows numbers below `2 ^ 64`
only, and a minus sign is an operation on these.  What it makes of a whole text is
`strtoull_of_isNumeral`, and when it reads to the end of a text is `endptr_eq_nil_iff`: the
text is a numeral, or it is empty.
-/

namespace Numeral

/-! ## Digits -/

/-- The value of a digit; `16` for a character that is none. -/
def digitVal (c : UInt8) : ℕ :=
  if 48 ≤ c ∧ c ≤ 57 then c.toNat - 48
  else if 65 ≤ c ∧ c ≤ 70 then c.toNat - 55
  else if 97 ≤ c ∧ c ≤ 102 then c.toNat - 87
  else 16

def isDigit (base : ℕ) (c : UInt8) : Bool := digitVal c < base

/-- The number that the digits stand for, the first one being the most significant. -/
def value (base : ℕ) (digits : List UInt8) : ℕ :=
  Nat.ofDigits base (digits.reverse.map digitVal)

/-- `isspace`, in the C locale. -/
def isSpace (c : UInt8) : Bool := c = 32 || (9 ≤ c && c ≤ 13)

/-- `x` or `X`. -/
def isHexMark (c : UInt8) : Bool := c = 120 || c = 88

/-! ## The grammar -/

/-- An integer constant of C and its value: decimal, or octal or hexadecimal by its prefix.  It is
a grammar of its own, with nothing of the function that converts. -/
inductive IsConstant : List UInt8 → ℕ → Prop
  | decimal {c : UInt8} {cs : List UInt8} (hne : c ≠ 48) (hc : isDigit 10 c = true)
      (hcs : ∀ x ∈ cs, isDigit 10 x = true) : IsConstant (c :: cs) (value 10 (c :: cs))
  | octal {cs : List UInt8} (hcs : ∀ x ∈ cs, isDigit 8 x = true) :
      IsConstant (48 :: cs) (value 8 cs)
  | hexadecimal {m c : UInt8} {cs : List UInt8} (hm : isHexMark m = true)
      (hc : isDigit 16 c = true) (hcs : ∀ x ∈ cs, isDigit 16 x = true) :
      IsConstant (48 :: m :: c :: cs) (value 16 (c :: cs))

/-- A sign, or none; it is negative or not. -/
inductive IsSign : List UInt8 → Bool → Prop
  | none : IsSign [] false
  | plus : IsSign [43] false
  | minus : IsSign [45] true

def signed (negative : Bool) (n : ℕ) : ℤ := if negative then -n else n

/-- What an integer is read from: white space, a sign, and a constant. -/
inductive IsNumeral : List UInt8 → ℤ → Prop
  | intro {space sign cs : List UInt8} {negative : Bool} {n : ℕ}
      (hspace : ∀ x ∈ space, isSpace x = true) (hsign : IsSign sign negative)
      (hcs : IsConstant cs n) : IsNumeral (space ++ (sign ++ cs)) (signed negative n)

/-! ## Reading

The functions that read: as many digits as there are, the longest constant, and the numeral around
it. -/

/-- The digits at the front of a text, and what is behind them. -/
def digits (base : ℕ) (s : List UInt8) : ℕ × List UInt8 :=
  (value base (s.takeWhile (isDigit base)), s.dropWhile (isDigit base))

/-- What is behind a zero says that the constant is hexadecimal. -/
def isHex : List UInt8 → Bool
  | m :: c :: _ => isHexMark m && isDigit 16 c
  | _ => false

/-- The longest constant at the front of a text: its value, and what is behind it. -/
def scan : List UInt8 → Option (ℕ × List UInt8)
  | [] => none
  | c :: cs =>
    if c = 48 then
      some (if isHex cs then digits 16 cs.tail else digits 8 cs)
    else if isDigit 10 c then
      some (digits 10 (c :: cs))
    else
      none

def takeSign : List UInt8 → Bool × List UInt8
  | [] => (false, [])
  | c :: cs => if c = 45 then (true, cs) else (false, if c = 43 then cs else c :: cs)

/-- What `strtoull` gives back: the value, where it has stopped, and whether the value was out of
range. -/
structure Conversion where
  result : UInt64
  /-- What `endptr` points to. -/
  endptr : List UInt8
  /-- `errno` has been set to `ERANGE`. -/
  erange : Bool
  deriving DecidableEq

/-- A constant, with its sign, as an `unsigned long long`. -/
def conversion (negative : Bool) (n : ℕ) (behind : List UInt8) : Conversion :=
  if n < 2 ^ 64 then
    let converted := UInt64.ofNat n
    { result := if negative then -converted else converted, endptr := behind, erange := false }
  else
    { result := UInt64.ofNat (2 ^ 64 - 1), endptr := behind, erange := true }

/-- `strtoull(s, &endptr, 0)`. -/
def strtoull (s : List UInt8) : Conversion :=
  let rest := takeSign (s.dropWhile isSpace)
  match scan rest.2 with
  | none => { result := 0, endptr := s, erange := false }
  | some (n, behind) => conversion rest.1 n behind

/-! ## The longest constant

What `scan` reads is a constant of the grammar, and no longer text at the front is one. -/

theorem isDigit_mono {b b' : ℕ} (hle : b ≤ b') {c : UInt8} (h : isDigit b c = true) :
    isDigit b' c = true := by
  rw [isDigit, decide_eq_true_eq] at h ⊢
  exact lt_of_lt_of_le h hle

/-- The mark of the hexadecimal constants is no digit. -/
theorem not_isDigit_of_isHexMark {m : UInt8} (h : isHexMark m = true) {b : ℕ} (hb : b ≤ 16) :
    ¬ isDigit b m = true := by
  intro hdigit
  have hdigit := isDigit_mono hb hdigit
  rw [isHexMark, Bool.or_eq_true, decide_eq_true_eq, decide_eq_true_eq] at h
  rcases h with rfl | rfl <;> exact absurd hdigit (by decide)

/-- Digits in front of a text are read before it. -/
theorem digits_append {b : ℕ} {cs : List UInt8} (hcs : ∀ x ∈ cs, isDigit b x = true)
    (rest : List UInt8) : (digits b (cs ++ rest)).2 = (digits b rest).2 := by
  show (cs ++ rest).dropWhile (isDigit b) = rest.dropWhile (isDigit b)
  exact List.dropWhile_append_of_pos hcs

theorem length_digits_le (b : ℕ) (s : List UInt8) : (digits b s).2.length ≤ s.length :=
  List.length_dropWhile_le _ _

/-- What has been read as digits. -/
theorem digits_split (b : ℕ) (s : List UInt8) :
    ∃ cs, s = cs ++ (digits b s).2 ∧ (∀ x ∈ cs, isDigit b x = true) ∧
      (digits b s).1 = value b cs :=
  ⟨s.takeWhile (isDigit b), List.takeWhile_append_dropWhile.symm,
    fun _ hx => List.mem_takeWhile_imp hx, rfl⟩

/-- A digit that has been seen is one of them. -/
theorem digits_cons {b : ℕ} {c : UInt8} (hc : isDigit b c = true) (s : List UInt8) :
    ∃ cs, c :: s = c :: cs ++ (digits b (c :: s)).2 ∧ (∀ x ∈ cs, isDigit b x = true) ∧
      (digits b (c :: s)).1 = value b (c :: cs) := by
  refine ⟨s.takeWhile (isDigit b), ?_, fun _ hx => List.mem_takeWhile_imp hx, ?_⟩
  · rw [digits, List.dropWhile_cons_of_pos hc, List.cons_append,
      List.takeWhile_append_dropWhile]
  · rw [digits, List.takeWhile_cons_of_pos hc]

/-- **What is read is a constant** of the grammar, and its value is the number of the constant;
the rest of the text is untouched. -/
theorem scan_sound {s rest : List UInt8} {n : ℕ} (h : scan s = some (n, rest)) :
    ∃ cs, s = cs ++ rest ∧ IsConstant cs n := by
  rcases s with _ | ⟨c, s⟩
  · simp [scan] at h
  · rw [scan] at h
    split at h
    next hzero =>
      subst hzero
      split at h
      next hhex =>
        rcases s with _ | ⟨m, _ | ⟨c, s⟩⟩
        · simp [isHex] at hhex
        · simp [isHex] at hhex
        · rw [isHex, Bool.and_eq_true] at hhex
          obtain ⟨cs, heq, hcs, hval⟩ := digits_cons hhex.2 s
          rw [List.tail_cons, Option.some.injEq, Prod.ext_iff] at h
          obtain ⟨rfl, rfl⟩ := h
          refine ⟨48 :: m :: c :: cs, ?_, hval ▸ .hexadecimal hhex.1 hhex.2 hcs⟩
          rw [List.cons_append, List.cons_append, ← heq]
      next =>
        obtain ⟨cs, heq, hcs, hval⟩ := digits_split 8 s
        rw [Option.some.injEq, Prod.ext_iff] at h
        obtain ⟨rfl, rfl⟩ := h
        refine ⟨48 :: cs, ?_, hval ▸ .octal hcs⟩
        rw [List.cons_append, ← heq]
    next hne =>
      split at h
      next hc =>
        obtain ⟨cs, heq, hcs, hval⟩ := digits_cons hc s
        rw [Option.some.injEq, Prod.ext_iff] at h
        obtain ⟨rfl, rfl⟩ := h
        exact ⟨c :: cs, heq, hval ▸ .decimal hne hc hcs⟩
      next => cases h

/-- Octal digits behind a zero do not look hexadecimal. -/
theorem not_isHex_of_octal {c : UInt8} {cs : List UInt8} (hc : isDigit 8 c = true)
    (rest : List UInt8) : isHex (c :: cs ++ rest) = false := by
  rcases hcs : cs ++ rest with _ | ⟨d, ds⟩
  · rw [List.cons_append, hcs]
    rfl
  · rw [List.cons_append, hcs, isHex, Bool.and_eq_false_iff]
    refine Or.inl (Bool.eq_false_iff.mpr fun hm => ?_)
    exact not_isDigit_of_isHexMark hm (by omega) hc

/-- **It is the longest one**: where a text begins with a constant, at least that much is read. -/
theorem scan_longest {cs rest : List UInt8} {n : ℕ} (h : IsConstant cs n) :
    ∃ m behind, scan (cs ++ rest) = some (m, behind) ∧ behind.length ≤ rest.length := by
  cases h with
  | @decimal c cs hne hc hcs =>
    refine ⟨(digits 10 (c :: cs ++ rest)).1, (digits 10 (c :: cs ++ rest)).2, ?_, ?_⟩
    · rw [List.cons_append, scan, if_neg hne, if_pos hc]
    · have hall : ∀ x ∈ c :: cs, isDigit 10 x = true := List.forall_mem_cons.mpr ⟨hc, hcs⟩
      rw [digits_append hall]
      exact length_digits_le 10 rest
  | @octal cs hcs =>
    refine ⟨_, _, by rw [List.cons_append, scan, if_pos rfl], ?_⟩
    rcases cs with _ | ⟨c, cs⟩
    · rw [List.nil_append]
      split
      · exact (length_digits_le 16 rest.tail).trans (by simp)
      · exact length_digits_le 8 rest
    · rw [not_isHex_of_octal (hcs c List.mem_cons_self), if_neg Bool.false_ne_true,
        digits_append hcs]
      exact length_digits_le 8 rest
  | @hexadecimal m c cs hm hc hcs =>
    have hhex : isHex (m :: c :: cs ++ rest) = true := by
      rw [List.cons_append, List.cons_append, isHex, hm, hc]
      rfl
    refine ⟨_, _, by rw [List.cons_append, scan, if_pos rfl, if_pos hhex], ?_⟩
    have hall : ∀ x ∈ c :: cs, isDigit 16 x = true := List.forall_mem_cons.mpr ⟨hc, hcs⟩
    rw [List.cons_append, List.tail_cons, digits_append hall]
    exact length_digits_le 16 rest

/-- **A constant has one value.**  No two rules are about the same text. -/
theorem IsConstant.unique {cs : List UInt8} {n m : ℕ} (hn : IsConstant cs n)
    (hm : IsConstant cs m) : n = m := by
  have hmark : ∀ {c : UInt8} {ds : List UInt8}, isHexMark c = true →
      (∀ x ∈ c :: ds, isDigit 8 x = true) → False := fun hc hds =>
    not_isDigit_of_isHexMark hc (by omega) (hds _ List.mem_cons_self)
  cases hn with
  | decimal hne =>
    cases hm with
    | decimal => rfl
    | octal => exact absurd rfl hne
    | hexadecimal => exact absurd rfl hne
  | octal hcs =>
    cases hm with
    | decimal hne => exact absurd rfl hne
    | octal => rfl
    | hexadecimal hc => exact (hmark hc hcs).elim
  | hexadecimal hc =>
    cases hm with
    | decimal hne => exact absurd rfl hne
    | octal hcs => exact (hmark hc hcs).elim
    | hexadecimal => rfl

/-- A text that is a constant is read to its end. -/
theorem scan_eq_some_nil_iff {cs : List UInt8} {n : ℕ} :
    scan cs = some (n, []) ↔ IsConstant cs n := by
  constructor
  · intro h
    obtain ⟨cs', heq, hcs⟩ := scan_sound h
    rwa [heq, List.append_nil]
  · intro h
    obtain ⟨m, behind, hscan, hlen⟩ := @scan_longest cs [] n h
    obtain rfl : behind = [] := List.eq_nil_of_length_eq_zero (Nat.le_zero.mp hlen)
    rw [List.append_nil] at hscan
    obtain ⟨cs', heq, hcs⟩ := scan_sound hscan
    rw [List.append_nil] at heq
    rw [hscan, h.unique (heq ▸ hcs)]

/-! ## White space and signs

White space, signs and digits are different characters, so a numeral can be taken apart in one way
only. -/

theorem isDigit_ten_iff {c : UInt8} : isDigit 10 c = true ↔ 48 ≤ c.toNat ∧ c.toNat ≤ 57 := by
  rw [isDigit, decide_eq_true_eq, digitVal]
  simp only [UInt8.le_iff_toNat_le]
  have h48 : (48 : UInt8).toNat = 48 := rfl
  have h57 : (57 : UInt8).toNat = 57 := rfl
  have h65 : (65 : UInt8).toNat = 65 := rfl
  have h97 : (97 : UInt8).toNat = 97 := rfl
  rw [h48, h57, h65, h97]
  split
  · omega
  · split
    · omega
    · split <;> omega

/-- A constant begins with a decimal digit, in each system. -/
theorem IsConstant.exists_digit {cs : List UInt8} {n : ℕ} (h : IsConstant cs n) :
    ∃ c ds, cs = c :: ds ∧ isDigit 10 c = true := by
  cases h with
  | decimal hne hc hcs => exact ⟨_, _, rfl, hc⟩
  | octal hcs => exact ⟨_, _, rfl, by decide⟩
  | hexadecimal hm hc hcs => exact ⟨_, _, rfl, by decide⟩

theorem not_isSpace_of_isDigit {c : UInt8} (h : isDigit 10 c = true) : ¬ isSpace c = true := by
  rw [isDigit_ten_iff] at h
  rw [isSpace, Bool.or_eq_true, Bool.and_eq_true, decide_eq_true_eq, decide_eq_true_eq,
    decide_eq_true_eq, UInt8.le_iff_toNat_le, UInt8.le_iff_toNat_le]
  rintro (rfl | ⟨-, hle⟩)
  · exact absurd h.1 (by decide)
  · have hle : c.toNat ≤ 13 := hle
    omega

theorem takeSign_of_isDigit {c : UInt8} (h : isDigit 10 c = true) (cs : List UInt8) :
    takeSign (c :: cs) = (false, c :: cs) := by
  have hminus : c ≠ 45 := by
    rintro rfl
    exact absurd h (by decide)
  have hplus : c ≠ 43 := by
    rintro rfl
    exact absurd h (by decide)
  rw [takeSign, if_neg hminus, if_neg hplus]

/-- What is taken as a sign is one. -/
theorem takeSign_split (s : List UInt8) :
    ∃ sign, s = sign ++ (takeSign s).2 ∧ IsSign sign (takeSign s).1 := by
  rcases s with _ | ⟨c, cs⟩
  · exact ⟨[], rfl, .none⟩
  · by_cases hminus : c = 45
    · subst hminus
      exact ⟨[45], rfl, .minus⟩
    · by_cases hplus : c = 43
      · subst hplus
        exact ⟨[43], rfl, .plus⟩
      · refine ⟨[], ?_, ?_⟩ <;> rw [takeSign, if_neg hminus, if_neg hplus]
        · rfl
        · exact .none

/-- **A numeral is taken apart at its first digit**: drop the white space, take the sign, and the
rest has to be a constant. -/
theorem isNumeral_iff {s : List UInt8} {v : ℤ} :
    IsNumeral s v ↔ ∃ n, IsConstant (takeSign (s.dropWhile isSpace)).2 n ∧
      v = signed (takeSign (s.dropWhile isSpace)).1 n := by
  constructor
  · rintro @⟨space, sign, cs, negative, n, hspace, hsign, hcs⟩
    have hskip : (space ++ (sign ++ cs)).dropWhile isSpace = (sign ++ cs).dropWhile isSpace :=
      List.dropWhile_append_of_pos hspace
    obtain ⟨c, ds, rfl, hc⟩ := hcs.exists_digit
    rw [hskip]
    cases hsign with
    | none =>
      rw [List.nil_append, List.dropWhile_cons_of_neg (not_isSpace_of_isDigit hc),
        takeSign_of_isDigit hc]
      exact ⟨n, hcs, rfl⟩
    | plus => exact ⟨n, hcs, rfl⟩
    | minus => exact ⟨n, hcs, rfl⟩
  · rintro ⟨n, hcs, rfl⟩
    obtain ⟨sign, heq, hsign⟩ := takeSign_split (s.dropWhile isSpace)
    have hspace : ∀ x ∈ s.takeWhile isSpace, isSpace x = true :=
      fun _ hx => List.mem_takeWhile_imp hx
    have hnumeral := IsNumeral.intro hspace hsign hcs
    rwa [← heq, List.takeWhile_append_dropWhile] at hnumeral

theorem IsNumeral.unique {s : List UInt8} {v w : ℤ} (hv : IsNumeral s v)
    (hw : IsNumeral s w) : v = w := by
  obtain ⟨n, hn, rfl⟩ := isNumeral_iff.mp hv
  obtain ⟨m, hm, rfl⟩ := isNumeral_iff.mp hw
  rw [hn.unique hm]

/-! ## `strtoull`

The function by its value, its end pointer and its error, and what it makes of a numeral. -/

@[simp] theorem abs_signed (negative : Bool) (n : ℕ) : |signed negative n| = n := by
  cases negative <;> simp [signed]

/-- The number as an `unsigned long long`. -/
theorem toNat_signed (negative : Bool) (n : ℕ) :
    ((if negative then -UInt64.ofNat n else UInt64.ofNat n).toNat : ℤ) =
      signed negative n % 2 ^ 64 := by
  cases negative with
  | false =>
    rw [if_neg Bool.false_ne_true, UInt64.toNat_ofNat', signed, if_neg Bool.false_ne_true]
    exact Int.natCast_mod n (2 ^ 64)
  | true =>
    have hsize : UInt64.size = 18446744073709551616 := rfl
    rw [if_pos rfl, UInt64.toNat_neg, UInt64.toNat_ofNat', signed, if_pos rfl, hsize]
    omega

theorem strtoull_of_scan {s behind : List UInt8} {n : ℕ}
    (h : scan (takeSign (s.dropWhile isSpace)).2 = some (n, behind)) :
    strtoull s = conversion (takeSign (s.dropWhile isSpace)).1 n behind := by
  simp only [strtoull, h]

theorem conversion_endptr (negative : Bool) (n : ℕ) (behind : List UInt8) :
    (conversion negative n behind).endptr = behind := by
  rw [conversion]
  split <;> rfl

theorem conversion_erange (negative : Bool) (n : ℕ) (behind : List UInt8) :
    (conversion negative n behind).erange = true ↔ 2 ^ 64 ≤ n := by
  rw [conversion]
  split
  next hlt => exact iff_of_false Bool.false_ne_true (Nat.not_le.mpr hlt)
  next hge => exact iff_of_true rfl (Nat.not_lt.mp hge)

/-- **What `strtoull` makes of a numeral.**  It reads all of it; the error says that the absolute
value is out of range; and otherwise the result is the value modulo `2 ^ 64`, also for a negative
one. -/
theorem strtoull_of_isNumeral {s : List UInt8} {v : ℤ} (h : IsNumeral s v) :
    (strtoull s).endptr = [] ∧ ((strtoull s).erange = true ↔ 2 ^ 64 ≤ |v|) ∧
      (|v| < 2 ^ 64 → ((strtoull s).result.toNat : ℤ) = v % 2 ^ 64) := by
  obtain ⟨n, hcs, rfl⟩ := isNumeral_iff.mp h
  rw [abs_signed, strtoull_of_scan (scan_eq_some_nil_iff.mpr hcs)]
  refine ⟨conversion_endptr _ n [], ?_, fun hlt => ?_⟩
  · rw [conversion_erange]
    exact_mod_cast Iff.rfl
  · have hlt : n < 2 ^ 64 := by exact_mod_cast hlt
    rw [conversion, if_pos hlt]
    exact toNat_signed _ n

/-- **When it reads to the end**: the text is a numeral, or it is empty, since then there is
nothing to read. -/
theorem endptr_eq_nil_iff {s : List UInt8} :
    (strtoull s).endptr = [] ↔ s = [] ∨ ∃ v, IsNumeral s v := by
  constructor
  · intro h
    rcases hscan : scan (takeSign (s.dropWhile isSpace)).2 with _ | ⟨n, behind⟩
    · simp only [strtoull, hscan] at h
      exact Or.inl h
    · rw [strtoull_of_scan hscan, conversion_endptr] at h
      subst h
      exact Or.inr ⟨_, isNumeral_iff.mpr ⟨n, scan_eq_some_nil_iff.mp hscan, rfl⟩⟩
  · rintro (rfl | ⟨v, hv⟩)
    · rfl
    · exact (strtoull_of_isNumeral hv).1

/-- `endptr` points into the text. -/
theorem endptr_suffix (s : List UInt8) : (strtoull s).endptr <:+ s := by
  rcases hscan : scan (takeSign (s.dropWhile isSpace)).2 with _ | ⟨n, behind⟩
  · simp only [strtoull, hscan]
    exact List.suffix_rfl
  · obtain ⟨cs, heq, -⟩ := scan_sound hscan
    obtain ⟨sign, hsign, -⟩ := takeSign_split (s.dropWhile isSpace)
    rw [strtoull_of_scan hscan, conversion_endptr]
    have hrest : behind <:+ (takeSign (s.dropWhile isSpace)).2 := ⟨cs, heq.symm⟩
    exact (hrest.trans ⟨sign, hsign.symm⟩).trans (List.dropWhile_suffix _)

theorem not_isNumeral_nil (v : ℤ) : ¬ IsNumeral [] v := by
  intro h
  obtain ⟨n, hcs, -⟩ := isNumeral_iff.mp h
  obtain ⟨c, ds, heq, -⟩ := hcs.exists_digit
  exact List.cons_ne_nil c ds heq.symm

end Numeral
