import Mathlib

/-!
# Framing a stream by a delimiter

A stream is a list that grows at its end.  Its first line reaches up to and
including the first delimiter `d`: `takeLine d l`, with `dropLine d l` behind it.
When there is no delimiter yet, `takeLine` is the whole list.

A receiver with room for `limit` entries cannot wait for a delimiter for ever.
`frame limit d l` is what it can say about the stream so far: the first line is
complete and fits (`line`), it cannot fit any more (`overlong`), or it is too
early to tell (`unfinished`).  The first two answers do not change when more of the
stream arrives (`frame_append`); that is what makes the answer independent of
where the stream was cut.

`splitLines` is the same thing for a stream that is all there.  `IsLine` says that a
list is one complete line; a stream has one first line only (`IsLine.append_inj`).
-/

namespace Lines

variable {α : Type*} [DecidableEq α]

/-- Up to and including the first delimiter, or everything. -/
def takeLine (d : α) : List α → List α
  | [] => []
  | a :: l => if a = d then [a] else a :: takeLine d l

/-- What comes behind the first delimiter, if there is one. -/
def dropLine (d : α) : List α → List α
  | [] => []
  | a :: l => if a = d then l else dropLine d l

theorem takeLine_append_dropLine (d : α) (l : List α) :
    takeLine d l ++ dropLine d l = l := by
  induction l with
  | nil => rfl
  | cons a l ih =>
    simp only [takeLine, dropLine]
    split
    · rfl
    · rw [List.cons_append, ih]

theorem length_takeLine_le (d : α) (l : List α) : (takeLine d l).length ≤ l.length := by
  have h := congrArg List.length (takeLine_append_dropLine d l)
  rw [List.length_append] at h
  omega

theorem dropLine_eq_drop (d : α) (l : List α) :
    dropLine d l = l.drop (takeLine d l).length := by
  have h : (takeLine d l ++ dropLine d l).drop (takeLine d l).length = dropLine d l :=
    List.drop_left
  rw [takeLine_append_dropLine] at h
  exact h.symm

theorem takeLine_eq_take (d : α) (l : List α) :
    takeLine d l = l.take (takeLine d l).length := by
  have h : (takeLine d l ++ dropLine d l).take (takeLine d l).length = takeLine d l :=
    List.take_left
  rw [takeLine_append_dropLine] at h
  exact h.symm

theorem takeLine_of_notMem {d : α} {l : List α} (h : d ∉ l) : takeLine d l = l := by
  induction l with
  | nil => rfl
  | cons a l ih =>
    rw [List.mem_cons, not_or] at h
    rw [takeLine, if_neg (Ne.symm h.1), ih h.2]

/-- Text without a delimiter in front of a stream joins its first line. -/
theorem takeLine_append_of_notMem {d : α} {l : List α} (h : d ∉ l) (m : List α) :
    takeLine d (l ++ m) = l ++ takeLine d m := by
  induction l with
  | nil => rfl
  | cons a l ih =>
    rw [List.mem_cons, not_or] at h
    rw [List.cons_append, takeLine, if_neg (Ne.symm h.1), ih h.2, List.cons_append]

theorem dropLine_append_of_notMem {d : α} {l : List α} (h : d ∉ l) (m : List α) :
    dropLine d (l ++ m) = dropLine d m := by
  induction l with
  | nil => rfl
  | cons a l ih =>
    rw [List.mem_cons, not_or] at h
    rw [List.cons_append, dropLine, if_neg (Ne.symm h.1), ih h.2]

/-- Once a line is complete, more of the stream does not change it. -/
theorem takeLine_append_of_mem {d : α} {l : List α} (h : d ∈ l) (m : List α) :
    takeLine d (l ++ m) = takeLine d l := by
  induction l with
  | nil => exact absurd h List.not_mem_nil
  | cons a l ih =>
    rw [List.cons_append, takeLine, takeLine]
    split
    · rfl
    next hne => rw [ih ((List.mem_cons.mp h).resolve_left (Ne.symm hne))]

theorem dropLine_append_of_mem {d : α} {l : List α} (h : d ∈ l) (m : List α) :
    dropLine d (l ++ m) = dropLine d l ++ m := by
  rw [dropLine_eq_drop, dropLine_eq_drop, takeLine_append_of_mem h,
    List.drop_append_of_le_length (length_takeLine_le d l)]

/-- A complete line is its text, without a delimiter, and one delimiter. -/
theorem exists_takeLine_eq_of_mem {d : α} {l : List α} (h : d ∈ l) :
    ∃ text, d ∉ text ∧ takeLine d l = text ++ [d] := by
  induction l with
  | nil => exact absurd h List.not_mem_nil
  | cons a l ih =>
    rw [takeLine]
    split
    next heq => exact ⟨[], List.not_mem_nil, by rw [heq]; rfl⟩
    next hne =>
      obtain ⟨text, htext, heq⟩ := ih ((List.mem_cons.mp h).resolve_left (Ne.symm hne))
      refine ⟨a :: text, ?_, by rw [heq]; rfl⟩
      rw [List.mem_cons, not_or]
      exact ⟨Ne.symm hne, htext⟩

/-- A line given as text and delimiter is framed as it is. -/
theorem takeLine_text {d : α} {text : List α} (h : d ∉ text) (m : List α) :
    takeLine d (text ++ d :: m) = text ++ [d] := by
  rw [takeLine_append_of_notMem h, takeLine, if_pos rfl]

theorem dropLine_text {d : α} {text : List α} (h : d ∉ text) (m : List α) :
    dropLine d (text ++ d :: m) = m := by
  rw [dropLine_append_of_notMem h, dropLine, if_pos rfl]

theorem mem_takeLine {d : α} {l : List α} : d ∈ takeLine d l ↔ d ∈ l := by
  constructor
  · intro h
    rw [← takeLine_append_dropLine d l]
    exact List.mem_append_left _ h
  · intro h
    obtain ⟨text, -, heq⟩ := exists_takeLine_eq_of_mem h
    rw [heq]
    exact List.mem_append_right _ List.mem_cons_self

theorem takeLine_ne_nil {d : α} {l : List α} (h : l ≠ []) : takeLine d l ≠ [] := by
  cases l with
  | nil => exact absurd rfl h
  | cons a l =>
    rw [takeLine]
    split <;> exact List.cons_ne_nil _ _

/-- The position of the first delimiter, as `memchr` finds it. -/
theorem findIdx_eq_length {d : α} {l : List α} (h : d ∈ l) :
    l.findIdx? (· == d) = some ((takeLine d l).length - 1) := by
  induction l with
  | nil => exact absurd h List.not_mem_nil
  | cons a l ih =>
    rw [List.findIdx?_cons, takeLine]
    rcases eq_or_ne a d with rfl | hne
    · simp
    · have hmem := (List.mem_cons.mp h).resolve_left (Ne.symm hne)
      have hpos : 0 < (takeLine d l).length :=
        List.length_pos_iff.mpr (takeLine_ne_nil (List.ne_nil_of_mem hmem))
      rw [if_neg hne, ih hmem]
      simp only [beq_iff_eq, hne, if_false, Option.map_some, List.length_cons]
      congr 1
      omega

/-! ## Frames

A receiver that has room for `n` entries cannot see more of a line than these.  What it knows once
it knows it for good: more of the stream changes no answer but `unfinished`. -/

/-- What a receiver with bounded room knows of the first line: it has all of it, it has no room
for it, or it has to receive more. -/
inductive Frame (α : Type*) where
  /-- The first line, and what has arrived behind it. -/
  | line (l rest : List α)
  | overlong
  | unfinished
  deriving DecidableEq

/-- Frame the first line of a stream. -/
def frame (limit : ℕ) (d : α) (l : List α) : Frame α :=
  if d ∈ l.take limit then .line (takeLine d l) (dropLine d l)
  else if limit ≤ l.length then .overlong
  else .unfinished

/-- A line is framed exactly when it is complete and fits. -/
theorem mem_take_iff {limit : ℕ} {d : α} {l : List α} :
    d ∈ l.take limit ↔ d ∈ l ∧ (takeLine d l).length ≤ limit := by
  constructor
  · intro h
    refine ⟨List.mem_of_mem_take h, ?_⟩
    rw [← List.take_append_drop limit l, takeLine_append_of_mem h]
    exact Nat.le_trans (length_takeLine_le d _) (List.length_take_le limit l)
  · rintro ⟨h, hle⟩
    have hmem := mem_takeLine.mpr h
    rw [takeLine_eq_take] at hmem
    exact List.take_subset_take_left l hle hmem

theorem frame_eq_line {limit : ℕ} {d : α} {l m rest : List α}
    (h : frame limit d l = .line m rest) :
    d ∈ l.take limit ∧ m = takeLine d l ∧ rest = dropLine d l := by
  unfold frame at h
  split at h
  next hmem =>
    rw [Frame.line.injEq] at h
    exact ⟨hmem, h.1.symm, h.2.symm⟩
  next => split at h <;> cases h

/-- **An answer stays.**  More of the stream comes behind a framed line. -/
theorem frame_append_of_line {limit : ℕ} {d : α} {l m rest : List α}
    (h : frame limit d l = .line m rest) (more : List α) :
    frame limit d (l ++ more) = .line m (rest ++ more) := by
  obtain ⟨hmem, rfl, rfl⟩ := frame_eq_line h
  have hl := List.mem_of_mem_take hmem
  have htake : d ∈ (l ++ more).take limit := by
    rw [mem_take_iff, takeLine_append_of_mem hl]
    exact ⟨List.mem_append_left _ hl, (mem_take_iff.mp hmem).2⟩
  rw [frame, if_pos htake, takeLine_append_of_mem hl, dropLine_append_of_mem hl]

theorem frame_append_of_overlong {limit : ℕ} {d : α} {l : List α}
    (h : frame limit d l = .overlong) (more : List α) :
    frame limit d (l ++ more) = .overlong := by
  unfold frame at h
  split at h
  · cases h
  next hmem =>
    split at h
    next hle =>
      have htake : (l ++ more).take limit = l.take limit :=
        List.take_append_of_le_length hle
      rw [frame, htake, if_neg hmem, if_pos]
      rw [List.length_append]
      omega
    next => cases h

theorem frame_eq_unfinished {limit : ℕ} {d : α} {l : List α} :
    frame limit d l = .unfinished ↔ d ∉ l ∧ l.length < limit := by
  unfold frame
  constructor
  · intro h
    split at h
    · cases h
    next hmem =>
      split at h
      · cases h
      next hle =>
        rw [List.take_of_length_le (by omega)] at hmem
        exact ⟨hmem, by omega⟩
  · rintro ⟨hmem, hlt⟩
    rw [if_neg (fun h => hmem (List.mem_of_mem_take h)), if_neg (by omega)]

theorem frame_eq_overlong {limit : ℕ} {d : α} {l : List α} :
    frame limit d l = .overlong ↔ d ∉ l.take limit ∧ limit ≤ l.length := by
  unfold frame
  constructor
  · intro h
    split at h
    · cases h
    next hmem =>
      split at h
      next hle => exact ⟨hmem, hle⟩
      next => cases h
  · rintro ⟨hmem, hle⟩
    rw [if_neg hmem, if_pos hle]

/-- Framing a line that has been begun: everything is decided by as many of the
new entries as there is room for. -/
theorem frame_append {limit room : ℕ} {d : α} {line l : List α} (hline : d ∉ line)
    (hroom : line.length + room = limit) :
    frame limit d (line ++ l) =
      if d ∈ l.take room then
        .line (line ++ takeLine d (l.take room))
          (l.drop (takeLine d (l.take room)).length)
      else if room ≤ l.length then .overlong
      else .unfinished := by
  have htake : (line ++ l).take limit = line ++ l.take room := by
    rw [← hroom, List.take_append, List.take_of_length_le (by omega)]
    congr 2
    omega
  have hmem : d ∈ (line ++ l).take limit ↔ d ∈ l.take room := by
    rw [htake, List.mem_append, or_iff_right hline]
  unfold frame
  rw [List.length_append]
  by_cases h : d ∈ l.take room
  · have hl : takeLine d (l.take room) = takeLine d l := by
      have happ := takeLine_append_of_mem h (l.drop room)
      rwa [List.take_append_drop, eq_comm] at happ
    rw [if_pos (hmem.mpr h), if_pos h, takeLine_append_of_notMem hline,
      dropLine_append_of_notMem hline, dropLine_eq_drop, hl]
  · rw [if_neg (mt hmem.mp h), if_neg h]
    exact if_congr (by omega) rfl rfl

/-! ## Whole streams

A stream, cut at every delimiter. -/

/-- All complete lines of a stream, and the unfinished one behind them. -/
def splitLines (d : α) : List α → List (List α) × List α
  | [] => ([], [])
  | a :: l =>
    let r := splitLines d l
    if a = d then ([a] :: r.1, r.2)
    else
      match r.1 with
      | [] => ([], a :: r.2)
      | m :: ms => ((a :: m) :: ms, r.2)

theorem splitLines_of_mem {d : α} {l : List α} (h : d ∈ l) :
    splitLines d l =
      (takeLine d l :: (splitLines d (dropLine d l)).1,
        (splitLines d (dropLine d l)).2) := by
  induction l with
  | nil => exact absurd h List.not_mem_nil
  | cons a l ih =>
    rw [splitLines, takeLine, dropLine]
    by_cases had : a = d
    · simp only [if_pos had]
    · have hmem := (List.mem_cons.mp h).resolve_left (Ne.symm had)
      simp only [if_neg had, ih hmem]

theorem splitLines_of_notMem {d : α} {l : List α} (h : d ∉ l) :
    splitLines d l = ([], l) := by
  induction l with
  | nil => rfl
  | cons a l ih =>
    rw [List.mem_cons, not_or] at h
    rw [splitLines, ih h.2]
    exact if_neg (Ne.symm h.1)

/-! ## Complete lines

A list that is one line: it determines where it ends in any stream that begins with it. -/

/-- The delimiter is at the end, and nowhere else. -/
def IsLine (d : α) (l : List α) : Prop := ∃ text, d ∉ text ∧ l = text ++ [d]

omit [DecidableEq α] in
theorem IsLine.ne_nil {d : α} {l : List α} (h : IsLine d l) : l ≠ [] := by
  obtain ⟨text, -, rfl⟩ := h
  exact List.append_ne_nil_of_right_ne_nil text (List.cons_ne_nil d [])

omit [DecidableEq α] in
theorem IsLine.mem {d : α} {l : List α} (h : IsLine d l) : d ∈ l := by
  obtain ⟨text, -, rfl⟩ := h
  exact List.mem_append_right text List.mem_cons_self

theorem IsLine.takeLine_append {d : α} {l : List α} (h : IsLine d l) (m : List α) :
    takeLine d (l ++ m) = l := by
  obtain ⟨text, htext, rfl⟩ := h
  rw [List.append_assoc]
  exact takeLine_text htext m

theorem IsLine.dropLine_append {d : α} {l : List α} (h : IsLine d l) (m : List α) :
    dropLine d (l ++ m) = m := by
  obtain ⟨text, htext, rfl⟩ := h
  rw [List.append_assoc]
  exact dropLine_text htext m

theorem isLine_takeLine {d : α} {l : List α} (h : d ∈ l) : IsLine d (takeLine d l) := by
  obtain ⟨text, htext, heq⟩ := exists_takeLine_eq_of_mem h
  exact ⟨text, htext, heq⟩

theorem isLine_iff {d : α} {l : List α} : IsLine d l ↔ d ∈ l ∧ takeLine d l = l := by
  constructor
  · intro h
    have ht := h.takeLine_append []
    rw [List.append_nil] at ht
    exact ⟨h.mem, ht⟩
  · rintro ⟨hmem, ht⟩
    exact ht ▸ isLine_takeLine hmem

/-- **The first line is determined by the stream**, and so is what stands behind it: two lines at
the front of one stream are the same. -/
theorem IsLine.append_inj {d : α} {a b x y : List α} (ha : IsLine d a) (hb : IsLine d b)
    (h : a ++ x = b ++ y) : a = b ∧ x = y := by
  constructor
  · rw [← ha.takeLine_append x, h, hb.takeLine_append y]
  · rw [← ha.dropLine_append x, h, hb.dropLine_append y]

/-- **The first line is there** as soon as the end of a line is there. -/
theorem IsLine.exists_left {d : α} {l buffer behind rest : List α} (hl : IsLine d l)
    (hmem : d ∈ buffer) (h : buffer ++ rest = l ++ behind) :
    ∃ left, buffer = l ++ left ∧ left ++ rest = behind := by
  have hcut := takeLine_append_dropLine d buffer
  have hall : takeLine d buffer ++ (dropLine d buffer ++ rest) = l ++ behind := by
    rw [← List.append_assoc, hcut, h]
  obtain ⟨hline, hleft⟩ := (isLine_takeLine hmem).append_inj hl hall
  refine ⟨dropLine d buffer, ?_, hleft⟩
  rw [← hline, hcut]

/-- A delimiter inside a line is its last entry. -/
theorem IsLine.eq_nil_of_mem {d : α} {l a b : List α} (h : IsLine d l) (heq : l = a ++ b)
    (hd : d ∈ a) : b = [] := by
  have ht := (isLine_iff.mp h).2
  rw [heq, takeLine_append_of_mem hd] at ht
  have hle := congrArg List.length ht
  have hta := length_takeLine_le d a
  rw [List.length_append] at hle
  exact List.eq_nil_of_length_eq_zero (by omega)

/-- A line that fits is framed, whatever comes behind it. -/
theorem IsLine.frame_append {limit : ℕ} {d : α} {line : List α} (h : IsLine d line)
    (hfit : line.length ≤ limit) (rest : List α) :
    frame limit d (line ++ rest) = .line line rest := by
  have hmem : d ∈ (line ++ rest).take limit :=
    mem_take_iff.mpr ⟨List.mem_append_left rest h.mem, by rwa [h.takeLine_append]⟩
  rw [frame, if_pos hmem, h.takeLine_append, h.dropLine_append]

/-- **The front of a stream that begins with a line** has the whole line, or a part of it. -/
theorem IsLine.frame_of_append {limit : ℕ} {d : α} {l more line rest : List α}
    (h : IsLine d line) (hfit : line.length ≤ limit) (heq : l ++ more = line ++ rest) :
    (∃ rest', l = line ++ rest' ∧ rest' ++ more = rest ∧
      frame limit d l = .line line rest') ∨
    (frame limit d l = .unfinished ∧ l.length < line.length) := by
  by_cases hmem : d ∈ l
  · obtain ⟨left, hleft, hrest⟩ := h.exists_left hmem heq
    refine Or.inl ⟨left, hleft, hrest, ?_⟩
    have htake : takeLine d l = line := by rw [hleft, h.takeLine_append]
    have hdrop : dropLine d l = left := by rw [hleft, h.dropLine_append]
    rw [frame, if_pos (mem_take_iff.mpr ⟨hmem, htake.symm ▸ hfit⟩), htake, hdrop]
  · have hlt : l.length < line.length := by
      by_contra hle
      have hpre : line <+: l :=
        List.prefix_of_prefix_length_le ⟨rest, heq.symm⟩ ⟨more, rfl⟩ (Nat.not_lt.mp hle)
      exact hmem (hpre.subset h.mem)
    exact Or.inr ⟨frame_eq_unfinished.mpr ⟨hmem, Nat.lt_of_lt_of_le hlt hfit⟩, hlt⟩

end Lines
