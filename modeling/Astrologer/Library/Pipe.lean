import Mathlib.Data.List.Basic

/-!
# The bytes on their way

One direction of a connection is a list: what has been sent and not yet been received.  A
receiver takes some of it from the front, as much as there happens to be, and at least
something.  When there is nothing it has to wait, unless the sender has closed its end;
then it receives nothing, and this is the end of the stream.

An operation that sends a whole buffer, or that receives until a delimiter has come, goes on
with one such piece after the other (`Sends`, `Receives`).
-/

namespace Pipe

section Pieces

variable {α : Type*} {d : α} {buffer buffer' pipe pipe' : List α}

/-- The next piece of the buffer is sent. -/
def Sends (buffer pipe buffer' pipe' : List α) : Prop :=
  ∃ bs, bs ≠ [] ∧ buffer = bs ++ buffer' ∧ pipe' = pipe ++ bs

/-- The next piece is received, as long as the delimiter has not come. -/
def Receives (d : α) (buffer pipe buffer' pipe' : List α) : Prop :=
  d ∉ buffer ∧ ∃ bs, bs ≠ [] ∧ pipe = bs ++ pipe' ∧ buffer' = buffer ++ bs

/-- Nothing is lost on the way, and the order stays. -/
theorem Sends.append_eq (h : Sends buffer pipe buffer' pipe') :
    pipe' ++ buffer' = pipe ++ buffer := by
  obtain ⟨bs, -, rfl, rfl⟩ := h
  exact List.append_assoc pipe bs buffer'

theorem Receives.append_eq (h : Receives d buffer pipe buffer' pipe') :
    buffer' ++ pipe' = buffer ++ pipe := by
  obtain ⟨-, bs, -, rfl, rfl⟩ := h
  exact List.append_assoc buffer bs pipe'

theorem Sends.ne_nil (h : Sends buffer pipe buffer' pipe') : buffer ≠ [] := by
  obtain ⟨bs, hne, rfl, -⟩ := h
  exact List.append_ne_nil_of_left_ne_nil hne buffer'

theorem Receives.ne_nil (h : Receives d buffer pipe buffer' pipe') : pipe ≠ [] := by
  obtain ⟨-, bs, hne, rfl, -⟩ := h
  exact List.append_ne_nil_of_left_ne_nil hne pipe'

/-- A byte on its way counts less than a byte to send. -/
theorem Sends.length_lt (h : Sends buffer pipe buffer' pipe') :
    2 * buffer'.length + pipe'.length < 2 * buffer.length + pipe.length := by
  obtain ⟨bs, hne, rfl, rfl⟩ := h
  have hpos := List.length_pos_iff.mpr hne
  rw [List.length_append, List.length_append]
  omega

theorem Receives.length_lt (h : Receives d buffer pipe buffer' pipe') :
    pipe'.length < pipe.length := by
  obtain ⟨-, bs, hne, rfl, -⟩ := h
  have hpos := List.length_pos_iff.mpr hne
  rw [List.length_append]
  omega

/-- All of it can be one piece. -/
theorem sends_all (hne : buffer ≠ []) (pipe : List α) : Sends buffer pipe [] (pipe ++ buffer) :=
  ⟨buffer, hne, (List.append_nil buffer).symm, rfl⟩

theorem receives_all (h : d ∉ buffer) (hne : pipe ≠ []) :
    Receives d buffer pipe (buffer ++ pipe) [] :=
  ⟨h, pipe, hne, (List.append_nil pipe).symm, rfl⟩

end Pieces

variable {α : Type*} [DecidableEq α]

/-- What is left when `bs` has been received, if it can be. -/
def receive (pipe : List α) (closed : Bool) (bs : List α) : Option (List α) :=
  if bs = [] then
    if pipe = [] ∧ closed = true then some [] else none
  else if bs <+: pipe then
    some (pipe.drop bs.length)
  else
    none

variable {pipe bs rest : List α} {closed : Bool}

theorem receive_eq_some : receive pipe closed bs = some rest ↔
    (bs ≠ [] ∧ pipe = bs ++ rest) ∨ (bs = [] ∧ pipe = [] ∧ rest = [] ∧ closed = true) := by
  unfold receive
  by_cases hnil : bs = []
  · rw [if_pos hnil]
    split
    next h => simp [hnil, h.1, h.2, eq_comm]
    next h =>
      refine iff_of_false (by simp) ?_
      rintro (⟨hne, -⟩ | ⟨-, hpipe, -, hclosed⟩)
      · exact hne hnil
      · exact h ⟨hpipe, hclosed⟩
  · rw [if_neg hnil]
    split
    next h =>
      obtain ⟨more, rfl⟩ := h
      rw [List.drop_left]
      simp [hnil, eq_comm]
    next h =>
      refine iff_of_false (by simp) ?_
      rintro (⟨-, rfl⟩ | ⟨hnil', -⟩)
      · exact h (List.prefix_append bs rest)
      · exact hnil hnil'

end Pipe
