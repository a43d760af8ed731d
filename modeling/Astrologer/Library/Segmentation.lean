import Mathlib

/-!
# Streams cut into reads

A stream of messages arrives in reads, which need not end where a message does.  A
receiver makes reads until a message is there; the last of them may bring more
(`Completes`): entries of the next message that are `left` to the receiver.  What
comes in the reads after it is `late`.

`EndsAt` says of the first messages that their end is the end of a read.  `Aligned` reads
never bring more: every message ends at the end of a read.  Both can be checked one
message after the other (`endsAt_one_iff`, `endsAt_succ_iff`, `aligned_cons_iff`).
-/

namespace Segmentation

variable {α : Type*} {buffer message message' left left' : List α}
  {messages reads reads' reads'' : List (List α)}

/-- **Reads complete a message**: the last of them brings its end, and `left` behind it. -/
def Completes (buffer : List α) (reads : List (List α)) (message left : List α)
    (reads' : List (List α)) : Prop :=
  ∃ made, reads = made ++ reads' ∧ buffer ++ made.flatten = message ++ left ∧
    ∀ made' last, made = made' ++ [last] →
      (buffer ++ made'.flatten).length < message.length

/-- A read that brings no end of the message. -/
theorem Completes.cons {r : List α} (hlt : buffer.length < message.length)
    (h : Completes (buffer ++ r) reads message left reads') :
    Completes buffer (r :: reads) message left reads' := by
  obtain ⟨made, rfl, hflat, hlast⟩ := h
  refine ⟨r :: made, rfl, ?_, fun made' last heq => ?_⟩
  · rw [List.flatten_cons, ← List.append_assoc, hflat]
  · cases made' with
    | nil => rwa [List.flatten_nil, List.append_nil]
    | cons r' made' =>
      rw [List.cons_append] at heq
      obtain ⟨rfl, hmade⟩ := List.cons.inj heq
      rw [List.flatten_cons, ← List.append_assoc]
      exact hlast made' last hmade

/-- A read that brings the end of the message. -/
theorem Completes.last {r : List α} (hlt : buffer.length < message.length)
    (h : buffer ++ r = message ++ left) : Completes buffer (r :: reads) message left reads := by
  refine ⟨[r], rfl, by rw [List.flatten_singleton, h], fun made' last heq => ?_⟩
  have hnil : made' = [] := by
    have hlen := congrArg List.length heq
    rw [List.length_append, List.length_singleton, List.length_singleton] at hlen
    exact List.eq_nil_of_length_eq_zero (by omega)
  rwa [hnil, List.flatten_nil, List.append_nil]

/-- The next message, from what was left. -/
theorem Completes.append (h : Completes buffer reads message left reads')
    (h' : Completes left reads' message' left' reads'') :
    Completes buffer reads (message ++ message') left' reads'' := by
  obtain ⟨made, rfl, hflat, hlast⟩ := h
  obtain ⟨made', rfl, hflat', hlast'⟩ := h'
  have hassoc : ∀ l : List (List α),
      buffer ++ (made ++ l).flatten = message ++ (left ++ l.flatten) := by
    intro l
    rw [List.flatten_append, ← List.append_assoc, hflat, List.append_assoc]
  refine ⟨made ++ made', (List.append_assoc _ _ _).symm, ?_, fun before last heq => ?_⟩
  · rw [hassoc, hflat', List.append_assoc]
  · rcases List.eq_nil_or_concat made' with rfl | ⟨init, last', rfl⟩
    · rw [List.append_nil] at heq
      have hlt := hlast before last heq
      exact Nat.lt_of_lt_of_le hlt (List.prefix_append message message').length_le
    · rw [List.concat_eq_append, ← List.append_assoc] at heq
      obtain ⟨rfl, -⟩ := List.append_inj' heq rfl
      have hlt := hlast' init last' List.concat_eq_append
      rw [hassoc]
      simp only [List.length_append] at hlt ⊢
      omega

theorem isPrefix_flatten_take (reads : List (List α)) (j : ℕ) :
    (reads.take j).flatten <+: reads.flatten :=
  ⟨(reads.drop j).flatten, by rw [← List.flatten_append, List.take_append_drop]⟩

/-- Reads that go on behind the last read of a message, or end before it. -/
theorem Completes.take_flatten (h : Completes [] reads message left reads') (j : ℕ) :
    (∃ i, (reads.take j).flatten = message ++ left ++ (reads'.take i).flatten) ∨
      (reads.take j).flatten.length < message.length := by
  obtain ⟨made, rfl, hflat, hlast⟩ := h
  rw [List.nil_append] at hflat
  rcases Nat.lt_or_ge j made.length with hlt | hge
  · rcases List.eq_nil_or_concat made with rfl | ⟨init, last, rfl⟩
    · exact absurd hlt (Nat.not_lt_zero j)
    · rw [List.concat_eq_append, List.length_append, List.length_singleton] at hlt
      have hinit := hlast init last List.concat_eq_append
      rw [List.concat_eq_append, List.append_assoc,
        List.take_append_of_le_length (Nat.le_of_lt_succ hlt)]
      exact .inr (Nat.lt_of_le_of_lt (isPrefix_flatten_take init j).length_le hinit)
  · refine .inl ⟨j - made.length, ?_⟩
    rw [List.take_append, List.take_of_length_le hge, List.flatten_append, hflat]

theorem Completes.flatten_take (h : Completes [] reads message left reads') (i : ℕ) :
    ∃ j, (reads.take j).flatten = message ++ left ++ (reads'.take i).flatten := by
  obtain ⟨made, rfl, hflat, -⟩ := h
  refine ⟨made.length + i, ?_⟩
  rw [List.take_length_add_append, List.flatten_append, ← hflat, List.nil_append]

/-- What comes behind the read in which the `n`-th entry comes. -/
def late : ℕ → List (List α) → List α
  | _, [] => []
  | n, s :: reads => if n ≤ s.length then reads.flatten else late (n - s.length) reads

theorem late_append {n : ℕ} {made : List (List α)} (h : made.flatten.length < n)
    (reads : List (List α)) :
    late n (made ++ reads) = late (n - made.flatten.length) reads := by
  induction made generalizing n with
  | nil => rfl
  | cons s made ih =>
    rw [List.flatten_cons, List.length_append] at h
    rw [List.cons_append, late, if_neg (by omega), ih (by omega), List.flatten_cons,
      List.length_append, Nat.sub_sub]

/-- **What was not there** when a message was complete. -/
theorem Completes.late_eq (h : Completes [] reads message left reads') (hne : message ≠ []) :
    late message.length reads = reads'.flatten := by
  obtain ⟨made, rfl, hflat, hlast⟩ := h
  rw [List.nil_append] at hflat
  rcases List.eq_nil_or_concat made with rfl | ⟨init, last, rfl⟩
  · exact absurd (List.append_eq_nil_iff.mp hflat.symm).1 hne
  · have hlt := hlast init last List.concat_eq_append
    have hlen := congrArg List.length hflat
    rw [List.concat_eq_append, List.flatten_append, List.flatten_singleton,
      List.length_append, List.length_append] at hlen
    rw [List.nil_append] at hlt
    rw [List.concat_eq_append, List.append_assoc, late_append hlt, List.singleton_append, late,
      if_pos (by omega)]

/-- The end of the first `k` messages is the end of a read. -/
def EndsAt (messages reads : List (List α)) (k : ℕ) : Prop :=
  ∃ j, (reads.take j).flatten = (messages.take k).flatten

/-- **Every message ends where a read ends.** -/
def Aligned (messages reads : List (List α)) : Prop :=
  ∀ k, ∃ j, (reads.take j).flatten = (messages.take k).flatten

theorem endsAt_zero (messages reads : List (List α)) : EndsAt messages reads 0 := ⟨0, rfl⟩

theorem aligned_nil (reads : List (List α)) : Aligned [] reads := by
  intro k
  rw [List.take_nil]
  exact ⟨0, rfl⟩

/-- The first message ends at the end of a read when nothing is left of that read. -/
theorem endsAt_one_iff (h : Completes [] reads message left reads') :
    EndsAt (message :: messages) reads 1 ↔ left = [] := by
  have hone : ((message :: messages).take 1).flatten = message := List.append_nil _
  rw [EndsAt, hone]
  constructor
  · rintro ⟨j, hj⟩
    rcases h.take_flatten j with ⟨i, hi⟩ | hlt
    · rw [hj, List.append_assoc] at hi
      exact (List.append_eq_nil_iff.mp (List.self_eq_append_right.mp hi)).1
    · rw [hj] at hlt
      exact absurd hlt (Nat.lt_irrefl _)
  · rintro rfl
    obtain ⟨j, hj⟩ := h.flatten_take 0
    rw [List.take_zero, List.flatten_nil, List.append_nil, List.append_nil] at hj
    exact ⟨j, hj⟩

/-- Behind a message that leaves nothing the others end where they do for the reads behind. -/
theorem endsAt_succ_iff (h : Completes [] reads message [] reads') (k : ℕ) :
    EndsAt (message :: messages) reads (k + 1) ↔ EndsAt messages reads' k := by
  rw [EndsAt, EndsAt, List.take_succ_cons, List.flatten_cons]
  constructor
  · rintro ⟨j, hj⟩
    rcases h.take_flatten j with ⟨i, hi⟩ | hlt
    · rw [hj, List.append_nil] at hi
      exact ⟨i, (List.append_cancel_left hi).symm⟩
    · rw [hj, List.length_append] at hlt
      omega
  · rintro ⟨i, hi⟩
    obtain ⟨j, hj⟩ := h.flatten_take i
    exact ⟨j, by rw [hj, hi, List.append_nil]⟩

/-- The reads are aligned when the first message leaves nothing and the reads behind it
are aligned. -/
theorem aligned_cons_iff (h : Completes [] reads message left reads') :
    Aligned (message :: messages) reads ↔ left = [] ∧ Aligned messages reads' := by
  constructor
  · intro ha
    obtain rfl := (endsAt_one_iff h).mp (ha 1)
    exact ⟨rfl, fun k => (endsAt_succ_iff h k).mp (ha (k + 1))⟩
  · rintro ⟨rfl, ha⟩ k
    cases k with
    | zero => exact endsAt_zero _ reads
    | succ k => exact (endsAt_succ_iff h k).mpr (ha k)

end Segmentation
