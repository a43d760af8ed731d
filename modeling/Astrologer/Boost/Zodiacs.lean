import Astrologer.Boost.Exchanges
import Astrologer.Library.Completion

/-!
# What the clients of the Boost server read

Every session makes its own exchange, and all that it shares with the others is the map.  The
map is what the trace says: the prognosis of a zodiac is the one that was stored last
(`World.Inv`).  So the response that a client reads is right by the trace at the moment when
its request is handled (`Answered`): a star's prognosis has been stored, and a human gets the
one stored last before.

No session is stuck, and every step brings the end of its session nearer.  Hence every client
reads its response, whatever the order of the steps.

`SetAllZodiacs` makes a star for each zodiac, and it returns `true` when all of them have been
told so.  Then every zodiac has its prognosis, and as long as no other star is running it keeps
it; that is what the humans of `CreateHumans` find (`Multiclient.reads`).
-/

namespace Astrologer.Boost

open Completion (Inevitable inevitable_of_measure)
open Relation (ReflTransGen)

variable {ι : Type*}

/-! ## The record -/

/-- The prognosis for a zodiac that an entry stores. -/
def Entry.prognosisFor (zodiac : List Byte) : Entry → Option (List Byte)
  | .stored z prognosis => if z = zodiac then some prognosis else none
  | .asked => none

/-- The prognosis for a zodiac that was stored last. -/
def lastPrognosis (zodiac : List Byte) (trace : List (ι × Entry)) : Option (List Byte) :=
  trace.reverse.findSome? fun x => x.2.prognosisFor zodiac

/-- The entry that handles a request, with the trace before it, and the response. -/
def Request.Answer (r : Request) (pre : List (ι × Entry)) (e : Entry) (response : List Byte) :
    Prop :=
  match r with
  | .client name => e = .asked ∧ response = (lastPrognosis name.zodiac pre).getD unknownPrognosis
  | .star name prognosis _ => e = .stored name.zodiac prognosis ∧ response = starResponseSuccess

/-- **The request of `i` has been handled**, once, and this is the response. -/
def Answered (r : Request) (i : ι) (trace : List (ι × Entry)) (response : List Byte) : Prop :=
  ∃ pre e post, trace = pre ++ (i, e) :: post ∧ r.Answer pre e response ∧
    ∀ x ∈ pre ++ post, x.1 ≠ i

/-- What the trace says about `i`. -/
def Recorded (r : Request) (i : ι) (trace : List (ι × Entry)) : Option (List Byte) → Prop
  | none => ∀ x ∈ trace, x.1 ≠ i
  | some response => Answered r i trace response

section Record

variable {r : Request} {i j : ι} {trace pre post : List (ι × Entry)} {e : Entry}
  {zodiac prognosis response : List Byte} {m : PrognosisManager}

theorem lastPrognosis_concat (zodiac : List Byte) (trace : List (ι × Entry)) (x : ι × Entry) :
    lastPrognosis zodiac (trace ++ [x]) =
      (x.2.prognosisFor zodiac).or (lastPrognosis zodiac trace) := by
  rw [lastPrognosis, List.reverse_append, List.findSome?_append]
  cases hx : x.2.prognosisFor zodiac <;> simp [lastPrognosis, hx]

/-- What is stored last is stored by an entry. -/
theorem exists_of_lastPrognosis (h : lastPrognosis zodiac trace = some prognosis) :
    ∃ x ∈ trace, x.2 = .stored zodiac prognosis := by
  obtain ⟨x, hx, hp⟩ := List.exists_of_findSome?_eq_some h
  refine ⟨x, List.mem_reverse.mp hx, ?_⟩
  cases he : x.2 with
  | asked =>
    rw [he] at hp
    cases hp
  | stored z p =>
    rw [he] at hp
    by_cases hz : z = zodiac
    · rw [Entry.prognosisFor, if_pos hz] at hp
      rw [hz, Option.some.inj hp]
    · rw [Entry.prognosisFor, if_neg hz] at hp
      cases hp

/-- A prognosis stays as long as only the same is stored again. -/
theorem lastPrognosis_of_later
    (hpost : ∀ y ∈ post, ∀ p, y.2 = .stored zodiac p → p = prognosis) :
    lastPrognosis zodiac (pre ++ (i, .stored zodiac prognosis) :: post) = some prognosis := by
  have hsplit : lastPrognosis zodiac (pre ++ (i, .stored zodiac prognosis) :: post) =
      (lastPrognosis zodiac post).or (some prognosis) := by
    simp [lastPrognosis, Entry.prognosisFor]
  rw [hsplit]
  cases hlast : lastPrognosis zodiac post with
  | none => rfl
  | some p =>
    obtain ⟨y, hy, he⟩ := exists_of_lastPrognosis hlast
    rw [hpost y hy p he]
    rfl

/-- The server does what is right by the record. -/
theorem Request.answer (r : Request) (hm : ∀ zodiac, m zodiac = lastPrognosis zodiac trace) :
    r.Answer trace r.entry (r.response m) := by
  cases r with
  | client name => exact ⟨rfl, by rw [response, hm]⟩
  | star name prognosis h => exact ⟨rfl, rfl⟩

theorem Request.serve_stored (r : Request) (i : ι)
    (hm : ∀ zodiac, m zodiac = lastPrognosis zodiac trace) (zodiac : List Byte) :
    (r.serve m).2 zodiac = lastPrognosis zodiac (trace ++ [(i, r.entry)]) := by
  rw [lastPrognosis_concat, ← hm]
  cases r with
  | client name => rfl
  | star name prognosis h =>
    show Function.update m name.zodiac (some prognosis) zodiac = _
    by_cases hz : zodiac = name.zodiac
    · simp [entry, Entry.prognosisFor, hz]
    · simp [entry, Entry.prognosisFor, hz, Ne.symm hz]

theorem Recorded.append_of_ne {answer : Option (List Byte)} (h : Recorded r j trace answer)
    (hij : i ≠ j) : Recorded r j (trace ++ [(i, e)]) answer := by
  cases answer with
  | none =>
    intro x hx
    rcases List.mem_append.mp hx with hx | hx
    · exact h x hx
    · rw [List.mem_singleton.mp hx]
      exact hij
  | some response =>
    obtain ⟨pre, e', post, rfl, hanswer, hothers⟩ := h
    refine ⟨pre, e', post ++ [(i, e)], ?_, hanswer, fun x hx => ?_⟩
    · rw [List.append_assoc]
      rfl
    · rw [← List.append_assoc] at hx
      rcases List.mem_append.mp hx with hx | hx
      · exact hothers x hx
      · rw [List.mem_singleton.mp hx]
        exact hij

/-- The request is handled now. -/
theorem Recorded.handled (h : Recorded r i trace none)
    (hm : ∀ zodiac, m zodiac = lastPrognosis zodiac trace) :
    Recorded r i (trace ++ [(i, r.entry)]) (some (r.response m)) := by
  refine ⟨trace, r.entry, [], rfl, r.answer hm, fun x hx => ?_⟩
  rw [List.append_nil] at hx
  exact h x hx

theorem Answered.mem (h : Answered r i trace response) : (i, r.entry) ∈ trace := by
  obtain ⟨pre, e, post, rfl, hanswer, -⟩ := h
  have he : e = r.entry := by
    cases r with
    | client name => exact hanswer.1
    | star name prognosis h => exact hanswer.1
  rw [he]
  exact List.mem_append_right pre List.mem_cons_self

theorem Answered.countP_eq [DecidableEq ι] (h : Answered r i trace response) :
    trace.countP (fun x => x.1 = i) = 1 := by
  obtain ⟨pre, e, post, rfl, -, hothers⟩ := h
  have hnone : ∀ l : List (ι × Entry), (∀ x ∈ l, x ∈ pre ++ post) →
      l.countP (fun x => x.1 = i) = 0 := by
    intro l hl
    refine List.countP_eq_zero.mpr fun x hx => ?_
    simpa using hothers x (hl x hx)
  rw [List.countP_append, List.countP_cons_of_pos (by simp),
    hnone pre fun x hx => List.mem_append_left post hx,
    hnone post fun x hx => List.mem_append_right pre hx]

/-- It is handled only once. -/
theorem Answered.not_both [DecidableEq ι] (h : Answered r i (pre ++ post) response)
    {e e' : Entry} (hpre : (i, e) ∈ pre) : (i, e') ∉ post := by
  intro hpost
  have hone := h.countP_eq
  have hpos : 0 < pre.countP fun x => x.1 = i := List.countP_pos_iff.mpr ⟨_, hpre, by simp⟩
  have hpos' : 0 < post.countP fun x => x.1 = i := List.countP_pos_iff.mpr ⟨_, hpost, by simp⟩
  rw [List.countP_append] at hone
  omega

end Record

/-! ## The invariant -/

variable {job : ι → Request} {w w' : World ι}

/-- **The invariant of a world.**  Every session is where its client's request is; the map has
what the trace stored last; and what a client has in the trace is what it came for. -/
structure World.Inv (job : ι → Request) (w : World ι) : Prop where
  session : ∀ i, ∃ answer, (w.session i).Matched (job i) answer ∧
    Recorded (job i) i w.trace answer
  stored : ∀ zodiac, w.prognosisManager zodiac = lastPrognosis zodiac w.trace
  owned : ∀ x ∈ w.trace, x.2 = (job x.1).entry

theorem World.Inv.start (job : ι → Request) : (World.start job).Inv job where
  session i := ⟨none, Session.new_asking (job i), fun _ hx => absurd hx List.not_mem_nil⟩
  stored _ := rfl
  owned _ hx := absurd hx List.not_mem_nil

/-- A stored prognosis is one line. -/
theorem World.Inv.prognosis_notMem (h : w.Inv job) (zodiac prognosis : List Byte)
    (hp : w.prognosisManager zodiac = some prognosis) : delim ∉ prognosis := by
  rw [h.stored] at hp
  obtain ⟨x, hx, he⟩ := exists_of_lastPrognosis hp
  have howned := he.symm.trans (h.owned x hx)
  cases hr : job x.1 with
  | client name =>
    rw [hr] at howned
    exact Entry.noConfusion howned
  | star name prognosis' hprognosis =>
    rw [hr] at howned
    rw [(Entry.stored.inj howned).2]
    exact hprognosis

/-- A client without a response has a step to take. -/
theorem World.Inv.exists_step (h : w.Inv job) {i : ι}
    (hi : (w.session i).client.report = none) :
    ∃ e m s, (w.session i).Step (job i) w.prognosisManager e m s := by
  obtain ⟨answer, hmatched, -⟩ := h.session i
  exact hmatched.exists_step hi w.prognosisManager

/-- **What a client reads** is the response to its request, and nothing else: the response is the
one that the trace has for it, and nothing is left in the buffer. -/
theorem World.Inv.answered (h : w.Inv job) {i : ι} {report : Report}
    (hreport : (w.session i).client.report = some report) :
    Answered (job i) i w.trace report.response ∧
      report.outcome = (job i).outcome report.response ∧ (w.session i).client.buffer = [] := by
  obtain ⟨answer, hmatched, hrecorded⟩ := h.session i
  cases answer with
  | none =>
    have hnone := (show (w.session i).Asking (job i) from hmatched).report
    rw [hnone] at hreport
    cases hreport
  | some response =>
    rcases (show (w.session i).Answering (job i) response from hmatched).client with
      ⟨-, hnone, -⟩ | ⟨hclient, -⟩
    · rw [hnone] at hreport
      cases hreport
    · rw [hclient] at hreport ⊢
      cases hreport
      exact ⟨hrecorded, rfl, rfl⟩

/-- The request of `i` has been handled. -/
def handled [DecidableEq ι] (i : ι) (trace : List (ι × Entry)) : Bool := trace.any fun x => x.1 = i

theorem Recorded.handled_eq [DecidableEq ι] {r : Request} {i : ι} {trace : List (ι × Entry)}
    {answer : Option (List Byte)} (h : Recorded r i trace answer) :
    Boost.handled i trace = answer.isSome := by
  cases answer with
  | none => simpa [Boost.handled] using fun j e hx => h (j, e) hx
  | some response =>
    obtain ⟨pre, e, post, rfl, -, -⟩ := h
    simp [Boost.handled]

section World

variable [DecidableEq ι]

/-- **How far it is to the end.** -/
def World.measure [Fintype ι] (w : World ι) : ℕ ×ₗ ℕ :=
  ∑ i, (w.session i).measure (handled i w.trace)

/-- One session comes nearer to its end, and no other one moves. -/
theorem World.measure_lt [Fintype ι] {i : ι} (hothers : ∀ j, j ≠ i →
      w'.session j = w.session j ∧ handled j w'.trace = handled j w.trace)
    (hless : (w'.session i).measure (handled i w'.trace) <
      (w.session i).measure (handled i w.trace)) : w'.measure < w.measure := by
  refine Finset.sum_lt_sum (fun j _ => ?_) ⟨i, Finset.mem_univ i, hless⟩
  by_cases hji : j = i
  · rw [hji]
    exact le_of_lt hless
  · obtain ⟨hsession, hhandled⟩ := hothers j hji
    rw [hsession, hhandled]

/-- **What a step keeps**, and it brings the end nearer.  One session moves; for the others the
trace has at most an entry of somebody else at its end. -/
theorem World.Inv.step (h : w.Inv job) (hs : w.Step job w') :
    w'.Inv job ∧ ∀ [Fintype ι], w'.measure < w.measure := by
  cases hs with
  | @session i e m s hstep =>
    obtain ⟨answer, hmatched, hrecorded⟩ := h.session i
    have hhandled := hrecorded.handled_eq
    rcases hmatched.step h.prognosis_notMem hstep with
      ⟨rfl, rfl, hmatched', hless⟩ | ⟨rfl, rfl, rfl, hmatched', hless⟩
    · have htrace : w.trace ++ (Option.map (Prod.mk i) (none : Option Entry)).toList = w.trace :=
        List.append_nil w.trace
      rw [htrace]
      refine ⟨⟨fun j => ?_, h.stored, h.owned⟩, measure_lt (i := i) (fun j hji => ?_) ?_⟩
      · by_cases hji : j = i
        · subst hji
          exact ⟨answer, by simpa using hmatched', hrecorded⟩
        · simpa [Function.update_of_ne hji] using h.session j
      · exact ⟨Function.update_of_ne hji _ _, rfl⟩
      · simpa [hhandled] using hless
    · have hrecorded' := hrecorded.handled h.stored
      refine ⟨⟨fun j => ?_, (job i).serve_stored i h.stored, fun x hx => ?_⟩,
        measure_lt (i := i) (fun j hji => ⟨Function.update_of_ne hji _ _, ?_⟩) ?_⟩
      · by_cases hji : j = i
        · subst hji
          exact ⟨_, by simpa using hmatched', hrecorded'⟩
        · obtain ⟨answer, hmatched, hrecorded⟩ := h.session j
          refine ⟨answer, ?_, hrecorded.append_of_ne (Ne.symm hji)⟩
          dsimp only
          rw [Function.update_of_ne hji]
          exact hmatched
      · rcases List.mem_append.mp hx with hx | hx
        · exact h.owned x hx
        · rw [List.mem_singleton.mp hx]
      · simp [Boost.handled, Ne.symm hji]
      · have hhandled' := hrecorded'.handled_eq
        simp only [Option.map_some, Option.toList_some, Function.update_self]
        rw [hhandled, hhandled']
        exact hless

theorem World.Inv.run (h : w.Inv job) (hrun : ReflTransGen (World.Step job) w w') :
    w'.Inv job := by
  induction hrun with
  | refl => exact h
  | tail _ hs ih => exact (ih.step hs).1

theorem World.Reachable.inv (h : w.Reachable job) : w.Inv job := (World.Inv.start job).run h

/-- Every client has read its response. -/
def World.Done (w : World ι) : Prop := ∀ i, (w.session i).client.report.isSome

/-- **Every client reads its response**, whatever the order of the steps. -/
theorem World.Inv.inevitable [Fintype ι] (h : w.Inv job) :
    Inevitable (World.Step job) World.Done w := by
  refine inevitable_of_measure World.measure (fun v v' hv hs => ?_) (fun v hv hopen => ?_) h
  · obtain ⟨hinv, hless⟩ := hv.step hs
    exact ⟨hinv, hless⟩
  · obtain ⟨i, hi⟩ := not_forall.mp hopen
    rw [Bool.not_eq_true, Option.isSome_eq_false_iff, Option.isNone_iff_eq_none] at hi
    obtain ⟨e, m, s, hstep⟩ := hv.exists_step hi
    exact ⟨_, .session hstep⟩

end World

end Astrologer.Boost
