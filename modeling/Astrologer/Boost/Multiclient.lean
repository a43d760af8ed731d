import Astrologer.Boost.Zodiacs

/-!
# The multiclient

`client multi` asks for every zodiac.  `SetAllZodiacs` makes a star for each of them and runs
them to their end; it counts those whose response was `THANKS!`, and returns `true` when these
are all.  Then `CreateHumans` makes the humans, which ask for one zodiac after the other.

`Multiclient` is such a run, in a world where other humans may do what they want; but another
star must have ended before `SetAllZodiacs` is called, or it comes later than the run that is
looked at.  From the return of `SetAllZodiacs` on every zodiac has the prognosis that its star
has stored (`Multiclient.lastPrognosis_eq`), so this is what the humans read.

`horoscopes_right` is about all clients, and these among them.
-/

namespace Astrologer.Boost

open Completion (Inevitable inevitable_of_measure)
open Relation (ReflTransGen)

/-! ## `SetAllZodiacs` and `CreateHumans`

The stars of the list are run to their end before the humans are made, and other clients may be
there at any time. -/

theorem append_notMem {zodiac valueSuffix : List Byte} (hz : zodiac ∈ zodiacList)
    (h : delim ∉ valueSuffix) : delim ∉ zodiac ++ valueSuffix := by
  have hzodiac : ∀ z ∈ zodiacList, delim ∉ z := by decide
  rw [List.mem_append, not_or]
  exact ⟨hzodiac zodiac hz, h⟩

/-- A star with no remainder. -/
def zodiacStar (valueSuffix : List Byte) (h : delim ∉ valueSuffix) (z : {z // z ∈ zodiacList}) :
    Request :=
  .star ⟨z.1, [], z.2, List.not_mem_nil⟩ (z.1 ++ valueSuffix) (append_notMem z.2 h)

/-- The stars of `SetAllZodiacs`. -/
def setAllZodiacs (valueSuffix : List Byte) (h : delim ∉ valueSuffix) : List Request :=
  zodiacList.attach.map (zodiacStar valueSuffix h)

/-- `zodiacs[i % zodiacs.size()]`. -/
def zodiacAt (i : ℕ) : List Byte :=
  zodiacList.get ⟨i % zodiacList.length, Nat.mod_lt i (Nat.succ_pos _)⟩

/-- A human with no remainder. -/
def zodiacHuman (i : ℕ) : Request :=
  .client ⟨zodiacAt i, [], List.get_mem zodiacList _, List.not_mem_nil⟩

/-- The humans of `CreateHumans`. -/
def createHumans (amount : ℕ) : List Request := (List.range amount).map zodiacHuman

section Multiclient

variable {ι : Type*}

/-- The stars whose callback was called. -/
def World.zodiacCounter (w : World ι) (stars : List ι) : ℕ :=
  stars.countP fun i => (w.session i).client.report.map Report.outcome = some .workDone

/-- `SetAllZodiacs` returns `true`. -/
def World.AllSet (w : World ι) (stars : List ι) : Prop := w.zodiacCounter stars = stars.length

def Request.name : Request → Named
  | .client name => name
  | .star name _ _ => name

def Request.IsStar (r : Request) : Prop := ∃ name prognosis h, r = .star name prognosis h

variable [DecidableEq ι]

/-- **A run of the multiclient**, from the call of `SetAllZodiacs` in `w₀` through its return in
`w₁` to any later world `w`. -/
structure Multiclient (job : ι → Request) (valueSuffix : List Byte) (stars humans : List ι)
    (w₀ w₁ w : World ι) : Prop where
  suffix_notMem : delim ∉ valueSuffix
  stars_job : stars.map job = setAllZodiacs valueSuffix suffix_notMem
  humans_job : ∃ amount, humans.map job = createHumans amount
  reachable : w₀.Reachable job
  setting : ReflTransGen (World.Step job) w₀ w₁
  asking : ReflTransGen (World.Step job) w₁ w
  called : ∀ i ∈ stars, (w₀.session i).stage = .offline
  returned : w₁.AllSet stars
  created : ∀ i ∈ humans, (w₁.session i).stage = .offline
  /-- No other star is running. -/
  alone : ∀ j, j ∉ stars → (job j).IsStar →
    (w₀.session j).client.operation = .ended ∨ (w.session j).stage = .offline

/-! ## What the humans find

When `SetAllZodiacs` returns every zodiac of the list has its prognosis in the trace, behind what
was there before, and nobody stores another one from then on.  What a human asks for is in the
trace later than this. -/

variable {job : ι → Request} {valueSuffix : List Byte} {stars humans : List ι} {w₀ w₁ w : World ι}
  {i : ι}

/-- A record goes on behind what it was. -/
theorem World.trace_isPrefix {w w' : World ι} (h : ReflTransGen (World.Step job) w w') :
    w.trace <+: w'.trace := by
  induction h with
  | refl => exact List.prefix_refl _
  | tail _ hs ih =>
    cases hs with
    | session hstep => exact ih.trans (List.prefix_append _ _)

omit [DecidableEq ι] in
theorem isPrefix_of_notMem {l a b : List (ι × Entry)} {x : ι × Entry} (h : l <+: a ++ x :: b)
    (hx : x ∉ l) : l <+: a := by
  rcases List.prefix_or_prefix_of_prefix h (List.prefix_append a (x :: b)) with hle | ⟨t, rfl⟩
  · exact hle
  · have ht := (List.prefix_append_right_inj a).mp h
    cases t with
    | nil => exact ⟨[], by simp⟩
    | cons y t =>
      obtain ⟨rfl, -⟩ := List.cons_prefix_cons.mp ht
      exact absurd (List.mem_append_right a List.mem_cons_self) hx

omit [DecidableEq ι] in
/-- The request of a client that has not reached the server has not been handled. -/
theorem World.Inv.notMem_of_offline (h : w.Inv job) (hi : (w.session i).stage = .offline)
    (e : Entry) : (i, e) ∉ w.trace := by
  obtain ⟨answer, hmatched, hrecorded⟩ := h.session i
  cases answer with
  | none => exact fun hmem => hrecorded _ hmem rfl
  | some response =>
    have haccepted := (show (w.session i).Answering (job i) response from hmatched).accepted
    exact Stage.noConfusion (hi.symm.trans haccepted)

omit [DecidableEq ι] in
/-- The request of a client that has ended has been handled. -/
theorem World.Inv.mem_of_ended (h : w.Inv job) (hi : (w.session i).client.operation = .ended) :
    (i, (job i).entry) ∈ w.trace := by
  obtain ⟨answer, hmatched, hrecorded⟩ := h.session i
  cases answer with
  | none => exact absurd hi (show (w.session i).Asking (job i) from hmatched).going
  | some response => exact Answered.mem hrecorded

omit [DecidableEq ι] in
theorem World.Inv.answered_of_mem (h : w.Inv job) {x : ι × Entry} (hx : x ∈ w.trace) :
    ∃ response, Answered (job x.1) x.1 w.trace response := by
  obtain ⟨answer, -, hrecorded⟩ := h.session x.1
  cases answer with
  | none => exact absurd rfl (hrecorded x hx)
  | some response => exact ⟨response, hrecorded⟩

namespace Multiclient

variable (h : Multiclient job valueSuffix stars humans w₀ w₁ w)
include h

theorem inv₀ : w₀.Inv job := h.reachable.inv

theorem inv₁ : w₁.Inv job := World.Reachable.inv (h.reachable.trans h.setting)

theorem reachable_last : w.Reachable job := (h.reachable.trans h.setting).trans h.asking

theorem inv : w.Inv job := h.reachable_last.inv

/-- There is a star for each zodiac. -/
theorem exists_star {zodiac : List Byte} (hz : zodiac ∈ zodiacList) :
    ∃ k ∈ stars, (job k).entry = .stored zodiac (zodiac ++ valueSuffix) := by
  have hmem : zodiacStar valueSuffix h.suffix_notMem ⟨zodiac, hz⟩ ∈ stars.map job := by
    rw [h.stars_job]
    exact List.mem_map_of_mem (List.mem_attach zodiacList ⟨zodiac, hz⟩)
  obtain ⟨k, hk, hjob⟩ := List.mem_map.mp hmem
  refine ⟨k, hk, ?_⟩
  rw [hjob]
  rfl

/-- They store nothing else. -/
theorem stored_of_star {k : ι} (hk : k ∈ stars) {zodiac prognosis : List Byte}
    (he : (job k).entry = .stored zodiac prognosis) : prognosis = zodiac ++ valueSuffix := by
  have hmem : job k ∈ setAllZodiacs valueSuffix h.suffix_notMem := by
    rw [← h.stars_job]
    exact List.mem_map_of_mem hk
  obtain ⟨z, -, hz⟩ := List.mem_map.mp hmem
  rw [← hz] at he
  obtain ⟨rfl, rfl⟩ := Entry.stored.inj he
  rfl

/-- When `SetAllZodiacs` has returned, each of them has stored it. -/
theorem mem_of_star {k : ι} (hk : k ∈ stars) : (k, (job k).entry) ∈ w₁.trace := by
  have hdone := of_decide_eq_true (List.countP_eq_length.mp h.returned k hk)
  obtain ⟨report, hreport, -⟩ := Option.map_eq_some_iff.mp hdone
  exact (h.inv₁.answered hreport).1.mem

/-- **From then on every zodiac has its prognosis**, since no other star of the world stores one
behind those of the list. -/
theorem lastPrognosis_eq {zodiac : List Byte} (hz : zodiac ∈ zodiacList)
    {pre : List (ι × Entry)} (hfrom : w₁.trace <+: pre) (hto : pre <+: w.trace) :
    lastPrognosis zodiac pre = some (zodiac ++ valueSuffix) := by
  obtain ⟨k, hk, hentry⟩ := h.exists_star hz
  obtain ⟨a, b, hsplit⟩ := List.append_of_mem (h.mem_of_star hk)
  have hbefore : w₀.trace <+: a := by
    refine isPrefix_of_notMem (hsplit ▸ World.trace_isPrefix h.setting) ?_
    exact h.inv₀.notMem_of_offline (h.called k hk) _
  obtain ⟨more, rfl⟩ := hfrom
  obtain ⟨rest, hrest⟩ := hto
  have hpre : w₁.trace ++ more =
      a ++ (k, .stored zodiac (zodiac ++ valueSuffix)) :: (b ++ more) := by
    rw [hsplit, hentry, List.append_assoc, List.cons_append]
  rw [hpre, List.append_assoc] at hrest
  rw [hpre]
  refine lastPrognosis_of_later fun y hy p hp => ?_
  have hy' : y ∈ (k, Entry.stored zodiac (zodiac ++ valueSuffix)) :: (b ++ more) ++ rest :=
    List.mem_append_left rest (List.mem_cons_of_mem _ hy)
  have hmem : y ∈ w.trace := hrest ▸ List.mem_append_right a hy'
  have howned : (job y.1).entry = .stored zodiac p := (h.inv.owned y hmem).symm.trans hp
  by_cases hstar : y.1 ∈ stars
  · exact h.stored_of_star hstar howned
  · have hisStar : (job y.1).IsStar := by
      cases hr : job y.1 with
      | client name =>
        rw [hr] at howned
        exact Entry.noConfusion howned
      | star name prognosis hprognosis => exact ⟨name, prognosis, hprognosis, rfl⟩
    rcases h.alone y.1 hstar hisStar with hended | hoffline
    · -- it has stored its prognosis before, and it does so once
      obtain ⟨response, hanswered⟩ := h.inv.answered_of_mem hmem
      rw [← hrest] at hanswered
      exact absurd hy' (hanswered.not_both (hbefore.subset (h.inv₀.mem_of_ended hended)))
    · exact absurd hmem (h.inv.notMem_of_offline hoffline y.2)

/-- **What a human reads**, and his callback is called with it. -/
theorem reads (hi : i ∈ humans) {report : Report}
    (hreport : (w.session i).client.report = some report) :
    report = ⟨(job i).name.zodiac ++ valueSuffix, .workDone⟩ := by
  obtain ⟨name, hjob⟩ : ∃ name, job i = .client name := by
    obtain ⟨amount, hhumans⟩ := h.humans_job
    have hmem : job i ∈ createHumans amount := hhumans ▸ List.mem_map_of_mem hi
    obtain ⟨n, -, hn⟩ := List.mem_map.mp hmem
    exact ⟨_, hn.symm⟩
  obtain ⟨⟨pre, e, post, htrace, hanswer, -⟩, houtcome, -⟩ := h.inv.answered hreport
  have hfrom : w₁.trace <+: pre :=
    isPrefix_of_notMem (htrace ▸ World.trace_isPrefix h.asking)
      (h.inv₁.notMem_of_offline (h.created i hi) e)
  have hlast := h.lastPrognosis_eq name.listed hfrom (htrace ▸ List.prefix_append pre _)
  rw [hjob] at hanswer houtcome ⊢
  have hresponse : report.response = name.zodiac ++ valueSuffix := by
    rw [hanswer.2, hlast]
    rfl
  have hne : name.zodiac ++ valueSuffix ≠ unknownPrognosis := by
    have hzodiac : ∀ z ∈ zodiacList, ¬ z <+: unknownPrognosis := by decide
    intro heq
    exact hzodiac _ name.listed ⟨valueSuffix, heq⟩
  have hdone : report.outcome = .workDone := by
    rw [houtcome, hresponse]
    exact if_neg hne
  rw [← hdone, Request.name, ← hresponse]

end Multiclient

/-- **Every client reads its response, and it is the right one**; and the humans of the
multiclient read what its stars have stored. -/
theorem horoscopes_right [Fintype ι] (h : w.Reachable job) :
    (∀ i report, (w.session i).client.report = some report →
      Answered (job i) i w.trace report.response ∧ (w.session i).client.buffer = []) ∧
    (∀ valueSuffix stars humans w₀ w₁, Multiclient job valueSuffix stars humans w₀ w₁ w →
      ∀ i ∈ humans, ∀ report, (w.session i).client.report = some report →
        report = ⟨(job i).name.zodiac ++ valueSuffix, .workDone⟩) ∧
    Inevitable (World.Step job) World.Done w := by
  refine ⟨fun i report hreport => ?_, fun _ _ _ _ _ hmulti i hi report hreport => ?_,
    h.inv.inevitable⟩
  · obtain ⟨hanswered, -, hbuffer⟩ := h.inv.answered hreport
    exact ⟨hanswered, hbuffer⟩
  · exact hmulti.reads hi hreport

/-! ## There are such runs

A client can be run to its end while the others stand still, and so can several, one behind the
other. -/

section Alone

variable [Fintype ι]

/-- A client can go on to its end while all others stand still. -/
theorem World.Inv.exists_run_alone (h : w.Inv job) (i : ι) :
    ∃ w', ReflTransGen (World.Step job) w w' ∧ (w'.session i).client.report.isSome ∧
      ∀ j, j ≠ i → w'.session j = w.session j := by
  have hinevitable : Inevitable
      (fun v v' : World ι => v.Step job v' ∧ ∀ j, j ≠ i → v'.session j = v.session j)
      (fun v => (v.session i).client.report.isSome) w := by
    refine inevitable_of_measure World.measure (fun v v' hv hs => ?_) (fun v hv hopen => ?_) h
    · obtain ⟨hinv, hless⟩ := hv.step hs.1
      exact ⟨hinv, hless⟩
    · rw [Bool.not_eq_true, Option.isSome_eq_false_iff, Option.isNone_iff_eq_none] at hopen
      obtain ⟨e, m, s, hstep⟩ := hv.exists_step hopen
      exact ⟨_, .session hstep, fun j hji => Function.update_of_ne hji _ _⟩
  obtain ⟨w', hrun, hdone⟩ := hinevitable.exists_run
  have hboth : ReflTransGen (World.Step job) w w' ∧ ∀ j, j ≠ i → w'.session j = w.session j := by
    clear hdone
    induction hrun with
    | refl => exact ⟨.refl, fun j _ => rfl⟩
    | tail _ hs ih => exact ⟨ih.1.tail hs.1, fun j hji => (hs.2 j hji).trans (ih.2 j hji)⟩
  exact ⟨w', hboth.1, hdone, hboth.2⟩

/-- So can several clients, one after the other. -/
theorem World.Inv.exists_run (h : w.Inv job) (l : List ι) :
    ∃ w', ReflTransGen (World.Step job) w w' ∧
      (∀ i ∈ l, (w'.session i).client.report.isSome) ∧
      ∀ j, j ∉ l → w'.session j = w.session j := by
  induction l generalizing w with
  | nil => exact ⟨w, .refl, fun i hi => absurd hi List.not_mem_nil, fun j _ => rfl⟩
  | cons i l ih =>
    obtain ⟨v, hrun, hdone, hothers⟩ := h.exists_run_alone i
    obtain ⟨w', hrun', hdone', hothers'⟩ := ih (h.run hrun)
    refine ⟨w', hrun.trans hrun', fun j hj => ?_, fun j hj => ?_⟩
    · by_cases hjl : j ∈ l
      · exact hdone' j hjl
      · rcases List.mem_cons.mp hj with rfl | hj
        · rw [hothers' j hjl]
          exact hdone
        · exact absurd hj hjl
    · rw [List.mem_cons, not_or] at hj
      rw [hothers' j hj.2, hothers j hj.1]

end Alone

section Run

variable (valueSuffix : List Byte) (hsuffix : delim ∉ valueSuffix) (amount : ℕ)

/-- A star for each zodiac, and humans. -/
def multiclientJob : {z // z ∈ zodiacList} ⊕ Fin amount → Request :=
  Sum.elim (zodiacStar valueSuffix hsuffix) fun k => zodiacHuman k

/-- **The multiclient can run to its end**, for any amount of humans, so what is said of its runs
is not empty. -/
theorem exists_multiclient : ∃ stars humans w₀ w₁ w,
    Multiclient (multiclientJob valueSuffix hsuffix amount) valueSuffix stars humans w₀ w₁ w ∧
      humans.length = amount ∧ ∀ i ∈ humans, (w.session i).client.report.isSome := by
  obtain ⟨job, hjob⟩ : ∃ job, job = multiclientJob valueSuffix hsuffix amount := ⟨_, rfl⟩
  obtain ⟨stars, hstars⟩ : ∃ stars : List ({z // z ∈ zodiacList} ⊕ Fin amount),
    stars = zodiacList.attach.map .inl := ⟨_, rfl⟩
  obtain ⟨humans, hhumans⟩ : ∃ humans : List ({z // z ∈ zodiacList} ⊕ Fin amount),
    humans = (List.finRange amount).map .inr := ⟨_, rfl⟩
  have hnot : ∀ i ∈ humans, i ∉ stars := by
    intro i hi hi'
    rw [hhumans] at hi
    rw [hstars] at hi'
    obtain ⟨k, -, rfl⟩ := List.mem_map.mp hi
    obtain ⟨z, -, hz⟩ := List.mem_map.mp hi'
    cases hz
  have hinv := World.Inv.start job
  obtain ⟨w₁, hrun, hdone, hothers⟩ := hinv.exists_run stars
  obtain ⟨w, hrun', hdone', -⟩ := (hinv.run hrun).exists_run humans
  refine ⟨stars, humans, .start job, w₁, w, ?_, ?_, hdone'⟩
  · rw [← hjob]
    refine ⟨hsuffix, ?_, ⟨amount, ?_⟩, .refl, hrun, hrun', fun i _ => rfl, ?_, fun i hi => ?_,
      fun j hj hstar => ?_⟩
    · rw [hstars, hjob, List.map_map]
      rfl
    · rw [hhumans, hjob, List.map_map, createHumans, ← List.map_coe_finRange_eq_range, List.map_map]
      rfl
    · refine List.countP_eq_length.mpr fun i hi => ?_
      obtain ⟨report, hreport⟩ := Option.isSome_iff_exists.mp (hdone i hi)
      obtain ⟨⟨pre, e, post, -, hanswer, -⟩, houtcome, -⟩ := (hinv.run hrun).answered hreport
      rw [hstars] at hi
      obtain ⟨z, -, rfl⟩ := List.mem_map.mp hi
      rw [hjob] at hanswer houtcome
      have hresponse : report.response = starResponseSuccess := hanswer.2
      have hwork : report.outcome = .workDone := by
        rw [houtcome, hresponse]
        show Star.outcome starResponseSuccess = .workDone
        exact if_pos rfl
      rw [hreport, Option.map_some, hwork]
      exact decide_eq_true rfl
    · rw [hothers i (hnot i hi)]
      rfl
    · rw [hjob] at hstar
      cases j with
      | inl z =>
        rw [hstars] at hj
        exact absurd (List.mem_map_of_mem (List.mem_attach _ z)) hj
      | inr k =>
        obtain ⟨name, prognosis, h, hk⟩ := hstar
        exact Request.noConfusion hk
  · rw [hhumans, List.length_map, List.length_finRange]

end Run

/-- Somebody asks for the first zodiac. -/
theorem sampleMulticlient_right : ∃ (w : World ({z // z ∈ zodiacList} ⊕ Fin 1)) (i : _),
    (w.session i).client.report = some ⟨str "Aries value", .workDone⟩ := by
  obtain ⟨stars, humans, w₀, w₁, w, hmulti, hlength, hdone⟩ :=
    exists_multiclient (str " value") (by decide) 1
  obtain ⟨i, rfl⟩ := List.length_eq_one_iff.mp hlength
  have hi : i ∈ [i] := List.mem_cons_self
  obtain ⟨report, hreport⟩ := Option.isSome_iff_exists.mp (hdone i hi)
  have hright := (horoscopes_right hmulti.reachable_last).2.1 _ _ _ _ _ hmulti i hi report hreport
  obtain ⟨amount, hjob⟩ := hmulti.humans_job
  have hamount : 1 = amount := by simpa [createHumans] using congrArg List.length hjob
  subst hamount
  have hfirst : multiclientJob (str " value") (by decide) 1 i = zodiacHuman 0 :=
    (List.cons.inj hjob).1
  rw [hfirst] at hright
  exact ⟨w, i, hreport.trans (congrArg some hright)⟩

end Multiclient

end Astrologer.Boost
