import Astrologer.Boost.Convert
import Astrologer.Boost.Multiclient

/-!
# The multiclient comes to its end

`MulticlientMain` calls `SetAllZodiacs` and then `PollAllZodiacs`.  The one makes the stars and
calls `run()`, which returns when no handler is left, so when every star has ended; then it
compares the number of callbacks with the number of stars.  The other one makes the humans and
lets the threads of `ParallelRun` call the handlers.  A handler belongs to a strand, so two
threads never call handlers of one human at once, and the threads are one more reason why the
steps of different humans can come in any order.  When every human has ended, the number of
those whose prognosis was the right one is compared with the number of all.

Here it is a program counter over the world of `Boost.Clients`.  Other clients are there before
it, and beside it, and do what they want, but no other star is running.

The program is a test of the server, and the server passes it: whatever the order of the steps
is, `MulticlientMain` returns, and it returns `EXIT_SUCCESS` (`multiclientMain_succeeds`).
-/

namespace Astrologer.Boost

open Completion (Inevitable inevitable_of_measure)
open Relation (ReflTransGen)

/-! ## The program

The program between its calls of `run()`, with the clients that it has made; everybody else goes
on at the same time. -/

def exitSuccess : ℤ := 0

def exitFailure : ℤ := 1

/-- The suffix that `MulticlientMain` gives to the prognoses. -/
def multiclientSuffix : List Byte := str " value"

theorem multiclientSuffix_notMem : delim ∉ multiclientSuffix := by decide

/-- The amount of humans, when the arguments are accepted. -/
def humanAmount (strerror : ℕ → List Byte) : List CString → Option ℕ
  | [_, _, _, _, amount] =>
    let t : UnsignedType := .word 64 le_rfl
    let c := convert strerror t amount ⟨0, t.card_pos⟩ 0 t.max
    if c.ret then some c.val else none
  | _ => none

/-- Where `MulticlientMain` is. -/
inductive MulticlientPc
  /-- In the `run()` of `SetAllZodiacs`. -/
  | settingAllZodiacs
  /-- The threads of `ParallelRun` are running. -/
  | pollingAllZodiacs
  | returned (status : ℤ)

/-- What is still to be done. -/
def MulticlientPc.rank : MulticlientPc → ℕ
  | .settingAllZodiacs => 2
  | .pollingAllZodiacs => 1
  | .returned _ => 0

variable {ι : Type*}

structure MulticlientRun (ι : Type*) where
  pc : MulticlientPc
  world : World ι

/-- It is called, in a world with other clients. -/
def MulticlientRun.start (strerror : ℕ → List Byte) (argv : List CString) (w : World ι) :
    MulticlientRun ι where
  pc :=
    match humanAmount strerror argv with
    | none => .returned exitFailure
    | some _ => .settingAllZodiacs
  world := w

/-- The humans whose callback has counted them. -/
def World.humanCounter (w : World ι) (job : ι → Request) (humans : List ι) : ℕ :=
  humans.countP fun i =>
    (w.session i).client.report = some ⟨(job i).name.zodiac ++ multiclientSuffix, .workDone⟩

/-- No handler of these clients is left. -/
def World.RunReturns (w : World ι) (clients : List ι) : Prop :=
  ∀ i ∈ clients, (w.session i).client.operation = .ended

/-- `SetAllZodiacs` has returned this. -/
def MulticlientPc.afterSetAllZodiacs (allSet : Prop) [Decidable allSet] : MulticlientPc :=
  if allSet then .pollingAllZodiacs else .returned exitFailure

def MulticlientPc.afterPollAllZodiacs (humanCounter humans : ℕ) : MulticlientPc :=
  .returned (if humanCounter ≠ humans then exitFailure else exitSuccess)

instance (w : World ι) (stars : List ι) : Decidable (w.AllSet stars) :=
  inferInstanceAs (Decidable (_ = _))

variable [DecidableEq ι]

/-- A step of a client or of the server, or the program goes on.  The humans are made when the
prognoses have been set. -/
inductive MulticlientRun.Step (job : ι → Request) (stars humans : List ι) :
    MulticlientRun ι → MulticlientRun ι → Prop
  | setting {w : World ι} {i : ι} {e : Option Entry} {m : PrognosisManager} {s : Session}
      (h : (w.session i).Step (job i) w.prognosisManager e m s) (hi : i ∉ humans) :
      Step job stars humans ⟨.settingAllZodiacs, w⟩ ⟨.settingAllZodiacs, {
        session := Function.update w.session i s
        prognosisManager := m
        trace := w.trace ++ (e.map (Prod.mk i)).toList }⟩
  | setAllZodiacs {w : World ι} (h : w.RunReturns stars) :
      Step job stars humans ⟨.settingAllZodiacs, w⟩ ⟨.afterSetAllZodiacs (w.AllSet stars), w⟩
  | polling {w w' : World ι} (h : w.Step job w') :
      Step job stars humans ⟨.pollingAllZodiacs, w⟩ ⟨.pollingAllZodiacs, w'⟩
  | pollAllZodiacs {w : World ι} (h : w.RunReturns humans) :
      Step job stars humans ⟨.pollingAllZodiacs, w⟩
        ⟨.afterPollAllZodiacs (w.humanCounter job humans) humans.length, w⟩

/-! ## The clients that have ended

`run()` returns when its clients have ended.  Then each of them has its response, so the counters
of the program are what they should be. -/

/-- A client ends with its report, as long as nothing fails. -/
theorem Session.Matched.ended_iff {r : Request} {s : Session} {answer : Option (List Byte)}
    (h : s.Matched r answer) : s.client.operation = .ended ↔ s.client.report.isSome := by
  cases answer with
  | none =>
    have hasking : s.Asking r := h
    refine iff_of_false hasking.going ?_
    rw [hasking.report]
    exact Bool.false_ne_true
  | some response =>
    have hanswering : s.Answering r response := h
    rcases hanswering.client with ⟨hgoing, hreport, -, -⟩ | ⟨hclient, -, -⟩
    · refine iff_of_false hgoing ?_
      rw [hreport]
      exact Bool.false_ne_true
    · rw [hclient]
      exact iff_of_true rfl rfl

section Ends

variable {job : ι → Request} {stars humans : List ι} {w w₀ w₁ : World ι} {i : ι}

omit [DecidableEq ι] in
theorem World.Inv.ended_iff (h : w.Inv job) (i : ι) :
    (w.session i).client.operation = .ended ↔ (w.session i).client.report.isSome := by
  obtain ⟨answer, hmatched, -⟩ := h.session i
  exact hmatched.ended_iff

omit [DecidableEq ι] in
/-- As long as `run()` does not return, one of its clients can go on. -/
theorem World.Inv.exists_step_of_not_returns (h : w.Inv job) {clients : List ι}
    (hopen : ¬ w.RunReturns clients) :
    ∃ i ∈ clients, ∃ e m s, (w.session i).Step (job i) w.prognosisManager e m s := by
  simp only [RunReturns, not_forall] at hopen
  obtain ⟨i, hi, hgoing⟩ := hopen
  rw [h.ended_iff, Bool.not_eq_true, Option.isSome_eq_false_iff,
    Option.isNone_iff_eq_none] at hgoing
  exact ⟨i, hi, h.exists_step hgoing⟩

omit [DecidableEq ι] in
/-- **Every star has been thanked** when all of them have ended, since an end without a response
would be a failure. -/
theorem World.Inv.allSet (h : w.Inv job) {valueSuffix : List Byte} {hsuffix : delim ∉ valueSuffix}
    (hjob : stars.map job = setAllZodiacs valueSuffix hsuffix) (hended : w.RunReturns stars) :
    w.AllSet stars := by
  refine List.countP_eq_length.mpr fun i hi => ?_
  obtain ⟨report, hreport⟩ := Option.isSome_iff_exists.mp ((h.ended_iff i).mp (hended i hi))
  obtain ⟨⟨pre, e, post, -, hanswer, -⟩, houtcome, -⟩ := h.answered hreport
  have hmem : job i ∈ setAllZodiacs valueSuffix hsuffix := hjob ▸ List.mem_map_of_mem hi
  obtain ⟨z, -, hz⟩ := List.mem_map.mp hmem
  rw [← hz] at hanswer houtcome
  have hresponse : report.response = starResponseSuccess := hanswer.2
  have hwork : report.outcome = .workDone := by
    rw [houtcome, hresponse]
    show Star.outcome starResponseSuccess = .workDone
    exact if_pos rfl
  rw [hreport, Option.map_some, hwork]
  exact decide_eq_true rfl

/-- **Every human has been counted** when all of them have ended. -/
theorem Multiclient.humanCounter_eq
    (h : Multiclient job multiclientSuffix stars humans w₀ w₁ w) (hended : w.RunReturns humans) :
    w.humanCounter job humans = humans.length := by
  refine List.countP_eq_length.mpr fun i hi => ?_
  obtain ⟨report, hreport⟩ := Option.isSome_iff_exists.mp ((h.inv.ended_iff i).mp (hended i hi))
  rw [hreport, h.reads hi hreport]
  exact decide_eq_true rfl

end Ends

/-! ## What a run comes to

The invariant says for each place of the program what its clients have come to, and the measure
puts the place in front of what the clients have left to do. -/

namespace MulticlientRun

variable {job : ι → Request} {stars humans : List ι} {w₀ : World ι}

/-- What is left to be done by the program, and by everybody. -/
def measure [Fintype ι] (p : MulticlientRun ι) : ℕ ×ₗ (ℕ ×ₗ ℕ) :=
  toLex (p.pc.rank, p.world.measure)

/-- Where the program is, and what it has done since it was called in `w₀`. -/
def Inv (job : ι → Request) (stars humans : List ι) (w₀ : World ι) (p : MulticlientRun ι) : Prop :=
  match p.pc with
  | .settingAllZodiacs => ReflTransGen (World.Step job) w₀ p.world ∧
      ∀ i ∈ humans, (p.world.session i).stage = .offline
  | .pollingAllZodiacs => ∃ w₁, Multiclient job multiclientSuffix stars humans w₀ w₁ p.world
  | .returned status => status = exitSuccess

/-- **The program is called**: its clients have not been made, and no other star is running. -/
structure Called (job : ι → Request) (stars humans : List ι) (amount : ℕ) (w₀ : World ι) :
    Prop where
  reachable : w₀.Reachable job
  stars_job : stars.map job = setAllZodiacs multiclientSuffix multiclientSuffix_notMem
  humans_job : humans.map job = createHumans amount
  stars_new : ∀ i ∈ stars, (w₀.session i).stage = .offline
  humans_new : ∀ i ∈ humans, (w₀.session i).stage = .offline
  alone : ∀ j, j ∉ stars → (job j).IsStar → (w₀.session j).client.operation = .ended

variable {amount : ℕ} {p p' : MulticlientRun ι}

/-- A star is not a human. -/
theorem Called.notMem_humans (h : Called job stars humans amount w₀) {i : ι} (hi : i ∈ stars) :
    i ∉ humans := by
  intro hi'
  have hstar : job i ∈ setAllZodiacs multiclientSuffix multiclientSuffix_notMem :=
    h.stars_job ▸ List.mem_map_of_mem hi
  have hhuman : job i ∈ createHumans amount := h.humans_job ▸ List.mem_map_of_mem hi'
  obtain ⟨z, -, hz⟩ := List.mem_map.mp hstar
  obtain ⟨n, -, hn⟩ := List.mem_map.mp hhuman
  exact Request.noConfusion (hz.trans hn.symm)

theorem Called.inv_of_setting (h : Called job stars humans amount w₀)
    {w : World ι} (hp : Inv job stars humans w₀ ⟨.settingAllZodiacs, w⟩) : w.Inv job :=
  World.Reachable.inv (h.reachable.trans hp.1)

/-- **A step keeps the invariant, and less is left to be done**: a step of a client is one of its
world, and a step of the program needs its clients to have ended. -/
theorem Called.step [Fintype ι] (h : Called job stars humans amount w₀)
    (hp : Inv job stars humans w₀ p) (hs : p.Step job stars humans p') :
    Inv job stars humans w₀ p' ∧ p'.measure < p.measure := by
  cases hs with
  | @setting w i e m s hsession hi =>
    have hstep := World.Step.session hsession
    refine ⟨⟨hp.1.tail hstep, fun j hj => ?_⟩, ?_⟩
    · have hji : j ≠ i := fun heq => hi (heq ▸ hj)
      show ((Function.update w.session i s) j).stage = .offline
      rw [Function.update_of_ne hji]
      exact hp.2 j hj
    · exact Prod.Lex.toLex_lt_toLex.mpr (.inr ⟨rfl, ((h.inv_of_setting hp).step hstep).2⟩)
  | @setAllZodiacs w hended =>
    have hset : w.AllSet stars := (h.inv_of_setting hp).allSet h.stars_job hended
    have hpc : MulticlientPc.afterSetAllZodiacs (w.AllSet stars) = .pollingAllZodiacs :=
      if_pos hset
    rw [hpc]
    refine ⟨⟨w, multiclientSuffix_notMem, h.stars_job, ⟨amount, h.humans_job⟩, h.reachable, hp.1,
      .refl, h.stars_new, hset, hp.2, fun j hj hstar => .inl (h.alone j hj hstar)⟩, ?_⟩
    exact Prod.Lex.toLex_lt_toLex.mpr (.inl Nat.one_lt_two)
  | @polling w w' hstep =>
    obtain ⟨w₁, hmulti⟩ := hp
    refine ⟨⟨w₁, { hmulti with
      asking := hmulti.asking.tail hstep
      alone := fun j hj hstar => .inl (h.alone j hj hstar) }⟩, ?_⟩
    exact Prod.Lex.toLex_lt_toLex.mpr (.inr ⟨rfl, (hmulti.inv.step hstep).2⟩)
  | @pollAllZodiacs w hended =>
    obtain ⟨w₁, hmulti⟩ := hp
    refine ⟨?_, Prod.Lex.toLex_lt_toLex.mpr (.inl Nat.one_pos)⟩
    show (if w.humanCounter job humans ≠ humans.length then exitFailure else exitSuccess) = _
    exact if_neg (not_not.mpr (hmulti.humanCounter_eq hended))

/-- **As long as it has not returned, it can go on**: one of the clients that it waits for has a
step, or else `run()` returns. -/
theorem Called.exists_step (h : Called job stars humans amount w₀)
    (hp : Inv job stars humans w₀ p) (hgoing : p.pc ≠ .returned exitSuccess) :
    ∃ p', p.Step job stars humans p' := by
  obtain ⟨pc, w⟩ := p
  cases pc with
  | settingAllZodiacs =>
    by_cases hended : w.RunReturns stars
    · exact ⟨_, .setAllZodiacs hended⟩
    · obtain ⟨i, hi, e, m, s, hstep⟩ := (h.inv_of_setting hp).exists_step_of_not_returns hended
      exact ⟨_, .setting hstep (h.notMem_humans hi)⟩
  | pollingAllZodiacs =>
    obtain ⟨w₁, hmulti⟩ := hp
    by_cases hended : w.RunReturns humans
    · exact ⟨_, .pollAllZodiacs hended⟩
    · obtain ⟨i, -, e, m, s, hstep⟩ := hmulti.inv.exists_step_of_not_returns hended
      exact ⟨_, .polling (.session hstep)⟩
  | returned status =>
    have hstatus : status = exitSuccess := hp
    exact absurd (congrArg MulticlientPc.returned hstatus) hgoing

end MulticlientRun

open MulticlientRun

/-- **`MulticlientMain` returns `EXIT_SUCCESS`**, whatever the order of the steps, and whatever
other humans there are. -/
theorem multiclientMain_succeeds [Fintype ι] {job : ι → Request} {stars humans : List ι}
    {amount : ℕ} {w₀ : World ι} (strerror : ℕ → List Byte) {argv : List CString}
    (hargv : humanAmount strerror argv = some amount)
    (h : Called job stars humans amount w₀) :
    Inevitable (MulticlientRun.Step job stars humans) (fun p => p.pc = .returned exitSuccess)
      (.start strerror argv w₀) := by
  refine inevitable_of_measure MulticlientRun.measure (fun p p' hp hs => h.step hp hs)
    (fun p hp hgoing => h.exists_step hp hgoing) ?_
  have hpc : MulticlientRun.start strerror argv w₀ = ⟨.settingAllZodiacs, w₀⟩ := by
    rw [MulticlientRun.start, hargv]
  rw [hpc]
  exact ⟨.refl, h.humans_new⟩

/-- The stars and the humans of `exists_multiclient`, with nobody else. -/
theorem called_start (amount : ℕ) :
    Called (multiclientJob multiclientSuffix multiclientSuffix_notMem amount)
      (zodiacList.attach.map .inl) ((List.finRange amount).map .inr) amount
      (.start (multiclientJob multiclientSuffix multiclientSuffix_notMem amount)) where
  reachable := .refl
  stars_job := by
    rw [List.map_map]
    rfl
  humans_job := by
    rw [List.map_map, createHumans, ← List.map_coe_finRange_eq_range, List.map_map]
    rfl
  stars_new _ _ := rfl
  humans_new _ _ := rfl
  alone j hj hstar := by
    cases j with
    | inl z => exact absurd (List.mem_map_of_mem (List.mem_attach _ z)) hj
    | inr k =>
      obtain ⟨name, prognosis, hprognosis, hk⟩ := hstar
      exact Request.noConfusion hk

/-- `client multi localhost 1234 3`. -/
def sampleArgv : List CString :=
  [⟨str "client", by decide⟩, ⟨str "multi", by decide⟩, ⟨str "localhost", by decide⟩,
    ⟨str "1234", by decide⟩, ⟨str "3", by decide⟩]

theorem sampleArgv_succeeds :
    let job := multiclientJob multiclientSuffix multiclientSuffix_notMem 3
    Inevitable (MulticlientRun.Step job (zodiacList.attach.map .inl) ((List.finRange 3).map .inr))
      (fun p => p.pc = .returned exitSuccess) (.start (fun _ => []) sampleArgv (.start job)) :=
  multiclientMain_succeeds (fun _ => []) (by decide) (called_start 3)

end Astrologer.Boost
