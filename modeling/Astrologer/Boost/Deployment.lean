import Astrologer.Boost.Routes
import Astrologer.Library.SharedStore

/-!
# Clients of the server and of its proxies

The server has clients that connect to it, stars and humans, and it has humans that connect to
a proxy.  A client that connects to the server makes a `Session`, and a human behind a proxy
makes a `Route`; all of them run at once, and all that they share is the map of the server.
The proxies are not told apart: no two connections of a proxy share anything.

Wherever the clients connect, the requests are handled as if they had been sent on one
connection, one after the other (`Deployment.serial`): there is one order of them that explains
every response, and a client that has its response before another one connects comes before
it.  And every client reads its response (`Deployment.every_client_reads`).

Both are about runs in which no operation fails and no deadline passes.  A client whose
operation fails, or who is too slow for one of the deadlines, is left without a response; what
it has stored by then is stored all the same (`Boost.Confinement`).
-/

namespace Astrologer.Boost

open Completion (Inevitable)
open Relation (ReflTransGen)
open SharedStore (Parties Contract)

/-! ## Visits

A visit is a session or a route, and each of its results is that of the one or of the other. -/

/-- What a client connects to: the server itself, with a request of either kind, or a proxy that
stands before it. -/
inductive Visit
  | direct (r : Request)
  /-- A human connects to a proxy. -/
  | behind (name : Named)

namespace Visit

def request : Visit → Request
  | .direct r => r
  | .behind name => .client name

def new : Visit → Session ⊕ Route
  | .direct r => .inl (.new r)
  | .behind name => .inr (.new name)

/-- A step of one client's session with the server, or of the route of one client over its proxy.
Both work on the map of the same server, so both record what they do to it. -/
inductive Step : Visit → PrognosisManager → Session ⊕ Route → Option Entry → PrognosisManager →
    Session ⊕ Route → Prop
  | direct {r : Request} {m m' : PrognosisManager} {s s' : Session} {e : Option Entry}
      (h : s.Step r m e m' s') : Step (.direct r) m (.inl s) e m' (.inl s')
  | behind {name : Named} {m m' : PrognosisManager} {s s' : Route} {e : Option Entry}
      (h : s.Step name m e m' s') : Step (.behind name) m (.inr s) e m' (.inr s')

/-- Where the bytes of a visit are, when the store has given this answer, or none so far: the two
sides of a session, or the three of a route. -/
def Matched : Visit → Session ⊕ Route → Option (List Byte) → Prop
  | .direct r, .inl s, answer => s.Matched r answer
  | .behind name, .inr s, answer => s.Matched name answer
  | .direct _, .inr _, _ => False
  | .behind _, .inl _, _ => False

end Visit

/-- What the client of a visit has read. -/
def reportOf : Session ⊕ Route → Option Report :=
  Sum.elim (fun s => s.client.report) fun s => s.client.report

/-- What has become of its connection. -/
def stageOf : Session ⊕ Route → Stage := Sum.elim Session.stage Route.stage

/-- How far it is to its end. -/
def measureOf (handled : Bool) : Session ⊕ Route → ℕ ×ₗ ℕ :=
  Sum.elim (Session.measure handled) (Route.measure handled)

/-- What an entry does to the map. -/
def Entry.apply : Entry → PrognosisManager → PrognosisManager
  | .stored zodiac prognosis, m => m.setPrognosis zodiac prognosis
  | .asked, m => m

section Visit

variable {v : Visit} {s s' : Session ⊕ Route} {m m' : PrognosisManager} {e : Option Entry}
  {answer : Option (List Byte)}

theorem Request.entry_apply (r : Request) (m : PrognosisManager) :
    r.entry.apply m = (r.serve m).2 := by
  cases r <;> rfl

theorem Request.serve_fst (r : Request) (m : PrognosisManager) :
    (r.serve m).1 = r.response m ++ [delim] := by
  cases r <;> rfl

/-- A prognosis that is stored is one line. -/
theorem Request.serve_lawful (r : Request)
    (hm : ∀ zodiac prognosis, m zodiac = some prognosis → delim ∉ prognosis)
    (zodiac prognosis : List Byte) (hp : (r.serve m).2 zodiac = some prognosis) :
    delim ∉ prognosis := by
  cases r with
  | client name => exact hm zodiac prognosis hp
  | star name prognosis' hprognosis =>
    have hp : Function.update m name.zodiac (some prognosis') zodiac = some prognosis := hp
    by_cases hz : zodiac = name.zodiac
    · rw [hz, Function.update_self, Option.some.injEq] at hp
      rw [← hp]
      exact hprognosis
    · rw [Function.update_of_ne hz] at hp
      exact hm zodiac prognosis hp

theorem Visit.new_matched (v : Visit) : v.Matched v.new none := by
  cases v with
  | direct r => exact Session.new_asking r
  | behind name => exact Route.new_asking name

theorem Visit.Matched.step (h : v.Matched s answer)
    (hm : ∀ zodiac prognosis, m zodiac = some prognosis → delim ∉ prognosis)
    (hs : v.Step m s e m' s') :
    (e = none ∧ m' = m ∧ v.Matched s' answer ∧
      measureOf answer.isSome s' < measureOf answer.isSome s) ∨
    (answer = none ∧ e = some v.request.entry ∧ m' = v.request.entry.apply m ∧
      v.Matched s' (some (v.request.response m)) ∧ measureOf true s' < measureOf false s) := by
  cases hs with
  | @direct r _ _ s s' _ hstep =>
    rw [Request.entry_apply]
    exact Session.Matched.step (show s.Matched r answer from h) hm hstep
  | @behind name _ _ s s' _ hstep =>
    exact Route.Matched.step (show s.Matched name answer from h) hm hstep

theorem Visit.Matched.exists_step (h : v.Matched s answer) (hreport : reportOf s = none)
    (m : PrognosisManager) : ∃ e m' s', v.Step m s e m' s' := by
  cases v with
  | direct r =>
    cases s with
    | inl s =>
      obtain ⟨e, m', s', hstep⟩ := Session.Matched.exists_step h hreport m
      exact ⟨e, m', .inl s', .direct hstep⟩
    | inr s => exact absurd h id
  | behind name =>
    cases s with
    | inl s => exact absurd h id
    | inr s =>
      obtain ⟨e, m', s', hstep⟩ := Route.Matched.exists_step h hreport m
      exact ⟨e, m', .inr s', .behind hstep⟩

/-- A client that has read something has read the response. -/
theorem Visit.Matched.report_eq (h : v.Matched s answer) {report : Report}
    (hreport : reportOf s = some report) :
    answer = some report.response ∧ report.outcome = v.request.outcome report.response := by
  cases v with
  | direct r =>
    cases s with
    | inr s => exact absurd h id
    | inl s =>
      have hreport : s.client.report = some report := hreport
      cases answer with
      | none =>
        rw [(show s.Asking r from h).report] at hreport
        cases hreport
      | some response =>
        rcases (show s.Answering r response from h).client with ⟨-, hnone, -⟩ | ⟨hclient, -⟩
        · rw [hnone] at hreport
          cases hreport
        · rw [hclient] at hreport
          cases hreport
          exact ⟨rfl, rfl⟩
  | behind name =>
    cases s with
    | inl s => exact absurd h id
    | inr s =>
      have hreport : s.client.report = some report := hreport
      cases answer with
      | none =>
        rw [(show s.Asking name from h).report] at hreport
        cases hreport
      | some response =>
        cases (show s.Answering name response from h).returning with
        | reading hgoing =>
          rw [hgoing.2] at hreport
          cases hreport
        | writing hgoing =>
          rw [hgoing.2] at hreport
          cases hreport
        | read hclient =>
          rw [hclient] at hreport
          cases hreport
          exact ⟨rfl, rfl⟩

/-- The request of a client that has not connected is not handled. -/
theorem Visit.Matched.of_offline (h : v.Matched s answer) (hs : stageOf s = .offline) :
    answer = none := by
  cases answer with
  | none => rfl
  | some response =>
    cases v with
    | direct r =>
      cases s with
      | inl s =>
        have haccepted := (show s.Answering r response from h).accepted
        exact Stage.noConfusion (hs.symm.trans haccepted)
      | inr s => exact absurd h id
    | behind name =>
      cases s with
      | inl s => exact absurd h id
      | inr s =>
        have haccepted := (show s.Answering name response from h).stage
        exact Stage.noConfusion (hs.symm.trans haccepted)

end Visit

/-! ## All of them

The visits keep the contract of `Library.SharedStore`: a visit makes its operation on the map
once, between two silent parts of its run, and it comes to its end. -/

variable {ι : Type*}

/-- The visits, and the map that they share. -/
def visits (visit : ι → Visit) : Parties ι (Session ⊕ Route) PrognosisManager Entry where
  start i := (visit i).new
  init _ := none
  step i m s e m' s' := (visit i).Step m s e m' s'

abbrev Deployment (ι : Type*) := SharedStore.World ι (Session ⊕ Route) PrognosisManager Entry

namespace Deployment

/-- What a client has read. -/
def report (w : Deployment ι) (i : ι) : Option Report := reportOf (w.party i)

def stage (w : Deployment ι) (i : ι) : Stage := stageOf (w.party i)

/-- The line that a client has read. -/
def line (w : Deployment ι) (i : ι) : List Byte :=
  match w.report i with
  | some report => report.response ++ [delim]
  | none => []

/-- Every client has read its response. -/
def Done (w : Deployment ι) : Prop := ∀ i, (w.report i).isSome

/-- What the visits keep. -/
def contract (visit : ι → Visit) : Contract (visits visit) (List Byte) (ℕ ×ₗ ℕ) where
  entry i := (visit i).request.entry
  apply := Entry.apply
  answer i m := (visit i).request.response m
  lawful m := ∀ zodiac prognosis, m zodiac = some prognosis → delim ∉ prognosis
  matched i := (visit i).Matched
  done _ s := (reportOf s).isSome
  rank _ handled s := measureOf handled s
  matched_start i := (visit i).new_matched
  lawful_init _ _ h := absurd h (Option.some_ne_none _).symm
  lawful_apply i m hm := by
    rw [Request.entry_apply]
    exact (visit i).request.serve_lawful hm
  step hm h hs := h.step hm hs
  next _ h hopen := h.exists_step (by simpa using hopen) _

/-- The map after some requests, one after the other. -/
theorem contract_serial (visit : ι → Visit) (order : List ι) (m : PrognosisManager) :
    order.foldl (fun m i => ((visit i).request.entry).apply m) m =
      (serveAll (order.map fun i => (visit i).request) m).2 := by
  induction order generalizing m with
  | nil => rfl
  | cons i order ih =>
    rw [List.foldl_cons, ih, Request.entry_apply]
    rfl

/-- Lines that are right one by one are right together. -/
theorem serveAll_of_split (visit : ι → Visit) (m : PrognosisManager) (line : ι → List Byte)
    (order : List ι) (h : ∀ i pre post, order = pre ++ i :: post → line i =
      (visit i).request.response (serveAll (pre.map fun i => (visit i).request) m).2 ++ [delim]) :
    (serveAll (order.map fun i => (visit i).request) m).1 = order.map line := by
  induction order using List.reverseRecOn with
  | nil => rfl
  | append_singleton order i ih =>
    rw [List.map_append, List.map_append, List.map_singleton, List.map_singleton,
      serveAll_append, Request.serve_fst, ← h i order [] rfl]
    refine congrArg (· ++ [line i]) (ih fun j pre post horder => h j pre (post ++ [i]) ?_)
    rw [horder, List.append_assoc]
    rfl

variable [DecidableEq ι] {visit : ι → Visit} {w w' : Deployment ι}

/-- **The requests are handled one after the other.**  There is one order of them in which one
connection would get the same lines and leave the same map; and a client that has its response
when another one has not yet connected comes before it. -/
theorem serial (hw : w.Reachable (visits visit))
    (hrun : ReflTransGen (SharedStore.World.Step (visits visit)) w w') (hdone : Done w') :
    ∃ order : List ι, order.Nodup ∧ (∀ i, i ∈ order) ∧
      serveAll (order.map fun i => (visit i).request) (fun _ => none) =
        (order.map (line w'), w'.store) ∧
      (∀ i report, Deployment.report w' i = some report →
        report.outcome = (visit i).request.outcome report.response) ∧
      ∀ i j pre post, (Deployment.report w i).isSome → stage w j = .offline →
        order = pre ++ j :: post → i ∈ pre := by
  have hinv := SharedStore.World.Reachable.atomic (contract visit) hw
  have hreported : ∀ {v : Deployment ι} {i : ι}, (Deployment.report v i).isSome →
      ¬ (visit i).Matched (v.party i) none := by
    intro v i hi hmatched
    obtain ⟨report, hreport⟩ := Option.isSome_iff_exists.mp hi
    exact Option.some_ne_none _ (hmatched.report_eq hreport).1.symm
  obtain ⟨order, hnodup, hall, hstore, hanswers, hbefore⟩ :=
    hinv.exists_order hrun fun i => hreported (hdone i)
  refine ⟨order, hnodup, hall, Prod.ext ?_ ?_, fun i report hreport => ?_, ?_⟩
  · refine serveAll_of_split visit _ (line w') order fun i pre post horder => ?_
    have hmatched : (visit i).Matched (w'.party i) _ := hanswers i pre post horder
    obtain ⟨report, hreport⟩ := Option.isSome_iff_exists.mp (hdone i)
    have hresponse := Option.some.inj (hmatched.report_eq hreport).1
    rw [line, hreport, ← contract_serial]
    dsimp only
    rw [← hresponse]
    rfl
  · rw [hstore]
    exact (contract_serial visit order _).symm
  · obtain ⟨pre, post, horder⟩ := List.append_of_mem (hall i)
    have hmatched : (visit i).Matched (w'.party i) _ := hanswers i pre post horder
    exact (hmatched.report_eq hreport).2
  · intro i j pre post hi hj horder
    refine hbefore i j pre post (hreported hi) (fun a hmatched => ?_) horder
    exact Option.some_ne_none _ (Visit.Matched.of_offline hmatched hj)

/-- **Every client reads its response**, whatever the order of the steps. -/
theorem every_client_reads [Fintype ι] (hw : w.Reachable (visits visit)) :
    Inevitable (SharedStore.World.Step (visits visit)) Done w :=
  (SharedStore.World.Reachable.atomic (contract visit) hw).inevitable

theorem aries_mem_zodiacList : str "Aries" ∈ zodiacList := by decide

theorem delim_notMem_goodDay : delim ∉ str "Good day" := by decide

/-- A star for Aries, and behind a proxy a human who asks for it. -/
def sampleVisit : Bool → Visit
  | false => .direct (.star ⟨str "Aries", [], aries_mem_zodiacList, List.not_mem_nil⟩
      (str "Good day") delim_notMem_goodDay)
  | true => .behind ⟨str "Aries", [], aries_mem_zodiacList, List.not_mem_nil⟩

theorem sampleVisit_reads : Inevitable (SharedStore.World.Step (visits sampleVisit)) Done
    (.initial (visits sampleVisit)) := every_client_reads .refl

theorem sampleVisit_serial : ∃ (w : Deployment Bool) (order : List Bool),
    order.Nodup ∧ (∀ i, i ∈ order) ∧
      serveAll (order.map fun i => (sampleVisit i).request) (fun _ => none) =
        (order.map (line w), w.store) := by
  have hinv := SharedStore.World.Reachable.atomic (contract sampleVisit) .refl
  obtain ⟨w, hrun, hdone⟩ := hinv.inevitable.exists_run
  obtain ⟨order, hnodup, hall, hserve, -, -⟩ := serial .refl hrun hdone
  exact ⟨w, order, hnodup, hall, hserve⟩

end Deployment

end Astrologer.Boost
