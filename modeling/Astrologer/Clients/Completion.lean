import Astrologer.Clients.Progress
import Astrologer.Library.Completion

/-!
# Every exchange comes to its end

A byte is dearest before it has been sent, and it becomes cheaper on every hop: on its way
to the server, in the server, and on its way back (`remaining`, `held`).  A request costs more
than its reply.  Every step of a client or of the server moves something on, so it makes the
whole cheaper (`World.cheaper`), and since nobody is stuck, every run comes to a world where
all clients have returned.  The scheduler need not be fair.

## The limit

The server has room for `clientConNum` connections.  One more is closed as soon as it has
been accepted, and then `recv_line` returns `0` in the client: there is no reply.  This is
the only exception (`recvLine_right`), and `Crowd` is the world where it happens.
-/

namespace Astrologer.Clients

open Lines ServerStateType FdOperation Completion
open Proxy (recvLine)

/-! ## What is left to do

The measure of one client: the exchanges that it has not begun, the bytes of the one that it is
in, and whether it has connected and closed.  Each of its steps makes it less. -/

/-- Everything in an exchange that has not begun. -/
def Exchange.effort (job : Exchange) : ℕ := 201 * job.text.length + 2

def Exchange.efforts (todo : List Exchange) : ℕ := (todo.map Exchange.effort).sum

/-- What a client has left to do. -/
def Process.effort (c : Process) : ℕ :=
  match c with
  | .connecting todo => Exchange.efforts todo + 2
  | .idle todo => Exchange.efforts todo + 1
  | .calling _ _ _ todo => 201 * c.unsent.length + Exchange.efforts todo + 2
  | .returned => 0

def Stage.effort : Stage → ℕ
  | .offline => 3
  | .backlog => 2
  | .accepted => 1
  | .refused => 0
  | .ended => 0

/-- A client and its end of the connection. -/
def remaining (l : Link) (c : Process) : ℕ :=
  c.effort + 200 * l.up.length + l.down.length + l.stage.effort

/-- What the server has of a connection. -/
def held (srv : Server) (p : Ptr) : ℕ :=
  load (srv.session p).phase + 199 * (srv.session p).unread.length

/-- The server does not wait with an event left. -/
def rank : Pc → ℕ
  | .epollWait => 1
  | .dispatch [] => 2
  | .dispatch (_ :: _) => 0
  | .freeHeapElems => 0
  | .returned => 0

section Client

variable {l l' : Link} {c c' : Process}

theorem effort_of_job {job : Exchange} (h : c.job = some job) :
    c.effort = 201 * c.unsent.length + Exchange.efforts c.todo + 2 := by
  cases c with
  | connecting todo => cases h
  | idle todo => cases h
  | returned => cases h
  | calling job' s dist todo => rfl

theorem efforts_cons (job : Exchange) (todo : List Exchange) :
    Exchange.efforts (job :: todo) = 201 * job.text.length + 2 + Exchange.efforts todo := rfl

/-- What is left when `recv` has returned.  At the end of the stream `recv_line` returns. -/
theorem afterRecv_effort {job : Exchange} {s : Locals} (hs : s.call = .recvReply) (dist : ℕ)
    (todo : List Exchange) (r : RecvResult) :
    (Process.afterRecv job s dist todo r).effort ≤ Exchange.efforts todo + 2 ∧
      (r = .bytes [] →
        (Process.afterRecv job s dist todo r).effort ≤ Exchange.efforts todo + 1) := by
  have hidle : ∀ bytes : ℤ, Process.effort
      (if exitStatus bytes ≠ 0 then .idle [] else .idle todo) ≤ Exchange.efforts todo + 1 := by
    intro bytes
    split
    · exact Nat.succ_le_succ (Nat.zero_le _)
    · exact Nat.le_refl _
  unfold Process.afterRecv
  dsimp only
  cases hcall : (recvLine s.buf dist astrologBufLen r).1 with
  | none =>
    refine ⟨?_, fun hr => ?_⟩
    · simp [Process.effort, Process.unsent, hs]
    · rw [hr, recvLine, List.take_nil, if_pos rfl] at hcall
      cases hcall
  | some bytes => exact ⟨(hidle bytes).trans (Nat.le_succ _), fun _ => hidle bytes⟩

/-- **A client has less to do** behind a step, whatever it is: a byte that it sends costs less on
the way than in its buffer, and one that it receives is off the connection. -/
theorem Process.Step.remaining_lt {act : Act} (h : c.Step act c') (hsane : Sane l c)
    (hl : l.client act = some l') : remaining l' c' < remaining l c := by
  have hinv := hsane.inv
  cases act with
  | connect =>
    obtain ⟨todo, rfl, rfl⟩ := h.of_connect
    have hstage := hsane.offline.mpr ⟨todo, rfl⟩
    cases hl
    rw [remaining, remaining, hstage]
    simp only [Process.effort, Stage.effort]
    omega
  | enter =>
    obtain ⟨job, todo, buf, rfl, rfl⟩ := h.of_enter
    cases hl
    have hafter : (Process.calling job (job.enter buf) 0 todo).effort =
        201 * job.text.length + Exchange.efforts todo + 2 := rfl
    rw [remaining, remaining, hafter, Process.effort, efforts_cons]
    omega
  | sent bs =>
    have hsent := h.sent hinv
    have hne : bs ≠ [] := by
      intro hnil
      rw [Link.client, if_pos hnil] at hl
      cases hl
    rw [Link.client, if_neg hne] at hl
    cases hl
    have hpos := List.length_pos_iff.mpr hne
    cases hjob : c.job with
    | none =>
      have hunsent := unsent_of_job_eq_none hjob
      rw [hsent.unsent] at hunsent
      exact absurd (List.append_eq_nil_iff.mp hunsent).1 hne
    | some job =>
      have hlen := congrArg List.length hsent.unsent
      rw [List.length_append] at hlen
      rw [remaining, remaining, effort_of_job hjob, effort_of_job (hsent.job.trans hjob),
        hsent.todo, hlen, List.length_append]
      dsimp only
      omega
  | sendFailed => cases hl
  | received r =>
    obtain ⟨job, s, dist, todo, hs, rfl, -, rfl⟩ := h.of_received
    cases r with
    | error => cases hl
    | bytes bs =>
      obtain ⟨down, hreceive, rfl⟩ := Option.map_eq_some_iff.mp hl
      obtain ⟨hle, hend⟩ := @afterRecv_effort job s hs dist todo (.bytes bs)
      have hbefore : (Process.calling job s dist todo).effort = Exchange.efforts todo + 2 := by
        simp [Process.effort, Process.unsent, hs]
      rw [remaining, remaining, hbefore]
      rcases Pipe.receive_eq_some.mp hreceive with ⟨hne, hpipe⟩ | ⟨rfl, hnil, rfl, -⟩
      · have hpos := List.length_pos_iff.mpr hne
        have hlen := congrArg List.length hpipe
        rw [List.length_append] at hlen
        dsimp only
        omega
      · have hend := hend rfl
        dsimp only
        rw [hnil]
        omega
  | close =>
    obtain ⟨rfl, rfl⟩ := h.of_close
    cases hl
    rw [remaining, remaining]
    simp [Process.effort, Exchange.efforts]

end Client

/-! ## The world

Over all clients the sum gets less with every step, of whatever party.  A call of the server is
counted for the client of its connection; `main`'s own steps between the calls are counted by
where it is in its loop. -/

section World

variable {ι : Type*} [Fintype ι]

/-- What is left of a client. -/
def World.left (w : World ι) (i : ι) : ℕ := remaining (w.link i) (w.client i)

/-- What the server has of all connections. -/
def World.held (w : World ι) : ℕ := ∑ p ∈ w.config.srv.allocated, Clients.held w.config.srv p

/-- What is left to do: what every client has left and what the server has of their connections,
and, below that, where `main` is in its loop.  Every step lowers it. -/
def World.measure (w : World ι) : ℕ := 3 * (∑ i, w.left i + w.held) + rank w.config.pc

theorem rank_le (pc : Pc) : rank pc ≤ 2 := by
  cases pc with
  | epollWait => exact Nat.le_succ 1
  | dispatch events => cases events <;> simp [rank]
  | freeHeapElems => exact Nat.zero_le 2
  | returned => exact Nat.zero_le 2

/-- Something has become less for one client, and nothing has changed for the others. -/
theorem World.measure_lt [DecidableEq ι] {w w' : World ι} (i : ι)
    (hothers : ∀ j, j ≠ i → w'.left j = w.left j)
    (hless : w'.left i + w'.held < w.left i + w.held) : w'.measure < w.measure := by
  have hrest : ∑ j ∈ Finset.univ.erase i, w'.left j = ∑ j ∈ Finset.univ.erase i, w.left j :=
    Finset.sum_congr rfl fun j hj => hothers j (Finset.ne_of_mem_erase hj)
  have hle := rank_le w'.config.pc
  rw [measure, measure, ← Finset.add_sum_erase Finset.univ w.left (Finset.mem_univ i),
    ← Finset.add_sum_erase Finset.univ w'.left (Finset.mem_univ i), hrest]
  omega

omit [Fintype ι] in
theorem held_eq {srv srv' : Server} {p : Ptr} (h : Clients.Untouched srv srv' p) :
    Clients.held srv' p = Clients.held srv p := by
  rw [Clients.held, Clients.held, h.session.1, h.session.2]

/-- **Every step makes the world cheaper.**  A step of a client changes its own share; a call of
the server moves bytes of one connection; and the rest of the loop of `main` goes down in rank. -/
theorem World.cheaper [DecidableEq ι] {w w' : World ι} (hinv : w.Inv) (hs : w.Step w') :
    w'.measure < w.measure := by
  cases hs with
  | @client i act c l hc hl =>
    refine measure_lt i (fun j hj => ?_) (Nat.add_lt_add_right ?_ _)
    · simp only [left, Function.update_of_ne hj]
    · simp only [left, Function.update_self]
      exact hc.remaining_lt (hinv.sane i) hl
  | @wait srv srv' events hw hs hready =>
    cases hs with
    | waitEvents srv k hne hr =>
      obtain ⟨e, es, rfl⟩ := List.exists_cons_of_ne_nil hne
      have hheld : ∀ t : Server, t = (minTimeout (srv.withKernel k)).2.2 →
          ∑ p ∈ t.allocated, Clients.held t p = w.held := by
        rintro t rfl
        rw [minTimeout_eq, World.held, hw]
        rfl
      rw [measure, measure, World.held, hheld _ rfl, hw]
      exact Nat.lt_succ_self _
  | @dispatched srv hw =>
    rw [measure, measure, World.held, World.held, hw]
    exact Nat.lt_succ_self _
  | @accept srv srv' events i p hw hs hi hp =>
    obtain rfl : w.config.srv = srv := by rw [hw]
    cases (admitted_of_step hinv.server.inv.srv hs).2 with
    | refused _ _ _ _ trace =>
      rw [Server.since, trace, List.drop_length] at hp
      cases hp
    | created p' _ _ _ fresh allocated others conn trace =>
      have hnew : Clients.held srv' p' = 0 := by
        rw [Clients.held, (session_create conn).1, (session_create conn).2]
        rfl
      have hheld : ∑ q ∈ srv'.allocated, Clients.held srv' q = w.held := by
        rw [allocated, Finset.sum_insert fresh, hnew, Nat.zero_add]
        refine Finset.sum_congr rfl fun q hq => held_eq ?_
        refine ⟨others q fun heq => fresh (heq ▸ hq), _, trace, fun e he => ?_⟩
        rw [List.mem_singleton.mp he]
        rfl
      refine measure_lt i (fun j hj => ?_) ?_
      · simp only [left, Function.update_of_ne hj]
      · rw [held, hheld]
        refine Nat.add_lt_add_right ?_ _
        simp only [left, remaining, Function.update_self, hi, Stage.effort]
        omega
  | @refuse srv srv' events i hw hs hi hfull =>
    obtain rfl : w.config.srv = srv := by rw [hw]
    cases (admitted_of_step hinv.server.inv.srv hs).2 with
    | refused _ _ mem allocated trace =>
      have hheld : ∑ q ∈ srv'.allocated, Clients.held srv' q = w.held := by
        rw [allocated]
        exact Finset.sum_congr rfl fun q _ => held_eq (.of_same mem trace q)
      refine measure_lt i (fun j hj => ?_) ?_
      · simp only [left, Function.update_of_ne hj]
      · rw [held, hheld]
        refine Nat.add_lt_add_right ?_ _
        simp only [left, remaining, Function.update_self, hi, Stage.effort]
        omega
    | created _ _ _ room => exact absurd hfull room
  | @serve srv srv' events i p l hw hs hp hl =>
    have hpc : w.config.pc = .dispatch (some p :: events) := by rw [hw]
    obtain ⟨⟨es, heffect⟩, hserved⟩ := hinv.served hw hs hp hl
    obtain rfl : w.config.srv = srv := by rw [hw]
    have hmem : p ∈ w.config.srv.allocated :=
      (hinv.server.inv.events _ hpc).2 p List.mem_cons_self
    have hothers : ∑ q ∈ w.config.srv.allocated.erase p, Clients.held srv' q =
        ∑ q ∈ w.config.srv.allocated.erase p, Clients.held w.config.srv q :=
      Finset.sum_congr rfl fun q hq => held_eq (.of_effect heffect (Finset.ne_of_mem_erase hq))
    have hbefore := Finset.add_sum_erase w.config.srv.allocated (Clients.held w.config.srv) hmem
    refine measure_lt i (fun j hj => ?_) ?_
    · simp only [left, Function.update_of_ne hj]
    · simp only [left, held, remaining, Function.update_self]
      rw [← hbefore]
      cases hserved with
      | kept serving mem keeps less =>
        have halloc : srv'.allocated = w.config.srv.allocated := by
          have heq := heffect.allocated
          split at heq
          · rw [heq] at mem
            exact absurd rfl (Finset.mem_erase.mp mem).1
          · exact heq
        rw [halloc, ← Finset.add_sum_erase w.config.srv.allocated (Clients.held srv') hmem,
          hothers, keeps.1]
        simp only [price, cost] at less
        simp only [Clients.held]
        omega
      | gone mem job closed link =>
        have halloc : srv'.allocated = w.config.srv.allocated.erase p := by
          have heq := heffect.allocated
          split at heq
          · exact heq
          · rw [heq] at mem
            exact absurd hmem mem
        rw [halloc, hothers, link, (hinv.attends hmem hp).stage]
        simp only [Stage.effort]
        omega

end World

section Result

variable {ι : Type*} [Fintype ι] [DecidableEq ι] {w : World ι}

/-- **Every run comes to its end**: all clients have returned.  There is a step as long as one has
not, and every step makes the world cheaper. -/
theorem World.Reachable.inevitable (h : w.Reachable) :
    Inevitable World.Step (fun w => ∀ i, w.client i = .returned) w :=
  inevitable_of_measure World.measure
    (fun _ _ (hinv : World.Inv _ ∧ World.Listening _) hs =>
      ⟨⟨hinv.1.step hs, hinv.2.step hinv.1 hs⟩, World.cheaper hinv.1 hs⟩)
    (fun _ hinv hrun => hinv.1.exists_step hinv.2 hrun) ⟨h.inv, h.listening⟩

omit [DecidableEq ι] in
/-- Whose connection is in the backlog is not the owner of another one. -/
theorem World.Inv.card_lt (h : w.Inv) {i : ι} (hi : (w.link i).stage = .backlog) :
    w.config.srv.allocated.card < Fintype.card ι := by
  classical
  have hmaps : ∀ p ∈ w.config.srv.allocated, w.owner p ∈ (Finset.univ.erase i).image some := by
    intro p hp
    obtain ⟨j, hj⟩ := h.attended p hp
    refine Finset.mem_image.mpr ⟨j, Finset.mem_erase.mpr ⟨?_, Finset.mem_univ j⟩, hj.owner.symm⟩
    rintro rfl
    have hstage := hj.stage
    rw [hi] at hstage
    cases hstage
  have hinj : ∀ p ∈ w.config.srv.allocated, ∀ q ∈ w.config.srv.allocated,
      w.owner p = w.owner q → p = q := h.distinct
  calc w.config.srv.allocated.card
      ≤ ((Finset.univ.erase i).image some).card :=
        Finset.card_le_card_of_injOn w.owner hmaps fun p hp q hq => hinj p hp q hq
    _ ≤ (Finset.univ.erase i).card := Finset.card_image_le
    _ < Fintype.card ι := Finset.card_erase_lt_of_mem (Finset.mem_univ i)

/-- With no more clients than connections nobody is refused. -/
theorem World.Reachable.not_refused (h : w.Reachable) (hcard : Fintype.card ι ≤ clientConNum)
    (i : ι) : (w.link i).stage ≠ .refused := by
  induction h generalizing i with
  | init h =>
    rw [h.link i]
    simp [Link.unconnected]
  | @step w w' h hs ih =>
    cases hs with
    | @client j act c l hc hl =>
      by_cases hij : i = j
      · subst hij
        simp only [Function.update_self]
        rw [(Link.client_bears hl).stage]
        split
        · simp
        · exact ih i
      · simp only [Function.update_of_ne hij]
        exact ih i
    | wait hw hs hready => exact ih i
    | dispatched hw => exact ih i
    | @accept srv srv' events j p hw hs hi hp =>
      by_cases hij : i = j
      · subst hij
        simp
      · simp only [Function.update_of_ne hij]
        exact ih i
    | @refuse srv srv' events j hw hs hi hfull =>
      have hsrv : w.config.srv = srv := by rw [hw]
      have hlt := h.inv.card_lt hi
      rw [← hsrv, h.inv.server.inv.srv.heap.size_eq_card, h.inv.server.capacity] at hfull
      omega
    | @serve srv srv' events j p l hw hs hp hl =>
      by_cases hij : i = j
      · subst hij
        simp only [Function.update_self]
        obtain ⟨-, hserved⟩ := h.inv.served hw hs hp hl
        cases hserved with
        | kept serving mem keeps less =>
          rw [keeps.1]
          exact ih i
        | gone mem job closed link =>
          rw [link]
          simp
      · simp only [Function.update_of_ne hij]
        exact ih i

/-- **Every `recv_line` returns, and it returns the right reply**, unless the server had as many
connections as it has room for.  Then it has refused the client, which cannot happen when
there are not more clients. -/
theorem recvLine_right (h : w.Reachable) :
    (∀ i job s dist r ret c l, w.Returns i job s dist r ret c l →
      (w.link i).stage ≠ .refused → w.Right i job s dist r ret c l) ∧
    (Fintype.card ι ≤ clientConNum → ∀ i, (w.link i).stage ≠ .refused) ∧
    Inevitable World.Step (fun w => ∀ i, w.client i = .returned) w :=
  ⟨fun _ _ _ _ _ _ _ _ hret hopen => h.inv.right hret hopen, h.not_refused, h.inevitable⟩

/-- The client has something to do yet. -/
def Process.Busy : Process → Prop
  | .connecting todo => todo ≠ []
  | .idle todo => todo ≠ []
  | .calling _ _ _ _ => True
  | .returned => False

/-- A `send` that does not fail leaves the client in its function. -/
theorem busy_afterSend {handler : ℤ → Locals → Option Locals} (job : Exchange) (s : Locals)
    (hsent : (handler 0 s).isSome) (dist : ℕ) (todo : List Exchange) (k : ℕ) :
    (Process.afterSend handler job s dist todo (.count k)).Busy := by
  obtain ⟨s', hs'⟩ := Option.isSome_iff_exists.mp hsent
  unfold Process.afterSend Proxy.sendAll
  by_cases hmore : dist + min k (s.pos - dist) < s.pos
  · simp only [if_pos hmore]
    trivial
  · simp only [if_neg hmore, hs']
    trivial

omit [Fintype ι] in
/-- A client is done with its last exchange when a `recv_line` of it returns. -/
theorem World.Step.busy_or_returns {w w' : World ι} (hs : w.Step w') {i : ι}
    (hbusy : (w.client i).Busy) : (w'.client i).Busy ∨
      ∃ job s dist r ret c l, w.Returns i job s dist r ret c l := by
  cases hs with
  | @client j a c l hc hl =>
    by_cases hij : i = j
    · subst hij
      simp only [Function.update_self]
      generalize hp : w.client i = p at hc hbusy
      cases hc with
      | connect todo => exact .inl hbusy
      | enter job todo buf => exact .inl trivial
      | close => exact absurd rfl hbusy
      | sendRequest job hcall dist todo r =>
        cases r with
        | error => cases hl
        | count k => exact .inl (busy_afterSend job _ (by cases job <;> rfl) dist todo k)
      | sendPrognosis job hcall dist todo r =>
        cases r with
        | error => cases hl
        | count k => exact .inl (busy_afterSend job _ rfl dist todo k)
      | @recvReply job s hcall dist todo r hr =>
        cases hret : (recvLine s.buf dist astrologBufLen r).1 with
        | none =>
          refine .inl ?_
          unfold Process.afterRecv
          simp only [hret]
          trivial
        | some ret =>
          have hstep : (w.client i).Step (.received r) (.afterRecv job s dist todo r) := by
            rw [hp]
            exact .recvReply job hcall dist todo hr
          exact .inr ⟨job, s, dist, r, ret, _, l, ⟨todo, hp⟩, hstep, hl, hret⟩
    · simp only [Function.update_of_ne hij]
      exact .inl hbusy
  | wait hw hs hready => exact .inl hbusy
  | dispatched hw => exact .inl hbusy
  | accept hw hs hi hp => exact .inl hbusy
  | refuse hw hs hi hfull => exact .inl hbusy
  | serve hw hs hp hl => exact .inl hbusy

/-- So every client that has something to do comes to a `recv_line` that returns. -/
theorem World.Reachable.exists_returns (h : w.Reachable) {i : ι} (hbusy : (w.client i).Busy) :
    ∃ v : World ι, v.Reachable ∧
      ∃ job s dist r ret c l, v.Returns i job s dist r ret c l := by
  obtain ⟨t, hrun, hend⟩ := h.inevitable.exists_run
  have hidle : ¬ (t.client i).Busy := by
    rw [hend i]
    exact id
  induction hrun using Relation.ReflTransGen.head_induction_on with
  | refl => exact absurd hbusy hidle
  | head hs _ ih =>
    rcases hs.busy_or_returns hbusy with hbusy' | hret
    · exact ih (h.step hs) hbusy'
    · exact ⟨_, h, hret⟩

end Result

/-! ## Worlds to look at -/

section Samples

/-- The server before its loop, and clients with these exchanges to make. -/
def sampleWorld {ι : Type*} (todo : ι → List Exchange) : World ι where
  config := ⟨.epollWait, sampleBoot⟩
  client := fun i => .connecting (todo i)
  link := fun _ => .unconnected
  owner := fun _ => none
  began := fun _ => 0

theorem sampleWorld_initial {ι : Type*} (todo : ι → List Exchange) :
    (sampleWorld todo).Initial := by
  have hboot : Astrologer.Initial 3 sampleBoot :=
    ⟨⟨some fun _ => 0, rfl⟩, rfl, fun _ => rfl, rfl, rfl⟩
  exact ⟨⟨3, sampleBoot, hboot, rfl⟩, fun i => ⟨todo i, rfl⟩, fun _ => rfl⟩

def sampleAsking : Exchange := .ordinary ⟨0, Nat.zero_lt_succ _⟩

/-- A star, and somebody who asks for his horoscope. -/
def sampleCouple : World (Fin 2) :=
  sampleWorld ![[.star ⟨0, Nat.zero_lt_succ _, 7, Nat.le_of_ble_eq_true rfl⟩], [sampleAsking]]

/-- The second one comes to a `recv_line` that returns, and it returns the right reply. -/
theorem sampleCouple_right : ∃ w : World (Fin 2), w.Reachable ∧
    (∃ i job s dist r ret c l, i = Fin.last 1 ∧ w.Returns i job s dist r ret c l ∧
      w.Right i job s dist r ret c l) ∧
    Inevitable World.Step (fun w => ∀ i, w.client i = .returned) w := by
  have hstart : sampleCouple.Reachable := .init (sampleWorld_initial _)
  have hcard : Fintype.card (Fin 2) ≤ clientConNum := Nat.le_of_ble_eq_true rfl
  obtain ⟨w, hw, job, s, dist, r, ret, c, l, hret⟩ :=
    hstart.exists_returns (i := Fin.last 1) (List.cons_ne_nil sampleAsking [])
  obtain ⟨hright, hopen, hends⟩ := recvLine_right hw
  exact ⟨w, hw, ⟨_, job, s, dist, r, ret, c, l, rfl, hret,
    hright _ _ _ _ _ _ _ _ hret (hopen hcard _)⟩, hends⟩

end Samples

/-! One client more than the server has room for. -/

section Crowd

/-- A client connects, and `epoll_wait` reports it. -/
theorem World.Reachable.knock {ι : Type*} [DecidableEq ι] {w : World ι} (h : w.Reachable)
    (hpc : w.config.pc = .epollWait) {i : ι} {todo : List Exchange}
    (hi : w.client i = .connecting todo) : ∃ w' : World ι, w'.Reachable ∧
      w'.config.pc = .dispatch [none] ∧
      w'.config.srv.allocated = w.config.srv.allocated ∧ (w'.link i).stage = .backlog ∧
      w'.client = Function.update w.client i (.idle todo) := by
  have hconnect : (w.client i).Step .connect (.idle todo) := by
    rw [hi]
    exact .connect todo
  have hclient := h.step (.client hconnect rfl)
  obtain ⟨listenSocket, hlistens⟩ := hclient.listening.listens
  have hone : 1 ≤ clientConNum := by decide
  have hreports : w.config.srv.Reports [none] :=
    ⟨[listenSocket], List.nodup_singleton _, hone, .cons ⟨_, hlistens.watched⟩ .nil⟩
  have hw : w.config = ⟨.epollWait, w.config.srv⟩ := by rw [← hpc]
  have hs := Astrologer.Step.waitEvents w.config.srv (answering []) (List.cons_ne_nil none [])
    hreports
  have hwait := hclient.step (.wait hw hs fun e he => by
    rw [List.mem_singleton.mp he]
    exact ⟨i, by simp only [Function.update_self]⟩)
  refine ⟨_, hwait, rfl, ?_, ?_, rfl⟩
  · dsimp only
    rw [minTimeout_eq]
    rfl
  · simp only [Function.update_self]

/-- A client takes a step. -/
theorem World.Reachable.act {ι : Type*} [DecidableEq ι] {w : World ι} (h : w.Reachable) {i : ι}
    {act : Act} {c : Process} {l : Link} (hc : (w.client i).Step act c)
    (hl : (w.link i).client act = some l) :
    ∃ w' : World ι, w'.Reachable ∧ w'.client i = c ∧ w'.link i = l :=
  ⟨_, h.step (.client hc hl), Function.update_self _ _ _, Function.update_self _ _ _⟩

/-- So many clients are connected and have not said anything, and the others have not come
yet. -/
structure Crowd (n : ℕ) (w : World (Fin (clientConNum + 1))) : Prop where
  reachable : w.Reachable
  waiting : w.config.pc = .epollWait
  connected : w.config.srv.allocated.card = n
  coming : ∀ i, n ≤ i.val → w.client i = .connecting [sampleAsking]

theorem exists_crowd (n : ℕ) (hn : n ≤ clientConNum) : ∃ w, Crowd n w := by
  induction n with
  | zero => exact ⟨sampleWorld fun _ => [sampleAsking], .init (sampleWorld_initial _), rfl, rfl,
      fun _ _ => rfl⟩
  | succ n ih =>
    obtain ⟨w, hw⟩ := ih (Nat.le_of_succ_le hn)
    obtain ⟨i, hi⟩ : ∃ i : Fin (clientConNum + 1), i.val = n :=
      ⟨⟨n, Nat.lt_succ_of_lt hn⟩, rfl⟩
    obtain ⟨v, hv, hpc, halloc, hstage, hclient⟩ :=
      hw.reachable.knock hw.waiting (hw.coming i hi.ge)
    have hinv := hv.inv.server.inv.srv
    obtain ⟨listenSocket, hlistens⟩ := hv.listening.listens
    have hroom : v.config.srv.heap.size < v.config.srv.heap.capacity := by
      rw [hinv.heap.size_eq_card, halloc, hw.connected, hv.inv.server.capacity]
      exact hn
    obtain ⟨srv', p, hs, hp⟩ := exists_accept hinv (hlistens.exists_fd hinv) hroom []
    have hconfig : v.config = ⟨.dispatch [none], v.config.srv⟩ := by rw [← hpc]
    have haccept := hv.step (.accept hconfig hs hstage hp)
    refine ⟨_, haccept.step (.dispatched rfl), rfl, ?_, fun j hj => ?_⟩
    · cases (admitted_of_step hinv hs).2 with
      | refused _ full => exact absurd full (Nat.not_le.mpr hroom)
      | created p' _ _ _ fresh allocated =>
        rw [halloc] at fresh
        show srv'.allocated.card = n + 1
        rw [allocated, halloc, Finset.card_insert_of_notMem fresh, hw.connected]
    · have hji : j ≠ i := by
        rintro rfl
        omega
      show v.client j = _
      rw [hclient, Function.update_of_ne hji]
      exact hw.coming j (Nat.le_of_succ_le hj)

/-- Everybody is connected, and the last one is refused. -/
theorem exists_refused : ∃ (w : World (Fin (clientConNum + 1))) (i : Fin (clientConNum + 1)),
    w.Reachable ∧ (w.link i).stage = .refused ∧ (w.link i).down = [] ∧
      w.client i = .idle [sampleAsking] := by
  obtain ⟨w, hw⟩ := exists_crowd clientConNum (Nat.le_refl _)
  obtain ⟨i, hi⟩ : ∃ i : Fin (clientConNum + 1), i.val = clientConNum :=
    ⟨⟨clientConNum, Nat.lt_succ_self _⟩, rfl⟩
  obtain ⟨v, hv, hpc, halloc, hstage, hclient⟩ :=
    hw.reachable.knock hw.waiting (hw.coming i hi.ge)
  have hinv := hv.inv.server.inv.srv
  obtain ⟨listenSocket, hlistens⟩ := hv.listening.listens
  have hfull : v.config.srv.heap.size ≥ v.config.srv.heap.capacity := by
    rw [hinv.heap.size_eq_card, halloc, hw.connected, hv.inv.server.capacity]
  obtain ⟨srv', hs⟩ := exists_refuse (hlistens.exists_fd hinv) hfull []
  have hconfig : v.config = ⟨.dispatch [none], v.config.srv⟩ := by rw [← hpc]
  have hidle : v.client i = .idle [sampleAsking] := by
    rw [hclient, Function.update_self]
  have hdown := ((hv.inv.waiting i (Or.inr hstage)).resting (by rw [hidle]; rfl)).2.2.2
  refine ⟨_, i, hv.step (.refuse hconfig hs hstage hfull), ?_, ?_, hidle⟩
  · simp only [Function.update_self]
  · simp only [Function.update_self]
    exact hdown

/-- A request is sent in one piece, and then the client waits for the reply. -/
theorem sent_whole (buf : CharArray) : ∃ bs s, bs ≠ [] ∧ s.call = .recvReply ∧
    (Process.calling sampleAsking (sampleAsking.enter buf) 0 []).Step (.sent bs)
      (.calling sampleAsking s 0 []) := by
  obtain ⟨s, hs⟩ : ∃ s, s = sampleAsking.enter buf := ⟨_, rfl⟩
  have hoffers : Offers s 0 sampleAsking.request := hs ▸ sampleAsking.enter_offers buf
  have hcall : s.call = .sendRequest := by
    rw [hs]
    rfl
  rw [← hs]
  have hfits := sampleAsking.request_length_le
  have hstep := Process.Step.sendRequest sampleAsking hcall 0 [] (.count astrologBufLen)
  rcases hoffers.sendAll astrologBufLen with ⟨-, hmore, -⟩ | ⟨hret, -⟩
  · have hleft := hmore.left
    rw [hoffers.length] at hfits
    omega
  · have hafter : Process.afterSend sampleAsking.requestSent sampleAsking s 0 []
        (.count astrologBufLen) =
        .calling sampleAsking ⟨s.buf.poke (s.pos - 1) 0, s.pos, .recvReply⟩ 0 [] := by
      unfold Process.afterSend
      rw [hret]
      rfl
    rw [hafter] at hstep
    refine ⟨_, _, fun hnil => hoffers.slice_ne_nil ?_, rfl, hstep⟩
    rw [List.take_eq_nil_iff] at hnil ⊢
    exact Or.inr (hnil.resolve_left (by decide))

/-- **The last one gets no reply**: his `recv_line` returns `0`. -/
theorem crowd_not_right : ¬ ∀ w : World (Fin (clientConNum + 1)), w.Reachable →
    ∀ i job s dist r ret c l, w.Returns i job s dist r ret c l →
      w.Right i job s dist r ret c l := by
  intro hall
  obtain ⟨w, i, hw, hstage, hdown, hidle⟩ := exists_refused
  have henter : (w.client i).Step .enter
      (.calling sampleAsking (sampleAsking.enter (CArray.replicate _ 0)) 0 []) := by
    rw [hidle]
    exact .enter _ _ _
  obtain ⟨v, hv, hclient, hlink⟩ := hw.act henter rfl
  obtain ⟨bs, s, hbs, hs, hsend⟩ := sent_whole (CArray.replicate _ 0)
  have hsent : (v.link i).client (.sent bs) = some { v.link i with up := (v.link i).up ++ bs } :=
    if_neg hbs
  obtain ⟨u, hu, hclient, hlink'⟩ := hv.act (hclient ▸ hsend) hsent
  have hroom : ∀ bs, RecvResult.bytes [] = .bytes bs → bs.length ≤ astrologBufLen - 0 := by
    intro bs hbs
    obtain rfl := RecvResult.bytes.inj hbs
    exact Nat.zero_le _
  have hreceive : (u.link i).client (.received (.bytes [])) = some { u.link i with down := [] } := by
    refine Option.map_eq_some_iff.mpr ⟨[], Pipe.receive_eq_some.mpr (Or.inr ⟨rfl, ?_, rfl, ?_⟩), rfl⟩
    · rw [hlink', hlink]
      exact hdown
    · rw [hlink', hlink, Link.hungUp, hstage]
      decide
  have hreturns : u.Returns i sampleAsking s 0 (.bytes []) 0
      (.afterRecv sampleAsking s 0 [] (.bytes [])) { u.link i with down := [] } :=
    ⟨⟨[], hclient⟩, hclient ▸ .recvReply sampleAsking hs 0 [] hroom, hreceive, rfl⟩
  obtain ⟨p, -, -, reply, hanswered, hlen, -⟩ := (hall u hu _ _ _ _ _ _ _ _ hreturns).reply
  have hpos := List.length_pos_iff.mpr hanswered.line.ne_nil
  omega

end Crowd

end Astrologer.Clients
