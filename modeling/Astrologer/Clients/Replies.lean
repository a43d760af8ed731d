import Astrologer.Clients.Serving

/-!
# Every reply is the right one

The invariant of a world (`World.Inv`) puts the exchanges together.  Every connection of the
server has an owner, no two the same, and the server is matched with the client of it; a
client whose connection has not been accepted is matched with a server that has done
nothing yet.  A descriptor that `epoll` has reported and that has not been served is still
ready, since nobody else receives from it.

So when `recv_line` returns, it returns a whole line, there is nothing behind the line, and
the line is the reply to the exchange that the client is in.
-/

namespace Astrologer.Clients

open Lines ServerStateType FdOperation
open Proxy (recvLine)

/-! ## Steps of a client

What a client does is seen by its connection only, so the match is kept from the client's side
with no server in sight.  A `send` moves the front of what is unsent into `up`, a `recv` moves the
front of `down` into what the client has got, and the last `recv` of a reply ends the exchange.
The word between the two sides is the same before and behind each of these. -/

section Client

variable {u : Prop} {a : Exchange → List Byte → Prop} {phase : Phase} {unread : List Byte}
  {l l' : Link} {c c' : Process}

theorem unsent_of_job_eq_none (h : c.job = none) : c.unsent = [] := by
  cases c with
  | connecting todo => rfl
  | idle todo => rfl
  | calling job s dist todo => cases h
  | returned => rfl

/-- A client sends. -/
theorem Matched.sent (h : Matched u a phase unread l c) (hinv : c.Inv) {bs : List Byte}
    (hstep : c.Step (.sent bs) c') (hl : l.client (.sent bs) = some l') :
    Matched u a phase unread l' c' := by
  have hsent := hstep.sent hinv
  have hne : bs ≠ [] := by
    intro hnil
    rw [Link.client, if_pos hnil] at hl
    cases hl
  rw [Link.client, if_neg hne] at hl
  obtain rfl := Option.some.inj hl
  have hunsent : c.unsent ≠ [] := by
    rw [hsent.unsent]
    exact List.append_ne_nil_of_left_ne_nil hne _
  cases h with
  | rest hjob => exact absurd (unsent_of_job_eq_none hjob) hunsent
  | request hjob hwait htext hdown hgot =>
    refine .request (hsent.job.trans hjob) hwait ?_ hdown hsent.got.2
    rw [List.append_assoc l.up, ← hsent.unsent]
    exact htext
  | prognosis hjob hwait htext hdown hgot =>
    refine .prognosis (hsent.job.trans hjob) hwait ?_ hdown hsent.got.2
    rw [List.append_assoc l.up, ← hsent.unsent]
    exact htext
  | reply _ hnil => exact absurd hnil hunsent
  | replied _ hnil => exact absurd hnil hunsent

/-- **A client receives**: a part of the reply, or the last of it.  Nothing but the reply is on
its way, so `recv_line` cannot receive too much. -/
theorem Matched.received (h : Matched u a phase unread l c) (hinv : c.Inv) (hlegal : phase.Legal)
    (hans : ∀ job reply, a job reply → IsLine delimiter reply ∧ reply.length ≤ astrologBufLen)
    (hopen : l.hungUp = false) {r : RecvResult} (hstep : c.Step (.received r) c')
    (hl : l.client (.received r) = some l') :
    ∃ bs job s dist, r = .bytes bs ∧ c = .calling job s dist c.todo ∧
      ((Matched u a phase unread l' c' ∧ c'.Inv ∧ c'.job = some job ∧ c'.todo = c.todo ∧
          (recvLine s.buf dist astrologBufLen r).1 = none) ∨
        (∃ reply, phase = .firstLine [] ∧ unread = [] ∧ l'.up = [] ∧ l'.down = [] ∧
          c' = .idle c.todo ∧ Replied job s dist bs reply ∧ a job reply)) := by
  cases r with
  | error => cases hl
  | bytes bs =>
    obtain ⟨down, hreceive, rfl⟩ := Option.map_eq_some_iff.mp hl
    rw [hopen] at hreceive
    rcases Pipe.receive_eq_some.mp hreceive with ⟨hne, hpipe⟩ | ⟨-, -, -, hfalse⟩
    · have hdown : l.down ≠ [] := by
        rw [hpipe]
        exact List.append_ne_nil_of_left_ne_nil hne _
      cases h with
      | rest _ _ hnil => exact absurd hnil hdown
      | request _ _ _ hnil => exact absurd hnil hdown
      | prognosis _ _ _ hnil => exact absurd hnil hdown
      | @reply pending _ _ job reply hjob hunsent hup htext hanswer =>
        obtain ⟨hline, hfit⟩ := hans _ _ hanswer
        rw [hpipe, List.append_assoc] at htext
        obtain ⟨job', s, dist, hc, hcases⟩ := hstep.received hinv hne hline hfit htext
        obtain rfl : job' = job := by
          rw [hc] at hjob
          exact Option.some.inj hjob
        rcases hcases with ⟨-, ⟨s', dist', hc'⟩, hinv', hnone, hunsent', hgot'⟩ | ⟨hnil, -, -⟩
        · refine ⟨bs, job', s, dist, rfl, hc, Or.inl ⟨?_, hinv', by rw [hc']; rfl, by rw [hc']; rfl,
            hnone⟩⟩
          refine .reply (by rw [hc']; rfl) hunsent' hup ?_ hanswer
          rw [hgot', List.append_assoc]
          exact htext
        · exact absurd (List.append_eq_nil_iff.mp hnil).2 hlegal.1
      | @replied _ _ job reply hjob hunsent hup htext hanswer =>
        obtain ⟨hline, hfit⟩ := hans _ _ hanswer
        rw [hpipe] at htext
        obtain ⟨job', s, dist, hc, hcases⟩ := hstep.received hinv hne hline hfit htext
        obtain rfl : job' = job := by
          rw [hc] at hjob
          exact Option.some.inj hjob
        rcases hcases with ⟨-, ⟨s', dist', hc'⟩, hinv', hnone, hunsent', hgot'⟩ |
          ⟨hnil, hc', hreplied⟩
        · refine ⟨bs, job', s, dist, rfl, hc, Or.inl ⟨?_, hinv', by rw [hc']; rfl, by rw [hc']; rfl,
            hnone⟩⟩
          refine .replied (by rw [hc']; rfl) hunsent' hup ?_ hanswer
          rw [hgot', List.append_assoc]
          exact htext
        · exact ⟨bs, job', s, dist, rfl, hc, Or.inr ⟨reply, rfl, rfl, hup, hnil, hc', hreplied,
            hanswer⟩⟩
    · cases hfalse

/-- A client enters its next function. -/
theorem Matched.enter (h : Matched u a phase unread l c) {u' : Prop}
    {a' : Exchange → List Byte → Prop} (hu : u') (hstep : c.Step .enter c')
    (hl : l.client .enter = some l') : Matched u' a' phase unread l' c' := by
  obtain rfl : l = l' := Option.some.inj hl
  obtain ⟨job, todo, buf, rfl, rfl⟩ := hstep.of_enter
  obtain ⟨rfl, rfl, hup, hdown⟩ := h.resting rfl
  refine .request rfl hu ?_ hdown rfl
  rw [hup]
  rfl

/-- What a step of a client leads from and to, by what is seen of it: it connects once, at the
beginning, and it closes its socket to return. -/
structure Moves (act : Act) (c c' : Process) : Prop where
  running : c ≠ .returned
  connect : act = .connect ↔ ∃ todo, c = .connecting todo
  connected : ∀ todo, c' ≠ .connecting todo
  close : act = .close ↔ c' = .returned

theorem Process.Step.moves {act : Act} (h : c.Step act c') : Moves act c c' := by
  have hresume : ∀ (job : Exchange) (todo : List Exchange) (s : Option Locals),
      (∀ t, Process.resume job todo s ≠ .connecting t) ∧
        Process.resume job todo s ≠ .returned := by
    intro job todo s
    cases s with
    | none => exact ⟨(fun t h => by cases h), (fun h => by cases h)⟩
    | some s => exact ⟨(fun t h => by cases h), (fun h => by cases h)⟩
  have hsend : ∀ (handler : ℤ → Locals → Option Locals) (job : Exchange) (s : Locals)
      (dist : ℕ) (todo : List Exchange) (r : SendResult),
      (∀ t, Process.afterSend handler job s dist todo r ≠ .connecting t) ∧
        Process.afterSend handler job s dist todo r ≠ .returned := by
    intro handler job s dist todo r
    unfold Process.afterSend
    dsimp only
    split
    · exact ⟨(fun t h => by cases h), (fun h => by cases h)⟩
    · exact hresume _ _ _
  have hsends : ∀ (s : Locals) (dist : ℕ) (r : SendResult),
      s.sends dist r ≠ .connect ∧ s.sends dist r ≠ .close := by
    intro s dist r
    cases r with
    | error => exact ⟨by simp [Locals.sends], by simp [Locals.sends]⟩
    | count k => exact ⟨by simp [Locals.sends], by simp [Locals.sends]⟩
  cases h with
  | connect todo => exact ⟨by simp, by simp, by simp, by simp⟩
  | enter job todo buf => exact ⟨by simp, by simp, by simp, by simp⟩
  | close => exact ⟨by simp, by simp, by simp, by simp⟩
  | sendRequest job hs dist todo r =>
    obtain ⟨hcon, hret⟩ := hsend job.requestSent job _ dist todo r
    exact ⟨by simp, by simp [(hsends _ dist r).1], hcon, by simp [(hsends _ dist r).2, hret]⟩
  | sendPrognosis job hs dist todo r =>
    obtain ⟨hcon, hret⟩ := hsend prognosisSent job _ dist todo r
    exact ⟨by simp, by simp [(hsends _ dist r).1], hcon, by simp [(hsends _ dist r).2, hret]⟩
  | @recvReply job s hs dist todo r hr =>
    have hrecv : (∀ t, Process.afterRecv job s dist todo r ≠ .connecting t) ∧
        Process.afterRecv job s dist todo r ≠ .returned := by
      unfold Process.afterRecv
      dsimp only
      split
      · exact ⟨(fun t h => by cases h), (fun h => by cases h)⟩
      · split <;> exact ⟨(fun t h => by cases h), (fun h => by cases h)⟩
    exact ⟨by simp, by simp, hrecv.1, by simp [hrecv.2]⟩

/-- A call of `recv` leaves `recv_line` in the middle of a line, or it is the last one. -/
theorem Process.Step.inv_received {r : RecvResult} (h : c.Step (.received r) c') (hinv : c.Inv) :
    c'.Inv := by
  obtain ⟨job, s, dist, todo, hs, rfl, hr, rfl⟩ := h.of_received
  have hidle : ∀ bytes : ℤ, Process.Inv
      (if exitStatus bytes ≠ 0 then .idle [] else .idle todo) := by
    intro bytes
    split <;> exact trivial
  simp only [Process.Inv, hs] at hinv
  unfold Process.afterRecv
  dsimp only
  cases r with
  | error => exact hidle (-1)
  | bytes bs =>
    by_cases hnil : bs = []
    · have hcall : recvLine s.buf dist astrologBufLen (.bytes bs) = (some 0, s.buf, dist) := by
        rw [recvLine, hnil, List.take_nil]
        exact if_pos rfl
      rw [hcall]
      exact hidle 0
    · have hroom := hinv.room
      have hlen : dist + bs.length ≤ astrologBufLen := by
        have hbs := hr bs rfl
        omega
      obtain ⟨hcall, hslice⟩ := hinv.recvLine_bytes hnil hlen
      rw [hcall]
      cases hret : Proxy.lineRet (s.buf.slice 0 dist ++ bs) with
      | some bytes => exact hidle bytes
      | none =>
        obtain ⟨hmem, hfull⟩ := Proxy.lineRet_eq_none hret
        rw [List.length_append, hinv.length_text] at hfull
        simp only [Process.Inv, hs]
        exact ⟨Nat.lt_of_le_of_ne hlen hfull, hslice.symm ▸ hmem⟩

theorem Process.Step.inv {act : Act} (h : c.Step act c') (hinv : c.Inv)
    (hfail : act ≠ .sendFailed) : c'.Inv := by
  cases act with
  | connect =>
    obtain ⟨todo, -, rfl⟩ := h.of_connect
    exact trivial
  | enter =>
    obtain ⟨job, todo, buf, -, rfl⟩ := h.of_enter
    exact job.enter_offers buf
  | sent bs => exact (h.sent hinv).inv
  | sendFailed => exact absurd rfl hfail
  | received r => exact h.inv_received hinv
  | close =>
    rw [h.of_close.2]
    exact trivial

/-- What a step of the client does to its connection: only `connect` and `close` change its state,
nothing that was sent is taken back, and no `send` of a client fails. -/
structure Bears (act : Act) (l l' : Link) : Prop where
  stage : l'.stage = if act = .connect then .backlog else l.stage
  closed : l'.closed = if act = .close then true else l.closed
  up : l.up ≠ [] → l'.up ≠ []
  failed : act ≠ .sendFailed

theorem Link.client_bears {act : Act} (h : l.client act = some l') : Bears act l l' := by
  cases act with
  | connect =>
    cases h
    exact ⟨rfl, rfl, id, by simp⟩
  | enter =>
    cases h
    exact ⟨rfl, rfl, id, by simp⟩
  | sent bs =>
    rw [Link.client] at h
    split at h
    · cases h
    · cases h
      exact ⟨rfl, rfl, fun hup => List.append_ne_nil_of_left_ne_nil hup _, by simp⟩
  | sendFailed => cases h
  | received r =>
    cases r with
    | error => cases h
    | bytes bs =>
      obtain ⟨down, -, rfl⟩ := Option.map_eq_some_iff.mp h
      exact ⟨rfl, rfl, id, by simp⟩
  | close =>
    cases h
    exact ⟨rfl, rfl, id, by simp⟩

/-- **A step of a client** keeps client and server matched, by the cases of what is seen of it.
When it enters its next function a new exchange begins, and the record so far is forgotten. -/
theorem Matched.step (h : Matched u a phase unread l c) (hinv : c.Inv) (hlegal : phase.Legal)
    (hans : ∀ job reply, a job reply → IsLine delimiter reply ∧ reply.length ≤ astrologBufLen)
    (hopen : l.hungUp = false) {act : Act} (hstep : c.Step act c') (hl : l.client act = some l')
    {u' : Prop} {a' : Exchange → List Byte → Prop} (hu : act = .enter → u')
    (hkeep : act ≠ .enter → (u → u') ∧ ∀ job reply, a job reply → a' job reply) :
    Matched u' a' phase unread l' c' := by
  cases act with
  | connect =>
    obtain ⟨todo, rfl, rfl⟩ := hstep.of_connect
    obtain ⟨rfl, rfl, hup, hdown⟩ := h.resting rfl
    cases hl
    exact .rest rfl hup hdown
  | enter => exact h.enter (hu rfl) hstep hl
  | sent bs =>
    obtain ⟨hu', ha'⟩ := hkeep (by simp)
    exact (h.sent hinv hstep hl).imp hu' ha'
  | sendFailed => cases hl
  | received r =>
    obtain ⟨hu', ha'⟩ := hkeep (by simp)
    obtain ⟨bs, job, s, dist, -, -, ⟨hmatched, -⟩ | ⟨reply, rfl, rfl, hup, hdown, rfl, -⟩⟩ :=
      h.received hinv hlegal hans hopen hstep hl
    · exact hmatched.imp hu' ha'
    · exact .rest rfl hup hdown
  | close =>
    obtain ⟨rfl, rfl⟩ := hstep.of_close
    obtain ⟨rfl, rfl, hup, hdown⟩ := h.resting rfl
    cases hl
    exact .rest rfl hup hdown

end Client

/-! ## The invariant

The steps of the world are taken one at a time.  A step of a client concerns its own connection. A
call of the server concerns one connection too, and what it leaves alone is what `Untouched` says;
the exchanges of the others depend on nothing else (`Untouched.matched`, `Untouched.readable`).
For the connection itself the call is followed round by round in `Clients.Serving`, and here its
result is put in the place of the old state. -/

/-- A client and its end of the connection say the same: it has not connected when the connection
is offline, its socket is closed when it has returned, and the server removes it only then. -/
structure Sane (l : Link) (c : Process) : Prop where
  inv : c.Inv
  closed : l.closed = true ↔ c = .returned
  offline : l.stage = .offline ↔ ∃ todo, c = .connecting todo
  ended : l.stage = .ended → c = .returned

theorem Sane.step {l l' : Link} {c c' : Process} (h : Sane l c) {act : Act}
    (hstep : c.Step act c') (hl : l.client act = some l') : Sane l' c' := by
  have hmoves := hstep.moves
  have hbears := Link.client_bears hl
  have hopen : l.closed = false := Bool.eq_false_iff.mpr fun hcl => hmoves.running (h.closed.mp hcl)
  refine ⟨hstep.inv h.inv hbears.failed, ?_, ?_, fun hended => ?_⟩
  · rw [hbears.closed, ← hmoves.close, hopen]
    by_cases hclose : act = .close <;> simp [hclose]
  · refine iff_of_false (fun hoff => ?_) fun hcon => hcon.elim hmoves.connected
    rw [hbears.stage] at hoff
    by_cases hcon : act = .connect
    · rw [if_pos hcon] at hoff
      cases hoff
    · rw [if_neg hcon] at hoff
      exact hcon (hmoves.connect.mpr (h.offline.mp hoff))
  · rw [hbears.stage] at hended
    by_cases hcon : act = .connect
    · rw [if_pos hcon] at hended
      cases hended
    · rw [if_neg hcon] at hended
      exact absurd (h.ended hended) hmoves.running

variable {ι : Type*}

/-- The live connection `p` of the server is that of the client `i`, and the two are matched since
the client began its exchange. -/
structure World.Attends (w : World ι) (p : Ptr) (i : ι) : Prop where
  owner : w.owner p = some i
  stage : (w.link i).stage = .accepted
  began : w.began i ≤ w.config.srv.trace.length
  matched : MatchedAt p (w.began i) w.config.srv.trace (w.config.srv.session p).phase
    (w.config.srv.session p).unread (w.link i) (w.client i)

/-- **The invariant of a world.**  The server is in a state of its own runs, at its loop.  Every
connection that it has accepted and not removed has one live pointer, every live pointer one
client, and the two are matched; a client that it has not accepted has sent no more than its
request.  What `epoll_wait` has reported and is not yet handled is still readable. -/
structure World.Inv (w : World ι) : Prop where
  server : Astrologer.Reachable w.config
  looping : w.config.pc.looping = true
  sane : ∀ i, Sane (w.link i) (w.client i)
  waiting : ∀ i, (w.link i).stage = .offline ∨ (w.link i).stage = .backlog →
    Matched True (fun _ _ => False) (.firstLine []) [] (w.link i) (w.client i)
  accepted : ∀ i, (w.link i).stage = .accepted →
    ∃ p ∈ w.config.srv.allocated, w.owner p = some i
  attended : ∀ p ∈ w.config.srv.allocated, ∃ i, w.Attends p i
  distinct : ∀ p ∈ w.config.srv.allocated, ∀ q ∈ w.config.srv.allocated,
    w.owner p = w.owner q → p = q
  readable : ∀ events, w.config.pc = .dispatch events → ∀ p i, some p ∈ events →
    w.owner p = some i → Readable p w.config.srv (w.link i)

section Steps

variable {w w' : World ι}

theorem World.Inv.attends (h : w.Inv) {p : Ptr} (hp : p ∈ w.config.srv.allocated) {i : ι}
    (hi : w.owner p = some i) : w.Attends p i := by
  obtain ⟨j, hj⟩ := h.attended p hp
  obtain rfl : j = i := Option.some.inj (hj.owner.symm.trans hi)
  exact hj

theorem World.Inv.legal (h : w.Inv) {p : Ptr} (hp : p ∈ w.config.srv.allocated) :
    (w.config.srv.session p).phase.Legal :=
  ConnInv.legal (c := w.config.srv.ctx p) (h.server.idle p hp).conn

theorem answered_fits {p : Ptr} {b : ℕ} {trace : List ServerEvent} (job : Exchange)
    (reply : List Byte) (h : Answered p b trace job reply) :
    IsLine delimiter reply ∧ reply.length ≤ astrologBufLen := ⟨h.line, h.fits⟩

theorem hungUp_eq_false {l : Link} (h : l.stage ≠ .refused) (h' : l.stage ≠ .ended) :
    l.hungUp = false := decide_eq_false fun hor => hor.elim h h'

/-- What a call for another connection does not touch of `p`: its state, but for the deadline and
the place in the heap, and its part of the record. -/
structure Untouched (srv srv' : Server) (p : Ptr) : Prop where
  conn : (srv'.mem p).toConnState = (srv.mem p).toConnState
  trace : ∃ es, srv'.trace = srv.trace ++ es ∧ ∀ e ∈ es, serves p e = false

theorem Untouched.session {srv srv' : Server} {p : Ptr} (h : Untouched srv srv' p) :
    (srv'.session p).phase = (srv.session p).phase ∧
      (srv'.session p).unread = (srv.session p).unread := by
  refine ⟨?_, ?_⟩
  · rw [session_phase, session_phase, h.conn]
  · show (srv'.mem p).intermBuf.unread = (srv.mem p).intermBuf.unread
    rw [h.conn]

theorem Untouched.matched {srv srv' : Server} {p : Ptr} (h : Untouched srv srv' p) {b : ℕ}
    {l : Link} {c : Process}
    (hm : MatchedAt p b srv.trace (srv.session p).phase (srv.session p).unread l c) :
    MatchedAt p b srv'.trace (srv'.session p).phase (srv'.session p).unread l c := by
  obtain ⟨es, htrace, hes⟩ := h.trace
  rw [h.session.1, h.session.2, htrace]
  exact hm.imp (fun hw => hw.append hes) fun _ _ ha => ha.append hes

theorem Untouched.readable {srv srv' : Server} {p : Ptr} (h : Untouched srv srv' p) {l : Link}
    (hr : Readable p srv l) : Readable p srv' l := by
  rw [Readable, h.session.1, h.session.2]
  exact hr

theorem Untouched.of_same {srv srv' : Server} (hmem : srv'.mem = srv.mem)
    (htrace : srv'.trace = srv.trace) (p : Ptr) : Untouched srv srv' p :=
  ⟨by rw [hmem], [], by rw [htrace, List.append_nil], fun _ he => absurd he List.not_mem_nil⟩

/-- A call leaves the other connections alone. -/
theorem Untouched.of_effect {srv srv' : Server} {p q : Ptr} {es : List ServerEvent}
    (h : Effect p es srv srv') (hq : q ≠ p) : Untouched srv srv' q := by
  refine ⟨(h.others q hq).1, es, h.grows.trace, fun e he => ?_⟩
  have habout := h.grows.about e he
  cases e with
  | conn r ce =>
    obtain rfl : r = p := Option.some.inj habout
    cases ce with
    | request z => exact beq_eq_false_iff_ne.mpr (Ne.symm hq)
    | prognosis z line => exact beq_eq_false_iff_ne.mpr (Ne.symm hq)
    | recv bs => rfl
    | recvError => rfl
    | sent bs => rfl
    | sendError => rfl
  | connected r => rfl
  | removed r => rfl
  | heapCall r entry => rfl
  | removeFailed ix => rfl

/-- The owner is still served. -/
theorem World.Attends.untouched {p : Ptr} {i : ι} (h : w.Attends p i)
    (hu : Untouched w.config.srv w'.config.srv p) (howner : w'.owner p = w.owner p)
    (hlink : w'.link i = w.link i) (hclient : w'.client i = w.client i)
    (hbegan : w'.began i = w.began i) : w'.Attends p i := by
  obtain ⟨es, htrace, -⟩ := hu.trace
  refine ⟨howner.trans h.owner, hlink ▸ h.stage, ?_, ?_⟩
  · rw [hbegan, htrace, List.length_append]
    exact Nat.le_add_right_of_le h.began
  · rw [hbegan, hlink, hclient]
    exact hu.matched h.matched

/-- Nothing changes for the connections. -/
theorem World.Inv.of_same (h : w.Inv) {c : Config} (hs : Astrologer.Step w.config c)
    (hloop : c.pc.looping = true) (hmem : c.srv.mem = w.config.srv.mem)
    (halloc : c.srv.allocated = w.config.srv.allocated) (htrace : c.srv.trace = w.config.srv.trace)
    (hread : ∀ events, c.pc = .dispatch events → ∀ p i, some p ∈ events → w.owner p = some i →
      Readable p w.config.srv (w.link i)) : World.Inv { w with config := c } := by
  have hu : ∀ p, Untouched w.config.srv c.srv p := Untouched.of_same hmem htrace
  refine ⟨h.server.step hs, hloop, h.sane, h.waiting, fun i hi => ?_, fun p hp => ?_,
    fun p hp q hq => ?_, fun events hpc p i hp hi => (hu p).readable (hread events hpc p i hp hi)⟩
  · rw [halloc]
    exact h.accepted i hi
  · obtain ⟨i, hi⟩ := h.attended p (halloc ▸ hp)
    exact ⟨i, hi.untouched (hu p) rfl rfl rfl rfl⟩
  · exact h.distinct p (halloc ▸ hp) q (halloc ▸ hq)

/-- `epoll` reports what is ready. -/
theorem World.Inv.wait (h : w.Inv) {srv srv' : Server} {events : List (Option Ptr)}
    (hw : w.config = ⟨.epollWait, srv⟩)
    (hs : Astrologer.Step ⟨.epollWait, srv⟩ ⟨.dispatch events, srv'⟩)
    (hready : ∀ e ∈ events, w.Signals e) :
    World.Inv { w with config := ⟨.dispatch events, srv'⟩ } := by
  have hs' : Astrologer.Step w.config ⟨.dispatch events, srv'⟩ := hw.symm ▸ hs
  have hsrv : w.config.srv = srv := by rw [hw]
  have hsame : srv'.mem = srv.mem ∧ srv'.allocated = srv.allocated ∧ srv'.trace = srv.trace ∧
      ∀ p, some p ∈ events → p ∈ srv.allocated := by
    have hinv := (h.server.step hs').inv
    cases hs with
    | waitEvents srv k hne hr =>
      rw [minTimeout_eq] at hinv ⊢
      refine ⟨rfl, rfl, rfl, fun p hp => ?_⟩
      exact (hinv.events events rfl).2 p (List.mem_filterMap.mpr ⟨some p, hp, rfl⟩)
  obtain ⟨hmem, halloc, htrace, hlive⟩ := hsame
  refine h.of_same hs' rfl (hsrv ▸ hmem) (hsrv ▸ halloc) (hsrv ▸ htrace) fun evs hpc p i hp hi => ?_
  obtain rfl := Pc.dispatch.inj hpc
  intro hreads _
  have hidle := h.server.idle p (hsrv ▸ hlive p hp)
  have hop : (w.config.srv.mem p).op = opRead := by
    have heq := reads_session (c := w.config.srv.ctx p) hidle.conn
    exact of_decide_eq_true (heq.symm.trans hreads)
  obtain ⟨j, hj, hor⟩ := hready (some p) hp hop
  obtain rfl : j = i := Option.some.inj (hj.symm.trans hi)
  exact hor

theorem World.Inv.dispatched (h : w.Inv) {srv : Server} (hw : w.config = ⟨.dispatch [], srv⟩) :
    World.Inv { w with config := ⟨.epollWait, srv⟩ } := by
  have hs : Astrologer.Step w.config ⟨.epollWait, srv⟩ := hw.symm ▸ .dispatched srv
  have hsrv : w.config.srv = srv := by rw [hw]
  exact h.of_same hs rfl (by rw [hsrv]) (by rw [hsrv]) (by rw [hsrv]) fun events hpc => by cases hpc

/-- The exchange of a live connection, before a call for it. -/
theorem World.Attends.serving {p : Ptr} {i : ι} (h : w.Attends p i) (hinv : w.Inv)
    (hp : p ∈ w.config.srv.allocated) (k : Kernel) :
    Serving p (w.began i) (w.config.srv.withKernel k) (w.link i) (w.client i) := by
  have hidle := hinv.server.idle p hp
  refine ⟨⟨(hinv.server.inv.srv.withKernel k).heap, hp, hidle.conn⟩,
    hinv.server.store.withKernel k, h.began, h.matched, fun hjob => ?_⟩
  refine Bool.eq_false_iff.mpr fun hcl => hjob ?_
  rw [(hinv.sane i).closed.mp hcl]
  rfl

/-- What a call for a connection does. -/
theorem World.Inv.served (h : w.Inv) {srv srv' : Server} {events events' : List (Option Ptr)}
    {i : ι} {p : Ptr} {l : Link} (hw : w.config = ⟨.dispatch (some p :: events), srv⟩)
    (hs : Astrologer.Step ⟨.dispatch (some p :: events), srv⟩ ⟨.dispatch events', srv'⟩)
    (hp : w.owner p = some i)
    (hl : (srv.since srv').foldlM (Link.flow p) (w.link i) = some l) :
    (∃ es, Effect p es srv srv') ∧
      Served p (w.began i) srv srv' (w.link i) l (w.client i) := by
  have hpc : w.config.pc = .dispatch (some p :: events) := by rw [hw]
  obtain rfl : w.config.srv = srv := by rw [hw]
  have hmem : p ∈ w.config.srv.allocated := (h.server.inv.events _ hpc).2 p List.mem_cons_self
  obtain ⟨-, fuel, k, hu⟩ := called_of_step hs
  have hserving := (h.attends hmem hp).serving h hmem k
  have hcall := (h.server.callable h.looping hmem).withKernel k
  obtain ⟨⟨es, heffect⟩, hserved⟩ := hserving.updateState hcall
    ((h.server.idle.withKernel k) p hmem) (h.readable _ hpc p i List.mem_cons_self hp) hu hl
  refine ⟨⟨es, heffect.of_withKernel⟩, ?_⟩
  cases hserved with
  | kept serving mem keeps less => exact .kept serving mem keeps less
  | gone mem job closed link => exact .gone mem job closed link

theorem World.Initial.inv (h : w.Initial) : w.Inv := by
  obtain ⟨listenSocket, srv, hinit, hw⟩ := h.server
  have hnone : ∀ p, p ∉ w.config.srv.allocated := by
    intro p
    rw [hw]
    show p ∉ srv.allocated
    rw [hinit.allocated]
    exact Finset.notMem_empty p
  refine ⟨hw ▸ .init hinit, by rw [hw]; rfl, fun i => ?_, fun i _ => ?_, fun i hi => ?_,
    fun p hp => absurd hp (hnone p), fun p hp => absurd hp (hnone p), fun events hpc => ?_⟩
  · obtain ⟨todo, htodo⟩ := h.client i
    rw [h.link i, htodo]
    exact ⟨trivial, by simp [Link.unconnected], by simp [Link.unconnected],
      by simp [Link.unconnected]⟩
  · obtain ⟨todo, htodo⟩ := h.client i
    rw [h.link i, htodo]
    exact .rest rfl rfl rfl
  · rw [h.link i] at hi
    cases hi
  · rw [hw] at hpc
    cases hpc

variable [DecidableEq ι]

/-- **A step of a client.** -/
theorem World.Inv.client (h : w.Inv) {i : ι} {act : Act} {c : Process} {l : Link}
    (hc : (w.client i).Step act c) (hl : (w.link i).client act = some l) :
    World.Inv { w with
      client := Function.update w.client i c
      link := Function.update w.link i l
      began := if act = .enter then Function.update w.began i w.config.srv.trace.length
        else w.began } := by
  have hsane := h.sane i
  have hbears := Link.client_bears hl
  have hmoves := hc.moves
  have hstage : act ≠ .connect → l.stage = (w.link i).stage := fun hne => by
    rw [hbears.stage, if_neg hne]
  have hbegan : ∀ j, j ≠ i → (if act = .enter then
      Function.update w.began i w.config.srv.trace.length else w.began) j = w.began j := by
    intro j hj
    split
    · exact Function.update_of_ne hj _ _
    · rfl
  -- only a client that has not connected can connect
  have hconnect : (w.link i).stage ≠ .offline → act ≠ .connect :=
    fun hne hact => hne (hsane.offline.mpr (hmoves.connect.mp hact))
  refine ⟨h.server, h.looping, fun j => ?_, fun j hj => ?_, fun j hj => ?_, fun p hp => ?_,
    h.distinct, fun events hpc p j hp hj => ?_⟩
  · by_cases hji : j = i
    · subst hji
      simp only [Function.update_self]
      exact hsane.step hc hl
    · simp only [Function.update_of_ne hji]
      exact h.sane j
  · by_cases hji : j = i
    · subst hji
      simp only [Function.update_self] at hj ⊢
      have hfree : (w.link j).stage = .offline ∨ (w.link j).stage = .backlog := by
        by_cases hcon : act = .connect
        · exact Or.inl (hsane.offline.mpr (hmoves.connect.mp hcon))
        · rw [← hstage hcon]
          exact hj
      refine (h.waiting j hfree).step hsane.inv ?_ (fun _ _ hf => hf.elim) ?_ hc hl
        (fun _ => trivial) fun _ => ⟨id, fun _ _ => id⟩
      · exact ⟨List.not_mem_nil, by decide⟩
      · refine hungUp_eq_false ?_ ?_ <;> rcases hfree with hs | hs <;> rw [hs] <;> simp
    · simp only [Function.update_of_ne hji] at hj ⊢
      exact h.waiting j hj
  · by_cases hji : j = i
    · subst hji
      simp only [Function.update_self] at hj
      have hcon : act ≠ .connect := by
        intro hcon
        rw [hbears.stage, if_pos hcon] at hj
        cases hj
      exact h.accepted j ((hstage hcon).symm.trans hj)
    · simp only [Function.update_of_ne hji] at hj
      exact h.accepted j hj
  · obtain ⟨j, hj⟩ := h.attended p hp
    refine ⟨j, ?_⟩
    by_cases hji : j = i
    · subst hji
      have hcon : act ≠ .connect := hconnect (by rw [hj.stage]; simp)
      refine ⟨hj.owner, ?_, ?_, ?_⟩
      · simp only [Function.update_self]
        exact (hstage hcon).trans hj.stage
      · show (if act = .enter then _ else w.began) j ≤ _
        split
        · rw [Function.update_self]
        · exact hj.began
      · simp only [Function.update_self]
        refine hj.matched.step hsane.inv (h.legal hp) answered_fits ?_ hc hl (fun hent => ?_)
          fun hent => ?_
        · refine hungUp_eq_false ?_ ?_ <;> rw [hj.stage] <;> simp
        · rw [if_pos hent, Function.update_self]
          exact .of_length_le (Nat.le_refl _)
        · rw [if_neg hent]
          exact ⟨id, fun _ _ => id⟩
    · refine ⟨hj.owner, ?_, ?_, ?_⟩
      · simp only [Function.update_of_ne hji]
        exact hj.stage
      · show (if act = .enter then _ else w.began) j ≤ _
        rw [hbegan j hji]
        exact hj.began
      · simp only [Function.update_of_ne hji, hbegan j hji]
        exact hj.matched
  · have hread := h.readable events hpc p j hp hj
    by_cases hji : j = i
    · subst hji
      simp only [Function.update_self]
      refine fun hreads hun => (hread hreads hun).imp hbears.up fun hcl => ?_
      exact absurd (hsane.closed.mp hcl) hmoves.running
    · simp only [Function.update_of_ne hji]
      exact hread

/-- The server has closed a connection at once. -/
theorem World.Inv.refused (h : w.Inv) {i : ι} (hi : (w.link i).stage = .backlog) :
    World.Inv { w with
      link := Function.update w.link i { w.link i with stage := .refused } } := by
  have hsane := h.sane i
  have hne : ∀ p, w.owner p = some i → p ∉ w.config.srv.allocated := by
    intro p hp hmem
    have hstage := (h.attends hmem hp).stage
    rw [hi] at hstage
    cases hstage
  refine ⟨h.server, h.looping, fun j => ?_, fun j hj => ?_, fun j hj => ?_, fun p hp => ?_,
    h.distinct, fun events hpc p j hp hj => ?_⟩
  · by_cases hji : j = i
    · subst hji
      simp only [Function.update_self]
      refine ⟨hsane.inv, hsane.closed, iff_of_false (by simp) fun hcon => ?_, by simp⟩
      have hoff := hsane.offline.mpr hcon
      rw [hi] at hoff
      cases hoff
    · simp only [Function.update_of_ne hji]
      exact h.sane j
  · by_cases hji : j = i
    · subst hji
      simp at hj
    · simp only [Function.update_of_ne hji] at hj ⊢
      exact h.waiting j hj
  · by_cases hji : j = i
    · subst hji
      simp at hj
    · simp only [Function.update_of_ne hji] at hj
      exact h.accepted j hj
  · obtain ⟨j, hj⟩ := h.attended p hp
    have hji : j ≠ i := by
      rintro rfl
      exact hne p hj.owner hp
    exact ⟨j, hj.untouched (.of_same rfl rfl p) rfl (Function.update_of_ne hji _ _) rfl rfl⟩
  · have hread := h.readable events hpc p j hp hj
    by_cases hji : j = i
    · subst hji
      simp only [Function.update_self]
      exact hread
    · simp only [Function.update_of_ne hji]
      exact hread

theorem World.Inv.refuse (h : w.Inv) {srv srv' : Server} {events : List (Option Ptr)} {i : ι}
    (hw : w.config = ⟨.dispatch (none :: events), srv⟩)
    (hs : Astrologer.Step ⟨.dispatch (none :: events), srv⟩ ⟨.dispatch events, srv'⟩)
    (hi : (w.link i).stage = .backlog) (hfull : srv.heap.size ≥ srv.heap.capacity) :
    World.Inv { w with
      config := ⟨.dispatch events, srv'⟩
      link := Function.update w.link i { w.link i with stage := .refused } } := by
  have hs' : Astrologer.Step w.config ⟨.dispatch events, srv'⟩ := hw.symm ▸ hs
  have hsrv : w.config.srv = srv := by rw [hw]
  have hpc : w.config.pc = .dispatch (none :: events) := by rw [hw]
  have hinv : ServerInv srv := hsrv ▸ h.server.inv.srv
  cases (admitted_of_step hinv hs).2 with
  | refused fd _ mem allocated trace =>
    have hsame := h.of_same hs' rfl (hsrv ▸ mem) (hsrv ▸ allocated) (hsrv ▸ trace)
      fun evs hevs p j hp hj => by
        obtain rfl := Pc.dispatch.inj hevs
        exact h.readable _ hpc p j (List.mem_cons_of_mem _ hp) hj
    exact hsame.refused hi
  | created p fd raw room => exact absurd hfull room

/-- **A connection is accepted.**  The new pointer gets an owner, who was matched with a server
that had done nothing; all other connections are untouched. -/
theorem World.Inv.accept (h : w.Inv) {srv srv' : Server} {events : List (Option Ptr)} {i : ι}
    {p : Ptr} (hw : w.config = ⟨.dispatch (none :: events), srv⟩)
    (hs : Astrologer.Step ⟨.dispatch (none :: events), srv⟩ ⟨.dispatch events, srv'⟩)
    (hi : (w.link i).stage = .backlog) (hp : srv.since srv' = [.connected p]) :
    World.Inv { w with
      config := ⟨.dispatch events, srv'⟩
      link := Function.update w.link i { w.link i with stage := .accepted }
      owner := Function.update w.owner p (some i)
      began := Function.update w.began i srv'.trace.length } := by
  have hs' : Astrologer.Step w.config ⟨.dispatch events, srv'⟩ := hw.symm ▸ hs
  obtain rfl : w.config.srv = srv := by rw [hw]
  have hpc : w.config.pc = .dispatch (none :: events) := by rw [hw]
  have hsane := h.sane i
  cases (admitted_of_step h.server.inv.srv hs).2 with
  | refused fd _ mem allocated trace =>
    rw [Server.since, trace, List.drop_length] at hp
    cases hp
  | created p' fd raw room fresh allocated others conn trace =>
    obtain rfl : p' = p := by
      rw [Server.since, trace, List.drop_left] at hp
      cases hp
      rfl
    have hne : ∀ q ∈ w.config.srv.allocated, q ≠ p' := fun q hq heq => fresh (heq ▸ hq)
    -- no other connection is the client's
    have hfree : ∀ q ∈ w.config.srv.allocated, w.owner q ≠ some i := by
      intro q hq hqi
      have hstage := (h.attends hq hqi).stage
      rw [hi] at hstage
      cases hstage
    have hu : ∀ q, q ≠ p' → Untouched w.config.srv srv' q := fun q hq =>
      ⟨others q hq, _, trace, fun e he => by rw [List.mem_singleton.mp he]; rfl⟩
    obtain ⟨hphase, hunread⟩ := session_create conn
    refine ⟨h.server.step hs', rfl, fun j => ?_, fun j hj => ?_, fun j hj => ?_, fun q hq => ?_,
      fun q hq r hr hqr => ?_, fun evs hevs q j hq hj => ?_⟩
    · by_cases hji : j = i
      · subst hji
        simp only [Function.update_self]
        refine ⟨hsane.inv, hsane.closed, iff_of_false (by simp) fun hcon => ?_, by simp⟩
        have hoff := hsane.offline.mpr hcon
        rw [hi] at hoff
        cases hoff
      · simp only [Function.update_of_ne hji]
        exact h.sane j
    · by_cases hji : j = i
      · subst hji
        simp at hj
      · simp only [Function.update_of_ne hji] at hj ⊢
        exact h.waiting j hj
    · by_cases hji : j = i
      · subst hji
        exact ⟨p', by rw [allocated]; exact Finset.mem_insert_self _ _,
          Function.update_self _ _ _⟩
      · simp only [Function.update_of_ne hji] at hj
        obtain ⟨q, hq, hqj⟩ := h.accepted j hj
        refine ⟨q, by rw [allocated]; exact Finset.mem_insert_of_mem hq, ?_⟩
        exact (Function.update_of_ne (hne q hq) _ _).trans hqj
    · have hq' : q ∈ insert p' w.config.srv.allocated := allocated ▸ hq
      rcases Finset.mem_insert.mp hq' with rfl | hmem
      · refine ⟨i, Function.update_self _ _ _, ?_, ?_, ?_⟩
        · simp only [Function.update_self]
        · simp only [Function.update_self]
          exact Nat.le_refl _
        · simp only [Function.update_self, hphase, hunread]
          have hwait : MatchedAt q srv'.trace.length srv'.trace (.firstLine []) [] (w.link i)
              (w.client i) :=
            (h.waiting i (Or.inr hi)).imp
              (fun _ => Unanswered.of_length_le (Nat.le_refl srv'.trace.length))
              fun _ _ hf => hf.elim
          generalize w.client i = c at hwait ⊢
          cases hwait with
          | rest job up down => exact .rest job up down
          | request hjob wait text down got => exact .request hjob wait text down got
          | replied hjob unsent up text ans => exact .replied hjob unsent up text ans
      · obtain ⟨j, hj⟩ := h.attended q hmem
        have hji : j ≠ i := by
          rintro rfl
          exact hfree q hmem hj.owner
        exact ⟨j, hj.untouched (hu q (hne q hmem)) (Function.update_of_ne (hne q hmem) _ _)
          (Function.update_of_ne hji _ _) rfl (Function.update_of_ne hji _ _)⟩
    · have hq' : q ∈ insert p' w.config.srv.allocated := allocated ▸ hq
      have hr' : r ∈ insert p' w.config.srv.allocated := allocated ▸ hr
      rcases Finset.mem_insert.mp hq' with rfl | hmem
      · rcases Finset.mem_insert.mp hr' with rfl | hmem'
        · rfl
        · simp only [Function.update_self, Function.update_of_ne (hne r hmem')] at hqr
          exact absurd hqr.symm (hfree r hmem')
      · rcases Finset.mem_insert.mp hr' with rfl | hmem'
        · simp only [Function.update_self, Function.update_of_ne (hne q hmem)] at hqr
          exact absurd hqr (hfree q hmem)
        · simp only [Function.update_of_ne (hne q hmem), Function.update_of_ne (hne r hmem')] at hqr
          exact h.distinct q hmem r hmem' hqr
    · obtain rfl := Pc.dispatch.inj hevs
      have hlive : q ∈ w.config.srv.allocated :=
        (h.server.inv.events _ hpc).2 q
          (List.mem_filterMap.mpr ⟨some q, List.mem_cons_of_mem _ hq, rfl⟩)
      simp only [Function.update_of_ne (hne q hlive)] at hj
      have hji : j ≠ i := by
        rintro rfl
        exact hfree q hlive hj
      simp only [Function.update_of_ne hji]
      exact (hu q (hne q hlive)).readable
        (h.readable _ hpc q j (List.mem_cons_of_mem _ hq) hj)

/-- **A connection is served.**  Its exchange goes on by the rounds of the call, or it is removed
because its client had closed it; the others are untouched. -/
theorem World.Inv.serve (h : w.Inv) {srv srv' : Server} {events : List (Option Ptr)} {i : ι}
    {p : Ptr} {l : Link} (hw : w.config = ⟨.dispatch (some p :: events), srv⟩)
    (hs : Astrologer.Step ⟨.dispatch (some p :: events), srv⟩ ⟨.dispatch events, srv'⟩)
    (hp : w.owner p = some i)
    (hl : (srv.since srv').foldlM (Link.flow p) (w.link i) = some l) :
    World.Inv { w with
      config := ⟨.dispatch events, srv'⟩
      link := Function.update w.link i l } := by
  obtain ⟨⟨es, heffect⟩, hserved⟩ := h.served hw hs hp hl
  have hs' : Astrologer.Step w.config ⟨.dispatch events, srv'⟩ := hw.symm ▸ hs
  have hpc : w.config.pc = .dispatch (some p :: events) := by rw [hw]
  obtain rfl : w.config.srv = srv := by rw [hw]
  have hevents := h.server.inv.events _ hpc
  have hmem : p ∈ w.config.srv.allocated := hevents.2 p List.mem_cons_self
  have hattends := h.attends hmem hp
  have hsane := h.sane i
  have hu : ∀ q, q ≠ p → Untouched w.config.srv srv' q := fun q hq => .of_effect heffect hq
  have hother : ∀ q ∈ w.config.srv.allocated, q ≠ p → w.owner q ≠ some i :=
    fun q hq hqp hqi => hqp (h.distinct q hq p hmem (hqi.trans hp.symm))
  have hlive : ∀ q ∈ srv'.allocated, q ∈ w.config.srv.allocated := by
    intro q hq
    rw [heffect.allocated] at hq
    split at hq
    · exact Finset.mem_of_mem_erase hq
    · exact hq
  have hstay : ∀ q ∈ w.config.srv.allocated, q ≠ p → q ∈ srv'.allocated := by
    intro q hq hqp
    rw [heffect.allocated]
    split
    · exact Finset.mem_erase.mpr ⟨hqp, hq⟩
    · exact hq
  -- the connection is removed only when the client has closed it
  have hend : l.closed = (w.link i).closed ∧ ((l.stage = .accepted ∧ p ∈ srv'.allocated) ∨
      (l.stage = .ended ∧ p ∉ srv'.allocated ∧ w.client i = .returned)) := by
    cases hserved with
    | kept serving mem keeps less =>
      exact ⟨keeps.2, Or.inl ⟨keeps.1.trans hattends.stage, mem⟩⟩
    | gone mem job closed link =>
      rw [link]
      exact ⟨rfl, Or.inr ⟨rfl, mem, hsane.closed.mp closed⟩⟩
  refine ⟨h.server.step hs', rfl, fun j => ?_, fun j hj => ?_, fun j hj => ?_, fun q hq => ?_,
    fun q hq r hr => h.distinct q (hlive q hq) r (hlive r hr), fun evs hevs q j hq hj => ?_⟩
  · by_cases hji : j = i
    · subst hji
      simp only [Function.update_self]
      refine ⟨hsane.inv, by rw [hend.1]; exact hsane.closed, iff_of_false ?_ fun hcon => ?_,
        fun hended => ?_⟩
      · rcases hend.2 with ⟨hstage, -⟩ | ⟨hstage, -⟩ <;> rw [hstage] <;> simp
      · have hoff := hsane.offline.mpr hcon
        rw [hattends.stage] at hoff
        cases hoff
      · rcases hend.2 with ⟨hstage, -⟩ | ⟨-, -, hret⟩
        · rw [hstage] at hended
          cases hended
        · exact hret
    · simp only [Function.update_of_ne hji]
      exact h.sane j
  · by_cases hji : j = i
    · subst hji
      simp only [Function.update_self] at hj
      rcases hend.2 with ⟨hstage, -⟩ | ⟨hstage, -⟩ <;> rw [hstage] at hj <;> simp at hj
    · simp only [Function.update_of_ne hji] at hj ⊢
      exact h.waiting j hj
  · by_cases hji : j = i
    · subst hji
      simp only [Function.update_self] at hj
      rcases hend.2 with ⟨-, hlive'⟩ | ⟨hstage, -⟩
      · exact ⟨p, hlive', hp⟩
      · rw [hstage] at hj
        cases hj
    · simp only [Function.update_of_ne hji] at hj
      obtain ⟨q, hq, hqj⟩ := h.accepted j hj
      have hqp : q ≠ p := by
        rintro rfl
        exact hji (Option.some.inj (hqj.symm.trans hp))
      exact ⟨q, hstay q hq hqp, hqj⟩
  · by_cases hqp : q = p
    · subst hqp
      cases hserved with
      | kept serving mem keeps less =>
        refine ⟨i, hp, ?_, serving.began, ?_⟩
        · simp only [Function.update_self]
          exact keeps.1.trans hattends.stage
        · simp only [Function.update_self]
          exact serving.matched
      | gone mem => exact absurd hq mem
    · obtain ⟨j, hj⟩ := h.attended q (hlive q hq)
      have hji : j ≠ i := by
        rintro rfl
        exact hother q (hlive q hq) hqp hj.owner
      exact ⟨j, hj.untouched (hu q hqp) rfl (Function.update_of_ne hji _ _) rfl rfl⟩
  · obtain rfl := Pc.dispatch.inj hevs
    have hqp : q ≠ p := by
      rintro rfl
      have hnodup := hevents.1
      rw [List.reduceOption_cons_of_some, List.nodup_cons] at hnodup
      exact hnodup.1 (List.mem_filterMap.mpr ⟨some q, hq, rfl⟩)
    have hq' : q ∈ w.config.srv.allocated :=
      hevents.2 q (List.mem_filterMap.mpr ⟨some q, List.mem_cons_of_mem _ hq, rfl⟩)
    have hji : j ≠ i := by
      rintro rfl
      exact hother q hq' hqp hj
    simp only [Function.update_of_ne hji]
    exact (hu q hqp).readable (h.readable _ hpc q j (List.mem_cons_of_mem _ hq) hj)

theorem World.Inv.step (h : w.Inv) (hs : w.Step w') : w'.Inv := by
  cases hs with
  | client hc hl => exact h.client hc hl
  | wait hw hs hready => exact h.wait hw hs hready
  | dispatched hw => exact h.dispatched hw
  | accept hw hs hi hp => exact h.accept hw hs hi hp
  | refuse hw hs hi hfull => exact h.refuse hw hs hi hfull
  | serve hw hs hp hl => exact h.serve hw hs hp hl

theorem World.Reachable.inv (h : w.Reachable) : w.Inv := by
  induction h with
  | init h => exact h.inv
  | step h hs ih => exact ih.step hs

end Steps

/-! ## What `recv_line` returns

In a client that has called `recv_line` the match is at a reply.  As the reply is a line and the
bytes received are its beginning, `recv_line` returns when the last of them is there and has
nothing left over; what the reply has to be is what the record of the server says behind the
request. -/

/-- The client of `i` is in `recv_line`, and the next `recv` lets it return `ret`: `c` and `l` are
what the client and its connection are behind that. -/
structure World.Returns (w : World ι) (i : ι) (job : Exchange) (s : Locals) (dist : ℕ)
    (r : RecvResult) (ret : ℤ) (c : Process) (l : Link) : Prop where
  calling : ∃ todo, w.client i = .calling job s dist todo
  step : (w.client i).Step (.received r) c
  link : (w.link i).client (.received r) = some l
  ret : (recvLine s.buf dist astrologBufLen r).1 = some ret

/-- **The reply to the exchange**: the buffer holds one line, which is what the server has
answered to this exchange, nothing is behind it, and the client goes on. -/
structure World.Right (w : World ι) (i : ι) (job : Exchange) (s : Locals) (dist : ℕ)
    (r : RecvResult) (ret : ℤ) (c : Process) (l : Link) : Prop where
  reply : ∃ p ∈ w.config.srv.allocated, w.owner p = some i ∧ ∃ reply,
    Answered p (w.began i) w.config.srv.trace job reply ∧ ret = reply.length ∧
      (recvLine s.buf dist astrologBufLen r).2.1.slice 0 reply.length = reply
  alone : l.up = [] ∧ l.down = []
  next : c = .idle (w.client i).todo

/-- When `recv_line` returns in a client that the server has not refused, it returns the right
reply. -/
theorem World.Inv.right {w : World ι} (h : w.Inv) {i : ι} {job : Exchange} {s : Locals}
    {dist : ℕ} {r : RecvResult} {ret : ℤ} {c : Process} {l : Link}
    (hret : w.Returns i job s dist r ret c l) (hopen : (w.link i).stage ≠ .refused) :
    w.Right i job s dist r ret c l := by
  have hsane := h.sane i
  obtain ⟨todo, hcalling⟩ := hret.calling
  have hended : (w.link i).stage ≠ .ended := by
    intro hend
    rw [hsane.ended hend] at hcalling
    cases hcalling
  have hup := hungUp_eq_false hopen hended
  -- a reply is complete only when the server has answered
  have hcomplete : ∀ {u : Prop} {a : Exchange → List Byte → Prop} {phase : Phase}
      {unread : List Byte}, Matched u a phase unread (w.link i) (w.client i) → phase.Legal →
      (∀ job reply, a job reply → IsLine delimiter reply ∧ reply.length ≤ astrologBufLen) →
      ∃ bs reply, r = .bytes bs ∧ l.up = [] ∧ l.down = [] ∧ c = .idle (w.client i).todo ∧
        Replied job s dist bs reply ∧ a job reply := by
    intro u a phase unread hmatched hlegal hans
    obtain ⟨bs, job', s', dist', rfl, hc, ⟨-, -, -, -, hnone⟩ |
      ⟨reply, -, -, hup, hdown, hidle, hreplied, ha⟩⟩ :=
      hmatched.received hsane.inv hlegal hans hup hret.step hret.link
    all_goals
      rw [hcalling] at hc
      obtain ⟨rfl, rfl, rfl, -⟩ := Process.calling.inj hc
    · rw [hret.ret] at hnone
      cases hnone
    · exact ⟨bs, reply, rfl, hup, hdown, hidle, hreplied, ha⟩
  have hwaiting : ¬ ((w.link i).stage = .offline ∨ (w.link i).stage = .backlog) := by
    intro hstage
    obtain ⟨_, _, _, _, _, _, _, hfalse⟩ := hcomplete (h.waiting i hstage)
      ⟨List.not_mem_nil, by decide⟩ fun _ _ hf => hf.elim
    exact hfalse
  have haccepted : (w.link i).stage = .accepted := by
    cases hstage : (w.link i).stage with
    | offline => exact absurd (Or.inl hstage) hwaiting
    | backlog => exact absurd (Or.inr hstage) hwaiting
    | accepted => rfl
    | refused => exact absurd hstage hopen
    | ended => exact absurd hstage hended
  obtain ⟨p, hp, howner⟩ := h.accepted i haccepted
  obtain ⟨bs, reply, rfl, hup, hdown, hidle, hreplied, hans⟩ :=
    hcomplete (h.attends hp howner).matched (h.legal hp) answered_fits
  have hlen : ret = reply.length := Option.some.inj (hret.ret.symm.trans hreplied.ret)
  exact ⟨⟨p, hp, howner, reply, hans, hlen, hreplied.text⟩, ⟨hup, hdown⟩, hidle⟩

end Astrologer.Clients
