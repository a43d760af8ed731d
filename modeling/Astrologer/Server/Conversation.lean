import Astrologer.Server.Store

/-!
# The conversation of the server with a client

`Server.Reference` is about a connection alone: its handlers are called one after the other, and
the answers of the kernel are those of one client.  In the process they are called by the loop of
`update_state`, and `update_state` is called by the event loop of `main`, in between everything
else that `main` does.  Here the two are put together.

`Client.Conversation` is what happens to one connection in a run of `main` (`Step`), from the time
when it has been accepted.  `main` makes steps that have nothing to do with it: it waits, accepts
others, serves them and gives them up.  Now and then it calls `update_state` for the connection,
because the client has sent something or has closed the connection, or because there is room for a
reply (`Client.Reported`).  The client is the one who gives the answers to the calls of `recv` and
`send` that are made then, and nothing fails for it and no time runs out.

## The loop

A round of the loop of `update_state` is a handler call of `Client.run` (`view_runHandler`).  The
loop goes on as long as bytes are left in `interm_buf`, so a call of `update_state` is a stretch
of `Client.run` (`view_rounds`), and the stretches follow each other without a gap
(`Client.Conversation.stage`): what one call leaves in the buffers is what the next one finds
there.  The loop is needed for this: `epoll_wait` does not report the bytes that are left in
`interm_buf`, and only because no call leaves any there has everything been used when there is
nothing more to report (`Server.Idle.starved`).

A call need not return.  Its loop goes on for ever behind a line that was rejected with bytes
behind it.  So the moments of a conversation are not only those between two calls but also those
behind each round of a call (`Client.Moment`).

## What is proved

At every moment at which the connection is over, or all its input is used and its replies are
sent, what was stored and sent is what `reference` says of the client's stream; and the
conversation gets there after a bounded number of calls (`Client.conversation_eq_reference`).
-/

namespace Astrologer

open Lines ServerStateType FdOperation

/-! ## A handler does not look at the record

The record is written by the handlers and read by nobody.  So a handler that is called in the
middle of a run of `main` does what it does in a run that begins with an empty record, and adds to
what is there. -/

/-- The same answers, and something before the record. -/
def Io.behind (pre : List ConnEvent) (io : Io) : Io := { io with trace := pre ++ io.trace }

def Ctx.behind (pre : List ConnEvent) (c : Ctx) : Ctx := { c with io := c.io.behind pre }

section Behind

variable (pre : List ConnEvent) (c : Ctx)

theorem Io.log_behind (io : Io) (e : ConnEvent) :
    (io.behind pre).log e = (io.log e).behind pre := by
  rw [Io.log, Io.log, Io.behind, Io.behind, List.append_assoc]

theorem Io.recv_behind (io : Io) (n : ℕ) :
    (io.behind pre).recv n = ((io.recv n).1, (io.recv n).2.behind pre) := by
  rw [Io.recv, Io.recv, show (io.behind pre).recvs = io.recvs from rfl]
  cases io.recvs.head with
  | error => exact congrArg (Prod.mk _) (Io.log_behind pre { io with recvs := io.recvs.tail } _)
  | bytes bs => exact congrArg (Prod.mk _) (Io.log_behind pre { io with recvs := io.recvs.tail } _)

theorem Io.send_behind (io : Io) (src : List Byte) :
    (io.behind pre).send src = ((io.send src).1, (io.send src).2.behind pre) := by
  rw [Io.send, Io.send, show (io.behind pre).sends = io.sends from rfl]
  cases io.sends.head with
  | error => exact congrArg (Prod.mk _) (Io.log_behind pre { io with sends := io.sends.tail } _)
  | count k => exact congrArg (Prod.mk _) (Io.log_behind pre { io with sends := io.sends.tail } _)

theorem bufferedRecvUntilDelim_behind (buf : Buffer) (dst : CharArray) (off n : ℕ)
    (delim : Byte) (io : Io) :
    bufferedRecvUntilDelim buf dst off n delim (io.behind pre) =
      ((bufferedRecvUntilDelim buf dst off n delim io).1,
        (bufferedRecvUntilDelim buf dst off n delim io).2.behind pre) := by
  unfold bufferedRecvUntilDelim
  rw [Io.recv_behind]
  split
  · rcases io.recv astrologBufLen with ⟨r, io'⟩
    cases r with
    | error => rfl
    | bytes bs =>
      cases bs with
      | nil => rfl
      | cons x xs => rfl
  · rfl

/-- What a handler does to a record is to add to it. -/
def Neutral (f : Ctx → Ctx × After) : Prop :=
  ∀ pre c, f (c.behind pre) = ((f c).1.behind pre, (f c).2)

theorem parseStarFirstLine_neutral : Neutral parseStarFirstLine := by
  intro pre c
  unfold parseStarFirstLine
  simp only [show (c.behind pre).s = c.s from rfl]
  split
  · rfl
  · rfl

theorem parseClientFirstLine_neutral : Neutral parseClientFirstLine := by
  intro pre c
  unfold parseClientFirstLine
  simp only [show (c.behind pre).s = c.s from rfl]
  split
  · rfl
  · rw [show (c.behind pre).io = c.io.behind pre from rfl, Io.log_behind]
    rfl

theorem firstLineReceived_neutral : Neutral firstLineReceived := by
  intro pre c
  unfold firstLineReceived
  simp only [show (c.behind pre).s = c.s from rfl]
  split
  · split
    · exact parseStarFirstLine_neutral pre c
    · split
      · exact parseClientFirstLine_neutral pre c
      · rfl
  · split
    · rfl
    · rfl

theorem handleFirstLine_neutral : Neutral handleFirstLine := by
  intro pre c
  unfold handleFirstLine
  simp only [show (c.behind pre).s = c.s from rfl, show (c.behind pre).io = c.io.behind pre from rfl,
    bufferedRecvUntilDelim_behind]
  generalize bufferedRecvUntilDelim c.s.intermBuf c.s.buf c.s.curPos c.s.rem delimiter c.io = r
  split
  · rfl
  · split
    · rfl
    · exact firstLineReceived_neutral pre ⟨_, _, r.2⟩

theorem prognosisReceived_neutral : Neutral prognosisReceived := by
  intro pre c
  unfold prognosisReceived
  simp only [show (c.behind pre).s = c.s from rfl, show (c.behind pre).io = c.io.behind pre from rfl,
    Io.log_behind]
  split
  · rfl
  · split
    · rfl
    · rfl

theorem handleRecvH_neutral : Neutral handleRecvH := by
  intro pre c
  unfold handleRecvH
  simp only [show (c.behind pre).s = c.s from rfl, show (c.behind pre).io = c.io.behind pre from rfl,
    bufferedRecvUntilDelim_behind]
  generalize bufferedRecvUntilDelim c.s.intermBuf c.s.buf c.s.curPos c.s.rem delimiter c.io = r
  split
  · rfl
  · split
    · rfl
    · exact prognosisReceived_neutral pre ⟨_, _, r.2⟩

theorem handleSendReply_neutral : Neutral handleSendReply := by
  intro pre c
  unfold handleSendReply
  simp only [show (c.behind pre).s = c.s from rfl, show (c.behind pre).io = c.io.behind pre from rfl,
    Io.send_behind]
  rcases c.io.send (c.s.buf.slice c.s.curPos c.s.rem) with ⟨r, io⟩
  cases r with
  | error => rfl
  | count k =>
    dsimp only
    split
    · rfl
    · rfl

theorem handleState_neutral : Neutral handleState := by
  intro pre c
  unfold handleState
  rw [show (c.behind pre).s = c.s from rfl]
  cases c.s.state with
  | stateRecvFirstLine => exact handleFirstLine_neutral pre c
  | stateRecvH => exact handleRecvH_neutral pre c
  | stateSendThanks => exact handleSendReply_neutral pre c
  | stateSendH => exact handleSendReply_neutral pre c
  | stateError => rfl
  | stateSuccess => rfl

end Behind

/-! ## Rounds of `update_state`

The loop of `update_state` is unrolled into its rounds, each of which is a call of a handler for
the view of the connection.  The loop ends exactly where no handler has anything to do without the
kernel, which is where a run of the handlers would ask for the next answer. -/

/-- What was seen of a connection. -/
def connEvents (p : Ptr) (trace : List ServerEvent) : List ConnEvent :=
  trace.filterMap fun
    | .conn q e => if q = p then some e else none
    | _ => none

theorem connEvents_append (p : Ptr) (a b : List ServerEvent) :
    connEvents p (a ++ b) = connEvents p a ++ connEvents p b := List.filterMap_append

theorem connEvents_conn (p : Ptr) (es : List ConnEvent) : connEvents p (es.map (.conn p)) = es := by
  rw [connEvents, List.filterMap_map]
  refine (List.filterMap_congr fun e _ => ?_).trans List.filterMap_some
  exact if_pos rfl

theorem connEvents_heapCalls {p : Ptr} {calls : List ServerEvent}
    (h : ∀ e ∈ calls, e = .heapCall p (some p)) : connEvents p calls = [] := by
  refine List.filterMap_eq_nil_iff.mpr fun e he => ?_
  rw [h e he]

/-- A connection as its handlers see it, with what was seen of it since the record had this
length. -/
def Server.view (srv : Server) (began : ℕ) (p : Ptr) : Ctx :=
  (srv.ctx p).behind (connEvents p (srv.trace.drop began))

/-- The first rounds of the loop of `update_state`: so many, or all of them if they are fewer. -/
def updateStateRounds (p : Ptr) : ℕ → Server → Server
  | 0, srv => srv
  | n + 1, srv =>
    let srv := runHandler p srv
    if (srv.mem p).goesOn then updateStateRounds p n srv else srv

section Rounds

variable {p : Ptr} {began : ℕ} {srv srv' : Server} {client : Client}

/-- **The loop** ends with its last round: its result is what so many rounds leave, unless the
fuel was not enough. -/
theorem updateStateLoop_eq (fuel : ℕ) (srv : Server) :
    updateStateLoop p (fuel + 1) srv =
      if ((updateStateRounds p (fuel + 1) srv).mem p).goesOn then none
      else some (updateStateRounds p (fuel + 1) srv) := by
  induction fuel generalizing srv with
  | zero =>
    rw [updateStateLoop, updateStateRounds]
    cases hgo : ((runHandler p srv).mem p).goesOn with
    | true =>
      rw [if_pos rfl, if_pos rfl, updateStateRounds, hgo]
      rfl
    | false =>
      rw [if_neg Bool.false_ne_true, if_neg Bool.false_ne_true, hgo]
      rfl
  | succ fuel ih =>
    rw [updateStateLoop, updateStateRounds]
    cases hgo : ((runHandler p srv).mem p).goesOn with
    | true => exact ih (runHandler p srv)
    | false =>
      rw [if_neg Bool.false_ne_true, if_neg Bool.false_ne_true, hgo]
      rfl

/-- **A round** of `update_state` is a handler call, and what it records is added. -/
theorem view_runHandler (h : Ready p srv) (hbegan : began ≤ srv.trace.length) :
    (runHandler p srv).view began p = (handleState (srv.view began p)).1 := by
  have hh := h.inv.handled h.mem
  obtain ⟨calls, htrace, hcalls⟩ := hh.trace
  have hrecord : connEvents p ((runHandler p srv).trace.drop began) =
      connEvents p (srv.trace.drop began) ++ (handleState (srv.ctx p)).1.io.trace := by
    rw [htrace, List.append_assoc, List.drop_append_of_le_length hbegan, connEvents_append,
      connEvents_append, connEvents_conn, connEvents_heapCalls hcalls, List.append_nil]
  rw [Server.view, Server.view, handleState_neutral, hrecord, Ctx.behind, Ctx.behind, Ctx.mk.injEq]
  refine ⟨hh.conn, hh.zodiacPrognosises, ?_⟩
  rw [Io.behind, Io.behind, Io.mk.injEq]
  refine ⟨hh.recvs, hh.sends, ?_⟩
  show _ ++ [] = _
  rw [List.append_nil]

theorem trace_length_runHandler (h : Ready p srv) :
    srv.trace.length ≤ (runHandler p srv).trace.length := by
  obtain ⟨calls, htrace, -⟩ := (h.inv.handled h.mem).trace
  rw [htrace, List.length_append, List.length_append]
  omega

theorem Ready.rounds (h : Ready p srv) (n : ℕ) : Ready p (updateStateRounds p n srv) := by
  induction n generalizing srv with
  | zero => exact h
  | succ n ih =>
    rw [updateStateRounds]
    split
    · exact ih h.runHandler
    · exact h.runHandler

theorem trace_length_rounds (h : Ready p srv) (n : ℕ) :
    srv.trace.length ≤ (updateStateRounds p n srv).trace.length := by
  induction n generalizing srv with
  | zero => exact Nat.le_refl _
  | succ n ih =>
    rw [updateStateRounds]
    split
    · exact (trace_length_runHandler h).trans (ih h.runHandler)
    · exact trace_length_runHandler h

/-- The loop goes on when the handlers have bytes, so it does not go on when they starve. -/
theorem not_starved_of_goesOn (h : (srv.mem p).goesOn = true) :
    ¬ client.Starved (srv.view began p) := by
  rintro ⟨-, hpos, -⟩
  rw [ConnState.goesOn, Bool.and_eq_true, decide_eq_true_iff, decide_eq_true_iff] at h
  exact h.2 hpos

/-- **Some rounds** are some handler calls, each of them with something to do. -/
theorem view_rounds (h : Ready p srv) (hbegan : began ≤ srv.trace.length)
    (hready : ¬ client.Starved (srv.view began p)) (n : ℕ) : ∃ i ≤ n,
    (updateStateRounds p n srv).view began p = (client.call^[i]) (srv.view began p) ∧
      (0 < n → 0 < i) ∧ (∀ j < i, ¬ client.Starved ((client.call^[j]) (srv.view began p))) ∧
      (0 < n → i < n → ((updateStateRounds p n srv).mem p).goesOn = false) := by
  induction n generalizing srv with
  | zero =>
    exact ⟨0, Nat.le_refl 0, rfl, id, fun j hj => absurd hj (Nat.not_lt_zero j),
      fun h0 => absurd h0 (Nat.lt_irrefl 0)⟩
  | succ n ih =>
    have hcall : client.call (srv.view began p) = (runHandler p srv).view began p := by
      rw [Client.call, if_neg hready, view_runHandler h hbegan]
    rw [updateStateRounds]
    cases hgo : ((runHandler p srv).mem p).goesOn with
    | true =>
      obtain ⟨i, hi, hview, -, hfed, hlast⟩ := ih h.runHandler
        (hbegan.trans (trace_length_runHandler h)) (not_starved_of_goesOn hgo)
      rw [if_pos rfl]
      refine ⟨i + 1, Nat.succ_le_succ hi, ?_, fun _ => Nat.succ_pos i, fun j hj => ?_,
        fun _ hlt => ?_⟩
      · rw [Function.iterate_succ_apply, hcall, hview]
      · cases j with
        | zero => exact hready
        | succ j =>
          rw [Function.iterate_succ_apply, hcall]
          exact hfed j (Nat.lt_of_succ_lt_succ hj)
      · have hin : i < n := Nat.lt_of_succ_lt_succ hlt
        exact hlast (Nat.zero_lt_of_lt hin) hin
    | false =>
      rw [if_neg Bool.false_ne_true]
      refine ⟨1, Nat.succ_le_succ (Nat.zero_le n), hcall.symm, fun _ => Nat.one_pos,
        fun j hj => ?_, fun _ _ => hgo⟩
      rw [Nat.lt_one_iff.mp hj]
      exact hready

/-- What the loop leaves is what its rounds leave. -/
theorem rounds_of_loop {fuel : ℕ} (h : updateStateLoop p fuel srv = some srv') :
    srv' = updateStateRounds p fuel srv ∧ 0 < fuel := by
  cases fuel with
  | zero => cases h
  | succ fuel =>
    rw [updateStateLoop_eq] at h
    split at h
    · cases h
    · exact ⟨(Option.some.inj h).symm, Nat.succ_pos fuel⟩

end Rounds

/-! ## The conversation

Calls for the connection alternate with whatever else `main` does.  What the others do is a part
of the conversation only through `Apart`: it leaves the connection, its record and the table
alone.  The invariant (`Client.Stage`) says that the view of the connection is a state of the run
of the handlers. -/

/-- The answers of the client to the calls of `recv`: its pieces, and then the end. -/
def Client.recvs (client : Client) : Stream' RecvResult :=
  client.chunks.map .bytes ++ₛ Stream'.const (.bytes [])

/-- The answers of the client to the calls of `send`. -/
def Client.sends (client : Client) : Stream' SendResult := client.room.map fun k => .count (k + 1)

/-- The kernel has these answers for the next call of `update_state`; its clock and its `epoll`
may answer anything. -/
structure Kernel.Answers (k : Kernel) (recvs : Stream' RecvResult) (sends : Stream' SendResult) :
    Prop where
  recvs : k.recvs = recvs
  sends : k.sends = sends

/-- There is something for `epoll_wait` to report: the connection is watched for what its `op` says
(`reachable_interest`), there is always room to send, and to receive there are the bytes that have
not been received yet, or the end of the stream.  What is left in `interm_buf` is not reported. -/
def Client.Reported (client : Client) (c : Ctx) : Prop :=
  c.s.op = opRead → client.eof = true ∨ received c.io.trace ≠ client.stream

theorem Client.Reported.not_starved {client : Client} {c : Ctx} (h : client.Reported c) :
    ¬ client.Starved c := by
  rintro ⟨hop, -, heof, hrecv⟩
  rcases h hop with htrue | hne
  · rw [heof] at htrue
    cases htrue
  · exact hne hrecv

instance (client : Client) (c : Ctx) : Decidable (client.Reported c) :=
  inferInstanceAs (Decidable (_ → _))

/-- A step has nothing to do with the connection: it is live, and neither it nor the table nor
its record has changed. -/
structure Apart (p : Ptr) (srv srv' : Server) : Prop where
  mem : p ∈ srv'.allocated
  conn : (srv'.mem p).toConnState = (srv.mem p).toConnState
  zodiacPrognosises : srv'.zodiacPrognosises = srv.zodiacPrognosises
  trace : ∃ es, srv'.trace = srv.trace ++ es ∧ connEvents p es = []

/-- **The conversation with a client**, from `start` on: `main` has called `update_state` so many
times for the connection `p`, these are the answers that the client has left, and here is `main`.
The calls are made when `epoll_wait` has something to report, and the connection is not over behind
them. -/
inductive Client.Conversation (client : Client) (p : Ptr) (start : Config) :
    ℕ → Stream' RecvResult → Stream' SendResult → Config → Prop
  | accepted : Conversation client p start 0 client.recvs client.sends start
  | apart {n : ℕ} {recvs : Stream' RecvResult} {sends : Stream' SendResult} {c c' : Config}
      (h : Conversation client p start n recvs sends c) (hs : Step c c')
      (hapart : Apart p c.srv c'.srv) : Conversation client p start n recvs sends c'
  | call {n : ℕ} {recvs : Stream' RecvResult} {sends : Stream' SendResult} {srv : Server}
      {events : List (Option Ptr)} {k : Kernel} {fuel : ℕ} {r : ℤ × Server}
      (h : Conversation client p start n recvs sends ⟨.dispatch (some p :: events), srv⟩)
      (hk : k.Answers recvs sends)
      (hready : client.Reported ((srv.withKernel k).view start.srv.trace.length p))
      (hr : updateState fuel p (srv.withKernel k) = some r) (hp : p ∈ r.2.allocated) :
      Conversation client p start (n + 1) r.2.kernel.recvs r.2.kernel.sends
        ⟨if r.1 ≠ 0 then .freeHeapElems else .dispatch events, r.2⟩

/-- The moments of a conversation: between two calls, and behind so many rounds of a call. -/
inductive Client.Moment (client : Client) (p : Ptr) (start : Config) : Server → Prop
  | between {n : ℕ} {recvs : Stream' RecvResult} {sends : Stream' SendResult} {c : Config}
      {k : Kernel} (h : client.Conversation p start n recvs sends c) (hk : k.Answers recvs sends) :
      Moment client p start (c.srv.withKernel k)
  | inside {n : ℕ} {recvs : Stream' RecvResult} {sends : Stream' SendResult} {srv : Server}
      {events : List (Option Ptr)} {k : Kernel}
      (h : client.Conversation p start n recvs sends ⟨.dispatch (some p :: events), srv⟩)
      (hk : k.Answers recvs sends)
      (hready : client.Reported ((srv.withKernel k).view start.srv.trace.length p))
      (rounds : ℕ) : Moment client p start (updateStateRounds p rounds (srv.withKernel k))

/-- **The conversation comes to an end.**  There are not more than so many calls.  As long as there
is something to report, the next call leads to `STATE_ERROR` or `STATE_SUCCESS` after some rounds,
or it returns and leaves the connection to one more call; and when there is nothing to report, all
that has been received is used and all the replies are sent. -/
def Client.Ends (client : Client) (p : Ptr) (start : Config) : Prop :=
  ∃ most, ∀ n recvs sends c k, client.Conversation p start n recvs sends c →
    Kernel.Answers k recvs sends →
      let ctx := (c.srv.withKernel k).view start.srv.trace.length p
      n ≤ most ∧ (¬ client.Reported ctx → client.Starved ctx) ∧
      (client.Reported ctx →
        (∃ rounds, ((updateStateRounds p rounds (c.srv.withKernel k)).mem p).over) ∨
        ∃ fuel r, updateState fuel p (c.srv.withKernel k) = some r ∧ p ∈ r.2.allocated)

/-- A connection has just been accepted: it is live, and it is what `create_server_state` makes
of this block and this descriptor. -/
structure Client.Accepted (start : Config) (p : Ptr) (raw : ConnState) (fd : Fd) : Prop where
  inv : LoopInv start
  idle : ConnsIdle start.srv
  mem : p ∈ start.srv.allocated
  conn : (start.srv.mem p).toConnState = raw.create fd

/-- **The invariant of a conversation.**  `main` and the connection are in order, and what the
connection has seen is a run of so many handler calls, all of which had something to do. -/
structure Client.Stage (client : Client) (p : Ptr) (start : Config) (raw : ConnState) (fd : Fd)
    (n : ℕ) (recvs : Stream' RecvResult) (sends : Stream' SendResult) (c : Config) : Prop where
  inv : LoopInv c
  idle : ConnsIdle c.srv
  mem : p ∈ c.srv.allocated
  began : start.srv.trace.length ≤ c.srv.trace.length
  run : ∃ m, n ≤ m ∧
    (∀ k : Kernel, k.Answers recvs sends → (c.srv.withKernel k).view start.srv.trace.length p =
      client.run start.srv.zodiacPrognosises raw fd m) ∧
    ∀ j < m, ¬ client.Starved (client.run start.srv.zodiacPrognosises raw fd j)

section Conversation

variable {client : Client} {p : Ptr} {start c : Config} {raw : ConnState} {fd : Fd} {n : ℕ}
  {recvs : Stream' RecvResult} {sends : Stream' SendResult} {srv srv' : Server} {k : Kernel}
  {began : ℕ} {table : Table}

theorem Client.Stage.ready (h : client.Stage p start raw fd n recvs sends c) (k : Kernel) :
    Ready p (c.srv.withKernel k) :=
  ⟨(h.inv.srv.withKernel k).heap, h.mem, (h.idle p h.mem).conn⟩

/-- The first view of the connection is where a run begins. -/
theorem view_accepted (h : Client.Accepted start p raw fd)
    (hk : k.Answers client.recvs client.sends) :
    (start.srv.withKernel k).view start.srv.trace.length p =
      client.connect start.srv.zodiacPrognosises raw fd := by
  have hnil : start.srv.trace.drop start.srv.trace.length = [] := List.drop_length
  have hempty : connEvents p ((start.srv.withKernel k).trace.drop start.srv.trace.length) = [] :=
    congrArg (connEvents p) hnil
  rw [Server.view, hempty, Client.connect, Ctx.behind, Ctx.mk.injEq]
  refine ⟨h.conn, rfl, ?_⟩
  rw [Io.behind, Io.mk.injEq]
  exact ⟨hk.recvs, hk.sends, rfl⟩

/-- A step that has nothing to do with the connection does not change its view. -/
theorem Apart.view (h : Apart p srv srv') (hbegan : began ≤ srv.trace.length) (k : Kernel) :
    (srv'.withKernel k).view began p = (srv.withKernel k).view began p := by
  obtain ⟨es, htrace, hes⟩ := h.trace
  have hrecord : connEvents p (srv'.trace.drop began) = connEvents p (srv.trace.drop began) := by
    rw [htrace, List.drop_append_of_le_length hbegan, connEvents_append, hes, List.append_nil]
  show Ctx.behind (connEvents p (srv'.trace.drop began)) _ = Ctx.behind _ _
  rw [hrecord]
  refine congrArg (Ctx.behind _) ?_
  show Ctx.mk _ _ _ = Ctx.mk _ _ _
  rw [Ctx.mk.injEq]
  exact ⟨h.conn, h.zodiacPrognosises, rfl⟩

/-- Nor does `epoll_ctl`. -/
theorem Watched.view {fd : Fd} {events : Option EpollEvent} {ret : ℤ}
    (h : Watched fd events srv ret srv') (hk : k.Answers srv'.kernel.recvs srv'.kernel.sends) :
    (srv'.withKernel k).view began p = srv.view began p := by
  have hmem : srv'.mem = srv.mem := congrArg HeapMem.mem h.toHeapMem
  show Ctx.behind (connEvents p (srv'.trace.drop began)) _ = Ctx.behind _ _
  rw [h.trace]
  refine congrArg (Ctx.behind _) ?_
  show Ctx.mk _ _ (Io.mk _ _ _) = Ctx.mk _ _ (Io.mk _ _ _)
  rw [Ctx.mk.injEq, Io.mk.injEq]
  exact ⟨congrArg (fun mem => (mem p).toConnState) hmem, h.zodiacPrognosises,
    hk.recvs.trans h.recvs, hk.sends.trans h.sends, rfl⟩

/-- A call that leaves the connection there leaves it as its rounds did. -/
theorem watched_of_updateState (h : Ready p srv) {fuel : ℕ} {r : ℤ × Server}
    (hr : updateState fuel p srv = some r) (hp : p ∈ r.2.allocated) :
    0 < fuel ∧ ∃ fd events ret, Watched fd events (updateStateRounds p fuel srv) ret r.2 := by
  obtain ⟨srv₁, hloop, rfl⟩ := Option.map_eq_some_iff.mp hr
  obtain ⟨rfl, hpos⟩ := rounds_of_loop hloop
  refine ⟨hpos, ?_⟩
  rcases afterLoop_cases (srv.mem p).op p (updateStateRounds p fuel srv) with
    ⟨-, heq⟩ | ⟨-, mask, ret, hw⟩
  · have hready := h.rounds fuel
    rw [heq] at hp
    rw [(hready.inv.removed hready.mem).allocated] at hp
    exact absurd rfl (Finset.mem_erase.mp hp).1
  · exact ⟨_, _, ret, hw⟩

/-- Some more handler calls. -/
theorem Client.run_add (client : Client) (table : Table) (raw : ConnState) (fd i m : ℕ) :
    client.run table raw fd (i + m) = (client.call^[i]) (client.run table raw fd m) :=
  Function.iterate_add_apply _ _ _ _

/-- Calls that had something to do, and then some more of them. -/
theorem fed_add {i m : ℕ} (hm : ∀ j < m, ¬ client.Starved (client.run table raw fd j))
    (hi : ∀ j < i, ¬ client.Starved ((client.call^[j]) (client.run table raw fd m))) :
    ∀ j < i + m, ¬ client.Starved (client.run table raw fd j) := by
  intro j hj
  by_cases hjm : j < m
  · exact hm j hjm
  · have hsub : j - m + m = j := Nat.sub_add_cancel (Nat.le_of_not_lt hjm)
    rw [← hsub, Client.run_add]
    exact hi (j - m) (by omega)

/-- **A step of a conversation** keeps the invariant: what has nothing to do with the connection
makes no handler call, and a call of `update_state` makes one for each round. -/
theorem Client.Conversation.stage (ha : Client.Accepted start p raw fd)
    (h : client.Conversation p start n recvs sends c) :
    client.Stage p start raw fd n recvs sends c := by
  induction h with
  | accepted =>
    exact ⟨ha.inv, ha.idle, ha.mem, Nat.le_refl _, 0, Nat.le_refl 0,
      fun k hk => view_accepted ha hk, fun j hj => absurd hj (Nat.not_lt_zero j)⟩
  | apart h hs hapart ih =>
    obtain ⟨m, hm, hview, hfed⟩ := ih.run
    obtain ⟨es, htrace, -⟩ := hapart.trace
    refine ⟨ih.inv.step hs, ih.idle.step ih.inv hs, hapart.mem, ih.began.trans ?_, m, hm,
      fun k hk => (hapart.view ih.began k).trans (hview k hk), hfed⟩
    rw [htrace, List.length_append]
    exact Nat.le_add_right _ _
  | @call n recvs sends srv events k fuel r h hk hready hr hp ih =>
    obtain ⟨m, hm, hview, hfed⟩ := ih.run
    have hstep := Step.update srv k p events hr
    have hrdy := ih.ready k
    obtain ⟨hfuel, fd', mask, ret, hw⟩ := watched_of_updateState hrdy hr hp
    obtain ⟨i, -, hrounds, hi, hfed', -⟩ := view_rounds hrdy ih.began hready.not_starved fuel
    have hlen : srv.trace.length ≤ r.2.trace.length :=
      hw.trace.symm ▸ trace_length_rounds hrdy fuel
    refine ⟨ih.inv.step hstep, ih.idle.step ih.inv hstep, hp, ih.began.trans hlen, i + m, ?_,
      fun k' hk' => ?_, fed_add hfed ?_⟩
    · have hpos := hi hfuel
      omega
    · rw [Client.run_add, ← hview k hk, ← hrounds]
      exact hw.view hk'
    · rw [← hview k hk]
      exact hfed'

/-- **Every moment** of a conversation is a moment of a run of the handlers: the view of the
connection is the state behind so many handler calls. -/
theorem Client.Moment.run (ha : Client.Accepted start p raw fd)
    (h : client.Moment p start srv) : ∃ m, srv.view start.srv.trace.length p =
      client.run start.srv.zodiacPrognosises raw fd m := by
  cases h with
  | between h hk =>
    obtain ⟨m, -, hview, -⟩ := (h.stage ha).run
    exact ⟨m, hview _ hk⟩
  | @inside n recvs sends srv events k h hk hready rounds =>
    have hstage := h.stage ha
    obtain ⟨m, -, hview, -⟩ := hstage.run
    obtain ⟨i, -, hrounds, -⟩ := view_rounds (hstage.ready k) hstage.began
      hready.not_starved rounds
    refine ⟨i + m, ?_⟩
    rw [Client.run_add, ← hview k hk, ← hrounds]

/-! ## Where it ends

Every call makes progress in the run of the handlers, and the run settles.  A call that does not
return is no exception: its rounds get to a state in which the connection is over, and this is
where the run has settled. -/

/-- Where a run has settled it stays. -/
theorem Client.Settled.call {ctx : Ctx} (h : client.Settled ctx) : client.call ctx = ctx := by
  by_cases hs : client.Starved ctx
  · exact if_pos hs
  · rw [Client.call, if_neg hs, handleState]
    rcases h with h | h | h
    · rw [h]
    · rw [h]
    · exact absurd h hs

theorem Client.Settled.run_of_le {m n : ℕ} (h : client.Settled (client.run table raw fd m))
    (hle : m ≤ n) : client.run table raw fd n = client.run table raw fd m := by
  rw [← Nat.sub_add_cancel hle, Client.run_add]
  exact Function.iterate_fixed h.call (n - m)

/-- A connection at rest is not over, so a run gets no further than where it settles. -/
theorem Client.Stage.le_of_settled (h : client.Stage p start raw fd n recvs sends c) {most : ℕ}
    (hmost : client.Settled (client.run start.srv.zodiacPrognosises raw fd most)) :
    n ≤ most := by
  obtain ⟨m, hm, hview, hfed⟩ := h.run
  by_contra hlt
  have hlt' : most < m := Nat.lt_of_lt_of_le (Nat.lt_of_not_le hlt) hm
  have hlast := hview ⟨recvs, sends, c.srv.kernel.clock, c.srv.kernel.ctlFails⟩ ⟨rfl, rfl⟩
  rw [hmost.run_of_le (Nat.le_of_lt hlt')] at hlast
  have hover := (h.idle p h.mem).not_over
  rcases hmost with hs | hs | hs
  · rw [← hlast] at hs
    exact hover (Or.inl hs)
  · rw [← hlast] at hs
    exact hover (Or.inr hs)
  · exact hfed most hlt' hs

/-- Between two calls nothing is left in `interm_buf`. -/
theorem Server.Idle.starved (h : srv.Idle p)
    (hnot : ¬ client.Reported ((srv.withKernel k).view began p)) :
    client.Starved ((srv.withKernel k).view began p) := by
  simp only [Client.Reported, Classical.not_imp, not_or, ne_eq, not_not] at hnot
  obtain ⟨hop, heof, hrecv⟩ := hnot
  refine ⟨hop, ?_, Bool.eq_false_iff.mpr heof, hrecv⟩
  have hgo := h.not_goesOn
  rw [ConnState.goesOn, Bool.and_eq_false_iff, decide_eq_false_iff_not,
    decide_eq_false_iff_not] at hgo
  rcases hgo with hne | hne
  · exact absurd hop hne
  · exact not_not.mp hne

/-- A call that does not return gets to a state in which the connection is over. -/
theorem Client.Stage.over_of_not_returns (h : client.Stage p start raw fd n recvs sends c)
    {most : ℕ} (hmost : client.Settled (client.run start.srv.zodiacPrognosises raw fd most))
    (hk : k.Answers recvs sends)
    (hready : client.Reported ((c.srv.withKernel k).view start.srv.trace.length p))
    (hloop : updateStateLoop p (most + 1) (c.srv.withKernel k) = none) :
    ((updateStateRounds p (most + 1) (c.srv.withKernel k)).mem p).over := by
  obtain ⟨m, -, hview, -⟩ := h.run
  obtain ⟨i, hi, hrounds, -, -, hlast⟩ := view_rounds (h.ready k) h.began hready.not_starved
    (most + 1)
  have hgo : ((updateStateRounds p (most + 1) (c.srv.withKernel k)).mem p).goesOn = true := by
    rw [updateStateLoop_eq] at hloop
    split at hloop
    next hgo => exact hgo
    next => cases hloop
  have hieq : i = most + 1 := by
    by_contra hne
    have hstop := hlast (Nat.succ_pos most) (Nat.lt_of_le_of_ne hi hne)
    rw [hgo] at hstop
    cases hstop
  have hrun : (updateStateRounds p (most + 1) (c.srv.withKernel k)).view
      start.srv.trace.length p = client.run start.srv.zodiacPrognosises raw fd most := by
    rw [hrounds, hview k hk, ← Client.run_add]
    exact hmost.run_of_le (by omega)
  rw [← hrun] at hmost
  rcases hmost with hs | hs | hs
  · exact Or.inl hs
  · exact Or.inr hs
  · exact absurd hs (not_starved_of_goesOn hgo)

/-- **The conversation ends** where the run of the handlers settles.  Each call makes at least one
handler call, and the run has so many of them at most. -/
theorem Client.Accepted.ends (client : Client) (ha : Client.Accepted start p raw fd) :
    client.Ends p start := by
  obtain ⟨most, hmost⟩ :=
    (client.inv_connect start.srv.zodiacPrognosises raw fd).settles
  refine ⟨most, fun n recvs sends c k h hk => ?_⟩
  have hstage := h.stage ha
  refine ⟨hstage.le_of_settled hmost, (hstage.idle p hstage.mem).starved, fun hready => ?_⟩
  cases hloop : updateStateLoop p (most + 1) (c.srv.withKernel k) with
  | none => exact Or.inl ⟨most + 1, hstage.over_of_not_returns hmost hk hready hloop⟩
  | some srv₁ =>
    rcases afterLoop_cases ((c.srv.withKernel k).mem p).op p srv₁ with
      ⟨hover, -⟩ | ⟨-, mask, ret, hw⟩
    · rw [(rounds_of_loop hloop).1] at hover
      exact Or.inl ⟨most + 1, hover⟩
    · refine Or.inr ⟨most + 1, _, congrArg (Option.map _) hloop, ?_⟩
      show p ∈ (afterLoop _ p srv₁).2.allocated
      rw [hw.allocated, (rounds_of_loop hloop).1]
      exact ((hstage.ready k).rounds (most + 1)).mem

/-- A moment that has settled shows the reference. -/
theorem Client.Moment.reading_eq (ha : Client.Accepted start p raw fd)
    (h : client.Moment p start srv)
    (hs : client.Settled (srv.view start.srv.trace.length p)) :
    (srv.view start.srv.trace.length p).reading =
      reference (fun z => rowLine (start.srv.zodiacPrognosises z)) client.stream client.eof := by
  obtain ⟨m, hm⟩ := h.run ha
  rw [hm] at hs ⊢
  exact (client.run_eq_reference start.srv.zodiacPrognosises raw fd).1 m hs

end Conversation

/-- A new connection in a state of some run, whatever the table holds. -/
theorem Reachable.accepted {pc : Pc} {srv : Server} (h : Reachable ⟨pc, srv⟩) {p : Ptr}
    (hp : p ∈ srv.allocated) {raw : ConnState} {fd : Fd}
    (hconn : (srv.mem p).toConnState = raw.create fd) (table : Table) :
    Client.Accepted ⟨pc, { srv with zodiacPrognosises := table }⟩ p raw fd := by
  have hinv := h.inv
  refine ⟨⟨⟨hinv.srv.heap.congr rfl rfl fun q => ⟨rfl, rfl⟩, hinv.srv.watch, hinv.srv.sound⟩,
    hinv.events⟩, h.idle.of_eq rfl rfl, hp, hconn⟩

/-- **Segmentation independence.**  In every state of every run of `main`, and whatever the table
holds: let a connection have just been accepted, and let its client be served by calls of
`update_state`, in between whatever else `main` does that leaves the table alone.  However the
stream is cut into the results of `recv`, and the replies into the results of `send`: behind
every round of every call at which the connection is over, or all the input is used and the
replies are sent, the updates of the table and the bytes sent, the way the connection ended and
the table are those of the reference; and the conversation gets there. -/
theorem Client.conversation_eq_reference (client : Client) {pc : Pc} {srv : Server}
    (h : Reachable ⟨pc, srv⟩) {p : Ptr} (hp : p ∈ srv.allocated) {raw : ConnState} {fd : Fd}
    (hconn : (srv.mem p).toConnState = raw.create fd) (table : Table) :
    let start : Config := ⟨pc, { srv with zodiacPrognosises := table }⟩
    (∀ srv', client.Moment p start srv' →
      client.Settled (srv'.view srv.trace.length p) →
      (srv'.view srv.trace.length p).reading =
        reference (fun z => rowLine (table z)) client.stream client.eof) ∧
    client.Ends p start := by
  have ha := h.accepted hp hconn table
  exact ⟨fun srv' hm hs => hm.reading_eq ha hs, ha.ends client⟩

/-! A conversation to look at: the connection `1` sends two requests in one piece.  The second one
is served by a call that was made to send the reply to the first. -/

/-- A prognosis has been stored for every zodiac. -/
def sampleTold : Server :=
  { sampleTwo with zodiacPrognosises := fun _ => (CArray.replicate _ 0).memcpy 0 (str "hi\n") }

def sampleEagerChunks : List (List Byte) := [str "HOROSCOPE Aries\nHOROSCOPE Aries\n"]

theorem sampleEagerChunks_cut :
    ∀ b ∈ sampleEagerChunks, b ≠ [] ∧ b.length ≤ astrologBufLen := by decide

def sampleEager : Client where
  chunks := sampleEagerChunks
  cut := sampleEagerChunks_cut
  eof := false
  room := Stream'.const 79

def sampleAnswers (recvs : Stream' RecvResult) (sends : Stream' SendResult) : Kernel :=
  { sampleKernel 0 with recvs := recvs, sends := sends }

/-- The view of the connection `1` when its client has these answers left. -/
def Server.sampleView (srv : Server) (recvs : Stream' RecvResult) (sends : Stream' SendResult) :
    Ctx :=
  (srv.withKernel (sampleAnswers recvs sends)).view sampleTold.trace.length 1

/-- `epoll_wait` reports the connection `1`, and its client answers. -/
def Server.sampleTalk (srv : Server) (recvs : Stream' RecvResult) (sends : Stream' SendResult) :
    Option (ℤ × Server) :=
  srv.sampleServe 1 (sampleAnswers recvs sends)

def sampleHeard : Option (ℤ × Server) :=
  sampleTold.sampleTalk sampleEager.recvs sampleEager.sends

def sampleHeardAgain : Option (ℤ × Server) :=
  sampleHeard.bind fun r => r.2.sampleTalk r.2.kernel.recvs r.2.kernel.sends

def sampleReplied : Option (ℤ × Server) :=
  sampleHeardAgain.bind fun r => r.2.sampleTalk r.2.kernel.recvs r.2.kernel.sends

/-- What a next call needs. -/
def sampleGoesOn (r : ℤ × Server) : Prop :=
  r.1 = 0 ∧ r.2.epoll 5 = some ⟨epollOut, some 1⟩ ∧ 1 ∈ r.2.allocated ∧
    sampleEager.Reported (r.2.sampleView r.2.kernel.recvs r.2.kernel.sends)

instance (r : ℤ × Server) : Decidable (sampleGoesOn r) := inferInstanceAs (Decidable (_ ∧ _))

theorem conversation_sampleTalk {n : ℕ} {recvs : Stream' RecvResult} {sends : Stream' SendResult}
    {srv : Server} (h : sampleEager.Conversation 1 ⟨.epollWait, sampleTold⟩ n recvs sends
      ⟨.epollWait, srv⟩) {mask : UInt32} (hfd : srv.epoll 5 = some ⟨mask, some 1⟩)
    (hmem : 1 ∈ srv.allocated) (hready : sampleEager.Reported (srv.sampleView recvs sends))
    {r : ℤ × Server} (hr : srv.sampleTalk recvs sends = some r) (hret : r.1 = 0)
    (hp : 1 ∈ r.2.allocated) :
    sampleEager.Conversation 1 ⟨.epollWait, sampleTold⟩ (n + 1) r.2.kernel.recvs r.2.kernel.sends
      ⟨.epollWait, r.2⟩ := by
  have hreports : srv.Reports [some 1] :=
    ⟨[5], List.nodup_singleton 5, by decide, .cons ⟨mask, hfd⟩ .nil⟩
  have hwait := h.apart (.waitEvents srv (sampleKernel 0) (List.cons_ne_nil _ _) hreports) <| by
    rw [minTimeout_eq]
    exact ⟨hmem, rfl, rfl, [], (List.append_nil _).symm, rfl⟩
  have hcall := hwait.call (k := sampleAnswers recvs sends) ⟨rfl, rfl⟩ (by
    rw [minTimeout_eq]
    exact hready) hr hp
  rw [hret] at hcall
  exact hcall.apart (.dispatched _) ⟨hp, rfl, rfl, [], (List.append_nil _).symm, rfl⟩

/-- Both requests have been answered, and nothing more comes. -/
theorem sampleReplied_settled : ∃ r, sampleReplied = some r ∧
    sampleEager.Moment 1 ⟨.epollWait, sampleTold⟩
      (r.2.withKernel (sampleAnswers r.2.kernel.recvs r.2.kernel.sends)) ∧
    sampleEager.Settled (r.2.sampleView r.2.kernel.recvs r.2.kernel.sends) := by
  have hheard : (sampleHeard.map fun r => decide (sampleGoesOn r)) = some true := by decide
  have hagain : (sampleHeardAgain.map fun r => decide (sampleGoesOn r)) = some true := by decide
  have hreplied : (sampleReplied.map fun r => decide (r.1 = 0 ∧ 1 ∈ r.2.allocated ∧
      sampleEager.Starved (r.2.sampleView r.2.kernel.recvs r.2.kernel.sends))) =
        some true := by decide
  obtain ⟨r₁, h₁, hgo₁⟩ := Option.map_eq_some_iff.mp hheard
  obtain ⟨hret₁, hfd₁, hmem₁, hready₁⟩ := of_decide_eq_true hgo₁
  obtain ⟨r₂, h₂, hgo₂⟩ := Option.map_eq_some_iff.mp hagain
  obtain ⟨hret₂, hfd₂, hmem₂, hready₂⟩ := of_decide_eq_true hgo₂
  obtain ⟨r₃, h₃, hgo₃⟩ := Option.map_eq_some_iff.mp hreplied
  obtain ⟨hret₃, hmem₃, hstarved⟩ := of_decide_eq_true hgo₃
  have htalk₂ := h₂
  rw [sampleHeardAgain, h₁, Option.bind_some] at htalk₂
  have htalk₃ := h₃
  rw [sampleReplied, h₂, Option.bind_some] at htalk₃
  have hconv₁ := conversation_sampleTalk .accepted rfl (by decide) (by decide) h₁ hret₁ hmem₁
  have hconv₂ := conversation_sampleTalk hconv₁ hfd₁ hmem₁ hready₁ htalk₂ hret₂ hmem₂
  have hconv₃ := conversation_sampleTalk hconv₂ hfd₂ hmem₂ hready₂ htalk₃ hret₃ hmem₃
  exact ⟨r₃, h₃, .between hconv₃ ⟨rfl, rfl⟩, Or.inr (Or.inr hstarved)⟩

theorem rowLine_sampleTold (z : ℕ) :
    rowLine (sampleTold.zodiacPrognosises z) = some (str "hi\n") := by
  show rowLine ((CArray.replicate _ 0).memcpy 0 (str "hi\n")) = _
  decide

/-- That is what `reference` says. -/
theorem sampleReplied_reading : ∃ r, sampleReplied = some r ∧
    (r.2.sampleView r.2.kernel.recvs r.2.kernel.sends).reading =
      reference (fun _ => some (str "hi\n")) sampleEager.stream false ∧
    (r.2.sampleView r.2.kernel.recvs r.2.kernel.sends).reading.outputs =
      (str "hi\nhi\n").map .sent := by
  obtain ⟨r, hr, hmoment, hsettled⟩ := sampleReplied_settled
  have hmem : 1 ∈ sampleTwo.allocated := by decide
  have hconn : (sampleTwo.mem 1).toConnState = sampleBlock.toConnState.create 5 := rfl
  have hreading := (sampleEager.conversation_eq_reference sampleTwo_reachable hmem hconn
    sampleTold.zodiacPrognosises).1 _ hmoment hsettled
  rw [funext rowLine_sampleTold] at hreading
  exact ⟨r, hr, hreading, (congrArg Reading.outputs hreading).trans (by decide)⟩

end Astrologer
