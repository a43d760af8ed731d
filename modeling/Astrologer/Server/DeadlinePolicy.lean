import Astrologer.Server.HeapInvariant

/-!
# The deadline of a phase

A connection goes through phases: it is created and waits for a request line, a star line
is accepted and the prognosis is awaited, a reply is prepared and sent, and then it waits
for the next line.  At the beginning of each phase the clock is read, and the deadline is
set to this reading and the timeout of the phase: `RECV_TIMEOUT_SEC` if the phase receives,
`SEND_TIMEOUT_SEC` if it sends.  In the source `op` and `ts` are set in separate statements
in five places.

`Readings` writes down the clock at the beginning of each phase.  It looks at the clock and
at the states of a connection before and behind a handler (`ServerStateType.begins`), and
not at the deadlines.  Every run of `main` has its readings (`Reachable.noted`).

`deadline_policy`: in every state of every run the deadline of each live connection is the
latest reading and the timeout of `op`; and from any state of a run to any later one the
deadline stays what it is for as long as no phase begins, however many pieces are received
and sent.

Everything goes through one relation, `Moves`: what any part of a run may do to a deadline.
-/

namespace Astrologer

open ServerStateType FdOperation

/-! ## The readings of the clock

The bookkeeping follows the functions of `main` and looks at states only, so it can be checked
against the source without thinking of deadlines. -/

/-- The clock at the beginning of each phase of each connection, the latest first. -/
abbrev Readings := Ptr → List Timespec

/-- A phase of `p` begins. -/
def Readings.note (readings : Readings) (p : Ptr) (now : Timespec) : Readings :=
  Function.update readings p (now :: readings p)

/-- The connection goes on in another state: a star line has been accepted, a reply
prepared, or a reply completely sent. -/
def ServerStateType.begins (t t' : ServerStateType) : Bool :=
  decide (t' ≠ t ∧ t' ≠ stateError ∧ t' ≠ stateSuccess)

/-- A round of `update_state`. -/
def roundReadings (p : Ptr) (srv : Server) (readings : Readings) : Readings :=
  if (srv.mem p).state.begins ((runHandler p srv).mem p).state then
    readings.note p srv.kernel.clock.head
  else
    readings

/-- The loop of `update_state`. -/
def loopReadings (p : Ptr) : ℕ → Server → Readings → Readings
  | 0, _, readings => readings
  | fuel + 1, srv, readings =>
    let readings := roundReadings p srv readings
    let srv := runHandler p srv
    if (srv.mem p).goesOn then loopReadings p fuel srv readings else readings

/-- The loop of `discard_expired_connections`. -/
def discardReadings (curTsNs : ℤ) : ℕ → Server → Readings → Readings
  | 0, _, readings => readings
  | fuel + 1, srv, readings =>
    match binaryHeapTop srv.toHeapMem with
    | none => readings
    | some elem =>
      if accumTimeNs (srv.mem elem).ts ≤ curTsNs then
        let srv := srv.setState elem stateError
        match updateState fuel elem srv with
        | none => readings
        | some r => discardReadings curTsNs fuel r.2 (loopReadings elem fuel srv readings)
      else
        readings

/-- `process_new_connection`: a block that is in use behind it is a new connection. -/
def newReadings (conSocket : Option Fd) (block : Option (Ptr × ServerState)) (srv : Server)
    (readings : Readings) : Readings :=
  match block with
  | none => readings
  | some (p, _) =>
    if p ∈ (processNewConnection conSocket block srv).2.allocated then
      readings.note p srv.kernel.clock.head
    else
      readings

/-- The steps of `main`, each with what it adds to the readings.  It has the constructors of
`Step`, and forgetting the readings gives a step back, so a noted run is a run. -/
inductive Noted : Config × Readings → Config × Readings → Prop
  | waitFailed (srv : Server) (k : Kernel) (readings : Readings) :
    Noted (⟨.epollWait, srv⟩, readings)
      (⟨.freeHeapElems, (minTimeout (srv.withKernel k)).2.2⟩, readings)
  | waitExpired (srv : Server) (k : Kernel) (readings : Readings) {fuel : ℕ} {srv' : Server}
      (h : discardExpiredConnections fuel (minTimeout (srv.withKernel k)).2.2 =
        some srv') :
    Noted (⟨.epollWait, srv⟩, readings)
      (⟨.epollWait, srv'⟩,
        let now := getCurTime (minTimeout (srv.withKernel k)).2.2
        discardReadings (accumTimeNs now.1) fuel now.2 readings)
  | waitEvents (srv : Server) (k : Kernel) (readings : Readings) {events : List (Option Ptr)}
      (hne : events ≠ []) (h : srv.Reports events) :
    Noted (⟨.epollWait, srv⟩, readings)
      (⟨.dispatch events, (minTimeout (srv.withKernel k)).2.2⟩, readings)
  | dispatched (srv : Server) (readings : Readings) :
    Noted (⟨.dispatch [], srv⟩, readings) (⟨.epollWait, srv⟩, readings)
  | newConnection (srv : Server) (k : Kernel) (events : List (Option Ptr))
      (readings : Readings) {conSocket : Option Fd} {block : Option (Ptr × ServerState)}
      (hfd : ∀ fd ∈ conSocket, srv.epoll fd = none)
      (hblock : ∀ b ∈ block, b.1 ∉ srv.allocated) :
    Noted (⟨.dispatch (none :: events), srv⟩, readings)
      (⟨if (processNewConnection conSocket block (srv.withKernel k)).1 ≠ 0
          then .freeHeapElems else .dispatch events,
        (processNewConnection conSocket block (srv.withKernel k)).2⟩,
        newReadings conSocket block (srv.withKernel k) readings)
  | update (srv : Server) (k : Kernel) (p : Ptr) (events : List (Option Ptr))
      (readings : Readings) {fuel : ℕ} {r : ℤ × Server}
      (h : updateState fuel p (srv.withKernel k) = some r) :
    Noted (⟨.dispatch (some p :: events), srv⟩, readings)
      (⟨if r.1 ≠ 0 then .freeHeapElems else .dispatch events, r.2⟩,
        loopReadings p fuel (srv.withKernel k) readings)
  | freeElem (srv : Server) (k : Kernel) (readings : Readings) (h : 0 < srv.heap.size) :
    Noted (⟨.freeHeapElems, srv⟩, readings)
      (⟨.freeHeapElems,
        removeServerState (srv.heap.arr (srv.heap.size - 1)) (srv.withKernel k)⟩, readings)
  | freed (srv : Server) (readings : Readings) (h : srv.heap.size = 0) :
    Noted (⟨.freeHeapElems, srv⟩, readings) (⟨.returned, srv⟩, readings)

/-- A part of a run. -/
abbrev NotedRun := Relation.ReflTransGen Noted

/-- The states of every run, with the readings since its beginning. -/
def NotedReachable (c : Config) (readings : Readings) : Prop :=
  ∃ listenSocket srv, Initial listenSocket srv ∧
    NotedRun (⟨.epollWait, srv⟩, fun _ => []) (c, readings)

/-- The readings are only looked on. -/
theorem Noted.step {x y : Config × Readings} (h : Noted x y) : Step x.1 y.1 := by
  cases h with
  | waitFailed srv k => exact .waitFailed srv k
  | waitExpired srv k _ h => exact .waitExpired srv k h
  | waitEvents srv k _ hne h => exact .waitEvents srv k hne h
  | dispatched srv => exact .dispatched srv
  | newConnection srv k events _ hfd hblock => exact .newConnection srv k events hfd hblock
  | update srv k p events _ h => exact .update srv k p events h
  | freeElem srv k _ h => exact .freeElem srv k h
  | freed srv _ h => exact .freed srv h

/-- Every step has its readings. -/
theorem Step.noted {c c' : Config} (h : Step c c') (readings : Readings) :
    ∃ readings', Noted (c, readings) (c', readings') := by
  cases h with
  | waitFailed srv k => exact ⟨_, .waitFailed srv k readings⟩
  | waitExpired srv k h => exact ⟨_, .waitExpired srv k readings h⟩
  | waitEvents srv k hne h => exact ⟨_, .waitEvents srv k readings hne h⟩
  | dispatched srv => exact ⟨_, .dispatched srv readings⟩
  | newConnection srv k events hfd hblock =>
    exact ⟨_, .newConnection srv k events readings hfd hblock⟩
  | update srv k p events h => exact ⟨_, .update srv k p events readings h⟩
  | freeElem srv k h => exact ⟨_, .freeElem srv k readings h⟩
  | freed srv h => exact ⟨_, .freed srv readings h⟩

/-- **Every run has its readings**, so what is said of noted runs is said of all: each step of
`main` can be noted. -/
theorem Reachable.noted {c : Config} (h : Reachable c) :
    ∃ readings, NotedReachable c readings := by
  induction h with
  | init h => exact ⟨_, _, _, h, .refl⟩
  | step _ hs ih =>
    obtain ⟨readings, listenSocket, srv, hinit, hrun⟩ := ih
    obtain ⟨readings', hnoted⟩ := hs.noted readings
    exact ⟨readings', listenSocket, srv, hinit, hrun.tail hnoted⟩

theorem NotedReachable.reachable {c : Config} {readings : Readings}
    (h : NotedReachable c readings) : Reachable c := by
  obtain ⟨listenSocket, srv, hinit, hrun⟩ := h
  have hall : ∀ y, NotedRun (⟨.epollWait, srv⟩, fun _ => []) y → Reachable y.1 := by
    intro y hy
    induction hy with
    | refl => exact .init hinit
    | tail _ hs ih => exact ih.step hs.step
  exact hall _ hrun

/-! ## What may happen to a deadline

The relation that a part of a run has to keep is reflexive and transitive, so it is shown for the
parts and chained.  A step that leaves the deadlines and the readings alone is in it at once. -/

/-- **What a part of a run does to the deadlines.**  Each connection that is live behind it
was live before, in the same phase, with the same deadline; or a phase has begun, and the
deadline is the reading of the clock and the timeout. -/
structure Moves (srv : Server) (readings : Readings) (srv' : Server) (readings' : Readings) :
    Prop where
  grows : ∀ q, readings q <:+ readings' q
  cases : ∀ q ∈ srv'.allocated,
    (q ∈ srv.allocated ∧ readings' q = readings q ∧ (srv'.mem q).ts = (srv.mem q).ts ∧
      (srv'.mem q).op = (srv.mem q).op) ∨
    ∃ now rest, readings' q = now :: rest ∧ readings q <:+ rest ∧
      (srv'.mem q).ts = updateTs now (srv'.mem q).op

section Moves

variable {srv srv' srv'' : Server} {readings readings' readings'' : Readings} {p : Ptr}

theorem Moves.of_same (hsub : srv'.allocated ⊆ srv.allocated)
    (hsame : ∀ q ∈ srv'.allocated, (srv'.mem q).ts = (srv.mem q).ts ∧
      (srv'.mem q).op = (srv.mem q).op) : Moves srv readings srv' readings :=
  ⟨fun _ => List.suffix_refl _, fun q hq => Or.inl ⟨hsub hq, rfl, hsame q hq⟩⟩

theorem Moves.refl (srv : Server) (readings : Readings) : Moves srv readings srv readings :=
  .of_same (Finset.Subset.refl _) fun _ _ => ⟨rfl, rfl⟩

theorem Moves.trans (h : Moves srv readings srv' readings')
    (h' : Moves srv' readings' srv'' readings'') : Moves srv readings srv'' readings'' := by
  refine ⟨fun q => (h.grows q).trans (h'.grows q), fun q hq => ?_⟩
  rcases h'.cases q hq with ⟨hq', hread', hts', hop'⟩ | ⟨now, rest, hread', hrest, hts'⟩
  · rcases h.cases q hq' with ⟨hq'', hread, hts, hop⟩ | ⟨now, rest, hread, hrest, hts⟩
    · exact Or.inl ⟨hq'', hread'.trans hread, hts'.trans hts, hop'.trans hop⟩
    · exact Or.inr ⟨now, rest, hread'.trans hread, hrest, by rw [hts', hts, hop']⟩
  · exact Or.inr ⟨now, rest, hread', (h.grows q).trans hrest, hts'⟩

theorem Readings.suffix_note (readings : Readings) (p : Ptr) (now : Timespec) (q : Ptr) :
    readings q <:+ readings.note p now q := by
  rw [Readings.note]
  by_cases hq : q = p
  · rw [hq, Function.update_self]
    exact List.suffix_cons _ _
  · rw [Function.update_of_ne hq]

/-- A phase of one connection begins. -/
theorem Moves.noted (now : Timespec) (hsub : srv'.allocated ⊆ insert p srv.allocated)
    (hsame : ∀ q ∈ srv'.allocated, q ≠ p → (srv'.mem q).ts = (srv.mem q).ts ∧
      (srv'.mem q).op = (srv.mem q).op)
    (hself : (srv'.mem p).ts = updateTs now (srv'.mem p).op) :
    Moves srv readings srv' (readings.note p now) := by
  refine ⟨readings.suffix_note p now, fun q hq => ?_⟩
  by_cases hqp : q = p
  · rw [hqp]
    exact Or.inr ⟨now, readings p, Function.update_self p _ readings, List.suffix_refl _, hself⟩
  · refine Or.inl ⟨Finset.mem_of_mem_insert_of_ne (hsub hq) hqp, ?_, hsame q hq hqp⟩
    exact Function.update_of_ne hqp _ readings

/-! ## The handlers

Each handler calls `update_server_state_ts` exactly where it has begun a phase; this is a fact
about each of the five places of the source, and about the paths that begin none. -/

/-- A handler called in `s` ends so that `update_server_state_ts` is called where a phase
begins, and `op` is as it was where none does. -/
def EndsPhase (s : ConnState) (r : Ctx × After) : Prop :=
  (r.2 = .done ∧ r.1.s.op = s.op ∧ s.state.begins r.1.s.state = false) ∨
    (r.2 = .updateTs ∧ s.state.begins r.1.s.state = true)

theorem begins_self (t : ServerStateType) : t.begins t = false := by
  cases t <;> rfl

theorem begins_error (t : ServerStateType) : t.begins stateError = false := by
  cases t <;> rfl

theorem begins_success (t : ServerStateType) : t.begins stateSuccess = false := by
  cases t <;> rfl

variable {c : Ctx}

theorem parseStarFirstLine_endsPhase (hs : c.s.state = stateRecvFirstLine) :
    EndsPhase c.s (parseStarFirstLine c) := by
  unfold parseStarFirstLine
  simp only
  split
  · exact Or.inl ⟨rfl, rfl, begins_error _⟩
  · refine Or.inr ⟨rfl, ?_⟩
    rw [hs]
    rfl

theorem parseClientFirstLine_endsPhase (hs : c.s.state = stateRecvFirstLine) :
    EndsPhase c.s (parseClientFirstLine c) := by
  unfold parseClientFirstLine
  simp only
  split
  · exact Or.inl ⟨rfl, rfl, begins_error _⟩
  · refine Or.inr ⟨rfl, ?_⟩
    rw [hs]
    rfl

theorem firstLineReceived_endsPhase (hs : c.s.state = stateRecvFirstLine) :
    EndsPhase c.s (firstLineReceived c) := by
  unfold firstLineReceived
  simp only
  split
  · split
    · exact parseStarFirstLine_endsPhase hs
    · split
      · exact parseClientFirstLine_endsPhase hs
      · exact Or.inl ⟨rfl, rfl, begins_error _⟩
  · split
    · exact Or.inl ⟨rfl, rfl, begins_error _⟩
    · exact Or.inl ⟨rfl, rfl, begins_self _⟩

theorem prognosisReceived_endsPhase (hs : c.s.state = stateRecvH) :
    EndsPhase c.s (prognosisReceived c) := by
  unfold prognosisReceived
  simp only
  split
  · refine Or.inr ⟨rfl, ?_⟩
    rw [hs]
    rfl
  · split
    · exact Or.inl ⟨rfl, rfl, begins_error _⟩
    · exact Or.inl ⟨rfl, rfl, begins_self _⟩

theorem handleFirstLine_endsPhase (hs : c.s.state = stateRecvFirstLine) :
    EndsPhase c.s (handleFirstLine c) := by
  unfold handleFirstLine
  simp only
  split
  · exact Or.inl ⟨rfl, rfl, begins_error _⟩
  · split
    · refine Or.inl ⟨rfl, rfl, ?_⟩
      simp only
      split
      · exact begins_success _
      · exact begins_error _
    · exact firstLineReceived_endsPhase (c := { c with s := { c.s with
        intermBuf := _, buf := _, curPos := _, rem := _ }, io := _ }) hs

theorem handleRecvH_endsPhase (hs : c.s.state = stateRecvH) :
    EndsPhase c.s (handleRecvH c) := by
  unfold handleRecvH
  simp only
  split
  · exact Or.inl ⟨rfl, rfl, begins_error _⟩
  · split
    · exact Or.inl ⟨rfl, rfl, begins_error _⟩
    · exact prognosisReceived_endsPhase (c := { c with s := { c.s with
        intermBuf := _, buf := _, curPos := _, rem := _ }, io := _ }) hs

theorem handleSendReply_endsPhase (hs : c.s.state = stateSendThanks ∨ c.s.state = stateSendH) :
    EndsPhase c.s (handleSendReply c) := by
  unfold handleSendReply
  simp only
  split
  · exact Or.inl ⟨rfl, rfl, begins_error _⟩
  · split
    · refine Or.inr ⟨rfl, ?_⟩
      rcases hs with hs | hs
      · rw [hs]
        rfl
      · rw [hs]
        rfl
    · exact Or.inl ⟨rfl, rfl, begins_self _⟩

/-- **The new deadline is set where a phase begins**, and nowhere else. -/
theorem handleState_endsPhase (c : Ctx) : EndsPhase c.s (handleState c) := by
  unfold handleState
  cases hs : c.s.state with
  | stateRecvFirstLine => exact handleFirstLine_endsPhase hs
  | stateRecvH => exact handleRecvH_endsPhase hs
  | stateSendThanks => exact handleSendReply_endsPhase (Or.inl hs)
  | stateSendH => exact handleSendReply_endsPhase (Or.inr hs)
  | stateError => exact Or.inl ⟨rfl, rfl, begins_self _⟩
  | stateSuccess => exact Or.inl ⟨rfl, rfl, begins_self _⟩

/-! ## The parts of a run

One lemma for each function of `main`, and then for its steps and its runs. -/

/-- **A round of `update_state`.** -/
theorem moves_runHandler (h : HeapInv srv) (hp : p ∈ srv.allocated) (readings : Readings) :
    Moves srv readings (runHandler p srv) (roundReadings p srv readings) := by
  have hh := h.handled hp
  have hothers : ∀ q, q ≠ p → ((runHandler p srv).mem q).ts = (srv.mem q).ts ∧
      ((runHandler p srv).mem q).op = (srv.mem q).op := fun q hq =>
    ⟨(hh.conn_ne q hq).2, congrArg ConnState.op (hh.conn_ne q hq).1⟩
  have hstate : ((runHandler p srv).mem p).state = (handleState (srv.ctx p)).1.s.state :=
    congrArg ConnState.state hh.conn
  rw [roundReadings, hstate]
  rcases handleState_endsPhase (srv.ctx p) with ⟨hdone, hop, hbegins⟩ | ⟨hupdate, hbegins⟩
  · rw [show (srv.mem p).state.begins _ = false from hbegins, if_neg Bool.false_ne_true]
    refine .of_same hh.allocated.subset fun q _ => ?_
    by_cases hqp : q = p
    · rw [hqp, hh.ts, if_pos hdone]
      exact ⟨rfl, (congrArg ConnState.op hh.conn).trans hop⟩
    · exact hothers q hqp
  · rw [show (srv.mem p).state.begins _ = true from hbegins, if_pos rfl]
    refine .noted _ ?_ (fun q _ hq => hothers q hq) ?_
    · rw [hh.allocated]
      exact Finset.subset_insert p _
    · rw [hh.ts, if_neg (by rw [hupdate]; decide)]

/-- **The loop of `update_state`**: a pipelined request has several phases. -/
theorem moves_loop (h : HeapInv srv) (hp : p ∈ srv.allocated) (readings : Readings) {fuel : ℕ}
    (hloop : updateStateLoop p fuel srv = some srv') :
    Moves srv readings srv' (loopReadings p fuel srv readings) ∧ HeapInv srv' ∧
      srv'.allocated = srv.allocated := by
  induction fuel generalizing srv readings with
  | zero => cases hloop
  | succ fuel ih =>
    have hh := h.handled hp
    have hround := moves_runHandler h hp readings
    rw [updateStateLoop] at hloop
    simp only [loopReadings]
    split at hloop
    next hgoes =>
      rw [if_pos hgoes]
      obtain ⟨hmoves, hinv, halloc⟩ := ih hh.inv (hh.allocated.symm ▸ hp) _ hloop
      exact ⟨hround.trans hmoves, hinv, halloc.trans hh.allocated⟩
    next hgoes =>
      rw [if_neg hgoes]
      cases hloop
      exact ⟨hround, hh.inv, hh.allocated⟩

/-- A removal takes one connection away. -/
theorem moves_removed (h : HeapInv srv) (hp : p ∈ srv.allocated) (readings : Readings) :
    Moves srv readings (removeServerState p srv) readings := by
  have hr := h.removed hp
  refine .of_same ?_ fun q _ => ⟨(hr.same q).2, congrArg ConnState.op (hr.same q).1⟩
  rw [hr.allocated]
  exact Finset.erase_subset p _

theorem moves_afterLoop (h : HeapInv srv) (hp : p ∈ srv.allocated) (initOp : FdOperation)
    (readings : Readings) : Moves srv readings (afterLoop initOp p srv).2 readings := by
  rcases afterLoop_cases initOp p srv with ⟨-, heq⟩ | ⟨-, mask, ret, hw⟩
  · rw [heq]
    exact moves_removed h hp readings
  · refine .of_same hw.allocated.subset fun q _ => ?_
    rw [hw.toHeapMem]
    exact ⟨rfl, rfl⟩

/-- **`update_state`.** -/
theorem moves_updateState (h : HeapInv srv) (hp : p ∈ srv.allocated) (readings : Readings)
    {fuel : ℕ} {r : ℤ × Server} (hr : updateState fuel p srv = some r) :
    Moves srv readings r.2 (loopReadings p fuel srv readings) := by
  obtain ⟨t, hloop, rfl⟩ := Option.map_eq_some_iff.mp hr
  obtain ⟨hmoves, hinv, halloc⟩ := moves_loop h hp readings hloop
  exact hmoves.trans (moves_afterLoop hinv (halloc.symm ▸ hp) _ _)

theorem moves_setState (srv : Server) (p : Ptr) (t : ServerStateType) (readings : Readings) :
    Moves srv readings (srv.setState p t) readings := by
  refine .of_same (Finset.Subset.refl _) fun q _ => ?_
  by_cases hqp : q = p
  · rw [hqp, setState_mem_self]
    exact ⟨rfl, rfl⟩
  · rw [setState_mem_ne hqp]
    exact ⟨rfl, rfl⟩

/-- **The loop of `discard_expired_connections`.**  Each turn gives up a connection, which begins
no phase of another one and ends its own. -/
theorem moves_discardLoop (h : ServerInv srv) (readings : Readings) {cur : ℤ} {fuel : ℕ}
    (hd : discardLoop cur fuel srv = some srv') :
    Moves srv readings srv' (discardReadings cur fuel srv readings) := by
  induction fuel generalizing srv readings with
  | zero => cases hd
  | succ fuel ih =>
    rw [discardLoop] at hd
    rw [discardReadings]
    cases htop : binaryHeapTop srv.toHeapMem with
    | none =>
      simp only [htop, Option.some.injEq] at hd
      exact hd ▸ .refl srv readings
    | some elem =>
      simp only [htop] at hd ⊢
      by_cases hts : accumTimeNs (srv.mem elem).ts ≤ cur
      · rw [if_pos hts] at hd ⊢
        have hmem : elem ∈ srv.allocated := binaryHeapTop_mem h.heap htop
        have hset := h.setState elem stateError
        cases hr : updateState fuel elem (srv.setState elem stateError) with
        | none =>
          rw [hr] at hd
          cases hd
        | some r =>
          rw [hr] at hd
          exact ((moves_setState srv elem stateError readings).trans
            (moves_updateState hset.heap hmem readings hr)).trans
              (ih (hset.updateState hmem hr).1 _ hd)
      · rw [if_neg hts, Option.some.injEq] at hd
        rw [if_neg hts]
        exact hd ▸ .refl srv readings

/-- **`process_new_connection`.** -/
theorem moves_processNewConnection (h : HeapInv srv) (readings : Readings)
    {conSocket : Option Fd} {block : Option (Ptr × ServerState)}
    (hblock : ∀ b ∈ block, b.1 ∉ srv.allocated) :
    Moves srv readings (processNewConnection conSocket block srv).2
      (newReadings conSocket block srv readings) := by
  obtain ⟨hsame, hcases⟩ := h.processNewConnection_cases conSocket hblock
  rcases hcases with halloc | ⟨fd, p, raw, -, rfl, hp, halloc, hconn, hts⟩
  · have hread : newReadings conSocket block srv readings = readings := by
      unfold newReadings
      split
      next => rfl
      next p raw =>
        rw [halloc]
        exact if_neg (hblock _ rfl)
    rw [hread]
    refine .of_same halloc.subset fun q hq => ?_
    obtain ⟨hconn, hts⟩ := hsame q (halloc ▸ hq)
    exact ⟨hts, congrArg ConnState.op hconn⟩
  · have hread : newReadings conSocket (some (p, raw)) srv readings =
        readings.note p srv.kernel.clock.head := by
      unfold newReadings
      rw [halloc]
      exact if_pos (Finset.mem_insert_self p _)
    rw [hread]
    refine .noted _ halloc.subset (fun q hq hqp => ?_) ?_
    · rw [halloc] at hq
      obtain ⟨hconn, hts⟩ := hsame q (Finset.mem_of_mem_insert_of_ne hq hqp)
      exact ⟨hts, congrArg ConnState.op hconn⟩
    · rw [hts]
      exact congrArg _ (congrArg ConnState.op hconn).symm

theorem moves_withKernel (srv : Server) (k : Kernel) (readings : Readings) :
    Moves srv readings (srv.withKernel k) readings :=
  .of_same (Finset.Subset.refl _) fun _ _ => ⟨rfl, rfl⟩

/-- A look at the clock. -/
theorem moves_getCurTime (srv : Server) (readings : Readings) :
    Moves srv readings (getCurTime srv).2 readings :=
  .of_same (Finset.Subset.refl _) fun _ _ => ⟨rfl, rfl⟩

theorem moves_minTimeout (srv : Server) (k : Kernel) (readings : Readings) :
    Moves srv readings (minTimeout (srv.withKernel k)).2.2 readings := by
  rw [minTimeout_eq]
  exact (moves_withKernel srv k readings).trans (moves_getCurTime _ readings)

/-- **A step of `main`.** -/
theorem Noted.moves {x y : Config × Readings} (h : Noted x y) (hinv : LoopInv x.1) :
    Moves x.1.srv x.2 y.1.srv y.2 := by
  cases h with
  | waitFailed srv k readings => exact moves_minTimeout srv k readings
  | waitExpired srv k readings hd =>
    exact ((moves_minTimeout srv k readings).trans (moves_getCurTime _ readings)).trans
      (moves_discardLoop ((hinv.srv.withKernel k).minTimeout.getCurTime) readings hd)
  | waitEvents srv k readings hne hr => exact moves_minTimeout srv k readings
  | dispatched srv readings => exact .refl srv readings
  | newConnection srv k events readings hfd hblock =>
    exact (moves_withKernel srv k readings).trans
      (moves_processNewConnection (hinv.srv.withKernel k).heap readings hblock)
  | update srv k p events readings hu =>
    have hp : p ∈ srv.allocated := (hinv.events _ rfl).2 p (by
      rw [List.reduceOption_cons_of_some]
      exact List.mem_cons_self)
    exact (moves_withKernel srv k readings).trans
      (moves_updateState (hinv.srv.withKernel k).heap hp readings hu)
  | freeElem srv k readings hsize =>
    have hlast : srv.heap.size - 1 < srv.heap.size := Nat.sub_lt hsize Nat.one_pos
    exact (moves_withKernel srv k readings).trans
      (moves_removed (hinv.srv.withKernel k).heap (hinv.srv.heap.mem_allocated hlast) readings)
  | freed srv readings hsize => exact .refl srv readings

/-- **Any part of a run.** -/
theorem moves_of_run {x y : Config × Readings} (h : NotedRun x y) (hinv : LoopInv x.1) :
    Moves x.1.srv x.2 y.1.srv y.2 := by
  have hall : LoopInv y.1 ∧ Moves x.1.srv x.2 y.1.srv y.2 := by
    induction h with
    | refl => exact ⟨hinv, .refl _ _⟩
    | tail _ hs ih => exact ⟨ih.1.step hs.step, ih.2.trans (hs.moves ih.1)⟩
  exact hall.2

end Moves

/-! ## The policy

At the beginning of a run there are no connections, so the relation between the beginning and a
state says what the deadlines are; between two states of a run it says when one may change. -/

/-- **The deadline policy.**  In every state of every run, the deadline of a live connection
is the clock at the beginning of its latest phase and the timeout of `op`.  And from there
on, for as long as no phase of the connection begins, the deadline stays, whatever is
received and sent. -/
theorem deadline_policy {c : Config} {readings : Readings} (h : NotedReachable c readings) :
    (∀ p ∈ c.srv.allocated, ∃ now rest, readings p = now :: rest ∧
      ((c.srv.mem p).op = opRead → (c.srv.mem p).ts =
        ⟨now.tvSec + recvTimeoutSec, now.tvNsec + recvTimeoutNsec⟩) ∧
      ((c.srv.mem p).op = opWrite → (c.srv.mem p).ts =
        ⟨now.tvSec + sendTimeoutSec, now.tvNsec + sendTimeoutNsec⟩)) ∧
    ∀ c' readings', NotedRun (c, readings) (c', readings') → ∀ p ∈ c'.srv.allocated,
      readings' p = readings p →
        p ∈ c.srv.allocated ∧ (c'.srv.mem p).ts = (c.srv.mem p).ts ∧
          (c'.srv.mem p).op = (c.srv.mem p).op := by
  have hinv := h.reachable.inv
  obtain ⟨listenSocket, srv, hinit, hrun⟩ := h
  constructor
  · intro p hp
    rcases (moves_of_run hrun ⟨hinit.inv, fun _ he => by cases he⟩).cases p hp with
      ⟨hp₀, -⟩ | ⟨now, rest, hread, -, hts⟩
    · -- there are no connections at the beginning
      rw [hinit.allocated] at hp₀
      exact absurd hp₀ (Finset.notMem_empty p)
    · refine ⟨now, rest, hread, fun hop => ?_, fun hop => ?_⟩
      · rw [hts, hop]
        rfl
      · rw [hts, hop]
        rfl
  · intro c' readings' hlater p hp hsame
    rcases (moves_of_run hlater hinv).cases p hp with hkept | ⟨now, rest, hread, hrest, -⟩
    · exact ⟨hkept.1, hkept.2.2⟩
    · -- a phase that has begun is written down
      have hle := hrest.length_le
      have hlen := congrArg List.length (hsame.symm.trans hread)
      rw [List.length_cons] at hlen
      dsimp only at hle
      omega

/-- The deadline of a star that is to be thanked is that of the sending phase. -/
theorem sampleStored_policy : ∃ r readings, sampleStored = some r ∧
    NotedReachable ⟨.epollWait, r.2⟩ readings ∧
      ∃ now rest, readings 1 = now :: rest ∧
        (r.2.mem 1).ts = ⟨now.tvSec + 180, now.tvNsec + 0⟩ := by
  obtain ⟨r, hr, hreach, hmem, -, hop⟩ := sampleStored_reachable
  obtain ⟨readings, hnoted⟩ := hreach.noted
  obtain ⟨now, rest, hread, -, hsend⟩ := (deadline_policy hnoted).1 1 hmem
  exact ⟨r, readings, hr, hnoted, now, rest, hread, hsend hop⟩

end Astrologer
