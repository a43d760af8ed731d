import Astrologer.Clients.Matching

/-!
# A call of the server for a client

`Matched` is kept by the loop of `update_state` and by the whole call (`Serving.updateState`).
A connection that is removed was closed by its client between two exchanges; and a call that
does not remove its connection has moved at least one byte.
-/

namespace Astrologer.Clients

open Lines ServerStateType FdOperation

/-! ## Rounds

What a call records of its connection is what it does to it, so the connection of the client
follows the record (`Link.flow`).  A round of the session takes bytes from `up` or gives bytes to
`down`, and `Matched` is kept by each; the loop of `update_state` is as many rounds.  The first
round makes the one call of `recv` or `send`, and so at least one byte is moved; the later ones
use what has been received. -/

theorem flow_map (p : Ptr) (es : List ConnEvent) (l : Link) :
    (es.map (ServerEvent.conn p)).foldlM (Link.flow p) l = es.foldlM Link.server l := by
  induction es generalizing l with
  | nil => rfl
  | cons e es ih =>
    have hstep : Link.flow p l (.conn p e) = l.server e := if_pos rfl
    rw [List.map_cons, List.foldlM_cons, List.foldlM_cons, hstep]
    exact congrArg (l.server e).bind (funext ih)

theorem replyTo_rowLine_isLine (row : CharArray) : IsLine delimiter (replyTo (rowLine row)) ∧
    (replyTo (rowLine row)).length ≤ astrologBufLen := by
  obtain ⟨-, -, hlen⟩ := exists_replyTo_rowLine row
  refine ⟨?_, hlen⟩
  unfold rowLine
  split
  next hmem => exact isLine_takeLine hmem
  next => exact ⟨str "YOU ARE OUT OF LUCK!", by decide, by decide⟩

theorem storeInv_store_eq {srv : Server} (h : StoreInv srv) (p : Ptr) (z : ℕ) :
    (srv.session p).store z = lastPrognosis z srv.trace := by
  obtain ⟨spec, hrun, hag⟩ := h.accepted
  have hstore : spec.store z = rowLine (srv.zodiacPrognosises z) := by rw [hag.store]
  exact hstore.symm.trans (run_store hrun z)

section Calls

variable {p : Ptr} {b : ℕ} {srv srv' : Server} {l l' : Link} {c : Process}

/-- What a round records: what it asks, what it finds in its bytes, and the new deadline. -/
theorem roundEvents_eq (h : Ready p srv) : ∃ es calls,
    (srv.session p).round.1.io.trace = (srv.session p).io.trace ++ (asks (srv.session p) ++ es) ∧
    Astrologer.roundEvents p (handleState (srv.ctx p)) =
      (asks (srv.session p) ++ es).map (.conn p) ++ calls ∧
    (∀ e ∈ es, e.call = none) ∧ ∀ e ∈ calls, e = .heapCall p (some p) := by
  obtain ⟨es, hes, hsilent⟩ := round_trace (srv.session p)
  have hio : (handleState (srv.ctx p)).1.io.trace = asks (srv.session p) ++ es := by
    have hstate : (handleState (srv.ctx p)).1.session = (srv.session p).round.1 :=
      congrArg Prod.fst (handleState_session (c := srv.ctx p) h.conn).1
    exact (congrArg (fun s : Session => s.io.trace) hstate).trans hes
  refine ⟨es, _, hes, by rw [Astrologer.roundEvents, hio], hsilent, fun e he => ?_⟩
  split at he
  · cases he
  · exact List.mem_singleton.mp he

/-- What a round asks is what it does to the connection. -/
theorem flow_roundEvents (h : Ready p srv) (l : Link) :
    (Astrologer.roundEvents p (handleState (srv.ctx p))).foldlM (Link.flow p) l =
      (asks (srv.session p)).foldlM Link.server l := by
  obtain ⟨es, calls, -, hcalls, hsilent, hheap⟩ := roundEvents_eq h
  have hquiet : ∀ m, calls.foldlM (Link.flow p) m = some m := by
    intro m
    clear hcalls
    induction calls with
    | nil => rfl
    | cons e calls ih =>
      rw [hheap e List.mem_cons_self, List.foldlM_cons]
      exact ih fun f hf => hheap f (List.mem_cons_of_mem _ hf)
  rw [hcalls, List.foldlM_append, flow_map, List.foldlM_append]
  cases (asks (srv.session p)).foldlM Link.server l with
  | none => rfl
  | some m =>
    show ((es.foldlM Link.server m).bind fun m => calls.foldlM (Link.flow p) m) = some m
    rw [Link.server_silent hsilent m]
    exact hquiet m

/-- What the loop goes on with has been received: nothing more is asked. -/
theorem flow_loop (h : Ready p srv) {fuel : ℕ}
    (hloop : updateStateLoop p fuel srv = some srv') {es : List ServerEvent}
    (hgrows : Grows p es srv srv') (l : Link) :
    es.foldlM (Link.flow p) l = (asks (srv.session p)).foldlM Link.server l := by
  induction fuel generalizing srv l es with
  | zero => cases hloop
  | succ fuel ih =>
    have hround := h.grows
    rcases updateStateLoop_cases hloop with ⟨n, hn, hgo, hrest⟩ | ⟨-, rfl⟩
    · obtain rfl := Nat.succ.inj hn
      obtain ⟨fs, hfs⟩ := h.runHandler.grows_loop hrest
      obtain rfl := hgrows.unique (hround.trans hfs).trace
      have hasks : asks ((Astrologer.runHandler p srv).session p) = [] :=
        asks_of_goesOn ((goesOn_session h.runHandler.conn).symm.trans hgo)
      rw [List.foldlM_append, flow_roundEvents h]
      cases (asks (srv.session p)).foldlM Link.server l with
      | none => rfl
      | some m =>
        have hthen := ih h.runHandler hrest hfs m
        rw [hasks] at hthen
        exact hthen
    · obtain rfl := hgrows.unique hround.trace
      exact flow_roundEvents h l

/-- The server and the client of a connection, in the middle of a call of `update_state`: what the
lemmas about a round need of the server, and that the two are matched between the rounds as they
are between the calls. -/
structure Serving (p : Ptr) (b : ℕ) (srv : Server) (l : Link) (c : Process) : Prop where
  ready : Ready p srv
  store : StoreInv srv
  began : b ≤ srv.trace.length
  matched : MatchedAt p b srv.trace (srv.session p).phase (srv.session p).unread l c
  closed : c.job ≠ none → l.closed = false

/-- The bytes of a connection. -/
def price (p : Ptr) (srv : Server) (l : Link) : ℕ :=
  cost (srv.session p).phase (srv.session p).unread l

/-- The server will have something to receive. -/
def Readable (p : Ptr) (srv : Server) (l : Link) : Prop :=
  (srv.session p).phase.reads = true → (srv.session p).unread = [] → l.up ≠ [] ∨ l.closed = true

/-- What a part of a call does: it leads to another state of the exchange, or the server has
seen that the client has closed the connection. -/
def Leads (p : Ptr) (b : ℕ) (srv srv' : Server) (l l' : Link) (c : Process) : Prop :=
  (Serving p b srv' l' c ∧ (l'.stage = l.stage ∧ l'.closed = l.closed) ∧ price p srv' l' ≤ price p srv l ∧
    ((srv.session p).unread = [] → price p srv' l' < price p srv l)) ∨
  (c.job = none ∧ l.closed = true ∧ l' = l ∧ (srv'.session p).phase = .finished ∧
    (srv'.session p).unread = [])

/-- **A round of `update_state`** for a matched connection leads to a matched connection with
cheaper bytes, or the server has met the end of the stream. -/
theorem Serving.runHandler (h : Serving p b srv l c) (hready : Readable p srv l)
    (hl : (roundEvents p (handleState (srv.ctx p))).foldlM (Link.flow p) l = some l') :
    Leads p b srv (runHandler p srv) l l' c := by
  have hsess := session_runHandler h.ready.inv h.ready.mem h.ready.conn
  have hphase := congrArg Session.phase hsess.1
  have hunread := congrArg Session.unread hsess.1
  obtain ⟨es, calls, hes, hcalls, -, hheap⟩ := roundEvents_eq h.ready
  rw [flow_roundEvents h.ready] at hl
  have htrace : (Astrologer.runHandler p srv).trace =
      srv.trace ++ ((asks (srv.session p) ++ es).map (.conn p) ++ calls) := by
    rw [h.ready.inv.trace_runHandler h.ready.mem, hcalls]
  have hserves : ∀ e ∈ calls, serves p e = false := fun e he => by rw [hheap e he]; rfl
  rcases h.matched.round h.closed h.began (storeInv_store_eq h.store p)
      (fun z => replyTo_rowLine_isLine _) hready hl with hadv | ⟨hjob, hclosed, hl', hover, hun⟩
  · obtain ⟨es', hes', hmatched⟩ := hadv.matched
    obtain rfl : es' = es :=
      List.append_cancel_left (List.append_cancel_left (hes'.symm.trans hes))
    have hkeeps := Link.server_keeps hl
    refine Or.inl ⟨⟨h.ready.runHandler, h.store.runHandler h.ready, ?_, ?_, fun hjob => ?_⟩,
      hkeeps, ?_, fun hun => ?_⟩
    · rw [htrace, List.length_append]
      exact Nat.le_add_right_of_le h.began
    · rw [htrace, hphase, hunread, ← List.append_assoc]
      exact hmatched.imp (fun hw => hw.append hserves) fun _ _ ha => ha.append hserves
    · exact hkeeps.2.trans (h.closed hjob)
    · rw [price, price, hphase, hunread]
      exact hadv.cost_le
    · rw [price, price, hphase, hunread]
      exact hadv.cost_lt hun
  · refine Or.inr ⟨hjob, hclosed, hl', hphase.trans hover, hunread.trans hun⟩

/-- The loop goes on while there are bytes left. -/
theorem Serving.unread_ne_nil (h : Serving p b srv l c) (hgo : (srv.mem p).goesOn = true) :
    (srv.session p).unread ≠ [] := by
  have hsess := goesOn_session (c := srv.ctx p) h.ready.conn
  have hgoes : (srv.session p).goesOn = true := hsess.symm.trans hgo
  rw [Session.goesOn, Bool.and_eq_true, decide_eq_true_iff] at hgoes
  exact hgoes.2

/-- **The loop of `update_state`.**  By induction on its fuel: while it goes on there are bytes
left, so the next round needs nothing of the kernel. -/
theorem Serving.loop (h : Serving p b srv l c) (hready : Readable p srv l) {fuel : ℕ}
    (hloop : updateStateLoop p fuel srv = some srv') {es : List ServerEvent}
    (hgrows : Grows p es srv srv') (hl : es.foldlM (Link.flow p) l = some l') :
    Leads p b srv srv' l l' c := by
  induction fuel generalizing srv l es with
  | zero => cases hloop
  | succ fuel ih =>
    have hround := h.ready.grows
    rcases updateStateLoop_cases hloop with ⟨n, hn, hgo, hrest⟩ | ⟨hgo, rfl⟩
    · obtain rfl := Nat.succ.inj hn
      obtain ⟨fs, hfs⟩ := h.ready.runHandler.grows_loop hrest
      obtain rfl := hgrows.unique (hround.trans hfs).trace
      rw [List.foldlM_append] at hl
      obtain ⟨m, hm, hl⟩ := Option.bind_eq_some_iff.mp hl
      rcases h.runHandler hready hm with ⟨hs, hkeeps, hle, hlt⟩ | ⟨-, -, -, -, hun⟩
      · have hne := hs.unread_ne_nil hgo
        rcases ih hs (fun _ hun => absurd hun hne) hrest hfs hl with
          ⟨hs', hkeeps', hle', -⟩ | ⟨hjob, -⟩
        · exact Or.inl ⟨hs', ⟨hkeeps'.1.trans hkeeps.1, hkeeps'.2.trans hkeeps.2⟩,
            Nat.le_trans hle' hle,
            fun hun => Nat.lt_of_le_of_lt hle' (hlt hun)⟩
        · exact absurd (hs.matched.resting hjob).2.1 hne
      · have hsess := goesOn_session (c := (Astrologer.runHandler p srv).ctx p)
          h.ready.runHandler.conn
        have hgoes : ((Astrologer.runHandler p srv).session p).goesOn = true :=
          hsess.symm.trans hgo
        rw [Session.goesOn, hun, Bool.and_eq_true] at hgoes
        exact absurd rfl (of_decide_eq_true hgoes.2)
    · obtain rfl := hgrows.unique hround.trace
      exact h.runHandler hready hl

/-- Client and server are matched, so the connection is not done for. -/
theorem MatchedAt.not_over {trace : List ServerEvent}
    (h : MatchedAt p b trace (srv.session p).phase (srv.session p).unread l c) :
    ¬ (srv.mem p).over := by
  intro hover
  generalize hphase : (srv.session p).phase = phase at h
  rw [session_phase, ConnState.phase] at hphase
  rcases hover with hs | hs <;> rw [hs] at hphase <;> subst hphase <;> cases h

/-- A connection at rest has not received what it has not used. -/
theorem Serving.unread_eq_nil (h : Serving p b srv l c) (hidle : srv.Idle p) :
    (srv.session p).unread = [] := by
  have hmatched := h.matched
  by_cases hreads : (srv.session p).phase.reads = true
  · exact hidle.unread_eq_nil hreads
  · generalize hphase : (srv.session p).phase = phase at hmatched hreads
    generalize (srv.session p).unread = unread at hmatched ⊢
    cases hmatched with
    | rest => rfl
    | request => exact absurd rfl hreads
    | prognosis => exact absurd rfl hreads
    | reply => rfl
    | replied => rfl

/-- What a call has done to the exchange: the two are still matched, and the price is lower; or
the connection is removed, which happens only when the client had closed its socket. -/
inductive Served (p : Ptr) (b : ℕ) (srv srv' : Server) (l l' : Link) (c : Process) : Prop
  | kept (serving : Serving p b srv' l' c) (mem : p ∈ srv'.allocated)
      (keeps : l'.stage = l.stage ∧ l'.closed = l.closed) (less : price p srv' l' < price p srv l)
  | gone (mem : p ∉ srv'.allocated) (job : c.job = none) (closed : l.closed = true)
      (link : l' = { l with stage := .ended })

/-- What a call records: what its loop records, and behind it the removal of the connection, if
the loop has ended in a state that is over. -/
inductive LoopLeft (p : Ptr) (es : List ServerEvent) (srv t srv' : Server) : Prop
  | removed (done : (t.mem p).over) (allocated : srv'.allocated = t.allocated.erase p)
      (since : srv.since srv' = es ++ [.removed p, .heapCall p (some p)])
  | kept (alive : ¬ (t.mem p).over) (mem : srv'.mem = t.mem)
      (allocated : srv'.allocated = t.allocated) (since : srv.since srv' = es)

theorem behind_updateState (hcall : Callable p srv) {fuel : ℕ} {ret : ℤ}
    (hu : updateState fuel p srv = some (ret, srv')) : ∃ t es,
    updateStateLoop p fuel srv = some t ∧ Grows p es srv t ∧ LoopLeft p es srv t srv' := by
  obtain ⟨t, hloop, hafter⟩ := Option.map_eq_some_iff.mp hu
  obtain ⟨es, hgrows⟩ := hcall.ready.grows_loop hloop
  obtain rfl : (afterLoop (srv.mem p).op p t).2 = srv' := congrArg Prod.snd hafter
  refine ⟨t, es, hloop, hgrows, ?_⟩
  have hk := hcall.inv.kept hcall.mem hcall.conn hloop
  rcases afterLoop_cases (srv.mem p).op p t with ⟨hover, heq⟩ | ⟨hover, mask, ret', hw⟩
  · have hrem := hk.inLoop.inv.heap.removed (hk.inLoop.allocated.symm ▸ hcall.mem)
    rw [heq]
    refine .removed hover hrem.allocated ?_
    rw [Server.since, hrem.trace, hgrows.trace, List.append_assoc]
    exact List.drop_left
  · refine .kept hover (congrArg HeapMem.mem hw.toHeapMem) hw.allocated ?_
    rw [Server.since, hw.trace, hgrows.trace]
    exact List.drop_left

/-- What a call asks is what it does to the connection, and the removal. -/
theorem flow_updateState (hcall : Callable p srv) {fuel : ℕ} {ret : ℤ}
    (hu : updateState fuel p srv = some (ret, srv')) {m : Link}
    (hasks : (asks (srv.session p)).foldlM Link.server l = some m) :
    ∃ l', (srv.since srv').foldlM (Link.flow p) l = some l' := by
  obtain ⟨t, es, hloop, hgrows, hbehind⟩ := behind_updateState hcall hu
  have hes := (flow_loop hcall.ready hloop hgrows l).trans hasks
  cases hbehind with
  | removed done allocated since =>
    refine ⟨{ m with stage := .ended }, ?_⟩
    rw [since, List.foldlM_append, hes]
    show Link.flow p m (.removed p) >>= _ = _
    rw [Link.flow, if_pos rfl]
    rfl
  | kept alive mem allocated since => exact ⟨m, by rw [since, hes]⟩

/-- **A call of `update_state`** that returns `0`: its loop, and behind it `epoll_ctl` or the
removal of the connection. -/
theorem Serving.updateState (h : Serving p b srv l c) (hcall : Callable p srv)
    (hidle : srv.Idle p) (hready : Readable p srv l) {fuel : ℕ}
    (hu : updateState fuel p srv = some (0, srv'))
    (hl : (srv.since srv').foldlM (Link.flow p) l = some l') :
    (∃ es, Effect p es srv srv') ∧ Served p b srv srv' l l' c := by
  refine ⟨hcall.effect hu, ?_⟩
  have hstore := h.store.updateState h.ready hu
  obtain ⟨t, es, hloop, hgrows, hbehind⟩ := behind_updateState hcall hu
  have hk := hcall.inv.kept hcall.mem hcall.conn hloop
  cases hbehind with
  | removed hover allocated since =>
    rw [since, List.foldlM_append] at hl
    obtain ⟨m, hm, hl⟩ := Option.bind_eq_some_iff.mp hl
    have hended : { m with stage := Stage.ended } = l' := by
      rw [List.foldlM_cons, Link.flow, if_pos rfl] at hl
      exact Option.some.inj hl
    rcases h.loop hready hloop hgrows hm with ⟨hs, -⟩ | ⟨hjob, hclosed, rfl, -⟩
    · exact absurd hover hs.matched.not_over
    · refine .gone (fun hp => ?_) hjob hclosed hended.symm
      rw [allocated] at hp
      exact absurd rfl (Finset.mem_erase.mp hp).1
  | kept hover mem allocated since =>
    rw [since] at hl
    have hphase : (srv'.session p).phase = (t.session p).phase := by
      rw [session_phase, session_phase, mem]
    have hunread : (srv'.session p).unread = (t.session p).unread := by
      show (srv'.mem p).intermBuf.unread = (t.mem p).intermBuf.unread
      rw [mem]
    have hprice : price p srv' l' = price p t l' := by rw [price, price, hphase, hunread]
    rcases h.loop hready hloop hgrows hl with ⟨hs, hkeeps, -, hlt⟩ | ⟨-, -, -, hend, -⟩
    · have hp : p ∈ srv'.allocated := by
        rw [allocated, hk.inLoop.allocated]
        exact hcall.mem
      have hinv := (hcall.inv.updateState hcall.mem hu).1
      have htrace : srv'.trace = t.trace := by
        obtain ⟨fs, heffect⟩ := hcall.effect hu
        rw [heffect.grows.since] at since
        rw [heffect.grows.trace, since, hgrows.trace]
      refine .kept ⟨⟨hinv.heap, hp, mem.symm ▸ hs.ready.conn⟩, hstore, ?_, ?_, hs.closed⟩ hp
        hkeeps ?_
      · rw [htrace]
        exact hs.began
      · rw [hphase, hunread, htrace]
        exact hs.matched
      · rw [hprice]
        exact hlt (h.unread_eq_nil hidle)
    · refine absurd ?_ hover
      rw [session_phase, ConnState.phase] at hend
      unfold ConnState.over
      cases hs : (t.mem p).state with
      | stateRecvFirstLine => rw [hs] at hend; cases hend
      | stateRecvH => rw [hs] at hend; cases hend
      | stateSendThanks => rw [hs] at hend; cases hend
      | stateSendH => rw [hs] at hend; cases hend
      | stateError => exact Or.inl rfl
      | stateSuccess => exact Or.inr rfl

end Calls

/-! ## New connections

`process_new_connection` either refuses the connection or adds one that has received nothing,
which is matched with a client that may have sent its request already. -/

theorem createServerState_trace {fd : Fd} {block : Option (Ptr × ServerState)} {srv : Server}
    (hret : (createServerState fd block srv).1 = 0) :
    (createServerState fd block srv).2.trace = srv.trace := by
  unfold createServerState at hret ⊢
  cases block with
  | none => rfl
  | some b =>
    dsimp only at hret ⊢
    split at hret
    · cases hret
    next hpush =>
      rw [if_neg hpush]
      split at hret
      · cases hret
      next hadd =>
        rw [if_neg hadd]
        unfold configureEpoll
        dsimp only
        split <;> rfl

/-- What `process_new_connection` has done, when it has returned `0`: the heap was full and the
descriptor was closed again, or there is a new live connection, which `epoll` watches for input.
The other connections are as they were in either case. -/
inductive Admitted (srv srv' : Server) : Prop
  | refused (fd : Fd) (full : srv.heap.size ≥ srv.heap.capacity) (mem : srv'.mem = srv.mem)
      (allocated : srv'.allocated = srv.allocated) (trace : srv'.trace = srv.trace)
      (free : srv.epoll fd = none) (epoll : srv'.epoll = Function.update srv.epoll fd none)
  | created (p : Ptr) (fd : Fd) (raw : ServerState) (room : ¬ srv.heap.size ≥ srv.heap.capacity)
      (fresh : p ∉ srv.allocated) (allocated : srv'.allocated = insert p srv.allocated)
      (others : ∀ q, q ≠ p → (srv'.mem q).toConnState = (srv.mem q).toConnState)
      (conn : (srv'.mem p).toConnState = raw.toConnState.create fd)
      (trace : srv'.trace = srv.trace ++ [.connected p]) (free : srv.epoll fd = none)
      (epoll : srv'.epoll = Function.update srv.epoll fd (some ⟨epollIn, some p⟩))

theorem admitted_of_step {srv srv' : Server} (hinv : ServerInv srv)
    {events events' : List (Option Ptr)}
    (hs : Step ⟨.dispatch (none :: events), srv⟩ ⟨.dispatch events', srv'⟩) :
    events' = events ∧ Admitted srv srv' := by
  generalize hc : (⟨.dispatch events', srv'⟩ : Config) = c' at hs
  cases hs with
  | @newConnection srv k events conSocket block hfd hblock =>
    obtain ⟨hpc, rfl⟩ := Config.mk.inj hc
    by_cases hret : (processNewConnection conSocket block (srv.withKernel k)).1 = 0
    · rw [if_neg (not_not_intro hret)] at hpc
      refine ⟨Pc.dispatch.inj hpc, ?_⟩
      cases conSocket with
      | none => cases hret
      | some fd =>
        have hfree : srv.epoll fd = none := hfd fd rfl
        unfold processNewConnection at hret ⊢
        dsimp only at hret ⊢
        by_cases hfull : (srv.withKernel k).heap.size ≥ (srv.withKernel k).heap.capacity
        · rw [if_pos hfull]
          exact .refused fd hfull rfl rfl rfl hfree rfl
        · rw [if_neg hfull] at hret ⊢
          by_cases hcreate : (createServerState fd block (srv.withKernel k)).1 = 0
          · rw [if_neg (not_not_intro hcreate)]
            cases block with
            | none => cases hcreate
            | some b =>
              obtain ⟨p, raw⟩ := b
              have hp : p ∉ srv.allocated := hblock (p, raw) rfl
              have hcr := (hinv.withKernel k).heap.created hp fd raw
              refine .created p fd raw hfull hp ?_ (fun q hq => (hcr.same q hq).1)
                (hcr.conn hcreate) ?_ hfree ?_
              · exact hcr.allocated.trans (if_pos hcreate)
              · show (createServerState fd (some (p, raw)) (srv.withKernel k)).2.trace ++ _ = _
                rw [createServerState_trace hcreate]
                rfl
              · exact hcr.epoll.trans (if_pos hcreate)
          · rw [if_pos hcreate] at hret
            cases hret
    · rw [if_pos hret] at hpc
      cases hpc

theorem called_of_step {srv srv' : Server} {p : Ptr} {events events' : List (Option Ptr)}
    (hs : Step ⟨.dispatch (some p :: events), srv⟩ ⟨.dispatch events', srv'⟩) :
    events' = events ∧ ∃ fuel k, updateState fuel p (srv.withKernel k) = some (0, srv') := by
  generalize hc : (⟨.dispatch events', srv'⟩ : Config) = c' at hs
  cases hs with
  | @update srv k p events fuel r hu =>
    obtain ⟨hpc, rfl⟩ := Config.mk.inj hc
    by_cases hret : r.1 = 0
    · rw [if_neg (not_not_intro hret)] at hpc
      refine ⟨Pc.dispatch.inj hpc, fuel, k, ?_⟩
      rw [hu, ← hret]
    · rw [if_pos hret] at hpc
      cases hpc

/-- A connection that has just been accepted has received nothing. -/
theorem session_create {srv : Server} {p : Ptr} {raw : ConnState} {fd : Fd}
    (h : (srv.mem p).toConnState = raw.create fd) :
    (srv.session p).phase = .firstLine [] ∧ (srv.session p).unread = [] := by
  have hphase : (srv.session p).phase = (srv.mem p).toConnState.phase := rfl
  have hunread : (srv.session p).unread = (srv.mem p).toConnState.intermBuf.unread := rfl
  rw [hphase, hunread, h]
  exact ⟨rfl, rfl⟩

end Astrologer.Clients
