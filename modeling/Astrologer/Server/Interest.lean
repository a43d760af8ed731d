import Astrologer.Server.Termination

/-!
# What `epoll` watches for

A connection waits for input or for room to send, and `epoll` has to watch its
descriptor for the same.  `update_state` tells it only when `op` is another one at the
end of the call than at its beginning, while its loop may run through several requests.
That is enough, because nothing else touches the registration: a connection that is at
rest is registered for its `op` (`Server.Registered`), and this is an invariant of the
event loop.

Together with what being at rest means (`Server.Idle`) no input is stranded: a
connection that waits for input has no bytes left in its own buffer.

A call of `update_state` that fails ends the event loop, and there the registration may
be a wrong one.
-/

namespace Astrologer

open ServerStateType FdOperation

/-- The events to watch for, as `update_state` chooses them. -/
def interest (op : FdOperation) : UInt32 := if op = opRead then epollIn else epollOut

/-- The descriptor is watched for what the connection waits for. -/
def Server.Registered (srv : Server) (p : Ptr) : Prop :=
  srv.epoll (srv.mem p).intermBuf.fd = some ⟨interest (srv.mem p).op, some p⟩

def ConnsRegistered (srv : Server) : Prop := ∀ p ∈ srv.allocated, srv.Registered p

section Steps

variable {srv srv' : Server} {p q : Ptr}

theorem Server.Registered.of_eq (h : srv.Registered p)
    (hmem : (srv'.mem p).toConnState = (srv.mem p).toConnState)
    (hepoll : srv'.epoll (srv.mem p).intermBuf.fd = srv.epoll (srv.mem p).intermBuf.fd) :
    srv'.Registered p := by
  rw [Registered, hmem, hepoll]
  exact h

/-- Different connections have different descriptors. -/
theorem Server.Registered.fd_ne (hp : srv.Registered p) (hq : srv.Registered q)
    (hne : q ≠ p) : (srv.mem q).intermBuf.fd ≠ (srv.mem p).intermBuf.fd := by
  intro hfd
  rw [Registered, hfd, hp, Option.some.injEq, EpollEvent.mk.injEq, Option.some.injEq] at hq
  exact hne hq.2.symm

theorem ConnsRegistered.of_eq (h : ConnsRegistered srv)
    (halloc : srv'.allocated = srv.allocated) (hmem : srv'.mem = srv.mem)
    (hepoll : srv'.epoll = srv.epoll) : ConnsRegistered srv' :=
  fun p hp => (h p (halloc ▸ hp)).of_eq (by rw [hmem]) (by rw [hepoll])

/-- A connection is removed, and the others are watched as before. -/
theorem ConnsRegistered.removed (h : ConnsRegistered srv) (hp : p ∈ srv.allocated)
    (hr : Removed p srv srv') : ConnsRegistered srv' := by
  intro q hq
  rw [hr.allocated] at hq
  obtain ⟨hne, hq⟩ := Finset.mem_erase.mp hq
  refine (h q hq).of_eq (hr.same q).1 ?_
  rw [hr.epoll, Function.update_of_ne ((h p hp).fd_ne (h q hq) hne)]

/-- What the loop of `update_state` leaves alone: it registers nothing, and the connection keeps
its descriptor.  The one `epoll_ctl` of a call comes behind the loop. -/
structure Kept (p : Ptr) (srv srv' : Server) : Prop where
  inLoop : InLoop p srv srv'
  epoll : srv'.epoll = srv.epoll
  fd : (srv'.mem p).intermBuf.fd = (srv.mem p).intermBuf.fd

theorem Kept.runHandler (h : Kept p srv srv') (hp : p ∈ srv.allocated) :
    Kept p srv (runHandler p srv') := by
  have hh := h.inLoop.inv.heap.handled (h.inLoop.allocated.symm ▸ hp)
  refine ⟨h.inLoop.runHandler hp, hh.epoll.trans h.epoll, ?_⟩
  rw [hh.conn, handleState_fd]
  exact h.fd

theorem ServerInv.kept (hinv : ServerInv srv) (hp : p ∈ srv.allocated)
    (hc : ConnInv (srv.mem p).toConnState) {fuel : ℕ}
    (hl : updateStateLoop p fuel srv = some srv') : Kept p srv srv' :=
  updateStateLoop_preserves (P := Kept p srv) (fun _ ht => ht.runHandler hp) hl
    ⟨⟨hinv, fun _ _ => ⟨rfl, rfl⟩, rfl, hc⟩, rfl, rfl⟩

/-- Behind the loop of a call that returns `0` the connection is removed, or it is
registered for its new `op`. -/
theorem Server.Registered.afterLoop (h : srv.Registered p) (hk : Kept p srv srv')
    (hover : ¬ (srv'.mem p).over)
    (hret : (Astrologer.afterLoop (srv.mem p).op p srv').1 = 0) :
    (Astrologer.afterLoop (srv.mem p).op p srv').2.epoll =
      Function.update srv.epoll (srv.mem p).intermBuf.fd
        (some ⟨interest (srv'.mem p).op, some p⟩) := by
  have hcase : Astrologer.afterLoop (srv.mem p).op p srv' =
      if (srv.mem p).op ≠ (srv'.mem p).op then
        let r := configureEpoll .mod (srv'.mem p).intermBuf.fd
          (interest (srv'.mem p).op) (some p) srv'
        if r.1 ≠ 0 then (-1, r.2) else (0, r.2)
      else (0, srv') := if_neg hover
  rw [hcase] at hret ⊢
  by_cases hop : (srv.mem p).op = (srv'.mem p).op
  · rw [if_neg (not_not.mpr hop), hk.epoll, ← hop]
    exact (Function.update_eq_self_iff.mpr h.symm).symm
  · rw [if_pos hop] at hret ⊢
    dsimp only at hret ⊢
    by_cases hctl : (configureEpoll .mod (srv'.mem p).intermBuf.fd
        (interest (srv'.mem p).op) (some p) srv').1 = 0
    · rw [if_neg (not_not.mpr hctl)]
      rw [configureEpoll_epoll hctl, hk.epoll, hk.fd]
      rfl
    · rw [if_pos hctl] at hret
      exact absurd hret (by decide : ¬ (-1 : ℤ) = 0)

/-- **A call of `update_state` that returns `0`** keeps everything registered. -/
theorem ConnsRegistered.updateState (h : ConnsRegistered srv) (hinv : ServerInv srv)
    (hp : p ∈ srv.allocated) (hc : ConnInv (srv.mem p).toConnState) {fuel : ℕ}
    {r : ℤ × Server} (hr : updateState fuel p srv = some r) (hret : r.1 = 0) :
    ConnsRegistered r.2 := by
  obtain ⟨srv₁, hloop, rfl⟩ := Option.map_eq_some_iff.mp hr
  have hk := hinv.kept hp hc hloop
  have hp₁ : p ∈ srv₁.allocated := hk.inLoop.allocated.symm ▸ hp
  -- the other connections are as they were, but the registration of `p` is open
  have hothers : ∀ q ∈ srv.allocated, q ≠ p → srv₁.Registered q ∧
      (srv₁.mem q).intermBuf.fd ≠ (srv₁.mem p).intermBuf.fd := by
    intro q hq hne
    refine ⟨(h q hq).of_eq (hk.inLoop.others q hne).1 (by rw [hk.epoll]), ?_⟩
    rw [(hk.inLoop.others q hne).1, hk.fd]
    exact (h p hp).fd_ne (h q hq) hne
  rcases afterLoop_cases (srv.mem p).op p srv₁ with ⟨-, heq⟩ | ⟨hover, mask, ret, hw⟩
  · have hrem := hk.inLoop.inv.heap.removed hp₁
    rw [heq]
    intro q hq
    rw [hrem.allocated, hk.inLoop.allocated] at hq
    obtain ⟨hne, hq⟩ := Finset.mem_erase.mp hq
    refine (hothers q hq hne).1.of_eq (hrem.same q).1 ?_
    rw [hrem.epoll, Function.update_of_ne (hothers q hq hne).2]
  · have hepoll := (h p hp).afterLoop hk hover hret
    have hmem := congrArg HeapMem.mem hw.toHeapMem
    intro q hq
    rw [hw.allocated, hk.inLoop.allocated] at hq
    by_cases hqp : q = p
    · rw [hqp, Server.Registered, hmem, hepoll, hk.fd]
      exact Function.update_self _ _ _
    · refine (h q hq).of_eq ?_ ?_
      · rw [hmem]
        exact (hk.inLoop.others q hqp).1
      · rw [hepoll, Function.update_of_ne ((h p hp).fd_ne (h q hq) hqp)]

theorem ConnsRegistered.setState (h : ConnsRegistered srv) (p : Ptr)
    (t : ServerStateType) : ConnsRegistered (srv.setState p t) := by
  intro q hq
  have hq' := h q hq
  by_cases hqp : q = p
  · rw [hqp] at hq' ⊢
    rw [Server.Registered, setState_mem_self]
    exact hq'
  · rw [Server.Registered, setState_mem_ne hqp]
    exact hq'

theorem ConnsRegistered.discardLoop (h : ConnsRegistered srv) (hinv : ServerInv srv)
    {cur : ℤ} {fuel : ℕ} (hd : discardLoop cur fuel srv = some srv') :
    ConnsRegistered srv' :=
  (discardLoop_preserves (fun _ q ht hq hreg => (hreg.setState q stateError).removed hq
    ((ht.setState q stateError).heap.removed hq)) hinv hd h).2

/-- A new connection is registered for input, and the others stay as they are. -/
theorem ConnsRegistered.processNewConnection (h : ConnsRegistered srv)
    (hinv : ServerInv srv) {conSocket : Option Fd} {block : Option (Ptr × ServerState)}
    (hfd : ∀ fd ∈ conSocket, srv.epoll fd = none)
    (hblock : ∀ b ∈ block, b.1 ∉ srv.allocated)
    (hret : (processNewConnection conSocket block srv).1 = 0) :
    ConnsRegistered (processNewConnection conSocket block srv).2 := by
  cases conSocket with
  | none => exact h
  | some fd =>
    have hfree : ∀ q ∈ srv.allocated, (srv.mem q).intermBuf.fd ≠ fd := by
      intro q hq heq
      have hreg := h q hq
      rw [Server.Registered, heq, hfd fd rfl] at hreg
      cases hreg
    unfold Astrologer.processNewConnection at hret ⊢
    dsimp only at hret ⊢
    by_cases hfull : srv.heap.size ≥ srv.heap.capacity
    · rw [if_pos hfull]
      intro q hq
      exact (h q hq).of_eq rfl (Function.update_of_ne (hfree q hq) _ _)
    · rw [if_neg hfull] at hret ⊢
      by_cases hcreate : (createServerState fd block srv).1 = 0
      · rw [if_neg (not_not.mpr hcreate)]
        cases block with
        | none => exact absurd hcreate (by decide : ¬ (-1 : ℤ) = 0)
        | some b =>
          obtain ⟨p, raw⟩ := b
          have hp : p ∉ srv.allocated := hblock (p, raw) rfl
          have hc := hinv.heap.created hp fd raw
          intro q hq
          have hq' : q ∈ (createServerState fd (some (p, raw)) srv).2.allocated := hq
          rw [hc.allocated, if_pos hcreate, Finset.mem_insert] at hq'
          show (createServerState fd (some (p, raw)) srv).2.Registered q
          rw [Server.Registered, hc.epoll, if_pos hcreate]
          rcases hq' with rfl | hq'
          · rw [hc.conn hcreate]
            exact Function.update_self _ _ _
          · have hqp : q ≠ p := fun heq => hp (heq ▸ hq')
            rw [(hc.same q hqp).1, Function.update_of_ne (hfree q hq')]
            exact h q hq'
      · rw [if_pos hcreate] at hret
        exact absurd hret (by decide : ¬ (-1 : ℤ) = 0)

/-- `main` is in its event loop, and no call has failed. -/
def Pc.looping : Pc → Bool
  | .epollWait => true
  | .dispatch _ => true
  | .freeHeapElems => false
  | .returned => false

theorem looping_ite {ret : ℤ} {events : List (Option Ptr)}
    (h : (if ret ≠ 0 then Pc.freeHeapElems else .dispatch events).looping = true) :
    ret = 0 := by
  by_contra hne
  rw [if_pos hne] at h
  cases h

theorem ConnsRegistered.withKernel (h : ConnsRegistered srv) (k : Kernel) :
    ConnsRegistered (srv.withKernel k) := h.of_eq rfl rfl rfl

/-- **One step of the event loop.** -/
theorem ConnsRegistered.step {c c' : Config} (h : c.pc.looping = true → ConnsRegistered c.srv)
    (hl : LoopInv c) (hi : ConnsIdle c.srv) (hs : Step c c') (hpc : c'.pc.looping = true) :
    ConnsRegistered c'.srv := by
  cases hs with
  | waitFailed srv k => cases hpc
  | waitExpired srv k hd =>
    rw [minTimeout_eq] at hd
    have hreg : ConnsRegistered (getCurTime (getCurTime (srv.withKernel k)).2).2 :=
      (h rfl).of_eq rfl rfl rfl
    exact hreg.discardLoop (hl.srv.withKernel k).getCurTime.getCurTime hd
  | waitEvents srv k hne hr =>
    rw [minTimeout_eq]
    exact (h rfl).of_eq rfl rfl rfl
  | dispatched srv => exact h rfl
  | @newConnection srv k events conSocket block hfd hblock =>
    exact ((h rfl).withKernel k).processNewConnection (hl.srv.withKernel k) hfd hblock
      (looping_ite hpc)
  | update srv k p events hu =>
    have hp := hl.mem_allocated
    exact ((h rfl).withKernel k).updateState (hl.srv.withKernel k) hp (hi p hp).conn hu
      (looping_ite hpc)
  | freeElem srv k hsize => cases hpc
  | freed srv hsize => cases hpc

theorem Reachable.registered {c : Config} (h : Reachable c) (hpc : c.pc.looping = true) :
    ConnsRegistered c.srv := by
  induction h with
  | init h =>
    intro p hp
    rw [h.allocated] at hp
    exact absurd hp (Finset.notMem_empty p)
  | step h hs ih => exact .step ih h.inv h.idle hs hpc

end Steps

/-- A connection at rest receives or sends. -/
theorem Server.Idle.state_cases {srv : Server} {p : Ptr} (h : srv.Idle p) :
    ((srv.mem p).op = opRead ∧ (srv.mem p).state.receiving) ∨
      ((srv.mem p).op = opWrite ∧ (srv.mem p).state.sending) := by
  have hover := h.not_over
  cases hs : (srv.mem p).state with
  | stateRecvFirstLine =>
    have hr : (srv.mem p).state.receiving := Or.inl hs
    exact Or.inl ⟨h.conn.recv_op hr, Or.inl rfl⟩
  | stateRecvH =>
    have hr : (srv.mem p).state.receiving := Or.inr hs
    exact Or.inl ⟨h.conn.recv_op hr, Or.inr rfl⟩
  | stateSendThanks =>
    have hr : (srv.mem p).state.sending := Or.inl hs
    exact Or.inr ⟨h.conn.send_op hr, Or.inl rfl⟩
  | stateSendH =>
    have hr : (srv.mem p).state.sending := Or.inr hs
    exact Or.inr ⟨h.conn.send_op hr, Or.inr rfl⟩
  | stateError => exact absurd (Or.inl hs) hover
  | stateSuccess => exact absurd (Or.inr hs) hover

/-- **No input is stranded, and nothing is watched for in vain.**  Between two steps of
the event loop the descriptor of a live connection is watched for input or for room to
send, as its `op` says; it reads in the two receiving states and is not done for; and
when it reads, its own buffer has no bytes left. -/
theorem reachable_interest {c : Config} (h : Reachable c) (hpc : c.pc.looping = true) :
    ∀ p ∈ c.srv.allocated, ∃ mask,
      c.srv.epoll (c.srv.mem p).intermBuf.fd = some ⟨mask, some p⟩ ∧
      (mask = epollIn ↔ (c.srv.mem p).op = opRead) ∧
      (mask = epollOut ↔ (c.srv.mem p).op = opWrite) ∧
      ((c.srv.mem p).op = opRead ↔
        (c.srv.mem p).state = stateRecvFirstLine ∨ (c.srv.mem p).state = stateRecvH) ∧
      (c.srv.mem p).state ≠ stateError ∧ (c.srv.mem p).state ≠ stateSuccess ∧
      ((c.srv.mem p).op = opRead →
        (c.srv.mem p).intermBuf.pos = (c.srv.mem p).intermBuf.len) := by
  intro p hp
  have hidle := h.idle p hp
  refine ⟨interest (c.srv.mem p).op, h.registered hpc p hp, ?_, ?_, ?_,
    fun hs => hidle.not_over (Or.inl hs), fun hs => hidle.not_over (Or.inr hs), ?_⟩
  · cases (c.srv.mem p).op <;> decide
  · cases (c.srv.mem p).op <;> decide
  · rcases hidle.state_cases with ⟨hop, hs⟩ | ⟨hop, hs⟩
    · exact iff_of_true hop hs
    · refine iff_of_false (fun heq => ?_) fun hr => ?_
      · rw [hop] at heq
        cases heq
      · rcases hs with hs | hs <;> rw [hs] at hr <;> rcases hr with hr | hr <;> cases hr
  · intro hop
    have hgoes := hidle.not_goesOn
    rw [ConnState.goesOn, decide_eq_true hop, Bool.true_and] at hgoes
    exact not_not.mp (of_decide_eq_false hgoes)

/-- A star that is to be thanked is watched for room to send. -/
theorem sampleStored_interest : ∃ r mask, sampleStored = some r ∧
    r.2.epoll (r.2.mem 1).intermBuf.fd = some ⟨mask, some 1⟩ ∧ mask = epollOut ∧
      (r.2.mem 1).state = stateSendThanks := by
  obtain ⟨r, hr, hreach, hmem, hstate, hop⟩ := sampleStored_reachable
  obtain ⟨mask, hwatch, -, hout, -⟩ := reachable_interest hreach rfl 1 hmem
  exact ⟨r, mask, hr, hwatch, hout.mpr hop, hstate⟩

end Astrologer
