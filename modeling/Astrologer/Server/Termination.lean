import Astrologer.Server.HeapInvariant
import Astrologer.Server.Refinement

/-!
# When `update_state` returns

The loop of `update_state` goes on while the connection is reading and bytes are
there.  It does not look at the state: when a line is rejected with bytes behind it
in the buffer, the connection is in `STATE_ERROR`, no handler touches the buffer any
more, and the loop never ends.  The server has one thread, so that is the end of
it.

`updateState_returns_iff` says that this is the only way not to return.  In every
state of every run, a call of `update_state` returns if and only if the bytes it is
given do not make an illegal line with more behind it (`Session.Hangs`).

## At rest

Between two calls every connection is at rest (`Server.Idle`): it satisfies the
invariant of the handlers, it is not over, and when it is reading its buffer is
empty.  This is an invariant of every run (`Reachable.idle`), and so a call that
begins by reading begins with a `recv`.
-/

namespace Astrologer

open Lines ServerStateType FdOperation

/-! ## The sessions of the server

The refinement is lifted from the handlers to the process: a round of `update_state` is a round of
the session of the connection.  Between two calls every live connection is at rest, so the loop
begins where it would not go on. -/

/-- A connection of the server, as the protocol sees it. -/
def Server.session (srv : Server) (p : Ptr) : Session := (srv.ctx p).session

section Sessions

variable {srv srv' : Server} {p : Ptr}

/-- Handlers that have left the connection alone have left its session alone. -/
theorem session_phase (srv : Server) (p : Ptr) :
    (srv.session p).phase = (srv.mem p).toConnState.phase := rfl

/-- **A round of `update_state` is a round of the session** of its connection, with the kernel's
answers as they are; the record of the process is longer by that of the round. -/
theorem session_runHandler (h : HeapInv srv) (hp : p ∈ srv.allocated)
    (hc : ConnInv (srv.mem p).toConnState) :
    (runHandler p srv).session p =
        { (srv.session p).round.1 with
          io := { (srv.session p).round.1.io with trace := [] } } ∧
      ConnInv ((runHandler p srv).mem p).toConnState := by
  have hh := h.handled hp
  obtain ⟨heq, hconn⟩ := handleState_session (c := srv.ctx p) hc
  have hsess : (handleState (srv.ctx p)).1.session = (srv.session p).round.1 :=
    congrArg Prod.fst heq
  refine ⟨?_, hh.conn ▸ hconn⟩
  rw [← hsess]
  refine Session.ext ?_ ?_ ?_ ?_
  · exact congrArg ConnState.phase hh.conn
  · exact congrArg (fun s : ConnState => s.intermBuf.unread) hh.conn
  · exact congrArg (fun t : Table => fun z => rowLine (t z)) hh.zodiacPrognosises
  · show Io.mk _ _ _ = Io.mk _ _ _
    rw [hh.recvs, hh.sends]
    rfl

/-- What `update_state` finds: the connection is not over, and there is nothing that
would make its loop go on. -/
structure Server.Idle (srv : Server) (p : Ptr) : Prop where
  conn : ConnInv (srv.mem p).toConnState
  not_over : ¬ (srv.mem p).toConnState.over
  not_goesOn : (srv.mem p).toConnState.goesOn = false

theorem Server.Idle.of_eq (h : srv.Idle p)
    (heq : (srv'.mem p).toConnState = (srv.mem p).toConnState) : srv'.Idle p :=
  ⟨heq ▸ h.conn, heq ▸ h.not_over, heq ▸ h.not_goesOn⟩

/-- The loop ends in a state where it does not go on. -/
theorem updateStateLoop_goesOn {fuel : ℕ} (h : updateStateLoop p fuel srv = some srv') :
    (srv'.mem p).toConnState.goesOn = false := by
  induction fuel generalizing srv with
  | zero => cases h
  | succ fuel ih =>
    rcases updateStateLoop_cases h with ⟨n, hn, -, hloop⟩ | ⟨hg, rfl⟩
    · rw [← Nat.succ.inj hn] at hloop
      exact ih hloop
    · exact hg

/-- What one call of `update_state` does to the connections: the others keep theirs, and this one
is removed or can be updated again. -/
structure Updated (p : Ptr) (srv srv' : Server) : Prop where
  inv : ServerInv srv'
  others : ∀ q, q ≠ p → (srv'.mem q).toConnState = (srv.mem q).toConnState ∧
    (srv'.mem q).ts = (srv.mem q).ts
  allocated : srv'.allocated = srv.allocated ∨ srv'.allocated = srv.allocated.erase p
  self : p ∈ srv'.allocated → srv'.Idle p

/-- What the loop of `update_state` keeps: the process is in order, the other connections are
untouched, nothing is removed, and the connection keeps its own invariant. -/
structure InLoop (p : Ptr) (srv srv' : Server) : Prop where
  inv : ServerInv srv'
  others : ∀ q, q ≠ p → (srv'.mem q).toConnState = (srv.mem q).toConnState ∧
    (srv'.mem q).ts = (srv.mem q).ts
  allocated : srv'.allocated = srv.allocated
  conn : ConnInv (srv'.mem p).toConnState

theorem InLoop.runHandler (h : InLoop p srv srv') (hp : p ∈ srv.allocated) :
    InLoop p srv (runHandler p srv') := by
  have hp' : p ∈ srv'.allocated := h.allocated.symm ▸ hp
  have hh := h.inv.heap.handled hp'
  obtain ⟨hinv, halloc⟩ := h.inv.runHandler hp'
  refine ⟨hinv, fun q hq => ?_, halloc.trans h.allocated,
    (session_runHandler h.inv.heap hp' h.conn).2⟩
  exact ⟨(hh.conn_ne q hq).1.trans (h.others q hq).1,
    (hh.conn_ne q hq).2.trans (h.others q hq).2⟩

theorem ServerInv.inLoop (h : ServerInv srv) (hp : p ∈ srv.allocated)
    (hc : ConnInv (srv.mem p).toConnState) {fuel : ℕ}
    (hl : updateStateLoop p fuel srv = some srv') : InLoop p srv srv' :=
  updateStateLoop_preserves (P := InLoop p srv) (fun _ ht => ht.runHandler hp) hl
    ⟨h, fun _ _ => ⟨rfl, rfl⟩, rfl, hc⟩

theorem ServerInv.updated (h : ServerInv srv) (hp : p ∈ srv.allocated)
    (hc : ConnInv (srv.mem p).toConnState) {fuel : ℕ} {r : ℤ × Server}
    (hr : Astrologer.updateState fuel p srv = some r) : Updated p srv r.2 := by
  obtain ⟨hinv, halloc⟩ := h.updateState hp hr
  obtain ⟨srv₁, hloop, rfl⟩ := Option.map_eq_some_iff.mp hr
  have hl := h.inLoop hp hc hloop
  have hp₁ : p ∈ srv₁.allocated := hl.allocated.symm ▸ hp
  rcases afterLoop_cases (srv.mem p).op p srv₁ with ⟨-, heq⟩ | ⟨hover, mask, ret, hw⟩
  · have hrem := hl.inv.heap.removed hp₁
    rw [heq] at hinv halloc ⊢
    refine ⟨hinv, fun q hq => ?_, halloc, fun hmem => ?_⟩
    · exact ⟨(hrem.same q).1.trans (hl.others q hq).1,
        (hrem.same q).2.trans (hl.others q hq).2⟩
    · rw [hrem.allocated] at hmem
      exact absurd rfl (Finset.mem_erase.mp hmem).1
  · have hmem := congrArg HeapMem.mem hw.toHeapMem
    refine ⟨hinv, fun q hq => ?_, halloc, fun _ => ?_⟩
    · rw [hmem]
      exact hl.others q hq
    · have hidle : srv₁.Idle p := ⟨hl.conn, hover, updateStateLoop_goesOn hloop⟩
      exact hidle.of_eq (by rw [hmem])

/-- **Every connection is at rest between two calls.** -/
def ConnsIdle (srv : Server) : Prop := ∀ p ∈ srv.allocated, srv.Idle p

theorem ConnsIdle.of_eq (h : ConnsIdle srv) (halloc : srv'.allocated = srv.allocated)
    (hmem : srv'.mem = srv.mem) : ConnsIdle srv' :=
  fun p hp => (h p (halloc ▸ hp)).of_eq (by rw [hmem])

theorem ConnsIdle.updated (h : ConnsIdle srv) (hu : Updated p srv srv') :
    ConnsIdle srv' := by
  intro q hq
  by_cases hqp : q = p
  · rw [hqp] at hq ⊢
    exact hu.self hq
  · have hmem : q ∈ srv.allocated := by
      rcases hu.allocated with heq | heq
      · exact heq ▸ hq
      · rw [heq] at hq
        exact Finset.mem_of_mem_erase hq
    exact (h q hmem).of_eq (hu.others q hqp).1

theorem ConnsIdle.removed (h : ConnsIdle srv) (hr : Removed p srv srv') :
    ConnsIdle srv' := by
  intro q hq
  rw [hr.allocated] at hq
  exact (h q (Finset.mem_of_mem_erase hq)).of_eq (hr.same q).1

/-- A connection that has been given up still satisfies the invariant of the
handlers. -/
theorem Server.Idle.setState (h : srv.Idle p) :
    ConnInv ((srv.setState p stateError).mem p).toConnState := by
  rw [setState_mem_self]
  exact .stopped h.conn.pos_le h.conn.len_le (Or.inl rfl)

/-- One round of `discard_expired_connections`: the connection that is given up goes. -/
theorem ConnsIdle.discarded (h : ConnsIdle srv) (hinv : ServerInv srv)
    (hp : p ∈ srv.allocated) :
    ConnsIdle (removeServerState p (srv.setState p stateError)) := by
  have hr := (hinv.setState p stateError).heap.removed hp
  intro q hq
  rw [hr.allocated] at hq
  obtain ⟨hqp, hmem⟩ := Finset.mem_erase.mp hq
  refine (h q hmem).of_eq ((hr.same q).1.trans ?_)
  rw [setState_mem_ne hqp]

theorem ConnsIdle.discardLoop (h : ConnsIdle srv) (hinv : ServerInv srv) {cur : ℤ}
    {fuel : ℕ} (hd : discardLoop cur fuel srv = some srv') : ConnsIdle srv' :=
  (discardLoop_preserves (fun _ _ ht hq hidle => hidle.discarded ht hq) hinv hd h).2

theorem ConnsIdle.processNewConnection (h : ConnsIdle srv) (hinv : ServerInv srv)
    {conSocket : Option Fd} {block : Option (Ptr × ServerState)}
    (hblock : ∀ b ∈ block, b.1 ∉ srv.allocated) :
    ConnsIdle (processNewConnection conSocket block srv).2 := by
  cases conSocket with
  | none => exact h
  | some fd =>
    unfold Astrologer.processNewConnection
    simp only
    by_cases hfull : srv.heap.size ≥ srv.heap.capacity
    · rw [if_pos hfull]
      exact h.of_eq rfl rfl
    · rw [if_neg hfull]
      cases block with
      | none => exact h.of_eq rfl rfl
      | some b =>
        obtain ⟨p, raw⟩ := b
        have hp : p ∉ srv.allocated := hblock (p, raw) rfl
        have hc := hinv.heap.created hp fd raw
        have hidle : ConnsIdle (createServerState fd (some (p, raw)) srv).2 := by
          intro q hq
          rw [hc.allocated] at hq
          by_cases hret : (createServerState fd (some (p, raw)) srv).1 = 0
          · rw [if_pos hret, Finset.mem_insert] at hq
            rcases hq with rfl | hq
            · refine ⟨?_, ?_, ?_⟩
              · rw [hc.conn hret]
                exact connInv_create _ _
              · rw [hc.conn hret]
                exact fun hover => by rcases hover with h | h <;> cases h
              · rw [hc.conn hret]
                rfl
            · have hqp : q ≠ p := fun heq => hp (heq ▸ hq)
              exact (h q hq).of_eq (hc.same q hqp).1
          · rw [if_neg hret] at hq
            have hqp : q ≠ p := fun heq => hp (heq ▸ hq)
            exact (h q hq).of_eq (hc.same q hqp).1
        by_cases hret : (createServerState fd (some (p, raw)) srv).1 ≠ 0
        · rw [if_pos hret]
          exact hidle.of_eq rfl rfl
        · rw [if_neg hret]
          exact hidle.of_eq rfl rfl

theorem ConnsIdle.withKernel (h : ConnsIdle srv) (k : Kernel) :
    ConnsIdle (srv.withKernel k) := h.of_eq rfl rfl

/-- A connection with an event pending is live. -/
theorem LoopInv.mem_allocated {events : List (Option Ptr)}
    (h : LoopInv ⟨.dispatch (some p :: events), srv⟩) : p ∈ srv.allocated := by
  refine (h.events _ rfl).2 p ?_
  rw [List.reduceOption_cons_of_some]
  exact List.mem_cons_self

theorem ConnsIdle.step {c c' : Config} (h : ConnsIdle c.srv) (hl : LoopInv c)
    (hs : Step c c') : ConnsIdle c'.srv := by
  cases hs with
  | waitFailed srv k =>
    rw [minTimeout_eq]
    exact h.of_eq rfl rfl
  | waitExpired srv k hd =>
    rw [minTimeout_eq] at hd
    have hidle : ConnsIdle (getCurTime (getCurTime (srv.withKernel k)).2).2 :=
      h.of_eq rfl rfl
    exact hidle.discardLoop (hl.srv.withKernel k).getCurTime.getCurTime hd
  | waitEvents srv k hne hr =>
    rw [minTimeout_eq]
    exact h.of_eq rfl rfl
  | dispatched srv => exact h
  | newConnection srv k events hfd hblock =>
    exact (h.withKernel k).processNewConnection (hl.srv.withKernel k) hblock
  | update srv k p events hu =>
    have hp := hl.mem_allocated
    exact (h.withKernel k).updated ((hl.srv.withKernel k).updated hp (h p hp).conn hu)
  | freeElem srv k hsize =>
    have hlast : srv.heap.size - 1 < srv.heap.size := Nat.sub_lt hsize Nat.one_pos
    exact (h.withKernel k).removed
      ((hl.srv.withKernel k).heap.removed (hl.srv.heap.mem_allocated hlast))
  | freed srv hsize => exact h

theorem Reachable.idle {c : Config} (h : Reachable c) : ConnsIdle c.srv := by
  induction h with
  | init h =>
    intro p hp
    rw [h.allocated] at hp
    exact absurd hp (Finset.notMem_empty p)
  | step h hs ih => exact ih.step h.inv hs

/-! ## The loop

On sessions the question is simple.  A round that fails while bytes are left in the buffer is
repeated for ever, since nothing of a failed session changes; every other round uses up bytes or
comes to rest.  `Session.Hangs` says which answers of the kernel lead to the first kind. -/

/-- The bytes make a prognosis line that cannot become legal, with more behind it. -/
def RejectsPrognosis (bs : List Byte) : Prop :=
  frame astrologBufLen delimiter bs = .overlong ∧ astrologBufLen < bs.length

/-- The bytes make a request line that is rejected, with more behind it: eighty bytes
without a delimiter, a bad request type, or an unknown zodiac.  A star line may be
accepted and the prognosis behind it rejected. -/
def RejectsFirstLine (bs : List Byte) : Prop :=
  match frame astrologBufLen delimiter bs with
  | .line l rest =>
    match classify l with
    | .star _ => RejectsPrognosis rest
    | .client _ => False
    | .bad => rest ≠ []
  | .overlong => astrologBufLen < bs.length
  | .unfinished => False

/-- **The call that does not return.**  The next `recv`, or the bytes kept while a
reply was sent, bring an illegal line with more behind it. -/
def Session.Hangs (s : Session) : Prop :=
  match s.phase with
  | .firstLine line =>
    match s.io.recvs.head with
    | .error => False
    | .bytes bs => RejectsFirstLine (line ++ bs.take astrologBufLen)
  | .prognosis _ line =>
    match s.io.recvs.head with
    | .error => False
    | .bytes bs => RejectsPrognosis (line ++ bs.take astrologBufLen)
  | .reply pending =>
    match s.io.sends.head with
    | .error => False
    | .count k => pending.length ≤ k ∧ RejectsFirstLine s.unread
  | .failed _ => False
  | .finished => False

/-- The loop of `update_state` ends. -/
def Returns (p : Ptr) (srv : Server) : Prop :=
  ∃ fuel srv', updateStateLoop p fuel srv = some srv'

/-- What the loop lemmas need: a heap that is in order, with the connection in it, and the
invariant of the connection. -/
structure Ready (p : Ptr) (srv : Server) : Prop where
  inv : HeapInv srv
  mem : p ∈ srv.allocated
  conn : ConnInv (srv.mem p).toConnState

theorem Ready.runHandler (h : Ready p srv) : Ready p (runHandler p srv) :=
  ⟨(h.inv.handled h.mem).inv, (h.inv.handled h.mem).allocated.symm ▸ h.mem,
    (session_runHandler h.inv h.mem h.conn).2⟩

theorem Ready.session (h : Ready p srv) :
    ((Astrologer.runHandler p srv).session p).phase = (srv.session p).round.1.phase ∧
    ((Astrologer.runHandler p srv).session p).unread = (srv.session p).round.1.unread := by
  rw [(session_runHandler h.inv h.mem h.conn).1]
  exact ⟨rfl, rfl⟩

/-- One round, and then the rest if the session goes on. -/
theorem Ready.returns_iff (h : Ready p srv) :
    Returns p srv ↔
      ((srv.session p).round.1.goesOn = true → Returns p (Astrologer.runHandler p srv)) := by
  have hgoes : ((Astrologer.runHandler p srv).mem p).toConnState.goesOn =
      (srv.session p).round.1.goesOn := by
    have hs := goesOn_session (c := (Astrologer.runHandler p srv).ctx p) h.runHandler.conn
    refine Eq.trans hs ?_
    rw [Session.goesOn, Session.goesOn, ← h.session.1, ← h.session.2]
    rfl
  have hunfold : ∀ fuel, updateStateLoop p (fuel + 1) srv =
      if (srv.session p).round.1.goesOn = true
        then updateStateLoop p fuel (Astrologer.runHandler p srv)
        else some (Astrologer.runHandler p srv) := by
    intro fuel
    rw [← hgoes]
    rfl
  constructor
  · rintro ⟨fuel, srv', hl⟩ hgo
    cases fuel with
    | zero => cases hl
    | succ fuel =>
      rw [hunfold, if_pos hgo] at hl
      exact ⟨fuel, srv', hl⟩
  · intro hr
    by_cases hgo : (srv.session p).round.1.goesOn = true
    · obtain ⟨fuel, srv', hl⟩ := hr hgo
      exact ⟨fuel + 1, srv', by rw [hunfold, if_pos hgo, hl]⟩
    · exact ⟨1, _, by rw [hunfold, if_neg hgo]⟩

theorem Ready.returns_of_not_goesOn (h : Ready p srv)
    (hg : (srv.session p).round.1.goesOn = false) : Returns p srv :=
  h.returns_iff.mpr fun hgo => absurd (hg.symm.trans hgo) Bool.false_ne_true

/-- **The loop does not end** when the connection has failed with bytes left: no handler touches a
failed connection, so the condition of the loop stays true. -/
theorem Ready.not_returns (h : Ready p srv)
    (hphase : (srv.session p).phase = .failed opRead)
    (hun : (srv.session p).unread ≠ []) : ¬ Returns p srv := by
  rintro ⟨fuel, srv', hl⟩
  induction fuel generalizing srv with
  | zero => cases hl
  | succ fuel ih =>
    have hround : (srv.session p).round.1 = srv.session p := by
      unfold Session.round
      rw [hphase]
    have hgo : (srv.session p).round.1.goesOn = true := by
      rw [hround, Session.goesOn, hphase, decide_eq_true hun]
      rfl
    have hs := h.session
    rw [hround] at hs
    have hmem : ((Astrologer.runHandler p srv).mem p).toConnState.goesOn = true := by
      have hg := goesOn_session (c := (Astrologer.runHandler p srv).ctx p) h.runHandler.conn
      refine Eq.trans hg ?_
      rw [show ((Astrologer.runHandler p srv).ctx p).session.goesOn =
        ((Astrologer.runHandler p srv).session p).goesOn from rfl, Session.goesOn, hs.1,
        hs.2, hphase, decide_eq_true hun]
      rfl
    have hl : (if ((Astrologer.runHandler p srv).mem p).goesOn = true
        then updateStateLoop p fuel (Astrologer.runHandler p srv)
        else some (Astrologer.runHandler p srv)) = some srv' := hl
    rw [if_pos hmem] at hl
    exact ih h.runHandler (hs.1.trans hphase) (by rw [hs.2]; exact hun) hl

/-- A round that ends in a failure while reading: the loop ends if nothing is left. -/
theorem Ready.returns_failed (h : Ready p srv)
    (hphase : (srv.session p).round.1.phase = .failed opRead) :
    Returns p srv ↔ (srv.session p).round.1.unread = [] := by
  constructor
  · intro hr
    by_contra hun
    have hgo : (srv.session p).round.1.goesOn = true := by
      rw [Session.goesOn, hphase, decide_eq_true hun]
      rfl
    exact h.runHandler.not_returns (h.session.1.trans hphase)
      (by rw [h.session.2]; exact hun) (h.returns_iff.mp hr hgo)
  · intro hun
    refine h.returns_of_not_goesOn ?_
    rw [Session.goesOn, hun]
    exact Bool.and_false _

theorem drop_eq_nil_iff_not_lt {bs : List Byte} :
    bs.drop astrologBufLen = [] ↔ ¬ astrologBufLen < bs.length := by
  rw [List.drop_eq_nil_iff, Nat.not_lt]

/-- Bytes for a prognosis. -/
theorem Ready.returns_prognosis (h : Ready p srv) {z : ℕ} {line bs : List Byte}
    {t : Session} (hphase : (srv.session p).phase = .prognosis z line)
    (hfetch : (srv.session p).fetch = (.bytes bs, t)) :
    Returns p srv ↔ ¬ RejectsPrognosis (line ++ bs) := by
  have hround : (srv.session p).round = t.readPrognosis z line bs := by
    unfold Session.round
    rw [hphase]
    simp only [hfetch]
  unfold RejectsPrognosis
  cases hf : frame astrologBufLen delimiter (line ++ bs) with
  | line l rest =>
    have hret : Returns p srv := h.returns_of_not_goesOn (by
      rw [hround, Session.readPrognosis, hf]
      rfl)
    simp only [reduceCtorEq, false_and, not_false_eq_true, iff_true]
    exact hret
  | overlong =>
    have hphase' : (srv.session p).round.1.phase = .failed opRead := by
      rw [hround, Session.readPrognosis, hf]
    have hun : (srv.session p).round.1.unread = (line ++ bs).drop astrologBufLen := by
      rw [hround, Session.readPrognosis, hf]
    rw [h.returns_failed hphase', hun, drop_eq_nil_iff_not_lt]
    simp only [true_and]
  | unfinished =>
    have hret : Returns p srv := h.returns_of_not_goesOn (by
      rw [hround, Session.readPrognosis, hf]
      rfl)
    simp only [reduceCtorEq, false_and, not_false_eq_true, iff_true]
    exact hret

/-- Bytes for a request line. -/
theorem Ready.returns_firstLine (h : Ready p srv) {line bs : List Byte}
    {t : Session} (hphase : (srv.session p).phase = .firstLine line)
    (hfetch : (srv.session p).fetch = (.bytes bs, t)) :
    Returns p srv ↔ ¬ RejectsFirstLine (line ++ bs) := by
  have hround : (srv.session p).round = t.readFirstLine line bs := by
    unfold Session.round
    rw [hphase]
    simp only [hfetch]
  unfold RejectsFirstLine
  cases hf : frame astrologBufLen delimiter (line ++ bs) with
  | line l rest =>
    have hobey : (srv.session p).round = t.obey l rest := by
      rw [hround, Session.readFirstLine, hf]
    unfold Session.obey at hobey
    cases hclass : classify l with
    | star z =>
      simp only [hclass] at hobey ⊢
      have hphase' := congrArg (fun r : Session × After => r.1.phase) hobey
      have hun := congrArg (fun r : Session × After => r.1.unread) hobey
      by_cases hrest : rest = []
      · have hnot : ¬ RejectsPrognosis rest := by
          rintro ⟨-, hlt⟩
          rw [hrest] at hlt
          exact absurd hlt (Nat.not_lt_zero _)
        refine iff_of_true (h.returns_of_not_goesOn ?_) hnot
        rw [Session.goesOn, hun, hrest]
        exact Bool.and_false _
      · have hgo : (srv.session p).round.1.goesOn = true := by
          rw [Session.goesOn, hphase', hun]
          simp only [Phase.reads, ne_eq, hrest, not_false_eq_true, decide_true, Bool.and_self]
        have hfetch' : ((Astrologer.runHandler p srv).session p).fetch =
            (.bytes rest, (Astrologer.runHandler p srv).session p) := by
          rw [Session.fetch, h.session.2, hun]
          exact if_neg hrest
        have hnext := h.runHandler.returns_prognosis (h.session.1.trans hphase') hfetch'
        rw [List.nil_append] at hnext
        rw [h.returns_iff, ← hnext]
        exact ⟨fun hr => hr hgo, fun hr _ => hr⟩
    | client z =>
      simp only [hclass] at hobey ⊢
      refine iff_of_true (h.returns_of_not_goesOn ?_) not_false
      rw [Session.goesOn, congrArg (fun r : Session × After => r.1.phase) hobey]
      rfl
    | bad =>
      simp only [hclass] at hobey ⊢
      rw [h.returns_failed (congrArg (fun r : Session × After => r.1.phase) hobey),
        congrArg (fun r : Session × After => r.1.unread) hobey, ne_eq, not_not]
  | overlong =>
    have hphase' : (srv.session p).round.1.phase = .failed opRead := by
      rw [hround, Session.readFirstLine, hf]
    have hun : (srv.session p).round.1.unread = (line ++ bs).drop astrologBufLen := by
      rw [hround, Session.readFirstLine, hf]
    rw [h.returns_failed hphase', hun]
    exact drop_eq_nil_iff_not_lt
  | unfinished =>
    refine iff_of_true (h.returns_of_not_goesOn ?_) not_false
    rw [hround, Session.readFirstLine, hf]
    rfl

theorem not_rejectsFirstLine_of_unfinished {bs : List Byte}
    (h : frame astrologBufLen delimiter bs = .unfinished) : ¬ RejectsFirstLine bs := by
  rw [RejectsFirstLine, h]
  exact not_false

theorem not_rejectsPrognosis_of_unfinished {bs : List Byte}
    (h : frame astrologBufLen delimiter bs = .unfinished) : ¬ RejectsPrognosis bs := by
  rw [RejectsPrognosis, h]
  rintro ⟨hf, -⟩
  cases hf

/-- A connection at rest that is reading has nothing unread. -/
theorem Server.Idle.unread_eq_nil (h : srv.Idle p)
    (hreads : (srv.session p).phase.reads = true) : (srv.session p).unread = [] := by
  have hg := goesOn_session (c := srv.ctx p) h.conn
  have hg : (srv.session p).goesOn = false := hg.symm.trans h.not_goesOn
  rw [Session.goesOn, hreads, Bool.true_and, decide_eq_false_iff_not, ne_eq,
    not_not] at hg
  exact hg

/-- A connection at rest is in one of the phases that do something. -/
theorem Server.Idle.phase_cases (h : srv.Idle p) :
    (∃ line, (srv.session p).phase = .firstLine line) ∨
    (∃ z line, (srv.session p).phase = .prognosis z line) ∨
    ∃ pending, (srv.session p).phase = .reply pending := by
  rw [session_phase, ConnState.phase]
  have hover := h.not_over
  unfold ConnState.over at hover
  cases hs : (srv.mem p).state with
  | stateRecvFirstLine => exact Or.inl ⟨_, rfl⟩
  | stateRecvH => exact Or.inr (Or.inl ⟨_, _, rfl⟩)
  | stateSendThanks => exact Or.inr (Or.inr ⟨_, rfl⟩)
  | stateSendH => exact Or.inr (Or.inr ⟨_, rfl⟩)
  | stateError => exact absurd (Or.inl hs) hover
  | stateSuccess => exact absurd (Or.inr hs) hover

/-- What `fetch` gives a connection with nothing unread. -/
theorem fetch_of_unread {s : Session} (hun : s.unread = []) {bs : List Byte} {b : Byte}
    {tl : List Byte} (hhead : s.io.recvs.head = .bytes bs)
    (htake : bs.take astrologBufLen = b :: tl) :
    s.fetch = (.bytes (b :: tl),
      { s with unread := b :: tl, io := (s.io.recv astrologBufLen).2 }) := by
  simp only [Session.fetch, hun, if_true, Io.recv, hhead, htake]

theorem Ready.hangs_firstLine (h : Ready p srv) {line : List Byte}
    (hphase : (srv.session p).phase = .firstLine line)
    (hun : (srv.session p).unread = []) (hlegal : (Phase.firstLine line).Legal) :
    Returns p srv ↔ ¬ (srv.session p).Hangs := by
  unfold Session.Hangs
  cases hhead : (srv.session p).io.recvs.head with
  | error =>
    simp only [hphase]
    refine iff_of_true (h.returns_of_not_goesOn ?_) not_false
    unfold Session.round
    simp only [hphase, Session.fetch, hun, if_true, Io.recv, hhead]
    rfl
  | bytes bs =>
    simp only [hphase]
    cases htake : bs.take astrologBufLen with
    | nil =>
      have hempty : frame astrologBufLen delimiter (line ++ []) = .unfinished := by
        rw [List.append_nil]
        exact frame_eq_unfinished.mpr hlegal
      refine iff_of_true (h.returns_of_not_goesOn ?_)
        (not_rejectsFirstLine_of_unfinished hempty)
      unfold Session.round
      simp only [hphase, Session.fetch, hun, if_true, Io.recv, hhead, htake]
      exact Bool.and_false _
    | cons b tl => exact h.returns_firstLine hphase (fetch_of_unread hun hhead htake)

theorem Ready.hangs_prognosis (h : Ready p srv) {z : ℕ} {line : List Byte}
    (hphase : (srv.session p).phase = .prognosis z line)
    (hun : (srv.session p).unread = []) (hlegal : (Phase.prognosis z line).Legal) :
    Returns p srv ↔ ¬ (srv.session p).Hangs := by
  unfold Session.Hangs
  cases hhead : (srv.session p).io.recvs.head with
  | error =>
    simp only [hphase]
    refine iff_of_true (h.returns_of_not_goesOn ?_) not_false
    unfold Session.round
    simp only [hphase, Session.fetch, hun, if_true, Io.recv, hhead]
    rfl
  | bytes bs =>
    simp only [hphase]
    cases htake : bs.take astrologBufLen with
    | nil =>
      have hempty : frame astrologBufLen delimiter (line ++ []) = .unfinished := by
        rw [List.append_nil]
        exact frame_eq_unfinished.mpr hlegal.2
      refine iff_of_true (h.returns_of_not_goesOn ?_)
        (not_rejectsPrognosis_of_unfinished hempty)
      unfold Session.round
      simp only [hphase, Session.fetch, hun, if_true, Io.recv, hhead, htake]
      exact Bool.and_false _
    | cons b tl => exact h.returns_prognosis hphase (fetch_of_unread hun hhead htake)

/-- Nothing can go wrong with no bytes. -/
theorem not_rejectsFirstLine_nil : ¬ RejectsFirstLine [] :=
  not_rejectsFirstLine_of_unfinished (frame_eq_unfinished.mpr ⟨List.not_mem_nil, by decide⟩)

theorem Ready.hangs_reply (h : Ready p srv) {pending : List Byte}
    (hphase : (srv.session p).phase = .reply pending) :
    Returns p srv ↔ ¬ (srv.session p).Hangs := by
  unfold Session.Hangs
  cases hhead : (srv.session p).io.sends.head with
  | error =>
    simp only [hphase]
    refine iff_of_true (h.returns_of_not_goesOn ?_) not_false
    unfold Session.round
    simp only [hphase, Io.send, hhead]
    rfl
  | count k =>
    simp only [hphase]
    by_cases hle : pending.length ≤ k
    · have hdrop : pending.drop (min k pending.length) = [] :=
        List.drop_of_length_le (by omega)
      have hround : (srv.session p).round.1.phase = .firstLine [] ∧
          (srv.session p).round.1.unread = (srv.session p).unread := by
        unfold Session.round
        simp only [hphase, Io.send, hhead, hdrop, if_true, and_self]
      by_cases hun : (srv.session p).unread = []
      · rw [hun]
        refine iff_of_true (h.returns_of_not_goesOn ?_)
          fun hr => not_rejectsFirstLine_nil hr.2
        rw [Session.goesOn, hround.2, hun]
        exact Bool.and_false _
      · -- the bytes kept while the reply was sent come next
        have hgo : (srv.session p).round.1.goesOn = true := by
          rw [Session.goesOn, hround.1, hround.2, decide_eq_true hun]
          rfl
        have hfetch : ((Astrologer.runHandler p srv).session p).fetch =
            (.bytes (srv.session p).unread, (Astrologer.runHandler p srv).session p) := by
          rw [Session.fetch, h.session.2, hround.2]
          exact if_neg hun
        have hnext := h.runHandler.returns_firstLine (h.session.1.trans hround.1) hfetch
        rw [List.nil_append] at hnext
        rw [h.returns_iff]
        constructor
        · exact fun hr hrej => hnext.mp (hr hgo) hrej.2
        · exact fun hr _ => hnext.mpr fun hrej => hr ⟨hle, hrej⟩
    · have hdrop : pending.drop (min k pending.length) ≠ [] := by
        rw [ne_eq, List.drop_eq_nil_iff]
        omega
      refine iff_of_true (h.returns_of_not_goesOn ?_) fun hr => hle hr.1
      unfold Session.round
      simp only [hphase, Io.send, hhead, hdrop, if_false]
      rfl

/-- **A call on a connection at rest** ends unless it hangs.  By the phase of the connection: it
reads a request line or a prognosis, or it sends a reply and goes on with what has been kept. -/
theorem Ready.returns_iff_not_hangs (h : Ready p srv) (hidle : srv.Idle p) :
    Returns p srv ↔ ¬ (srv.session p).Hangs := by
  have hlegal : (srv.session p).phase.Legal := ConnInv.legal (c := srv.ctx p) h.conn
  rcases hidle.phase_cases with ⟨line, hphase⟩ | ⟨z, line, hphase⟩ | ⟨pending, hphase⟩
  · rw [hphase] at hlegal
    exact h.hangs_firstLine hphase (hidle.unread_eq_nil (by rw [hphase]; rfl)) hlegal
  · rw [hphase] at hlegal
    exact h.hangs_prognosis hphase (hidle.unread_eq_nil (by rw [hphase]; rfl)) hlegal
  · exact h.hangs_reply hphase

end Sessions

theorem updateState_of_returns {p : Ptr} {srv : Server} :
    (∃ fuel r, updateState fuel p srv = some r) ↔ Returns p srv := by
  constructor
  · rintro ⟨fuel, r, hr⟩
    obtain ⟨srv', hl, -⟩ := Option.map_eq_some_iff.mp hr
    exact ⟨fuel, srv', hl⟩
  · rintro ⟨fuel, srv', hl⟩
    exact ⟨fuel, _, by rw [updateState, hl]; rfl⟩

/-- The call of `discard_expired_connections`: the state has been set to
`STATE_ERROR`, and the buffer of a connection at rest is empty when it reads. -/
theorem ConnsIdle.discard_returns {srv : Server} {p : Ptr} (h : ConnsIdle srv)
    (hinv : ServerInv srv) (hp : p ∈ srv.allocated) :
    Returns p (srv.setState p stateError) := by
  have hself := setState_mem_self srv p stateError
  have hready : Ready p (srv.setState p stateError) :=
    ⟨(hinv.setState p stateError).heap, hp, (h p hp).setState⟩
  have hphase : ((srv.setState p stateError).session p).phase = .failed (srv.mem p).op := by
    rw [session_phase, hself]
    rfl
  have hround : ((srv.setState p stateError).session p).round.1 =
      (srv.setState p stateError).session p := by
    unfold Session.round
    rw [hphase]
  have hgoes := goesOn_session (c := (srv.setState p stateError).ctx p) hready.conn
  refine hready.returns_of_not_goesOn ?_
  rw [hround]
  refine hgoes.symm.trans ?_
  show ((srv.setState p stateError).mem p).toConnState.goesOn = false
  rw [hself]
  exact (h p hp).not_goesOn

/-- **When `update_state` returns.**  In every state of every run, the call that `main`
makes for a live connection returns if and only if it is not given an illegal line
with more bytes behind it, whatever else the kernel answers; and the call of
`discard_expired_connections` returns. -/
theorem updateState_returns_iff {c : Config} (h : Reachable c) {p : Ptr}
    (hp : p ∈ c.srv.allocated) (k : Kernel) :
    ((∃ fuel r, updateState fuel p (c.srv.withKernel k) = some r) ↔
      ¬ ((c.srv.withKernel k).session p).Hangs) ∧
    ∃ fuel r, updateState fuel p ((c.srv.withKernel k).setState p stateError) = some r := by
  have hinv := h.inv.srv.withKernel k
  have hidle := h.idle.withKernel k
  have hready : Ready p (c.srv.withKernel k) := ⟨hinv.heap, hp, (hidle p hp).conn⟩
  rw [updateState_of_returns, updateState_of_returns]
  exact ⟨hready.returns_iff_not_hangs (hidle p hp), hidle.discard_returns hinv hp⟩

/-! Two calls to look at: a star sends its two lines in one piece, and a client sends a bad
line and one byte more in one piece. -/

/-- `epoll_wait` has reported the connection `1`. -/
def sampleReported : Server := (minTimeout (sampleTwo.withKernel (sampleKernel 0))).2.2

theorem sampleReported_reachable : Reachable ⟨.dispatch [some 1], sampleReported⟩ := by
  have hreports : sampleTwo.Reports [some 1] :=
    ⟨[5], List.nodup_singleton 5, by decide, .cons ⟨epollIn, rfl⟩ .nil⟩
  exact sampleTwo_reachable.step
    (.waitEvents sampleTwo (sampleKernel 0) (List.cons_ne_nil _ _) hreports)

theorem sampleStarSays_not_rejected : ¬ RejectsFirstLine (str "STARS SAY Aries\nhi\n") := by
  have hframe : frame astrologBufLen delimiter (str "STARS SAY Aries\nhi\n") =
      .line (str "STARS SAY Aries\n") (str "hi\n") := by decide
  have hclass : classify (str "STARS SAY Aries\n") = .star 0 := by decide
  rw [RejectsFirstLine, hframe]
  simp only [hclass, RejectsPrognosis]
  decide

/-- The second line is left in `interm_buf` by the first, and served by the same call. -/
theorem sampleReported_returns :
    ∃ fuel r, updateState fuel 1 (sampleReported.withKernel sampleStarSays) = some r :=
  (updateState_returns_iff sampleReported_reachable (by decide) sampleStarSays).1.mpr
    sampleStarSays_not_rejected

/-- What `recv` returns for the line "BAD" and the beginning of another. -/
def sampleBadKernel : Kernel :=
  { sampleKernel 0 with recvs := Stream'.const (.bytes (str "BAD\nX")) }

theorem sampleBadKernel_rejects : RejectsFirstLine (str "BAD\nX") := by
  have hframe : frame astrologBufLen delimiter (str "BAD\nX") =
      .line (str "BAD\n") (str "X") := by decide
  have hclass : classify (str "BAD\n") = .bad := by decide
  rw [RejectsFirstLine, hframe]
  simp only [hclass]
  decide

/-- The call does not return: the state is reached in a run, the connection is live,
and no fuel has a result. -/
theorem sampleReported_not_returns :
    Reachable ⟨.dispatch [some 1], sampleReported⟩ ∧ 1 ∈ sampleReported.allocated ∧
      ¬ ∃ fuel r,
        updateState fuel 1 (sampleReported.withKernel sampleBadKernel) = some r := by
  have hreach := sampleReported_reachable
  have hmem : 1 ∈ sampleReported.allocated := by decide
  have hidle : (sampleReported.withKernel sampleBadKernel).Idle 1 :=
    (hreach.idle.withKernel sampleBadKernel) 1 hmem
  have hready : Ready 1 (sampleReported.withKernel sampleBadKernel) :=
    ⟨(hreach.inv.srv.withKernel sampleBadKernel).heap, hmem, hidle.conn⟩
  have hnot : ¬ Returns 1 (sampleReported.withKernel sampleBadKernel) :=
    fun hr => (hready.returns_iff_not_hangs hidle).mp hr sampleBadKernel_rejects
  exact ⟨hreach, hmem, mt updateState_of_returns.mp hnot⟩

end Astrologer
