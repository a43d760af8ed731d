import Astrologer.Server.Termination

/-!
# When expired connections are thrown out

`min_timeout` tells `epoll_wait` to wait no longer than until the first deadline, and
`discard_expired_connections` removes the connections whose deadline has passed.  But
`main` calls it in one branch only, when `epoll_wait` reports nothing.  As long as
other connections keep it busy, a connection that has expired stays.

`expired_discarded_iff` says exactly when an iteration of `main` leaves no connection
whose deadline has passed by the clock that `min_timeout` read: when nothing is
reported, or when all that have expired are reported themselves, and none of them
merely goes on with a line or a reply that it is in the middle of (`Phase.Stalls`).
That is the only thing a connection can do without being removed or being given a new
deadline.

## The clock

`get_cur_time` reads `CLOCK_MONOTONIC`, so what is read in an iteration after
`min_timeout` is not before what `min_timeout` has read (`Kernel.ClockFrom`).
-/

namespace Astrologer

open Lines ServerStateType FdOperation

/-! ## Rounds that set no deadline

A round gives a new deadline, or ends the connection, or it is in the middle of a line or of a
reply and stays there.  The last kind is what keeps an expired connection alive, and it can be
told by the phase and the next answer of the kernel. -/

/-- The bytes received go on with the line, and do not complete it. -/
def RecvResult.Continues (line : List Byte) : RecvResult → Prop
  | .error => False
  | .bytes bs =>
    bs.take astrologBufLen ≠ [] ∧
      frame astrologBufLen delimiter (line ++ bs.take astrologBufLen) = .unfinished

/-- The send leaves a part of the reply. -/
def SendResult.Leaves (pending : List Byte) : SendResult → Prop
  | .error => False
  | .count n => pending.drop n ≠ []

/-- The connection is in the middle of something, and stays there with the next
answer of the kernel. -/
def Phase.Stalls (k : Kernel) : Phase → Prop
  | .firstLine line => k.recvs.head.Continues line
  | .prognosis _ line => k.recvs.head.Continues line
  | .reply pending => k.sends.head.Leaves pending
  | .failed _ => False
  | .finished => False

section Rounds

variable {s : Session} {k : Kernel}

theorem continues_cases {r : RecvResult} {line : List Byte} (h : r.Continues line) :
    ∃ bs b tl, r = .bytes bs ∧ bs.take astrologBufLen = b :: tl ∧
      frame astrologBufLen delimiter (line ++ (b :: tl)) = .unfinished := by
  cases r with
  | error => exact h.elim
  | bytes bs =>
    obtain ⟨hne, hf⟩ := h
    obtain ⟨b, tl, htl⟩ := List.exists_cons_of_ne_nil hne
    exact ⟨bs, b, tl, rfl, htl, htl ▸ hf⟩

/-- A round that stays in the middle of something. -/
theorem round_of_stalls (hrecvs : s.io.recvs = k.recvs) (hsends : s.io.sends = k.sends)
    (hun : s.phase.reads = true → s.unread = []) (h : s.phase.Stalls k) :
    s.round.2 = .done ∧ s.round.1.phase.over = false ∧ s.round.1.goesOn = false := by
  unfold Session.round
  cases hphase : s.phase with
  | firstLine line =>
    rw [hphase] at h hun
    obtain ⟨bs, b, tl, hhead, htl, hf⟩ := continues_cases h
    simp only [fetch_of_unread (hun rfl) (hrecvs ▸ hhead) htl, Session.readFirstLine, hf]
    exact ⟨trivial, rfl, rfl⟩
  | prognosis z line =>
    rw [hphase] at h hun
    obtain ⟨bs, b, tl, hhead, htl, hf⟩ := continues_cases h
    simp only [fetch_of_unread (hun rfl) (hrecvs ▸ hhead) htl, Session.readPrognosis, hf]
    exact ⟨trivial, rfl, rfl⟩
  | reply pending =>
    rw [hphase] at h
    unfold Io.send
    rw [hsends]
    cases hhead : k.sends.head with
    | error =>
      rw [Phase.Stalls, hhead] at h
      exact h.elim
    | count n =>
      rw [Phase.Stalls, hhead] at h
      have hmin : pending.drop (min n pending.length) ≠ [] := by
        intro hnil
        rw [List.drop_eq_nil_iff] at hnil
        exact h (List.drop_eq_nil_iff.mpr (by omega))
      simp only [if_neg hmin]
      exact ⟨trivial, rfl, rfl⟩
  | failed op =>
    rw [hphase] at h
    exact h.elim
  | finished =>
    rw [hphase] at h
    exact h.elim

/-- A request line or a prognosis that has not come to an unfinished line. -/
theorem readFirstLine_cases (s : Session) (line bs : List Byte)
    (hf : frame astrologBufLen delimiter (line ++ bs) ≠ .unfinished) :
    (s.readFirstLine line bs).2 = .updateTs ∨
      (s.readFirstLine line bs).1.phase.over = true := by
  unfold Session.readFirstLine
  cases hframe : frame astrologBufLen delimiter (line ++ bs) with
  | line l rest =>
    simp only [Session.obey]
    cases classify l with
    | star z => exact Or.inl rfl
    | client z => exact Or.inl rfl
    | bad => exact Or.inr rfl
  | overlong => exact Or.inr rfl
  | unfinished => exact absurd hframe hf

theorem readPrognosis_cases (s : Session) (z : ℕ) (line bs : List Byte)
    (hf : frame astrologBufLen delimiter (line ++ bs) ≠ .unfinished) :
    (s.readPrognosis z line bs).2 = .updateTs ∨
      (s.readPrognosis z line bs).1.phase.over = true := by
  unfold Session.readPrognosis
  cases hframe : frame astrologBufLen delimiter (line ++ bs) with
  | line l rest => exact Or.inl rfl
  | overlong => exact Or.inr rfl
  | unfinished => exact absurd hframe hf

/-- **Any other round** sets a new deadline or ends the connection: it has completed a line or a
reply, or it has met an error or the end of the stream. -/
theorem round_of_not_stalls (hrecvs : s.io.recvs = k.recvs)
    (hsends : s.io.sends = k.sends) (hun : s.phase.reads = true → s.unread = [])
    (h : ¬ s.phase.Stalls k) :
    s.round.2 = .updateTs ∨ s.round.1.phase.over = true := by
  unfold Session.round
  cases hphase : s.phase with
  | firstLine line =>
    rw [hphase] at h hun
    unfold Session.fetch
    rw [if_pos (hun rfl)]
    unfold Io.recv
    rw [hrecvs]
    cases hhead : k.recvs.head with
    | error => exact Or.inr rfl
    | bytes bs =>
      rw [Phase.Stalls, hhead] at h
      cases htake : bs.take astrologBufLen with
      | nil =>
        simp only [htake]
        by_cases hnil : line = []
        · rw [if_pos hnil]
          exact Or.inr rfl
        · rw [if_neg hnil]
          exact Or.inr rfl
      | cons b tl =>
        simp only [htake]
        refine readFirstLine_cases _ line (b :: tl) fun hf => h ?_
        rw [RecvResult.Continues, htake]
        exact ⟨List.cons_ne_nil b tl, hf⟩
  | prognosis z line =>
    rw [hphase] at h hun
    unfold Session.fetch
    rw [if_pos (hun rfl)]
    unfold Io.recv
    rw [hrecvs]
    cases hhead : k.recvs.head with
    | error => exact Or.inr rfl
    | bytes bs =>
      rw [Phase.Stalls, hhead] at h
      cases htake : bs.take astrologBufLen with
      | nil =>
        simp only [htake]
        exact Or.inr rfl
      | cons b tl =>
        simp only [htake]
        refine readPrognosis_cases _ z line (b :: tl) fun hf => h ?_
        rw [RecvResult.Continues, htake]
        exact ⟨List.cons_ne_nil b tl, hf⟩
  | reply pending =>
    rw [hphase] at h
    unfold Io.send
    rw [hsends]
    cases hhead : k.sends.head with
    | error => exact Or.inr rfl
    | count n =>
      rw [Phase.Stalls, hhead] at h
      have hnil : pending.drop (min n pending.length) = [] := by
        have hdrop : pending.drop n = [] := not_not.mp h
        rw [List.drop_eq_nil_iff] at hdrop ⊢
        omega
      simp only [if_pos hnil]
      exact Or.inl trivial
  | failed op => exact Or.inr (by rw [hphase]; rfl)
  | finished => exact Or.inr (by rw [hphase]; rfl)

end Rounds

/-! ## Calls of `update_state`

The first round of a call decides.  When it stalls the loop ends and the deadline is the old one;
when it does not, the connection is over or has a deadline behind the clock, and the rounds behind
it cannot change that. -/

/-- No reading of the clock to come is before `c`. -/
def Kernel.ClockFrom (c : ℤ) (k : Kernel) : Prop := ∀ n, c ≤ accumTimeNs (k.clock.get n)

/-- The deadline of a live connection has passed at `c`. -/
def Server.Expired (srv : Server) (c : ℤ) (p : Ptr) : Prop :=
  p ∈ srv.allocated ∧ accumTimeNs (srv.mem p).ts ≤ c

section Calls

variable {srv srv' : Server} {p : Ptr} {c : ℤ}

/-- A new deadline is behind the clock. -/
theorem lt_updateTs {now : Timespec} (h : c ≤ accumTimeNs now) (op : FdOperation) :
    c < accumTimeNs (updateTs now op) := by
  have hadd : accumTimeNs now < accumTimeNs (updateTs now op) := by
    rw [updateTs]
    by_cases hop : op = opRead
    · rw [if_pos hop, accumTimeNs, accumTimeNs]
      simp only [recvTimeoutSec, recvTimeoutNsec, secNsFactor]
      omega
    · rw [if_neg hop, accumTimeNs, accumTimeNs]
      simp only [sendTimeoutSec, sendTimeoutNsec, secNsFactor]
      omega
  exact h.trans_lt hadd

/-- The connection is over, or its deadline is behind `c`; and it stays so, since the clock does
not go back behind `c` and every later deadline is a reading of it and a timeout. -/
structure Fresh (c : ℤ) (p : Ptr) (srv : Server) : Prop where
  ready : Ready p srv
  clock : srv.kernel.ClockFrom c
  fresh : (srv.mem p).over ∨ c < accumTimeNs (srv.mem p).ts

theorem clockFrom_runHandler (h : Ready p srv) (hc : srv.kernel.ClockFrom c) :
    (runHandler p srv).kernel.ClockFrom c := by
  intro n
  rcases (h.inv.handled h.mem).clock with heq | heq
  · rw [heq]
    exact hc n
  · rw [heq]
    exact hc (n + 1)

theorem Fresh.runHandler (h : Fresh c p srv) : Fresh c p (runHandler p srv) := by
  have hh := h.ready.inv.handled h.ready.mem
  refine ⟨h.ready.runHandler, clockFrom_runHandler h.ready h.clock, ?_⟩
  rcases h.fresh with hover | hts
  · -- a handler leaves a connection alone that is over
    have hstate : handleState (srv.ctx p) = (srv.ctx p, .done) := by
      have hs : (srv.ctx p).s.state = stateError ∨ (srv.ctx p).s.state = stateSuccess := hover
      unfold handleState
      rcases hs with hs | hs <;> rw [hs]
    refine Or.inl ?_
    have hconn := hh.conn
    rw [hstate] at hconn
    have hsame : ((Astrologer.runHandler p srv).mem p).toConnState =
        (srv.mem p).toConnState := hconn
    exact hsame ▸ hover
  · refine Or.inr ?_
    rw [hh.ts]
    by_cases hdone : (handleState (srv.ctx p)).2 = .done
    · rw [if_pos hdone]
      exact hts
    · rw [if_neg hdone]
      exact lt_updateTs (h.clock 0) _

theorem over_of_phase_over {s : ConnState} (h : s.phase.over = true) : s.over := by
  unfold ConnState.phase at h
  cases hs : s.state with
  | stateError => exact Or.inl hs
  | stateSuccess => exact Or.inr hs
  | stateRecvFirstLine => rw [hs] at h; cases h
  | stateRecvH => rw [hs] at h; cases h
  | stateSendThanks => rw [hs] at h; cases h
  | stateSendH => rw [hs] at h; cases h

/-- **A call that does not merely go on** removes the connection or gives it a
deadline behind the clock. -/
theorem updateState_of_not_stalls (hinv : ServerInv srv) (hp : p ∈ srv.allocated)
    (hidle : srv.Idle p) (hclock : srv.kernel.ClockFrom c)
    (h : ¬ (srv.mem p).phase.Stalls srv.kernel) {fuel : ℕ} {r : ℤ × Server}
    (hr : updateState fuel p srv = some r) : ¬ r.2.Expired c p := by
  have hready : Ready p srv := ⟨hinv.heap, hp, hidle.conn⟩
  have hh := hready.inv.handled hp
  have heq := (handleState_session (c := srv.ctx p) hidle.conn).1
  have hfirst : Fresh c p (runHandler p srv) := by
    refine ⟨hready.runHandler, clockFrom_runHandler hready hclock, ?_⟩
    have hround := round_of_not_stalls (s := srv.session p) rfl rfl hidle.unread_eq_nil h
    rcases hround with hts | hover
    · refine Or.inr ?_
      have hafter : (handleState (srv.ctx p)).2 = .updateTs :=
        (congrArg Prod.snd heq).trans hts
      rw [hh.ts, hafter, if_neg (by decide)]
      exact lt_updateTs (hclock 0) _
    · refine Or.inl (over_of_phase_over ?_)
      rw [hh.conn]
      have hphase : (handleState (srv.ctx p)).1.session.phase =
          (srv.session p).round.1.phase :=
        congrArg (fun x => x.1.phase) heq
      exact (congrArg Phase.over hphase).trans hover
  obtain ⟨srv₁, hloop, rfl⟩ := Option.map_eq_some_iff.mp hr
  have hlast : Fresh c p srv₁ := by
    rcases updateStateLoop_cases hloop with ⟨n, -, -, hloop⟩ | ⟨-, rfl⟩
    · exact updateStateLoop_preserves (fun _ ht => ht.runHandler) hloop hfirst
    · exact hfirst
  rintro ⟨hmem, hexp⟩
  rcases afterLoop_cases (srv.mem p).op p srv₁ with ⟨-, hal⟩ | ⟨hover, mask, ret, hw⟩
  · rw [hal] at hmem
    rw [(hlast.ready.inv.removed hlast.ready.mem).allocated] at hmem
    exact Finset.notMem_erase p _ hmem
  · rw [congrArg HeapMem.mem hw.toHeapMem] at hexp
    exact absurd hexp (not_le.mpr (hlast.fresh.resolve_left hover))

/-- **A call that merely goes on** leaves the connection with its old deadline, even if this has
passed: the connection is live behind it. -/
theorem updateState_of_stalls (hinv : ServerInv srv) (hp : p ∈ srv.allocated)
    (hidle : srv.Idle p) (h : (srv.mem p).phase.Stalls srv.kernel) {fuel : ℕ}
    {r : ℤ × Server} (hr : updateState fuel p srv = some r) :
    p ∈ r.2.allocated ∧ (r.2.mem p).ts = (srv.mem p).ts := by
  have hready : Ready p srv := ⟨hinv.heap, hp, hidle.conn⟩
  have hh := hready.inv.handled hp
  have heq := (handleState_session (c := srv.ctx p) hidle.conn).1
  obtain ⟨hdone, hover, hgoes⟩ :=
    round_of_stalls (s := srv.session p) rfl rfl hidle.unread_eq_nil h
  have hafter : (handleState (srv.ctx p)).2 = .done := (congrArg Prod.snd heq).trans hdone
  have hts : ((runHandler p srv).mem p).ts = (srv.mem p).ts := by
    rw [hh.ts, if_pos hafter]
  obtain ⟨hphase, hunread⟩ := hready.session
  have hgo : ((runHandler p srv).mem p).toConnState.goesOn = false := by
    have hg := goesOn_session (c := (runHandler p srv).ctx p) hready.runHandler.conn
    refine Eq.trans hg ?_
    rw [Session.goesOn] at hgoes ⊢
    rw [← hphase, ← hunread] at hgoes
    exact hgoes
  have hnot : ¬ ((runHandler p srv).mem p).over := by
    intro hov
    have hph : ((runHandler p srv).mem p).phase.over = true := by
      unfold ConnState.phase
      rcases hov with hs | hs <;> rw [hs] <;> rfl
    rw [show ((runHandler p srv).mem p).phase = (srv.session p).round.1.phase from hphase,
      hover] at hph
    cases hph
  obtain ⟨srv₁, hloop, rfl⟩ := Option.map_eq_some_iff.mp hr
  have hone : srv₁ = runHandler p srv := by
    rcases updateStateLoop_cases hloop with ⟨n, -, hg, -⟩ | ⟨-, heq⟩
    · rw [hgo] at hg
      cases hg
    · exact heq
  rw [hone]
  rcases afterLoop_cases (srv.mem p).op p (runHandler p srv) with ⟨hov, -⟩ |
    ⟨-, mask, ret, hw⟩
  · exact absurd hov hnot
  · rw [hw.allocated, hh.allocated, congrArg HeapMem.mem hw.toHeapMem]
    exact ⟨hp, hts⟩

end Calls

/-! ## Iterations

The steps of `main` put together from one `epoll_wait` to the next.  Every run is a sequence of
iterations and a beginning of one more. -/

/-- What `main` does about one event, and what the kernel answers. -/
inductive Turn
  | accept (k : Kernel) (conSocket : Option Fd) (block : Option (Ptr × ServerState))
  | update (p : Ptr) (k : Kernel)

def Turn.event : Turn → Option Ptr
  | .accept _ _ _ => none
  | .update p _ => some p

def Turn.kernel : Turn → Kernel
  | .accept k _ _ => k
  | .update _ k => k

/-- The `for` loop of `main`, when no call fails: the turns are made one after the other, each
with a kernel of its own. -/
inductive Dispatch : List Turn → Server → Server → Prop
  | nil (srv : Server) : Dispatch [] srv srv
  | accept {srv srv' : Server} {k : Kernel} {conSocket : Option Fd}
      {block : Option (Ptr × ServerState)} {turns : List Turn}
      (hfd : ∀ fd ∈ conSocket, srv.epoll fd = none)
      (hblock : ∀ b ∈ block, b.1 ∉ srv.allocated)
      (hret : (processNewConnection conSocket block (srv.withKernel k)).1 = 0)
      (h : Dispatch turns (processNewConnection conSocket block (srv.withKernel k)).2
        srv') : Dispatch (.accept k conSocket block :: turns) srv srv'
  | update {srv srv' : Server} {p : Ptr} {k : Kernel} {fuel : ℕ} {r : ℤ × Server}
      {turns : List Turn} (hu : updateState fuel p (srv.withKernel k) = some r)
      (hret : r.1 = 0) (h : Dispatch turns r.2 srv') :
      Dispatch (.update p k :: turns) srv srv'

/-- One iteration of `main`, from one `epoll_wait` to the next: it has reported nothing and the
expired connections are discarded, or it has reported events and each has its turn. -/
inductive Iteration (srv : Server) (k : Kernel) : List Turn → Server → Prop
  | expired {fuel : ℕ} {srv' : Server}
      (h : discardExpiredConnections fuel (minTimeout (srv.withKernel k)).2.2 =
        some srv') : Iteration srv k [] srv'
  | events {turns : List Turn} {srv' : Server} (hne : turns ≠ [])
      (hr : srv.Reports (turns.map Turn.event))
      (h : Dispatch turns (minTimeout (srv.withKernel k)).2.2 srv') :
      Iteration srv k turns srv'

section Iterations

variable {srv srv' : Server} {p : Ptr} {c : ℤ} {turns : List Turn}

theorem Dispatch.steps (h : Dispatch turns srv srv') :
    Relation.ReflTransGen Step ⟨.dispatch (turns.map Turn.event), srv⟩
      ⟨.dispatch [], srv'⟩ := by
  induction h with
  | nil srv => exact .refl
  | @accept srv srv' k conSocket block turns hfd hblock hret h ih =>
    have hstep := Step.newConnection srv k (turns.map Turn.event) hfd hblock
    rw [hret] at hstep
    exact .head hstep ih
  | @update srv srv' p k fuel r turns hu hret h ih =>
    have hstep := Step.update srv k p (turns.map Turn.event) hu
    rw [hret] at hstep
    exact .head hstep ih

/-- **An iteration is made of steps of `main`.** -/
theorem Iteration.steps {k : Kernel} (h : Iteration srv k turns srv') :
    Relation.ReflTransGen Step ⟨.epollWait, srv⟩ ⟨.epollWait, srv'⟩ := by
  cases h with
  | expired h => exact .single (.waitExpired srv k h)
  | events hne hr h =>
    have hne : turns.map Turn.event ≠ [] := fun heq => hne (List.map_eq_nil_iff.mp heq)
    exact .head (.waitEvents srv k hne hr) (h.steps.tail (.dispatched srv'))

theorem Reachable.steps {c c' : Config} (h : Reachable c)
    (hs : Relation.ReflTransGen Step c c') : Reachable c' := by
  induction hs with
  | refl => exact h
  | tail _ hstep ih => exact ih.step hstep

theorem Dispatch.append {more : List Turn} {srv'' : Server} (h : Dispatch turns srv srv')
    (h' : Dispatch more srv' srv'') : Dispatch (turns ++ more) srv srv'' := by
  induction h with
  | nil srv => exact h'
  | accept hfd hblock hret _ ih => exact .accept hfd hblock hret (ih h')
  | update hu hret _ ih => exact .update hu hret (ih h')

/-- Where a run is in its current iteration. -/
def Config.Iterated (c : Config) : Prop :=
  match c.pc with
  | .epollWait =>
    (∃ listenSocket, Initial listenSocket c.srv) ∨
      ∃ srv k turns, Reachable ⟨.epollWait, srv⟩ ∧ Iteration srv k turns c.srv
  | .dispatch events =>
    ∃ srv k turns, Reachable ⟨.epollWait, srv⟩ ∧ turns.map Turn.event ++ events ≠ [] ∧
      srv.Reports (turns.map Turn.event ++ events) ∧
      Dispatch turns (minTimeout (srv.withKernel k)).2.2 c.srv
  | .freeHeapElems => True
  | .returned => True

/-- **Every run is made of iterations**, and of the beginning of one that is not finished.  So
what holds behind every iteration holds wherever `main` comes to `epoll_wait`. -/
theorem Reachable.iterated {c : Config} (h : Reachable c) : c.Iterated := by
  induction h with
  | init h => exact Or.inl ⟨_, h⟩
  | @step c c' h hs ih =>
    cases hs with
    | waitFailed srv k => trivial
    | waitExpired srv k hd => exact Or.inr ⟨srv, k, [], h, .expired hd⟩
    | waitEvents srv k hne hr => exact ⟨srv, k, [], h, hne, hr, .nil _⟩
    | dispatched srv =>
      obtain ⟨srv₀, k, turns, h₀, hne, hr, hd⟩ := ih
      rw [List.append_nil] at hne hr
      exact Or.inr ⟨srv₀, k, turns, h₀,
        .events (fun heq => hne (List.map_eq_nil_iff.mpr heq)) hr hd⟩
    | @newConnection srv k events conSocket block hfd hblock =>
      obtain ⟨srv₀, k₀, turns, h₀, hne, hr, hd⟩ := ih
      by_cases hret : (processNewConnection conSocket block (srv.withKernel k)).1 = 0
      · rw [if_neg (not_not.mpr hret)]
        have hlist : turns.map Turn.event ++ none :: events =
            (turns ++ [Turn.accept k conSocket block]).map Turn.event ++ events := by
          rw [List.map_append, List.append_assoc]
          rfl
        exact ⟨srv₀, k₀, turns ++ [Turn.accept k conSocket block], h₀, hlist ▸ hne,
          hlist ▸ hr, hd.append (.accept hfd hblock hret (.nil _))⟩
      · rw [if_pos hret]
        trivial
    | @update srv k p events fuel r hu =>
      obtain ⟨srv₀, k₀, turns, h₀, hne, hr, hd⟩ := ih
      by_cases hret : r.1 = 0
      · rw [if_neg (not_not.mpr hret)]
        have hlist : turns.map Turn.event ++ some p :: events =
            (turns ++ [Turn.update p k]).map Turn.event ++ events := by
          rw [List.map_append, List.append_assoc]
          rfl
        exact ⟨srv₀, k₀, turns ++ [Turn.update p k], h₀, hlist ▸ hne, hlist ▸ hr,
          hd.append (.update hu hret (.nil _))⟩
      · rw [if_pos hret]
        trivial
    | freeElem srv k hsize => trivial
    | freed srv hsize => trivial

/-! ## Expiry

A call for another connection changes nothing about an expired one.  So of those that had expired
at the start of an iteration the ones without a turn remain, and the ones whose turn merely goes
on. -/

/-- A new connection has not expired, and the others are as they were. -/
theorem expired_processNewConnection (hinv : ServerInv srv) (conSocket : Option Fd)
    {block : Option (Ptr × ServerState)} (hblock : ∀ b ∈ block, b.1 ∉ srv.allocated)
    (hclock : srv.kernel.ClockFrom c) :
    (∀ q, (processNewConnection conSocket block srv).2.Expired c q ↔ srv.Expired c q) ∧
      ∀ q ∈ srv.allocated,
        ((processNewConnection conSocket block srv).2.mem q).toConnState =
          (srv.mem q).toConnState := by
  cases conSocket with
  | none => exact ⟨fun _ => Iff.rfl, fun _ _ => rfl⟩
  | some fd =>
    unfold Astrologer.processNewConnection
    simp only
    by_cases hfull : srv.heap.size ≥ srv.heap.capacity
    · rw [if_pos hfull]
      exact ⟨fun _ => Iff.rfl, fun _ _ => rfl⟩
    · rw [if_neg hfull]
      cases block with
      | none => exact ⟨fun _ => Iff.rfl, fun _ _ => rfl⟩
      | some b =>
        obtain ⟨p, raw⟩ := b
        have hp : p ∉ srv.allocated := hblock (p, raw) rfl
        have hc := hinv.heap.created hp fd raw
        have hne : ∀ q ∈ srv.allocated, q ≠ p := fun q hq heq => hp (heq ▸ hq)
        have hexp : ∀ q, (createServerState fd (some (p, raw)) srv).2.Expired c q ↔
            srv.Expired c q := by
          intro q
          constructor
          · rintro ⟨hq, hts⟩
            rw [hc.allocated] at hq
            by_cases hret : (createServerState fd (some (p, raw)) srv).1 = 0
            · rw [if_pos hret, Finset.mem_insert] at hq
              rcases hq with rfl | hq
              · rw [hc.ts hret] at hts
                exact absurd hts (not_le.mpr (lt_updateTs (hclock 0) opRead))
              · exact ⟨hq, (hc.same q (hne q hq)).2 ▸ hts⟩
            · rw [if_neg hret] at hq
              exact ⟨hq, (hc.same q (hne q hq)).2 ▸ hts⟩
          · rintro ⟨hq, hts⟩
            refine ⟨?_, (hc.same q (hne q hq)).2.symm ▸ hts⟩
            rw [hc.allocated]
            split
            · exact Finset.mem_insert_of_mem hq
            · exact hq
        have hsame : ∀ q ∈ srv.allocated,
            ((createServerState fd (some (p, raw)) srv).2.mem q).toConnState =
              (srv.mem q).toConnState := fun q hq => (hc.same q (hne q hq)).1
        by_cases hret : (createServerState fd (some (p, raw)) srv).1 ≠ 0
        · rw [if_pos hret]
          exact ⟨hexp, hsame⟩
        · rw [if_neg hret]
          exact ⟨hexp, hsame⟩

/-- A call of `update_state` is about its own connection. -/
theorem Updated.expired (h : Updated p srv srv') {q : Ptr} (hq : q ≠ p) :
    srv'.Expired c q ↔ srv.Expired c q := by
  have hmem : q ∈ srv'.allocated ↔ q ∈ srv.allocated := by
    rcases h.allocated with heq | heq
    · rw [heq]
    · rw [heq, Finset.mem_erase]
      exact ⟨fun h => h.2, fun h => ⟨hq, h⟩⟩
  rw [Server.Expired, Server.Expired, hmem, (h.others q hq).2]

/-- Every expired connection has a turn, and does not merely go on. -/
def Attended (c : ℤ) (turns : List Turn) (srv : Server) : Prop :=
  ∀ p, srv.Expired c p → ∃ k, .update p k ∈ turns ∧ ¬ (srv.mem p).phase.Stalls k

/-- **The `for` loop**: those that remain have expired before, and had no turn or
merely went on. -/
theorem Dispatch.expired_iff (h : Dispatch turns srv srv') (hinv : ServerInv srv)
    (hidle : ConnsIdle srv) (hev : EventsInv srv (turns.map Turn.event))
    (hclock : ∀ t ∈ turns, t.kernel.ClockFrom c) :
    (∀ p, ¬ srv'.Expired c p) ↔ Attended c turns srv := by
  induction h with
  | nil srv =>
    constructor
    · exact fun hnone p hp => absurd hp (hnone p)
    · intro hatt p hp
      obtain ⟨k, hk, -⟩ := hatt p hp
      exact List.not_mem_nil hk
  | @accept srv srv' k conSocket block turns hfd hblock hret h ih =>
    have hk : k.ClockFrom c := hclock _ List.mem_cons_self
    obtain ⟨hexp, hsame⟩ := expired_processNewConnection (hinv.withKernel k) conSocket
      hblock hk
    obtain ⟨hinv', hsub⟩ := (hinv.withKernel k).processNewConnection hfd hblock
    rw [ih hinv' ((hidle.withKernel k).processNewConnection (hinv.withKernel k) hblock)
      (hev.mono fun p _ hp => hsub hp)
      fun t ht => hclock t (List.mem_cons_of_mem _ ht)]
    have hphase : ∀ q, srv.Expired c q →
        ((processNewConnection conSocket block (srv.withKernel k)).2.mem q).phase =
          (srv.mem q).phase := fun q hq => congrArg ConnState.phase (hsame q hq.1)
    constructor
    · intro hatt q hq
      obtain ⟨k', hk', hst⟩ := hatt q ((hexp q).mpr hq)
      exact ⟨k', List.mem_cons_of_mem _ hk', hphase q hq ▸ hst⟩
    · intro hatt q hq
      have hq' : srv.Expired c q := (hexp q).mp hq
      obtain ⟨k', hk', hst⟩ := hatt q hq'
      rcases List.mem_cons.mp hk' with heq | hk'
      · cases heq
      · exact ⟨k', hk', (hphase q hq').symm ▸ hst⟩
  | @update srv srv' p k fuel r turns hu hret h ih =>
    have hk : k.ClockFrom c := hclock _ List.mem_cons_self
    have hp : p ∈ srv.allocated := hev.2 p (by
      rw [List.map_cons, Turn.event, List.reduceOption_cons_of_some]
      exact List.mem_cons_self)
    have hupd := (hinv.withKernel k).updated hp (hidle p hp).conn hu
    -- no second turn for the connection
    have honce : ∀ k', .update p k' ∉ turns := by
      intro k' hk'
      have hnodup := hev.1
      rw [List.map_cons, Turn.event, List.reduceOption_cons_of_some,
        List.nodup_cons] at hnodup
      exact hnodup.1 (List.reduceOption_mem_iff.mpr
        (List.mem_map.mpr ⟨_, hk', rfl⟩))
    have hev' : EventsInv r.2 (turns.map Turn.event) := by
      refine hev.mono fun q hq hmem => ?_
      have hqp : q ≠ p := by
        rintro rfl
        obtain ⟨t, ht, hte⟩ := List.mem_map.mp (List.reduceOption_mem_iff.mp hq)
        cases t with
        | accept k' conSocket block => cases hte
        | update q' k' =>
          cases hte
          exact honce k' ht
      rcases hupd.allocated with heq | heq
      · rw [heq]
        exact hmem
      · rw [heq]
        exact Finset.mem_erase.mpr ⟨hqp, hmem⟩
    rw [ih hupd.inv ((hidle.withKernel k).updated hupd) hev'
      fun t ht => hclock t (List.mem_cons_of_mem _ ht)]
    have hphase : ∀ q, q ≠ p → (r.2.mem q).phase = (srv.mem q).phase :=
      fun q hq => congrArg ConnState.phase (hupd.others q hq).1
    constructor
    · intro hatt q hq
      by_cases hqp : q = p
      · rw [hqp] at hq ⊢
        refine ⟨k, List.mem_cons_self, fun hst => ?_⟩
        obtain ⟨hmem, hts⟩ :=
          updateState_of_stalls (hinv.withKernel k) hp ((hidle.withKernel k) p hp) hst hu
        have hexp : r.2.Expired c p := ⟨hmem, hts.symm ▸ hq.2⟩
        obtain ⟨k', hk', -⟩ := hatt p hexp
        exact honce k' hk'
      · obtain ⟨k', hk', hst⟩ := hatt q ((hupd.expired hqp).mpr hq)
        exact ⟨k', List.mem_cons_of_mem _ hk', hphase q hqp ▸ hst⟩
    · intro hatt q hq
      by_cases hqp : q = p
      · rw [hqp] at hq
        by_cases hst : (srv.mem p).phase.Stalls k
        · obtain ⟨-, hts⟩ :=
            updateState_of_stalls (hinv.withKernel k) hp ((hidle.withKernel k) p hp) hst hu
          obtain ⟨k', hk', hst'⟩ := hatt p ⟨hp, hts ▸ hq.2⟩
          rcases List.mem_cons.mp hk' with heq | hk'
          · cases heq
            exact absurd hst hst'
          · exact absurd hk' (honce k')
        · exact absurd hq (updateState_of_not_stalls (hinv.withKernel k) hp
            ((hidle.withKernel k) p hp) hk hst hu)
      · obtain ⟨k', hk', hst⟩ := hatt q ((hupd.expired hqp).mp hq)
        rcases List.mem_cons.mp hk' with heq | hk'
        · cases heq
          exact absurd rfl hqp
        · exact ⟨k', hk', (hphase q hqp).symm ▸ hst⟩

/-- `discard_expired_connections` leaves nothing that has expired. -/
theorem discardLoop_expired (hinv : ServerInv srv) {cur : ℤ} {fuel : ℕ}
    (hd : discardLoop cur fuel srv = some srv') (p : Ptr) : ¬ srv'.Expired cur p := by
  induction fuel generalizing srv with
  | zero => cases hd
  | succ fuel ih =>
    rw [Astrologer.discardLoop] at hd
    cases htop : binaryHeapTop srv.toHeapMem with
    | none =>
      simp only [htop, Option.some.injEq] at hd
      rw [← hd]
      rintro ⟨hp, -⟩
      have hlt := (hinv.heap.entry_eq hp).1
      unfold binaryHeapTop at htop
      by_cases h0 : srv.heap.size = 0
      · omega
      · rw [if_neg h0] at htop
        cases htop
    | some elem =>
      simp only [htop] at hd
      by_cases hts : accumTimeNs (srv.mem elem).ts ≤ cur
      · rw [if_pos hts] at hd
        split at hd
        · cases hd
        next r hr =>
          have hmem : elem ∈ srv.allocated := binaryHeapTop_mem hinv.heap htop
          exact ih ((hinv.setState elem stateError).updateState hmem hr).1 hd
      · rw [if_neg hts, Option.some.injEq] at hd
        rw [← hd]
        rintro ⟨hp, hle⟩
        have hleast := (hinv.heap.wf.top_le htop).2 p (hinv.heap.elems ▸ hp)
        exact hts (hleast.trans hle)

/-- The clock that `min_timeout` reads at the start of an iteration. -/
def Server.clockRead (srv : Server) (k : Kernel) : ℤ := (minTimeout (srv.withKernel k)).1

/-- **When expiry is enforced.**  In every run, after an iteration of `main` no
connection in the heap has a deadline at or before the clock that `min_timeout` read
at its start if and only if `epoll_wait` reported nothing, or every connection that
had expired by then was reported itself and did more than go on with the line or the
reply that it was in the middle of. -/
theorem expired_discarded_iff (h : Reachable ⟨.epollWait, srv⟩) {k : Kernel}
    (hi : Iteration srv k turns srv') (hk : k.ClockFrom (srv.clockRead k))
    (hturns : ∀ t ∈ turns, t.kernel.ClockFrom (srv.clockRead k)) :
    (∀ p ∈ srv'.elems, srv.clockRead k < accumTimeNs (srv'.mem p).ts) ↔
      turns = [] ∨ ∀ p ∈ srv.elems, accumTimeNs (srv.mem p).ts ≤ srv.clockRead k →
        ∃ k', .update p k' ∈ turns ∧ ¬ (srv.mem p).phase.Stalls k' := by
  have hinv := h.inv.srv.withKernel k
  have hidle := h.idle.withKernel k
  obtain ⟨t, ht⟩ : ∃ t, t = (getCurTime (srv.withKernel k)).2 := ⟨_, rfl⟩
  have hinv' : ServerInv t := ht ▸ hinv.getCurTime
  have hidle' : ConnsIdle t := ht ▸ hidle.of_eq rfl rfl
  have hreach : Reachable ⟨.epollWait, srv'⟩ := h.steps hi.steps
  have hleft : (∀ p ∈ srv'.elems, srv.clockRead k < accumTimeNs (srv'.mem p).ts) ↔
      ∀ p, ¬ srv'.Expired (srv.clockRead k) p := by
    rw [hreach.inv.srv.heap.elems]
    exact ⟨fun hlt p hp => absurd hp.2 (not_le.mpr (hlt p hp.1)),
      fun hnone p hp => not_le.mp fun hle => hnone p ⟨hp, hle⟩⟩
  rw [hleft]
  cases hi with
  | expired hd =>
    rw [minTimeout_eq, discardExpiredConnections] at hd
    refine iff_of_true (fun p hp => ?_) (Or.inl rfl)
    exact discardLoop_expired (ht ▸ hinv').getCurTime hd p ⟨hp.1, hp.2.trans (hk 1)⟩
  | events hne hr hd =>
    rw [minTimeout_eq, ← ht] at hd
    have hev : EventsInv t (turns.map Turn.event) := by
      rw [ht]
      exact (h.inv.srv.withKernel k).getCurTime.reports hr
    rw [hd.expired_iff hinv' hidle' hev hturns, or_iff_right hne]
    rw [h.inv.srv.heap.elems, ht]
    exact ⟨fun hatt p hp hle => hatt p ⟨hp, hle⟩, fun hatt p hp => hatt p hp.1 hp.2⟩

end Iterations

/-! Two iterations to look at, `301` seconds after two clients have connected: both are reported
and ask for a prognosis, or only the connection `2`. -/

theorem sampleKernel_clockFrom (sec : ℤ) :
    (sampleKernel sec).ClockFrom (sec * secNsFactor) :=
  fun _ => le_of_eq (Int.add_zero _).symm

theorem sampleTwo_clockRead :
    sampleTwo.clockRead (sampleKernel 301) = 301 * secNsFactor := by decide

/-- What a client sends. -/
def sampleAskKernel : Kernel :=
  { sampleKernel 301 with recvs := Stream'.const (.bytes (str "HOROSCOPE Aries\n")) }

/-- Both connections have expired, and are given a new deadline because they go on. -/
theorem sampleTwo_discarded :
    ∃ srv', Iteration sampleTwo (sampleKernel 301)
        [.update 1 sampleAskKernel, .update 2 sampleAskKernel] srv' ∧
      ∀ p ∈ srv'.elems, sampleTwo.clockRead (sampleKernel 301) <
        accumTimeNs (srv'.mem p).ts := by
  have hreports : sampleTwo.Reports [some 1, some 2] :=
    ⟨[5, 6], by decide, by decide, .cons ⟨epollIn, rfl⟩ (.cons ⟨epollIn, rfl⟩ .nil)⟩
  have hcalls : ((updateState 8 1 ((minTimeout (sampleTwo.withKernel
      (sampleKernel 301))).2.2.withKernel sampleAskKernel)).bind fun r =>
        (updateState 8 2 (r.2.withKernel sampleAskKernel)).map fun r' => (r.1, r'.1)) =
      some (0, 0) := by decide
  obtain ⟨r, hr, hcall⟩ := Option.bind_eq_some_iff.mp hcalls
  obtain ⟨r', hr', heq⟩ := Option.map_eq_some_iff.mp hcall
  obtain ⟨hret, hret'⟩ := Prod.mk.inj heq
  have hi : Iteration sampleTwo (sampleKernel 301)
      [.update 1 sampleAskKernel, .update 2 sampleAskKernel] r'.2 :=
    .events (List.cons_ne_nil _ _) hreports (.update hr hret (.update hr' hret' (.nil _)))
  -- a whole request is more than the rest of a line
  have hmoves : ∀ p ∈ sampleTwo.elems,
      (.update p sampleAskKernel ∈ [Turn.update 1 sampleAskKernel, .update 2 sampleAskKernel]) ∧
        ¬ (sampleTwo.mem p).phase.Stalls sampleAskKernel := by
    have hframe : frame astrologBufLen delimiter (str "HOROSCOPE Aries\n") ≠ .unfinished := by
      decide
    have helems : ∀ p ∈ sampleTwo.elems, p = 1 ∨ p = 2 := by decide
    intro p hp
    rcases helems p hp with rfl | rfl
    · exact ⟨List.mem_cons_self, fun h => hframe h.2⟩
    · exact ⟨List.mem_cons_of_mem _ List.mem_cons_self, fun h => hframe h.2⟩
  refine ⟨r'.2, hi, (expired_discarded_iff sampleTwo_reachable hi ?_ ?_).mpr
    (Or.inr fun p hp _ => ⟨sampleAskKernel, hmoves p hp⟩)⟩
  · rw [sampleTwo_clockRead]
    exact sampleKernel_clockFrom 301
  · rw [sampleTwo_clockRead]
    intro t ht
    rcases List.mem_pair.mp ht with rfl | rfl
    · exact sampleKernel_clockFrom 301
    · exact sampleKernel_clockFrom 301

/-- The connection `1` has expired, and stays. -/
theorem sampleTwo_kept :
    Reachable ⟨.epollWait, sampleTwo⟩ ∧
      (sampleKernel 301).ClockFrom (sampleTwo.clockRead (sampleKernel 301)) ∧
      sampleAskKernel.ClockFrom (sampleTwo.clockRead (sampleKernel 301)) ∧
      ∃ srv', Iteration sampleTwo (sampleKernel 301) [.update 2 sampleAskKernel] srv' ∧
        1 ∈ srv'.elems ∧ ¬ sampleTwo.clockRead (sampleKernel 301) <
          accumTimeNs (srv'.mem 1).ts := by
  have hreports : sampleTwo.Reports [some 2] :=
    ⟨[6], List.nodup_singleton 6, by decide, .cons ⟨epollIn, rfl⟩ .nil⟩
  have hcall : ((updateState 8 2
      ((minTimeout (sampleTwo.withKernel (sampleKernel 301))).2.2.withKernel
        sampleAskKernel)).map fun r =>
          (r.1, decide (1 ∈ r.2.elems), (r.2.mem 1).ts)) =
      some (0, true, ⟨300, 0⟩) := by decide
  obtain ⟨r, hr, heq⟩ := Option.map_eq_some_iff.mp hcall
  obtain ⟨hret, heq⟩ := Prod.mk.inj heq
  obtain ⟨hmem, hts⟩ := Prod.mk.inj heq
  rw [sampleTwo_clockRead]
  refine ⟨sampleTwo_reachable, sampleKernel_clockFrom 301, sampleKernel_clockFrom 301,
    r.2, .events (List.cons_ne_nil _ _) hreports (.update hr hret (.nil _)),
    of_decide_eq_true hmem, ?_⟩
  rw [hts]
  decide

end Astrologer
