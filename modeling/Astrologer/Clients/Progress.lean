import Astrologer.Clients.Replies
import Astrologer.Server.Capacity

/-!
# Nobody is stuck

As long as a client has not returned, somebody can take a step.  A client that cannot go on
is in `recv_line` with nothing to receive (`Process.blocked_or_step`).  Its connection is in
the backlog, and then there is something to accept; or the server has it, and then the
server has bytes of the request to receive, or a reply to send: a reply that has been sent
whole has been received whole, since nothing of it is on its way.

The server does not wait with an event left, and it can always serve it.  For a connection
the kernel gives the bytes that are on their way, and the call returns, because a client
sends nothing that the server would reject (`Matched.not_hangs`).  For the listening socket
there is a connection to accept (`Listening`), and a descriptor and a block for it, as long as
there are not too many; and else it is closed.
-/

namespace Astrologer.Clients

open Lines ServerStateType FdOperation
open Proxy (recvLine sendAll)

/-! ## The listening socket

For progress it has to be known that `epoll` may report the listening socket, which is so as long
as the server is in its loop, and that it is reported only when somebody is there. -/

/-- The listening socket is watched for input, and it is the only one that `epoll` watches without
a connection; so an event without one is about it. -/
structure Listens (listenSocket : Fd) (srv : Server) : Prop where
  watched : srv.epoll listenSocket = some ⟨epollIn, none⟩
  only : ∀ fd mask, srv.epoll fd = some ⟨mask, none⟩ → fd = listenSocket

section Listens

variable {listenSocket : Fd} {srv srv' : Server}

theorem Listens.of_epoll (h : Listens listenSocket srv) (heq : srv'.epoll = srv.epoll) :
    Listens listenSocket srv' :=
  ⟨heq.symm ▸ h.watched, heq.symm ▸ h.only⟩

/-- Something happens to another descriptor. -/
theorem Listens.of_update (h : Listens listenSocket srv) {fd : Fd} {e : Option EpollEvent}
    (hne : srv.epoll fd ≠ some ⟨epollIn, none⟩) (he : ∀ mask, e ≠ some ⟨mask, none⟩)
    (heq : srv'.epoll = Function.update srv.epoll fd e) : Listens listenSocket srv' := by
  have hfd : listenSocket ≠ fd := by
    rintro rfl
    exact hne h.watched
  refine ⟨?_, fun fd' mask hmask => ?_⟩
  · rw [heq, Function.update_of_ne hfd]
    exact h.watched
  · rw [heq] at hmask
    by_cases hfd' : fd' = fd
    · rw [hfd', Function.update_self] at hmask
      exact absurd hmask (he mask)
    · rw [Function.update_of_ne hfd'] at hmask
      exact h.only fd' mask hmask

/-- There is always another descriptor. -/
theorem Listens.exists_fd (h : Listens listenSocket srv) (hinv : ServerInv srv) :
    ∃ fd, srv.epoll fd = none := by
  obtain ⟨fd, hfd⟩ :=
    Infinite.exists_notMem_finset (insert listenSocket (srv.allocated.image srv.fd))
  rw [Finset.mem_insert, not_or, Finset.mem_image] at hfd
  refine ⟨fd, Option.eq_none_iff_forall_not_mem.mpr fun e he => ?_⟩
  obtain ⟨mask, ptr⟩ := e
  cases ptr with
  | none => exact hfd.1 (h.only fd mask he)
  | some p =>
    obtain ⟨hp, hpfd⟩ := hinv.watch fd mask p he
    exact hfd.2 ⟨p, hp, hpfd⟩

/-- It is reported once. -/
theorem Listens.count_le (h : Listens listenSocket srv) {events : List (Option Ptr)}
    (hr : srv.Reports events) : events.count none ≤ 1 := by
  obtain ⟨fds, hnodup, -, hall⟩ := hr
  have hcount : events.count none ≤ fds.count listenSocket := by
    clear hnodup
    induction hall with
    | nil => exact Nat.le_refl _
    | @cons fd ptr fds events hfd _ ih =>
      obtain ⟨mask, hmask⟩ := hfd
      cases ptr with
      | none =>
        rw [h.only fd mask hmask, List.count_cons_self, List.count_cons_self]
        exact Nat.succ_le_succ ih
      | some p =>
        rw [List.count_cons_of_ne (by simp)]
        exact ih.trans (List.count_le_count_cons ..)
  exact hcount.trans (List.nodup_iff_count_le_one.mp hnodup listenSocket)

end Listens

variable {ι : Type*}

/-- The server listens, and when it is about to accept there is a connection in the backlog: an
iteration has at most one such event, and nothing but `accept4` takes from the backlog. -/
structure World.Listening (w : World ι) : Prop where
  listens : ∃ listenSocket, Listens listenSocket w.config.srv
  backlog : ∀ events, w.config.pc = .dispatch events →
    events.count none ≤ 1 ∧ (none ∈ events → ∃ i, (w.link i).stage = .backlog)

theorem World.Initial.listening {w : World ι} (h : w.Initial) : w.Listening := by
  obtain ⟨listenSocket, srv, hinit, hw⟩ := h.server
  refine ⟨⟨listenSocket, ?_⟩, fun events hpc => ?_⟩
  · rw [hw]
    have hepoll := hinit.epoll
    refine ⟨by rw [hepoll, Function.update_self], fun fd mask hmask => ?_⟩
    rw [hepoll] at hmask
    by_contra hne
    rw [Function.update_of_ne hne] at hmask
    cases hmask
  · rw [hw] at hpc
    cases hpc

section Steps

variable {w w' : World ι}

/-- An event has been dealt with. -/
theorem World.Listening.tail (h : w.Listening) {e : Option Ptr} {events : List (Option Ptr)}
    (hpc : w.config.pc = .dispatch (e :: events)) :
    events.count none ≤ 1 ∧ (none ∈ events → e ≠ none ∧ ∃ i, (w.link i).stage = .backlog) := by
  obtain ⟨hcount, hex⟩ := h.backlog _ hpc
  have hle : events.count none ≤ (e :: events).count none := List.count_le_count_cons ..
  refine ⟨hle.trans hcount, fun hmem => ⟨?_, hex (List.mem_cons_of_mem _ hmem)⟩⟩
  rintro rfl
  rw [List.count_cons_self] at hcount
  have hpos := List.count_pos_iff.mpr hmem
  omega

variable [DecidableEq ι]

/-- **The server goes on listening**, as no step of `main` in its loop changes what `epoll`
watches on the listening socket. -/
theorem World.Listening.step (h : w.Listening) (hinv : w.Inv) (hs : w.Step w') :
    w'.Listening := by
  obtain ⟨listenSocket, hlistens⟩ := h.listens
  cases hs with
  | @client i act c l hc hl =>
    refine ⟨⟨listenSocket, hlistens⟩, fun events hpc => ?_⟩
    obtain ⟨hcount, hex⟩ := h.backlog events hpc
    refine ⟨hcount, fun hmem => ?_⟩
    obtain ⟨j, hj⟩ := hex hmem
    refine ⟨j, ?_⟩
    by_cases hji : j = i
    · subst hji
      simp only [Function.update_self]
      rw [(Link.client_bears hl).stage, hj, ite_self]
    · simp only [Function.update_of_ne hji]
      exact hj
  | @wait srv srv' events hw hs hready =>
    rw [hw] at hlistens
    cases hs with
    | waitEvents srv k hne hr =>
      rw [minTimeout_eq]
      refine ⟨⟨listenSocket, hlistens.of_epoll rfl⟩, fun evs hpc => ?_⟩
      obtain rfl := Pc.dispatch.inj hpc
      exact ⟨hlistens.count_le hr, fun hmem => hready none hmem⟩
  | dispatched hw =>
    rw [hw] at hlistens
    exact ⟨⟨listenSocket, hlistens⟩, fun events hpc => by cases hpc⟩
  | @accept srv srv' events i p hw hs hi hp =>
    have hpc : w.config.pc = .dispatch (none :: events) := by rw [hw]
    obtain rfl : w.config.srv = srv := by rw [hw]
    refine ⟨⟨listenSocket, ?_⟩, fun evs hevs => ?_⟩
    · cases (admitted_of_step hinv.server.inv.srv hs).2 with
      | refused fd _ _ _ _ free epoll =>
        exact hlistens.of_update (by rw [free]; simp) (by simp) epoll
      | created _ fd _ _ _ _ _ _ _ free epoll =>
        exact hlistens.of_update (by rw [free]; simp) (by simp) epoll
    · obtain rfl := Pc.dispatch.inj hevs
      obtain ⟨hcount, hex⟩ := h.tail hpc
      exact ⟨hcount, fun hmem => absurd rfl (hex hmem).1⟩
  | @refuse srv srv' events i hw hs hi hfull =>
    have hpc : w.config.pc = .dispatch (none :: events) := by rw [hw]
    obtain rfl : w.config.srv = srv := by rw [hw]
    refine ⟨⟨listenSocket, ?_⟩, fun evs hevs => ?_⟩
    · cases (admitted_of_step hinv.server.inv.srv hs).2 with
      | refused fd _ _ _ _ free epoll =>
        exact hlistens.of_update (by rw [free]; simp) (by simp) epoll
      | created _ _ _ room => exact absurd hfull room
    · obtain rfl := Pc.dispatch.inj hevs
      obtain ⟨hcount, hex⟩ := h.tail hpc
      exact ⟨hcount, fun hmem => absurd rfl (hex hmem).1⟩
  | @serve srv srv' events i p l hw hs hp hl =>
    have hpc : w.config.pc = .dispatch (some p :: events) := by rw [hw]
    obtain ⟨⟨es, heffect⟩, -⟩ := hinv.served hw hs hp hl
    obtain rfl : w.config.srv = srv := by rw [hw]
    have hmem : p ∈ w.config.srv.allocated :=
      (hinv.server.inv.events _ hpc).2 p List.mem_cons_self
    have hreg : w.config.srv.epoll (w.config.srv.fd p) = some ⟨_, some p⟩ :=
      hinv.server.registered hinv.looping p hmem
    refine ⟨⟨listenSocket, hlistens.of_update (by rw [hreg]; simp) ?_ heffect.epoll⟩,
      fun evs hevs => ?_⟩
    · unfold watchedAs
      split <;> simp
    · obtain rfl := Pc.dispatch.inj hevs
      obtain ⟨hcount, hex⟩ := h.tail hpc
      refine ⟨hcount, fun hmem' => ?_⟩
      obtain ⟨j, hj⟩ := (hex hmem').2
      have hji : j ≠ i := by
        rintro rfl
        rw [(hinv.attends hmem hp).stage] at hj
        cases hj
      exact ⟨j, by simp only [Function.update_of_ne hji]; exact hj⟩

theorem World.Reachable.listening (h : w.Reachable) : w.Listening := by
  induction h with
  | init h => exact h.listening
  | step h hs ih => exact ih.step h.inv hs

end Steps

/-! ## Steps of the server

A step of `main` exists when its calls return.  The kernel may be chosen, so one that does not
fail and whose `recv` has the bytes that are there is taken. -/

/-- A kernel that gives these bytes, takes everything, and does not fail. -/
def answering (bs : List Byte) : Kernel where
  recvs := Stream'.const (.bytes bs)
  sends := Stream'.const (.count astrologBufLen)
  clock := Stream'.const ⟨0, 0⟩
  ctlFails := Stream'.const false

section Server

variable {srv : Server} {p : Ptr} {events : List (Option Ptr)}

theorem configureEpoll_ret {op : EpollCtl} {fd : Fd} {mask : UInt32} {ptr : Option Ptr}
    (hctl : srv.kernel.ctlFails.head = false) : (configureEpoll op fd mask ptr srv).1 = 0 := by
  unfold configureEpoll
  dsimp only
  rw [hctl]
  rfl

theorem createServerState_ret {fd : Fd} {raw : ServerState}
    (hroom : srv.heap.size < srv.heap.capacity) (hctl : srv.kernel.ctlFails.head = false) :
    (createServerState fd (some (p, raw)) srv).1 = 0 := by
  have hpush : ∀ u : HeapMem Mem Ptr, u.heap = srv.heap → (binaryHeapPush u p).1 = 0 := by
    intro u hu
    rw [binaryHeapPush_of_room (by rw [hu]; exact hroom)]
  unfold createServerState
  dsimp only
  split
  next hne =>
    refine absurd ?_ hne
    exact hpush _ rfl
  next =>
    split
    next hne =>
      refine absurd ?_ hne
      exact configureEpoll_ret hctl
    next => rfl

/-- **A connection can be accepted** while there is room. -/
theorem exists_accept (hinv : ServerInv srv) (hfree : ∃ fd, srv.epoll fd = none)
    (hroom : srv.heap.size < srv.heap.capacity) (events : List (Option Ptr)) :
    ∃ srv' p, Astrologer.Step ⟨.dispatch (none :: events), srv⟩ ⟨.dispatch events, srv'⟩ ∧
      srv.since srv' = [.connected p] := by
  obtain ⟨fd, hfd⟩ := hfree
  obtain ⟨p, hp⟩ := Infinite.exists_notMem_finset srv.allocated
  have hfd' : ∀ f ∈ some fd, srv.epoll f = none := fun f hf => Option.mem_some.mp hf ▸ hfd
  have hp' : ∀ b ∈ some (p, srv.mem p), b.1 ∉ srv.allocated :=
    fun b hb => Option.mem_some.mp hb ▸ hp
  have hs := Astrologer.Step.newConnection srv (answering []) events hfd' hp'
  have hret : (processNewConnection (some fd) (some (p, srv.mem p))
      (srv.withKernel (answering []))).1 = 0 := by
    have hroom' : ¬ (srv.withKernel (answering [])).heap.size ≥
        (srv.withKernel (answering [])).heap.capacity := Nat.not_le.mpr hroom
    have hcreate : (createServerState fd (some (p, srv.mem p))
        (srv.withKernel (answering []))).1 = 0 :=
      createServerState_ret (Nat.lt_of_not_le hroom') rfl
    unfold processNewConnection
    dsimp only
    rw [if_neg hroom', if_neg (not_not_intro hcreate)]
  rw [if_neg (not_not_intro hret)] at hs
  cases (admitted_of_step hinv hs).2 with
  | refused _ full => exact absurd full (Nat.not_le.mpr hroom)
  | created p' _ _ _ _ _ _ _ trace =>
    refine ⟨_, p', hs, ?_⟩
    rw [Server.since, trace]
    exact List.drop_left

/-- **It is closed at once** when there is none. -/
theorem exists_refuse (hfree : ∃ fd, srv.epoll fd = none)
    (hfull : srv.heap.size ≥ srv.heap.capacity) (events : List (Option Ptr)) :
    ∃ srv', Astrologer.Step ⟨.dispatch (none :: events), srv⟩ ⟨.dispatch events, srv'⟩ := by
  obtain ⟨fd, hfd⟩ := hfree
  have hfd' : ∀ f ∈ some fd, srv.epoll f = none := fun f hf => Option.mem_some.mp hf ▸ hfd
  have hblock : ∀ b ∈ (none : Option (Ptr × ServerState)), b.1 ∉ srv.allocated :=
    fun b hb => by cases hb
  have hs := Astrologer.Step.newConnection srv (answering []) events hfd' hblock
  have hret : processNewConnection (some fd) none (srv.withKernel (answering [])) =
      (0, closeFd fd (srv.withKernel (answering []))) := if_pos hfull
  rw [hret] at hs
  exact ⟨_, hs⟩

theorem runHandler_ctlFails (p : Ptr) (srv : Server) :
    (Astrologer.runHandler p srv).kernel.ctlFails = srv.kernel.ctlFails := by
  unfold Astrologer.runHandler
  dsimp only
  split <;> rfl

/-- A call returns `0` when `epoll_ctl` does not fail. -/
theorem updateState_ret {fuel : ℕ} {r : ℤ × Server} (h : updateState fuel p srv = some r)
    (hctl : srv.kernel.ctlFails.head = false) : r.1 = 0 := by
  obtain ⟨t, hloop, rfl⟩ := Option.map_eq_some_iff.mp h
  have ht : t.kernel.ctlFails = srv.kernel.ctlFails :=
    updateStateLoop_preserves (P := fun t => t.kernel.ctlFails = srv.kernel.ctlFails)
      (fun u hu => (runHandler_ctlFails p u).trans hu) hloop rfl
  rw [afterLoop_ret, ht, hctl]
  split
  · rfl
  · exact if_neg fun hand => Bool.false_ne_true hand.2

end Server

/-! ## What a client sends is not rejected

`update_state` hangs on a line that is rejected with bytes behind it.  The clients send legal
lines, so whatever part of them the server receives, its call returns. -/

theorem not_rejectsPrognosis {pair : Proxy.StarPair} {bs more : List Byte}
    (h : bs ++ more = pair.prognosis) : ¬ RejectsPrognosis bs := by
  have hsplit : bs ++ more = pair.prognosis ++ [] := by rw [h, List.append_nil]
  rcases (prognosis_isLine pair).frame_of_append (prognosis_length_le pair) hsplit with
    ⟨rest, -, -, hframe⟩ | ⟨hframe, -⟩
  · rintro ⟨hover, -⟩
    rw [hframe] at hover
    cases hover
  · exact not_rejectsPrognosis_of_unfinished hframe

theorem not_rejectsFirstLine {job : Exchange} {bs more : List Byte}
    (h : bs ++ more = job.text) : ¬ RejectsFirstLine bs := by
  rcases job.request_isLine.frame_of_append job.request_length_le h with
    ⟨rest, -, hbehind, hframe⟩ | ⟨hframe, -⟩
  · rw [RejectsFirstLine, hframe]
    cases job with
    | star pair =>
      have hclass : classify (Exchange.star pair).request = .star pair.zodiacIx :=
        (classify_request _ pair.zodiac_lt).1
      simp only [hclass]
      exact not_rejectsPrognosis hbehind
    | ordinary z =>
      have hclass : classify (Exchange.ordinary z).request = .client z :=
        (classify_request _ z.isLt).2
      simp only [hclass]
      exact not_false
  · exact not_rejectsFirstLine_of_unfinished hframe

section Calls

variable {u : Prop} {a : Exchange → List Byte → Prop} {s : Session} {l : Link} {c : Process}

/-- **The call returns**: what the server may have received is the front of legal lines, so no
line is rejected with bytes behind it. -/
theorem Matched.not_hangs (h : Matched u a s.phase s.unread l c)
    (hidle : s.phase.reads = true → s.unread = [])
    (hrecv : s.io.recvs.head = .bytes l.up) : ¬ s.Hangs := by
  unfold Session.Hangs
  rw [hrecv]
  generalize hphase : s.phase = phase at h hidle
  generalize hun : s.unread = unread at h hidle
  have htake : l.up.take astrologBufLen ++ (l.up.drop astrologBufLen ++ c.unsent) =
      l.up ++ c.unsent := by
    rw [← List.append_assoc, List.take_append_drop]
  cases h with
  | rest _ hup =>
    rw [hup]
    exact not_rejectsFirstLine_nil
  | @request line unread l c job hjob hwait htext =>
    obtain rfl := hidle rfl
    have hfront : line ++ l.up.take astrologBufLen ++
        (l.up.drop astrologBufLen ++ c.unsent) = job.text := by
      rw [List.append_assoc, htake]
      exact htext
    exact not_rejectsFirstLine hfront
  | @prognosis line unread l c pair hjob hwait htext =>
    obtain rfl := hidle rfl
    have hfront : line ++ l.up.take astrologBufLen ++
        (l.up.drop astrologBufLen ++ c.unsent) = pair.prognosis := by
      rw [List.append_assoc, htake]
      exact htext
    exact not_rejectsPrognosis hfront
  | reply =>
    dsimp only
    split
    · exact not_false
    · exact fun hrej => not_rejectsFirstLine_nil hrej.2
  | replied _ _ hup =>
    rw [hup]
    exact not_rejectsFirstLine_nil

/-- What the server asks can be answered. -/
theorem asks_answered (hlegal : s.phase.Legal) (hidle : s.phase.reads = true → s.unread = [])
    (hready : s.phase.reads = true → s.unread = [] → l.up ≠ [] ∨ l.closed = true)
    (hrecv : s.io.recvs.head = .bytes l.up) (hsend : s.io.sends.head = .count astrologBufLen) :
    ∃ m, (asks s).foldlM Link.server l = some m := by
  have hone : ∀ e, (∃ m, l.server e = some m) → ∃ m, [e].foldlM Link.server l = some m := by
    rintro e ⟨m, hm⟩
    exact ⟨m, (bind_pure (l.server e)).trans hm⟩
  have hfetched : s.phase.reads = true → ∃ m, (fetched s).foldlM Link.server l = some m := by
    intro hreads
    rw [fetched, if_pos (hidle hreads), hrecv]
    refine hone _ ?_
    by_cases hup : l.up = []
    · have hclosed := (hready hreads (hidle hreads)).resolve_left (not_not_intro hup)
      refine ⟨{ l with up := [] }, Option.map_eq_some_iff.mpr ⟨[], ?_, rfl⟩⟩
      exact Pipe.receive_eq_some.mpr (Or.inr ⟨by rw [hup]; rfl, hup, rfl, hclosed⟩)
    · refine ⟨{ l with up := l.up.drop astrologBufLen }, Option.map_eq_some_iff.mpr
        ⟨l.up.drop astrologBufLen, Pipe.receive_eq_some.mpr (Or.inl ⟨fun hnil => hup ?_, ?_⟩), rfl⟩⟩
      · exact (List.take_eq_nil_iff.mp hnil).resolve_left (by decide)
      · exact (List.take_append_drop astrologBufLen l.up).symm
  unfold asks
  cases hphase : s.phase with
  | firstLine line => exact hfetched (by rw [hphase]; rfl)
  | prognosis z line => exact hfetched (by rw [hphase]; rfl)
  | reply pending =>
    rw [hphase] at hlegal
    rw [hsend]
    have hsent : pending.take astrologBufLen ≠ [] := fun hnil =>
      hlegal.1 ((List.take_eq_nil_iff.mp hnil).resolve_left (by decide))
    exact hone _ ⟨_, if_neg hsent⟩
  | failed op => exact ⟨l, rfl⟩
  | finished => exact ⟨l, rfl⟩

end Calls

section Steps

variable [DecidableEq ι] {w : World ι} {events : List (Option Ptr)}

/-- There is a connection to accept, and then it is accepted or closed. -/
theorem World.Inv.exists_accept (h : w.Inv) (hl : w.Listening)
    (hpc : w.config.pc = .dispatch (none :: events)) : ∃ w', w.Step w' := by
  obtain ⟨listenSocket, hlistens⟩ := hl.listens
  obtain ⟨i, hi⟩ := (hl.backlog _ hpc).2 List.mem_cons_self
  have hinv := h.server.inv.srv
  have hfree := hlistens.exists_fd hinv
  have hw : w.config = ⟨.dispatch (none :: events), w.config.srv⟩ := by rw [← hpc]
  by_cases hfull : w.config.srv.heap.size ≥ w.config.srv.heap.capacity
  · obtain ⟨srv', hs⟩ := exists_refuse hfree hfull events
    exact ⟨_, .refuse hw hs hi hfull⟩
  · obtain ⟨srv', p, hs, hp⟩ :=
      Clients.exists_accept hinv hfree (Nat.lt_of_not_le hfull) events
    exact ⟨_, .accept hw hs hi hp⟩

/-- **A connection can be served.** -/
theorem World.Inv.exists_serve (h : w.Inv) {p : Ptr}
    (hpc : w.config.pc = .dispatch (some p :: events)) : ∃ w', w.Step w' := by
  have hmem : p ∈ w.config.srv.allocated :=
    (h.server.inv.events _ hpc).2 p List.mem_cons_self
  obtain ⟨i, hattends⟩ := h.attended p hmem
  obtain ⟨k, hk⟩ : ∃ k, k = answering (w.link i).up := ⟨_, rfl⟩
  have hrecv : ((w.config.srv.withKernel k).session p).io.recvs.head = .bytes (w.link i).up := by
    rw [hk]
    rfl
  have hsend : ((w.config.srv.withKernel k).session p).io.sends.head = .count astrologBufLen := by
    rw [hk]
    rfl
  have hidle := (h.server.idle.withKernel k) p hmem
  have hmatched : MatchedAt p (w.began i) w.config.srv.trace
      ((w.config.srv.withKernel k).session p).phase
      ((w.config.srv.withKernel k).session p).unread (w.link i) (w.client i) := hattends.matched
  have hnot := hmatched.not_hangs hidle.unread_eq_nil hrecv
  obtain ⟨fuel, r, hr⟩ := (updateState_returns_iff h.server hmem k).1.mpr hnot
  have hret : r.1 = 0 := updateState_ret hr (by rw [hk]; rfl)
  obtain ⟨m, hm⟩ := asks_answered (s := (w.config.srv.withKernel k).session p) (h.legal hmem)
    hidle.unread_eq_nil (h.readable _ hpc p i List.mem_cons_self hattends.owner) hrecv hsend
  have hcall := (h.server.callable h.looping hmem).withKernel k
  obtain ⟨l, hl⟩ := flow_updateState hcall hr hm
  have hs := Astrologer.Step.update w.config.srv k p events hr
  rw [if_neg (not_not_intro hret)] at hs
  have hw : w.config = ⟨.dispatch (some p :: events), w.config.srv⟩ := by rw [← hpc]
  exact ⟨_, .serve hw hs hattends.owner hl⟩

end Steps

/-! ## Steps of a client

A client can go on unless it is in `recv_line` with nothing to receive.  Then the match says that
the bytes are at the server's side, so its descriptor is ready and the server can go on. -/

section Client

variable {l : Link} {c : Process}

/-- The client is in `recv_line`, and there is nothing to receive: it has sent everything, and its
connection has neither bytes for it nor an end. -/
structure Blocked (l : Link) (c : Process) : Prop where
  unsent : c.unsent = []
  job : c.job ≠ none
  down : l.down = []
  live : l.hungUp = false

theorem Offers.slice_ne_nil {s : Locals} {dist : ℕ} {text : List Byte}
    (h : Offers s dist text) : (s.buf.slice dist (s.pos - dist)).take 1 ≠ [] := by
  have hlen := h.length
  have hleft := h.left
  intro hnil
  have hdrop := (List.take_eq_nil_iff.mp hnil).resolve_left Nat.one_ne_zero
  rw [h.rest, List.drop_eq_nil_iff] at hdrop
  omega

/-- **A client goes on** unless it waits for the server.  To send there is always room, and to
close and to connect nobody is needed. -/
theorem Process.blocked_or_step (hinv : c.Inv) (hrun : c ≠ .returned) :
    Blocked l c ∨ ∃ act c' l', c.Step act c' ∧ l.client act = some l' := by
  cases c with
  | connecting todo => exact Or.inr ⟨_, _, _, .connect todo, rfl⟩
  | idle todo =>
    rcases todo with _ | ⟨job, todo⟩
    · exact Or.inr ⟨_, _, _, .close, rfl⟩
    · exact Or.inr ⟨_, _, _, .enter job todo (CArray.replicate _ 0), rfl⟩
  | returned => exact absurd rfl hrun
  | calling job s dist todo =>
    cases hs : s.call with
    | sendRequest =>
      simp only [Process.Inv, hs] at hinv
      exact Or.inr ⟨_, _, _, .sendRequest job hs dist todo (.count 1),
        if_neg hinv.slice_ne_nil⟩
    | sendPrognosis =>
      simp only [Process.Inv, hs] at hinv
      exact Or.inr ⟨_, _, _, .sendPrognosis job hs dist todo (.count 1),
        if_neg hinv.slice_ne_nil⟩
    | recvReply =>
      simp only [Process.Inv, hs] at hinv
      have hroom := hinv.room
      have hsmall : ∀ bs, RecvResult.bytes (l.down.take 1) = .bytes bs →
          bs.length ≤ astrologBufLen - dist := by
        intro bs hbs
        obtain rfl := RecvResult.bytes.inj hbs
        rw [List.length_take]
        omega
      by_cases hdown : l.down = []
      · by_cases hup : l.hungUp = true
        · refine Or.inr ⟨_, _, { l with down := [] }, .recvReply job hs dist todo hsmall,
            Option.map_eq_some_iff.mpr ⟨[], ?_, rfl⟩⟩
          exact Pipe.receive_eq_some.mpr (Or.inr ⟨by rw [hdown]; rfl, hdown, rfl, hup⟩)
        · refine Or.inl ⟨?_, by simp [Process.job], hdown, Bool.eq_false_iff.mpr hup⟩
          simp only [Process.unsent, hs]
      · refine Or.inr ⟨_, _, { l with down := l.down.drop 1 },
          .recvReply job hs dist todo hsmall, Option.map_eq_some_iff.mpr ⟨l.down.drop 1, ?_, rfl⟩⟩
        refine Pipe.receive_eq_some.mpr (Or.inl ⟨fun hnil => hdown ?_, ?_⟩)
        · exact (List.take_eq_nil_iff.mp hnil).resolve_left Nat.one_ne_zero
        · exact (List.take_append_drop 1 l.down).symm

theorem delimiter_notMem_got (hinv : c.Inv) : delimiter ∉ c.got := by
  cases c with
  | connecting todo => exact List.not_mem_nil
  | idle todo => exact List.not_mem_nil
  | returned => exact List.not_mem_nil
  | calling job s dist todo =>
    cases hs : s.call with
    | sendRequest => simp [Process.got, hs]
    | sendPrognosis => simp [Process.got, hs]
    | recvReply =>
      simp only [Process.Inv, hs] at hinv
      simp only [Process.got, hs]
      exact hinv.text

/-- A client waits for bytes that the server has not sent, so the server has not received all
of the request, or it has not sent all of the reply. -/
theorem Matched.up_ne_nil {u : Prop} {a : Exchange → List Byte → Prop} {phase : Phase}
    {unread : List Byte} (h : Matched u a phase unread l c) (hlegal : phase.Legal)
    (hans : ∀ job reply, a job reply → IsLine delimiter reply)
    (hidle : phase.reads = true → unread = []) (hinv : c.Inv) (hb : Blocked l c)
    (hreads : phase.reads = true) : l.up ≠ [] := by
  have hnil := hidle hreads
  have hpart : ∀ {line text : List Byte}, delimiter ∈ text → delimiter ∉ line →
      line ++ (unread ++ (l.up ++ c.unsent)) = text → l.up ≠ [] := by
    intro line text hmem hnot htext hup
    rw [hnil, hup, hb.unsent, List.append_nil, List.append_nil, List.append_nil] at htext
    exact hnot (htext ▸ hmem)
  cases h with
  | rest hjob => exact absurd hjob hb.job
  | @request line _ _ _ job hjob _ htext =>
    refine hpart ?_ hlegal.1 htext
    exact List.mem_append_left _ job.request_isLine.mem
  | @prognosis line _ _ _ pair hjob _ htext =>
    exact hpart (prognosis_isLine pair).mem hlegal.2.1 htext
  | reply => cases hreads
  | replied _ _ _ htext ha =>
    rw [hb.down, List.append_nil] at htext
    exact absurd (htext ▸ (hans _ _ ha).mem) (delimiter_notMem_got hinv)

end Client

section Progress

variable {w : World ι}

/-- **Who waits for the server** has something for it: the connection is to be accepted, or its
bytes are to be read, or its reply is to be sent, and `epoll` reports it. -/
theorem World.Inv.exists_signal (h : w.Inv) (hl : w.Listening) {i : ι}
    (hb : Blocked (w.link i) (w.client i)) : ∃ e, w.Signals e ∧ w.config.srv.Reports [e] := by
  have hsane := h.sane i
  have hone : 1 ≤ clientConNum := by decide
  have hreports : ∀ {fd : Fd} {mask : UInt32} {e : Option Ptr},
      w.config.srv.epoll fd = some ⟨mask, e⟩ → w.config.srv.Reports [e] := fun hfd =>
    ⟨[_], List.nodup_singleton _, hone, .cons ⟨_, hfd⟩ .nil⟩
  have hopen := hb.live
  cases hstage : (w.link i).stage with
  | offline =>
    obtain ⟨todo, hcon⟩ := hsane.offline.mp hstage
    exact absurd (by rw [hcon]; rfl) hb.job
  | backlog =>
    obtain ⟨listenSocket, hlistens⟩ := hl.listens
    exact ⟨none, ⟨i, hstage⟩, hreports hlistens.watched⟩
  | accepted =>
    obtain ⟨p, hp, howner⟩ := h.accepted i hstage
    have hidle := h.server.idle p hp
    refine ⟨some p, fun hop => ⟨i, howner, Or.inl ?_⟩,
      hreports (h.server.registered h.looping p hp)⟩
    have hreads : (w.config.srv.session p).phase.reads = true :=
      (reads_session (c := w.config.srv.ctx p) hidle.conn).trans (decide_eq_true hop)
    exact (h.attends hp howner).matched.up_ne_nil (h.legal hp)
      (fun job reply ha => (answered_fits job reply ha).1) hidle.unread_eq_nil hsane.inv hb hreads
  | refused =>
    rw [Link.hungUp, hstage] at hopen
    cases hopen
  | ended =>
    rw [Link.hungUp, hstage] at hopen
    cases hopen

/-- **Nobody is stuck** before all clients have returned: a client has a step, or `main` has, by
where it is in its loop. -/
theorem World.Inv.exists_step [DecidableEq ι] (h : w.Inv) (hl : w.Listening)
    (hrun : ¬ ∀ i, w.client i = .returned) : ∃ w', w.Step w' := by
  obtain ⟨i, hi⟩ := not_forall.mp hrun
  have hlooping := h.looping
  cases hpc : w.config.pc with
  | epollWait =>
    rcases Process.blocked_or_step (l := w.link i) (h.sane i).inv hi with
      hb | ⟨act, c, l, hc, hlink⟩
    · obtain ⟨e, hsignal, hreports⟩ := h.exists_signal hl hb
      have hw : w.config = ⟨.epollWait, w.config.srv⟩ := by rw [← hpc]
      have hs := Astrologer.Step.waitEvents w.config.srv (answering [])
        (List.cons_ne_nil e []) hreports
      refine ⟨_, .wait hw hs fun e' he' => ?_⟩
      rw [List.mem_singleton.mp he']
      exact hsignal
    · exact ⟨_, .client hc hlink⟩
  | dispatch events =>
    rcases events with _ | ⟨e, events⟩
    · have hw : w.config = ⟨.dispatch [], w.config.srv⟩ := by rw [← hpc]
      exact ⟨_, .dispatched hw⟩
    · cases e with
      | none => exact h.exists_accept hl hpc
      | some p => exact h.exists_serve hpc
  | freeHeapElems =>
    rw [hpc] at hlooping
    cases hlooping
  | returned =>
    rw [hpc] at hlooping
    cases hlooping

end Progress

end Astrologer.Clients
