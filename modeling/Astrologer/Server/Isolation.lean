import Astrologer.Server.Descriptors

/-!
# When a connection cannot be set up

`process_new_connection` can fail at the call of `accept4`, on a heap that is full, or in
`create_server_state`, which fails when `malloc`, `binary_heap_push` or `epoll_ctl` does
(`SetupFailure`).  What was done by then is undone: a structure that has been pushed and
has moved other entries is taken out again.  So nothing that the other connections depend
on has changed.

The return value makes a difference.  It is `0` for the full heap only, and `main` takes
every other value for the end of its event loop: it goes to `FREE_HEAP_ELEMS` and removes
all connections.  `setup_failed` says both.
-/

namespace Astrologer

open ServerStateType FdOperation

/-- Where `process_new_connection` fails. -/
inductive SetupFailure (conSocket : Option Fd) (block : Option (Ptr × ServerState))
    (srv : Server) : Prop
  | accept (h : conSocket = none)
  | full (fd : Fd) (h : conSocket = some fd) (hfull : srv.heap.size ≥ srv.heap.capacity)
  | create (fd : Fd) (h : conSocket = some fd) (hroom : srv.heap.size < srv.heap.capacity)
      (hcreate : (createServerState fd block srv).1 ≠ 0)

/-- Everything that a live connection depends on: its state and its deadline, its place in the
heap, the rows, and what `epoll` watches for it. -/
structure Untouched (srv srv' : Server) : Prop where
  allocated : srv'.allocated = srv.allocated
  conn : ∀ q ∈ srv.allocated, (srv'.mem q).toConnState = (srv.mem q).toConnState
  ts : ∀ q ∈ srv.allocated, (srv'.mem q).ts = (srv.mem q).ts
  heap : HeapInv srv'
  zodiacPrognosises : srv'.zodiacPrognosises = srv.zodiacPrognosises
  epoll : ∀ q ∈ srv.allocated, srv'.epoll (srv.fd q) = srv.epoll (srv.fd q)

section Setup

variable {srv srv' : Server} {conSocket : Option Fd} {block : Option (Ptr × ServerState)}

/-- The new descriptor is closed in the end. -/
theorem Untouched.closeFd (h : Untouched srv srv') {fd : Fd}
    (hfd : ∀ q ∈ srv.allocated, srv.fd q ≠ fd) : Untouched srv (closeFd fd srv') := by
  refine ⟨h.allocated, h.conn, h.ts, h.heap.congr rfl rfl fun _ => ⟨rfl, rfl⟩,
    h.zodiacPrognosises, fun q hq => ?_⟩
  exact (Function.update_of_ne (hfd q hq) _ _).trans (h.epoll q hq)

/-- A structure that could not be set up is gone. -/
theorem HeapInv.untouched (h : HeapInv srv) {fd : Fd}
    (hblock : ∀ b ∈ block, b.1 ∉ srv.allocated)
    (hcreate : (createServerState fd block srv).1 ≠ 0) :
    Untouched srv (createServerState fd block srv).2 := by
  cases block with
  | none =>
    exact ⟨rfl, fun _ _ => rfl, fun _ _ => rfl, h, rfl, fun _ _ => rfl⟩
  | some b =>
    obtain ⟨p, raw⟩ := b
    have hp : p ∉ srv.allocated := hblock (p, raw) rfl
    have hc := h.created hp fd raw
    have hne : ∀ q ∈ srv.allocated, q ≠ p := fun q hq heq => hp (heq ▸ hq)
    refine ⟨?_, fun q hq => (hc.same q (hne q hq)).1, fun q hq => (hc.same q (hne q hq)).2,
      hc.inv, hc.zodiacPrognosises, fun q _ => ?_⟩
    · rw [hc.allocated, if_neg hcreate]
    · rw [hc.epoll, if_neg hcreate]

theorem processNewConnection_full {fd : Fd} (hfull : srv.heap.size ≥ srv.heap.capacity) :
    processNewConnection (some fd) block srv = (0, closeFd fd srv) := if_pos hfull

theorem processNewConnection_create {fd : Fd} (hroom : srv.heap.size < srv.heap.capacity)
    (hcreate : (createServerState fd block srv).1 ≠ 0) :
    processNewConnection (some fd) block srv =
      (-1, closeFd fd (createServerState fd block srv).2) := by
  show (if srv.heap.size ≥ srv.heap.capacity then _ else _) = _
  rw [if_neg (Nat.not_le_of_lt hroom)]
  exact if_pos hcreate

/-- **A failure leaves the other connections untouched**, and only a full heap is no
reason to stop. -/
theorem SetupFailure.untouched (h : SetupFailure conSocket block srv) (hinv : HeapInv srv)
    (hfd : ∀ fd ∈ conSocket, ∀ q ∈ srv.allocated, srv.fd q ≠ fd)
    (hblock : ∀ b ∈ block, b.1 ∉ srv.allocated) :
    Untouched srv (processNewConnection conSocket block srv).2 ∧
      ((processNewConnection conSocket block srv).1 = 0 ↔
        conSocket ≠ none ∧ srv.heap.size ≥ srv.heap.capacity) := by
  have hneg : ¬ (-1 : ℤ) = 0 := by decide
  have hsame : Untouched srv srv :=
    ⟨rfl, fun _ _ => rfl, fun _ _ => rfl, hinv, rfl, fun _ _ => rfl⟩
  cases h with
  | accept h =>
    subst h
    exact ⟨hsame, iff_of_false hneg fun hc => hc.1 rfl⟩
  | full fd h hfull =>
    subst h
    rw [processNewConnection_full hfull]
    exact ⟨hsame.closeFd (hfd fd rfl), iff_of_true rfl ⟨Option.some_ne_none fd, hfull⟩⟩
  | create fd h hroom hcreate =>
    subst h
    rw [processNewConnection_create hroom hcreate]
    exact ⟨(hinv.untouched hblock hcreate).closeFd (hfd fd rfl),
      iff_of_false hneg fun hc => Nat.not_le_of_lt hroom hc.2⟩

/-- Without a failure there is one more connection. -/
theorem established_of_not_setupFailure (h : ¬ SetupFailure conSocket block srv)
    (hinv : HeapInv srv) (hblock : ∀ b ∈ block, b.1 ∉ srv.allocated) :
    ∃ p ∉ srv.allocated,
      (processNewConnection conSocket block srv).2.allocated = insert p srv.allocated := by
  cases conSocket with
  | none => exact absurd (.accept rfl) h
  | some fd =>
    have hroom : srv.heap.size < srv.heap.capacity :=
      Nat.lt_of_not_le fun hfull => h (.full fd rfl hfull)
    have hcreate : (createServerState fd block srv).1 = 0 :=
      not_not.mp fun hne => h (.create fd rfl hroom hne)
    cases block with
    | none => exact absurd hcreate (by decide : ¬ (-1 : ℤ) = 0)
    | some b =>
      obtain ⟨p, raw⟩ := b
      have hp : p ∉ srv.allocated := hblock (p, raw) rfl
      have halloc := (hinv.created hp fd raw).allocated
      rw [if_pos hcreate] at halloc
      refine ⟨p, hp, ?_⟩
      show (if srv.heap.size ≥ srv.heap.capacity then _ else _ : ℤ × Server).2.allocated = _
      rw [if_neg (Nat.not_le_of_lt hroom), if_neg (not_not.mpr hcreate)]
      exact halloc

end Setup

/-- **When a connection cannot be set up**, the live connections, their states and
deadlines, the heap and the table are as before.  `main` goes on to its next event if the
heap was full, and leaves its event loop otherwise. -/
theorem setup_failed {srv : Server} {events : List (Option Ptr)}
    (h : Reachable ⟨.dispatch (none :: events), srv⟩) (k : Kernel) {conSocket : Option Fd}
    {block : Option (Ptr × ServerState)} (hfd : ∀ fd ∈ conSocket, srv.epoll fd = none)
    (hblock : ∀ b ∈ block, b.1 ∉ srv.allocated)
    (hfail : SetupFailure conSocket block (srv.withKernel k)) :
    ∃ pc srv', Step ⟨.dispatch (none :: events), srv⟩ ⟨pc, srv'⟩ ∧
      srv' = (processNewConnection conSocket block (srv.withKernel k)).2 ∧
      Untouched srv srv' ∧
      (conSocket ≠ none ∧ srv.heap.size ≥ srv.heap.capacity → pc = .dispatch events) ∧
      (¬ (conSocket ≠ none ∧ srv.heap.size ≥ srv.heap.capacity) → pc = .freeHeapElems) := by
  have hreg := h.registered rfl
  have hfd' : ∀ fd ∈ conSocket, ∀ q ∈ srv.allocated, srv.fd q ≠ fd := by
    intro fd hmem q hq heq
    have hwatch : srv.epoll (srv.fd q) = some ⟨_, some q⟩ := hreg q hq
    rw [heq, hfd fd hmem] at hwatch
    cases hwatch
  obtain ⟨hun, hret⟩ := hfail.untouched (h.inv.srv.withKernel k).heap hfd' hblock
  refine ⟨_, _, .newConnection srv k events hfd hblock, rfl,
    ⟨hun.allocated, hun.conn, hun.ts, hun.heap, hun.zodiacPrognosises, hun.epoll⟩,
    fun hfull => ?_, fun hstop => ?_⟩
  · exact if_neg (not_not.mpr (hret.mpr hfull))
  · exact if_pos fun hzero => hstop (hret.mp hzero)

/-! Two clients are connected.  A third one comes, and `epoll` does not watch it, so that it is
taken out of the heap again; or it gives up before `accept4` returns. -/

theorem sampleReported_accepting : Reachable ⟨.dispatch [none], sampleReported⟩ :=
  sampleTwo_reachable.step (.waitEvents sampleTwo (sampleKernel 0) (List.cons_ne_nil _ _)
    ⟨[3], List.nodup_singleton 3, by decide, .cons ⟨epollIn, rfl⟩ .nil⟩)

/-- A kernel whose `epoll_ctl` fails. -/
def sampleFailing : Kernel := { sampleKernel 0 with ctlFails := Stream'.const true }

theorem sampleReported_untouched :
    ∃ pc srv', Step ⟨.dispatch [none], sampleReported⟩ ⟨pc, srv'⟩ ∧
      Untouched sampleReported srv' ∧ pc = .freeHeapElems ∧ srv'.closed = [7] := by
  have hcreate : (createServerState 7 (some (3, sampleBlock))
      (sampleReported.withKernel sampleFailing)).1 ≠ 0 := by decide
  have hblock : ∀ b ∈ some (3, sampleBlock), b.1 ∉ sampleReported.allocated := by
    intro b hb
    rw [← Option.mem_some.mp hb]
    decide
  have hfd : ∀ fd ∈ some 7, sampleReported.epoll fd = none := by
    intro fd hfd
    rw [← Option.mem_some.mp hfd]
    rfl
  obtain ⟨pc, srv', hs, heq, hun, -, hpc⟩ := setup_failed sampleReported_accepting
    sampleFailing hfd hblock (.create 7 rfl (by decide) hcreate)
  have hroom : ¬ sampleReported.heap.size ≥ sampleReported.heap.capacity := by decide
  have hclosed : (processNewConnection (some 7) (some (3, sampleBlock))
      (sampleReported.withKernel sampleFailing)).2.closed = [7] := by decide
  exact ⟨pc, srv', hs, hun, hpc fun hfull => hroom hfull.2, heq ▸ hclosed⟩

/-- The event loop does not go on, with two connections in the heap. -/
theorem sampleReported_stopped :
    sampleReported.allocated = {2, 1} ∧
      ¬ ∀ srv events, Reachable ⟨.dispatch (none :: events), srv⟩ →
        ∀ k conSocket block, (∀ fd ∈ conSocket, srv.epoll fd = none) →
          (∀ b ∈ block, b.1 ∉ srv.allocated) →
          SetupFailure conSocket block (srv.withKernel k) →
          (if (processNewConnection conSocket block (srv.withKernel k)).1 ≠ 0
            then Pc.freeHeapElems else .dispatch events) = .dispatch events := by
  refine ⟨rfl, fun hall => ?_⟩
  have hstop := hall sampleReported [] sampleReported_accepting (sampleKernel 0) none none
    (fun _ hfd => by cases hfd) (fun _ hb => by cases hb) (.accept rfl)
  have hneg : (processNewConnection none none
      (sampleReported.withKernel (sampleKernel 0))).1 ≠ 0 := (by decide : (-1 : ℤ) ≠ 0)
  rw [if_pos hneg] at hstop
  cases hstop

end Astrologer
