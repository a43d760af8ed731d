import Astrologer.Server.Interest

/-!
# Who owns a descriptor

A descriptor that `accept4` has returned is owned by the structure of its connection
from the time this is in the heap, and by `process_new_connection` before.  The owner
closes it.  On the way there are five places to fail, and a connection can be removed
at any event; `Owned` is what always holds: the descriptors that were accepted are those
that were closed, each once, and those of the live connections, each of one.

`accept4` may return the number of a descriptor that was closed before.  Here each call
counts as a new descriptor (`Run`), so that a number can be told from the one before it.
-/

namespace Astrologer

open ServerStateType FdOperation

/-- The descriptor of a structure. -/
def Server.fd (srv : Server) (p : Ptr) : Fd := (srv.mem p).intermBuf.fd

/-- **Every accepted descriptor is closed, once, or has one owner.**  `fds` are all that `accept4`
has returned so far. -/
structure Owned (fds : List Fd) (srv : Server) : Prop where
  closed_sub : ∀ fd ∈ srv.closed, fd ∈ fds
  closed_nodup : srv.closed.Nodup
  /-- A live connection has an open descriptor of its own. -/
  fd_mem : ∀ p ∈ srv.allocated, srv.fd p ∈ fds
  fd_open : ∀ p ∈ srv.allocated, srv.fd p ∉ srv.closed
  fd_inj : ∀ p ∈ srv.allocated, ∀ q ∈ srv.allocated, srv.fd p = srv.fd q → p = q
  cover : ∀ fd ∈ fds, fd ∈ srv.closed ∨ ∃ p ∈ srv.allocated, srv.fd p = fd

section Steps

variable {fds : List Fd} {srv srv' : Server} {p : Ptr}

theorem Owned.of_eq (h : Owned fds srv) (halloc : srv'.allocated = srv.allocated)
    (hclosed : srv'.closed = srv.closed)
    (hfd : ∀ p ∈ srv.allocated, srv'.fd p = srv.fd p) : Owned fds srv' := by
  refine ⟨hclosed ▸ h.closed_sub, hclosed ▸ h.closed_nodup, ?_, ?_, ?_, ?_⟩
  · intro p hp
    rw [halloc] at hp
    exact hfd p hp ▸ h.fd_mem p hp
  · intro p hp
    rw [halloc] at hp
    rw [hclosed, hfd p hp]
    exact h.fd_open p hp
  · intro p hp q hq heq
    rw [halloc] at hp hq
    rw [hfd p hp, hfd q hq] at heq
    exact h.fd_inj p hp q hq heq
  · intro fd hmem
    rw [hclosed, halloc]
    rcases h.cover fd hmem with hc | ⟨p, hp, heq⟩
    · exact Or.inl hc
    · exact Or.inr ⟨p, hp, (hfd p hp).trans heq⟩

/-! ## What closes a descriptor -/

theorem configureEpoll_closed (op : EpollCtl) (fd : Fd) (events : UInt32)
    (ptr : Option Ptr) (srv : Server) :
    (configureEpoll op fd events ptr srv).2.closed = srv.closed := by
  unfold configureEpoll
  split <;> rfl

theorem heapRemove_closed (p : Ptr) (srv : Server) :
    (heapRemove p srv).2.closed = srv.closed := by
  unfold heapRemove
  dsimp only
  split <;> rfl

theorem removeServerState_closed (p : Ptr) (srv : Server) :
    (removeServerState p srv).closed = srv.closed ++ [srv.fd p] := by
  show (heapRemove p _).2.closed ++ [srv.fd p] = _
  rw [heapRemove_closed, configureEpoll_closed]
  rfl

theorem runHandler_closed (p : Ptr) (srv : Server) :
    (runHandler p srv).closed = srv.closed := by
  unfold runHandler
  dsimp only
  split <;> rfl

theorem createServerState_closed (fd : Fd) (block : Option (Ptr × ServerState))
    (srv : Server) : (createServerState fd block srv).2.closed = srv.closed := by
  unfold createServerState
  cases block with
  | none => rfl
  | some b =>
    dsimp only
    split
    · rfl
    · split
      · show (heapRemove b.1 _).2.closed = _
        rw [heapRemove_closed, configureEpoll_closed]
        rfl
      · rw [configureEpoll_closed]
        rfl

theorem afterLoop_closed {initOp : FdOperation} (hover : ¬ (srv.mem p).over) :
    (afterLoop initOp p srv).2.closed = srv.closed := by
  have hcase : afterLoop initOp p srv =
      if initOp ≠ (srv.mem p).op then
        let r := configureEpoll .mod (srv.mem p).intermBuf.fd
          (interest (srv.mem p).op) (some p) srv
        if r.1 ≠ 0 then (-1, r.2) else (0, r.2)
      else (0, srv) := if_neg hover
  rw [hcase]
  dsimp only
  split
  · split <;> exact configureEpoll_closed _ _ _ _ _
  · rfl

/-! ## Steps -/

/-- **The owner closes**: a connection that is removed has its descriptor closed, and no other one
has the same descriptor. -/
theorem Owned.removed (h : Owned fds srv) (hp : p ∈ srv.allocated)
    (hr : Removed p srv srv') (hclosed : srv'.closed = srv.closed ++ [srv.fd p]) :
    Owned fds srv' := by
  have hfd : ∀ q, srv'.fd q = srv.fd q := fun q =>
    congrArg (fun s : ConnState => s.intermBuf.fd) (hr.same q).1
  have hmem : ∀ q ∈ srv'.allocated, q ≠ p ∧ q ∈ srv.allocated := by
    intro q hq
    rw [hr.allocated] at hq
    exact Finset.mem_erase.mp hq
  refine ⟨?_, ?_, ?_, ?_, ?_, ?_⟩
  · intro fd hc
    rw [hclosed, List.mem_append, List.mem_singleton] at hc
    rcases hc with hc | rfl
    · exact h.closed_sub fd hc
    · exact h.fd_mem p hp
  · rw [hclosed, List.nodup_append]
    refine ⟨h.closed_nodup, List.nodup_singleton _, fun a ha b hb => ?_⟩
    rw [List.mem_singleton.mp hb]
    exact fun heq => h.fd_open p hp (heq ▸ ha)
  · intro q hq
    rw [hfd]
    exact h.fd_mem q (hmem q hq).2
  · intro q hq
    obtain ⟨hne, hq⟩ := hmem q hq
    rw [hfd, hclosed, List.mem_append, List.mem_singleton, not_or]
    exact ⟨h.fd_open q hq, fun heq => hne (h.fd_inj q hq p hp heq)⟩
  · intro a ha b hb heq
    rw [hfd, hfd] at heq
    exact h.fd_inj a (hmem a ha).2 b (hmem b hb).2 heq
  · intro fd hmem'
    rw [hclosed, List.mem_append, List.mem_singleton]
    rcases h.cover fd hmem' with hc | ⟨q, hq, heq⟩
    · exact Or.inl (Or.inl hc)
    · by_cases hqp : q = p
      · exact Or.inl (Or.inr (by rw [← heq, hqp]))
      · refine Or.inr ⟨q, ?_, (hfd q).trans heq⟩
        rw [hr.allocated]
        exact Finset.mem_erase.mpr ⟨hqp, hq⟩

theorem Owned.setState (h : Owned fds srv) (p : Ptr) (t : ServerStateType) :
    Owned fds (srv.setState p t) := by
  refine h.of_eq rfl rfl fun q _ => ?_
  rw [Server.fd, Server.fd]
  by_cases hqp : q = p
  · rw [hqp, setState_mem_self]
  · rw [setState_mem_ne hqp]

theorem Owned.discardLoop (h : Owned fds srv) (hinv : ServerInv srv) {cur : ℤ} {fuel : ℕ}
    (hd : discardLoop cur fuel srv = some srv') : Owned fds srv' :=
  (discardLoop_preserves (fun _ q ht hq how => (how.setState q stateError).removed hq
    ((ht.setState q stateError).heap.removed hq) (removeServerState_closed q _)) hinv hd h).2

/-- What the loop of `update_state` does to descriptors. -/
theorem Owned.kept (h : Owned fds srv) {fuel : ℕ} (hk : Kept p srv srv')
    (hl : updateStateLoop p fuel srv = some srv') : Owned fds srv' := by
  have hclosed : srv'.closed = srv.closed :=
    updateStateLoop_preserves (P := fun t => t.closed = srv.closed)
      (fun t ht => (runHandler_closed p t).trans ht) hl rfl
  refine h.of_eq hk.inLoop.allocated hclosed fun q _ => ?_
  by_cases hqp : q = p
  · rw [hqp]
    exact hk.fd
  · exact congrArg (fun s : ConnState => s.intermBuf.fd) (hk.inLoop.others q hqp).1

theorem Owned.updateState (h : Owned fds srv) (hinv : ServerInv srv)
    (hp : p ∈ srv.allocated) (hc : ConnInv (srv.mem p).toConnState) {fuel : ℕ}
    {r : ℤ × Server} (hr : updateState fuel p srv = some r) : Owned fds r.2 := by
  obtain ⟨srv₁, hloop, rfl⟩ := Option.map_eq_some_iff.mp hr
  have hk := hinv.kept hp hc hloop
  have how := h.kept hk hloop
  have hp₁ : p ∈ srv₁.allocated := hk.inLoop.allocated.symm ▸ hp
  rcases afterLoop_cases (srv.mem p).op p srv₁ with ⟨-, heq⟩ | ⟨hover, mask, ret, hw⟩
  · rw [heq]
    exact how.removed hp₁ (hk.inLoop.inv.heap.removed hp₁) (removeServerState_closed p srv₁)
  · refine how.of_eq hw.allocated (afterLoop_closed hover) fun q _ => ?_
    rw [Server.fd, Server.fd, congrArg HeapMem.mem hw.toHeapMem]

/-- A descriptor is accepted and closed again. -/
theorem Owned.refused (h : Owned fds srv) {fd : Fd} (hnew : fd ∉ fds)
    (halloc : srv'.allocated = srv.allocated) (hclosed : srv'.closed = srv.closed ++ [fd])
    (hfd : ∀ p ∈ srv.allocated, srv'.fd p = srv.fd p) : Owned (fds ++ [fd]) srv' := by
  have hne : ∀ p ∈ srv.allocated, srv.fd p ≠ fd := fun p hp heq =>
    hnew (heq ▸ h.fd_mem p hp)
  refine ⟨?_, ?_, ?_, ?_, ?_, ?_⟩
  · intro fd' hc
    rw [hclosed] at hc
    rw [List.mem_append]
    exact (List.mem_append.mp hc).imp_left (h.closed_sub fd')
  · rw [hclosed, List.nodup_append]
    refine ⟨h.closed_nodup, List.nodup_singleton _, fun a ha b hb => ?_⟩
    rw [List.mem_singleton.mp hb]
    exact fun heq => hnew (heq ▸ h.closed_sub a ha)
  · intro p hp
    rw [halloc] at hp
    rw [hfd p hp]
    exact List.mem_append_left _ (h.fd_mem p hp)
  · intro p hp
    rw [halloc] at hp
    rw [hfd p hp, hclosed, List.mem_append, List.mem_singleton, not_or]
    exact ⟨h.fd_open p hp, hne p hp⟩
  · intro p hp q hq heq
    rw [halloc] at hp hq
    rw [hfd p hp, hfd q hq] at heq
    exact h.fd_inj p hp q hq heq
  · intro fd' hmem
    rw [hclosed, halloc]
    rcases List.mem_append.mp hmem with hmem | hmem
    · rcases h.cover fd' hmem with hc | ⟨p, hp, heq⟩
      · exact Or.inl (List.mem_append_left _ hc)
      · exact Or.inr ⟨p, hp, (hfd p hp).trans heq⟩
    · exact Or.inl (List.mem_append_right _ hmem)

/-- A descriptor is accepted, and a new structure owns it. -/
theorem Owned.adopted (h : Owned fds srv) {fd : Fd} (hnew : fd ∉ fds)
    (hp : p ∉ srv.allocated) (halloc : srv'.allocated = insert p srv.allocated)
    (hclosed : srv'.closed = srv.closed) (hself : srv'.fd p = fd)
    (hfd : ∀ q ∈ srv.allocated, srv'.fd q = srv.fd q) : Owned (fds ++ [fd]) srv' := by
  have hne : ∀ q ∈ srv.allocated, srv'.fd q ≠ fd := by
    intro q hq heq
    rw [hfd q hq] at heq
    exact hnew (heq ▸ h.fd_mem q hq)
  have hcases : ∀ q ∈ srv'.allocated, q = p ∨ q ∈ srv.allocated := fun q hq =>
    Finset.mem_insert.mp (halloc ▸ hq)
  refine ⟨?_, hclosed ▸ h.closed_nodup, ?_, ?_, ?_, ?_⟩
  · intro fd' hc
    exact List.mem_append_left _ (h.closed_sub fd' (hclosed ▸ hc))
  · intro q hq
    rcases hcases q hq with rfl | hq
    · exact List.mem_append_right _ (List.mem_singleton.mpr hself)
    · rw [hfd q hq]
      exact List.mem_append_left _ (h.fd_mem q hq)
  · intro q hq
    rw [hclosed]
    rcases hcases q hq with rfl | hq
    · rw [hself]
      exact fun hc => hnew (h.closed_sub fd hc)
    · rw [hfd q hq]
      exact h.fd_open q hq
  · intro a ha b hb heq
    rcases hcases a ha with rfl | ha
    · rcases hcases b hb with rfl | hb
      · rfl
      · exact absurd (heq.symm.trans hself) (hne b hb)
    · rcases hcases b hb with rfl | hb
      · exact absurd (heq.trans hself) (hne a ha)
      · rw [hfd a ha, hfd b hb] at heq
        exact h.fd_inj a ha b hb heq
  · intro fd' hmem
    rw [hclosed]
    rcases List.mem_append.mp hmem with hmem | hmem
    · rcases h.cover fd' hmem with hc | ⟨q, hq, heq⟩
      · exact Or.inl hc
      · exact Or.inr ⟨q, halloc ▸ Finset.mem_insert_of_mem hq, (hfd q hq).trans heq⟩
    · refine Or.inr ⟨p, halloc ▸ Finset.mem_insert_self p _, ?_⟩
      rw [hself, List.mem_singleton.mp hmem]

/-- **`process_new_connection`** closes the descriptor or leaves it to a structure, on each of its
paths; the descriptor is a new one, so nobody else has it. -/
theorem Owned.processNewConnection (h : Owned fds srv) (hinv : ServerInv srv)
    {conSocket : Option Fd} {block : Option (Ptr × ServerState)}
    (hnew : ∀ fd ∈ conSocket, fd ∉ fds) (hblock : ∀ b ∈ block, b.1 ∉ srv.allocated) :
    Owned (fds ++ conSocket.toList) (processNewConnection conSocket block srv).2 := by
  cases conSocket with
  | none =>
    rw [Option.toList_none, List.append_nil]
    exact h
  | some fd =>
    have hnew' : fd ∉ fds := hnew fd rfl
    rw [Option.toList_some]
    unfold Astrologer.processNewConnection
    dsimp only
    by_cases hfull : srv.heap.size ≥ srv.heap.capacity
    · rw [if_pos hfull]
      exact h.refused hnew' rfl rfl fun _ _ => rfl
    · rw [if_neg hfull]
      have hclosed := createServerState_closed fd block srv
      cases block with
      | none => exact h.refused hnew' rfl rfl fun _ _ => rfl
      | some b =>
        obtain ⟨p, raw⟩ := b
        have hp : p ∉ srv.allocated := hblock (p, raw) rfl
        have hc := hinv.heap.created hp fd raw
        have hfd : ∀ q ∈ srv.allocated,
            (createServerState fd (some (p, raw)) srv).2.fd q = srv.fd q := fun q hq =>
          congrArg (fun s : ConnState => s.intermBuf.fd)
            (hc.same q fun heq => hp (heq ▸ hq)).1
        by_cases hret : (createServerState fd (some (p, raw)) srv).1 = 0
        · rw [if_neg (not_not.mpr hret)]
          have halloc := hc.allocated
          rw [if_pos hret] at halloc
          exact h.adopted hnew' hp halloc hclosed
            (congrArg (fun s : ConnState => s.intermBuf.fd) (hc.conn hret)) hfd
        · rw [if_pos hret]
          have halloc := hc.allocated
          rw [if_neg hret] at halloc
          exact h.refused hnew' halloc (congrArg (· ++ [fd]) hclosed) hfd

/-! ## Runs -/

/-- A step, with what `accept4` has returned in it. -/
inductive Accepts : Option Fd → Config → Config → Prop
  | newConnection (srv : Server) (k : Kernel) (events : List (Option Ptr))
      {conSocket : Option Fd} {block : Option (Ptr × ServerState)}
      (hfd : ∀ fd ∈ conSocket, srv.epoll fd = none)
      (hblock : ∀ b ∈ block, b.1 ∉ srv.allocated) :
    Accepts conSocket ⟨.dispatch (none :: events), srv⟩
      ⟨if (processNewConnection conSocket block (srv.withKernel k)).1 ≠ 0
          then .freeHeapElems else .dispatch events,
        (processNewConnection conSocket block (srv.withKernel k)).2⟩
  | other {c c' : Config} (h : Step c c')
      (hne : ∀ events, c.pc ≠ .dispatch (none :: events)) : Accepts none c c'

theorem Accepts.step {con : Option Fd} {c c' : Config} (h : Accepts con c c') :
    Step c c' := by
  cases h with
  | newConnection srv k events hfd hblock => exact .newConnection srv k events hfd hblock
  | other h => exact h

/-- A run, with the descriptors that `accept4` has returned.  Each is a new number, so that a
descriptor and the next one with its number are not confused. -/
inductive Run : List Fd → Config → Prop
  | init {listenSocket : Fd} {srv : Server} (h : Initial listenSocket srv)
      (hclosed : srv.closed = []) : Run [] ⟨.epollWait, srv⟩
  | step {fds : List Fd} {con : Option Fd} {c c' : Config} (h : Run fds c)
      (hs : Accepts con c c') (hnew : ∀ fd ∈ con, fd ∉ fds) : Run (fds ++ con.toList) c'

theorem Run.reachable {c : Config} (h : Run fds c) : Reachable c := by
  induction h with
  | init h _ => exact .init h
  | step _ hs _ ih => exact ih.step hs.step

theorem Owned.withKernel (h : Owned fds srv) (k : Kernel) : Owned fds (srv.withKernel k) :=
  h.of_eq rfl rfl fun _ _ => rfl

theorem Owned.step {c c' : Config} (h : Owned fds c.srv) (hl : LoopInv c)
    (hi : ConnsIdle c.srv) {con : Option Fd} (hs : Accepts con c c')
    (hnew : ∀ fd ∈ con, fd ∉ fds) : Owned (fds ++ con.toList) c'.srv := by
  cases hs with
  | @newConnection srv k events con block hfd hblock =>
    exact (h.withKernel k).processNewConnection (hl.srv.withKernel k) hnew hblock
  | other hs hne =>
    rw [Option.toList_none, List.append_nil]
    cases hs with
    | waitFailed srv k =>
      rw [minTimeout_eq]
      exact h.of_eq rfl rfl fun _ _ => rfl
    | waitExpired srv k hd =>
      rw [minTimeout_eq] at hd
      have how : Owned fds (getCurTime (getCurTime (srv.withKernel k)).2).2 :=
        h.of_eq rfl rfl fun _ _ => rfl
      exact how.discardLoop (hl.srv.withKernel k).getCurTime.getCurTime hd
    | waitEvents srv k _ hr =>
      rw [minTimeout_eq]
      exact h.of_eq rfl rfl fun _ _ => rfl
    | dispatched srv => exact h
    | newConnection srv k events hfd hblock => exact absurd rfl (hne events)
    | update srv k p events hu =>
      have hp := hl.mem_allocated
      exact (h.withKernel k).updateState (hl.srv.withKernel k) hp (hi p hp).conn hu
    | freeElem srv k hsize =>
      have hlast : srv.heap.size - 1 < srv.heap.size := Nat.sub_lt hsize Nat.one_pos
      have hp := hl.srv.heap.mem_allocated hlast
      exact (h.withKernel k).removed hp ((hl.srv.withKernel k).heap.removed hp)
        (removeServerState_closed _ _)
    | freed srv hsize => exact h

theorem Run.owned {c : Config} (h : Run fds c) : Owned fds c.srv := by
  induction h with
  | init h hclosed =>
    refine ⟨?_, ?_, ?_, ?_, ?_, fun fd hfd => absurd hfd List.not_mem_nil⟩
    · rw [hclosed]
      exact fun fd hfd => hfd
    · rw [hclosed]
      exact List.nodup_nil
    · rw [h.allocated]
      exact fun p hp => absurd hp (Finset.notMem_empty p)
    · rw [h.allocated]
      exact fun p hp => absurd hp (Finset.notMem_empty p)
    · rw [h.allocated]
      exact fun p hp => absurd hp (Finset.notMem_empty p)
  | step h hs hnew ih => exact ih.step h.reachable.inv h.reachable.idle hs hnew

/-- When `main` returns, the heap has been emptied. -/
theorem Reachable.size_of_returned {c : Config} (h : Reachable c) (hpc : c.pc = .returned) :
    c.srv.heap.size = 0 := by
  cases h with
  | init h => cases hpc
  | step h hs =>
    cases hs with
    | newConnection srv k events hfd hblock =>
      dsimp only at hpc
      split at hpc <;> cases hpc
    | update srv k p events hu =>
      dsimp only at hpc
      split at hpc <;> cases hpc
    | freed srv hsize => exact hsize
    | _ => cases hpc

end Steps

/-- **Every accepted descriptor is closed exactly once or has exactly one owner.**  In
every run and after every step, a descriptor that `accept4` has returned was closed
once and no heap entry has it, or it was not closed and one heap entry has it; no other
descriptor was closed; the heap is within its capacity; the next event is about a live
connection; and when `main` returns, every accepted descriptor has been closed once. -/
theorem run_descriptors {fds : List Fd} {c : Config} (h : Run fds c) :
    (∀ fd ∈ fds,
      (c.srv.closed.count fd = 1 ∧
        ∀ i, i < c.srv.heap.size → (c.srv.mem (c.srv.heap.arr i)).intermBuf.fd ≠ fd) ∨
      (c.srv.closed.count fd = 0 ∧
        ∃! i, i < c.srv.heap.size ∧ (c.srv.mem (c.srv.heap.arr i)).intermBuf.fd = fd)) ∧
    (∀ fd ∈ c.srv.closed, fd ∈ fds) ∧
    c.srv.heap.size ≤ c.srv.heap.capacity ∧
    (∀ p events, c.pc = .dispatch (some p :: events) → p ∈ c.srv.allocated) ∧
    (c.pc = .returned → ∀ fd ∈ fds, c.srv.closed.count fd = 1) := by
  have how := h.owned
  have hheap := h.reachable.inv.srv.heap
  have hcount : ∀ fd, fd ∈ c.srv.closed → c.srv.closed.count fd = 1 := fun fd hfd =>
    List.count_eq_one_of_mem how.closed_nodup hfd
  refine ⟨fun fd hfd => ?_, how.closed_sub, hheap.size_le, fun p events hpc => ?_,
    fun hpc fd hfd => ?_⟩
  · rcases how.cover fd hfd with hc | ⟨p, hp, heq⟩
    · refine Or.inl ⟨hcount fd hc, fun i hi hfd' => ?_⟩
      refine how.fd_open _ (hheap.mem_allocated hi) ?_
      rw [Server.fd, hfd']
      exact hc
    · obtain ⟨hlt, harr⟩ := hheap.entry_eq hp
      have hopen : fd ∉ c.srv.closed := heq ▸ how.fd_open p hp
      refine Or.inr ⟨List.count_eq_zero_of_not_mem hopen, (c.srv.mem p).heapIx, ?_, ?_⟩
      · exact ⟨hlt, harr.symm ▸ heq⟩
      · rintro i ⟨hi, hfd'⟩
        have hip := how.fd_inj _ (hheap.mem_allocated hi) p hp (hfd'.trans heq.symm)
        rw [← hip, hheap.back i hi]
  · obtain ⟨pc, srv⟩ := c
    cases hpc
    exact h.reachable.inv.mem_allocated
  · rcases how.cover fd hfd with hc | ⟨p, hp, -⟩
    · exact hcount fd hc
    · have hlt := (hheap.entry_eq hp).1
      rw [h.reachable.size_of_returned hpc] at hlt
      exact absurd hlt (Nat.not_lt_zero _)

theorem run_sampleAccept {srv : Server} {fds : List Fd} (h : Run fds ⟨.epollWait, srv⟩)
    {fd : Fd} {p : Ptr} (hnew : fd ∉ fds) (hlisten : srv.epoll 3 = some ⟨epollIn, none⟩)
    (hfd : (minTimeout (srv.withKernel (sampleKernel 0))).2.2.epoll fd = none)
    (hp : p ∉ (minTimeout (srv.withKernel (sampleKernel 0))).2.2.allocated)
    (hret : (processNewConnection (some fd) (some (p, sampleBlock))
      ((minTimeout (srv.withKernel (sampleKernel 0))).2.2.withKernel
        (sampleKernel 0))).1 = 0) :
    Run (fds ++ [fd]) ⟨.epollWait, srv.sampleAccept fd p⟩ := by
  have hreports : srv.Reports [none] :=
    ⟨[3], List.nodup_singleton 3, by decide, .cons ⟨epollIn, hlisten⟩ .nil⟩
  have hwait := h.step (.other (.waitEvents srv (sampleKernel 0) (List.cons_ne_nil _ _)
    hreports) fun _ hpc => by cases hpc) fun _ hcon => by cases hcon
  rw [Option.toList_none, List.append_nil] at hwait
  have hfd' : ∀ f ∈ some fd,
      (minTimeout (srv.withKernel (sampleKernel 0))).2.2.epoll f = none :=
    fun f hf => Option.mem_some.mp hf ▸ hfd
  have hp' : ∀ b ∈ some (p, sampleBlock),
      b.1 ∉ (minTimeout (srv.withKernel (sampleKernel 0))).2.2.allocated :=
    fun b hb => Option.mem_some.mp hb ▸ hp
  have hnew' : ∀ f ∈ some fd, f ∉ fds := fun f hf => Option.mem_some.mp hf ▸ hnew
  have hcon := hwait.step (.newConnection _ (sampleKernel 0) [] hfd' hp') hnew'
  rw [hret, Option.toList_some] at hcon
  have hdone := hcon.step (.other (.dispatched _) fun _ hpc => by cases hpc)
    fun _ hcon => by cases hcon
  rwa [Option.toList_none, List.append_nil] at hdone

/-- Two clients have connected: each of the descriptors has one owner. -/
theorem sampleTwo_descriptors :
    sampleTwo.closed.count 5 = 0 ∧
      ∃! i, i < sampleTwo.heap.size ∧
        (sampleTwo.mem (sampleTwo.heap.arr i)).intermBuf.fd = 5 := by
  have hboot : Initial 3 sampleBoot :=
    ⟨⟨some fun _ => 0, rfl⟩, rfl, fun _ => rfl, rfl, rfl⟩
  have hone : Run [5] ⟨.epollWait, sampleBoot.sampleAccept 5 1⟩ :=
    run_sampleAccept (.init hboot rfl) List.not_mem_nil rfl rfl (by decide) rfl
  have htwo : Run [5, 6] ⟨.epollWait, sampleTwo⟩ :=
    run_sampleAccept hone (by decide) rfl rfl (by decide) rfl
  exact ((run_descriptors htwo).1 5 (by decide)).resolve_left fun hc =>
    absurd hc.1 (by decide)

end Astrologer
