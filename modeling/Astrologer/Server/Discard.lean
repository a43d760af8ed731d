import Astrologer.Server.Descriptors
import Astrologer.Server.Expiry

/-!
# What `discard_expired_connections` does

The function takes the top of the heap as long as its deadline has passed.  It sets the
state of that connection to `STATE_ERROR` and calls `update_state`, whose loop then ends at
once, and which removes the connection through its `heap_ix`.

So it comes to an end, as every round takes a connection out of the heap
(`discardLoop_returns`), and the connections it takes out are the ones whose deadline is
at or before the clock that it has read, each once (`Discarded`).  That needs the order of
the heap for the end of the loop, and the back indices for every round.
-/

namespace Astrologer

open ServerStateType FdOperation

/-- **Expired connections are thrown out**: `gone` are they, in the order of their
removal. -/
structure Discarded (cur : ℤ) (gone : List Ptr) (srv srv' : Server) : Prop where
  /-- Each of them once. -/
  nodup : gone.Nodup
  mem_gone : ∀ p, p ∈ gone ↔ srv.Expired cur p
  allocated : ∀ p, p ∈ srv'.allocated ↔ p ∈ srv.allocated ∧ p ∉ gone
  closed : srv'.closed = srv.closed ++ gone.map srv.fd
  trace : srv'.trace =
    srv.trace ++ gone.flatMap fun p => [.removed p, .heapCall p (some p)]
  others : ∀ p, p ∉ gone → (srv'.mem p).toConnState = (srv.mem p).toConnState ∧
    (srv'.mem p).ts = (srv.mem p).ts
  epoll : ∀ fd, fd ∉ gone.map srv.fd → srv'.epoll fd = srv.epoll fd
  zodiacPrognosises : srv'.zodiacPrognosises = srv.zodiacPrognosises
  recvs : srv'.kernel.recvs = srv.kernel.recvs
  sends : srv'.kernel.sends = srv.kernel.sends
  heap : HeapInv srv'

section Loop

variable {srv srv' : Server} {p : Ptr} {cur : ℤ}

/-- When the loop ends, the first deadline is behind the clock. -/
theorem not_expired_of_top (hinv : HeapInv srv)
    (htop : ∀ elem ∈ binaryHeapTop srv.toHeapMem, cur < accumTimeNs (srv.mem elem).ts) :
    ¬ srv.Expired cur p := by
  rintro ⟨hp, hle⟩
  cases h : binaryHeapTop srv.toHeapMem with
  | none =>
    have hlt := (hinv.entry_eq hp).1
    unfold binaryHeapTop at h
    by_cases h0 : srv.heap.size = 0
    · omega
    · rw [if_neg h0] at h
      cases h
  | some elem =>
    have hleast : accumTimeNs (srv.mem elem).ts ≤ accumTimeNs (srv.mem p).ts :=
      (hinv.wf.top_le h).2 p (hinv.elems ▸ hp)
    exact absurd (htop elem h) (not_lt.mpr (hleast.trans hle))

theorem Discarded.nothing (hinv : HeapInv srv)
    (htop : ∀ elem ∈ binaryHeapTop srv.toHeapMem, cur < accumTimeNs (srv.mem elem).ts) :
    Discarded cur [] srv srv := by
  refine ⟨List.nodup_nil, fun p => ?_, fun p => ?_, (List.append_nil _).symm,
    (List.append_nil _).symm, fun _ _ => ⟨rfl, rfl⟩, fun _ _ => rfl, rfl, rfl, rfl, hinv⟩
  · exact iff_of_false List.not_mem_nil (not_expired_of_top hinv htop)
  · exact ⟨fun hp => ⟨hp, List.not_mem_nil⟩, And.left⟩

/-- **One round**: the connection on top goes first, since it has the earliest deadline, and what
is left is a server with one connection less. -/
theorem Discarded.cons {elem : Ptr} {gone : List Ptr} (hinv : ServerInv srv)
    (helem : elem ∈ srv.allocated) (hts : accumTimeNs (srv.mem elem).ts ≤ cur)
    (h : Discarded cur gone (removeServerState elem (srv.setState elem stateError)) srv') :
    Discarded cur (elem :: gone) srv srv' := by
  have hr := (hinv.setState elem stateError).heap.removed (p := elem) helem
  obtain ⟨u, hu⟩ : ∃ u, u = removeServerState elem (srv.setState elem stateError) := ⟨_, rfl⟩
  rw [← hu] at h hr
  have hself := setState_mem_self srv elem stateError
  have hfd : (srv.setState elem stateError).fd = srv.fd := by
    funext q
    by_cases hq : q = elem
    · rw [hq, Server.fd, hself]
      rfl
    · rw [Server.fd, setState_mem_ne hq]
      rfl
  have hother : ∀ q, q ≠ elem → (u.mem q).toConnState = (srv.mem q).toConnState ∧
      (u.mem q).ts = (srv.mem q).ts := by
    intro q hq
    rw [(hr.same q).1, (hr.same q).2, setState_mem_ne hq]
    exact ⟨rfl, rfl⟩
  have hexp : ∀ q, u.Expired cur q ↔ q ≠ elem ∧ srv.Expired cur q := by
    intro q
    have halloc : q ∈ u.allocated ↔ q ≠ elem ∧ q ∈ srv.allocated := by
      rw [hr.allocated]
      exact Finset.mem_erase
    rw [Server.Expired, Server.Expired, halloc]
    constructor
    · rintro ⟨⟨hne, hq⟩, hle⟩
      exact ⟨hne, hq, (hother q hne).2 ▸ hle⟩
    · rintro ⟨hne, hq, hle⟩
      exact ⟨⟨hne, hq⟩, (hother q hne).2.symm ▸ hle⟩
  have hnot : elem ∉ gone := fun hmem => ((hexp elem).mp ((h.mem_gone elem).mp hmem)).1 rfl
  have hmap : gone.map u.fd = gone.map srv.fd := by
    refine List.map_congr_left fun q hq => ?_
    rw [Server.fd, Server.fd, (hother q fun heq => hnot (heq ▸ hq)).1]
  refine ⟨List.nodup_cons.mpr ⟨hnot, h.nodup⟩, fun q => ?_, fun q => ?_, ?_, ?_,
    fun q hq => ?_, fun fd hfd' => ?_, h.zodiacPrognosises.trans hr.zodiacPrognosises,
    h.recvs.trans hr.recvs, h.sends.trans hr.sends, h.heap⟩
  · rw [List.mem_cons, h.mem_gone, hexp]
    by_cases hq : q = elem
    · rw [hq]
      exact iff_of_true (Or.inl rfl) ⟨helem, hts⟩
    · rw [or_iff_right hq, and_iff_right hq]
  · rw [h.allocated, hr.allocated, List.mem_cons, not_or, Finset.mem_erase]
    constructor
    · rintro ⟨⟨hne, hq⟩, hng⟩
      exact ⟨hq, hne, hng⟩
    · rintro ⟨hq, hne, hng⟩
      exact ⟨⟨hne, hq⟩, hng⟩
  · rw [h.closed, hmap, hu, removeServerState_closed, hfd, List.append_assoc]
    rfl
  · rw [h.trace, hr.trace, List.append_assoc]
    rfl
  · rw [List.mem_cons, not_or] at hq
    exact ⟨(h.others q hq.2).1.trans (hother q hq.1).1,
      (h.others q hq.2).2.trans (hother q hq.1).2⟩
  · rw [List.map_cons, List.mem_cons, not_or] at hfd'
    rw [h.epoll fd (hmap ▸ hfd'.2), hr.epoll]
    refine Function.update_of_ne (fun heq => hfd'.1 ?_) _ _
    exact heq.trans (congrFun hfd elem)

/-- **The loop**, if it ends, throws out what has expired: it stops at a deadline behind the
clock, and by the order of the heap there is no earlier one below it. -/
theorem discarded_of_discardLoop (hinv : ServerInv srv) {fuel : ℕ}
    (hd : discardLoop cur fuel srv = some srv') : ∃ gone, Discarded cur gone srv srv' := by
  induction fuel generalizing srv with
  | zero => cases hd
  | succ fuel ih =>
    rw [Astrologer.discardLoop] at hd
    cases htop : binaryHeapTop srv.toHeapMem with
    | none =>
      simp only [htop, Option.some.injEq] at hd
      refine hd ▸ ⟨[], .nothing hinv.heap fun elem helem => ?_⟩
      rw [htop] at helem
      cases helem
    | some elem =>
      simp only [htop] at hd
      by_cases hts : accumTimeNs (srv.mem elem).ts ≤ cur
      · rw [if_pos hts] at hd
        split at hd
        · cases hd
        next r hr =>
          have hmem : elem ∈ srv.allocated := binaryHeapTop_mem hinv.heap htop
          rw [updateState_setState hr] at hd
          obtain ⟨gone, hgone⟩ := ih ((hinv.setState elem stateError).removed hmem) hd
          exact ⟨elem :: gone, hgone.cons hinv hmem hts⟩
      · rw [if_neg hts, Option.some.injEq] at hd
        refine hd ▸ ⟨[], .nothing hinv.heap fun elem' helem' => ?_⟩
        rw [htop, Option.mem_some_iff] at helem'
        exact helem' ▸ not_le.mp hts

/-- The call for one connection ends in its first round: the state is `STATE_ERROR`, and a
connection at rest that reads has nothing in its buffer. -/
theorem Server.Idle.discard_once (h : srv.Idle p) (n : ℕ) :
    Astrologer.updateState (n + 1) p (srv.setState p stateError) =
      some (0, removeServerState p (srv.setState p stateError)) := by
  have hself := setState_mem_self srv p stateError
  have herror : ((srv.setState p stateError).mem p).state = stateError := by rw [hself]
  have hgoes : ((srv.setState p stateError).mem p).goesOn = false := by
    rw [hself]
    exact h.not_goesOn
  have hloop : updateStateLoop p (n + 1) (srv.setState p stateError) =
      some (srv.setState p stateError) := by
    rw [updateStateLoop, runHandler_of_error herror]
    exact if_neg (by rw [hgoes]; exact Bool.false_ne_true)
  rw [Astrologer.updateState, hloop, Option.map_some, afterLoop]
  exact congrArg some (if_pos (Or.inl herror))

/-- **The loop ends**: every round takes a connection out. -/
theorem discardLoop_returns (hinv : ServerInv srv) (hidle : ConnsIdle srv) {fuel : ℕ}
    (hfuel : srv.allocated.card < fuel) : ∃ srv', discardLoop cur fuel srv = some srv' := by
  induction fuel generalizing srv with
  | zero => exact absurd hfuel (Nat.not_lt_zero _)
  | succ fuel ih =>
    rw [Astrologer.discardLoop]
    cases htop : binaryHeapTop srv.toHeapMem with
    | none => exact ⟨srv, rfl⟩
    | some elem =>
      simp only
      by_cases hts : accumTimeNs (srv.mem elem).ts ≤ cur
      · have hmem : elem ∈ srv.allocated := binaryHeapTop_mem hinv.heap htop
        have hcard := Finset.card_pos.mpr ⟨elem, hmem⟩
        obtain ⟨n, rfl⟩ : ∃ n, fuel = n + 1 := ⟨fuel - 1, by omega⟩
        rw [if_pos hts, (hidle elem hmem).discard_once n]
        have hr := (hinv.setState elem stateError).heap.removed (p := elem) hmem
        refine ih ((hinv.setState elem stateError).removed hmem)
          (hidle.discarded hinv hmem) ?_
        rw [hr.allocated]
        have herase := Finset.card_erase_of_mem hmem
        show (srv.allocated.erase elem).card < n + 1
        omega
      · exact ⟨srv, if_neg hts⟩

theorem discardExpiredConnections_returns (hinv : ServerInv srv) (hidle : ConnsIdle srv) :
    ∃ fuel srv', discardExpiredConnections fuel srv = some srv' := by
  have hidle' : ConnsIdle (getCurTime srv).2 := hidle.of_eq rfl rfl
  exact ⟨_, discardLoop_returns hinv.getCurTime hidle' (Nat.lt_succ_self _)⟩

/-- What is thrown out is what has expired by the clock that was read. -/
theorem discarded_of_discardExpired (hinv : ServerInv srv) {fuel : ℕ}
    (hd : discardExpiredConnections fuel srv = some srv') :
    ∃ gone, Discarded (accumTimeNs srv.kernel.clock.head) gone srv srv' := by
  obtain ⟨gone, h⟩ := discarded_of_discardLoop hinv.getCurTime hd
  exact ⟨gone, h.nodup, h.mem_gone, h.allocated, h.closed, h.trace, h.others, h.epoll,
    h.zodiacPrognosises, h.recvs, h.sends, h.heap⟩

end Loop

/-- **`discard_expired_connections`.**  Between two steps of the event loop, in every run
and whatever clock is read, the call returns.  The connections it removes and whose
descriptors it closes are the live ones with a deadline at or before that clock, each once.
Nothing is received or sent; every other connection keeps its fields but `heap_ix`, and its
registration; the table stays as it is and the heap is in order. -/
theorem discardExpiredConnections_exact {c : Config} (h : Reachable c)
    (hpc : c.pc.looping = true) (k : Kernel) :
    (∃ fuel srv', discardExpiredConnections fuel (c.srv.withKernel k) = some srv') ∧
    ∀ fuel srv', discardExpiredConnections fuel (c.srv.withKernel k) = some srv' →
      ∃ gone, Discarded (accumTimeNs k.clock.head) gone (c.srv.withKernel k) srv' ∧
        ∀ p ∈ srv'.allocated, srv'.epoll (srv'.fd p) = c.srv.epoll (c.srv.fd p) := by
  have hinv := h.inv.srv.withKernel k
  refine ⟨discardExpiredConnections_returns hinv (h.idle.withKernel k), fun fuel srv' hd => ?_⟩
  obtain ⟨gone, hgone⟩ := discarded_of_discardExpired hinv hd
  refine ⟨gone, hgone, fun p hp => ?_⟩
  obtain ⟨hmem, hnot⟩ := (hgone.allocated p).mp hp
  have hfd : srv'.fd p = c.srv.fd p :=
    congrArg (fun s : ConnState => s.intermBuf.fd) (hgone.others p hnot).1
  rw [hfd]
  refine hgone.epoll _ fun hin => ?_
  obtain ⟨q, hq, heq⟩ := List.mem_map.mp hin
  have hqp : q ≠ p := fun he => hnot (he ▸ hq)
  have hq' : q ∈ c.srv.allocated := ((hgone.mem_gone q).mp hq).1
  exact (h.registered hpc p hmem).fd_ne (h.registered hpc q hq') hqp heq

/-- Both clients of the sample have expired after `301` seconds. -/
theorem sampleTwo_exact :
    ∃ fuel srv', discardExpiredConnections fuel (sampleTwo.withKernel (sampleKernel 301)) =
      some srv' ∧ srv'.allocated = ∅ := by
  obtain ⟨⟨fuel, srv', hd⟩, hall⟩ :=
    discardExpiredConnections_exact sampleTwo_reachable rfl (sampleKernel 301)
  obtain ⟨gone, hgone, -⟩ := hall fuel srv' hd
  refine ⟨fuel, srv', hd, Finset.eq_empty_of_forall_notMem fun p hp => ?_⟩
  obtain ⟨hmem, hnot⟩ := (hgone.allocated p).mp hp
  have hall : ∀ q ∈ sampleTwo.allocated,
      accumTimeNs (sampleTwo.mem q).ts ≤ accumTimeNs (sampleKernel 301).clock.head := by decide
  exact hnot ((hgone.mem_gone p).mpr ⟨hmem, hall p hmem⟩)

end Astrologer
