import Astrologer.Server.Interest

/-!
# One system call for each call of `update_state`

The sockets do not block, and the server takes any negative result of `recv` or `send`
for a broken connection.  So it must not ask a socket that `epoll` has not reported: a
`recv` that would block ends the connection.

The loop of `update_state` may handle many requests, and it alternates between reading
and sending.  What keeps it in order is its condition.  It goes on only while the
connection is reading and bytes are left in `interm_buf`, and then `buffered_recv` takes
those.  So a handler asks the socket in the first round, in the direction that `op` had
when the call began, and in no later one (`reachable_calls`).

`ServerEvent.call` picks the system calls out of the record.
-/

namespace Astrologer

open ServerStateType FdOperation

/-! ## Calls in the record -/

/-- The system call that an entry stands for: `OP_READ` for `recv`, `OP_WRITE` for
`send`. -/
def ConnEvent.call : ConnEvent → Option FdOperation
  | .recv _ => some opRead
  | .recvError => some opRead
  | .sent _ => some opWrite
  | .sendError => some opWrite
  | .request _ => none
  | .prognosis _ _ => none

def ServerEvent.call : ServerEvent → Option (Ptr × FdOperation)
  | .conn p e => e.call.map (Prod.mk p)
  | .connected _ => none
  | .removed _ => none
  | .heapCall _ _ => none
  | .removeFailed _ => none

/-- The `recv` and `send` calls of a connection. -/
def Io.calls (io : Io) : List FdOperation := io.trace.filterMap ConnEvent.call

/-- The `recv` and `send` calls of the process, with their connections. -/
def Server.calls (srv : Server) : List (Ptr × FdOperation) :=
  srv.trace.filterMap ServerEvent.call

theorem Io.calls_log (io : Io) (e : ConnEvent) :
    (io.log e).calls = io.calls ++ e.call.toList := by
  rw [calls, log, List.filterMap_append, ← calls]
  cases hcall : e.call with
  | none => rw [List.filterMap_cons_none hcall]; rfl
  | some op => rw [List.filterMap_cons_some hcall]; rfl

/-- Nothing was asked of the kernel. -/
structure Io.Quiet (io io' : Io) : Prop where
  recvs : io'.recvs = io.recvs
  sends : io'.sends = io.sends
  calls : io'.calls = io.calls

theorem Io.quiet_refl (io : Io) : io.Quiet io := ⟨rfl, rfl, rfl⟩

theorem Io.quiet_log (io : Io) {e : ConnEvent} (he : e.call = none) :
    io.Quiet (io.log e) := by
  refine ⟨rfl, rfl, ?_⟩
  rw [Io.calls_log, he]
  exact List.append_nil _

/-- A `recv` is one call. -/
theorem Io.calls_recv (io : Io) (n : ℕ) : (io.recv n).2.calls = io.calls ++ [opRead] := by
  unfold Io.recv
  cases io.recvs.head with
  | error => exact Io.calls_log { io with recvs := io.recvs.tail } .recvError
  | bytes bs => exact Io.calls_log { io with recvs := io.recvs.tail } (.recv (bs.take n))

/-- A `send` is one call. -/
theorem Io.calls_send (io : Io) (src : List Byte) :
    (io.send src).2.calls = io.calls ++ [opWrite] := by
  unfold Io.send
  cases io.sends.head with
  | error => exact Io.calls_log { io with sends := io.sends.tail } .sendError
  | count k => exact Io.calls_log { io with sends := io.sends.tail } (.sent (src.take k))

/-! ## The handlers -/

section Handlers

variable {c : Ctx}

theorem parseStarFirstLine_quiet (c : Ctx) : c.io.Quiet (parseStarFirstLine c).1.io := by
  unfold parseStarFirstLine
  simp only
  split <;> exact c.io.quiet_refl

theorem parseClientFirstLine_quiet (c : Ctx) :
    c.io.Quiet (parseClientFirstLine c).1.io := by
  unfold parseClientFirstLine
  simp only
  split
  · exact c.io.quiet_refl
  · exact c.io.quiet_log rfl

theorem firstLineReceived_quiet (s : ConnState) (t : Table) (io : Io) :
    io.Quiet (firstLineReceived ⟨s, t, io⟩).1.io := by
  unfold firstLineReceived
  simp only
  split
  · split
    · exact parseStarFirstLine_quiet ⟨s, t, io⟩
    · split
      · exact parseClientFirstLine_quiet ⟨s, t, io⟩
      · exact io.quiet_refl
  · split <;> exact io.quiet_refl

theorem prognosisReceived_quiet (s : ConnState) (t : Table) (io : Io) :
    io.Quiet (prognosisReceived ⟨s, t, io⟩).1.io := by
  unfold prognosisReceived
  simp only
  split
  · exact io.quiet_log rfl
  · split <;> exact io.quiet_refl

/-- Behind the receive, `handle_first_line` does not ask the kernel, and leaves
`interm_buf` alone. -/
theorem handleFirstLine_quiet (c : Ctx) :
    (bufferedRecvUntilDelim c.s.intermBuf c.s.buf c.s.curPos c.s.rem delimiter c.io).2.Quiet
        (handleFirstLine c).1.io ∧
      (handleFirstLine c).1.s.intermBuf = (bufferedRecvUntilDelim c.s.intermBuf c.s.buf
        c.s.curPos c.s.rem delimiter c.io).1.2.1 := by
  unfold handleFirstLine
  simp only
  split
  · exact ⟨Io.quiet_refl _, rfl⟩
  · split
    · exact ⟨Io.quiet_refl _, rfl⟩
    · exact ⟨firstLineReceived_quiet _ _ _, firstLineReceived_fd _⟩

theorem handleRecvH_quiet (c : Ctx) :
    (bufferedRecvUntilDelim c.s.intermBuf c.s.buf c.s.curPos c.s.rem delimiter c.io).2.Quiet
        (handleRecvH c).1.io ∧
      (handleRecvH c).1.s.intermBuf = (bufferedRecvUntilDelim c.s.intermBuf c.s.buf
        c.s.curPos c.s.rem delimiter c.io).1.2.1 := by
  unfold handleRecvH
  simp only
  split
  · exact ⟨Io.quiet_refl _, rfl⟩
  · split
    · exact ⟨Io.quiet_refl _, rfl⟩
    · exact ⟨prognosisReceived_quiet _ _ _, prognosisReceived_fd _⟩

/-- In a receiving state a handler asks the kernel what `buffered_recv_until_delim` asks. -/
theorem handleState_receiving (h : c.s.state.receiving) :
    (bufferedRecvUntilDelim c.s.intermBuf c.s.buf c.s.curPos c.s.rem delimiter c.io).2.Quiet
        (handleState c).1.io ∧
      (handleState c).1.s.intermBuf = (bufferedRecvUntilDelim c.s.intermBuf c.s.buf
        c.s.curPos c.s.rem delimiter c.io).1.2.1 := by
  unfold handleState
  rcases h with hs | hs
  · rw [hs]
    exact handleFirstLine_quiet c
  · rw [hs]
    exact handleRecvH_quiet c

theorem handleSendReply_calls (c : Ctx) :
    (handleSendReply c).1.io.calls = c.io.calls ++ [opWrite] := by
  rw [← c.io.calls_send (c.s.buf.slice c.s.curPos c.s.rem)]
  unfold handleSendReply
  simp only
  split
  next io hsend => rw [hsend]
  next bytes io hsend =>
    rw [hsend]
    split <;> rfl

theorem handleState_sending (h : c.s.state.sending) :
    (handleState c).1.io.calls = c.io.calls ++ [opWrite] := by
  unfold handleState
  rcases h with hs | hs
  · rw [hs]
    exact handleSendReply_calls c
  · rw [hs]
    exact handleSendReply_calls c

/-- With nothing in `interm_buf` there is one `recv`. -/
theorem bufferedRecvUntilDelim_calls {buf : Buffer} (h : buf.pos = buf.len)
    (dst : CharArray) (off n : ℕ) (delim : Byte) (io : Io) :
    (bufferedRecvUntilDelim buf dst off n delim io).2.calls = io.calls ++ [opRead] := by
  rw [← io.calls_recv astrologBufLen]
  unfold bufferedRecvUntilDelim
  rw [if_pos h]
  dsimp only
  split
  next io' hrecv => rw [hrecv]
  next io' hrecv => rw [hrecv]
  next bs io' _ hrecv => rw [hrecv]

/-- **With bytes in `interm_buf`** a handler of a reading connection takes some of them,
and asks the kernel nothing. -/
theorem handleState_goesOn (hc : ConnInv c.s) (h : c.s.goesOn = true) :
    c.io.Quiet (handleState c).1.io ∧ ∃ n, (handleState c).1.s.intermBuf =
      { c.s.intermBuf with pos := c.s.intermBuf.pos + n } := by
  rw [ConnState.goesOn, Bool.and_eq_true, decide_eq_true_iff, decide_eq_true_iff] at h
  obtain ⟨hop, hne⟩ := h
  have hrecv : c.s.state.receiving → c.io.Quiet (handleState c).1.io ∧
      ∃ n, (handleState c).1.s.intermBuf =
        { c.s.intermBuf with pos := c.s.intermBuf.pos + n } := by
    intro hs
    obtain ⟨hquiet, hbuf⟩ := handleState_receiving hs
    rw [bufferedRecvUntilDelim, if_neg hne] at hquiet hbuf
    rw [copyUntilDelim_eq _ _ _ _ _ hc.len_le] at hbuf
    exact ⟨hquiet, _, hbuf⟩
  have hsend : ¬ c.s.state.sending := by
    intro hs
    rw [hc.send_op hs] at hop
    cases hop
  cases hs : c.s.state with
  | stateRecvFirstLine => exact hrecv (Or.inl hs)
  | stateRecvH => exact hrecv (Or.inr hs)
  | stateSendThanks => exact absurd (Or.inl hs) hsend
  | stateSendH => exact absurd (Or.inr hs) hsend
  | stateError =>
    rw [handleState, hs]
    exact ⟨c.io.quiet_refl, 0, rfl⟩
  | stateSuccess =>
    rw [handleState, hs]
    exact ⟨c.io.quiet_refl, 0, rfl⟩

end Handlers

/-! ## The rounds of a call -/

section Rounds

variable {srv srv' : Server} {p : Ptr}

theorem calls_of_trace {es : List ServerEvent} (h : srv'.trace = srv.trace ++ es)
    (hes : ∀ e ∈ es, e.call = none) : srv'.calls = srv.calls := by
  rw [Server.calls, h, List.filterMap_append, List.filterMap_eq_nil_iff.mpr hes,
    List.append_nil]
  rfl

/-- What a round asks the kernel is what its handler asks. -/
theorem HeapInv.calls_runHandler (h : HeapInv srv) (hp : p ∈ srv.allocated) :
    (runHandler p srv).calls =
      srv.calls ++ (handleState (srv.ctx p)).1.io.calls.map (Prod.mk p) := by
  obtain ⟨calls, htrace, hcalls⟩ := (h.handled hp).trace
  have hnone : ∀ e ∈ calls, e.call = none := by
    intro e he
    rw [hcalls e he]
    rfl
  rw [Server.calls, htrace, List.filterMap_append, List.filterMap_append,
    List.filterMap_eq_nil_iff.mpr hnone, List.append_nil, List.filterMap_map, Io.calls,
    List.map_filterMap]
  rfl

/-- **The first round** of a call on a connection at rest asks the kernel once, in the
direction of `op`. -/
theorem Server.Idle.first_call (hidle : srv.Idle p) (h : HeapInv srv)
    (hp : p ∈ srv.allocated) :
    (runHandler p srv).calls = srv.calls ++ [(p, (srv.mem p).op)] := by
  have hone : (handleState (srv.ctx p)).1.io.calls = [(srv.mem p).op] := by
    rcases hidle.state_cases with ⟨hop, hs⟩ | ⟨hop, hs⟩
    · have hgoes := hidle.not_goesOn
      rw [ConnState.goesOn, decide_eq_true hop, Bool.true_and] at hgoes
      have hempty : (srv.mem p).intermBuf.pos = (srv.mem p).intermBuf.len :=
        not_not.mp (of_decide_eq_false hgoes)
      rw [(handleState_receiving (c := srv.ctx p) hs).1.calls, hop]
      exact bufferedRecvUntilDelim_calls hempty _ _ _ _ _
    · rw [handleState_sending (c := srv.ctx p) hs, hop]
      rfl
  rw [h.calls_runHandler hp, hone]
  rfl

/-- **A later round** takes what it needs out of `interm_buf`: it makes no call, so no answer of
the kernel is used, and the buffer has only been read further. -/
structure FromBuffer (p : Ptr) (srv srv' : Server) : Prop where
  calls : srv'.calls = srv.calls
  recvs : srv'.kernel.recvs = srv.kernel.recvs
  sends : srv'.kernel.sends = srv.kernel.sends
  intermBuf : ∃ n, (srv'.mem p).intermBuf =
    { (srv.mem p).intermBuf with pos := (srv.mem p).intermBuf.pos + n }

theorem Ready.fromBuffer (h : Ready p srv) (hg : (srv.mem p).goesOn = true) :
    FromBuffer p srv (Astrologer.runHandler p srv) := by
  have hh := h.inv.handled h.mem
  obtain ⟨hquiet, n, hbuf⟩ := handleState_goesOn (c := srv.ctx p) h.conn hg
  refine ⟨?_, hh.recvs.trans hquiet.recvs, hh.sends.trans hquiet.sends, n, ?_⟩
  · rw [h.inv.calls_runHandler h.mem, hquiet.calls]
    exact List.append_nil _
  · rw [hh.conn, hbuf]
    rfl

theorem Ready.iterate (h : Ready p srv) (n : ℕ) :
    Ready p ((Astrologer.runHandler p)^[n] srv) := by
  induction n with
  | zero => exact h
  | succ n ih =>
    rw [Function.iterate_succ_apply']
    exact ih.runHandler

/-- The loop of `update_state` is a number of rounds, and goes on before each but the
first. -/
theorem updateStateLoop_rounds {fuel : ℕ} (h : updateStateLoop p fuel srv = some srv') :
    ∃ n, srv' = (runHandler p)^[n + 1] srv ∧
      ∀ i < n, (((runHandler p)^[i + 1] srv).mem p).goesOn = true := by
  induction fuel generalizing srv with
  | zero => cases h
  | succ fuel ih =>
    rcases updateStateLoop_cases h with ⟨m, hm, hg, hloop⟩ | ⟨-, rfl⟩
    · rw [← Nat.succ.inj hm] at hloop
      obtain ⟨n, hn, hgoes⟩ := ih hloop
      refine ⟨n + 1, hn, fun i hi => ?_⟩
      cases i with
      | zero => exact hg
      | succ i => exact hgoes i (Nat.lt_of_succ_lt_succ hi)
    · exact ⟨0, rfl, fun i hi => absurd hi (Nat.not_lt_zero i)⟩

/-- Behind the loop there is no `recv` and no `send`. -/
theorem calls_afterLoop (h : HeapInv srv) (hp : p ∈ srv.allocated) (initOp : FdOperation) :
    (afterLoop initOp p srv).2.calls = srv.calls := by
  rcases afterLoop_cases initOp p srv with ⟨-, heq⟩ | ⟨-, mask, ret, hw⟩
  · rw [heq]
    refine calls_of_trace (h.removed hp).trace fun e he => ?_
    rcases List.mem_cons.mp he with rfl | he
    · rfl
    · rw [List.mem_singleton.mp he]
      rfl
  · rw [Server.calls, hw.trace]
    rfl

/-- **A call of `update_state`** on a connection at rest: its first round asks the kernel
once, and every other round is served from `interm_buf`. -/
theorem Server.Idle.calls_updateState (hidle : srv.Idle p) (hinv : ServerInv srv)
    (hp : p ∈ srv.allocated) {fuel : ℕ} {r : ℤ × Server}
    (hr : updateState fuel p srv = some r) :
    ∃ n, r = afterLoop (srv.mem p).op p ((runHandler p)^[n + 1] srv) ∧
      (runHandler p srv).calls = srv.calls ++ [(p, (srv.mem p).op)] ∧
      (∀ i < n, FromBuffer p ((runHandler p)^[i + 1] srv) ((runHandler p)^[i + 2] srv)) ∧
      r.2.calls = srv.calls ++ [(p, (srv.mem p).op)] := by
  have hready : Ready p srv := ⟨hinv.heap, hp, hidle.conn⟩
  obtain ⟨srv₁, hloop, rfl⟩ := Option.map_eq_some_iff.mp hr
  obtain ⟨n, rfl, hgoes⟩ := updateStateLoop_rounds hloop
  have hfrom : ∀ i < n,
      FromBuffer p ((runHandler p)^[i + 1] srv) ((runHandler p)^[i + 2] srv) := by
    intro i hi
    rw [Function.iterate_succ_apply' (runHandler p) (i + 1)]
    exact (hready.iterate (i + 1)).fromBuffer (hgoes i hi)
  have hall : ∀ i ≤ n, ((runHandler p)^[i + 1] srv).calls = (runHandler p srv).calls := by
    intro i hi
    induction i with
    | zero => rfl
    | succ i ih => exact (hfrom i hi).calls.trans (ih (Nat.le_of_succ_le hi))
  have hfirst := hidle.first_call hinv.heap hp
  have hlast := hready.iterate (n + 1)
  exact ⟨n, rfl, hfirst, hfrom,
    (calls_afterLoop hlast.inv hlast.mem _).trans ((hall n (Nat.le_refl n)).trans hfirst)⟩

/-- A connection that is given up goes without a `recv` and without a `send`. -/
theorem calls_discardLoop (hinv : ServerInv srv) {cur : ℤ} {fuel : ℕ}
    (hd : discardLoop cur fuel srv = some srv') : srv'.calls = srv.calls := by
  refine (discardLoop_preserves (P := fun t => t.calls = srv.calls) ?_ hinv hd rfl).2
  intro t q ht hq hcalls
  have hr := (ht.setState q stateError).heap.removed (p := q) hq
  refine (calls_of_trace hr.trace fun e he => ?_).trans hcalls
  rcases List.mem_cons.mp he with rfl | he
  · rfl
  · rw [List.mem_singleton.mp he]
    rfl

end Rounds

/-- **The I/O discipline.**  In every state of every run, a call of `update_state` for a
live connection that returns makes one `recv` or `send` in all, in the first round of its
loop and in the direction that `op` had when it began; that is what `epoll` watches the
descriptor for.  Every later round is served from `interm_buf`: it advances the position
there and asks the kernel nothing.  The calls that `discard_expired_connections` makes ask
nothing at all. -/
theorem reachable_calls {c : Config} (h : Reachable c) (k : Kernel) :
    (∀ p ∈ c.srv.allocated, ∀ fuel r,
      updateState fuel p (c.srv.withKernel k) = some r →
        (∃ n, r = afterLoop (c.srv.mem p).op p
            ((runHandler p)^[n + 1] (c.srv.withKernel k)) ∧
          (runHandler p (c.srv.withKernel k)).calls =
            c.srv.calls ++ [(p, (c.srv.mem p).op)] ∧
          ∀ i < n, FromBuffer p ((runHandler p)^[i + 1] (c.srv.withKernel k))
            ((runHandler p)^[i + 2] (c.srv.withKernel k))) ∧
        r.2.calls = c.srv.calls ++ [(p, (c.srv.mem p).op)] ∧
        (c.pc.looping = true → c.srv.Registered p)) ∧
    ∀ cur fuel srv', discardLoop cur fuel (c.srv.withKernel k) = some srv' →
      srv'.calls = c.srv.calls := by
  have hinv := h.inv.srv.withKernel k
  constructor
  · intro p hp fuel r hr
    obtain ⟨n, hrounds, hfirst, hfrom, hcalls⟩ :=
      ((h.idle.withKernel k) p hp).calls_updateState hinv hp hr
    exact ⟨⟨n, hrounds, hfirst, hfrom⟩, hcalls, fun hpc => h.registered hpc p hp⟩
  · intro cur fuel srv' hd
    have hcalls := calls_discardLoop hinv hd
    exact hcalls

/-- A star sends its two lines in one piece: there are two rounds, and one `recv`. -/
theorem sampleTwo_calls :
    ∃ r, updateState 8 1 (sampleTwo.withKernel sampleStarSays) = some r ∧
      r.2.calls = sampleTwo.calls ++ [(1, opRead)] := by
  have hsome : (updateState 8 1 (sampleTwo.withKernel sampleStarSays)).isSome = true := by
    decide
  obtain ⟨r, hr⟩ := Option.isSome_iff_exists.mp hsome
  exact ⟨r, hr, ((reachable_calls sampleTwo_reachable sampleStarSays).1 1 (by decide) 8 r
    hr).2.1⟩

end Astrologer
