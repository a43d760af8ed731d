import Astrologer.Proxy.Children

/-!
# Failures in a child of the proxy

`process_new_connection` makes calls on two descriptors: `con_fd` of the client and
`astrolog_fd` of the server.  When `recv_line` or `send_all` fails on one of them, the
function should return, with what says which of them it was, and make no more calls.
And a reply should be received, and sent to the client, only in a round in which the
whole request was sent to the server before (`FailsCleanly`, `RepliesToRequests`).  The calls
are recorded with the bytes that they have received or sent, so that the whole request is what
has been received from the client in this round, and all of it has been sent.

`Run` is a run of the function, call by call, for any results of the calls.  Three of the
four handlers return when their function fails.  `handle_send_request` does not: its last
statement overwrites the state `STATE_ASTROLOG_ERROR`, and the child waits for a reply to
a request that was not sent.  So a run is as it should be exactly when no `send_all` on
`astrolog_fd` fails in it (`handled_iff`).
-/

namespace Astrologer.Proxy

open Lines ProxyStateType

/-! ## The calls

A run of the function is the list of its calls, and both properties are about this list: the one
about where it ends, the other one about what stands before a call that is about a reply. -/

/-- `enum disconnect_type`. -/
inductive DisconnectType
  | disconnectClient
  | disconnectAstrolog
  deriving DecidableEq

inductive Descriptor
  | conFd
  | astrologFd
  deriving DecidableEq

/-- What says that a descriptor has failed. -/
def Descriptor.disconnect : Descriptor → DisconnectType
  | .conFd => .disconnectClient
  | .astrologFd => .disconnectAstrolog

/-- A `recv` of `recv_line` or a `send` of `send_all`: the state in which it is made, the bytes
that it has received or sent, and what the function returns, if it returns then. -/
structure Call where
  state : ProxyStateType
  bytes : List Byte
  ret : Option ℤ
  deriving DecidableEq

def Call.descriptor (c : Call) : Descriptor :=
  if c.state = stateSendRequest ∨ c.state = stateRecvReply then .astrologFd else .conFd

/-- `send_all` returns non-zero, or `recv_line` returns `0` or less. -/
def Call.Failed (c : Call) : Prop :=
  ∃ ret, c.ret = some ret ∧
    if c.state = stateRecvRequest ∨ c.state = stateRecvReply then ret ≤ 0 else ret ≠ 0

/-- What `process_new_connection` has returned: behind it the child accepts its next
client, or it exits. -/
def Process.returned : Process → Option DisconnectType
  | .accepting => some .disconnectClient
  | .serving _ _ => none
  | .exited => some .disconnectAstrolog

/-- A child makes a call in `process_new_connection`: the state that it is made in, what was
received or sent by it, and what the function around it returns.  Of the result of `recv` or
`send` nothing is assumed. -/
inductive Process.Calls : Process → Call → Process → Prop
  | recvRequest {s : ProxyState} {pos : ℕ} (hs : s.state = stateRecvRequest)
      (r : RecvResult) :
      Calls (.serving s pos) ⟨s.state, recvTaken pos r, (recvLine s.buf pos astrologBufLen r).1⟩
        (.afterRecv handleRecvRequest s pos r)
  | sendDenied {s : ProxyState} {pos : ℕ} (hs : s.state = stateSendDenied)
      (r : SendResult) :
      Calls (.serving s pos) ⟨s.state, sendTaken (s.rest pos) r, (sendAll pos s.len r).1⟩
        (.afterSend handleSendReply s pos r)
  | sendRequest {s : ProxyState} {pos : ℕ} (hs : s.state = stateSendRequest)
      (r : SendResult) :
      Calls (.serving s pos) ⟨s.state, sendTaken (s.rest pos) r, (sendAll pos s.len r).1⟩
        (.afterSend handleSendRequest s pos r)
  | recvReply {s : ProxyState} {pos : ℕ} (hs : s.state = stateRecvReply)
      (r : RecvResult) :
      Calls (.serving s pos) ⟨s.state, recvTaken pos r, (recvLine s.buf pos astrologBufLen r).1⟩
        (.afterRecv handleRecvReply s pos r)
  | sendReply {s : ProxyState} {pos : ℕ} (hs : s.state = stateSendReply)
      (r : SendResult) :
      Calls (.serving s pos) ⟨s.state, sendTaken (s.rest pos) r, (sendAll pos s.len r).1⟩
        (.afterSend handleSendReply s pos r)

/-- Some calls, one after the other. -/
def Run : Process → List Call → Process → Prop
  | p, [], p' => p = p'
  | p, c :: calls, p' => ∃ q, p.Calls c q ∧ Run q calls p'

/-- **The first failure ends the run**, and the function says which descriptor it was: behind a
failed call there is no other one. -/
def FailsCleanly (calls : List Call) (p : Process) : Prop :=
  ∀ before c after, calls = before ++ c :: after → c.Failed → (∀ d ∈ before, ¬ d.Failed) →
    after = [] ∧ p.returned = some c.descriptor.disconnect

/-- A call that receives a reply, or sends it to the client. -/
def Call.OfReply (c : Call) : Prop := c.state = stateRecvReply ∨ c.state = stateSendReply

/-- What the calls have received or sent. -/
def bytesOf (calls : List Call) : List Byte := calls.flatMap Call.bytes

/-- **The calls of a round** behind those of the earlier rounds: some receive the request, some
send it, and some are about the reply.  What comes before them does not belong to the same
`recv_line`. -/
structure Round (calls earlier heard asked replies : List Call) : Prop where
  eq : calls = earlier ++ (heard ++ (asked ++ replies))
  before : ∀ d ∈ earlier.getLast?, d.state ≠ stateRecvRequest
  heard : ∀ d ∈ heard, d.state = stateRecvRequest
  asked : ∀ d ∈ asked, d.state = stateSendRequest
  replies : ∀ d ∈ replies, d.OfReply

/-- **The whole request has been sent**: it is a line, all of it was sent to the server, and
`send_all` has returned `0`. -/
structure Asked (heard asked : List Call) : Prop where
  line : IsLine delimiter (bytesOf heard)
  whole : bytesOf asked = bytesOf heard
  done : ∃ d ∈ asked.getLast?, d.ret = some 0

/-- **A reply is received and sent behind a request**: before each call that is about a reply
the whole request was sent in the same round. -/
def RepliesToRequests (calls : List Call) : Prop :=
  ∀ before c after, calls = before ++ c :: after → c.OfReply →
    ∃ earlier heard asked replies, Round before earlier heard asked replies ∧ Asked heard asked

/-- What a run has come to when the child is at its next call. -/
def Process.Progress (calls : List Call) : Process → Prop
  | .accepting => True
  | .exited => True
  | .serving s pos =>
    match s.state with
    | stateRecvRequest => ∃ earlier heard, Round calls earlier heard [] [] ∧
        bytesOf heard = s.buf.slice 0 pos
    | stateSendDenied => True
    | stateSendRequest => ∃ earlier heard asked, Round calls earlier heard asked [] ∧
        bytesOf heard = s.buf.slice 0 s.len ∧ bytesOf asked = s.buf.slice 0 pos
    | stateRecvReply => ∃ earlier heard asked replies,
        Round calls earlier heard asked replies ∧ Asked heard asked
    | stateSendReply => ∃ earlier heard asked replies,
        Round calls earlier heard asked replies ∧ Asked heard asked
    | stateClientError => True
    | stateAstrologError => True
    | stateSuccess => True

/-! ## One call

What is behind a failed call, by the state that it was made in.  Four of the five lead to the
return with the right value; the fifth is `handle_send_request`. -/

section Calls

variable {p p' : Process} {c : Call}

/-- What is called is what the state says. -/
theorem Process.Calls.serving (h : p.Calls c p') :
    ∃ s pos, p = .serving s pos ∧ s.state = c.state := by
  cases h <;> exact ⟨_, _, rfl, rfl⟩

/-- A function that has returned makes no more calls. -/
theorem Process.Calls.returned_eq_none (h : p.Calls c p') : p.returned = none := by
  obtain ⟨s, pos, rfl, -⟩ := h.serving
  rfl

/-- The calls are steps of the child. -/
theorem Process.Calls.step (h : p.Calls c p') : ∃ l, p.Step l p' := by
  cases h with
  | recvRequest hs r => exact ⟨_, .recvRequest hs r⟩
  | sendDenied hs r => exact ⟨_, .sendDenied hs r⟩
  | sendRequest hs r =>
    cases r with
    | error => exact ⟨_, .sendRequestFailed hs⟩
    | count k => exact ⟨_, .sendRequest hs k⟩
  | recvReply hs r => exact ⟨_, .recvReply hs r⟩
  | sendReply hs r => exact ⟨_, .sendReply hs r⟩

end Calls

section Handlers

variable (handler : ℤ → ProxyState → ProxyState) (s : ProxyState) (pos : ℕ)

theorem afterRecv_some {r : RecvResult} {ret : ℤ}
    (h : (recvLine s.buf pos astrologBufLen r).1 = some ret) :
    ∃ buf, Process.afterRecv handler s pos r = .resume (handler ret { s with buf := buf }) := by
  rw [Process.afterRecv]
  simp only [h]
  exact ⟨_, rfl⟩

theorem afterSend_some {r : SendResult} {ret : ℤ} (h : (sendAll pos s.len r).1 = some ret) :
    Process.afterSend handler s pos r = .resume (handler ret s) := by
  rw [Process.afterSend]
  simp only [h]

end Handlers

section Calls

variable {p p' : Process} {c : Call}

/-- **A failure is noticed**, but for that of `handle_send_request`: the function returns with the
descriptor that the call was made on. -/
theorem Process.Calls.of_failed (h : p.Calls c p') (hfailed : c.Failed)
    (hstate : c.state ≠ stateSendRequest) : p'.returned = some c.descriptor.disconnect := by
  obtain ⟨ret, hret, hbad⟩ := hfailed
  cases h with
  | @recvRequest s pos hs r =>
    rw [if_pos (.inl hs)] at hbad
    obtain ⟨buf, heq⟩ := afterRecv_some handleRecvRequest s pos hret
    rw [heq, handleRecvRequest, Call.descriptor, hs]
    by_cases hneg : ret < 0
    · rw [if_pos hneg]
      rfl
    · rw [if_neg hneg, if_pos (by omega)]
      rfl
  | @sendDenied s pos hs r =>
    rw [hs] at hbad
    have hne : ret ≠ 0 := hbad
    rw [afterSend_some handleSendReply s pos hret, handleSendReply, if_pos hne,
      Call.descriptor, hs]
    rfl
  | sendRequest hs r => exact absurd hs hstate
  | @recvReply s pos hs r =>
    rw [if_pos (.inr hs)] at hbad
    obtain ⟨buf, heq⟩ := afterRecv_some handleRecvReply s pos hret
    rw [heq, handleRecvReply, if_pos hbad, Call.descriptor, hs]
    rfl
  | @sendReply s pos hs r =>
    rw [hs] at hbad
    have hne : ret ≠ 0 := hbad
    rw [afterSend_some handleSendReply s pos hret, handleSendReply, if_pos hne,
      Call.descriptor, hs]
    rfl

/-- **The failure of `handle_send_request` is lost.**  The state is overwritten by the last
statement, so the function goes on to `recv_line`. -/
theorem Process.Calls.of_sendRequest_failed (h : p.Calls c p') (hfailed : c.Failed)
    (hstate : c.state = stateSendRequest) : p'.returned = none := by
  obtain ⟨ret, hret, -⟩ := hfailed
  cases h with
  | recvRequest hs r => exact absurd (hs.symm.trans hstate) (by decide)
  | sendDenied hs r => exact absurd (hs.symm.trans hstate) (by decide)
  | @sendRequest s pos hs r =>
    rw [afterSend_some handleSendRequest s pos hret, resume_handleSendRequest]
    rfl
  | recvReply hs r => exact absurd (hs.symm.trans hstate) (by decide)
  | sendReply hs r => exact absurd (hs.symm.trans hstate) (by decide)

end Calls

/-! ## Rounds

A run goes through rounds: receive a request, send it, receive the reply, send it.  A denied
request is a round without the two in the middle.  The bytes of the calls are kept, so that at the
end of the second part it is known that all of the request was sent. -/

section Rounds

variable {p p' : Process} {c : Call} {calls earlier heard asked replies : List Call}

theorem bytesOf_concat (calls : List Call) (c : Call) :
    bytesOf (calls ++ [c]) = bytesOf calls ++ c.bytes := by
  rw [bytesOf, bytesOf, List.flatMap_append, List.flatMap_singleton]

/-- A round begins behind a call that is not a `recv` of a request. -/
theorem Round.begins (calls : List Call) (hc : c.state ≠ stateRecvRequest) :
    Round (calls ++ [c]) (calls ++ [c]) [] [] [] := by
  refine ⟨(List.append_nil _).symm, fun d hd => ?_, ?_, ?_, ?_⟩
  · rw [List.getLast?_concat, Option.mem_some] at hd
    exact hd ▸ hc
  all_goals exact fun d hd => absurd hd List.not_mem_nil

theorem forall_concat {P : Call → Prop} (h : ∀ d ∈ calls, P d) (hc : P c) :
    ∀ d ∈ calls ++ [c], P d := by
  intro d hd
  rcases List.mem_append.mp hd with hd | hd
  · exact h d hd
  · exact List.mem_singleton.mp hd ▸ hc

theorem Round.hear (h : Round calls earlier heard [] []) (hc : c.state = stateRecvRequest) :
    Round (calls ++ [c]) earlier (heard ++ [c]) [] [] :=
  ⟨by simp [h.eq], h.before, forall_concat h.heard hc, h.asked, h.replies⟩

theorem Round.ask (h : Round calls earlier heard asked []) (hc : c.state = stateSendRequest) :
    Round (calls ++ [c]) earlier heard (asked ++ [c]) [] :=
  ⟨by simp [h.eq], h.before, h.heard, forall_concat h.asked hc, h.replies⟩

theorem Round.reply (h : Round calls earlier heard asked replies) (hc : c.OfReply) :
    Round (calls ++ [c]) earlier heard asked (replies ++ [c]) :=
  ⟨by simp [h.eq], h.before, h.heard, h.asked, forall_concat h.replies hc⟩

/-- What a `send` takes is behind what was sent before. -/
theorem slice_sendTaken (s : ProxyState) (pos k : ℕ) :
    s.buf.slice 0 pos ++ sendTaken (s.rest pos) (.count k) =
      s.buf.slice 0 (pos + min k (s.len - pos)) := by
  have hsplit := s.buf.slice_append 0 pos (min k (s.len - pos))
  rw [Nat.zero_add] at hsplit
  rw [sendTaken, ProxyState.rest, CArray.take_slice, hsplit]

/-- A line to the client, of which a part may be left. -/
theorem progress_sendReply {s : ProxyState} {pos : ℕ} {r : SendResult}
    (hmore : ∀ pos', (Process.serving s pos').Progress (calls ++ [c]))
    (hc : c.state ≠ stateRecvRequest) :
    (Process.afterSend handleSendReply s pos r).Progress (calls ++ [c]) := by
  cases r with
  | error => trivial
  | count k =>
    by_cases hlt : pos + min k (s.len - pos) < s.len
    · rw [afterSend_more handleSendReply hlt]
      exact hmore _
    · rw [afterSend_done handleSendReply hlt]
      exact ⟨_, [], .begins calls hc, rfl⟩

/-- **A call** goes on with the round, or begins the next one, unless it is a failing `send_all`
to the server. -/
theorem Process.Calls.progress (h : p.Calls c p') (hinv : p.Inv) (hp : p.Progress calls)
    (hsend : c.state = stateSendRequest → ¬ c.Failed) : p'.Progress (calls ++ [c]) := by
  cases h with
  | @recvRequest s pos hs r =>
    rw [Process.Inv, hs] at hinv
    rw [Process.Progress, hs] at hp
    obtain ⟨earlier, heard, hround, hheard⟩ := hp
    rcases afterRecv_cases handleRecvRequest hinv r with ⟨buf, pos', -, htext, heq⟩ |
      ⟨buf, n, hn, hline, htext, heq⟩ | ⟨buf, ret, hret, heq⟩
    · rw [heq, Process.Progress, hs]
      refine ⟨earlier, _, hround.hear rfl, ?_⟩
      rw [bytesOf_concat, hheard]
      exact htext.symm
    · rw [heq]
      by_cases hclient : clientRequestType <+: buf.slice 0 n
      · obtain ⟨buf', hbuf, hres⟩ :=
          handleRecvRequest_client (s := { s with buf := buf }) hn hline hclient
        rw [hres]
        refine ⟨earlier, _, [], hround.hear hs, ?_, rfl⟩
        rw [bytesOf_concat, hheard]
        exact htext.symm.trans hbuf.symm
      · obtain ⟨buf', -, hres⟩ :=
          handleRecvRequest_filtered (s := { s with buf := buf }) hn hline hclient
        rw [hres]
        trivial
    · rw [heq, handleRecvRequest]
      by_cases hneg : ret < 0
      · rw [if_pos hneg]
        trivial
      · rw [if_neg hneg, if_pos (by omega)]
        trivial
  | @sendDenied s pos hs r =>
    refine progress_sendReply (fun pos' => ?_) (show s.state ≠ _ by rw [hs]; decide)
    rw [Process.Progress, hs]
    trivial
  | @sendRequest s pos hs r =>
    rw [Process.Inv, hs] at hinv
    rw [Process.Progress, hs] at hp
    obtain ⟨earlier, heard, asked, hround, hheard, hasked⟩ := hp
    cases r with
    | error =>
      refine absurd ⟨-1, rfl, ?_⟩ (hsend hs)
      show if s.state = _ ∨ s.state = _ then _ else _
      rw [hs]
      decide
    | count k =>
      have hsent := slice_sendTaken s pos k
      rw [← hasked] at hsent
      by_cases hlt : pos + min k (s.len - pos) < s.len
      · rw [afterSend_more handleSendRequest hlt, Process.Progress, hs]
        exact ⟨earlier, heard, _, hround.ask rfl, hheard, (bytesOf_concat _ _).trans hsent⟩
      · have hleft := hinv.1.left
        have hall : pos + min k (s.len - pos) = s.len := by omega
        have hret : (sendAll pos s.len (.count k)).1 = some 0 := by
          rw [sendAll]
          simp only [if_neg hlt]
        rw [afterSend_done handleSendRequest hlt, resume_handleSendRequest]
        refine ⟨earlier, heard, _, [], hround.ask hs, hheard.symm ▸ hinv.1.line, ?_, ?_⟩
        · rw [bytesOf_concat, hheard, hsent, hall]
        · exact ⟨_, by rw [List.getLast?_concat]; rfl, hret⟩
  | @recvReply s pos hs r =>
    rw [Process.Inv, hs] at hinv
    rw [Process.Progress, hs] at hp
    obtain ⟨earlier, heard, asked, replies, hround, hasked⟩ := hp
    rcases afterRecv_cases handleRecvReply hinv r with ⟨buf, pos', -, -, heq⟩ |
      ⟨buf, n, hn, hline, -, heq⟩ | ⟨buf, ret, hret, heq⟩
    · rw [heq, Process.Progress, hs]
      exact ⟨earlier, heard, asked, _, hround.reply (.inl rfl), hasked⟩
    · obtain ⟨s', hres, hst, -⟩ := handleRecvReply_line (s := { s with buf := buf }) hn hline
      rw [heq, hres, Process.Progress, hst]
      exact ⟨earlier, heard, asked, _, hround.reply (.inl hs), hasked⟩
    · rw [heq, handleRecvReply, if_pos hret]
      trivial
  | @sendReply s pos hs r =>
    rw [Process.Progress, hs] at hp
    obtain ⟨earlier, heard, asked, replies, hround, hasked⟩ := hp
    refine progress_sendReply (fun pos' => ?_) (show s.state ≠ _ by rw [hs]; decide)
    rw [Process.Progress, hs]
    exact ⟨earlier, heard, asked, _, hround.reply (.inr rfl), hasked⟩

end Rounds

/-! ## Runs

By induction on the run, as long as no `send_all` to the server fails; and the first one that
fails makes the run a bad one. -/

section Run

variable {p p' : Process} {c : Call} {calls before after : List Call}

theorem run_append : Run p (before ++ after) p' ↔ ∃ q, Run p before q ∧ Run q after p' := by
  induction before generalizing p with
  | nil => exact ⟨fun h => ⟨p, rfl, h⟩, fun ⟨q, hq, h⟩ => hq ▸ h⟩
  | cons c before ih =>
    constructor
    · rintro ⟨q, hc, h⟩
      obtain ⟨m, hm, h⟩ := ih.mp h
      exact ⟨m, ⟨q, hc, hm⟩, h⟩
    · rintro ⟨m, ⟨q, hc, hm⟩, h⟩
      exact ⟨q, hc, ih.mpr ⟨m, hm, h⟩⟩

/-- A run, taken apart at a call. -/
theorem Run.split (h : Run p (before ++ c :: after) p') :
    ∃ q q', Run p before q ∧ q.Calls c q' ∧ Run q' after p' := by
  obtain ⟨q, hbefore, q', hc, hafter⟩ := run_append.mp h
  exact ⟨q, q', hbefore, hc, hafter⟩

/-- There are no calls behind the return. -/
theorem Run.of_returned (h : Run p calls p') {d : DisconnectType} (hp : p.returned = some d) :
    calls = [] ∧ p' = p := by
  cases calls with
  | nil => exact ⟨rfl, h.symm⟩
  | cons c calls =>
    obtain ⟨q, hc, -⟩ := h
    rw [hc.returned_eq_none] at hp
    cases hp

/-- **Without a failing `send_all` to the server the first failure ends the run.** -/
theorem Run.failsCleanly (h : Run p calls p')
    (hsend : ∀ c ∈ calls, c.state = stateSendRequest → ¬ c.Failed) : FailsCleanly calls p' := by
  rintro before c after rfl hfailed -
  obtain ⟨q, q', -, hc, hafter⟩ := h.split
  have hmem : c ∈ before ++ c :: after := List.mem_append_right _ List.mem_cons_self
  have hreturned := hc.of_failed hfailed fun hstate => hsend c hmem hstate hfailed
  obtain ⟨hnil, heq⟩ := hafter.of_returned hreturned
  exact ⟨hnil, heq ▸ hreturned⟩

/-- **A run** comes to its rounds one after the other, unless a `send_all` to the server fails. -/
theorem Run.progress {buf : CharArray} (h : Run (.connect buf) calls p')
    (hsend : ∀ c ∈ calls, c.state = stateSendRequest → ¬ c.Failed) :
    p'.Inv ∧ p'.Progress calls := by
  induction calls using List.reverseRecOn generalizing p' with
  | nil =>
    have hstart : Round [] [] [] [] [] := by
      refine ⟨rfl, ?_, ?_, ?_, ?_⟩
      all_goals exact fun d hd => by cases hd
    rw [← show Process.connect buf = p' from h]
    exact ⟨receiving_zero _, [], [], hstart, rfl⟩
  | append_singleton calls c ih =>
    obtain ⟨q, q', hcalls, hc, rfl⟩ := h.split
    obtain ⟨hinv, hprogress⟩ := ih hcalls fun d hd => hsend d (List.mem_append_left _ hd)
    obtain ⟨l, hstep⟩ := hc.step
    exact ⟨hstep.inv hinv,
      hc.progress hinv hprogress (hsend c (List.mem_append_right _ List.mem_cons_self))⟩

/-- **Without a failing `send_all` to the server the replies are behind requests.** -/
theorem Run.repliesToRequests {buf : CharArray} (h : Run (.connect buf) calls p')
    (hsend : ∀ c ∈ calls, c.state = stateSendRequest → ¬ c.Failed) :
    RepliesToRequests calls := by
  rintro before c after rfl hof
  obtain ⟨q, q', hbefore, hc, -⟩ := h.split
  obtain ⟨s, pos, rfl, hs⟩ := hc.serving
  have hprogress := (hbefore.progress fun d hd => hsend d (List.mem_append_left _ hd)).2
  rw [Process.Progress] at hprogress
  rcases hof with hof | hof
  · rwa [hs, hof] at hprogress
  · rwa [hs, hof] at hprogress

/-- The first failing call. -/
theorem exists_first_failed (h : ∃ c ∈ calls, c.Failed) :
    ∃ before c after, calls = before ++ c :: after ∧ c.Failed ∧ ∀ d ∈ before, ¬ d.Failed := by
  classical
  obtain ⟨d, hd, hfailed⟩ := h
  have hsome : (calls.find? fun c => decide c.Failed).isSome :=
    List.find?_isSome.mpr ⟨d, hd, decide_eq_true hfailed⟩
  obtain ⟨c, hc⟩ := Option.isSome_iff_exists.mp hsome
  obtain ⟨hcfailed, before, after, heq, hbefore⟩ := List.find?_eq_some_iff_append.mp hc
  refine ⟨before, c, after, heq, of_decide_eq_true hcfailed, fun d hd => ?_⟩
  have hnot := hbefore d hd
  rw [Bool.not_eq_true'] at hnot
  exact of_decide_eq_false hnot

/-- A failing `send_all` to the server is not handled: the run goes on. -/
theorem Run.not_failsCleanly (h : Run p calls p') (hc : c ∈ calls)
    (hstate : c.state = stateSendRequest) (hfailed : c.Failed) : ¬ FailsCleanly calls p' := by
  intro hclean
  obtain ⟨before, d, after, rfl, hd, hbefore⟩ := exists_first_failed ⟨c, hc, hfailed⟩
  obtain ⟨rfl, hreturned⟩ := hclean before d after rfl hd hbefore
  -- the first failure is the last call, so it is the one of `handle_send_request`
  have hcd : c = d := by
    rcases List.mem_append.mp hc with hc | hc
    · exact absurd hfailed (hbefore c hc)
    · exact List.mem_singleton.mp hc
  obtain ⟨q, q', -, hcall, hq'⟩ := h.split
  rw [← show q' = p' from hq',
    hcall.of_sendRequest_failed hd (hcd ▸ hstate)] at hreturned
  cases hreturned

end Run

/-- **When failures are handled.**  In a run of `process_new_connection` the first failure
ends the run, and replies are received and sent behind requests only, exactly when no
`send_all` on `astrolog_fd` fails. -/
theorem handled_iff {buf : CharArray} {calls : List Call} {p : Process}
    (h : Run (.connect buf) calls p) :
    FailsCleanly calls p ∧ RepliesToRequests calls ↔
      ∀ c ∈ calls, c.state = stateSendRequest → ¬ c.Failed :=
  ⟨fun hclean _ hc hstate hfailed => h.not_failsCleanly hc hstate hfailed hclean.1,
    fun hsend => ⟨h.failsCleanly hsend, h.repliesToRequests hsend⟩⟩

/-! ## Two failures

A client sends a request.  In the first run the request is sent, and then the server
closes the connection.  In the second run the request cannot be sent, and the child goes
on as if it had been. -/

def sampleBuf : CharArray := .replicate _ 0

def sampleLine : List Byte := str "HOROSCOPE Aries\n"

/-- The request is received. -/
def sampleAsking : ProxyState :=
  handleRecvRequest 16 ⟨(sampleBuf.poke astrologBufLen 0).memcpy 0 sampleLine, 0, stateRecvRequest⟩

def sampleRequested : Call := ⟨stateRecvRequest, sampleLine, some 16⟩

theorem sampleAsking_calls :
    (Process.connect sampleBuf).Calls sampleRequested (.serving sampleAsking 0) := by
  have hret : (recvLine (sampleBuf.poke astrologBufLen 0) 0 astrologBufLen
      (.bytes sampleLine)).1 = some 16 := by decide
  have hnext : Process.afterRecv handleRecvRequest
      ⟨sampleBuf.poke astrologBufLen 0, 0, stateRecvRequest⟩ 0 (.bytes sampleLine) =
      .serving sampleAsking 0 := by decide
  rw [sampleRequested, ← hret, ← hnext]
  exact .recvRequest rfl (.bytes sampleLine)

/-- The whole request is sent. -/
def sampleSentWhole : Call := ⟨stateSendRequest, sampleLine, some 0⟩

/-- The server has closed the connection. -/
def sampleEnd : Call := ⟨stateRecvReply, [], some 0⟩

/-- The request cannot be sent. -/
def sampleUnsent : Call := ⟨stateSendRequest, [], some (-1)⟩

/-- What `handle_send_request` makes of the result of `send_all`. -/
theorem sampleAsking_sends (r : SendResult) {bs : List Byte} {ret : ℤ}
    (hbytes : sendTaken (sampleAsking.rest 0) r = bs)
    (hret : (sendAll 0 sampleAsking.len r).1 = some ret) :
    (Process.serving sampleAsking 0).Calls ⟨stateSendRequest, bs, some ret⟩
      (.resume (handleSendRequest ret sampleAsking)) := by
  rw [← hbytes, ← hret, ← afterSend_some handleSendRequest sampleAsking 0 hret]
  exact .sendRequest (by decide) r

/-- The server closes the connection. -/
theorem sampleClosed_run :
    Run (.connect sampleBuf) [sampleRequested, sampleSentWhole, sampleEnd] .exited :=
  ⟨_, sampleAsking_calls, _, sampleAsking_sends (.count 16) (by decide) (by decide), _,
    .recvReply rfl (.bytes []), rfl⟩

theorem sampleClosed_handled :
    FailsCleanly [sampleRequested, sampleSentWhole, sampleEnd] .exited ∧
      RepliesToRequests [sampleRequested, sampleSentWhole, sampleEnd] := by
  refine (handled_iff sampleClosed_run).mpr fun c hc hstate => ?_
  rintro ⟨ret, hret, hbad⟩
  simp only [List.mem_cons, List.not_mem_nil, or_false] at hc
  rcases hc with rfl | rfl | rfl
  · cases hstate
  · cases hret
    exact absurd rfl hbad
  · cases hstate

/-- The child waits for a reply to a request that was not sent. -/
theorem sampleUnsent_run : ∃ p,
    Run (.connect sampleBuf) [sampleRequested, sampleUnsent] p ∧ p.returned = none :=
  ⟨_, ⟨_, sampleAsking_calls, _, sampleAsking_sends .error rfl rfl, rfl⟩, rfl⟩

theorem sampleUnsent_unhandled :
    ¬ ∀ (buf : CharArray) (calls : List Call) (p : Process), Run (.connect buf) calls p →
      FailsCleanly calls p ∧ RepliesToRequests calls := by
  intro h
  obtain ⟨p, hrun, hreturned⟩ := sampleUnsent_run
  obtain ⟨hclean, -⟩ := h _ _ _ hrun
  obtain ⟨-, hp⟩ := hclean [sampleRequested] sampleUnsent [] rfl
    ⟨-1, rfl, by decide⟩ fun d hd => by
      rw [List.mem_singleton] at hd
      rintro ⟨ret, hret, hbad⟩
      rw [hd] at hret hbad
      cases hret
      exact absurd hbad (by decide)
  rw [hreturned] at hp
  cases hp

end Astrologer.Proxy
