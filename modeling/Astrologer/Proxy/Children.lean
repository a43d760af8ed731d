import Astrologer.Generic.RecvLine

/-!
# The child processes of `proxy.c`

The proxy forks two children.  Both inherit the listening socket and *one*
connection to the server, and each of them serves its clients one after the other: it
receives a request line, sends it to the server unless it is to be filtered, receives
the reply line and sends it to the client.

A child is a sequential program that does not stop anywhere but at a system call.  So
a `Process` is a child at a call: `accept`, a `recv` of `recv_line` or a `send` of
`send_all`, with the distance `pos` that the function has come.  `recvLine` and
`sendAll` are one round of these loops, and the handlers are what comes behind them.
`Process.Step` puts it together.  Its label is what can be seen of the step on the
connection to the server.

What a client can do, and what a call that returns can return, is not limited.  The `send` of
`handle_send_request` is: it has something to send, because the length is never `0`
(`Process.Inv`).  A call that does not return is left out: the source leaves `SIGPIPE` as it
is, so a `send` to a peer who receives no more may end the child instead of failing.  This is a
run that is cut short, and `Proxy.Main` has it among the ends of a process.

In the source the result of a failing `send_all` in `handle_send_request` is lost: the
state is set to `STATE_ASTROLOG_ERROR`, and the last statement sets it to
`STATE_RECV_REPLY`.  So it is here.
-/

namespace Astrologer.Proxy

open Lines

/-! ## `send_all` and `recv_line`

Both functions are loops around one system call, so they are given here by one round, with the
distance that they have come as an argument. -/

/-- One round of `recv_line(fd, buf, n, 0)`: the return value, if it returns, the
array, and the distance. -/
def recvLine (buf : CharArray) (pos n : ℕ) : RecvResult → Option ℤ × CharArray × ℕ
  | .error => (some (-1), buf, pos)
  | .bytes bs =>
    let bytes := bs.take (n - pos)
    if bytes = [] then (some 0, buf, pos)
    else
      let buf := buf.memcpy pos bytes
      let pos := pos + bytes.length
      match memchr (buf.slice (pos - bytes.length) bytes.length) delimiter with
      | some del =>
        if pos - bytes.length + del ≠ pos - 1 then (some (-1), buf, pos)
        else (some pos, buf, pos)
      | none => if pos = n then (some (-1), buf, pos) else (none, buf, pos)

/-- One round of `send_all(fd, buf, n, 0)`: the return value, if it returns, and the
distance. -/
def sendAll (pos n : ℕ) : SendResult → Option ℤ × ℕ
  | .error => (some (-1), pos)
  | .count k =>
    let pos := pos + min k (n - pos)
    if pos < n then (none, pos) else (some 0, pos)

/-- The bytes that a `recv` of `recv_line` returns. -/
def recvTaken (pos : ℕ) : RecvResult → List Byte
  | .error => []
  | .bytes bs => bs.take (astrologBufLen - pos)

/-- The bytes that a `send` of `send_all` takes of what it has still to send. -/
def sendTaken (rest : List Byte) : SendResult → List Byte
  | .error => []
  | .count k => rest.take k

/-! ## The handlers

What stands behind the call in each handler, in the words of the source. -/

/-- `enum proxy_state_type`. -/
inductive ProxyStateType
  | stateRecvRequest
  | stateSendDenied
  | stateSendRequest
  | stateRecvReply
  | stateSendReply
  | stateClientError
  | stateAstrologError
  | stateSuccess
  deriving DecidableEq

/-- `struct proxy_state`, less the descriptors. -/
structure ProxyState where
  buf : CharArray
  len : ℕ
  state : ProxyStateType
  deriving DecidableEq

open ProxyStateType

/-- `handle_recv_request`, behind `recv_line`. -/
def handleRecvRequest (bytes : ℤ) (s : ProxyState) : ProxyState :=
  if bytes < 0 then { s with state := stateClientError }
  else if bytes = 0 then { s with state := stateSuccess }
  else
    let n := bytes.toNat
    let s := { s with buf := s.buf.poke (n - 1) 0 }
    if n > clientRequestType.length ∧
        s.buf.slice 0 clientRequestType.length = clientRequestType then
      { buf := s.buf.poke (n - 1) delimiter
        len := n
        state := stateSendRequest }
    else
      { buf := s.buf.memcpy 0 starReplyFailure
        len := starReplyFailure.length
        state := stateSendDenied }

/-- `handle_send_request`, behind `send_all`. -/
def handleSendRequest (ret : ℤ) (s : ProxyState) : ProxyState :=
  let s := if ret ≠ 0 then { s with state := stateAstrologError } else s
  { s with
    buf := s.buf.poke (s.len - 1) 0
    len := 0
    state := stateRecvReply }

/-- `handle_recv_reply`, behind `recv_line`. -/
def handleRecvReply (bytes : ℤ) (s : ProxyState) : ProxyState :=
  if bytes ≤ 0 then { s with state := stateAstrologError }
  else
    let n := bytes.toNat
    { buf := (s.buf.poke (n - 1) 0).poke (n - 1) delimiter
      len := n
      state := stateSendReply }

/-- `handle_send_reply`, behind `send_all`. -/
def handleSendReply (ret : ℤ) (s : ProxyState) : ProxyState :=
  if ret ≠ 0 then { s with state := stateClientError }
  else
    { buf := s.buf.poke (s.len - 1) 0
      len := 0
      state := stateRecvRequest }

/-! ## The process

A child stands at a system call, and a step is the result of it with all that is done up to the
next one.  Between two calls there is no choice, so this is a step relation with one constructor
for each kind of call. -/

/-- A child at its next call.  `pos` is how far the `recv_line` or the `send_all` that it is in
has come. -/
inductive Process
  /-- In `accept`. -/
  | accepting
  /-- In `process_new_connection`. -/
  | serving (s : ProxyState) (pos : ℕ)
  | exited
  deriving DecidableEq

/-- `process_new_connection` with what `accept` returned; `buf` is what stands on the
stack. -/
def Process.connect (buf : CharArray) : Process :=
  .serving ⟨buf.poke astrologBufLen 0, 0, stateRecvRequest⟩ 0

/-- A handler is done, and the child comes to the next call. -/
def Process.resume (s : ProxyState) : Process :=
  match s.state with
  | stateClientError => .accepting
  | stateSuccess => .accepting
  | stateAstrologError => .exited
  | _ => .serving s 0

def Process.afterRecv (handler : ℤ → ProxyState → ProxyState) (s : ProxyState) (pos : ℕ)
    (r : RecvResult) : Process :=
  let call := recvLine s.buf pos astrologBufLen r
  let s := { s with buf := call.2.1 }
  match call.1 with
  | none => .serving s call.2.2
  | some bytes => .resume (handler bytes s)

def Process.afterSend (handler : ℤ → ProxyState → ProxyState) (s : ProxyState) (pos : ℕ)
    (r : SendResult) : Process :=
  let call := sendAll pos s.len r
  match call.1 with
  | none => .serving s call.2
  | some ret => .resume (handler ret s)

/-- What `send_all` has still to send. -/
def ProxyState.rest (s : ProxyState) (pos : ℕ) : List Byte := s.buf.slice pos (s.len - pos)

/-- What the connection to the server sees of a step.  What goes to and comes from the client is
quiet; the modules that speak about it record it themselves. -/
inductive Label
  | quiet
  /-- A `send` took these bytes. -/
  | sent (bs : List Byte)
  | sendFailed
  /-- A `recv` met this. -/
  | received (r : RecvResult)

/-- The steps of a child, one system call each, with the handler behind the last one of a line.  A
call on the client's descriptor has any result; a call on the one of the server has its result in
the label, so that a network can say what is possible. -/
inductive Process.Step : Process → Label → Process → Prop
  | accept (buf : CharArray) : Step .accepting .quiet (.connect buf)
  | acceptFailed : Step .accepting .quiet .exited
  | recvRequest {s : ProxyState} {pos : ℕ} (hs : s.state = stateRecvRequest)
      (r : RecvResult) :
      Step (.serving s pos) .quiet (.afterRecv handleRecvRequest s pos r)
  | sendDenied {s : ProxyState} {pos : ℕ} (hs : s.state = stateSendDenied)
      (r : SendResult) : Step (.serving s pos) .quiet (.afterSend handleSendReply s pos r)
  | sendRequest {s : ProxyState} {pos : ℕ} (hs : s.state = stateSendRequest) (k : ℕ) :
      Step (.serving s pos) (.sent ((s.rest pos).take k))
        (.afterSend handleSendRequest s pos (.count k))
  | sendRequestFailed {s : ProxyState} {pos : ℕ} (hs : s.state = stateSendRequest) :
      Step (.serving s pos) .sendFailed (.afterSend handleSendRequest s pos .error)
  | recvReply {s : ProxyState} {pos : ℕ} (hs : s.state = stateRecvReply)
      (r : RecvResult) :
      Step (.serving s pos) (.received r) (.afterRecv handleRecvReply s pos r)
  | sendReply {s : ProxyState} {pos : ℕ} (hs : s.state = stateSendReply)
      (r : SendResult) : Step (.serving s pos) .quiet (.afterSend handleSendReply s pos r)

/-! ## What `recv_line` makes of the text received

The text that a `recv_line` has received determines what it returns.  All that a handler needs to
know is whether the text is one line, and this is what the lemmas of this section give. -/

/-- The return value, if there is one: a line that is all there is, too much, or a
line that does not fit. -/
def lineRet (text : List Byte) : Option ℤ :=
  if delimiter ∈ text then
    if takeLine delimiter text = text then some text.length else some (-1)
  else if text.length = astrologBufLen then some (-1)
  else none

/-- `recv_line` is in the middle of a line: there is room for a byte more, and what it has holds
no delimiter. -/
structure Receiving (buf : CharArray) (pos : ℕ) : Prop where
  room : pos < astrologBufLen
  text : delimiter ∉ buf.slice 0 pos

section RecvLine

variable {buf : CharArray} {pos : ℕ} {bs : List Byte}

theorem Receiving.length_text (h : Receiving buf pos) :
    (buf.slice 0 pos).length = pos := by
  have hroom := h.room
  rw [CArray.length_slice]
  omega

/-- The round of every `recv_line`. -/
theorem recvLine_eq (buf : CharArray) (pos n : ℕ) (r : RecvResult) :
    recvLine buf pos n r = Generic.recvLineRound buf pos n r := by
  cases r <;> rfl

/-- **One round of `recv_line`** appends what it receives to the text, and returns what the whole
text is worth, if anything. -/
theorem Receiving.recvLine_bytes (h : Receiving buf pos) (hne : bs ≠ [])
    (hlen : pos + bs.length ≤ astrologBufLen) :
    recvLine buf pos astrologBufLen (.bytes bs) =
        (lineRet (buf.slice 0 pos ++ bs), buf.memcpy pos bs, pos + bs.length) ∧
      (buf.memcpy pos bs).slice 0 (pos + bs.length) = buf.slice 0 pos ++ bs := by
  rw [recvLine_eq]
  exact Generic.recvLineRound_bytes h.room (Nat.le_succ _) h.text hne hlen

/-- A `recv` has room for what does not fill the array. -/
theorem recvLine_take (buf : CharArray) (pos : ℕ) (bs : List Byte) :
    recvLine buf pos astrologBufLen (.bytes (bs.take (astrologBufLen - pos))) =
      recvLine buf pos astrologBufLen (.bytes bs) := by
  rw [recvLine_eq, recvLine_eq]
  exact Generic.recvLineRound_upTo buf pos astrologBufLen (.bytes bs)

theorem lineRet_of_isLine {text : List Byte} (h : IsLine delimiter text) :
    lineRet text = some (text.length : ℤ) := by
  obtain ⟨hmem, ht⟩ := isLine_iff.mp h
  rw [lineRet, if_pos hmem, if_pos ht]

/-- More than a line, or a part of the next one. -/
theorem lineRet_of_append {line left : List Byte} (h : IsLine delimiter line)
    (hleft : left ≠ []) : lineRet (line ++ left) = some (-1) := by
  rw [lineRet, if_pos (List.mem_append_left left h.mem), h.takeLine_append, if_neg]
  exact fun heq => hleft (List.self_eq_append_right.mp heq)

/-- A positive result is the length of a line. -/
theorem isLine_of_lineRet {text : List Byte} {ret : ℤ} (h : lineRet text = some ret)
    (hpos : 0 < ret) : IsLine delimiter text ∧ ret = text.length := by
  rw [lineRet] at h
  split at h
  next hmem =>
    split at h
    next htake => exact ⟨isLine_iff.mpr ⟨hmem, htake⟩, (Option.some.inj h).symm⟩
    next => exact absurd (Option.some.inj h ▸ hpos) (by decide)
  next =>
    split at h
    next => exact absurd (Option.some.inj h ▸ hpos) (by decide)
    next => cases h

theorem lineRet_eq_none {text : List Byte} (h : lineRet text = none) :
    delimiter ∉ text ∧ text.length ≠ astrologBufLen := Generic.lineRetIn_eq_none h

theorem lineRet_of_notMem {text : List Byte} (h : delimiter ∉ text)
    (hlt : text.length < astrologBufLen) : lineRet text = none := by
  rw [lineRet, if_neg h, if_neg (Nat.ne_of_lt hlt)]

end RecvLine

section Calls

variable {s : ProxyState} {pos : ℕ} {bs : List Byte} (handler : ℤ → ProxyState → ProxyState)

/-- The line goes on. -/
theorem afterRecv_more (h : Receiving s.buf pos) (hne : bs ≠ [])
    (hlt : pos + bs.length < astrologBufLen) (hnot : delimiter ∉ s.buf.slice 0 pos ++ bs) :
    Process.afterRecv handler s pos (.bytes bs) =
      .serving { s with buf := s.buf.memcpy pos bs } (pos + bs.length) := by
  have hret : lineRet (s.buf.slice 0 pos ++ bs) = none := by
    refine lineRet_of_notMem hnot ?_
    rw [List.length_append, h.length_text]
    exact hlt
  rw [Process.afterRecv, (h.recvLine_bytes hne (Nat.le_of_lt hlt)).1]
  simp only [hret]

/-- The line is complete. -/
theorem afterRecv_line (h : Receiving s.buf pos) (hne : bs ≠ [])
    (hlen : pos + bs.length ≤ astrologBufLen)
    (hline : IsLine delimiter (s.buf.slice 0 pos ++ bs)) :
    Process.afterRecv handler s pos (.bytes bs) =
      .resume (handler (pos + bs.length : ℕ) { s with buf := s.buf.memcpy pos bs }) := by
  have hret : lineRet (s.buf.slice 0 pos ++ bs) = some ((pos + bs.length : ℕ) : ℤ) := by
    rw [lineRet_of_isLine hline, List.length_append, h.length_text]
  rw [Process.afterRecv, (h.recvLine_bytes hne hlen).1]
  simp only [hret]

/-- **A receive** goes on with the line, or completes it, or fails.  The text is what it was,
and the bytes received behind it. -/
theorem afterRecv_cases (h : Receiving s.buf pos) (r : RecvResult) :
    (∃ buf pos', Receiving buf pos' ∧
      buf.slice 0 pos' = s.buf.slice 0 pos ++ recvTaken pos r ∧
      Process.afterRecv handler s pos r = .serving { s with buf := buf } pos') ∨
    (∃ (buf : CharArray) (n : ℕ), n ≤ astrologBufLen ∧ IsLine delimiter (buf.slice 0 n) ∧
      buf.slice 0 n = s.buf.slice 0 pos ++ recvTaken pos r ∧
      Process.afterRecv handler s pos r = .resume (handler n { s with buf := buf })) ∨
    ∃ (buf : CharArray) (ret : ℤ), ret ≤ 0 ∧
      Process.afterRecv handler s pos r = .resume (handler ret { s with buf := buf }) := by
  cases r with
  | error => exact Or.inr (Or.inr ⟨s.buf, -1, by decide, rfl⟩)
  | bytes bs =>
    obtain ⟨cut, hcut⟩ : ∃ cut, cut = bs.take (astrologBufLen - pos) := ⟨_, rfl⟩
    have hsame : Process.afterRecv handler s pos (.bytes bs) =
        Process.afterRecv handler s pos (.bytes cut) := by
      rw [Process.afterRecv, Process.afterRecv, hcut, recvLine_take]
    rw [hsame]
    by_cases hnil : cut = []
    · refine Or.inr (Or.inr ⟨s.buf, 0, Int.le_refl 0, ?_⟩)
      have hrecv : recvLine s.buf pos astrologBufLen (.bytes cut) = (some 0, s.buf, pos) := by
        rw [recvLine, hnil, List.take_nil]
        exact if_pos rfl
      rw [Process.afterRecv, hrecv]
    · have hlen : pos + cut.length ≤ astrologBufLen := by
        have hroom := h.room
        rw [hcut, List.length_take]
        omega
      obtain ⟨hrecv, htext⟩ := h.recvLine_bytes hnil hlen
      by_cases hmem : delimiter ∈ s.buf.slice 0 pos ++ cut
      · by_cases hline : IsLine delimiter (s.buf.slice 0 pos ++ cut)
        · exact Or.inr (Or.inl ⟨_, _, hlen, htext.symm ▸ hline, hcut ▸ htext,
            afterRecv_line handler h hnil hlen hline⟩)
        · refine Or.inr (Or.inr ⟨s.buf.memcpy pos cut, -1, by decide, ?_⟩)
          have hret : lineRet (s.buf.slice 0 pos ++ cut) = some (-1) := by
            rw [lineRet, if_pos hmem, if_neg fun ht => hline (isLine_iff.mpr ⟨hmem, ht⟩)]
          rw [Process.afterRecv, hrecv]
          simp only [hret]
      · by_cases hfull : pos + cut.length = astrologBufLen
        · refine Or.inr (Or.inr ⟨s.buf.memcpy pos cut, -1, by decide, ?_⟩)
          have hret : lineRet (s.buf.slice 0 pos ++ cut) = some (-1) := by
            rw [lineRet, if_neg hmem, List.length_append, h.length_text, if_pos hfull]
          rw [Process.afterRecv, hrecv]
          simp only [hret]
        · have hlt : pos + cut.length < astrologBufLen := Nat.lt_of_le_of_ne hlen hfull
          exact Or.inl ⟨_, _, ⟨hlt, htext.symm ▸ hmem⟩, hcut ▸ htext,
            afterRecv_more handler h hnil hlt hmem⟩

/-- The send leaves something. -/
theorem afterSend_more {k : ℕ} (hlt : pos + min k (s.len - pos) < s.len) :
    Process.afterSend handler s pos (.count k) =
      .serving s (pos + min k (s.len - pos)) := by
  rw [Process.afterSend, sendAll]
  simp only [if_pos hlt]

/-- The send takes the rest. -/
theorem afterSend_done {k : ℕ} (hge : ¬ pos + min k (s.len - pos) < s.len) :
    Process.afterSend handler s pos (.count k) = .resume (handler 0 s) := by
  rw [Process.afterSend, sendAll]
  simp only [if_neg hge]

end Calls

/-! ## The invariant

The comparison with the request type is made on an array in which the delimiter has been
overwritten, so that it is a string; it is restored before the line is sent.  For a whole line the
comparison is the same as on the line itself. -/

/-- `send_all` is in the middle of a line: something is left to send, and the text is one line
that lies in the buffer. -/
structure Sending (s : ProxyState) (pos : ℕ) : Prop where
  left : pos < s.len
  fits : s.len ≤ astrologBufLen
  line : IsLine delimiter (s.buf.slice 0 s.len)

/-- What a child is at, when it makes a call.  It is in one of the five states that call; and a
line that it sends to the server begins with `HOROSCOPE `, which is the whole access control. -/
def Process.Inv : Process → Prop
  | .accepting => True
  | .exited => True
  | .serving s pos =>
    match s.state with
    | stateRecvRequest => Receiving s.buf pos
    | stateSendDenied => Sending s pos
    | stateSendRequest => Sending s pos ∧ clientRequestType <+: s.buf.slice 0 s.len
    | stateRecvReply => Receiving s.buf pos
    | stateSendReply => Sending s pos
    | stateClientError => False
    | stateAstrologError => False
    | stateSuccess => False

section Inv

variable {s : ProxyState} {pos : ℕ}

theorem receiving_zero (buf : CharArray) : Receiving buf 0 :=
  ⟨by decide, List.not_mem_nil⟩

/-- To write over the delimiter and to write it again. -/
theorem slice_poke_poke {buf : CharArray} {n : ℕ} (hn : n ≤ astrologBufLen)
    (hline : IsLine delimiter (buf.slice 0 n)) (x : Byte) :
    ((buf.poke (n - 1) x).poke (n - 1) delimiter).slice 0 n = buf.slice 0 n := by
  obtain ⟨text, -, htext⟩ := hline
  have hlen := congrArg List.length htext
  rw [CArray.length_slice, List.length_append, List.length_singleton] at hlen
  have hn' : n - 1 + [delimiter].length = n := by
    rw [List.length_singleton]
    omega
  have hx : n - 1 + [x].length ≤ astrologBufLen + 1 := by
    rw [List.length_singleton]
    omega
  have hfit : n - 1 + [delimiter].length ≤ astrologBufLen + 1 := by omega
  have hsplit := (buf.poke (n - 1) x).slice_memcpy (n - 1) [delimiter] hfit
  rw [hn', CArray.poke, buf.slice_memcpy_of_le [x] (Nat.le_refl (n - 1)) hx] at hsplit
  have hfront : buf.slice 0 (n - 1) = text := by
    have htake := congrArg (List.take (n - 1)) htext
    rw [CArray.take_slice, Nat.min_eq_left (Nat.sub_le n 1),
      List.take_append_of_le_length (by omega),
      List.take_of_length_le (by omega)] at htake
    exact htake
  rw [CArray.poke, CArray.poke, hsplit, hfront, htext]

/-- A line has something in it. -/
theorem pos_of_isLine_slice {buf : CharArray} {n : ℕ}
    (hline : IsLine delimiter (buf.slice 0 n)) : 0 < n := by
  refine Nat.pos_of_ne_zero fun h0 => hline.ne_nil ?_
  rw [h0, CArray.slice_zero]

/-- **The comparison of `handle_recv_request`**, which stands behind the write over the
delimiter, sees the beginning of the line. -/
theorem requestType_iff {buf : CharArray} {n : ℕ} (hn : n ≤ astrologBufLen)
    (hline : IsLine delimiter (buf.slice 0 n)) :
    (n > clientRequestType.length ∧
        (buf.poke (n - 1) 0).slice 0 clientRequestType.length = clientRequestType) ↔
      clientRequestType <+: buf.slice 0 n := by
  have hpos := pos_of_isLine_slice hline
  have hfit : n - 1 + [(0 : Byte)].length ≤ astrologBufLen + 1 := by
    rw [List.length_singleton]
    omega
  have hfront : n > clientRequestType.length →
      (buf.poke (n - 1) 0).slice 0 clientRequestType.length =
        (buf.slice 0 n).take clientRequestType.length := by
    intro hlong
    rw [CArray.poke, buf.slice_memcpy_of_le [0] (Nat.le_sub_one_of_lt hlong) hfit,
      CArray.take_slice, Nat.min_eq_left (Nat.le_of_lt hlong)]
  constructor
  · rintro ⟨hlong, heq⟩
    rw [List.prefix_iff_eq_take, ← hfront hlong, heq]
  · intro hpre
    -- the delimiter is behind the type
    have hlong : n > clientRequestType.length := by
      obtain ⟨text, -, htext⟩ := hline
      have hlen := congrArg List.length htext
      rw [CArray.length_slice, List.length_append, List.length_singleton] at hlen
      rw [htext] at hpre
      rcases List.prefix_concat_iff.mp hpre with heq | hpre
      · exact absurd (heq ▸ List.mem_append_right text List.mem_cons_self)
          (show delimiter ∉ clientRequestType by decide)
      · have hle := hpre.length_le
        omega
    exact ⟨hlong, (hfront hlong).trans (List.prefix_iff_eq_take.mp hpre).symm⟩

/-- A line of the clients' type is kept to be sent. -/
theorem handleRecvRequest_client {n : ℕ} (hn : n ≤ astrologBufLen)
    (hline : IsLine delimiter (s.buf.slice 0 n)) (hclient : clientRequestType <+: s.buf.slice 0 n) :
    ∃ buf : CharArray, buf.slice 0 n = s.buf.slice 0 n ∧
      Process.resume (handleRecvRequest n s) = .serving ⟨buf, n, stateSendRequest⟩ 0 := by
  have hpos := pos_of_isLine_slice hline
  have hneg : ¬ (n : ℤ) < 0 := by omega
  have hzero : ¬ (n : ℤ) = 0 := by omega
  rw [handleRecvRequest, if_neg hneg, if_neg hzero]
  simp only [Int.toNat_natCast, if_pos ((requestType_iff hn hline).mpr hclient)]
  exact ⟨_, slice_poke_poke hn hline 0, rfl⟩

/-- Any other line is denied. -/
theorem handleRecvRequest_filtered {n : ℕ} (hn : n ≤ astrologBufLen)
    (hline : IsLine delimiter (s.buf.slice 0 n))
    (hother : ¬ clientRequestType <+: s.buf.slice 0 n) :
    ∃ buf : CharArray, buf.slice 0 starReplyFailure.length = starReplyFailure ∧
      Process.resume (handleRecvRequest n s) =
        .serving ⟨buf, starReplyFailure.length, stateSendDenied⟩ 0 := by
  have hpos := pos_of_isLine_slice hline
  have hneg : ¬ (n : ℤ) < 0 := by omega
  have hzero : ¬ (n : ℤ) = 0 := by omega
  rw [handleRecvRequest, if_neg hneg, if_neg hzero]
  simp only [Int.toNat_natCast, if_neg (mt (requestType_iff hn hline).mp hother)]
  exact ⟨_, CArray.slice_memcpy_zero _ starReplyFailure (by decide), rfl⟩

/-- **A request line is received**: it is kept to be sent, or it is denied.  In both cases the
child is about to send a line that lies in its buffer. -/
theorem handleRecvRequest_line {n : ℕ} (hn : n ≤ astrologBufLen)
    (hline : IsLine delimiter (s.buf.slice 0 n)) :
    (Process.resume (handleRecvRequest n s)).Inv := by
  by_cases hclient : clientRequestType <+: s.buf.slice 0 n
  · obtain ⟨buf, hbuf, hres⟩ := handleRecvRequest_client hn hline hclient
    rw [hres]
    exact ⟨⟨pos_of_isLine_slice hline, hn, hbuf.symm ▸ hline⟩, hbuf.symm ▸ hclient⟩
  · obtain ⟨buf, hbuf, hres⟩ := handleRecvRequest_filtered hn hline hclient
    have hfits : starReplyFailure.length ≤ astrologBufLen := by decide
    rw [hres]
    refine ⟨Nat.zero_lt_succ 7, hfits, ?_⟩
    show IsLine delimiter (buf.slice 0 starReplyFailure.length)
    rw [hbuf]
    exact ⟨str "DENIED!", by decide, by decide⟩

/-- **A reply line is received.** -/
theorem handleRecvReply_line {n : ℕ} (hn : n ≤ astrologBufLen)
    (hline : IsLine delimiter (s.buf.slice 0 n)) :
    ∃ s', Process.resume (handleRecvReply n s) = .serving s' 0 ∧
      s'.state = stateSendReply ∧ s'.buf.slice 0 s'.len = s.buf.slice 0 n ∧
      Sending s' 0 := by
  have hpos := pos_of_isLine_slice hline
  have hsame := slice_poke_poke hn hline 0
  have hle : ¬ (n : ℤ) ≤ 0 := by omega
  rw [handleRecvReply, if_neg hle]
  simp only [Int.toNat_natCast]
  exact ⟨_, rfl, rfl, hsame, hpos, hn, by rw [hsame]; exact hline⟩

theorem resume_handleSendRequest (ret : ℤ) (s : ProxyState) :
    Process.resume (handleSendRequest ret s) =
      .serving ⟨s.buf.poke (s.len - 1) 0, 0, stateRecvReply⟩ 0 := by
  rw [handleSendRequest]
  by_cases hret : ret ≠ 0
  · rw [if_pos hret]
    rfl
  · rw [if_neg hret]
    rfl

/-- A line goes to the client. -/
theorem afterSend_handleSendReply_inv
    (hs : s.state = stateSendDenied ∨ s.state = stateSendReply) (h : Sending s pos)
    (r : SendResult) : (Process.afterSend handleSendReply s pos r).Inv := by
  cases r with
  | error => trivial
  | count k =>
    by_cases hlt : pos + min k (s.len - pos) < s.len
    · rw [afterSend_more handleSendReply hlt]
      have hnext : Sending s (pos + min k (s.len - pos)) := ⟨hlt, h.fits, h.line⟩
      rw [Process.Inv]
      rcases hs with hs | hs <;> rw [hs] <;> exact hnext
    · rw [afterSend_done handleSendReply hlt]
      exact receiving_zero _

/-- **Every step of a child keeps its invariant.**  A call goes on with its line, or completes it
and the handler is read by its own lemma, or fails. -/
theorem Process.Step.inv {p p' : Process} {l : Label} (h : p.Step l p') (hinv : p.Inv) :
    p'.Inv := by
  cases h with
  | accept buf => exact receiving_zero _
  | acceptFailed => trivial
  | @recvRequest s pos hs r =>
    have hrecv : Receiving s.buf pos := by rwa [Process.Inv, hs] at hinv
    rcases afterRecv_cases handleRecvRequest hrecv r with ⟨buf, pos', hr, -, heq⟩ |
      ⟨buf, n, hn, hline, -, heq⟩ | ⟨buf, ret, hret, heq⟩
    · rw [heq, Process.Inv, hs]
      exact hr
    · rw [heq]
      exact handleRecvRequest_line hn hline
    · rw [heq, handleRecvRequest]
      by_cases hneg : ret < 0
      · rw [if_pos hneg]
        trivial
      · rw [if_neg hneg, if_pos (by omega)]
        trivial
  | @sendDenied s pos hs r =>
    have hsend : Sending s pos := by rwa [Process.Inv, hs] at hinv
    exact afterSend_handleSendReply_inv (Or.inl hs) hsend r
  | @sendRequest s pos hs k =>
    have hsend : Sending s pos ∧ clientRequestType <+: s.buf.slice 0 s.len := by
      rwa [Process.Inv, hs] at hinv
    by_cases hlt : pos + min k (s.len - pos) < s.len
    · rw [afterSend_more handleSendRequest hlt, Process.Inv, hs]
      exact ⟨⟨hlt, hsend.1.fits, hsend.1.line⟩, hsend.2⟩
    · rw [afterSend_done handleSendRequest hlt, resume_handleSendRequest]
      exact receiving_zero _
  | @sendRequestFailed s pos hs =>
    show (Process.resume (handleSendRequest (-1) s)).Inv
    rw [resume_handleSendRequest]
    exact receiving_zero _
  | @recvReply s pos hs r =>
    have hrecv : Receiving s.buf pos := by rwa [Process.Inv, hs] at hinv
    rcases afterRecv_cases handleRecvReply hrecv r with ⟨buf, pos', hr, -, heq⟩ |
      ⟨buf, n, hn, hline, -, heq⟩ | ⟨buf, ret, hret, heq⟩
    · rw [heq, Process.Inv, hs]
      exact hr
    · obtain ⟨s', hres, hst, -, hsend⟩ :=
        handleRecvReply_line (s := { s with buf := buf }) hn hline
      rw [heq, hres, Process.Inv, hst]
      exact hsend
    · rw [heq, handleRecvReply, if_pos hret]
      trivial
  | @sendReply s pos hs r =>
    have hsend : Sending s pos := by rwa [Process.Inv, hs] at hinv
    exact afterSend_handleSendReply_inv (Or.inr hs) hsend r

end Inv

end Astrologer.Proxy
