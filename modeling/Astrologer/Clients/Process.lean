import Astrologer.Proxy.Denial

/-!
# The clients of `client.c`

A client connects, makes a number of exchanges one after the other, and closes the socket.
An exchange is a call of `star_client` or of `ordinary_client`: `star_client_all` and
`ordinary_client_all` go through the zodiacs, and the children of `harmful_client` take
them at random.  Here the exchanges to come are any list.

`star_client` sends its two lines one behind the other, and then it waits for one reply;
`ordinary_client` sends one line.  The result of `send_all` and of `recv_line` decides
whether the function goes on, and the first failure ends the client.

As a child of the proxy, a client is a sequential program that stops at system calls.  So
a `Process` is a client at a call, with the distance that `send_all` or `recv_line` has
come, and `sendAll` and `recvLine` are one round of these loops.  The stack may hold
anything when a function is entered.
-/

namespace Astrologer.Clients

open Lines
open Proxy (StarPair decimal recvLine sendAll Receiving receiving_zero lineRet
  lineRet_of_isLine lineRet_of_notMem)

/-! ## The functions

What the two functions do between their calls.  The request line is written in place, without a
check of its length; that it fits is a fact about the names. -/

/-- A call of `star_client`, with what `rand() % PROGNOSE_LIMIT` gives, or of
`ordinary_client`. -/
inductive Exchange
  | star (pair : StarPair)
  | ordinary (zodiacIx : Fin zodiacNum)

/-- The system call that a function is at: a `send` of `send_all`, for one of the two texts, or a
`recv` of `recv_line`. -/
inductive Call
  | sendRequest
  | sendPrognosis
  | recvReply
  deriving DecidableEq

/-- The local variables of `star_client` and `ordinary_client`: the buffer, how much of it the
text takes, and the call that is next. -/
structure Locals where
  buf : CharArray
  pos : ℕ
  call : Call

/-- The request type, the zodiac and the delimiter are written, and `pos` is behind
them. -/
def writeRequest (type zodiac : List Byte) (buf : CharArray) : CharArray × ℕ :=
  let buf := buf.memcpy 0 type
  let pos := type.length
  let buf := buf.memcpy pos zodiac
  let pos := pos + zodiac.length
  (buf.poke pos delimiter, pos + 1)

/-- Up to the first `send_all`. -/
def Exchange.enter (job : Exchange) (buf : CharArray) : Locals :=
  let buf := buf.poke astrologBufLen 0
  let written :=
    match job with
    | .star pair => writeRequest starRequestType (getZodiac pair.zodiacIx) buf
    | .ordinary z => writeRequest clientRequestType (getZodiac z) buf
  ⟨written.1, written.2, .sendRequest⟩

/-- Behind the `send_all` of the request; nothing is `EXIT_FAILURE`. -/
def Exchange.requestSent (job : Exchange) (ret : ℤ) (s : Locals) : Option Locals :=
  if ret ≠ 0 then none
  else
    let buf := s.buf.poke (s.pos - 1) 0
    match job with
    | .star pair =>
      let bytes := (decimal pair.number).length
      let buf := buf.memcpy 0 (decimal pair.number ++ [0])
      some ⟨buf.poke bytes delimiter, bytes + 1, .sendPrognosis⟩
    | .ordinary _ => some ⟨buf, s.pos, .recvReply⟩

/-- Behind the `send_all` of the prognosis. -/
def prognosisSent (ret : ℤ) (s : Locals) : Option Locals :=
  if ret ≠ 0 then none else some ⟨s.buf.poke (s.pos - 1) 0, s.pos, .recvReply⟩

/-- The exit status, behind `recv_line`.  A denial is a reply too. -/
def exitStatus (bytes : ℤ) : ℤ := if bytes ≤ 0 then 1 else 0

/-! ## The process

A client makes one call after the other, with nothing in between that depends on others.  A call
that fails ends its function with `EXIT_FAILURE` and the loop with it. -/

/-- A client at its next call.  `todo` is what it is going to ask for; `dist` is how far the
`send_all` or the `recv_line` that it is in has come. -/
inductive Process
  /-- In `connect`. -/
  | connecting (todo : List Exchange)
  /-- In the loop, between two exchanges. -/
  | idle (todo : List Exchange)
  | calling (job : Exchange) (s : Locals) (dist : ℕ) (todo : List Exchange)
  /-- The socket has been closed. -/
  | returned

/-- The function goes on, or the loop is left. -/
def Process.resume (job : Exchange) (todo : List Exchange) : Option Locals → Process
  | some s => .calling job s 0 todo
  | none => .idle []

def Process.afterSend (handler : ℤ → Locals → Option Locals) (job : Exchange) (s : Locals)
    (dist : ℕ) (todo : List Exchange) (r : SendResult) : Process :=
  let call := sendAll dist s.pos r
  match call.1 with
  | none => .calling job s call.2 todo
  | some ret => .resume job todo (handler ret s)

def Process.afterRecv (job : Exchange) (s : Locals) (dist : ℕ) (todo : List Exchange)
    (r : RecvResult) : Process :=
  let call := recvLine s.buf dist astrologBufLen r
  match call.1 with
  | none => .calling job { s with buf := call.2.1 } call.2.2 todo
  | some bytes => if exitStatus bytes ≠ 0 then .idle [] else .idle todo

/-- What can be seen of a step on the connection; it is what the step of the client has in common
with the connection (`Link.client`). -/
inductive Act
  | connect
  /-- A function is entered. -/
  | enter
  /-- A `send` took these bytes. -/
  | sent (bs : List Byte)
  | sendFailed
  /-- A `recv` returned this. -/
  | received (r : RecvResult)
  | close
  deriving DecidableEq

/-- What a `send` that meets `r` shows. -/
def Locals.sends (s : Locals) (dist : ℕ) : SendResult → Act
  | .error => .sendFailed
  | .count k => .sent ((s.buf.slice dist (s.pos - dist)).take k)

/-- The steps of a client: it connects, enters one of its two functions, makes a call of `send` or
`recv`, or closes its socket.  Every `send` may take a part of what it is offered, or fail; every
`recv` may bring any bytes that there is room for, the end of the stream or an error.  What is
really possible the connection decides. -/
inductive Process.Step : Process → Act → Process → Prop
  | connect (todo : List Exchange) : Step (.connecting todo) .connect (.idle todo)
  | enter (job : Exchange) (todo : List Exchange) (buf : CharArray) :
      Step (.idle (job :: todo)) .enter (.calling job (job.enter buf) 0 todo)
  | close : Step (.idle []) .close .returned
  | sendRequest (job : Exchange) {s : Locals} (hs : s.call = .sendRequest) (dist : ℕ)
      (todo : List Exchange) (r : SendResult) :
      Step (.calling job s dist todo) (s.sends dist r)
        (.afterSend job.requestSent job s dist todo r)
  | sendPrognosis (job : Exchange) {s : Locals} (hs : s.call = .sendPrognosis) (dist : ℕ)
      (todo : List Exchange) (r : SendResult) :
      Step (.calling job s dist todo) (s.sends dist r)
        (.afterSend prognosisSent job s dist todo r)
  /-- A `recv` returns no more than it has room for. -/
  | recvReply (job : Exchange) {s : Locals} (hs : s.call = .recvReply) (dist : ℕ)
      (todo : List Exchange) {r : RecvResult}
      (hr : ∀ bs, r = .bytes bs → bs.length ≤ astrologBufLen - dist) :
      Step (.calling job s dist todo) (.received r) (.afterRecv job s dist todo r)

section Inversion

variable {c c' : Process}

theorem Process.Step.of_connect (h : c.Step .connect c') :
    ∃ todo, c = .connecting todo ∧ c' = .idle todo := by
  generalize hact : Act.connect = act at h
  cases h with
  | connect todo => exact ⟨todo, rfl, rfl⟩
  | enter job todo buf => cases hact
  | close => cases hact
  | sendRequest job hs dist todo r => cases r <;> cases hact
  | sendPrognosis job hs dist todo r => cases r <;> cases hact
  | recvReply job hs dist todo hr => cases hact

theorem Process.Step.of_enter (h : c.Step .enter c') : ∃ job todo buf,
    c = .idle (job :: todo) ∧ c' = .calling job (job.enter buf) 0 todo := by
  generalize hact : Act.enter = act at h
  cases h with
  | connect todo => cases hact
  | enter job todo buf => exact ⟨job, todo, buf, rfl, rfl⟩
  | close => cases hact
  | sendRequest job hs dist todo r => cases r <;> cases hact
  | sendPrognosis job hs dist todo r => cases r <;> cases hact
  | recvReply job hs dist todo hr => cases hact

theorem Process.Step.of_close (h : c.Step .close c') : c = .idle [] ∧ c' = .returned := by
  generalize hact : Act.close = act at h
  cases h with
  | connect todo => cases hact
  | enter job todo buf => cases hact
  | close => exact ⟨rfl, rfl⟩
  | sendRequest job hs dist todo r => cases r <;> cases hact
  | sendPrognosis job hs dist todo r => cases r <;> cases hact
  | recvReply job hs dist todo hr => cases hact

theorem Process.Step.of_received {r : RecvResult} (h : c.Step (.received r) c') :
    ∃ job s dist todo, s.call = .recvReply ∧ c = .calling job s dist todo ∧
      (∀ bs, r = .bytes bs → bs.length ≤ astrologBufLen - dist) ∧
      c' = .afterRecv job s dist todo r := by
  generalize hact : Act.received r = act at h
  cases h with
  | connect todo => cases hact
  | enter job todo buf => cases hact
  | close => cases hact
  | sendRequest job hs dist todo r => cases r <;> cases hact
  | sendPrognosis job hs dist todo r => cases r <;> cases hact
  | recvReply job hs dist todo hr =>
    cases hact
    exact ⟨_, _, _, _, hs, rfl, hr, rfl⟩

end Inversion

/-! ## What is sent and received

What is left of the request text, and what has come of the reply, are read off the place and the
buffer.  The invariant says that the buffer has what the place promises. -/

/-- The request line. -/
def Exchange.request : Exchange → List Byte
  | .star pair => pair.request
  | .ordinary z => clientRequestType ++ getZodiac z ++ [delimiter]

/-- The line behind the request, if there is one. -/
def Exchange.prognosis : Exchange → List Byte
  | .star pair => pair.prognosis
  | .ordinary _ => []

/-- All that is sent in an exchange. -/
def Exchange.text (job : Exchange) : List Byte := job.request ++ job.prognosis

/-- The exchange that a client is in. -/
def Process.job : Process → Option Exchange
  | .calling job _ _ _ => some job
  | .connecting _ => none
  | .idle _ => none
  | .returned => none

/-- The exchanges behind that. -/
def Process.todo : Process → List Exchange
  | .calling _ _ _ todo => todo
  | .connecting todo => todo
  | .idle todo => todo
  | .returned => []

/-- What is still to be sent in an exchange. -/
def Process.unsent : Process → List Byte
  | .calling job s dist _ =>
    match s.call with
    | .sendRequest => job.request.drop dist ++ job.prognosis
    | .sendPrognosis => job.prognosis.drop dist
    | .recvReply => []
  | .connecting _ => []
  | .idle _ => []
  | .returned => []

/-- What there is of the reply. -/
def Process.got : Process → List Byte
  | .calling _ s dist _ =>
    match s.call with
    | .sendRequest => []
    | .sendPrognosis => []
    | .recvReply => s.buf.slice 0 dist
  | .connecting _ => []
  | .idle _ => []
  | .returned => []

/-- `send_all` is in the middle of a text: the text stands in the buffer, and there is something
left of it, so no `send` is of length `0`. -/
structure Offers (s : Locals) (dist : ℕ) (text : List Byte) : Prop where
  length : text.length = s.pos
  text : s.buf.slice 0 s.pos = text
  left : dist < s.pos

/-- What a client is at, when it makes a call: the text of the exchange stands in its buffer, or
the beginning of a line, without a delimiter and with room behind it. -/
def Process.Inv : Process → Prop
  | .calling job s dist _ =>
    match s.call with
    | .sendRequest => Offers s dist job.request
    | .sendPrognosis => Offers s dist job.prognosis
    | .recvReply => Receiving s.buf dist
  | .connecting _ => True
  | .idle _ => True
  | .returned => True

/-! ## The lines

The texts are lines, they fit, and `send_all` takes them off at the front, in any pieces. -/

theorem writeRequest_text {type zodiac : List Byte}
    (hfit : type.length + zodiac.length < astrologBufLen) (buf : CharArray) :
    (writeRequest type zodiac buf).1.slice 0 (writeRequest type zodiac buf).2 =
      type ++ zodiac ++ [delimiter] := by
  have hpos : type.length + zodiac.length + [delimiter].length ≤ astrologBufLen + 1 := by
    rw [List.length_singleton]
    omega
  have hline := ((buf.memcpy 0 type).memcpy type.length zodiac).slice_memcpy
    (type.length + zodiac.length) [delimiter] hpos
  rw [(buf.memcpy 0 type).slice_memcpy type.length zodiac (by omega),
    buf.slice_memcpy_zero type (by omega)] at hline
  exact hline

/-- The lines of `star_client` and `ordinary_client` fit into the buffer. -/
theorem request_fits : ∀ z < zodiacNum,
    starRequestType.length + (getZodiac z).length < astrologBufLen ∧
      clientRequestType.length + (getZodiac z).length < astrologBufLen := by decide

theorem Exchange.enter_offers (job : Exchange) (buf : CharArray) :
    Offers (job.enter buf) 0 job.request := by
  cases job with
  | star pair =>
    refine ⟨?_, writeRequest_text (request_fits _ pair.zodiac_lt).1 _, Nat.succ_pos _⟩
    show (starRequestType ++ getZodiac pair.zodiacIx ++ [delimiter]).length = _
    rw [List.length_append, List.length_append, List.length_singleton]
    rfl
  | ordinary z =>
    refine ⟨?_, writeRequest_text (request_fits _ z.isLt).2 _, Nat.succ_pos _⟩
    show (clientRequestType ++ getZodiac z ++ [delimiter]).length = _
    rw [List.length_append, List.length_append, List.length_singleton]
    rfl

/-- `sprintf`, and the delimiter in place of the terminator. -/
theorem prognosis_text {number : ℕ} (h : number < Proxy.prognoseLimit) (buf : CharArray) :
    ((buf.memcpy 0 (decimal number ++ [0])).poke (decimal number).length delimiter).slice 0
      ((decimal number).length + 1) = decimal number ++ [delimiter] := by
  have hlen := Proxy.length_decimal_le h
  have hfit : (decimal number).length + [delimiter].length ≤ astrologBufLen + 1 := by
    rw [List.length_singleton, astrologBufLen]
    omega
  have hzero : (decimal number ++ [0]).length ≤ astrologBufLen + 1 := by
    rw [List.length_append, List.length_singleton, astrologBufLen]
    omega
  have hdigits : (buf.memcpy 0 (decimal number ++ [0])).slice 0 (decimal number).length =
      decimal number := by
    have hall := buf.slice_memcpy_zero (decimal number ++ [0]) hzero
    have htake := congrArg (List.take (decimal number).length) hall
    rwa [CArray.take_slice, List.length_append, Nat.min_eq_left (Nat.le_add_right _ _),
      List.take_left] at htake
  have hline := (buf.memcpy 0 (decimal number ++ [0])).slice_memcpy (decimal number).length
    [delimiter] hfit
  rw [hdigits] at hline
  exact hline

section Sends

variable {job : Exchange} {s : Locals} {dist : ℕ} {text : List Byte}

theorem Offers.rest (h : Offers s dist text) :
    s.buf.slice dist (s.pos - dist) = text.drop dist := by
  rw [← h.text, CArray.drop_slice, Nat.zero_add]

/-- **One round of `send_all`**: it goes on with less to send, or everything is sent; what the
`send` has taken is the front of what was left. -/
theorem Offers.sendAll (h : Offers s dist text) (k : ℕ) :
    (sendAll dist s.pos (.count k) = (none, dist + min k (s.pos - dist)) ∧
      Offers s (dist + min k (s.pos - dist)) text ∧
      text.drop dist = (text.drop dist).take k ++ text.drop (dist + min k (s.pos - dist))) ∨
    (sendAll dist s.pos (.count k) = (some 0, dist + min k (s.pos - dist)) ∧
      text.drop dist = (text.drop dist).take k) := by
  have hlen := h.length
  have htake : (text.drop dist).take k = (text.drop dist).take (min k (s.pos - dist)) := by
    rw [List.take_eq_take_min, List.length_drop, hlen]
  by_cases hlt : dist + min k (s.pos - dist) < s.pos
  · refine Or.inl ⟨?_, ⟨hlen, h.text, hlt⟩, ?_⟩
    · rw [Proxy.sendAll]
      exact if_pos hlt
    · rw [htake, ← List.drop_drop, List.take_append_drop]
  · refine Or.inr ⟨?_, ?_⟩
    · rw [Proxy.sendAll]
      exact if_neg hlt
    · rw [List.take_of_length_le]
      rw [List.length_drop, hlen]
      omega

/-- A `send` on the way: `bs` is what it has taken, in front of what was not sent, and the client
is at the same exchange and has received nothing. -/
structure Sent (bs : List Byte) (c c' : Process) : Prop where
  inv : c'.Inv
  unsent : c.unsent = bs ++ c'.unsent
  got : c.got = [] ∧ c'.got = []
  job : c'.job = c.job
  todo : c'.todo = c.todo

/-- What stands behind a line that is sent: the client is at the same exchange, and `rest` is what
it has to send yet. -/
structure Behind (job : Exchange) (todo : List Exchange) (rest : List Byte) (c : Process) :
    Prop where
  inv : c.Inv
  unsent : c.unsent = rest
  got : c.got = []
  job : c.job = some job
  todo : c.todo = todo

/-- One round of `send_all`, with the handler behind it. -/
theorem Offers.afterSend {todo : List Exchange} {rest : List Byte}
    (handler : ℤ → Locals → Option Locals) (h : Offers s dist text)
    (hcalling : ∀ d, Offers s d text →
      Behind job todo (text.drop d ++ rest) (.calling job s d todo))
    (hnext : Behind job todo rest (.resume job todo (handler 0 s))) (k : ℕ) :
    Sent ((s.buf.slice dist (s.pos - dist)).take k) (.calling job s dist todo)
      (.afterSend handler job s dist todo (.count k)) := by
  have hnow := hcalling dist h
  rw [h.rest, Process.afterSend]
  rcases h.sendAll k with ⟨hcall, hoffers, hsplit⟩ | ⟨hcall, hall⟩
  · rw [hcall]
    have hthen := hcalling _ hoffers
    refine ⟨hthen.inv, ?_, ⟨hnow.got, hthen.got⟩, rfl, rfl⟩
    rw [hnow.unsent, hthen.unsent, ← List.append_assoc, ← hsplit]
  · rw [hcall]
    refine ⟨hnext.inv, ?_, ⟨hnow.got, hnext.got⟩, hnext.job, hnext.todo⟩
    rw [hnow.unsent, hnext.unsent, ← hall]

theorem Exchange.requestSent_behind (job : Exchange) (s : Locals) (todo : List Exchange) :
    Behind job todo job.prognosis (.resume job todo (job.requestSent 0 s)) := by
  cases job with
  | star pair =>
    refine ⟨⟨?_, prognosis_text pair.number_lt _, Nat.succ_pos _⟩, rfl, rfl, rfl, rfl⟩
    show (decimal pair.number ++ [delimiter]).length = _
    rw [List.length_append, List.length_singleton]
  | ordinary z => exact ⟨receiving_zero _, rfl, rfl, rfl, rfl⟩

/-- **What a `send` does.** -/
theorem Process.Step.sent {c c' : Process} {bs : List Byte} (h : c.Step (.sent bs) c')
    (hinv : c.Inv) : Sent bs c c' := by
  generalize hact : Act.sent bs = a at h
  cases h with
  | connect todo => cases hact
  | enter job todo buf => cases hact
  | close => cases hact
  | recvReply job hs dist todo hr => cases hact
  | @sendRequest job s hs dist todo r =>
    simp only [Process.Inv, hs] at hinv
    cases r with
    | error => cases hact
    | count k =>
      cases hact
      refine hinv.afterSend job.requestSent (fun d hd => ?_) (job.requestSent_behind s todo) k
      refine ⟨?_, ?_, ?_, rfl, rfl⟩
      · simpa only [Process.Inv, hs] using hd
      · simp only [Process.unsent, hs]
      · simp only [Process.got, hs]
  | @sendPrognosis job s hs dist todo r =>
    simp only [Process.Inv, hs] at hinv
    cases r with
    | error => cases hact
    | count k =>
      cases hact
      have hnext : Behind job todo [] (.resume job todo (prognosisSent 0 s)) :=
        ⟨receiving_zero _, rfl, rfl, rfl, rfl⟩
      refine hinv.afterSend prognosisSent (fun d hd => ?_) hnext k
      refine ⟨?_, ?_, ?_, rfl, rfl⟩
      · simpa only [Process.Inv, hs] using hd
      · simp only [Process.unsent, hs, List.append_nil]
      · simp only [Process.got, hs]

end Sends

/-! ## Replies

`recv_line` needs the reply to be one line that fits; then it goes on until the last byte, and no
longer. -/

/-- What `recv_line` returns is a whole reply: its length is the return value, the buffer begins
with it, and as it is a line nothing behind it has been received. -/
structure Replied (job : Exchange) (s : Locals) (dist : ℕ) (bs reply : List Byte) : Prop where
  call : s.call = .recvReply
  ret : (recvLine s.buf dist astrologBufLen (.bytes bs)).1 = some (reply.length : ℤ)
  text : (recvLine s.buf dist astrologBufLen (.bytes bs)).2.1.slice 0 reply.length = reply
  line : IsLine delimiter reply

/-- **What a `recv` does** with a part of a reply: the reply goes on, or it is complete and
`recv_line` returns its length. -/
theorem Process.Step.received {c c' : Process} {bs more reply : List Byte}
    (h : c.Step (.received (.bytes bs)) c') (hinv : c.Inv) (hne : bs ≠ [])
    (hreply : IsLine delimiter reply) (hfit : reply.length ≤ astrologBufLen)
    (htext : c.got ++ (bs ++ more) = reply) :
    ∃ job s dist, c = .calling job s dist c.todo ∧
      ((more ≠ [] ∧ (∃ s' dist', c' = .calling job s' dist' c.todo) ∧ c'.Inv ∧
          (recvLine s.buf dist astrologBufLen (.bytes bs)).1 = none ∧
          c'.unsent = [] ∧ c'.got = c.got ++ bs) ∨
        (more = [] ∧ c' = .idle c.todo ∧ Replied job s dist bs reply)) := by
  obtain ⟨job, s, dist, todo, hs, rfl, hr, rfl⟩ := h.of_received
  have hgot : (Process.calling job s dist todo).got = s.buf.slice 0 dist := by
    simp only [Process.got, hs]
  rw [hgot] at htext ⊢
  simp only [Process.Inv, hs] at hinv
  have hroom := hinv.room
  have hlen : dist + bs.length ≤ astrologBufLen := by
    have hbs := hr bs rfl
    omega
  obtain ⟨hcall, hslice⟩ := hinv.recvLine_bytes hne hlen
  refine ⟨job, s, dist, rfl, ?_⟩
  rw [Process.afterRecv, hcall]
  by_cases hmore : more = []
  · rw [hmore, List.append_nil] at htext
    rw [htext] at hcall hslice ⊢
    have hdist : dist + bs.length = reply.length := by
      rw [← htext, List.length_append, hinv.length_text]
    rw [lineRet_of_isLine hreply] at hcall ⊢
    have hpos : ¬ (reply.length : ℤ) ≤ 0 := by
      have hne := List.length_pos_iff.mpr hreply.ne_nil
      omega
    refine Or.inr ⟨hmore, ?_, hs, by rw [hcall], ?_, hreply⟩
    · simp only [exitStatus, if_neg hpos]
      rfl
    · rw [hcall, ← hdist]
      exact hslice
  · have hnot : delimiter ∉ s.buf.slice 0 dist ++ bs := by
      intro hmem
      rw [← List.append_assoc] at htext
      exact hmore (hreply.eq_nil_of_mem htext.symm hmem)
    have hlt : (s.buf.slice 0 dist ++ bs).length < astrologBufLen := by
      have hlong := congrArg List.length htext
      have hpos := List.length_pos_iff.mpr hmore
      rw [← List.append_assoc, List.length_append] at hlong
      omega
    have hnone := lineRet_of_notMem hnot hlt
    rw [List.length_append, hinv.length_text] at hlt
    rw [hnone] at hcall ⊢
    refine Or.inl ⟨hmore, ⟨_, _, rfl⟩, ?_, ?_, ?_, ?_⟩
    · simp only [Process.Inv, hs]
      exact ⟨hlt, hslice.symm ▸ hnot⟩
    · rfl
    · simp only [Process.unsent, hs]
    · simp only [Process.got, hs]
      exact hslice

end Astrologer.Clients
