import Astrologer.Generic

/-!
# The handlers of `astrolog.c`

`update_state` runs one handler a round, chosen by the state of the connection.
A handler reads and writes the structure of its own connection, the table of
prognoses and the socket, and nothing else --- with one exception.  The handlers
that begin a new phase end with the call `update_server_state_ts(s, heap)`, which
sets a new deadline and moves the connection in the timeout heap.

That call is the last statement wherever it occurs, so a handler is a function
that says whether it is reached: the result carries `After.updateTs`, and
`Server.UpdateState` makes the call.  The fields that only the heap uses, `ts` and
`heap_ix`, are left to that module too (`ServerState` extends `ConnState`), so the
whole protocol is here and knows nothing of heaps and clocks.

`cur_pos` is the distance from `s->buf`; `rem` is only ever decreased by what was
taken out of it and is a natural number.
-/

namespace Astrologer

/-- `enum server_state_type`. -/
inductive ServerStateType
  | stateRecvFirstLine
  | stateRecvH
  | stateSendThanks
  | stateSendH
  | stateError
  | stateSuccess
  deriving DecidableEq

/-- `enum fd_operation`. -/
inductive FdOperation
  | opRead
  | opWrite
  deriving DecidableEq

/-- `struct server_state`, less `ts` and `heap_ix`. -/
structure ConnState where
  intermBuf : Buffer
  buf : CharArray
  curPos : ℕ
  rem : ℕ
  zodiacIx : ℕ
  state : ServerStateType
  op : FdOperation

/-- `zodiac_prognosises`, one row for each index; the rows below `zodiacNum` are
those of the array. -/
abbrev Table := ℕ → CharArray

/-- What a handler works on. -/
structure Ctx where
  s : ConnState
  zodiacPrognosises : Table
  io : Io

/-- How a handler ends. -/
inductive After
  | done
  /-- `update_server_state_ts(s, heap)` is the last statement. -/
  | updateTs
  deriving DecidableEq

open ServerStateType FdOperation

/-- The assignments of `create_server_state`, over the memory that `malloc` has
returned. -/
def ConnState.create (raw : ConnState) (fd : ℕ) : ConnState where
  intermBuf := ⟨fd, raw.intermBuf.data.poke astrologBufLen 0, 0, 0⟩
  buf := raw.buf.poke astrologBufLen 0
  curPos := 0
  rem := astrologBufLen
  zodiacIx := zodiacUnknown
  state := stateRecvFirstLine
  op := opRead

/-- The distance to the delimiter that `memchr` finds; it is there whenever the
parse functions are called. -/
def delIx (s : ConnState) (ptr : ℕ) : ℕ :=
  (memchr (s.buf.slice ptr (s.curPos - ptr)) delimiter).getD 0

def parseStarFirstLine (c : Ctx) : Ctx × After :=
  let s := c.s
  let ptr := starRequestType.length
  let delPtr := ptr + delIx s ptr
  let zodiacIx := findZodiac (s.buf.slice ptr (delPtr - ptr))
  if zodiacIx < 0 then
    ({ c with s := { s with state := stateError, buf := s.buf.poke delPtr 0 } }, .done)
  else
    let zodiac := getZodiac zodiacIx.toNat
    let ptr := ptr + zodiac.length
    -- has padding
    let buf := if ptr ≠ delPtr then s.buf.poke delPtr 0 else s.buf
    ({ c with s := { s with
        buf := buf
        curPos := 0
        rem := astrologBufLen
        zodiacIx := zodiacIx.toNat
        state := stateRecvH
        op := opRead } }, .updateTs)

/-- The bytes `parse_client_first_line` copies to `s->buf`: the row up to its first
delimiter, or the failure text. -/
def clientReply (row : CharArray) : List Byte :=
  match memchr (row.slice 0 astrologBufLen) delimiter with
  | none => clientReplyFailure
  | some del => row.slice 0 (del + 1)

def parseClientFirstLine (c : Ctx) : Ctx × After :=
  let s := c.s
  let ptr := clientRequestType.length
  let delPtr := ptr + delIx s ptr
  let zodiacIx := findZodiac (s.buf.slice ptr (delPtr - ptr))
  if zodiacIx < 0 then
    ({ c with s := { s with state := stateError, buf := s.buf.poke delPtr 0 } }, .done)
  else
    let zodiac := getZodiac zodiacIx.toNat
    let ptr := ptr + zodiac.length
    -- has padding
    let buf := if ptr ≠ delPtr then s.buf.poke delPtr 0 else s.buf
    let reply := clientReply (c.zodiacPrognosises zodiacIx.toNat)
    ({ c with
        s := { s with
          rem := reply.length
          buf := buf.memcpy 0 reply
          curPos := 0
          state := stateSendH
          op := opWrite }
        io := c.io.log (.request zodiacIx.toNat) }, .updateTs)

/-- The part of `handle_first_line` behind the update of `cur_pos` and `rem`. -/
def firstLineReceived (c : Ctx) : Ctx × After :=
  let s := c.s
  let len := astrologBufLen - s.rem
  if s.buf.slice (s.curPos - 1) 1 = [delimiter] then
    if len > starRequestType.length ∧
        s.buf.slice 0 starRequestType.length = starRequestType then
      parseStarFirstLine c
    else if len > clientRequestType.length ∧
        s.buf.slice 0 clientRequestType.length = clientRequestType then
      parseClientFirstLine c
    else
      ({ c with s := { s with
          state := stateError
          buf := s.buf.poke (s.curPos - 1) 0 } }, .done)
  else if s.rem = 0 then
    ({ c with s := { s with state := stateError } }, .done)
  else
    (c, .done)

def handleFirstLine (c : Ctx) : Ctx × After :=
  let s := c.s
  let r := bufferedRecvUntilDelim s.intermBuf s.buf s.curPos s.rem delimiter c.io
  let received := r.1.1
  let s := { s with intermBuf := r.1.2.1, buf := r.1.2.2 }
  let c := { c with s := s, io := r.2 }
  if received < 0 then
    ({ c with s := { s with state := stateError } }, .done)
  else if received = 0 then
    ({ c with s := { s with
        state := if s.curPos = 0 then stateSuccess else stateError } }, .done)
  else
    firstLineReceived { c with s := { s with
      curPos := s.curPos + received.toNat
      rem := s.rem - received.toNat } }

/-- The part of `handle_recv_h` behind the update of `cur_pos` and `rem`. -/
def prognosisReceived (c : Ctx) : Ctx × After :=
  let s := c.s
  if s.buf.slice (s.curPos - 1) 1 = [delimiter] then
    let line := s.buf.slice 0 (astrologBufLen - s.rem)
    ({ s := { s with
          rem := starReplySuccess.length
          buf := (s.buf.poke (s.curPos - 1) 0).memcpy 0 starReplySuccess
          curPos := 0
          zodiacIx := zodiacUnknown
          state := stateSendThanks
          op := opWrite }
       zodiacPrognosises := Function.update c.zodiacPrognosises s.zodiacIx
          ((c.zodiacPrognosises s.zodiacIx).memcpy 0 line)
       io := c.io.log (.prognosis s.zodiacIx line) }, .updateTs)
  else if s.rem = 0 then
    ({ c with s := { s with state := stateError } }, .done)
  else
    (c, .done)

def handleRecvH (c : Ctx) : Ctx × After :=
  let s := c.s
  let r := bufferedRecvUntilDelim s.intermBuf s.buf s.curPos s.rem delimiter c.io
  let received := r.1.1
  let s := { s with intermBuf := r.1.2.1, buf := r.1.2.2 }
  let c := { c with s := s, io := r.2 }
  if received < 0 then
    ({ c with s := { s with state := stateError } }, .done)
  else if received = 0 then
    ({ c with s := { s with state := stateError } }, .done)
  else
    prognosisReceived { c with s := { s with
      curPos := s.curPos + received.toNat
      rem := s.rem - received.toNat } }

def handleSendReply (c : Ctx) : Ctx × After :=
  let s := c.s
  match c.io.send (s.buf.slice s.curPos s.rem) with
  | (.error, io) => ({ c with s := { s with state := stateError }, io := io }, .done)
  | (.count bytes, io) =>
    let s := { s with curPos := s.curPos + bytes, rem := s.rem - bytes }
    let c := { c with s := s, io := io }
    if s.rem = 0 then
      ({ c with s := { s with
          buf := s.buf.poke (s.curPos - 1) 0
          curPos := 0
          rem := astrologBufLen
          state := stateRecvFirstLine
          op := opRead } }, .updateTs)
    else
      (c, .done)

/-- The `switch` of `update_state`. -/
def handleState (c : Ctx) : Ctx × After :=
  match c.s.state with
  | stateRecvFirstLine => handleFirstLine c
  | stateRecvH => handleRecvH c
  | stateSendThanks => handleSendReply c
  | stateSendH => handleSendReply c
  | stateError => (c, .done)
  | stateSuccess => (c, .done)

/-- The condition of the `do`-`while` loop of `update_state`. -/
def ConnState.goesOn (s : ConnState) : Bool :=
  decide (s.op = opRead) && decide (s.intermBuf.pos ≠ s.intermBuf.len)

end Astrologer
