import Astrologer.Boost.Deadline
import Astrologer.Library.Asio

/-!
# The operations of a connection

A connection of the server or of the proxy has two chains of handlers: the handlers of
its reads and writes, and `handleDeadline`.  A handler of the first chain sets the timer
and starts the next operation, and one of the second chain starts the next wait; every
other path goes through `stop()`, also the one inside `parseZodiac`.

Here both classes are written as objects with asynchronous operations (`Library.Asio`),
so that nothing but the handlers says how many operations are under way, and which
buffer they use.  `handle_eq` goes through the paths of a handler: it does what it does
in `Boost.Connection` and `Boost.Proxy`, where the one operation under way is a part of
the connection, and it starts this operation.  `one_operation_one_wait` is what follows
for every run.
-/

namespace Astrologer.Boost

open Asio (Object System)

/-- The handlers distinguish success only. -/
def errorCode : Asio.ErrorCode → ErrorCode
  | .success => .success
  | _ => .eof

theorem errorCode_ne_success {ec : Asio.ErrorCode} :
    errorCode ec ≠ .success ↔ ec ≠ .success := by
  cases ec <;> simp [errorCode]

/-! ## The server

The handlers of `server.cpp` once more, now with the operations that they start, each with its
socket, its buffer and its handler.  What they do to the data is the same as before, and this is
shown below. -/

namespace Async

inductive Socket
  | socket
  deriving DecidableEq

inductive Buffer
  | buffer
  deriving DecidableEq

inductive Handler
  | handleReadRequest
  | handleReadPrognosis (zodiac : List Byte)
  | handleWriteResponse

/-- `Connection` of `server.cpp`. -/
abbrev Connection := Object Socket Buffer (List Byte) Handler PrognosisManager

namespace Connection

def stop (c : Connection) : Connection := (c.close .socket).cancel

def stopped (c : Connection) : Bool := !c.isOpen .socket

def startReadRequest (c : Connection) : Connection :=
  (c.expiresAfter readRequestTimeout).start .handleReadRequest .socket .buffer

def startWaitDeadline (c : Connection) : Connection := c.asyncWait

def start (c : Connection) : Connection := c.startReadRequest.startWaitDeadline

/-- `std::getline(is, line, DELIM)`. -/
def getline (c : Connection) : List Byte × Connection :=
  let buffer := c.read .buffer
  let line := Boost.getline buffer.1
  (line.1, buffer.2.write .buffer line.2)

/-- `os << text << DELIM`. -/
def putLine (c : Connection) (text : List Byte) : Connection :=
  let buffer := c.read .buffer
  buffer.2.write .buffer (buffer.1 ++ (text ++ [delim]))

def parseZodiac (c : Connection) (zodiacWithRem : List Byte) :
    Option (List Byte) × Connection :=
  match findZodiac zodiacWithRem with
  | none => (none, c.stop)
  | some zodiac => (some zodiac, c)

def startWriteResponse (c : Connection) : Connection :=
  (c.expiresAfter writeResponseTimeout).start .handleWriteResponse .socket .buffer

def handleReadRequest (c : Connection) (ec : Asio.ErrorCode) : Connection :=
  if c.stopped then c
  else if ec ≠ .success then c.stop
  else
    let line := c.getline
    let request := line.1
    let c := line.2
    if startsWith request starRequestType then
      match c.parseZodiac (cStr request starRequestType.length) with
      | (none, c) => c
      | (some zodiac, c) =>
        (c.expiresAfter readPrognosisTimeout).start (.handleReadPrognosis zodiac) .socket .buffer
    else if startsWith request clientRequestType then
      match c.parseZodiac (cStr request clientRequestType.length) with
      | (none, c) => c
      | (some zodiac, c) =>
        match c.data.getPrognosis zodiac with
        | some response => (c.putLine response).startWriteResponse
        | none => (c.putLine unknownPrognosis).startWriteResponse
    else c.stop

def handleReadPrognosis (c : Connection) (ec : Asio.ErrorCode) (zodiac : List Byte) :
    Connection :=
  if c.stopped then c
  else if ec ≠ .success then c.stop
  else
    let line := c.getline
    let prognosis := line.1
    let c : Connection := { line.2 with data := line.2.data.setPrognosis zodiac prognosis }
    (c.putLine starResponseSuccess).startWriteResponse

def handleWriteResponse (c : Connection) (ec : Asio.ErrorCode) : Connection :=
  if c.stopped then c
  else if ec ≠ .success then c.stop
  else c.startReadRequest

def handleDeadline (c : Connection) (ec : Asio.ErrorCode) : Connection :=
  if c.stopped then c
  else if ec = .operationAborted then c.startWaitDeadline
  else c.stop

end Connection

def timeout : Handler → ℕ
  | .handleReadRequest => readRequestTimeout
  | .handleReadPrognosis _ => readPrognosisTimeout
  | .handleWriteResponse => writeResponseTimeout

def handle (handler : Handler) (c : Connection) (ec : Asio.ErrorCode) : Connection :=
  match handler with
  | .handleReadRequest => c.handleReadRequest ec
  | .handleReadPrognosis zodiac => c.handleReadPrognosis ec zodiac
  | .handleWriteResponse => c.handleWriteResponse ec

/-- The connections of the server in their event loop. -/
def system : System Socket Buffer (List Byte) Handler PrognosisManager where
  sockets := [.socket]
  timeout := timeout
  start := Connection.start
  handle := handle
  handleDeadline := Connection.handleDeadline

/-! ### The paths of the handlers

The lists of operations are left out (`view`), and then the handlers are the ones of
`Boost.Connection`; so what is known of the data need not be proved again.  What is new is that
each path ends with one operation or none. -/

def Handler.operation : Handler → Operation
  | .handleReadRequest => .readRequest
  | .handleReadPrognosis zodiac => .readPrognosis zodiac
  | .handleWriteResponse => .writeResponse

/-- The connection when an operation has completed. -/
def Connection.view (c : Connection) (operation : Operation) : Boost.Connection where
  buffer := c.buffers .buffer
  operation := operation
  prognosisManager := c.data
  reads := []
  closes := false
  writes := []

/-- The connection when its handler has returned. -/
def Connection.after (c : Connection) (d : Boost.Connection) : Connection :=
  let c : Connection := { c with buffers := fun _ => d.buffer, data := d.prognosisManager }
  match d.operation with
  | .readRequest => c.startReadRequest
  | .readPrognosis zodiac =>
    (c.expiresAfter readPrognosisTimeout).start (.handleReadPrognosis zodiac) .socket .buffer
  | .writeResponse => c.startWriteResponse
  | .stopped => c.stop

variable {c : Connection}

theorem update_buffers (buffers : Buffer → List Byte) (content : List Byte) :
    Function.update buffers .buffer content = fun _ => content := by
  funext b
  exact Function.update_self b content buffers

theorem Connection.getline_of_nil (h : c.operations = []) :
    c.getline = ((Boost.getline (c.buffers .buffer)).1,
      { c with buffers := fun _ => (Boost.getline (c.buffers .buffer)).2 }) := by
  rw [getline, Object.read_of_nil h]
  dsimp only
  rw [Object.write_of_nil h, update_buffers]

theorem Connection.putLine_of_nil (h : c.operations = []) (text : List Byte) :
    c.putLine text =
      { c with buffers := fun _ => c.buffers .buffer ++ (text ++ [delim]) } := by
  rw [putLine, Object.read_of_nil h]
  dsimp only
  rw [Object.write_of_nil h, update_buffers]

theorem handleReadRequest_eq (hopen : c.stopped = false) (hnil : c.operations = [])
    (ec : Asio.ErrorCode) :
    c.handleReadRequest ec =
      c.after ((c.view .readRequest).handleReadRequest (errorCode ec)) := by
  rw [Connection.handleReadRequest, hopen, if_neg (by decide)]
  by_cases hec : ec ≠ .success
  · rw [if_pos hec, Boost.Connection.handleReadRequest, if_pos (errorCode_ne_success.mpr hec)]
    rfl
  · rw [if_neg hec, Boost.Connection.handleReadRequest,
      if_neg (mt errorCode_ne_success.mp hec), Connection.getline_of_nil hnil]
    dsimp only [Connection.view]
    cases startsWith (Boost.getline (c.buffers .buffer)).1 starRequestType with
    | true =>
      rw [if_pos rfl, if_pos rfl, Connection.parseZodiac]
      cases findZodiac (cStr (Boost.getline (c.buffers .buffer)).1 starRequestType.length) <;> rfl
    | false =>
      rw [if_neg Bool.false_ne_true, if_neg Bool.false_ne_true]
      cases startsWith (Boost.getline (c.buffers .buffer)).1 clientRequestType with
      | true =>
        rw [if_pos rfl, if_pos rfl, Connection.parseZodiac]
        cases findZodiac (cStr (Boost.getline (c.buffers .buffer)).1 clientRequestType.length) with
        | none => rfl
        | some zodiac =>
          dsimp only
          cases c.data.getPrognosis zodiac with
          | none =>
            refine congrArg Connection.startWriteResponse (Connection.putLine_of_nil ?_ _)
            exact hnil
          | some response =>
            refine congrArg Connection.startWriteResponse (Connection.putLine_of_nil ?_ _)
            exact hnil
      | false => rfl

theorem handleReadPrognosis_eq (hopen : c.stopped = false) (hnil : c.operations = [])
    (ec : Asio.ErrorCode) (zodiac : List Byte) :
    c.handleReadPrognosis ec zodiac =
      c.after ((c.view (.readPrognosis zodiac)).handleReadPrognosis (errorCode ec) zodiac) := by
  rw [Connection.handleReadPrognosis, hopen, if_neg (by decide)]
  by_cases hec : ec ≠ .success
  · rw [if_pos hec, Boost.Connection.handleReadPrognosis, if_pos (errorCode_ne_success.mpr hec)]
    rfl
  · rw [if_neg hec, Boost.Connection.handleReadPrognosis,
      if_neg (mt errorCode_ne_success.mp hec), Connection.getline_of_nil hnil]
    refine congrArg Connection.startWriteResponse (Connection.putLine_of_nil ?_ _)
    exact hnil

theorem handleWriteResponse_eq (hopen : c.stopped = false) (ec : Asio.ErrorCode) :
    c.handleWriteResponse ec =
      c.after ((c.view .writeResponse).handleWriteResponse (errorCode ec)) := by
  rw [Connection.handleWriteResponse, hopen, if_neg (by decide)]
  by_cases hec : ec ≠ .success
  · rw [if_pos hec, Boost.Connection.handleWriteResponse, if_pos (errorCode_ne_success.mpr hec)]
    rfl
  · rw [if_neg hec, Boost.Connection.handleWriteResponse,
      if_neg (mt errorCode_ne_success.mp hec)]
    rfl

/-- **A handler does what it does in `Boost.Connection`**, and then it stops the connection
or starts the next operation. -/
theorem handle_eq (handler : Handler) (hopen : c.stopped = false) (hnil : c.operations = [])
    (ec : Asio.ErrorCode) :
    handle handler c ec = c.after ((c.view handler.operation).handle (errorCode ec)) := by
  cases handler with
  | handleReadRequest => exact handleReadRequest_eq hopen hnil ec
  | handleReadPrognosis zodiac => exact handleReadPrognosis_eq hopen hnil ec zodiac
  | handleWriteResponse => exact handleWriteResponse_eq hopen ec

/-- Each way to go on is one that the event loop allows. -/
theorem Connection.moves_after (c : Connection) (d : Boost.Connection) :
    system.Moves c (c.after d) := by
  rw [after]
  cases d.operation with
  | readRequest =>
    exact .start _ _ Handler.handleReadRequest Socket.socket Buffer.buffer List.mem_cons_self
  | readPrognosis zodiac =>
    exact .start _ _ (Handler.handleReadPrognosis zodiac) Socket.socket Buffer.buffer
      List.mem_cons_self
  | writeResponse =>
    exact .start _ _ Handler.handleWriteResponse Socket.socket Buffer.buffer List.mem_cons_self
  | stopped => exact .stop _ _

theorem stopped_eq (c : Connection) : Object.stopped c system.sockets = c.stopped :=
  Bool.or_false _

theorem lawful : system.Lawful where
  sockets := List.cons_ne_nil _ _
  start c _ := ⟨.handleReadRequest, .socket, List.mem_cons_self, .buffer, rfl⟩
  handle_stopped handler c ec h := by
    rw [stopped_eq] at h
    cases handler <;> exact if_pos h
  handle_open handler c ec hopen hnil := by
    rw [stopped_eq] at hopen
    show system.Moves c (handle handler c ec)
    rw [handle_eq handler hopen hnil ec]
    exact Connection.moves_after c _
  deadline_stopped c ec h := by
    rw [stopped_eq] at h
    exact if_pos h
  deadline_aborted c hopen := by
    rw [stopped_eq] at hopen
    exact (if_neg (Bool.eq_false_iff.mp hopen)).trans (if_pos rfl)
  deadline_elapsed c ec hopen hec := by
    rw [stopped_eq] at hopen
    exact (if_neg (Bool.eq_false_iff.mp hopen)).trans (if_neg hec)

end Async

/-! ## The proxy

The same for `proxy.cpp`, whose connections have two sockets and two buffers. -/

namespace Proxy.Async

inductive Socket
  | connectionSocket
  | clientSocket
  deriving DecidableEq

inductive Buffer
  | connectionBuffer
  | clientBuffer
  deriving DecidableEq

inductive Handler
  | handleReadRequest
  | handleWriteRequest
  | handleReadResponse
  | handleWriteResponse

/-- `Connection` of `proxy.cpp`. -/
abbrev Connection := Object Socket Buffer (List Byte) Handler Unit

namespace Connection

def stop (c : Connection) : Connection :=
  ((c.close .connectionSocket).close .clientSocket).cancel

def stopped (c : Connection) : Bool := !c.isOpen .connectionSocket || !c.isOpen .clientSocket

def startReadRequest (c : Connection) : Connection :=
  (c.expiresAfter readRequestTimeout).start .handleReadRequest .clientSocket .clientBuffer

def startWaitDeadline (c : Connection) : Connection := c.asyncWait

def start (c : Connection) : Connection := c.startReadRequest.startWaitDeadline

/-- `std::getline(is, line, DELIM)`. -/
def getline (c : Connection) (b : Buffer) : List Byte × Connection :=
  let buffer := c.read b
  let line := Boost.getline buffer.1
  (line.1, buffer.2.write b line.2)

/-- `os << text << DELIM`. -/
def putLine (c : Connection) (b : Buffer) (text : List Byte) : Connection :=
  let buffer := c.read b
  buffer.2.write b (buffer.1 ++ (text ++ [delim]))

/-- `consume(size())`. -/
def clear (c : Connection) (b : Buffer) : Connection := (c.read b).2.write b []

def startWriteResponse (c : Connection) : Connection :=
  (c.expiresAfter writeResponseTimeout).start .handleWriteResponse .clientSocket .clientBuffer

def handleReadRequest (c : Connection) (ec : Asio.ErrorCode) : Connection :=
  if c.stopped then c
  else if ec ≠ .success then c.stop
  else
    let line := c.getline .clientBuffer
    let request := line.1
    let c := line.2
    if startsWith request starRequestType then
      let c := c.clear .clientBuffer
      (c.putLine .clientBuffer starResponseFailure).startWriteResponse
    else
      ((c.putLine .connectionBuffer request).expiresAfter writeRequestTimeout).start
        .handleWriteRequest .connectionSocket .connectionBuffer

def handleWriteRequest (c : Connection) (ec : Asio.ErrorCode) : Connection :=
  if c.stopped then c
  else if ec ≠ .success then c.stop
  else
    (c.expiresAfter readResponseTimeout).start .handleReadResponse .connectionSocket
      .connectionBuffer

def handleReadResponse (c : Connection) (ec : Asio.ErrorCode) : Connection :=
  if c.stopped then c
  else if ec ≠ .success then c.stop
  else
    let line := c.getline .connectionBuffer
    let response := line.1
    let c := line.2
    (c.putLine .clientBuffer response).startWriteResponse

def handleWriteResponse (c : Connection) (ec : Asio.ErrorCode) : Connection :=
  if c.stopped then c
  else if ec ≠ .success then c.stop
  else c.startReadRequest

def handleDeadline (c : Connection) (ec : Asio.ErrorCode) : Connection :=
  if c.stopped then c
  else if ec = .operationAborted then c.startWaitDeadline
  else c.stop

end Connection

def timeout : Handler → ℕ
  | .handleReadRequest => readRequestTimeout
  | .handleWriteRequest => writeRequestTimeout
  | .handleReadResponse => readResponseTimeout
  | .handleWriteResponse => writeResponseTimeout

def handle (handler : Handler) (c : Connection) (ec : Asio.ErrorCode) : Connection :=
  match handler with
  | .handleReadRequest => c.handleReadRequest ec
  | .handleWriteRequest => c.handleWriteRequest ec
  | .handleReadResponse => c.handleReadResponse ec
  | .handleWriteResponse => c.handleWriteResponse ec

/-- The connections of the proxy in their event loop. -/
def system : System Socket Buffer (List Byte) Handler Unit where
  sockets := [.connectionSocket, .clientSocket]
  timeout := timeout
  start := Connection.start
  handle := handle
  handleDeadline := Connection.handleDeadline

/-! ### The paths of the handlers

In the same way the handlers are the ones of `Boost.Proxy`. -/

def Handler.operation : Handler → Operation
  | .handleReadRequest => .readRequest
  | .handleWriteRequest => .writeRequest
  | .handleReadResponse => .readResponse
  | .handleWriteResponse => .writeResponse

/-- The connection when an operation has completed. -/
def Connection.view (c : Connection) (operation : Operation) : Proxy.Connection where
  clientBuffer := c.buffers .clientBuffer
  connectionBuffer := c.buffers .connectionBuffer
  operation := operation

/-- The connection when its handler has returned. -/
def Connection.after (c : Connection) (d : Proxy.Connection) : Connection :=
  let c : Connection := { c with
    buffers := fun b => match b with
      | .connectionBuffer => d.connectionBuffer
      | .clientBuffer => d.clientBuffer }
  match d.operation with
  | .readRequest => c.startReadRequest
  | .writeRequest =>
    (c.expiresAfter writeRequestTimeout).start .handleWriteRequest .connectionSocket
      .connectionBuffer
  | .readResponse =>
    (c.expiresAfter readResponseTimeout).start .handleReadResponse .connectionSocket
      .connectionBuffer
  | .writeResponse => c.startWriteResponse
  | .stopped => c.stop

variable {c : Connection}

theorem Connection.getline_of_nil (h : c.operations = []) (b : Buffer) :
    c.getline b = ((Boost.getline (c.buffers b)).1,
      { c with buffers := Function.update c.buffers b (Boost.getline (c.buffers b)).2 }) := by
  rw [getline, Object.read_of_nil h]
  dsimp only
  rw [Object.write_of_nil h]

theorem Connection.putLine_of_nil (h : c.operations = []) (b : Buffer) (text : List Byte) :
    c.putLine b text = { c with
      buffers := Function.update c.buffers b (c.buffers b ++ (text ++ [delim])) } := by
  rw [putLine, Object.read_of_nil h]
  dsimp only
  rw [Object.write_of_nil h]

theorem Connection.clear_of_nil (h : c.operations = []) (b : Buffer) :
    c.clear b = { c with buffers := Function.update c.buffers b [] } := by
  rw [clear, Object.read_of_nil h, Object.write_of_nil h]

theorem Connection.congr_buffers (next : Connection → Connection)
    {buffers buffers' : Buffer → List Byte}
    (hconnection : buffers .connectionBuffer = buffers' .connectionBuffer)
    (hclient : buffers .clientBuffer = buffers' .clientBuffer) :
    next { c with buffers := buffers } = next { c with buffers := buffers' } := by
  have heq : buffers = buffers' := by
    funext b
    cases b with
    | connectionBuffer => exact hconnection
    | clientBuffer => exact hclient
  rw [heq]

theorem handleReadRequest_eq (hopen : c.stopped = false) (hnil : c.operations = [])
    (ec : Asio.ErrorCode) :
    c.handleReadRequest ec =
      c.after ((c.view .readRequest).handleReadRequest (errorCode ec)) := by
  rw [Connection.handleReadRequest, hopen, if_neg Bool.false_ne_true]
  by_cases hec : ec ≠ .success
  · rw [if_pos hec, Proxy.Connection.handleReadRequest, if_pos (errorCode_ne_success.mpr hec)]
    exact Connection.congr_buffers Connection.stop rfl rfl
  · rw [if_neg hec, Proxy.Connection.handleReadRequest,
      if_neg (mt errorCode_ne_success.mp hec), Connection.getline_of_nil hnil]
    dsimp only [Connection.view]
    cases startsWith (Boost.getline (c.buffers .clientBuffer)).1 starRequestType with
    | true =>
      rw [if_pos rfl, if_pos rfl, Connection.clear_of_nil, Connection.putLine_of_nil]
      · exact Connection.congr_buffers Connection.startWriteResponse rfl rfl
      · exact hnil
      · exact hnil
    | false =>
      rw [if_neg Bool.false_ne_true, if_neg Bool.false_ne_true, Connection.putLine_of_nil]
      · exact Connection.congr_buffers (fun c => (c.expiresAfter writeRequestTimeout).start
          .handleWriteRequest .connectionSocket .connectionBuffer) rfl rfl
      · exact hnil

theorem handleWriteRequest_eq (hopen : c.stopped = false) (ec : Asio.ErrorCode) :
    c.handleWriteRequest ec =
      c.after ((c.view .writeRequest).handleWriteRequest (errorCode ec)) := by
  rw [Connection.handleWriteRequest, hopen, if_neg Bool.false_ne_true]
  by_cases hec : ec ≠ .success
  · rw [if_pos hec, Proxy.Connection.handleWriteRequest, if_pos (errorCode_ne_success.mpr hec)]
    exact Connection.congr_buffers Connection.stop rfl rfl
  · rw [if_neg hec, Proxy.Connection.handleWriteRequest,
      if_neg (mt errorCode_ne_success.mp hec)]
    exact Connection.congr_buffers (fun c => (c.expiresAfter readResponseTimeout).start
      .handleReadResponse .connectionSocket .connectionBuffer) rfl rfl

theorem handleReadResponse_eq (hopen : c.stopped = false) (hnil : c.operations = [])
    (ec : Asio.ErrorCode) :
    c.handleReadResponse ec =
      c.after ((c.view .readResponse).handleReadResponse (errorCode ec)) := by
  rw [Connection.handleReadResponse, hopen, if_neg Bool.false_ne_true]
  by_cases hec : ec ≠ .success
  · rw [if_pos hec, Proxy.Connection.handleReadResponse, if_pos (errorCode_ne_success.mpr hec)]
    exact Connection.congr_buffers Connection.stop rfl rfl
  · rw [if_neg hec, Proxy.Connection.handleReadResponse,
      if_neg (mt errorCode_ne_success.mp hec), Connection.getline_of_nil hnil]
    dsimp only
    rw [Connection.putLine_of_nil]
    · exact Connection.congr_buffers Connection.startWriteResponse rfl rfl
    · exact hnil

theorem handleWriteResponse_eq (hopen : c.stopped = false) (ec : Asio.ErrorCode) :
    c.handleWriteResponse ec =
      c.after ((c.view .writeResponse).handleWriteResponse (errorCode ec)) := by
  rw [Connection.handleWriteResponse, hopen, if_neg Bool.false_ne_true]
  by_cases hec : ec ≠ .success
  · rw [if_pos hec, Proxy.Connection.handleWriteResponse, if_pos (errorCode_ne_success.mpr hec)]
    exact Connection.congr_buffers Connection.stop rfl rfl
  · rw [if_neg hec, Proxy.Connection.handleWriteResponse,
      if_neg (mt errorCode_ne_success.mp hec)]
    exact Connection.congr_buffers Connection.startReadRequest rfl rfl

/-- **A handler does what it does in `Boost.Proxy`**, and then it stops the connection or
starts the next operation. -/
theorem handle_eq (handler : Handler) (hopen : c.stopped = false) (hnil : c.operations = [])
    (ec : Asio.ErrorCode) :
    handle handler c ec = c.after ((c.view handler.operation).handle (errorCode ec)) := by
  cases handler with
  | handleReadRequest => exact handleReadRequest_eq hopen hnil ec
  | handleWriteRequest => exact handleWriteRequest_eq hopen ec
  | handleReadResponse => exact handleReadResponse_eq hopen hnil ec
  | handleWriteResponse => exact handleWriteResponse_eq hopen ec

/-- Each way to go on is one that the event loop allows. -/
theorem Connection.moves_after (c : Connection) (d : Proxy.Connection) :
    system.Moves c (c.after d) := by
  have hclient : Socket.clientSocket ∈ system.sockets := .tail _ (.head _)
  rw [after]
  cases d.operation with
  | readRequest =>
    exact .start _ _ Handler.handleReadRequest Socket.clientSocket Buffer.clientBuffer hclient
  | writeRequest =>
    exact .start _ _ Handler.handleWriteRequest Socket.connectionSocket Buffer.connectionBuffer
      List.mem_cons_self
  | readResponse =>
    exact .start _ _ Handler.handleReadResponse Socket.connectionSocket Buffer.connectionBuffer
      List.mem_cons_self
  | writeResponse =>
    exact .start _ _ Handler.handleWriteResponse Socket.clientSocket Buffer.clientBuffer hclient
  | stopped => exact .stop _ _

theorem stopped_eq (c : Connection) : Object.stopped c system.sockets = c.stopped :=
  congrArg (!c.isOpen .connectionSocket || ·) (Bool.or_false _)

theorem lawful : system.Lawful where
  sockets := List.cons_ne_nil _ _
  start c _ := ⟨.handleReadRequest, .clientSocket, .tail _ (.head _), .clientBuffer, rfl⟩
  handle_stopped handler c ec h := by
    rw [stopped_eq] at h
    cases handler <;> exact if_pos h
  handle_open handler c ec hopen hnil := by
    rw [stopped_eq] at hopen
    show system.Moves c (handle handler c ec)
    rw [handle_eq handler hopen hnil ec]
    exact Connection.moves_after c _
  deadline_stopped c ec h := by
    rw [stopped_eq] at h
    exact if_pos h
  deadline_aborted c hopen := by
    rw [stopped_eq] at hopen
    exact (if_neg (Bool.eq_false_iff.mp hopen)).trans (if_pos rfl)
  deadline_elapsed c ec hopen hec := by
    rw [stopped_eq] at hopen
    exact (if_neg (Bool.eq_false_iff.mp hopen)).trans (if_neg hec)

end Proxy.Async

/-! ## Both parties

Both are lawful kinds of objects, and the general theory of `Library.Asio` does the rest. -/

/-- **One operation and one timer.**  In every run of a connection of the server and of one
of the proxy, for every order of the handlers and all error codes: while it is not stopped,
one operation and one wait are under way, the timer was set for this operation, and no
other handler uses its buffer; once it is stopped it starts nothing, and it is released
when its handlers were called. -/
theorem one_operation_one_wait :
    (∀ c : Async.Connection, Async.system.Reachable c → Async.system.Disciplined c) ∧
      ∀ c : Proxy.Async.Connection, Proxy.Async.system.Reachable c →
        Proxy.Async.system.Disciplined c :=
  ⟨fun _ h => Async.lawful.disciplined h, fun _ h => Proxy.Async.lawful.disciplined h⟩

/-- A connection of the server that was accepted. -/
def Async.sampleAccepted : Async.Connection where
  now := 0
  turn := 0
  isOpen _ := true
  buffers _ := []
  data _ := none
  operations := []
  expiry := 0
  setIn := 0
  waits := []
  races := []

/-- A connection of the proxy with its client. -/
def Proxy.Async.sampleAccepted : Proxy.Async.Connection where
  now := 0
  turn := 0
  isOpen _ := true
  buffers _ := []
  data := ()
  operations := []
  expiry := 0
  setIn := 0
  waits := []
  races := []

/-- A request has been read: the server writes the response. -/
def Async.sampleAsked : Async.Connection :=
  Async.Connection.handleReadRequest { Async.sampleAccepted.start with
    operations := []
    buffers := Function.update Async.sampleAccepted.start.buffers .buffer
      (str "HOROSCOPE Aries\n")
    turn := 1 } .success

/-- A request has been read: the proxy writes it to the server. -/
def Proxy.Async.sampleAsked : Proxy.Async.Connection :=
  Proxy.Async.Connection.handleReadRequest { Proxy.Async.sampleAccepted.start with
    operations := []
    buffers := Function.update Proxy.Async.sampleAccepted.start.buffers .clientBuffer
      (str "HOROSCOPE Aries\n")
    turn := 1 } .success

theorem Async.sampleAsked_reachable : Async.system.Reachable Async.sampleAsked := by
  have hread : Async.system.Run Async.sampleAccepted.start _ :=
    .single ⟨.complete, .complete [] [] _ .success (str "HOROSCOPE Aries\n") rfl rfl⟩
  exact ⟨Async.sampleAccepted, ⟨rfl, rfl, rfl, rfl⟩, hread.tail ⟨.handle, .handle [] []
    ⟨Handler.handleReadRequest, Socket.socket, Buffer.buffer, 0, 0, some .success⟩ .success rfl rfl⟩⟩

theorem Proxy.Async.sampleAsked_reachable :
    Proxy.Async.system.Reachable Proxy.Async.sampleAsked := by
  have hread : Proxy.Async.system.Run Proxy.Async.sampleAccepted.start _ :=
    .single ⟨.complete, .complete [] [] _ .success (str "HOROSCOPE Aries\n") rfl rfl⟩
  exact ⟨Proxy.Async.sampleAccepted, ⟨rfl, rfl, rfl, rfl⟩, hread.tail ⟨.handle, .handle [] []
    ⟨Handler.handleReadRequest, Socket.clientSocket, Buffer.clientBuffer, 0, 0, some .success⟩
    .success rfl rfl⟩⟩

theorem sampleAsked_disciplined :
    (Async.sampleAsked.operations.map (·.handler) = [.handleWriteResponse] ∧
      Async.system.Disciplined Async.sampleAsked) ∧
    Proxy.Async.sampleAsked.operations.map (·.handler) = [.handleWriteRequest] ∧
      Proxy.Async.system.Disciplined Proxy.Async.sampleAsked :=
  ⟨⟨rfl, one_operation_one_wait.1 _ Async.sampleAsked_reachable⟩, rfl,
    one_operation_one_wait.2 _ Proxy.Async.sampleAsked_reachable⟩

end Astrologer.Boost
