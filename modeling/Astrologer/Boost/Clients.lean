import Astrologer.Boost.Deadline
import Astrologer.Boost.Pipelining
import Astrologer.Library.Pipe

/-!
# The clients of the Boost server

`Star` and `Human` of `client.cpp` are chains of handlers, as a connection of the server is.
A `Client` is what changes in them: the buffer, the operation under way, and in the end the
response with what is done with it.  What does not change is given by the request that the
client makes (`Request`): the zodiac, the remainder and the prognosis.

Clients and server run at once.  A `Session` is a client with the connection that the server
has for it, and with the two pipes between them.  An operation reads or writes one piece after
the other, and when it is complete its handler is called; between any two of these steps
anything can happen in another session.  The sessions share the prognoses (`World`), and the
trace records when a prognosis is stored and when somebody is told his.

Nothing fails, and no deadline passes.  A client that has its response closes its side, which
the server finds out when it reads.
-/

namespace Astrologer.Boost

/-! ## `client.cpp` -/

/-- The operation under way. -/
inductive ClientOperation
  /-- `async_connect` with `handleConnect`. -/
  | connect
  /-- `async_write` with `handleWriteRequest`. -/
  | writeRequest
  /-- `async_write` with `handleWritePrognosis`, in a star only. -/
  | writePrognosis
  /-- `async_read_until` with `handleReadResponse`. -/
  | readResponse
  /-- `stop()` has closed the socket: no handler starts anything. -/
  | ended
  deriving DecidableEq

/-- What is done with a response. -/
inductive Outcome
  /-- `mOnWorkDoneCb` is called. -/
  | workDone
  /-- It is what the server says when it has nothing better to say. -/
  | printed
  /-- `Bad response`. -/
  | badResponse
  deriving DecidableEq

/-- The response that was read, and what the handler has done about it. -/
structure Report where
  response : List Byte
  outcome : Outcome
  deriving DecidableEq

/-- A client as its handlers see it: the buffer, the operation that is under way, and the response
when there has been one. -/
structure Client where
  buffer : List Byte
  operation : ClientOperation
  report : Option Report

def Client.stop (c : Client) : Client := { c with operation := .ended }

def Client.handleConnect (c : Client) (ec : ErrorCode) : Client :=
  if ec ≠ .success then { c with operation := .ended }
  else { c with operation := .writeRequest }

/-- The last write was made. -/
def Client.startReadResponse (c : Client) (ec : ErrorCode) : Client :=
  if ec ≠ .success then c.stop else { c with operation := .readResponse }

def Client.takeResponse (c : Client) (ec : ErrorCode) (outcome : List Byte → Outcome) : Client :=
  if ec ≠ .success then c.stop
  else
    let line := getline c.buffer
    let response := line.1
    { c with buffer := line.2, report := some ⟨response, outcome response⟩ }
    |>.stop

namespace Star

/-- The constructor. -/
def new (zodiac remainder : List Byte) : Client where
  buffer := starRequestType ++ zodiac ++ remainder ++ [delim]
  operation := .connect
  report := none

def handleWriteRequest (prognosis : List Byte) (c : Client) (ec : ErrorCode) : Client :=
  if ec ≠ .success then c.stop
  else { c with
    buffer := c.buffer ++ (prognosis ++ [delim])
    operation := .writePrognosis }

def handleWritePrognosis (c : Client) (ec : ErrorCode) : Client := c.startReadResponse ec

def outcome (response : List Byte) : Outcome :=
  if response = starResponseSuccess then .workDone
  else if response = Proxy.starResponseFailure then .printed
  else .badResponse

def handleReadResponse (c : Client) (ec : ErrorCode) : Client := c.takeResponse ec outcome

/-- The handler of the operation under way. -/
def handle (prognosis : List Byte) (c : Client) (ec : ErrorCode) : Client :=
  match c.operation with
  | .connect => c.handleConnect ec
  | .writeRequest => handleWriteRequest prognosis c ec
  | .writePrognosis => handleWritePrognosis c ec
  | .readResponse => handleReadResponse c ec
  | .ended => c

end Star

namespace Human

/-- The constructor. -/
def new (zodiac remainder : List Byte) : Client where
  buffer := clientRequestType ++ zodiac ++ remainder ++ [delim]
  operation := .connect
  report := none

def handleWriteRequest (c : Client) (ec : ErrorCode) : Client := c.startReadResponse ec

def outcome (response : List Byte) : Outcome :=
  if response = unknownPrognosis then .printed else .workDone

def handleReadResponse (c : Client) (ec : ErrorCode) : Client := c.takeResponse ec outcome

/-- The handler of the operation under way. -/
def handle (c : Client) (ec : ErrorCode) : Client :=
  match c.operation with
  | .connect => c.handleConnect ec
  | .writeRequest => handleWriteRequest c ec
  | .writePrognosis => c
  | .readResponse => handleReadResponse c ec
  | .ended => c

end Human

/-- The client that makes a request. -/
def Client.new : Request → Client
  | .client name => Human.new name.zodiac name.remainder
  | .star name _ _ => Star.new name.zodiac name.remainder

def Client.handle (r : Request) (c : Client) (ec : ErrorCode) : Client :=
  match r with
  | .client _ => Human.handle c ec
  | .star _ prognosis _ => Star.handle prognosis c ec

/-- `async_write` is under way. -/
def Client.Writes (c : Client) : Prop :=
  c.operation = .writeRequest ∨ c.operation = .writePrognosis

/-! ## A client and its connection

The client is on one side and the server's connection on the other, each with its buffer.  A read
takes pieces until it has a delimiter, a write gives pieces until its buffer is empty, and then
the handler may be called. -/

/-- What has become of the connection.  A client that has been connected is in the backlog of the
server until the server accepts it; it may already send. -/
inductive Stage
  /-- The client has not reached the server. -/
  | offline
  /-- The server has not accepted it. -/
  | backlog
  | accepted
  deriving DecidableEq

/-- A client, the connection of the server that it talks to, and the bytes on the way between
them. -/
structure Session where
  client : Client
  stage : Stage
  /-- On the way to the server. -/
  up : List Byte
  /-- On the way to the client. -/
  down : List Byte
  /-- The server's connection. -/
  buffer : List Byte
  operation : Operation

/-- The client is constructed. -/
def Session.new (r : Request) : Session where
  client := .new r
  stage := .offline
  up := []
  down := []
  buffer := []
  operation := .readRequest

/-- What is worth recording of a step of the server: what it does with the map, which is all that
one connection can notice of another. -/
inductive Entry
  /-- `setPrognosis`. -/
  | stored (zodiac prognosis : List Byte)
  /-- `getPrognosis`. -/
  | asked
  deriving DecidableEq

/-- The connection, with the prognoses that it shares. -/
def Session.connection (s : Session) (m : PrognosisManager) : Connection where
  buffer := s.buffer
  operation := s.operation
  prognosisManager := m
  reads := []
  closes := false
  writes := []

/-- The server's handler of the operation under way. -/
def Session.serve (s : Session) (m : PrognosisManager) (ec : ErrorCode) : Session :=
  let c := (s.connection m).handle ec
  { s with buffer := c.buffer, operation := c.operation }

/-- The prognoses after it. -/
def Session.prognoses (s : Session) (m : PrognosisManager) (ec : ErrorCode) : PrognosisManager :=
  ((s.connection m).handle ec).prognosisManager

/-- What the server's handler does to the prognoses when its operation has succeeded.  A request
line that is answered at once is one for a prognosis; that of a star is followed by another line,
and it is this line that is stored. -/
def Session.entry (s : Session) (m : PrognosisManager) : Option Entry :=
  match s.operation with
  | .readRequest => if (s.serve m .success).operation = .writeResponse then some .asked else none
  | .readPrognosis zodiac => some (.stored zodiac (getline s.buffer).1)
  | .writeResponse => none
  | .stopped => none

/-- `async_read_until` is under way. -/
def Session.Reads (s : Session) : Prop :=
  s.operation = .readRequest ∨ ∃ zodiac, s.operation = .readPrognosis zodiac

/-- The client's operation is complete. -/
def Session.ClientReady (s : Session) : Prop :=
  s.client.operation = .connect ∧ s.stage ≠ .offline ∨ s.client.Writes ∧ s.client.buffer = [] ∨
    s.client.operation = .readResponse ∧ delim ∈ s.client.buffer

/-- The server's operation is complete. -/
def Session.ServerReady (s : Session) : Prop :=
  s.Reads ∧ delim ∈ s.buffer ∨ s.operation = .writeResponse ∧ s.buffer = []

/-- The steps of a session whose client has the request `r`, from the prognoses `m`: what is
recorded, the prognoses behind the step, and the session.  The bytes go in pieces of any size. No
operation fails and no deadline passes; the only error is the end of the stream, when the client
has closed its socket. -/
inductive Session.Step (r : Request) (m : PrognosisManager) (s : Session) :
    Option Entry → PrognosisManager → Session → Prop
  | connect (h : s.stage = .offline) : Step r m s none m { s with stage := .backlog }
  | accept (h : s.stage = .backlog) : Step r m s none m { s with stage := .accepted }
  | clientSends {buffer up : List Byte} (hop : s.client.Writes)
      (h : Pipe.Sends s.client.buffer s.up buffer up) :
      Step r m s none m { s with client := { s.client with buffer := buffer }, up := up }
  | clientReceives {buffer down : List Byte} (hop : s.client.operation = .readResponse)
      (h : Pipe.Receives delim s.client.buffer s.down buffer down) :
      Step r m s none m { s with client := { s.client with buffer := buffer }, down := down }
  | clientHandles (h : s.ClientReady) :
      Step r m s none m { s with client := s.client.handle r .success }
  | serverReceives {buffer up : List Byte} (hs : s.stage = .accepted) (hop : s.Reads)
      (h : Pipe.Receives delim s.buffer s.up buffer up) :
      Step r m s none m { s with buffer := buffer, up := up }
  | serverSends {buffer down : List Byte} (hs : s.stage = .accepted)
      (hop : s.operation = .writeResponse) (h : Pipe.Sends s.buffer s.down buffer down) :
      Step r m s none m { s with buffer := buffer, down := down }
  | serverHandles (hs : s.stage = .accepted) (h : s.ServerReady) :
      Step r m s (s.entry m) (s.prognoses m .success) (s.serve m .success)
  | serverEnds (hs : s.stage = .accepted) (hop : s.Reads) (h : delim ∉ s.buffer)
      (hup : s.up = []) (hclosed : s.client.operation = .ended) :
      Step r m s none (s.prognoses m .eof) (s.serve m .eof)

/-! ## All of them

The server is one event loop, so its handlers are steps that do not overlap, and all that the
sessions share is the map. -/

variable {ι : Type*} [DecidableEq ι]

/-- The sessions, by any index, with the map that they share and a record of what has happened to
it. -/
structure World (ι : Type*) where
  session : ι → Session
  prognosisManager : PrognosisManager
  trace : List (ι × Entry)

/-- The server has started, and the clients are constructed. -/
def World.start (job : ι → Request) : World ι where
  session i := .new (job i)
  prognosisManager _ := none
  trace := []

/-- Somebody takes a step.  The handlers of the server run one after the other, so a step of one
session is a step of the world, in any order between the sessions. -/
inductive World.Step (job : ι → Request) (w : World ι) : World ι → Prop
  | session {i : ι} {e : Option Entry} {m : PrognosisManager} {s : Session}
      (h : (w.session i).Step (job i) w.prognosisManager e m s) :
      Step job w {
        session := Function.update w.session i s
        prognosisManager := m
        trace := w.trace ++ (e.map (Prod.mk i)).toList }

/-- The worlds of every run. -/
def World.Reachable (job : ι → Request) (w : World ι) : Prop :=
  Relation.ReflTransGen (World.Step job) (.start job) w

end Astrologer.Boost
