import Astrologer.Boost.AccessControl
import Astrologer.Boost.Clients
import Astrologer.Boost.Operations
import Astrologer.Library.AsioEnding

/-!
# The operations of a client

`Boost.Clients` is about clients that nothing happens to.  Here a `Star` and a `Human` of
`client.cpp` are objects of an event loop, as the connections are in `Boost.Operations`: every
operation may fail, with whatever has come into the buffer until then, and the deadline may
pass before it completes.

The handlers are chains, and no handler starts an operation that comes before its own.  So
`io_context.run()` returns, in `StarMain` and in `HumanMain` as well as in `SetAllZodiacs` and in
the threads of `ParallelRun`, where it is called for many clients at once: whatever fails, and
whatever the server sends or does not send, every client comes to its end, and it has said
something about one response at most (`clients_end`).
-/

namespace Astrologer.Boost

open Asio (Object System)
open Completion (Inevitable)

def writePrognosisTimeout : ℕ := milliseconds 120000

/-! ## `client.cpp`

The classes differ in their first operation and in what they do with a response, so there is one
set of handlers with a `Kind`. -/

namespace ClientObject

inductive Socket
  | socket
  deriving DecidableEq

inductive Buffer
  | buffer
  deriving DecidableEq

inductive Handler
  | handleWriteRequest
  | handleWritePrognosis
  | handleReadResponse
  deriving DecidableEq

end ClientObject

/-- A `Star` or a `Human`, with what it has said. -/
abbrev ClientObject :=
  Object ClientObject.Socket ClientObject.Buffer (List Byte) ClientObject.Handler (List Report)

namespace ClientObject

def stop (c : ClientObject) : ClientObject := (c.close .socket).cancel

def stopped (c : ClientObject) : Bool := !c.isOpen .socket

def startWaitDeadline (c : ClientObject) : ClientObject := c.asyncWait

/-- `std::getline(is, line, DELIM)`. -/
def getline (c : ClientObject) : List Byte × ClientObject :=
  let buffer := c.read .buffer
  let line := Boost.getline buffer.1
  (line.1, buffer.2.write .buffer line.2)

/-- `os << text << DELIM`. -/
def putLine (c : ClientObject) (text : List Byte) : ClientObject :=
  let buffer := c.read .buffer
  buffer.2.write .buffer (buffer.1 ++ (text ++ [delim]))

/-- `handleConnect` does not close the socket when it has not been connected. -/
def handleConnect (c : ClientObject) (ec : Asio.ErrorCode) : ClientObject :=
  if ec ≠ .success then c
  else
    let c : ClientObject :=
      (c.expiresAfter writeRequestTimeout).start .handleWriteRequest .socket .buffer
    c.startWaitDeadline

/-- The last write was made. -/
def startReadResponse (c : ClientObject) (ec : Asio.ErrorCode) : ClientObject :=
  if c.stopped then c
  else if ec ≠ .success then c.stop
  else (c.expiresAfter readResponseTimeout).start .handleReadResponse .socket .buffer

def takeResponse (c : ClientObject) (ec : Asio.ErrorCode) (outcome : List Byte → Outcome) :
    ClientObject :=
  if c.stopped then c
  else if ec ≠ .success then c.stop
  else
    let line := c.getline
    let response := line.1
    let c : ClientObject :=
      { line.2 with data := line.2.data ++ [⟨response, outcome response⟩] }
    c.stop

def handleDeadline (c : ClientObject) (ec : Asio.ErrorCode) : ClientObject :=
  if c.stopped then c
  else if ec = .operationAborted then c.startWaitDeadline
  else c.stop

namespace Star

def handleWriteRequest (prognosis : List Byte) (c : ClientObject) (ec : Asio.ErrorCode) :
    ClientObject :=
  if c.stopped then c
  else if ec ≠ .success then c.stop
  else
    ((c.putLine prognosis).expiresAfter writePrognosisTimeout).start .handleWritePrognosis
      .socket .buffer

def handleWritePrognosis (c : ClientObject) (ec : Asio.ErrorCode) : ClientObject :=
  c.startReadResponse ec

def handleReadResponse (c : ClientObject) (ec : Asio.ErrorCode) : ClientObject :=
  c.takeResponse ec Star.outcome

end Star

namespace Human

def handleWriteRequest (c : ClientObject) (ec : Asio.ErrorCode) : ClientObject :=
  c.startReadResponse ec

def handleReadResponse (c : ClientObject) (ec : Asio.ErrorCode) : ClientObject :=
  c.takeResponse ec Human.outcome

end Human

/-- The arguments of a constructor, which may be any strings. -/
inductive Kind
  | star (zodiac prognosis remainder : List Byte)
  | human (zodiac remainder : List Byte)

namespace Kind

/-- The constructor. -/
def new : Kind → Client
  | star zodiac _ remainder => Star.new zodiac remainder
  | human zodiac remainder => Human.new zodiac remainder

def outcome : Kind → List Byte → Outcome
  | star _ _ _ => Star.outcome
  | human _ _ => Human.outcome

/-- A human has no `handleWritePrognosis`. -/
def Has : Kind → Handler → Prop
  | star _ _ _, _ => True
  | human _ _, handler => handler ≠ .handleWritePrognosis

def handle : Kind → Handler → ClientObject → Asio.ErrorCode → ClientObject
  | star _ prognosis _, .handleWriteRequest => ClientObject.Star.handleWriteRequest prognosis
  | star _ _ _, .handleWritePrognosis => ClientObject.Star.handleWritePrognosis
  | star _ _ _, .handleReadResponse => ClientObject.Star.handleReadResponse
  | human _ _, .handleWriteRequest => ClientObject.Human.handleWriteRequest
  | human _ _, .handleWritePrognosis => fun c _ => if c.stopped then c else c.stop
  | human _ _, .handleReadResponse => ClientObject.Human.handleReadResponse

end Kind

def timeout : Handler → ℕ
  | .handleWriteRequest => writeRequestTimeout
  | .handleWritePrognosis => writePrognosisTimeout
  | .handleReadResponse => readResponseTimeout

/-- A client in its event loop, from the handler on that has found it connected. -/
def system (k : Kind) : System Socket Buffer (List Byte) Handler (List Report) where
  sockets := [.socket]
  timeout := timeout
  start c := handleConnect c .success
  handle := k.handle
  handleDeadline := handleDeadline

/-- How many handlers come behind one. -/
def rank : Handler → ℕ
  | .handleWriteRequest => 2
  | .handleWritePrognosis => 1
  | .handleReadResponse => 0

/-! ## The handlers

A handler stops the client, or it starts an operation that comes later than its own; so a client
makes a bounded number of operations, whatever completes and however. -/

variable {k : Kind} {c c' : ClientObject}

theorem stopped_eq (c : ClientObject) : Object.stopped c [Socket.socket] = c.stopped :=
  Bool.or_false _

theorem update_buffers (buffers : Buffer → List Byte) (content : List Byte) :
    Function.update buffers .buffer content = fun _ => content := by
  funext b
  exact Function.update_self b content buffers

theorem getline_of_nil (h : c.operations = []) :
    c.getline = ((Boost.getline (c.buffers .buffer)).1,
      { c with buffers := fun _ => (Boost.getline (c.buffers .buffer)).2 }) := by
  rw [getline, Object.read_of_nil h]
  dsimp only
  rw [Object.write_of_nil h, update_buffers]

theorem putLine_of_nil (h : c.operations = []) (text : List Byte) :
    c.putLine text =
      { c with buffers := fun _ => c.buffers .buffer ++ (text ++ [delim]) } := by
  rw [putLine, Object.read_of_nil h]
  dsimp only
  rw [Object.write_of_nil h, update_buffers]

/-- What a handler does to a client that has not been stopped, when no operation is under
way. -/
theorem startReadResponse_descends (hopen : c.stopped = false) {n : ℕ} (hn : 0 < n)
    (ec : Asio.ErrorCode) : (system k).Descends rank n c (c.startReadResponse ec) := by
  rw [startReadResponse, hopen, if_neg Bool.false_ne_true]
  split
  · exact .stop c.buffers c.data
  · exact .start c.buffers c.data Handler.handleReadResponse Socket.socket Buffer.buffer
      List.mem_cons_self hn

theorem takeResponse_descends (hopen : c.stopped = false) (hnil : c.operations = []) {n : ℕ}
    (ec : Asio.ErrorCode) (outcome : List Byte → Outcome) :
    (system k).Descends rank n c (c.takeResponse ec outcome) := by
  rw [takeResponse, hopen, if_neg Bool.false_ne_true]
  split
  · exact .stop c.buffers c.data
  · rw [getline_of_nil hnil]
    exact .stop _ _

/-- **No handler starts an operation that comes before its own.**  Connecting, writing and reading
follow each other, and an error stops the client anywhere. -/
theorem handle_descends (hopen : c.stopped = false) (hnil : c.operations = [])
    (handler : Handler) (ec : Asio.ErrorCode) :
    (system k).Descends rank (rank handler) c (k.handle handler c ec) := by
  cases k with
  | star zodiac prognosis remainder =>
    cases handler with
    | handleWriteRequest =>
      show (system _).Descends rank 2 c (Star.handleWriteRequest prognosis c ec)
      rw [Star.handleWriteRequest, hopen, if_neg Bool.false_ne_true]
      split
      · exact .stop c.buffers c.data
      · rw [putLine_of_nil hnil]
        exact .start _ c.data Handler.handleWritePrognosis Socket.socket Buffer.buffer
          List.mem_cons_self Nat.one_lt_two
    | handleWritePrognosis => exact startReadResponse_descends hopen Nat.one_pos ec
    | handleReadResponse => exact takeResponse_descends hopen hnil ec _
  | human zodiac remainder =>
    cases handler with
    | handleWriteRequest => exact startReadResponse_descends hopen Nat.two_pos ec
    | handleWritePrognosis =>
      show (system _).Descends rank 1 c (if c.stopped then c else c.stop)
      rw [hopen, if_neg Bool.false_ne_true]
      exact .stop c.buffers c.data
    | handleReadResponse => exact takeResponse_descends hopen hnil ec _

/-! ### What it does to the client of `Boost.Clients`

There the operations are left out, and here they are put back: the data go the same way. -/

def Handler.operation : Handler → ClientOperation
  | .handleWriteRequest => .writeRequest
  | .handleWritePrognosis => .writePrognosis
  | .handleReadResponse => .readResponse

/-- The handler of the operation under way, there. -/
def Kind.step : Kind → Client → ErrorCode → Client
  | .star _ prognosis _ => Star.handle prognosis
  | .human _ _ => Human.handle

/-- The client when an operation has completed. -/
def view (c : ClientObject) (operation : ClientOperation) : Client where
  buffer := c.buffers .buffer
  operation := operation
  report := none

/-- The client when its handler has returned. -/
def after (c : ClientObject) (d : Client) : ClientObject :=
  let c : ClientObject :=
    { c with buffers := fun _ => d.buffer, data := c.data ++ d.report.toList }
  match d.operation with
  | .connect => c
  | .writeRequest =>
    (c.expiresAfter writeRequestTimeout).start .handleWriteRequest .socket .buffer
  | .writePrognosis =>
    (c.expiresAfter writePrognosisTimeout).start .handleWritePrognosis .socket .buffer
  | .readResponse =>
    (c.expiresAfter readResponseTimeout).start .handleReadResponse .socket .buffer
  | .ended => c.stop

theorem startReadResponse_eq (hopen : c.stopped = false) (operation : ClientOperation)
    (ec : Asio.ErrorCode) :
    c.startReadResponse ec =
      c.after ((c.view operation).startReadResponse (errorCode ec)) := by
  rw [startReadResponse, hopen, if_neg Bool.false_ne_true, Client.startReadResponse]
  by_cases hec : ec ≠ .success
  · rw [if_pos hec, if_pos (errorCode_ne_success.mpr hec)]
    simp only [after, view, Client.stop, Option.toList_none, List.append_nil]
  · rw [if_neg hec, if_neg (mt errorCode_ne_success.mp hec)]
    simp only [after, view, Option.toList_none, List.append_nil]

theorem takeResponse_eq (hopen : c.stopped = false) (hnil : c.operations = [])
    (operation : ClientOperation) (ec : Asio.ErrorCode) (outcome : List Byte → Outcome) :
    c.takeResponse ec outcome =
      c.after ((c.view operation).takeResponse (errorCode ec) outcome) := by
  rw [takeResponse, hopen, if_neg Bool.false_ne_true, Client.takeResponse]
  by_cases hec : ec ≠ .success
  · rw [if_pos hec, if_pos (errorCode_ne_success.mpr hec)]
    simp only [after, view, Client.stop, Option.toList_none, List.append_nil]
  · rw [if_neg hec, if_neg (mt errorCode_ne_success.mp hec), getline_of_nil hnil]
    rfl

/-- **A handler does what it does in `Boost.Clients`**, and then it stops the client or starts
the next operation. -/
theorem handle_eq (hopen : c.stopped = false) (hnil : c.operations = []) {handler : Handler}
    (hhas : k.Has handler) (ec : Asio.ErrorCode) :
    k.handle handler c ec = c.after (k.step (c.view handler.operation) (errorCode ec)) := by
  cases k with
  | star zodiac prognosis remainder =>
    cases handler with
    | handleWriteRequest =>
      show Star.handleWriteRequest prognosis c ec =
        c.after (Boost.Star.handleWriteRequest prognosis (c.view .writeRequest) (errorCode ec))
      rw [Star.handleWriteRequest, hopen, if_neg Bool.false_ne_true, Boost.Star.handleWriteRequest]
      by_cases hec : ec ≠ .success
      · rw [if_pos hec, if_pos (errorCode_ne_success.mpr hec)]
        simp only [after, view, Client.stop, Option.toList_none, List.append_nil]
      · rw [if_neg hec, if_neg (mt errorCode_ne_success.mp hec), putLine_of_nil hnil]
        simp only [after, view, Option.toList_none, List.append_nil]
    | handleWritePrognosis => exact startReadResponse_eq hopen .writePrognosis ec
    | handleReadResponse => exact takeResponse_eq hopen hnil .readResponse ec _
  | human zodiac remainder =>
    cases handler with
    | handleWriteRequest => exact startReadResponse_eq hopen .writeRequest ec
    | handleWritePrognosis => exact absurd rfl hhas
    | handleReadResponse => exact takeResponse_eq hopen hnil .readResponse ec _

/-! ### What the event loop asks of them

The laws of `Library.Asio` and the ranks of `Library.AsioEnding`. -/

theorem handle_of_stopped (h : c.stopped = true) (handler : Handler) (ec : Asio.ErrorCode) :
    k.handle handler c ec = c := by
  cases k <;> cases handler <;> exact if_pos h

theorem lawful (k : Kind) : (system k).Lawful where
  sockets := List.cons_ne_nil _ _
  start c _ := ⟨.handleWriteRequest, .socket, List.mem_cons_self, .buffer, rfl⟩
  handle_stopped handler c ec h := handle_of_stopped ((stopped_eq c).symm.trans h) handler ec
  handle_open handler c ec hopen hnil :=
    (handle_descends ((stopped_eq c).symm.trans hopen) hnil handler ec).moves
  deadline_stopped c ec h := if_pos ((stopped_eq c).symm.trans h)
  deadline_aborted c hopen := by
    have hopen' : stopped c = false := (stopped_eq c).symm.trans hopen
    exact (if_neg (Bool.eq_false_iff.mp hopen')).trans (if_pos rfl)
  deadline_elapsed c ec hopen hec := by
    have hopen' : stopped c = false := (stopped_eq c).symm.trans hopen
    exact (if_neg (Bool.eq_false_iff.mp hopen')).trans (if_neg hec)

theorem ranked (k : Kind) : (system k).Ranked rank where
  lawful := lawful k
  descends handler c ec hopen hnil :=
    handle_descends ((stopped_eq c).symm.trans hopen) hnil handler ec

/-! ## What a client has said

A client speaks in one handler only, behind which it is stopped.  So it has said nothing while its
sockets are open, and one thing at most when they are closed. -/

/-- **It says something about one response at most**, and what its class is for. -/
structure Good (k : Kind) (c : ClientObject) : Prop where
  silent : c.stopped = false → c.data = []
  once : c.data.length ≤ 1
  outcome : ∀ report ∈ c.data, delim ∉ report.response ∧
    report.outcome = k.outcome report.response

/-- A client that is stopped has said what it had to say. -/
theorem good_stop (data : List Report) (honce : data.length ≤ 1)
    (houtcome : ∀ report ∈ data, delim ∉ report.response ∧
      report.outcome = k.outcome report.response) (c : ClientObject) (hdata : c.data = data) :
    Good k c.stop := by
  have hstopped : c.stop.stopped = true := by
    rw [stopped, stop]
    simp [Object.cancel, Object.close]
  refine ⟨fun hopen => ?_, ?_, ?_⟩
  · exact absurd (hopen.symm.trans hstopped) Bool.false_ne_true
  · exact hdata ▸ honce
  · exact hdata ▸ houtcome

theorem Good.stop (h : Good k c) : Good k c.stop :=
  good_stop _ h.once h.outcome c rfl

theorem Good.startReadResponse (h : Good k c) (ec : Asio.ErrorCode) :
    Good k (c.startReadResponse ec) := by
  rw [ClientObject.startReadResponse]
  split
  · exact h
  · split
    · exact h.stop
    · exact ⟨h.silent, h.once, h.outcome⟩

theorem Good.takeResponse (h : Good k c) (ec : Asio.ErrorCode) :
    Good k (c.takeResponse ec k.outcome) := by
  rw [ClientObject.takeResponse]
  split
  · exact h
  next hopen =>
    split
    · exact h.stop
    · have hnil : c.data = [] := h.silent (Bool.eq_false_iff.mpr hopen)
      refine good_stop [⟨c.getline.1, k.outcome c.getline.1⟩] le_rfl
        (fun report hreport => ?_) _ ?_
      · rw [List.mem_singleton.mp hreport]
        exact ⟨delim_notMem_getline _, rfl⟩
      · show c.data ++ _ = _
        rw [hnil]
        rfl

theorem Good.handle (h : Good k c) (handler : Handler) (ec : Asio.ErrorCode) :
    Good k (k.handle handler c ec) := by
  cases k with
  | star zodiac prognosis remainder =>
    cases handler with
    | handleWriteRequest =>
      show Good _ (Star.handleWriteRequest prognosis c ec)
      rw [Star.handleWriteRequest]
      split
      · exact h
      · split
        · exact h.stop
        · exact ⟨h.silent, h.once, h.outcome⟩
    | handleWritePrognosis => exact h.startReadResponse ec
    | handleReadResponse => exact h.takeResponse ec
  | human zodiac remainder =>
    cases handler with
    | handleWriteRequest => exact h.startReadResponse ec
    | handleWritePrognosis =>
      show Good _ (if c.stopped then c else c.stop)
      split
      · exact h
      · exact h.stop
    | handleReadResponse => exact h.takeResponse ec

theorem Good.handleDeadline (h : Good k c) (ec : Asio.ErrorCode) :
    Good k (c.handleDeadline ec) := by
  rw [ClientObject.handleDeadline]
  split
  · exact h
  · split
    · exact ⟨h.silent, h.once, h.outcome⟩
    · exact h.stop

theorem Good.timely (h : Good k c) (ht : (system k).Timely c c') : Good k c' := by
  obtain ⟨now, -, hturn⟩ := ht
  have hframe : ∀ o : ClientObject, o.isOpen = c.isOpen → o.data = c.data → Good k o := by
    intro o hopen hdata
    have hstopped : o.stopped = c.stopped := by rw [stopped, stopped, hopen]
    exact ⟨fun hs => hdata.trans (h.silent (hstopped.symm.trans hs)), hdata ▸ h.once,
      hdata ▸ h.outcome⟩
  cases hturn with
  | complete before after p ec content hoperations hp => exact hframe _ rfl rfl
  | elapse before after hwaits hexpiry => exact hframe _ rfl rfl
  | handle before after p ec hoperations hp =>
    refine Good.handle (hframe _ ?_ ?_) p.handler ec
    · rfl
    · rfl
  | handleDeadline before after ec hwaits =>
    refine Good.handleDeadline (hframe _ ?_ ?_) ec
    · rfl
    · rfl

/-! ## All clients of a loop

The clients of a loop have nothing in common but the loop, so the general rule applies to any
number and any mixture of them. -/

/-- The constructor has been called, and `async_connect` has completed. -/
def Enters (k : Kind) (c : ClientObject) : Prop :=
  ∃ (o : ClientObject) (ec : Asio.ErrorCode), o.New [.socket] ∧ o.data = [] ∧
    o.buffers .buffer = k.new.buffer ∧ c = o.handleConnect ec

/-- A client that has just been constructed. -/
def constructed (k : Kind) : ClientObject where
  now := 0
  turn := 0
  isOpen _ := true
  buffers _ := k.new.buffer
  data := []
  operations := []
  expiry := 0
  setIn := 0
  waits := []
  races := []

theorem Enters.lives (h : Enters k c) : (system k).Lives c := by
  obtain ⟨o, ec, hnew, -, -, rfl⟩ := h
  by_cases hec : ec = .success
  · rw [hec]
    exact .inl (.start (lawful k) hnew)
  · have hfails : o.handleConnect ec = o := if_pos hec
    rw [hfails]
    exact .inr ⟨hnew.operations, hnew.waits⟩

theorem Enters.good (h : Enters k c) : Good k c := by
  obtain ⟨o, ec, -, hdata, -, rfl⟩ := h
  have hconnected : (o.handleConnect ec).data = [] := by
    rw [handleConnect]
    split
    · exact hdata
    · exact hdata
  refine ⟨fun _ => hconnected, ?_, ?_⟩
  · rw [hconnected]
    exact Nat.zero_le 1
  · rw [hconnected]
    exact fun report hreport => absurd hreport List.not_mem_nil

theorem loopLaw {ι : Type*} (kind : ι → Kind) :
    Asio.LoopLaw (fun i => system (kind i)) (fun _ => rank) (fun i => Enters (kind i))
      (fun i => Good (kind i)) where
  ranked i := ranked (kind i)
  exists_enters i := ⟨_, constructed (kind i), .success, ⟨rfl, rfl, rfl, rfl⟩, rfl, rfl, rfl⟩
  lives _ _ h := h.lives
  good_enters _ _ h := h.good
  good_turn _ _ _ _ h ht := h.timely ht

end ClientObject

open ClientObject

/-- **`io_context.run()` returns for every set of clients**, whatever fails and whatever the
buffers have in them, and all of them are released then.  At every moment of the loop, and so also
at its end, a client has reported one response at most, which is one line judged by the rule of
its class, and none before it was stopped.  And a client that has not been stopped has one
operation and one wait, and nobody else uses its buffer. -/
theorem clients_end {ι : Type*} [Fintype ι] [DecidableEq ι] (kind : ι → Kind) :
    Inevitable (Asio.LoopStep (fun i => system (kind i)) fun i => Enters (kind i))
      (fun cs => ∀ i, ∃ c, cs i = some c ∧ c.Released ∧ Good (kind i) c) (fun _ => none) ∧
    (∀ cs, Relation.ReflTransGen (Asio.LoopStep (fun i => system (kind i))
      fun i => Enters (kind i)) (fun _ => none) cs → ∀ i c, cs i = some c → Good (kind i) c) ∧
    ∀ i c, (system (kind i)).Reachable c → (system (kind i)).Disciplined c := by
  have hinv : Asio.LoopInv (fun i => system (kind i)) (fun i => Good (kind i)) fun _ => none :=
    fun i c hc => absurd hc (Option.some_ne_none c).symm
  refine ⟨(Asio.inevitable_released (loopLaw kind) hinv).mono fun cs hcs i => ?_,
    fun cs hrun i c hc => (hinv.run (loopLaw kind) hrun i c hc).2,
    fun i c hc => (lawful (kind i)).disciplined hc⟩
  obtain ⟨c, hc, hreleased⟩ := hcs.1 i
  exact ⟨c, hc, hreleased, (hcs.2 i c hc).2⟩

end Astrologer.Boost
