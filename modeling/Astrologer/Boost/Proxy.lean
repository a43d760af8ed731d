import Astrologer.Boost.Connection

/-!
# A connection of the Boost proxy

`Connection` of `proxy.cpp` reads a request line from its client, denies it or forwards
it to the server, reads the response line and passes it on.  It has two stream buffers,
and each of them is used in both directions: `mClientBuffer` takes the requests of the
client and the responses for it, `mConnectionBuffer` the requests for the server and its
responses.

The handlers are functions on the two buffers (`Connection`).  `Relay` is a connection
at work: a client whose bytes arrive in some reads, and a server that answers each line
in some reads too (`Answer`).  What `async_read_until` and `async_write` do is as in
`Boost.Connection`; nothing fails and no deadline passes.
-/

namespace Astrologer.Boost.Proxy

open Lines Segmentation

def starResponseFailure : List Byte := str "DENIED!"

/-! ## `Connection` -/

/-- The operation under way. -/
inductive Operation
  /-- `async_read_until` on the client, with `handleReadRequest`. -/
  | readRequest
  /-- `async_write` to the server, with `handleWriteRequest`. -/
  | writeRequest
  /-- `async_read_until` on the server, with `handleReadResponse`. -/
  | readResponse
  /-- `async_write` to the client, with `handleWriteResponse`. -/
  | writeResponse
  /-- The sockets are closed. -/
  | stopped
  deriving DecidableEq

structure Connection where
  clientBuffer : List Byte
  connectionBuffer : List Byte
  operation : Operation

def Connection.stop (c : Connection) : Connection := { c with operation := .stopped }

def Connection.startReadRequest (c : Connection) : Connection :=
  { c with operation := .readRequest }

def Connection.handleReadRequest (c : Connection) (ec : ErrorCode) : Connection :=
  if ec ≠ .success then c.stop
  else
    let line := getline c.clientBuffer
    let request := line.1
    let c := { c with clientBuffer := line.2 }
    if startsWith request starRequestType then
      -- `consume(size())` empties the buffer
      { c with
        clientBuffer := starResponseFailure ++ [delim]
        operation := .writeResponse }
    else
      { c with
        connectionBuffer := c.connectionBuffer ++ (request ++ [delim])
        operation := .writeRequest }

def Connection.handleWriteRequest (c : Connection) (ec : ErrorCode) : Connection :=
  if ec ≠ .success then c.stop else { c with operation := .readResponse }

def Connection.handleReadResponse (c : Connection) (ec : ErrorCode) : Connection :=
  if ec ≠ .success then c.stop
  else
    let line := getline c.connectionBuffer
    let response := line.1
    { c with
      connectionBuffer := line.2
      clientBuffer := c.clientBuffer ++ (response ++ [delim])
      operation := .writeResponse }

def Connection.handleWriteResponse (c : Connection) (ec : ErrorCode) : Connection :=
  if ec ≠ .success then c.stop else c.startReadRequest

theorem Connection.handleReadRequest_of_star {c : Connection}
    (h : startsWith (getline c.clientBuffer).1 starRequestType = true) :
    c.handleReadRequest .success =
      ⟨starResponseFailure ++ [delim], c.connectionBuffer, .writeResponse⟩ := by
  rw [handleReadRequest, if_neg (not_not_intro rfl)]
  exact if_pos h

theorem Connection.handleReadRequest_of_not_star {c : Connection}
    (h : startsWith (getline c.clientBuffer).1 starRequestType = false) :
    c.handleReadRequest .success =
      ⟨(getline c.clientBuffer).2,
        c.connectionBuffer ++ ((getline c.clientBuffer).1 ++ [delim]), .writeRequest⟩ := by
  rw [handleReadRequest, if_neg (not_not_intro rfl)]
  exact if_neg (Bool.not_eq_true _ ▸ h)

theorem Connection.handleReadResponse_eq (c : Connection) :
    c.handleReadResponse .success =
      ⟨c.clientBuffer ++ ((getline c.connectionBuffer).1 ++ [delim]),
        (getline c.connectionBuffer).2, .writeResponse⟩ := rfl

/-! ## A connection at work

A connection that works alone, with the reads of its client and a server that answers each line in
some reads. -/

/-- How a server answers a line: the reads in which its answer arrives. -/
abbrev Answer (σ : Type*) := σ → List Byte → List (List Byte) × σ

variable {σ : Type*}

/-- The answers to some lines. -/
def Answer.all (answer : Answer σ) : σ → List (List Byte) → List (List Byte) × σ
  | s, [] => ([], s)
  | s, line :: lines =>
    let a := answer s line
    let rest := answer.all a.2 lines
    (a.1 ++ rest.1, rest.2)

/-- A proxy connection between a client and a server. -/
structure Relay (σ : Type*) where
  proxy : Connection
  /-- The reads from the client to come. -/
  reads : List (List Byte)
  /-- The client closes its side after the last read. -/
  closes : Bool
  server : σ
  /-- The reads from the server to come. -/
  responses : List (List Byte)
  /-- The writes to the server. -/
  forwarded : List (List Byte)
  /-- The writes to the client. -/
  received : List (List Byte)

/-- The operation under way completes, and its handler is called. -/
def Relay.step (answer : Answer σ) (r : Relay σ) : Option (Relay σ) :=
  match r.proxy.operation with
  | .readRequest =>
    match readUntil r.proxy.clientBuffer r.reads with
    | some (buffer, reads) =>
      some { r with
        proxy := { r.proxy with clientBuffer := buffer }.handleReadRequest .success
        reads := reads }
    | none =>
      if r.closes then
        some { r with
          proxy := { r.proxy with
            clientBuffer := r.proxy.clientBuffer ++ r.reads.flatten }.handleReadRequest .eof
          reads := [] }
      else none
  | .writeRequest =>
    let a := answer.all r.server (splitLines delim r.proxy.connectionBuffer).1
    some { r with
      proxy := { r.proxy with connectionBuffer := [] }.handleWriteRequest .success
      server := a.2
      responses := r.responses ++ a.1
      forwarded := r.forwarded ++ [r.proxy.connectionBuffer] }
  | .readResponse =>
    match readUntil r.proxy.connectionBuffer r.responses with
    | some (buffer, responses) =>
      some { r with
        proxy := { r.proxy with connectionBuffer := buffer }.handleReadResponse .success
        responses := responses }
    | none => none
  | .writeResponse =>
    some { r with
      proxy := { r.proxy with clientBuffer := [] }.handleWriteResponse .success
      received := r.received ++ [r.proxy.clientBuffer] }
  | .stopped => none

/-- Between two requests: the buffers are empty, and a read is started. -/
def Relay.waiting (reads : List (List Byte)) (closes : Bool) (server : σ)
    (responses forwarded received : List (List Byte)) : Relay σ where
  proxy := ⟨[], [], .readRequest⟩
  reads := reads
  closes := closes
  server := server
  responses := responses
  forwarded := forwarded
  received := received

/-- `start`. -/
def Relay.start (reads : List (List Byte)) (closes : Bool) (server : σ) : Relay σ :=
  .waiting reads closes server [] [] []

/-! ## It comes to an end

As for a connection of the server: each step takes something, so the result is a function of what
the client sends and of how the server answers. -/

/-- The bytes to read, with more weight than an operation. -/
def Relay.measure (r : Relay σ) : ℕ :=
  match r.proxy.operation with
  | .readRequest => 4 * (r.proxy.clientBuffer ++ r.reads.flatten).length + 1
  | .writeRequest => 4 * (r.proxy.clientBuffer ++ r.reads.flatten).length + 4
  | .readResponse => 4 * (r.proxy.clientBuffer ++ r.reads.flatten).length + 3
  | .writeResponse => 4 * r.reads.flatten.length + 2
  | .stopped => 0

theorem measure_handleReadRequest_le (c : Connection) (reads : List (List Byte)) (closes : Bool)
    (server : σ) (responses forwarded received : List (List Byte)) :
    (Relay.mk (c.handleReadRequest .success) reads closes server responses forwarded
        received).measure ≤
      4 * ((getline c.clientBuffer).2 ++ reads.flatten).length + 4 := by
  rw [Connection.handleReadRequest, if_neg (not_not_intro rfl)]
  dsimp only
  split
  · show 4 * reads.flatten.length + 2 ≤ _
    rw [List.length_append]
    omega
  · exact Nat.le_refl _

/-- **Every step brings the end nearer.** -/
theorem Relay.step_decreases (answer : Answer σ) (r r' : Relay σ)
    (h : r.step answer = some r') : r'.measure < r.measure := by
  rw [step] at h
  cases hop : r.proxy.operation with
  | readRequest =>
    have hm : r.measure = 4 * (r.proxy.clientBuffer ++ r.reads.flatten).length + 1 := by
      rw [measure, hop]
    rw [hop] at h
    rw [hm]
    dsimp only at h
    split at h
    next buffer reads hread =>
      cases h
      have hlt := length_getline_lt hread
      refine Nat.lt_of_le_of_lt (measure_handleReadRequest_le _ _ _ _ _ _ _) ?_
      show 4 * ((getline buffer).2 ++ reads.flatten).length + 4 < _
      omega
    next hread =>
      split at h
      · cases h
        exact Nat.succ_pos _
      · cases h
  | writeRequest =>
    have hm : r.measure = 4 * (r.proxy.clientBuffer ++ r.reads.flatten).length + 4 := by
      rw [measure, hop]
    rw [hop] at h
    cases h
    rw [hm]
    exact Nat.lt_succ_self _
  | readResponse =>
    have hm : r.measure = 4 * (r.proxy.clientBuffer ++ r.reads.flatten).length + 3 := by
      rw [measure, hop]
    rw [hop] at h
    rw [hm, List.length_append]
    dsimp only at h
    split at h
    · cases h
      show 4 * r.reads.flatten.length + 2 < _
      omega
    · cases h
  | writeResponse =>
    have hm : r.measure = 4 * r.reads.flatten.length + 2 := by
      rw [measure, hop]
    rw [hop] at h
    cases h
    rw [hm]
    exact Nat.lt_succ_self _
  | stopped =>
    rw [hop] at h
    cases h

/-- The connection when nothing more happens. -/
def Relay.result (answer : Answer σ) (r : Relay σ) : Relay σ :=
  Halting.result (Relay.step answer) Relay.measure r

variable {answer : Answer σ}

theorem Relay.step_result (r : Relay σ) : (r.result answer).step answer = none :=
  Halting.step_result (step_decreases answer) r

theorem Relay.result_eq_of_step {r r' : Relay σ} (h : r.step answer = some r') :
    r.result answer = r'.result answer :=
  Halting.result_eq_of_step (step_decreases answer) h

theorem Relay.result_of_none {r : Relay σ} (h : r.step answer = none) : r.result answer = r :=
  Halting.result_of_none h Relay.measure

/-! ## What was forwarded stays

The list of forwarded lines grows at its end only. -/

theorem Relay.step_forwarded (r r' : Relay σ) (h : r.step answer = some r') :
    r.forwarded <+: r'.forwarded := by
  rw [step] at h
  split at h
  · split at h
    · cases h
      exact List.prefix_refl _
    · split at h
      · cases h
        exact List.prefix_refl _
      · cases h
  · cases h
    exact List.prefix_append _ _
  · split at h
    · cases h
      exact List.prefix_refl _
    · cases h
  · cases h
    exact List.prefix_refl _
  · cases h

theorem Relay.forwarded_prefix_result (r : Relay σ) :
    r.forwarded <+: (r.result answer).forwarded :=
  Halting.rel_result (fun r => List.prefix_refl r.forwarded) (fun _ _ _ h h' => h.trans h')
    step_forwarded r

/-! ## One exchange

What the handlers do with one line: it is passed on, or it is denied. -/

section Exchange

variable {reads reads' : List (List Byte)} {closes : Bool} {s : σ}
  {responses forwarded received : List (List Byte)} {text left : List Byte}

/-- A request that is passed on.  What a read brought behind it stays in the buffer. -/
theorem step_request (htext : delim ∉ text) (hstar : startsWith text starRequestType = false)
    (h : readUntil [] reads = some (text ++ [delim] ++ left, reads')) :
    (Relay.waiting reads closes s responses forwarded received).step answer =
      some ⟨⟨left, text ++ [delim], .writeRequest⟩, reads', closes, s, responses, forwarded,
        received⟩ := by
  have hget := getline_text htext left
  rw [Relay.step, Relay.waiting]
  dsimp only
  rw [h]
  dsimp only
  rw [Connection.handleReadRequest_of_not_star (by rw [hget]; exact hstar), hget]
  rfl

/-- A Star is denied, and what a read brought behind its request is dropped. -/
theorem step_denied (htext : delim ∉ text) (hstar : startsWith text starRequestType = true)
    (h : readUntil [] reads = some (text ++ [delim] ++ left, reads')) :
    (Relay.waiting reads closes s responses forwarded received).step answer =
      some ⟨⟨starResponseFailure ++ [delim], [], .writeResponse⟩, reads', closes, s, responses,
        forwarded, received⟩ := by
  have hget := getline_text htext left
  rw [Relay.step, Relay.waiting]
  dsimp only
  rw [h]
  dsimp only
  rw [Connection.handleReadRequest_of_star (by rw [hget]; exact hstar)]

end Exchange

end Astrologer.Boost.Proxy
