import Astrologer.Boost.Clients

/-!
# One exchange of a client with the Boost server

A client makes one request, so the server handles one.  Until then the client has received
nothing, and what the server has in its buffer, what is on the way and what the client has not
sent are together the lines that the server waits for (`Session.Asking`).  From then on all of
the request is there, and what the client has got of the response, what is on the way and what
the server has not sent are together one line (`Session.Answering`).  So nothing is ever left
in a buffer behind a line, and a star may send its prognosis before the server has read the
request.

`Session.Matched.step` is what a step does: it keeps one of the two, or it is the one that
handles the request; and it comes nearer to the end (`Session.measure`).  As long as a client
has no response, its session has a step (`Session.Matched.exists_step`).

In a `Session` no operation fails and no deadline passes.  So no handler gets an error but at the
end of the stream, when the client has closed its socket, and `handleDeadline` has nothing to do
but to wait again.  What is left when something fails or takes too long is the matter of
`Boost.Confinement`, and for the client that of `Boost.ClientOperations`.
-/

namespace Astrologer.Boost

open Lines

/-! ## Requests

What a request consists of and what it is answered with, apart from the connections. -/

/-- The first line. -/
def Request.first : Request → List Byte
  | .client name => name.line clientRequestType
  | .star name _ _ => name.line starRequestType

/-- The line behind it, if there is one. -/
def Request.second : Request → List Byte
  | .client _ => []
  | .star _ prognosis _ => prognosis ++ [delim]

/-- The response, without its delimiter. -/
def Request.response : Request → PrognosisManager → List Byte
  | .client name, m => (m name.zodiac).getD unknownPrognosis
  | .star _ _ _, _ => starResponseSuccess

/-- What the server does to handle it. -/
def Request.entry : Request → Entry
  | .client _ => .asked
  | .star name prognosis _ => .stored name.zodiac prognosis

/-- What the client does with a response. -/
def Request.outcome : Request → List Byte → Outcome
  | .client _ => Human.outcome
  | .star _ _ _ => Star.outcome

theorem Request.bytes_eq (r : Request) : r.bytes = r.first ++ r.second := by
  cases r with
  | client name => exact (List.append_nil _).symm
  | star name prognosis h => rfl

theorem Request.first_isLine (r : Request) : IsLine delim r.first := by
  cases r with
  | client name => exact client_isLine name
  | star name prognosis h => exact star_isLine name

theorem Request.response_notMem (r : Request) {m : PrognosisManager}
    (hm : ∀ zodiac prognosis, m zodiac = some prognosis → delim ∉ prognosis) :
    delim ∉ r.response m := by
  cases r with
  | star name prognosis h => exact (by decide : delim ∉ starResponseSuccess)
  | client name =>
    rw [response]
    cases hp : m name.zodiac with
    | none => exact (by decide : delim ∉ unknownPrognosis)
    | some prognosis => exact hm _ _ hp

theorem Client.new_eq (r : Request) : Client.new r = ⟨r.first, .connect, none⟩ := by
  cases r <;> simp [Client.new, Human.new, Star.new, Request.first, Named.line]

/-! ## The client

The text that a client has yet to send, and the one that it has got, are read off its operation
and its buffer.  A handler starts the next operation and changes neither. -/

/-- What the client has not sent. -/
def Client.unsent (r : Request) (c : Client) : List Byte :=
  match c.operation with
  | .connect => c.buffer ++ r.second
  | .writeRequest => c.buffer ++ r.second
  | .writePrognosis => c.buffer
  | .readResponse => []
  | .ended => []

/-- What it has got of the response. -/
def Client.got (c : Client) : List Byte :=
  match c.operation with
  | .readResponse => c.buffer
  | _ => []

/-- Only a star sends a prognosis. -/
def Client.Fits (r : Request) (c : Client) : Prop := c.operation = .writePrognosis → r.second ≠ []

/-- How far it is to the end. -/
def ClientOperation.rank : ClientOperation → ℕ
  | .connect => 4
  | .writeRequest => 3
  | .writePrognosis => 2
  | .readResponse => 1
  | .ended => 0

/-- The next operation of a client that has no response.  The request and the response are where
they were, and the operation is of a smaller rank, which is what makes the exchange end. -/
structure Client.Goes (r : Request) (c c' : Client) : Prop where
  unsent : c'.unsent r = c.unsent r
  got : c'.got = c.got
  report : c'.report = c.report
  going : c'.operation ≠ .ended
  fits : c'.Fits r
  rank : c'.operation.rank < c.operation.rank

section Client

variable {r : Request} {c : Client}

theorem Client.goes_connect (hop : c.operation = .connect) : c.Goes r (c.handle r .success) := by
  have heq : c.handle r .success = { c with operation := .writeRequest } := by
    cases r <;> simp [handle, Human.handle, Star.handle, handleConnect, hop]
  rw [heq]
  constructor <;> simp [unsent, got, Fits, ClientOperation.rank, hop]

theorem Client.goes_write (hfits : c.Fits r) (hop : c.Writes) (hbuffer : c.buffer = []) :
    c.Goes r (c.handle r .success) := by
  rcases hop with hop | hop
  · cases r with
    | client name =>
      have heq : c.handle (.client name) .success = { c with operation := .readResponse } := by
        simp [handle, Human.handle, Human.handleWriteRequest, startReadResponse, hop]
      rw [heq]
      constructor <;> simp [unsent, got, Fits, ClientOperation.rank, Request.second, hop, hbuffer]
    | star name prognosis h =>
      have heq : c.handle (.star name prognosis h) .success =
          { c with buffer := prognosis ++ [delim], operation := .writePrognosis } := by
        simp [handle, Star.handle, Star.handleWriteRequest, hop, hbuffer]
      rw [heq]
      constructor <;> simp [unsent, got, Fits, ClientOperation.rank, Request.second, hop, hbuffer]
  · cases r with
    | client name => exact absurd rfl (hfits hop)
    | star name prognosis h =>
      have heq : c.handle (.star name prognosis h) .success =
          { c with operation := .readResponse } := by
        simp [handle, Star.handle, Star.handleWritePrognosis, startReadResponse, hop]
      rw [heq]
      constructor <;> simp [unsent, got, Fits, ClientOperation.rank, hop, hbuffer]

/-- **The response is read.**  There is nothing behind it in the buffer, and the client is done
with it. -/
theorem Client.handle_response {response : List Byte} (hop : c.operation = .readResponse)
    (hbuffer : c.buffer = response ++ [delim]) (hresponse : delim ∉ response) :
    c.handle r .success = ⟨[], .ended, some ⟨response, r.outcome response⟩⟩ := by
  have hget : getline c.buffer = (response, []) := by
    rw [hbuffer, ← List.append_nil (response ++ [delim])]
    exact getline_text hresponse []
  cases r with
  | client name =>
    simp [handle, Human.handle, Human.handleReadResponse, takeResponse, stop, Request.outcome, hop,
      hget]
  | star name prognosis h =>
    simp [handle, Star.handle, Star.handleReadResponse, takeResponse, stop, Request.outcome, hop,
      hget]

end Client

/-! ## The server

What each handler of the server does when its buffer has the line that it waits for and nothing
else. -/

section Server

variable {s : Session} {m : PrognosisManager} {left : List Byte}

/-- A request for a prognosis is handled. -/
theorem Session.serve_client {name : Named} (hop : s.operation = .readRequest)
    (h : s.buffer = name.line clientRequestType ++ left) :
    s.serve m .success = { s with
        buffer := left ++ ((m name.zodiac).getD unknownPrognosis ++ [delim])
        operation := .writeResponse } ∧
      s.prognoses m .success = m ∧ s.entry m = some .asked := by
  have hc : (s.connection m).handle .success = { s.connection m with
      buffer := left ++ ((m name.zodiac).getD unknownPrognosis ++ [delim])
      operation := .writeResponse } := by
    rw [Connection.handle]
    simp only [connection, hop]
    exact handleReadRequest_client h
  have hserve : s.serve m .success = { s with
      buffer := left ++ ((m name.zodiac).getD unknownPrognosis ++ [delim])
      operation := .writeResponse } := by
    rw [serve, hc]
  refine ⟨hserve, ?_, ?_⟩
  · rw [prognoses, hc]
    rfl
  · simp only [entry, hop, hserve]
    rfl

/-- The first line of a star is read. -/
theorem Session.serve_star {name : Named} (hop : s.operation = .readRequest)
    (h : s.buffer = name.line starRequestType ++ left) :
    s.serve m .success = { s with buffer := left, operation := .readPrognosis name.zodiac } ∧
      s.prognoses m .success = m ∧ s.entry m = none := by
  have hc : (s.connection m).handle .success = { s.connection m with
      buffer := left
      operation := .readPrognosis name.zodiac } := by
    rw [Connection.handle]
    simp only [connection, hop]
    exact handleReadRequest_star h
  have hserve : s.serve m .success =
      { s with buffer := left, operation := .readPrognosis name.zodiac } := by
    rw [serve, hc]
  refine ⟨hserve, ?_, ?_⟩
  · rw [prognoses, hc]
    rfl
  · simp only [entry, hop, hserve]
    rfl

/-- A prognosis is stored. -/
theorem Session.serve_prognosis {zodiac prognosis : List Byte}
    (hop : s.operation = .readPrognosis zodiac) (hprognosis : delim ∉ prognosis)
    (h : s.buffer = prognosis ++ [delim] ++ left) :
    s.serve m .success = { s with
        buffer := left ++ (starResponseSuccess ++ [delim])
        operation := .writeResponse } ∧
      s.prognoses m .success = m.setPrognosis zodiac prognosis ∧
      s.entry m = some (.stored zodiac prognosis) := by
  have hc : (s.connection m).handle .success = { s.connection m with
      buffer := left ++ (starResponseSuccess ++ [delim])
      operation := .writeResponse
      prognosisManager := m.setPrognosis zodiac prognosis } := by
    rw [Connection.handle]
    simp only [connection, hop]
    exact handleReadPrognosis_text hprognosis h
  refine ⟨?_, ?_, ?_⟩
  · rw [serve, hc]
  · rw [prognoses, hc]
  · simp only [entry, hop, h, getline_text hprognosis]

/-- The response is sent. -/
theorem Session.serve_write (hop : s.operation = .writeResponse) :
    s.serve m .success = { s with operation := .readRequest } ∧
      s.prognoses m .success = m ∧ s.entry m = none := by
  have hc : (s.connection m).handle .success =
      { s.connection m with operation := .readRequest } := by
    rw [Connection.handle]
    simp only [connection, hop]
    rfl
  refine ⟨?_, ?_, ?_⟩
  · rw [serve, hc]
    rfl
  · rw [prognoses, hc]
    rfl
  · simp only [entry, hop]

/-- The client has closed its side. -/
theorem Session.serve_eof (hop : s.Reads) :
    s.serve m .eof = { s with operation := .stopped } ∧ s.prognoses m .eof = m := by
  have hc : (s.connection m).handle .eof = { s.connection m with operation := .stopped } := by
    rw [Connection.handle]
    rcases hop with hop | ⟨zodiac, hop⟩
    · simp only [connection, hop]
      rfl
    · simp only [connection, hop]
      rfl
  constructor
  · rw [serve, hc]
    rfl
  · rw [prognoses, hc]
    rfl

end Server

/-! ## Both of them

The invariant of a session, as long as the request has not been handled and from then on.  It
speaks about sums of bytes, not about where each of them is, and so the pieces do not matter. -/

/-- The request has not been handled: the client has nothing, nothing is on the way to it, and
what the server waits for is still on its way.  For a star that is the request line or, when this
was read, the prognosis. -/
structure Session.Asking (r : Request) (s : Session) : Prop where
  report : s.client.report = none
  going : s.client.operation ≠ .ended
  fits : s.client.Fits r
  got : s.client.got = []
  down : s.down = []
  /-- What the server waits for is in its buffer, on the way or not yet sent. -/
  server : s.operation = .readRequest ∧ s.buffer ++ s.up ++ s.client.unsent r = r.bytes ∨
    ∃ name prognosis h, r = .star name prognosis h ∧ s.operation = .readPrognosis name.zodiac ∧
      s.buffer ++ s.up ++ s.client.unsent r = prognosis ++ [delim]

/-- The request has been handled, with this response: nothing is on the way to the server any
more, and the response is complete in the pieces that stand between the two. -/
structure Session.Answering (r : Request) (response : List Byte) (s : Session) : Prop where
  text : delim ∉ response
  accepted : s.stage = .accepted
  fits : s.client.Fits r
  unsent : s.client.unsent r = []
  up : s.up = []
  server : s.operation = .writeResponse ∨
    (s.operation = .readRequest ∨ s.operation = .stopped) ∧ s.buffer = []
  /-- What the client waits for is in its buffer, on the way or not yet sent; or it has been
  read. -/
  client : s.client.operation ≠ .ended ∧ s.client.report = none ∧ s.operation ≠ .stopped ∧
      s.client.got ++ s.down ++ s.buffer = response ++ [delim] ∨
    s.client = ⟨[], .ended, some ⟨response, r.outcome response⟩⟩ ∧ s.down = [] ∧ s.buffer = []

/-- Where the two are: the request is on its way, until it has been handled; then the response
is.  The answer of the store says which. -/
def Session.Matched (r : Request) (s : Session) : Option (List Byte) → Prop
  | none => s.Asking r
  | some response => s.Answering r response

theorem Session.new_asking (r : Request) : (Session.new r).Asking r where
  report := by simp [new, Client.new_eq]
  going := by simp [new, Client.new_eq]
  fits := by simp [new, Client.new_eq, Client.Fits]
  got := by simp [new, Client.new_eq, Client.got]
  down := rfl
  server := Or.inl ⟨rfl, by simp [new, Client.new_eq, Client.unsent, Request.bytes_eq]⟩

/-! ## How far it is to the end

An operation that is completed is followed by one of a smaller rank, and in between the bytes of a
write or of a read get less. -/

def Stage.rank : Stage → ℕ
  | .offline => 2
  | .backlog => 1
  | .accepted => 0

/-- The server reads requests before and after the one that it handles. -/
def Operation.rank (handled : Bool) : Operation → ℕ
  | .readRequest => if handled then 1 else 4
  | .readPrognosis _ => 3
  | .writeResponse => 2
  | .stopped => 0

/-- The bytes that a write has to send. -/
def Client.load (c : Client) : ℕ :=
  match c.operation with
  | .writeRequest => c.buffer.length
  | .writePrognosis => c.buffer.length
  | _ => 0

def Session.load (s : Session) : ℕ :=
  match s.operation with
  | .writeResponse => s.buffer.length
  | _ => 0

/-- The operations to come count first, and then the bytes. -/
def Session.measure (handled : Bool) (s : Session) : ℕ ×ₗ ℕ :=
  toLex (s.stage.rank + s.client.operation.rank + s.operation.rank handled,
    (2 * s.client.load + s.up.length) + (2 * s.load + s.down.length))

section Measure

variable {s s' : Session} {handled handled' : Bool}

theorem Session.measure_lt_of_rank
    (h : s'.stage.rank + s'.client.operation.rank + s'.operation.rank handled' <
      s.stage.rank + s.client.operation.rank + s.operation.rank handled) :
    s'.measure handled' < s.measure handled := Prod.Lex.toLex_lt_toLex.mpr (Or.inl h)

theorem Session.measure_lt_of_load (hstage : s'.stage = s.stage)
    (hclient : s'.client.operation = s.client.operation) (hserver : s'.operation = s.operation)
    (h : (2 * s'.client.load + s'.up.length) + (2 * s'.load + s'.down.length) <
      (2 * s.client.load + s.up.length) + (2 * s.load + s.down.length)) :
    s'.measure handled < s.measure handled := by
  refine Prod.Lex.toLex_lt_toLex.mpr (Or.inr ⟨?_, h⟩)
  rw [hstage, hclient, hserver]

end Measure

/-! ## What a step does

The step lemma, for each of the two halves of an exchange and each of the two parties. -/

section Step

variable {r : Request} {c : Client} {s s' : Session} {m m' : PrognosisManager} {e : Option Entry}
  {response : List Byte}

/-- A client that writes has its buffer to send first. -/
theorem Client.Writes.unsent_eq (h : c.Writes) (r : Request) :
    ∃ behind, ∀ buffer, ({ c with buffer := buffer } : Client).unsent r = buffer ++ behind := by
  rcases h with h | h
  · exact ⟨r.second, fun buffer => by simp [Client.unsent, h]⟩
  · exact ⟨[], fun buffer => by simp [Client.unsent, h]⟩

theorem Client.Writes.load_eq (h : c.Writes) (buffer : List Byte) :
    ({ c with buffer := buffer } : Client).load = buffer.length := by
  rcases h with h | h <;> simp [Client.load, h]

theorem Client.Writes.got_eq (h : c.Writes) (buffer : List Byte) :
    ({ c with buffer := buffer } : Client).got = [] := by
  rcases h with h | h <;> simp [Client.got, h]

theorem Session.Reads.load_eq (h : s.Reads) (buffer up : List Byte) :
    ({ s with buffer := buffer, up := up } : Session).load = 0 := by
  rcases h with h | ⟨zodiac, h⟩ <;> simp [Session.load, h]

/-- The bytes of the client that its write puts on the way. -/
theorem Client.Writes.sent {buffer up up' : List Byte} (h : c.Writes)
    (hs : Pipe.Sends c.buffer up buffer up') :
    up' ++ ({ c with buffer := buffer } : Client).unsent r = up ++ c.unsent r := by
  obtain ⟨behind, hbehind⟩ := h.unsent_eq r
  have hc : c.unsent r = c.buffer ++ behind := hbehind c.buffer
  rw [hbehind, hc, ← List.append_assoc, hs.append_eq, List.append_assoc]

namespace Session.Asking

theorem reads (h : s.Asking r) : s.Reads := by
  rcases h.server with ⟨hop, -⟩ | ⟨name, prognosis, hp, -, hop, -⟩
  · exact Or.inl hop
  · exact Or.inr ⟨_, hop⟩

theorem not_writeResponse (h : s.Asking r) : s.operation ≠ .writeResponse := by
  intro hop
  rcases h.reads with hop' | ⟨zodiac, hop'⟩
  · exact Operation.noConfusion (hop.symm.trans hop')
  · exact Operation.noConfusion (hop.symm.trans hop')

/-- The same bytes in other places. -/
theorem of_eq (h : s.Asking r) (hreport : s'.client.report = none)
    (hgoing : s'.client.operation ≠ .ended) (hfits : s'.client.Fits r) (hgot : s'.client.got = [])
    (hdown : s'.down = []) (hop : s'.operation = s.operation)
    (hbytes : s'.buffer ++ (s'.up ++ s'.client.unsent r) =
      s.buffer ++ (s.up ++ s.client.unsent r)) : s'.Asking r := by
  rw [← List.append_assoc, ← List.append_assoc] at hbytes
  refine ⟨hreport, hgoing, hfits, hgot, hdown, ?_⟩
  rw [hop, hbytes]
  exact h.server

/-- The client calls a handler. -/
theorem goes {c : Client} (h : s.Asking r) (hc : s.client.Goes r c) :
    ({ s with client := c } : Session).Asking r :=
  h.of_eq (hc.report.trans h.report) hc.going hc.fits (hc.got.trans h.got) h.down rfl
    (by rw [hc.unsent])

/-- **The server has read a line.**  It is the first line of a star, or the request is
handled. -/
theorem handles (h : s.Asking r)
    (hm : ∀ zodiac prognosis, m zodiac = some prognosis → delim ∉ prognosis)
    (hs : s.stage = .accepted) (hmem : delim ∈ s.buffer) :
    (s.entry m = none ∧ s.prognoses m .success = m ∧ (s.serve m .success).Asking r ∧
      (s.serve m .success).measure false < s.measure false) ∨
    (s.entry m = some r.entry ∧ s.prognoses m .success = (r.serve m).2 ∧
      (s.serve m .success).Answering r (r.response m) ∧
      (s.serve m .success).measure true < s.measure false) := by
  have htext := r.response_notMem hm
  rcases h.server with ⟨hop, hbytes⟩ | ⟨name, prognosis, hprognosis, rfl, hop, hbytes⟩
  · rw [r.bytes_eq, List.append_assoc] at hbytes
    obtain ⟨left, hleft, hrest⟩ := r.first_isLine.exists_left hmem hbytes
    cases r with
    | client name =>
      obtain ⟨rfl, hrest'⟩ := List.append_eq_nil_iff.mp hrest
      obtain ⟨hup, hunsent⟩ := List.append_eq_nil_iff.mp hrest'
      obtain ⟨hserve, hprognoses, hentry⟩ := Session.serve_client (m := m) hop hleft
      refine Or.inr ⟨hentry, hprognoses, ?_, ?_⟩
      · rw [hserve]
        refine ⟨htext, hs, h.fits, hunsent, hup, Or.inl rfl,
          Or.inl ⟨h.going, h.report, Operation.noConfusion, ?_⟩⟩
        rw [h.got, h.down]
        rfl
      · rw [hserve]
        apply measure_lt_of_rank
        simp [Operation.rank, hop]
    | star name prognosis hprognosis =>
      obtain ⟨hserve, hprognoses, hentry⟩ := Session.serve_star (m := m) hop hleft
      refine Or.inl ⟨hentry, hprognoses, ?_, ?_⟩
      · rw [hserve]
        refine ⟨h.report, h.going, h.fits, h.got, h.down,
          Or.inr ⟨name, prognosis, hprognosis, rfl, rfl, ?_⟩⟩
        rw [List.append_assoc]
        exact hrest
      · rw [hserve]
        apply measure_lt_of_rank
        simp [Operation.rank, hop]
  · have hline : IsLine delim (prognosis ++ [delim]) := ⟨prognosis, hprognosis, rfl⟩
    rw [List.append_assoc, ← List.append_nil (prognosis ++ [delim])] at hbytes
    obtain ⟨left, hleft, hrest⟩ := hline.exists_left hmem hbytes
    obtain ⟨rfl, hrest'⟩ := List.append_eq_nil_iff.mp hrest
    obtain ⟨hup, hunsent⟩ := List.append_eq_nil_iff.mp hrest'
    obtain ⟨hserve, hprognoses, hentry⟩ := Session.serve_prognosis (m := m) hop hprognosis hleft
    refine Or.inr ⟨hentry, hprognoses, ?_, ?_⟩
    · rw [hserve]
      refine ⟨htext, hs, h.fits, hunsent, hup, Or.inl rfl,
        Or.inl ⟨h.going, h.report, Operation.noConfusion, ?_⟩⟩
      rw [h.got, h.down]
      rfl
    · rw [hserve]
      apply measure_lt_of_rank
      simp [Operation.rank, hop]

/-- **Before the request is handled**, a step keeps it so, or it handles the request: then the
entry is that of the request, and the response is made from the prognoses as they are. -/
theorem step (h : s.Asking r)
    (hm : ∀ zodiac prognosis, m zodiac = some prognosis → delim ∉ prognosis)
    (hs : s.Step r m e m' s') :
    (e = none ∧ m' = m ∧ s'.Asking r ∧ s'.measure false < s.measure false) ∨
    (e = some r.entry ∧ m' = (r.serve m).2 ∧ s'.Answering r (r.response m) ∧
      s'.measure true < s.measure false) := by
  cases hs with
  | connect hstage =>
    refine Or.inl ⟨rfl, rfl, ⟨h.report, h.going, h.fits, h.got, h.down, h.server⟩, ?_⟩
    apply measure_lt_of_rank
    simp [Stage.rank, hstage]
  | accept hstage =>
    refine Or.inl ⟨rfl, rfl, ⟨h.report, h.going, h.fits, h.got, h.down, h.server⟩, ?_⟩
    apply measure_lt_of_rank
    simp [Stage.rank, hstage]
  | clientSends hop hsend =>
    refine Or.inl ⟨rfl, rfl, h.of_eq h.report h.going h.fits (hop.got_eq _) h.down rfl ?_, ?_⟩
    · rw [hop.sent hsend]
    · have hlt := hsend.length_lt
      have hload : s.client.load = s.client.buffer.length := hop.load_eq s.client.buffer
      refine measure_lt_of_load rfl rfl rfl (Nat.add_lt_add_right ?_ _)
      rw [hop.load_eq, hload]
      exact hlt
  | clientReceives hop hreceive => exact absurd h.down hreceive.ne_nil
  | clientHandles hready =>
    have hgoes : s.client.Goes r (s.client.handle r .success) := by
      rcases hready with ⟨hop, -⟩ | ⟨hop, hbuffer⟩ | ⟨hop, hmem⟩
      · exact Client.goes_connect hop
      · exact Client.goes_write h.fits hop hbuffer
      · have hgot : s.client.got = s.client.buffer := by simp [Client.got, hop]
        rw [← hgot, h.got] at hmem
        exact absurd hmem List.not_mem_nil
    refine Or.inl ⟨rfl, rfl, h.goes hgoes, measure_lt_of_rank ?_⟩
    have hrank := hgoes.rank
    dsimp only
    omega
  | serverReceives hstage hop hreceive =>
    refine Or.inl ⟨rfl, rfl, h.of_eq h.report h.going h.fits h.got h.down rfl ?_, ?_⟩
    · dsimp only
      rw [← List.append_assoc, hreceive.append_eq, List.append_assoc]
    · have hlt := hreceive.length_lt
      have hload : s.load = 0 := hop.load_eq s.buffer s.up
      refine measure_lt_of_load rfl rfl rfl ?_
      rw [hop.load_eq, hload]
      dsimp only
      omega
  | serverSends hstage hop hsend => exact absurd hop h.not_writeResponse
  | serverHandles hstage hready =>
    rcases hready with ⟨-, hmem⟩ | ⟨hop, -⟩
    · exact h.handles hm hstage hmem
    · exact absurd hop h.not_writeResponse
  | serverEnds hstage hop hnot hup hclosed => exact absurd hclosed h.going

end Session.Asking

namespace Session.Answering

theorem line (h : s.Answering r response) : IsLine delim (response ++ [delim]) :=
  ⟨response, h.text, rfl⟩

/-- The server has nothing to read any more. -/
theorem buffer_of_reads (h : s.Answering r response) (hop : s.Reads) :
    s.operation = .readRequest ∧ s.buffer = [] := by
  rcases h.server with hwrite | ⟨hread | hstop, hbuffer⟩
  · rcases hop with hop | ⟨zodiac, hop⟩
    · exact Operation.noConfusion (hop.symm.trans hwrite)
    · exact Operation.noConfusion (hop.symm.trans hwrite)
  · exact ⟨hread, hbuffer⟩
  · rcases hop with hop | ⟨zodiac, hop⟩
    · exact Operation.noConfusion (hop.symm.trans hstop)
    · exact Operation.noConfusion (hop.symm.trans hstop)

/-- The client waits for the response. -/
theorem waits (h : s.Answering r response) (hgoing : s.client.operation ≠ .ended) :
    s.client.report = none ∧ s.operation ≠ .stopped ∧
      s.client.got ++ (s.down ++ s.buffer) = response ++ [delim] := by
  rcases h.client with ⟨-, hreport, hopen, hbytes⟩ | ⟨hclient, -, -⟩
  · rw [List.append_assoc] at hbytes
    exact ⟨hreport, hopen, hbytes⟩
  · rw [hclient] at hgoing
    exact absurd rfl hgoing

/-- The client calls a handler. -/
theorem goes {c : Client} (h : s.Answering r response) (hgoing : s.client.operation ≠ .ended)
    (hc : s.client.Goes r c) : ({ s with client := c } : Session).Answering r response := by
  obtain ⟨hreport, hopen, hbytes⟩ := h.waits hgoing
  refine ⟨h.text, h.accepted, hc.fits, hc.unsent.trans h.unsent, h.up, h.server,
    Or.inl ⟨hc.going, hc.report.trans hreport, hopen, ?_⟩⟩
  dsimp only
  rw [hc.got, List.append_assoc]
  exact hbytes

/-- **The client has read a line**: the response, and nothing behind it. -/
theorem reads (h : s.Answering r response) (hop : s.client.operation = .readResponse)
    (hmem : delim ∈ s.client.buffer) :
    s.client.handle r .success = ⟨[], .ended, some ⟨response, r.outcome response⟩⟩ ∧
      s.down = [] ∧ s.buffer = [] := by
  obtain ⟨-, -, hbytes⟩ := h.waits (by rw [hop]; exact ClientOperation.noConfusion)
  have hgot : s.client.got = s.client.buffer := by simp [Client.got, hop]
  rw [hgot, ← List.append_nil (response ++ [delim])] at hbytes
  obtain ⟨left, hleft, hrest⟩ := h.line.exists_left hmem hbytes
  obtain ⟨rfl, hrest'⟩ := List.append_eq_nil_iff.mp hrest
  rw [List.append_nil] at hleft
  exact ⟨Client.handle_response hop hleft h.text, List.append_eq_nil_iff.mp hrest'⟩

/-- **After the request has been handled**, a step brings the response to the client, and nothing
is recorded any more. -/
theorem step (h : s.Answering r response) (hs : s.Step r m e m' s') :
    e = none ∧ m' = m ∧ s'.Answering r response ∧ s'.measure true < s.measure true := by
  cases hs with
  | connect hstage => exact Stage.noConfusion (h.accepted.symm.trans hstage)
  | accept hstage => exact Stage.noConfusion (h.accepted.symm.trans hstage)
  | clientSends hop hsend =>
    obtain ⟨behind, hbehind⟩ := hop.unsent_eq r
    have hnil : s.client.buffer ++ behind = [] := (hbehind s.client.buffer).symm.trans h.unsent
    exact absurd (List.append_eq_nil_iff.mp hnil).1 hsend.ne_nil
  | @clientReceives buffer down hop hreceive =>
    have hgoing : s.client.operation ≠ .ended := by
      rw [hop]
      exact ClientOperation.noConfusion
    obtain ⟨hreport, hopen, hbytes⟩ := h.waits hgoing
    have hgot : ∀ bs, ({ s.client with buffer := bs } : Client).got = bs := by
      intro bs
      simp [Client.got, hop]
    have hunsent : ∀ bs, ({ s.client with buffer := bs } : Client).unsent r = [] := by
      intro bs
      simp [Client.unsent, hop]
    have hload : ∀ bs, ({ s.client with buffer := bs } : Client).load = 0 := by
      intro bs
      simp [Client.load, hop]
    refine ⟨rfl, rfl, ⟨h.text, h.accepted, h.fits, hunsent buffer, h.up, h.server,
      Or.inl ⟨hgoing, hreport, hopen, ?_⟩⟩, measure_lt_of_load rfl rfl rfl ?_⟩
    · have heq : s.client.got = s.client.buffer := hgot s.client.buffer
      dsimp only
      rw [hgot, hreceive.append_eq, List.append_assoc, ← heq]
      exact hbytes
    · have hlt := hreceive.length_lt
      have hload' : s.client.load = 0 := hload s.client.buffer
      have hserver : ({ s with client := { s.client with buffer := buffer }, down := down } :
        Session).load = s.load := rfl
      rw [hserver]
      dsimp only
      rw [hload, hload']
      omega
  | clientHandles hready =>
    rcases hready with ⟨hop, -⟩ | ⟨hop, hbuffer⟩ | ⟨hop, hmem⟩
    · have hgoes : s.client.Goes r (s.client.handle r .success) := Client.goes_connect hop
      have hrank := hgoes.rank
      refine ⟨rfl, rfl, h.goes ?_ hgoes, measure_lt_of_rank ?_⟩
      · rw [hop]
        exact ClientOperation.noConfusion
      · dsimp only
        omega
    · have hgoes := Client.goes_write h.fits hop hbuffer
      have hrank := hgoes.rank
      refine ⟨rfl, rfl, h.goes ?_ hgoes, measure_lt_of_rank ?_⟩
      · rcases hop with hop | hop <;> rw [hop] <;> exact ClientOperation.noConfusion
      · dsimp only
        omega
    · obtain ⟨hclient, hdown, hbuffer⟩ := h.reads hop hmem
      refine ⟨rfl, rfl, ⟨h.text, h.accepted, ?_, ?_, h.up, h.server,
        Or.inr ⟨hclient, hdown, hbuffer⟩⟩, measure_lt_of_rank ?_⟩
      · intro hop'
        dsimp only at hop'
        rw [hclient] at hop'
        exact ClientOperation.noConfusion hop'
      · dsimp only
        rw [hclient]
        rfl
      · dsimp only
        rw [hclient, hop]
        simp [ClientOperation.rank]
  | serverReceives hstage hop hreceive => exact absurd h.up hreceive.ne_nil
  | serverSends hstage hop hsend =>
    rcases h.client with ⟨hgoing, hreport, hopen, hbytes⟩ | ⟨-, -, hbuffer⟩
    · have hlt := hsend.length_lt
      refine ⟨rfl, rfl, ⟨h.text, h.accepted, h.fits, h.unsent, h.up, Or.inl hop,
        Or.inl ⟨hgoing, hreport, hopen, ?_⟩⟩, measure_lt_of_load rfl rfl rfl ?_⟩
      · rw [List.append_assoc] at hbytes
        dsimp only
        rw [List.append_assoc, hsend.append_eq]
        exact hbytes
      · have hload : s.load = s.buffer.length := by simp [Session.load, hop]
        simp only [Session.load, hop] at hload ⊢
        omega
    · exact absurd hbuffer hsend.ne_nil
  | serverHandles hstage hready =>
    rcases hready with ⟨hop, hmem⟩ | ⟨hop, hbuffer⟩
    · rw [(h.buffer_of_reads hop).2] at hmem
      exact absurd hmem List.not_mem_nil
    · obtain ⟨hserve, hprognoses, hentry⟩ := Session.serve_write (m := m) hop
      refine ⟨hentry, hprognoses, ?_, ?_⟩
      · rw [hserve]
        refine ⟨h.text, h.accepted, h.fits, h.unsent, h.up, Or.inr ⟨Or.inl rfl, hbuffer⟩, ?_⟩
        rcases h.client with ⟨hgoing, hreport, -, hbytes⟩ | hdone
        · exact Or.inl ⟨hgoing, hreport, Operation.noConfusion, hbytes⟩
        · exact Or.inr hdone
      · rw [hserve]
        apply measure_lt_of_rank
        simp [Operation.rank, hop]
  | serverEnds hstage hop hnot hup hclosed =>
    obtain ⟨hread, hbuffer⟩ := h.buffer_of_reads hop
    obtain ⟨hserve, hprognoses⟩ := Session.serve_eof (m := m) hop
    refine ⟨rfl, hprognoses, ?_, ?_⟩
    · rw [hserve]
      refine ⟨h.text, h.accepted, h.fits, h.unsent, h.up, Or.inr ⟨Or.inr rfl, hbuffer⟩, ?_⟩
      rcases h.client with ⟨hgoing, -, -, -⟩ | hdone
      · exact absurd hclosed hgoing
      · exact Or.inr hdone
    · rw [hserve]
      apply measure_lt_of_rank
      simp [Operation.rank, hread]

end Session.Answering

/-- **What a step of a session does.**  Either it is silent, or it handles the request, which it
does once; and in both cases it comes nearer to the end. -/
theorem Session.Matched.step {answer : Option (List Byte)} (h : s.Matched r answer)
    (hm : ∀ zodiac prognosis, m zodiac = some prognosis → delim ∉ prognosis)
    (hs : s.Step r m e m' s') :
    (e = none ∧ m' = m ∧ s'.Matched r answer ∧
      s'.measure answer.isSome < s.measure answer.isSome) ∨
    (answer = none ∧ e = some r.entry ∧ m' = (r.serve m).2 ∧
      s'.Matched r (some (r.response m)) ∧ s'.measure true < s.measure false) := by
  cases answer with
  | none =>
    rcases Session.Asking.step h hm hs with hsilent | hhandled
    · exact Or.inl hsilent
    · exact Or.inr ⟨rfl, hhandled⟩
  | some response => exact Or.inl (Session.Answering.step h hs)

/-! ## There is a step

Some party can always go on: a client that writes or has a line, or else the server, since the
line that the client waits for must be somewhere before it. -/

/-- A client that is not waiting for the response can go on. -/
theorem Session.exists_step_client (r : Request) (m : PrognosisManager)
    (hgoing : s.client.operation ≠ .ended) :
    (∃ e m' s', s.Step r m e m' s') ∨
      s.stage = .accepted ∧ s.client.operation = .readResponse := by
  cases hstage : s.stage with
  | offline => exact Or.inl ⟨_, _, _, .connect hstage⟩
  | backlog => exact Or.inl ⟨_, _, _, .accept hstage⟩
  | accepted =>
    have hwrites : s.client.Writes → ∃ e m' s', s.Step r m e m' s' := by
      intro hop
      by_cases hbuffer : s.client.buffer = []
      · exact ⟨_, _, _, .clientHandles (Or.inr (Or.inl ⟨hop, hbuffer⟩))⟩
      · exact ⟨_, _, _, .clientSends hop (Pipe.sends_all hbuffer s.up)⟩
    cases hop : s.client.operation with
    | connect =>
      refine Or.inl ⟨_, _, _, .clientHandles (Or.inl ⟨hop, ?_⟩)⟩
      rw [hstage]
      exact Stage.noConfusion
    | writeRequest => exact Or.inl (hwrites (Or.inl hop))
    | writePrognosis => exact Or.inl (hwrites (Or.inr hop))
    | readResponse => exact Or.inr ⟨rfl, rfl⟩
    | ended => exact absurd hop hgoing

theorem Session.Asking.exists_step (h : s.Asking r) (m : PrognosisManager) :
    ∃ e m' s', s.Step r m e m' s' := by
  rcases s.exists_step_client r m h.going with hstep | ⟨hstage, hop⟩
  · exact hstep
  · have hunsent : s.client.unsent r = [] := by simp [Client.unsent, hop]
    have hmem : delim ∈ s.buffer ++ s.up := by
      rcases h.server with ⟨-, hbytes⟩ | ⟨name, prognosis, hp, -, -, hbytes⟩
      · rw [hunsent, List.append_nil] at hbytes
        rw [hbytes, r.bytes_eq]
        exact List.mem_append_left _ r.first_isLine.mem
      · rw [hunsent, List.append_nil] at hbytes
        rw [hbytes]
        exact List.mem_append_right _ List.mem_cons_self
    by_cases hbuffer : delim ∈ s.buffer
    · exact ⟨_, _, _, .serverHandles hstage (Or.inl ⟨h.reads, hbuffer⟩)⟩
    · have hup : s.up ≠ [] := by
        intro hnil
        rw [hnil, List.append_nil] at hmem
        exact hbuffer hmem
      exact ⟨_, _, _, .serverReceives hstage h.reads (Pipe.receives_all hbuffer hup)⟩

theorem Session.Answering.exists_step (h : s.Answering r response)
    (hgoing : s.client.operation ≠ .ended) (m : PrognosisManager) :
    ∃ e m' s', s.Step r m e m' s' := by
  rcases s.exists_step_client r m hgoing with hstep | ⟨hstage, hop⟩
  · exact hstep
  · obtain ⟨-, -, hbytes⟩ := h.waits hgoing
    have hgot : s.client.got = s.client.buffer := by simp [Client.got, hop]
    have hmem : delim ∈ s.client.buffer ++ (s.down ++ s.buffer) := by
      rw [← hgot, hbytes]
      exact h.line.mem
    by_cases hclient : delim ∈ s.client.buffer
    · exact ⟨_, _, _, .clientHandles (Or.inr (Or.inr ⟨hop, hclient⟩))⟩
    · by_cases hdown : s.down = []
      · have hbuffer : s.buffer ≠ [] := by
          intro hnil
          rw [hdown, hnil, List.append_nil, List.append_nil] at hmem
          exact hclient hmem
        have hwrite : s.operation = .writeResponse :=
          h.server.resolve_right fun hread => hbuffer hread.2
        exact ⟨_, _, _, .serverSends hstage hwrite (Pipe.sends_all hbuffer s.down)⟩
      · exact ⟨_, _, _, .clientReceives hop (Pipe.receives_all hclient hdown)⟩

/-- **No session is stuck** before its client has the response, whatever the prognoses are at the
moment. -/
theorem Session.Matched.exists_step {answer : Option (List Byte)} (h : s.Matched r answer)
    (hreport : s.client.report = none) (m : PrognosisManager) :
    ∃ e m' s', s.Step r m e m' s' := by
  cases answer with
  | none => exact Session.Asking.exists_step h m
  | some response =>
    refine Session.Answering.exists_step h ?_ m
    rcases (show s.Answering r response from h).client with ⟨hgoing, -⟩ | ⟨hclient, -⟩
    · exact hgoing
    · rw [hclient] at hreport
      cases hreport

end Step

end Astrologer.Boost
