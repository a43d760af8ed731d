import Astrologer.Boost.Exchanges

/-!
# A human behind the proxy

A `Route` is a `Human` of `client.cpp`, the connection of `proxy.cpp` that serves it and the
connection of `server.cpp` behind that one, with the four pipes between them.  The proxy makes
its connection to the server first and accepts the client then (`Boost.Accepting` is about the
order of these); after that each of the three goes on by itself.

The request is one line and so is the response.  Until the server handles the request
(`Route.Asking`) the bytes of the request are spread over what lies between the client and the
server, and the way back is empty; from then on (`Route.Answering`) the bytes of the response
are spread over the way back.  The proxy takes a line from one side, whole, before it gives it
to the other side, so on either way the bytes are on one side of the proxy only
(`Route.Forwarding`, `Route.Returning`).

As in a `Session`, no operation fails in any of the three programs and no deadline passes.
-/

namespace Astrologer.Boost

open Lines

/-! ## The three parties

The client and the server's connection are those of `Boost.Clients`, and the proxy's is the one of
`Boost.Proxy`.  A step belongs to one of the three, or it makes one of the two connections; what
the server does to the map is recorded as in a session, so the store cannot tell who is behind it.
-/

/-- A client, the proxy that it has reached, the connection of the server behind the proxy, and
the bytes on the way between them. -/
structure Route where
  client : Client
  /-- The connection of the client and the proxy. -/
  stage : Stage
  /-- From the client to the proxy. -/
  up : List Byte
  /-- From the proxy to the client. -/
  down : List Byte
  proxy : Proxy.Connection
  /-- The connection of the proxy and the server. -/
  upstream : Stage
  toServer : List Byte
  toProxy : List Byte
  /-- The server's connection. -/
  buffer : List Byte
  operation : Operation

/-- The human is constructed, and so is the connection of the proxy. -/
def Route.new (name : Named) : Route where
  client := .new (.client name)
  stage := .offline
  up := []
  down := []
  proxy := ⟨[], [], .readRequest⟩
  upstream := .offline
  toServer := []
  toProxy := []
  buffer := []
  operation := .readRequest

/-- The server's connection, with the prognoses that it shares. -/
def Route.connection (s : Route) (m : PrognosisManager) : Connection where
  buffer := s.buffer
  operation := s.operation
  prognosisManager := m
  reads := []
  closes := false
  writes := []

/-- The server's handler of the operation under way. -/
def Route.serve (s : Route) (m : PrognosisManager) (ec : ErrorCode) : Route :=
  let c := (s.connection m).handle ec
  { s with buffer := c.buffer, operation := c.operation }

def Route.prognoses (s : Route) (m : PrognosisManager) (ec : ErrorCode) : PrognosisManager :=
  ((s.connection m).handle ec).prognosisManager

/-- What the server's handler does to the prognoses when its operation has succeeded.  A request
line that is answered at once is one for a prognosis; that of a star is followed by another line,
and it is this line that is stored. -/
def Route.entry (s : Route) (m : PrognosisManager) : Option Entry :=
  match s.operation with
  | .readRequest => if (s.serve m .success).operation = .writeResponse then some .asked else none
  | .readPrognosis zodiac => some (.stored zodiac (getline s.buffer).1)
  | .writeResponse => none
  | .stopped => none

/-- The server's `async_read_until` is under way. -/
def Route.Reads (s : Route) : Prop :=
  s.operation = .readRequest ∨ ∃ zodiac, s.operation = .readPrognosis zodiac

/-- The client's operation is complete. -/
def Route.ClientReady (s : Route) : Prop :=
  s.client.operation = .connect ∧ s.stage ≠ .offline ∨ s.client.Writes ∧ s.client.buffer = [] ∨
    s.client.operation = .readResponse ∧ delim ∈ s.client.buffer

/-- The proxy's operation is complete. -/
def Route.ProxyReady (s : Route) : Prop :=
  s.proxy.operation = .readRequest ∧ delim ∈ s.proxy.clientBuffer ∨
  s.proxy.operation = .writeRequest ∧ s.proxy.connectionBuffer = [] ∨
  s.proxy.operation = .readResponse ∧ delim ∈ s.proxy.connectionBuffer ∨
  s.proxy.operation = .writeResponse ∧ s.proxy.clientBuffer = []

/-- The other side of a read of the proxy is closed. -/
def Route.ProxyCut (s : Route) : Prop :=
  s.proxy.operation = .readRequest ∧ delim ∉ s.proxy.clientBuffer ∧ s.up = [] ∧
    s.client.operation = .ended ∨
  s.proxy.operation = .readResponse ∧ delim ∉ s.proxy.connectionBuffer ∧ s.toProxy = [] ∧
    s.operation = .stopped

/-- The server's operation is complete. -/
def Route.ServerReady (s : Route) : Prop :=
  s.Reads ∧ delim ∈ s.buffer ∨ s.operation = .writeResponse ∧ s.buffer = []

/-- A connection is made.  The proxy connects to the server before it accepts a client, so the
client is accepted only when the proxy has reached the server. -/
inductive Route.LinkStep (s : Route) : Route → Prop
  | reach (h : s.upstream = .offline) : LinkStep s { s with upstream := .backlog }
  | serverAccepts (h : s.upstream = .backlog) : LinkStep s { s with upstream := .accepted }
  | connect (h : s.stage = .offline) : LinkStep s { s with stage := .backlog }
  | proxyAccepts (h : s.stage = .backlog) (hup : s.upstream ≠ .offline) :
      LinkStep s { s with stage := .accepted }

/-- The client goes on: it sends or receives a piece, or the operation it is at is complete and
its handler is called. -/
inductive Route.ClientStep (name : Named) (s : Route) : Route → Prop
  | sends {buffer up : List Byte} (hop : s.client.Writes)
      (h : Pipe.Sends s.client.buffer s.up buffer up) :
      ClientStep name s { s with client := { s.client with buffer := buffer }, up := up }
  | receives {buffer down : List Byte} (hop : s.client.operation = .readResponse)
      (h : Pipe.Receives delim s.client.buffer s.down buffer down) :
      ClientStep name s { s with client := { s.client with buffer := buffer }, down := down }
  | handles (h : s.ClientReady) :
      ClientStep name s { s with client := s.client.handle (.client name) .success }

/-- The proxy goes on: it receives and sends pieces in both directions, a handler is called when
its operation is complete, and a read fails when the other side has closed and nothing more is
there. -/
inductive Route.ProxyStep (s : Route) : Route → Prop
  | receivesRequest {buffer up : List Byte} (hop : s.proxy.operation = .readRequest)
      (h : Pipe.Receives delim s.proxy.clientBuffer s.up buffer up) :
      ProxyStep s { s with proxy := { s.proxy with clientBuffer := buffer }, up := up }
  | sendsRequest {buffer toServer : List Byte} (hop : s.proxy.operation = .writeRequest)
      (h : Pipe.Sends s.proxy.connectionBuffer s.toServer buffer toServer) :
      ProxyStep s { s with
        proxy := { s.proxy with connectionBuffer := buffer }, toServer := toServer }
  | receivesResponse {buffer toProxy : List Byte} (hop : s.proxy.operation = .readResponse)
      (h : Pipe.Receives delim s.proxy.connectionBuffer s.toProxy buffer toProxy) :
      ProxyStep s { s with
        proxy := { s.proxy with connectionBuffer := buffer }, toProxy := toProxy }
  | sendsResponse {buffer down : List Byte} (hop : s.proxy.operation = .writeResponse)
      (h : Pipe.Sends s.proxy.clientBuffer s.down buffer down) :
      ProxyStep s { s with proxy := { s.proxy with clientBuffer := buffer }, down := down }
  | handles (h : s.ProxyReady) : ProxyStep s { s with proxy := s.proxy.handle .success }
  | ends (h : s.ProxyCut) : ProxyStep s { s with proxy := s.proxy.handle .eof }

/-- The server goes on, from the prognoses `m`, as it does in a session: its read fails when the
proxy has stopped and nothing more is there. -/
inductive Route.ServerStep (m : PrognosisManager) (s : Route) :
    Option Entry → PrognosisManager → Route → Prop
  | receives {buffer toServer : List Byte} (hop : s.Reads)
      (h : Pipe.Receives delim s.buffer s.toServer buffer toServer) :
      ServerStep m s none m { s with buffer := buffer, toServer := toServer }
  | sends {buffer toProxy : List Byte} (hop : s.operation = .writeResponse)
      (h : Pipe.Sends s.buffer s.toProxy buffer toProxy) :
      ServerStep m s none m { s with buffer := buffer, toProxy := toProxy }
  | handles (h : s.ServerReady) :
      ServerStep m s (s.entry m) (s.prognoses m .success) (s.serve m .success)
  | ends (hop : s.Reads) (h : delim ∉ s.buffer) (hup : s.toServer = [])
      (hclosed : s.proxy.operation = .stopped) :
      ServerStep m s none (s.prognoses m .eof) (s.serve m .eof)

/-- The steps of a route, from the prognoses `m`: the parties and their connections, in any
order.  As in a session no operation fails but at an end of a stream, and no deadline passes. -/
inductive Route.Step (name : Named) (m : PrognosisManager) (s : Route) :
    Option Entry → PrognosisManager → Route → Prop
  | link {s' : Route} (h : s.LinkStep s') : Step name m s none m s'
  | client {s' : Route} (h : s.ClientStep name s') : Step name m s none m s'
  | proxy {s' : Route} (hs : s.stage = .accepted) (h : s.ProxyStep s') : Step name m s none m s'
  | server {e : Option Entry} {m' : PrognosisManager} {s' : Route} (hs : s.upstream = .accepted)
      (h : s.ServerStep m e m' s') : Step name m s e m' s'

/-! ## Where the bytes are

The proxy cuts each way into two halves, with a whole line handed from the one to the other.  So
there are two places for the request and three for the response, and in each of them everything
else is empty. -/

/-- Where the request is: on the way to the proxy, or on the way from the proxy to the
server. -/
inductive Route.Forwarding (name : Named) (s : Route) : Prop
  | reading (hop : s.proxy.operation = .readRequest) (hconnection : s.proxy.connectionBuffer = [])
      (hserver : s.toServer = [] ∧ s.buffer = [])
      (h : s.proxy.clientBuffer ++ (s.up ++ s.client.unsent (.client name)) =
        name.line clientRequestType)
  | writing (hs : s.stage = .accepted) (hclient : s.up = [] ∧ s.client.unsent (.client name) = [])
      (hbuffer : s.proxy.clientBuffer = [])
      (hop : s.proxy.operation = .writeRequest ∨
        s.proxy.operation = .readResponse ∧ s.proxy.connectionBuffer = [])
      (h : s.buffer ++ (s.toServer ++ s.proxy.connectionBuffer) = name.line clientRequestType)

/-- The request has not been handled: nothing has come back to the proxy or to the client, the
server waits for a request, and `Forwarding` says where the request is. -/
structure Route.Asking (name : Named) (s : Route) : Prop where
  report : s.client.report = none
  going : s.client.operation ≠ .ended
  fits : s.client.Fits (.client name)
  got : s.client.got = []
  down : s.down = []
  toProxy : s.toProxy = []
  operation : s.operation = .readRequest
  forwarding : s.Forwarding name

/-- Where the response is: on the way to the proxy, on the way from the proxy to the client, or
read. -/
inductive Route.Returning (name : Named) (response : List Byte) (s : Route) : Prop
  | reading (hgoing : s.client.operation ≠ .ended ∧ s.client.report = none)
      (hopen : s.operation ≠ .stopped) (hclient : s.client.got = [] ∧ s.down = [])
      (hbuffer : s.proxy.clientBuffer = [])
      (hop : s.proxy.operation = .writeRequest ∧ s.proxy.connectionBuffer = [] ∨
        s.proxy.operation = .readResponse)
      (h : s.proxy.connectionBuffer ++ (s.toProxy ++ s.buffer) = response ++ [delim])
  | writing (hgoing : s.client.operation ≠ .ended ∧ s.client.report = none)
      (hopen : s.operation ≠ .stopped) (hserver : s.toProxy = [] ∧ s.buffer = [])
      (hconnection : s.proxy.connectionBuffer = [])
      (hop : s.proxy.operation = .writeResponse ∨
        s.proxy.operation = .readRequest ∧ s.proxy.clientBuffer = [])
      (h : s.client.got ++ (s.down ++ s.proxy.clientBuffer) = response ++ [delim])
  | read (hclient : s.client = ⟨[], .ended, some ⟨response, Human.outcome response⟩⟩)
      (hserver : s.toProxy = [] ∧ s.buffer = []) (hconnection : s.proxy.connectionBuffer = [])
      (hbuffer : s.down = [] ∧ s.proxy.clientBuffer = [])
      (hop : s.proxy.operation = .writeResponse ∨ s.proxy.operation = .readRequest ∨
        s.proxy.operation = .stopped)

/-- The request has been handled, with this response: nothing is on the way to the server any
more, and `Returning` says where the response is. -/
structure Route.Answering (name : Named) (response : List Byte) (s : Route) : Prop where
  text : delim ∉ response
  stage : s.stage = .accepted
  upstream : s.upstream = .accepted
  fits : s.client.Fits (.client name)
  client : s.up = [] ∧ s.client.unsent (.client name) = []
  toServer : s.toServer = []
  server : s.operation = .writeResponse ∨
    (s.operation = .readRequest ∨ s.operation = .stopped) ∧ s.buffer = []
  returning : s.Returning name response

/-- Where the three are: the request is on its way to the server, until it has been handled; then
the response is on its way back. -/
def Route.Matched (name : Named) (s : Route) : Option (List Byte) → Prop
  | none => s.Asking name
  | some response => s.Answering name response

theorem Route.new_asking (name : Named) : (Route.new name).Asking name where
  report := rfl
  going := ClientOperation.noConfusion
  fits := fun h => ClientOperation.noConfusion h
  got := rfl
  down := rfl
  toProxy := rfl
  operation := rfl
  forwarding := .reading rfl rfl ⟨rfl, rfl⟩ (by
    simp [new, Client.new_eq, Client.unsent, Request.first, Request.second])

/-! ## How far it is to the end

Every handler starts an operation that is nearer to the end, and between two handlers bytes move
on. The measure puts the ranks of the operations in front of the bytes that the reads and the
writes have before them. -/

/-- The proxy reads requests before and after the one that it relays. -/
def Proxy.Operation.rank (handled : Bool) : Proxy.Operation → ℕ
  | .readRequest => if handled then 1 else 5
  | .writeRequest => 4
  | .readResponse => 3
  | .writeResponse => 2
  | .stopped => 0

/-- The bytes that a write has to send. -/
def Proxy.Connection.load (c : Proxy.Connection) : ℕ :=
  match c.operation with
  | .writeRequest => c.connectionBuffer.length
  | .writeResponse => c.clientBuffer.length
  | _ => 0

def Route.load (s : Route) : ℕ :=
  match s.operation with
  | .writeResponse => s.buffer.length
  | _ => 0

/-- The operations to come count first, and then the bytes. -/
def Route.measure (handled : Bool) (s : Route) : ℕ ×ₗ ℕ :=
  toLex (s.stage.rank + s.upstream.rank + s.client.operation.rank + s.proxy.operation.rank handled +
      s.operation.rank handled,
    2 * s.client.load + s.up.length + s.down.length + 2 * s.proxy.load + s.toServer.length +
      s.toProxy.length + 2 * s.load)

section Measure

variable {s s' : Route} {handled handled' : Bool}

theorem Route.measure_lt_of_rank
    (h : s'.stage.rank + s'.upstream.rank + s'.client.operation.rank +
        s'.proxy.operation.rank handled' + s'.operation.rank handled' <
      s.stage.rank + s.upstream.rank + s.client.operation.rank +
        s.proxy.operation.rank handled + s.operation.rank handled) :
    s'.measure handled' < s.measure handled := Prod.Lex.toLex_lt_toLex.mpr (Or.inl h)

theorem Route.measure_lt_of_load (hstage : s'.stage = s.stage)
    (hupstream : s'.upstream = s.upstream)
    (hclient : s'.client.operation = s.client.operation)
    (hproxy : s'.proxy.operation = s.proxy.operation) (hserver : s'.operation = s.operation)
    (h : 2 * s'.client.load + s'.up.length + s'.down.length + 2 * s'.proxy.load +
        s'.toServer.length + s'.toProxy.length + 2 * s'.load <
      2 * s.client.load + s.up.length + s.down.length + 2 * s.proxy.load + s.toServer.length +
        s.toProxy.length + 2 * s.load) :
    s'.measure handled < s.measure handled := by
  refine Prod.Lex.toLex_lt_toLex.mpr (Or.inr ⟨?_, h⟩)
  rw [hstage, hupstream, hclient, hproxy, hserver]

end Measure

/-! ## The server

The server's side of a route is the one of a session, so what its handlers do is taken from there.
-/

section Server

variable {s : Route} {m : PrognosisManager}

/-- The request is handled. -/
theorem Route.serve_request {name : Named} (hop : s.operation = .readRequest)
    (h : s.buffer = name.line clientRequestType) :
    s.serve m .success = { s with
        buffer := (m name.zodiac).getD unknownPrognosis ++ [delim]
        operation := .writeResponse } ∧
      s.prognoses m .success = m ∧ s.entry m = some .asked := by
  have hc : (s.connection m).handle .success = { s.connection m with
      buffer := [] ++ ((m name.zodiac).getD unknownPrognosis ++ [delim])
      operation := .writeResponse } := by
    rw [Connection.handle]
    simp only [connection, hop]
    exact handleReadRequest_client (h.trans (List.append_nil _).symm)
  have hserve : s.serve m .success = { s with
      buffer := (m name.zodiac).getD unknownPrognosis ++ [delim]
      operation := .writeResponse } := by
    rw [serve, hc]
    rfl
  refine ⟨hserve, ?_, ?_⟩
  · rw [prognoses, hc]
    rfl
  · simp only [entry, hop, hserve]
    rfl

/-- The response is sent. -/
theorem Route.serve_write (hop : s.operation = .writeResponse) :
    s.serve m .success = { s with operation := .readRequest } ∧
      s.prognoses m .success = m ∧ s.entry m = none := by
  have hc : (s.connection m).handle .success =
      { s.connection m with operation := .readRequest } := by
    rw [Connection.handle]
    simp only [connection, hop]
    rfl
  refine ⟨?_, ?_, ?_⟩
  · rw [serve, hc]
    rfl
  · rw [prognoses, hc]
    rfl
  · simp only [entry, hop]

/-- The proxy has closed its side. -/
theorem Route.serve_eof (hop : s.operation = .readRequest) :
    s.serve m .eof = { s with operation := .stopped } ∧ s.prognoses m .eof = m := by
  have hc : (s.connection m).handle .eof = { s.connection m with operation := .stopped } := by
    rw [Connection.handle]
    simp only [connection, hop]
    rfl
  constructor
  · rw [serve, hc]
    rfl
  · rw [prognoses, hc]
    rfl

theorem Route.Reads.ne_writeResponse (h : s.Reads) : s.operation ≠ .writeResponse := by
  intro hop
  rcases h with hop' | ⟨zodiac, hop'⟩
  · exact Operation.noConfusion (hop.symm.trans hop')
  · exact Operation.noConfusion (hop.symm.trans hop')

end Server

/-! ## Before the request is handled

A step of each party is looked at by itself, for each place of the request.  One of them handles
the request, when all of it is in the server's buffer, and that is where `Asking` ends. -/

namespace Route.Asking

variable {name : Named} {s s' : Route} {m m' : PrognosisManager} {e : Option Entry}

theorem step_link (h : s.Asking name) (hs : s.LinkStep s') :
    s'.Asking name ∧ s'.measure false < s.measure false := by
  have hforwarding := h.forwarding
  cases hs with
  | reach hstage =>
    refine ⟨⟨h.report, h.going, h.fits, h.got, h.down, h.toProxy, h.operation, ?_⟩,
      measure_lt_of_rank (by simp [Stage.rank, hstage])⟩
    cases hforwarding with
    | reading hop hconnection hserver hbytes => exact .reading hop hconnection hserver hbytes
    | writing hs hclient hbuffer hop hbytes => exact .writing hs hclient hbuffer hop hbytes
  | serverAccepts hstage =>
    refine ⟨⟨h.report, h.going, h.fits, h.got, h.down, h.toProxy, h.operation, ?_⟩,
      measure_lt_of_rank (by simp [Stage.rank, hstage])⟩
    cases hforwarding with
    | reading hop hconnection hserver hbytes => exact .reading hop hconnection hserver hbytes
    | writing hs hclient hbuffer hop hbytes => exact .writing hs hclient hbuffer hop hbytes
  | connect hstage =>
    refine ⟨⟨h.report, h.going, h.fits, h.got, h.down, h.toProxy, h.operation, ?_⟩,
      measure_lt_of_rank (by simp [Stage.rank, hstage])⟩
    cases hforwarding with
    | reading hop hconnection hserver hbytes => exact .reading hop hconnection hserver hbytes
    | writing hs => exact Stage.noConfusion (hs.symm.trans hstage)
  | proxyAccepts hstage hup =>
    refine ⟨⟨h.report, h.going, h.fits, h.got, h.down, h.toProxy, h.operation, ?_⟩,
      measure_lt_of_rank (by simp [Stage.rank, hstage])⟩
    cases hforwarding with
    | reading hop hconnection hserver hbytes => exact .reading hop hconnection hserver hbytes
    | writing hs => exact Stage.noConfusion (hs.symm.trans hstage)

/-- The client calls a handler. -/
theorem goes {c : Client} (h : s.Asking name) (hc : s.client.Goes (.client name) c) :
    ({ s with client := c } : Route).Asking name := by
  refine ⟨hc.report.trans h.report, hc.going, hc.fits, hc.got.trans h.got, h.down, h.toProxy,
    h.operation, ?_⟩
  cases h.forwarding with
  | reading hop hconnection hserver hbytes =>
    refine .reading hop hconnection hserver ?_
    rw [hc.unsent]
    exact hbytes
  | writing hs hclient hbuffer hop hbytes =>
    exact .writing hs ⟨hclient.1, hc.unsent.trans hclient.2⟩ hbuffer hop hbytes

theorem step_client (h : s.Asking name) (hs : s.ClientStep name s') :
    s'.Asking name ∧ s'.measure false < s.measure false := by
  cases hs with
  | @sends buffer up hop hsend =>
    refine ⟨⟨h.report, h.going, h.fits, hop.got_eq _, h.down, h.toProxy, h.operation, ?_⟩, ?_⟩
    · cases h.forwarding with
      | reading hop' hconnection hserver hbytes =>
        refine .reading hop' hconnection hserver ?_
        dsimp only
        rw [hop.sent hsend]
        exact hbytes
      | writing hs hclient =>
        obtain ⟨behind, hbehind⟩ := hop.unsent_eq (.client name)
        have hnil := (hbehind s.client.buffer).symm.trans hclient.2
        exact absurd (List.append_eq_nil_iff.mp hnil).1 hsend.ne_nil
    · have hlt := hsend.length_lt
      have hload : s.client.load = s.client.buffer.length := hop.load_eq s.client.buffer
      have hload' := hop.load_eq buffer
      refine measure_lt_of_load rfl rfl rfl rfl rfl ?_
      dsimp only [Route.load]
      omega
  | receives hop hreceive => exact absurd h.down hreceive.ne_nil
  | handles hready =>
    have hgoes : s.client.Goes (.client name) (s.client.handle (.client name) .success) := by
      rcases hready with ⟨hop, -⟩ | ⟨hop, hbuffer⟩ | ⟨hop, hmem⟩
      · exact Client.goes_connect hop
      · exact Client.goes_write h.fits hop hbuffer
      · have hgot : s.client.got = s.client.buffer := by simp [Client.got, hop]
        rw [← hgot, h.got] at hmem
        exact absurd hmem List.not_mem_nil
    refine ⟨h.goes hgoes, measure_lt_of_rank ?_⟩
    have hrank := hgoes.rank
    dsimp only
    omega

/-- The proxy reads the request. -/
theorem handleReadRequest {c : Proxy.Connection} (hconnection : c.connectionBuffer = [])
    (h : c.clientBuffer = name.line clientRequestType) :
    c.handleReadRequest .success = ⟨[], name.line clientRequestType, .writeRequest⟩ := by
  have hget := getline_text (name.text_notMem (by decide : delim ∉ clientRequestType)) []
  rw [List.append_nil] at hget
  have hline : getline c.clientBuffer =
      (clientRequestType ++ (name.zodiac ++ name.remainder), []) := by
    rw [h]
    exact hget
  have hstar : startsWith (getline c.clientBuffer).1 starRequestType = false := by
    rw [hline]
    rfl
  rw [Proxy.Connection.handleReadRequest_of_not_star hstar, hline, hconnection]
  rfl

theorem step_proxy (h : s.Asking name) (haccepted : s.stage = .accepted) (hs : s.ProxyStep s') :
    s'.Asking name ∧ s'.measure false < s.measure false := by
  cases hs with
  | @receivesRequest buffer up hop hreceive =>
    refine ⟨⟨h.report, h.going, h.fits, h.got, h.down, h.toProxy, h.operation, ?_⟩, ?_⟩
    · cases h.forwarding with
      | reading _ hconnection hserver hbytes =>
        refine .reading hop hconnection hserver ?_
        dsimp only
        rw [← List.append_assoc, hreceive.append_eq, List.append_assoc]
        exact hbytes
      | writing hs hclient => exact absurd hclient.1 hreceive.ne_nil
    · have hlt := hreceive.length_lt
      refine measure_lt_of_load rfl rfl rfl rfl rfl ?_
      simp only [Proxy.Connection.load, hop, Route.load]
      omega
  | @sendsRequest buffer toServer hop hsend =>
    refine ⟨⟨h.report, h.going, h.fits, h.got, h.down, h.toProxy, h.operation, ?_⟩, ?_⟩
    · cases h.forwarding with
      | reading _ hconnection => exact absurd hconnection hsend.ne_nil
      | writing hs hclient hbuffer _ hbytes =>
        refine .writing hs hclient hbuffer (Or.inl hop) ?_
        dsimp only
        rw [hsend.append_eq]
        exact hbytes
    · have hlt := hsend.length_lt
      refine measure_lt_of_load rfl rfl rfl rfl rfl ?_
      simp only [Proxy.Connection.load, hop, Route.load]
      omega
  | receivesResponse hop hreceive => exact absurd h.toProxy hreceive.ne_nil
  | sendsResponse hop hsend =>
    cases h.forwarding with
    | reading hop' => exact Proxy.Operation.noConfusion (hop.symm.trans hop')
    | writing _ _ _ hop' =>
      rcases hop' with hop' | ⟨hop', -⟩
      · exact Proxy.Operation.noConfusion (hop.symm.trans hop')
      · exact Proxy.Operation.noConfusion (hop.symm.trans hop')
  | handles hready =>
    cases h.forwarding with
    | reading hop hconnection hserver hbytes =>
      have hmem : delim ∈ s.proxy.clientBuffer := by
        rcases hready with ⟨-, hmem⟩ | ⟨hop', -⟩ | ⟨hop', -⟩ | ⟨hop', -⟩
        · exact hmem
        all_goals exact Proxy.Operation.noConfusion (hop.symm.trans hop')
      rw [← List.append_nil (name.line clientRequestType)] at hbytes
      obtain ⟨left, hleft, hrest⟩ := (client_isLine name).exists_left hmem hbytes
      obtain ⟨rfl, hrest'⟩ := List.append_eq_nil_iff.mp hrest
      rw [List.append_nil] at hleft
      have hhandle : s.proxy.handle .success =
          ⟨[], name.line clientRequestType, .writeRequest⟩ := by
        rw [Proxy.Connection.handle, hop]
        exact handleReadRequest hconnection hleft
      rw [hhandle]
      refine ⟨⟨h.report, h.going, h.fits, h.got, h.down, h.toProxy, h.operation,
        .writing haccepted (List.append_eq_nil_iff.mp hrest') rfl (Or.inl rfl) ?_⟩, ?_⟩
      · dsimp only
        rw [hserver.1, hserver.2]
        rfl
      · apply measure_lt_of_rank
        simp [Proxy.Operation.rank, hop]
    | writing hs hclient hbuffer hop hbytes =>
      rcases hop with hop | ⟨hop, hconnection⟩
      · have hempty : s.proxy.connectionBuffer = [] := by
          rcases hready with ⟨hop', -⟩ | ⟨-, hempty⟩ | ⟨hop', -⟩ | ⟨hop', -⟩
          · exact Proxy.Operation.noConfusion (hop.symm.trans hop')
          · exact hempty
          all_goals exact Proxy.Operation.noConfusion (hop.symm.trans hop')
        have hhandle : s.proxy.handle .success = { s.proxy with operation := .readResponse } := by
          rw [Proxy.Connection.handle, hop]
          rfl
        rw [hhandle]
        refine ⟨⟨h.report, h.going, h.fits, h.got, h.down, h.toProxy, h.operation,
          .writing hs hclient hbuffer (Or.inr ⟨rfl, hempty⟩) hbytes⟩, ?_⟩
        apply measure_lt_of_rank
        simp [Proxy.Operation.rank, hop]
      · rcases hready with ⟨hop', -⟩ | ⟨hop', -⟩ | ⟨-, hmem⟩ | ⟨hop', -⟩
        · exact Proxy.Operation.noConfusion (hop.symm.trans hop')
        · exact Proxy.Operation.noConfusion (hop.symm.trans hop')
        · rw [hconnection] at hmem
          exact absurd hmem List.not_mem_nil
        · exact Proxy.Operation.noConfusion (hop.symm.trans hop')
  | ends hcut =>
    rcases hcut with ⟨-, -, -, hended⟩ | ⟨-, -, -, hstopped⟩
    · exact absurd hended h.going
    · exact Operation.noConfusion (hstopped.symm.trans h.operation)

/-- **The server handles the request**, or it receives some of it.  When it has the line, all of
the request is in its buffer, and the way back is empty. -/
theorem step_server (h : s.Asking name)
    (hm : ∀ zodiac prognosis, m zodiac = some prognosis → delim ∉ prognosis)
    (hupstream : s.upstream = .accepted) (hs : s.ServerStep m e m' s') :
    (e = none ∧ m' = m ∧ s'.Asking name ∧ s'.measure false < s.measure false) ∨
    (e = some .asked ∧ m' = m ∧
      s'.Answering name ((m name.zodiac).getD unknownPrognosis) ∧
      s'.measure true < s.measure false) := by
  cases hs with
  | @receives buffer toServer hop hreceive =>
    refine Or.inl ⟨rfl, rfl, ⟨h.report, h.going, h.fits, h.got, h.down, h.toProxy, h.operation, ?_⟩,
      ?_⟩
    · cases h.forwarding with
      | reading _ _ hserver => exact absurd hserver.1 hreceive.ne_nil
      | writing hs hclient hbuffer hop hbytes =>
        refine .writing hs hclient hbuffer hop ?_
        dsimp only
        rw [← List.append_assoc, hreceive.append_eq, List.append_assoc]
        exact hbytes
    · have hlt := hreceive.length_lt
      refine measure_lt_of_load rfl rfl rfl rfl rfl ?_
      simp only [Route.load, h.operation]
      omega
  | sends hop hsend => exact Operation.noConfusion (hop.symm.trans h.operation)
  | handles hready =>
    have hmem : delim ∈ s.buffer := by
      rcases hready with ⟨-, hmem⟩ | ⟨hop, -⟩
      · exact hmem
      · exact Operation.noConfusion (hop.symm.trans h.operation)
    cases h.forwarding with
    | reading _ _ hserver =>
      rw [hserver.2] at hmem
      exact absurd hmem List.not_mem_nil
    | writing hs hclient hbuffer hop hbytes =>
      rw [← List.append_nil (name.line clientRequestType)] at hbytes
      obtain ⟨left, hleft, hrest⟩ := (client_isLine name).exists_left hmem hbytes
      obtain ⟨rfl, hrest'⟩ := List.append_eq_nil_iff.mp hrest
      obtain ⟨htoServer, hconnection⟩ := List.append_eq_nil_iff.mp hrest'
      rw [List.append_nil] at hleft
      obtain ⟨hserve, hprognoses, hentry⟩ := Route.serve_request (m := m) h.operation hleft
      refine Or.inr ⟨hentry, hprognoses, ?_, ?_⟩
      · rw [hserve]
        refine ⟨(Request.client name).response_notMem hm, hs, hupstream, h.fits, hclient, htoServer,
          Or.inl rfl, .reading ⟨h.going, h.report⟩ Operation.noConfusion ⟨h.got, h.down⟩ hbuffer
            (hop.imp (fun hop => ⟨hop, hconnection⟩) fun hop => hop.1) ?_⟩
        dsimp only
        rw [hconnection, h.toProxy]
        rfl
      · rw [hserve]
        apply measure_lt_of_rank
        have hproxy : s.proxy.operation.rank true = s.proxy.operation.rank false := by
          rcases hop with hop | ⟨hop, -⟩ <;> simp [Proxy.Operation.rank, hop]
        simp [Operation.rank, h.operation, hproxy]
  | ends hop hnot hup hclosed =>
    cases h.forwarding with
    | reading hop' => exact Proxy.Operation.noConfusion (hclosed.symm.trans hop')
    | writing _ _ _ hop' =>
      rcases hop' with hop' | ⟨hop', -⟩
      · exact Proxy.Operation.noConfusion (hclosed.symm.trans hop')
      · exact Proxy.Operation.noConfusion (hclosed.symm.trans hop')

end Route.Asking

/-! ## After it has been handled

The response comes back over the two halves of the way.  When the client has read it and has
closed its socket, the proxy meets the end of the stream and stops, and then the server does. -/

namespace Route.Answering

variable {name : Named} {s s' : Route} {m m' : PrognosisManager} {e : Option Entry}
  {response : List Byte}

theorem line (h : s.Answering name response) : IsLine delim (response ++ [delim]) :=
  ⟨response, h.text, rfl⟩

/-- The server has nothing to read any more. -/
theorem buffer_of_reads (h : s.Answering name response) (hop : s.Reads) :
    s.operation = .readRequest ∧ s.buffer = [] := by
  rcases h.server with hwrite | ⟨hread | hstop, hbuffer⟩
  · exact absurd hwrite hop.ne_writeResponse
  · exact ⟨hread, hbuffer⟩
  · rcases hop with hop | ⟨zodiac, hop⟩
    · exact Operation.noConfusion (hop.symm.trans hstop)
    · exact Operation.noConfusion (hop.symm.trans hstop)

/-- The bytes of the response are elsewhere now, or another operation is under way. -/
theorem of_returning (h : s.Answering name response) (hstage : s'.stage = s.stage)
    (hupstream : s'.upstream = s.upstream) (hclient : s'.client = s.client) (hup : s'.up = s.up)
    (htoServer : s'.toServer = s.toServer)
    (hserver : s'.operation = .writeResponse ∨
      (s'.operation = .readRequest ∨ s'.operation = .stopped) ∧ s'.buffer = [])
    (hreturning : s'.Returning name response) : s'.Answering name response := by
  refine ⟨h.text, hstage.trans h.stage, hupstream.trans h.upstream, ?_, ?_,
    htoServer.trans h.toServer, hserver, hreturning⟩
  · rw [hclient]
    exact h.fits
  · rw [hclient, hup]
    exact h.client

/-- The client calls a handler. -/
theorem goes {c : Client} (h : s.Answering name response) (hgoing : s.client.operation ≠ .ended)
    (hc : s.client.Goes (.client name) c) :
    ({ s with client := c } : Route).Answering name response := by
  refine ⟨h.text, h.stage, h.upstream, hc.fits, ⟨h.client.1, hc.unsent.trans h.client.2⟩,
    h.toServer, h.server, ?_⟩
  cases h.returning with
  | reading hreport hopen hclient hbuffer hop hbytes =>
    exact .reading ⟨hc.going, hc.report.trans hreport.2⟩ hopen ⟨hc.got.trans hclient.1, hclient.2⟩
      hbuffer hop hbytes
  | writing hreport hopen hserver hconnection hop hbytes =>
    refine .writing ⟨hc.going, hc.report.trans hreport.2⟩ hopen hserver hconnection hop ?_
    dsimp only
    rw [hc.got]
    exact hbytes
  | read hclient =>
    rw [hclient] at hgoing
    exact absurd rfl hgoing

/-- **The client has read a line**: the response, and nothing behind it. -/
theorem reads (h : s.Answering name response) (hop : s.client.operation = .readResponse)
    (hmem : delim ∈ s.client.buffer) :
    ({ s with client := s.client.handle (.client name) .success } : Route).Answering name
        response ∧
      (s.client.handle (.client name) .success).operation = .ended := by
  have hgot : s.client.got = s.client.buffer := by simp [Client.got, hop]
  cases h.returning with
  | reading _ _ hclient =>
    rw [← hgot, hclient.1] at hmem
    exact absurd hmem List.not_mem_nil
  | writing _ _ hserver hconnection hproxy hbytes =>
    rw [hgot, ← List.append_nil (response ++ [delim])] at hbytes
    obtain ⟨left, hleft, hrest⟩ := h.line.exists_left hmem hbytes
    obtain ⟨rfl, hrest'⟩ := List.append_eq_nil_iff.mp hrest
    rw [List.append_nil] at hleft
    have hhandle := Client.handle_response (r := .client name) hop hleft h.text
    rw [hhandle]
    refine ⟨⟨h.text, h.stage, h.upstream, fun hop' => ClientOperation.noConfusion hop',
      ⟨h.client.1, rfl⟩, h.toServer, h.server, .read rfl hserver hconnection
        (List.append_eq_nil_iff.mp hrest') ?_⟩, rfl⟩
    exact hproxy.imp id fun hproxy => Or.inl hproxy.1
  | read hclient =>
    rw [hclient] at hop
    exact ClientOperation.noConfusion hop

theorem step_client (h : s.Answering name response) (hs : s.ClientStep name s') :
    s'.Answering name response ∧ s'.measure true < s.measure true := by
  cases hs with
  | sends hop hsend =>
    obtain ⟨behind, hbehind⟩ := hop.unsent_eq (.client name)
    have hnil := (hbehind s.client.buffer).symm.trans h.client.2
    exact absurd (List.append_eq_nil_iff.mp hnil).1 hsend.ne_nil
  | @receives buffer down hop hreceive =>
    have hgot : ∀ bs, ({ s.client with buffer := bs } : Client).got = bs := by
      intro bs
      simp [Client.got, hop]
    have hload : ∀ bs, ({ s.client with buffer := bs } : Client).load = 0 := by
      intro bs
      simp [Client.load, hop]
    refine ⟨⟨h.text, h.stage, h.upstream, h.fits, ⟨h.client.1, ?_⟩, h.toServer, h.server, ?_⟩, ?_⟩
    · simp [Client.unsent, hop]
    · cases h.returning with
      | reading _ _ hclient => exact absurd hclient.2 hreceive.ne_nil
      | writing hgoing hopen hserver hconnection hproxy hbytes =>
        refine .writing hgoing hopen hserver hconnection hproxy ?_
        have heq : s.client.got = s.client.buffer := hgot s.client.buffer
        dsimp only
        rw [hgot, ← List.append_assoc, hreceive.append_eq, List.append_assoc, ← heq]
        exact hbytes
      | read _ _ _ hbuffer => exact absurd hbuffer.1 hreceive.ne_nil
    · have hlt := hreceive.length_lt
      have hload' : s.client.load = 0 := hload s.client.buffer
      refine measure_lt_of_load rfl rfl rfl rfl rfl ?_
      dsimp only [Route.load]
      rw [hload, hload']
      omega
  | handles hready =>
    rcases hready with ⟨hop, -⟩ | ⟨hop, hbuffer⟩ | ⟨hop, hmem⟩
    · have hgoes : s.client.Goes (.client name) _ := Client.goes_connect hop
      have hrank := hgoes.rank
      refine ⟨h.goes (by simp [hop]) hgoes, measure_lt_of_rank ?_⟩
      dsimp only
      omega
    · have hgoes := Client.goes_write h.fits hop hbuffer
      have hrank := hgoes.rank
      refine ⟨h.goes ?_ hgoes, measure_lt_of_rank ?_⟩
      · rcases hop with hop | hop <;> simp [hop]
      · dsimp only
        omega
    · obtain ⟨hanswering, hended⟩ := h.reads hop hmem
      refine ⟨hanswering, measure_lt_of_rank ?_⟩
      simp [hended, hop, ClientOperation.rank]

/-- **The proxy has read a line** of the server, which is the response. -/
theorem handleReadResponse {c : Proxy.Connection} (h : delim ∉ response)
    (hclient : c.clientBuffer = []) (hconnection : c.connectionBuffer = response ++ [delim]) :
    c.handleReadResponse .success = ⟨response ++ [delim], [], .writeResponse⟩ := by
  have hget := getline_text h []
  rw [List.append_nil] at hget
  rw [Proxy.Connection.handleReadResponse_eq, hclient, hconnection, hget]
  rfl

/-- A handler of the proxy. -/
theorem proxy_handles (h : s.Answering name response) (hready : s.ProxyReady) :
    ({ s with proxy := s.proxy.handle .success } : Route).Answering name response ∧
      (s.proxy.handle .success).operation.rank true < s.proxy.operation.rank true := by
  cases h.returning with
  | reading hgoing hopen hclient hbuffer hop hbytes =>
    rcases hop with ⟨hop, hconnection⟩ | hop
    · have hhandle : s.proxy.handle .success = { s.proxy with operation := .readResponse } := by
        rw [Proxy.Connection.handle, hop]
        rfl
      rw [hhandle]
      refine ⟨h.of_returning rfl rfl rfl rfl rfl h.server
        (.reading hgoing hopen hclient hbuffer (Or.inr rfl) hbytes), ?_⟩
      simp [Proxy.Operation.rank, hop]
    · have hmem : delim ∈ s.proxy.connectionBuffer := by
        rcases hready with ⟨hop', -⟩ | ⟨hop', -⟩ | ⟨-, hmem⟩ | ⟨hop', -⟩
        · exact Proxy.Operation.noConfusion (hop.symm.trans hop')
        · exact Proxy.Operation.noConfusion (hop.symm.trans hop')
        · exact hmem
        · exact Proxy.Operation.noConfusion (hop.symm.trans hop')
      rw [← List.append_nil (response ++ [delim])] at hbytes
      obtain ⟨left, hleft, hrest⟩ := h.line.exists_left hmem hbytes
      obtain ⟨rfl, hrest'⟩ := List.append_eq_nil_iff.mp hrest
      obtain ⟨htoProxy, hserver⟩ := List.append_eq_nil_iff.mp hrest'
      rw [List.append_nil] at hleft
      have hhandle : s.proxy.handle .success = ⟨response ++ [delim], [], .writeResponse⟩ := by
        rw [Proxy.Connection.handle, hop]
        exact handleReadResponse h.text hbuffer hleft
      rw [hhandle]
      refine ⟨h.of_returning rfl rfl rfl rfl rfl h.server
        (.writing hgoing hopen ⟨htoProxy, hserver⟩ rfl (Or.inl rfl) ?_), ?_⟩
      · dsimp only
        rw [hclient.1, hclient.2]
        rfl
      · simp [Proxy.Operation.rank, hop]
  | writing hgoing hopen hserver hconnection hop hbytes =>
    rcases hop with hop | ⟨hop, hbuffer⟩
    · have hbuffer : s.proxy.clientBuffer = [] := by
        rcases hready with ⟨hop', -⟩ | ⟨hop', -⟩ | ⟨hop', -⟩ | ⟨-, hbuffer⟩
        · exact Proxy.Operation.noConfusion (hop.symm.trans hop')
        · exact Proxy.Operation.noConfusion (hop.symm.trans hop')
        · exact Proxy.Operation.noConfusion (hop.symm.trans hop')
        · exact hbuffer
      have hhandle : s.proxy.handle .success = { s.proxy with operation := .readRequest } := by
        rw [Proxy.Connection.handle, hop]
        rfl
      rw [hhandle]
      refine ⟨h.of_returning rfl rfl rfl rfl rfl h.server
        (.writing hgoing hopen hserver hconnection (Or.inr ⟨rfl, hbuffer⟩) hbytes), ?_⟩
      simp [Proxy.Operation.rank, hop]
    · rcases hready with ⟨-, hmem⟩ | ⟨hop', -⟩ | ⟨hop', -⟩ | ⟨hop', -⟩
      · rw [hbuffer] at hmem
        exact absurd hmem List.not_mem_nil
      all_goals exact Proxy.Operation.noConfusion (hop.symm.trans hop')
  | read hclient hserver hconnection hbuffer hop =>
    have hwrite : s.proxy.operation = .writeResponse := by
      rcases hready with ⟨-, hmem⟩ | ⟨hop', -⟩ | ⟨hop', -⟩ | ⟨hop', -⟩
      · rw [hbuffer.2] at hmem
        exact absurd hmem List.not_mem_nil
      · rcases hop with hop | hop | hop <;> exact Proxy.Operation.noConfusion (hop.symm.trans hop')
      · rcases hop with hop | hop | hop <;> exact Proxy.Operation.noConfusion (hop.symm.trans hop')
      · exact hop'
    have hhandle : s.proxy.handle .success = { s.proxy with operation := .readRequest } := by
      rw [Proxy.Connection.handle, hwrite]
      rfl
    rw [hhandle]
    refine ⟨h.of_returning rfl rfl rfl rfl rfl h.server
      (.read hclient hserver hconnection hbuffer (Or.inr (Or.inl rfl))), ?_⟩
    simp [Proxy.Operation.rank, hwrite]

/-- The client has closed its side, so it has the response. -/
theorem proxy_ends (h : s.Answering name response) (hcut : s.ProxyCut) :
    ({ s with proxy := s.proxy.handle .eof } : Route).Answering name response ∧
      (s.proxy.handle .eof).operation.rank true < s.proxy.operation.rank true := by
  cases h.returning with
  | reading hgoing hopen _ _ hop =>
    rcases hcut with ⟨-, -, -, hended⟩ | ⟨-, -, -, hstopped⟩
    · exact absurd hended hgoing.1
    · exact absurd hstopped hopen
  | writing hgoing hopen =>
    rcases hcut with ⟨-, -, -, hended⟩ | ⟨-, -, -, hstopped⟩
    · exact absurd hended hgoing.1
    · exact absurd hstopped hopen
  | read hclient hserver hconnection hbuffer hop =>
    have hread : s.proxy.operation = .readRequest := by
      rcases hcut with ⟨hop', -⟩ | ⟨hop', -⟩
      · exact hop'
      · rcases hop with hop | hop | hop <;> exact Proxy.Operation.noConfusion (hop.symm.trans hop')
    have hhandle : s.proxy.handle .eof = { s.proxy with operation := .stopped } := by
      rw [Proxy.Connection.handle, hread]
      rfl
    rw [hhandle]
    refine ⟨h.of_returning rfl rfl rfl rfl rfl h.server
      (.read hclient hserver hconnection hbuffer (Or.inr (Or.inr rfl))), ?_⟩
    simp [Proxy.Operation.rank, hread]

theorem step_proxy (h : s.Answering name response) (hs : s.ProxyStep s') :
    s'.Answering name response ∧ s'.measure true < s.measure true := by
  cases hs with
  | receivesRequest hop hreceive => exact absurd h.client.1 hreceive.ne_nil
  | sendsRequest hop hsend =>
    cases h.returning with
    | reading _ _ _ _ hop' =>
      rcases hop' with ⟨-, hconnection⟩ | hop'
      · exact absurd hconnection hsend.ne_nil
      · exact Proxy.Operation.noConfusion (hop.symm.trans hop')
    | writing _ _ _ hconnection => exact absurd hconnection hsend.ne_nil
    | read _ _ hconnection => exact absurd hconnection hsend.ne_nil
  | @receivesResponse buffer toProxy hop hreceive =>
    refine ⟨h.of_returning rfl rfl rfl rfl rfl h.server ?_, ?_⟩
    · cases h.returning with
      | reading hgoing hopen hclient hbuffer _ hbytes =>
        refine .reading hgoing hopen hclient hbuffer (Or.inr hop) ?_
        dsimp only
        rw [← List.append_assoc, hreceive.append_eq, List.append_assoc]
        exact hbytes
      | writing _ _ hserver => exact absurd hserver.1 hreceive.ne_nil
      | read _ hserver => exact absurd hserver.1 hreceive.ne_nil
    · have hlt := hreceive.length_lt
      refine measure_lt_of_load rfl rfl rfl rfl rfl ?_
      simp only [Proxy.Connection.load, hop, Route.load]
      omega
  | @sendsResponse buffer down hop hsend =>
    refine ⟨h.of_returning rfl rfl rfl rfl rfl h.server ?_, ?_⟩
    · cases h.returning with
      | reading _ _ _ hbuffer => exact absurd hbuffer hsend.ne_nil
      | writing hgoing hopen hserver hconnection _ hbytes =>
        refine .writing hgoing hopen hserver hconnection (Or.inl hop) ?_
        dsimp only
        rw [hsend.append_eq]
        exact hbytes
      | read _ _ _ hbuffer => exact absurd hbuffer.2 hsend.ne_nil
    · have hlt := hsend.length_lt
      refine measure_lt_of_load rfl rfl rfl rfl rfl ?_
      simp only [Proxy.Connection.load, hop, Route.load]
      omega
  | handles hready =>
    obtain ⟨hanswering, hrank⟩ := h.proxy_handles hready
    refine ⟨hanswering, measure_lt_of_rank ?_⟩
    dsimp only
    omega
  | ends hcut =>
    obtain ⟨hanswering, hrank⟩ := h.proxy_ends hcut
    refine ⟨hanswering, measure_lt_of_rank ?_⟩
    dsimp only
    omega

theorem step_server (h : s.Answering name response) (hs : s.ServerStep m e m' s') :
    e = none ∧ m' = m ∧ s'.Answering name response ∧ s'.measure true < s.measure true := by
  cases hs with
  | receives hop hreceive => exact absurd h.toServer hreceive.ne_nil
  | @sends buffer toProxy hop hsend =>
    refine ⟨rfl, rfl, h.of_returning rfl rfl rfl rfl rfl (Or.inl hop) ?_, ?_⟩
    · cases h.returning with
      | reading hgoing hopen hclient hbuffer hproxy hbytes =>
        refine .reading hgoing hopen hclient hbuffer hproxy ?_
        dsimp only
        rw [hsend.append_eq]
        exact hbytes
      | writing _ _ hserver => exact absurd hserver.2 hsend.ne_nil
      | read _ hserver => exact absurd hserver.2 hsend.ne_nil
    · have hlt := hsend.length_lt
      refine measure_lt_of_load rfl rfl rfl rfl rfl ?_
      simp only [Route.load, hop]
      omega
  | handles hready =>
    rcases hready with ⟨hop, hmem⟩ | ⟨hop, hbuffer⟩
    · rw [(h.buffer_of_reads hop).2] at hmem
      exact absurd hmem List.not_mem_nil
    · obtain ⟨hserve, hprognoses, hentry⟩ := Route.serve_write (m := m) hop
      refine ⟨hentry, hprognoses, ?_, ?_⟩
      · rw [hserve]
        refine h.of_returning rfl rfl rfl rfl rfl (Or.inr ⟨Or.inl rfl, hbuffer⟩) ?_
        cases h.returning with
        | reading hgoing _ hclient hempty hproxy hbytes =>
          exact .reading hgoing Operation.noConfusion hclient hempty hproxy hbytes
        | writing hgoing _ hserver hconnection hproxy hbytes =>
          exact .writing hgoing Operation.noConfusion hserver hconnection hproxy hbytes
        | read hclient hserver hconnection hempty hproxy =>
          exact .read hclient hserver hconnection hempty hproxy
      · rw [hserve]
        apply measure_lt_of_rank
        simp [Operation.rank, hop]
  | ends hop hnot hup hclosed =>
    obtain ⟨hread, hbuffer⟩ := h.buffer_of_reads hop
    obtain ⟨hserve, hprognoses⟩ := Route.serve_eof (m := m) hread
    refine ⟨rfl, hprognoses, ?_, ?_⟩
    · rw [hserve]
      refine h.of_returning rfl rfl rfl rfl rfl (Or.inr ⟨Or.inr rfl, hbuffer⟩) ?_
      cases h.returning with
      | reading _ _ _ _ hop' =>
        rcases hop' with ⟨hop', -⟩ | hop'
        · exact Proxy.Operation.noConfusion (hclosed.symm.trans hop')
        · exact Proxy.Operation.noConfusion (hclosed.symm.trans hop')
      | writing _ _ _ _ hop' =>
        rcases hop' with hop' | ⟨hop', -⟩
        · exact Proxy.Operation.noConfusion (hclosed.symm.trans hop')
        · exact Proxy.Operation.noConfusion (hclosed.symm.trans hop')
      | read hclient hserver hconnection hempty hproxy =>
        exact .read hclient hserver hconnection hempty hproxy
    · rw [hserve]
      apply measure_lt_of_rank
      simp [Operation.rank, hread]

/-- **After the request has been handled**, a step brings the response to the client, whoever
takes it, and nothing is recorded any more. -/
theorem step (h : s.Answering name response) (hs : s.Step name m e m' s') :
    e = none ∧ m' = m ∧ s'.Answering name response ∧ s'.measure true < s.measure true := by
  cases hs with
  | link hlink =>
    cases hlink with
    | reach hstage => exact Stage.noConfusion (h.upstream.symm.trans hstage)
    | serverAccepts hstage => exact Stage.noConfusion (h.upstream.symm.trans hstage)
    | connect hstage => exact Stage.noConfusion (h.stage.symm.trans hstage)
    | proxyAccepts hstage => exact Stage.noConfusion (h.stage.symm.trans hstage)
  | client hclient => exact ⟨rfl, rfl, h.step_client hclient⟩
  | proxy _ hproxy => exact ⟨rfl, rfl, h.step_proxy hproxy⟩
  | server _ hserver => exact h.step_server hserver

end Route.Answering

/-! ## A whole route

What a route has to keep so that the store can be shared: a step is silent or handles the request,
it comes nearer to the end, and there is a step as long as the client has no response. -/

section Step

variable {name : Named} {s s' : Route} {m m' : PrognosisManager} {e : Option Entry}
  {response : List Byte}

/-- **What a step of a route does.**  Either it is silent, or it handles the request, as a step of
a session does; the store need not know which of them it is. -/
theorem Route.Matched.step {answer : Option (List Byte)} (h : s.Matched name answer)
    (hm : ∀ zodiac prognosis, m zodiac = some prognosis → delim ∉ prognosis)
    (hs : s.Step name m e m' s') :
    (e = none ∧ m' = m ∧ s'.Matched name answer ∧
      s'.measure answer.isSome < s.measure answer.isSome) ∨
    (answer = none ∧ e = some .asked ∧ m' = m ∧
      s'.Matched name (some ((m name.zodiac).getD unknownPrognosis)) ∧
      s'.measure true < s.measure false) := by
  cases answer with
  | some response => exact Or.inl (Route.Answering.step h hs)
  | none =>
    cases hs with
    | link hlink => exact Or.inl ⟨rfl, rfl, Route.Asking.step_link h hlink⟩
    | client hclient => exact Or.inl ⟨rfl, rfl, Route.Asking.step_client h hclient⟩
    | proxy hstage hproxy => exact Or.inl ⟨rfl, rfl, Route.Asking.step_proxy h hstage hproxy⟩
    | server hstage hserver =>
      exact (Route.Asking.step_server h hm hstage hserver).imp id fun hhandled => ⟨rfl, hhandled⟩

/-- A route with a client that is not waiting for the response can go on. -/
theorem Route.exists_step_client (name : Named) (m : PrognosisManager)
    (hgoing : s.client.operation ≠ .ended) (hfits : s.client.Fits (.client name)) :
    (∃ e m' s', s.Step name m e m' s') ∨
      s.stage = .accepted ∧ s.upstream = .accepted ∧ s.client.operation = .readResponse := by
  cases hupstream : s.upstream with
  | offline => exact Or.inl ⟨_, _, _, .link (.reach hupstream)⟩
  | backlog => exact Or.inl ⟨_, _, _, .link (.serverAccepts hupstream)⟩
  | accepted =>
    cases hstage : s.stage with
    | offline => exact Or.inl ⟨_, _, _, .link (.connect hstage)⟩
    | backlog =>
      refine Or.inl ⟨_, _, _, .link (.proxyAccepts hstage ?_)⟩
      rw [hupstream]
      exact Stage.noConfusion
    | accepted =>
      cases hop : s.client.operation with
      | connect =>
        refine Or.inl ⟨_, _, _, .client (.handles (Or.inl ⟨hop, ?_⟩))⟩
        rw [hstage]
        exact Stage.noConfusion
      | writeRequest =>
        by_cases hbuffer : s.client.buffer = []
        · exact Or.inl ⟨_, _, _, .client (.handles (Or.inr (Or.inl ⟨Or.inl hop, hbuffer⟩)))⟩
        · exact Or.inl ⟨_, _, _, .client (.sends (Or.inl hop) (Pipe.sends_all hbuffer s.up))⟩
      | writePrognosis => exact absurd rfl (hfits hop)
      | readResponse => exact Or.inr ⟨rfl, rfl, rfl⟩
      | ended => exact absurd hop hgoing

theorem Route.Asking.exists_step (h : s.Asking name) (m : PrognosisManager) :
    ∃ e m' s', s.Step name m e m' s' := by
  rcases Route.exists_step_client name m h.going h.fits with hstep | ⟨hstage, hupstream, hop⟩
  · exact hstep
  · have hunsent : s.client.unsent (.client name) = [] := by simp [Client.unsent, hop]
    have hline := (client_isLine name).mem
    cases h.forwarding with
    | reading hproxy _ _ hbytes =>
      by_cases hmem : delim ∈ s.proxy.clientBuffer
      · exact ⟨_, _, _, .proxy hstage (.handles (Or.inl ⟨hproxy, hmem⟩))⟩
      · have hup : s.up ≠ [] := by
          intro hnil
          rw [hunsent, hnil, List.append_nil, List.append_nil] at hbytes
          rw [hbytes] at hmem
          exact hmem hline
        exact ⟨_, _, _, .proxy hstage (.receivesRequest hproxy (Pipe.receives_all hmem hup))⟩
    | writing _ _ _ hproxy hbytes =>
      rcases hproxy with hproxy | ⟨-, hconnection⟩
      · by_cases hempty : s.proxy.connectionBuffer = []
        · exact ⟨_, _, _, .proxy hstage (.handles (Or.inr (Or.inl ⟨hproxy, hempty⟩)))⟩
        · exact ⟨_, _, _, .proxy hstage (.sendsRequest hproxy (Pipe.sends_all hempty s.toServer))⟩
      · by_cases hmem : delim ∈ s.buffer
        · exact ⟨_, _, _, .server hupstream (.handles (Or.inl ⟨Or.inl h.operation, hmem⟩))⟩
        · have htoServer : s.toServer ≠ [] := by
            intro hnil
            rw [hconnection, hnil, List.append_nil, List.append_nil] at hbytes
            rw [hbytes] at hmem
            exact hmem hline
          exact ⟨_, _, _,
            .server hupstream (.receives (Or.inl h.operation) (Pipe.receives_all hmem htoServer))⟩

theorem Route.Answering.exists_step (h : s.Answering name response)
    (hgoing : s.client.operation ≠ .ended) (m : PrognosisManager) :
    ∃ e m' s', s.Step name m e m' s' := by
  rcases Route.exists_step_client name m hgoing h.fits with hstep | ⟨hstage, hupstream, hop⟩
  · exact hstep
  · have hgot : s.client.got = s.client.buffer := by simp [Client.got, hop]
    cases h.returning with
    | reading _ _ _ _ hproxy hbytes =>
      rcases hproxy with ⟨hproxy, hempty⟩ | hproxy
      · exact ⟨_, _, _, .proxy hstage (.handles (Or.inr (Or.inl ⟨hproxy, hempty⟩)))⟩
      · by_cases hmem : delim ∈ s.proxy.connectionBuffer
        · exact ⟨_, _, _, .proxy hstage (.handles (Or.inr (Or.inr (Or.inl ⟨hproxy, hmem⟩))))⟩
        · by_cases htoProxy : s.toProxy = []
          · have hbuffer : s.buffer ≠ [] := by
              intro hnil
              rw [htoProxy, hnil, List.append_nil, List.append_nil] at hbytes
              rw [hbytes] at hmem
              exact hmem h.line.mem
            have hwrite : s.operation = .writeResponse :=
              h.server.resolve_right fun hread => hbuffer hread.2
            exact ⟨_, _, _, .server hupstream (.sends hwrite (Pipe.sends_all hbuffer s.toProxy))⟩
          · exact ⟨_, _, _,
              .proxy hstage (.receivesResponse hproxy (Pipe.receives_all hmem htoProxy))⟩
    | writing _ _ _ _ hproxy hbytes =>
      by_cases hmem : delim ∈ s.client.buffer
      · exact ⟨_, _, _, .client (.handles (Or.inr (Or.inr ⟨hop, hmem⟩)))⟩
      · by_cases hdown : s.down = []
        · have hbuffer : s.proxy.clientBuffer ≠ [] := by
            intro hnil
            rw [hgot, hdown, hnil, List.append_nil, List.append_nil] at hbytes
            rw [hbytes] at hmem
            exact hmem h.line.mem
          have hwrite : s.proxy.operation = .writeResponse :=
            hproxy.resolve_right fun hread => hbuffer hread.2
          exact ⟨_, _, _, .proxy hstage (.sendsResponse hwrite (Pipe.sends_all hbuffer s.down))⟩
        · exact ⟨_, _, _, .client (.receives hop (Pipe.receives_all hmem hdown))⟩
    | read hclient =>
      rw [hclient] at hgoing
      exact absurd rfl hgoing

/-- The client has its response, or it goes on. -/
theorem Route.Answering.report_eq_none (h : s.Answering name response) :
    s.client.report = none ↔ s.client.operation ≠ .ended := by
  cases h.returning with
  | reading hgoing => exact iff_of_true hgoing.2 hgoing.1
  | writing hgoing => exact iff_of_true hgoing.2 hgoing.1
  | read hclient => simp [hclient]

/-- **No route is stuck** before its client has the response: whoever has the bytes can pass them
on. -/
theorem Route.Matched.exists_step {answer : Option (List Byte)} (h : s.Matched name answer)
    (hreport : s.client.report = none) (m : PrognosisManager) :
    ∃ e m' s', s.Step name m e m' s' := by
  cases answer with
  | none => exact Route.Asking.exists_step h m
  | some response =>
    have h : s.Answering name response := h
    exact h.exists_step (h.report_eq_none.mp hreport) m

end Step

end Astrologer.Boost
