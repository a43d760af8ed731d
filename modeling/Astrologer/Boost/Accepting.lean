import Astrologer.Boost.Operations

/-!
# Accepting clients

`Proxy` of `proxy.cpp` works in a cycle: it connects to the server (`startConnect`), then
it accepts a client for this connection (`handleConnect`), and then it starts the
connection and connects again (`handleAccept`).  So each of its handlers has to start one
operation.

`Service` is the proxy and the server together: the operations of `Proxy` that are under
way, and the connections (`Link`), each with its two sides and the bytes between them.  A
side is a connection with its deadline (`Timed`).  The server accepts a connection at any
time after it was established, and starts its side at once; the proxy starts its side
when it has a client.

* `accepting_iff`: the proxy has one connect or one accept under way, and can serve a
  further client, exactly as long as no connect has failed.  `handleConnect` returns when
  it gets an error, and this is the end of the cycle.
* `idle_iff`: the server's side is at the start of its first request when the client is
  accepted, provided that this is before its deadline.  The wait for a client may be
  longer than that.
-/

namespace Astrologer.Boost

/-! ## A connection and its two sides

Both sides are connections with a deadline, as `Boost.Deadline` has them, so their own steps are
taken from there.  What is added here is the bytes between them, and the times at which the two
sides were started. -/

/-- A connection between the proxy and the server, with both of its ends: each end is there once
its process has it, with its own deadline timer.  `acceptedAt`, `timedOut` and `failed` record
what the results speak about: when the server accepted it, and why it has given up. -/
structure Link where
  /-- `async_connect` has succeeded. -/
  established : Bool
  /-- The server's side, when it was accepted. -/
  server : Option (Timed Connection)
  acceptedAt : ℕ
  /-- The proxy's side, when it was started. -/
  proxy : Option (Timed Proxy.Connection)
  /-- What the proxy has sent and the server has not read. -/
  toServer : List Byte
  /-- What the server has sent and the proxy has not read. -/
  toProxy : List Byte
  /-- The server's side was stopped by its deadline. -/
  timedOut : Bool
  /-- An operation of the server's side has failed. -/
  failed : Bool

def Link.new : Link where
  established := false
  server := none
  acceptedAt := 0
  proxy := none
  toServer := []
  toProxy := []
  timedOut := false
  failed := false

/-- `newConnection->start()` in `Server::handleAccept`, with the prognoses of the server. -/
def Link.startServer (l : Link) (m : PrognosisManager) (now : ℕ) : Link :=
  { l with
    server := some (.start Boost.server (.start m [] false) now)
    acceptedAt := now }

/-- `newConnection->start()` in `Proxy::handleAccept`. -/
def Link.startProxy (l : Link) (now : ℕ) : Link :=
  { l with proxy := some (.start Boost.proxy ⟨[], [], .readRequest⟩ now) }

/-- An operation completes. -/
def Timed.completed {κ : Type} (t : Timed κ) (c : κ) (ec : ErrorCode) : Timed κ :=
  { t with connection := c, completion := some ec }

/-- What a connection does by itself. -/
def Event.IsLocal : Event → Prop
  | .elapse | .handle | .handleDeadline => True
  | .clock | .complete => False

/-- What can happen on a connection, at the time `now`.  The steps that need no partner (a timer
expires, a queued handler is called) are those of the timed connections; the reads and the writes
move bytes between the two ends; and every operation of either end may fail.  The proxy's client
is not a part of it, so its reads bring any bytes that have a line. -/
inductive Link.Step (now : ℕ) (l : Link) : Link → Prop
  | accept (m : PrognosisManager) (h : l.established = true) (hserver : l.server = none) :
    Step now l (l.startServer m now)
  | server (t t' : Timed Connection) (e : Event) (h : l.server = some t) (he : e.IsLocal)
    (hstep : { t with now := now }.Step Boost.server e t') :
    Step now l { l with
      server := some t'
      timedOut := l.timedOut || (e = .handleDeadline ∧ t.connection.operation ≠ .stopped ∧
        t'.connection.operation = .stopped) }
  | serverReads (t : Timed Connection) (n : ℕ) (h : l.server = some t)
    (hop : t.connection.operation = .readRequest ∨
      ∃ zodiac, t.connection.operation = .readPrognosis zodiac)
    (hcompletion : t.completion = none)
    (hdelim : delim ∈ t.connection.buffer ++ l.toServer.take n) :
    Step now l { l with
      server := some (t.completed
        { t.connection with buffer := t.connection.buffer ++ l.toServer.take n } .success)
      toServer := l.toServer.drop n }
  | serverWrites (t : Timed Connection) (h : l.server = some t)
    (hop : t.connection.operation = .writeResponse) (hcompletion : t.completion = none) :
    Step now l { l with
      server := some (t.completed { t.connection with buffer := [] } .success)
      toProxy := l.toProxy ++ t.connection.buffer }
  | serverFails (t : Timed Connection) (n : ℕ) (h : l.server = some t)
    (hop : t.connection.operation ≠ .stopped) (hcompletion : t.completion = none) :
    Step now l { l with
      server := some (t.completed
        { t.connection with buffer := t.connection.buffer ++ l.toServer.take n } .eof)
      toServer := l.toServer.drop n
      failed := true }
  -- another connection stores a prognosis
  | stores (t : Timed Connection) (m : PrognosisManager) (h : l.server = some t) :
    Step now l { l with
      server := some { t with connection := { t.connection with prognosisManager := m } } }
  | proxy (t t' : Timed Proxy.Connection) (e : Event) (h : l.proxy = some t) (he : e.IsLocal)
    (hstep : { t with now := now }.Step Boost.proxy e t') :
    Step now l { l with proxy := some t' }
  | proxyReadsRequest (t : Timed Proxy.Connection) (bytes : List Byte) (h : l.proxy = some t)
    (hop : t.connection.operation = .readRequest) (hcompletion : t.completion = none)
    (hdelim : delim ∈ t.connection.clientBuffer ++ bytes) :
    Step now l { l with
      proxy := some (t.completed
        { t.connection with clientBuffer := t.connection.clientBuffer ++ bytes } .success) }
  | proxyWritesRequest (t : Timed Proxy.Connection) (h : l.proxy = some t)
    (hop : t.connection.operation = .writeRequest) (hcompletion : t.completion = none) :
    Step now l { l with
      proxy := some (t.completed { t.connection with connectionBuffer := [] } .success)
      toServer := l.toServer ++ t.connection.connectionBuffer }
  | proxyReadsResponse (t : Timed Proxy.Connection) (n : ℕ) (h : l.proxy = some t)
    (hop : t.connection.operation = .readResponse) (hcompletion : t.completion = none)
    (hdelim : delim ∈ t.connection.connectionBuffer ++ l.toProxy.take n) :
    Step now l { l with
      proxy := some (t.completed { t.connection with
        connectionBuffer := t.connection.connectionBuffer ++ l.toProxy.take n } .success)
      toProxy := l.toProxy.drop n }
  | proxyWritesResponse (t : Timed Proxy.Connection) (h : l.proxy = some t)
    (hop : t.connection.operation = .writeResponse) (hcompletion : t.completion = none) :
    Step now l { l with
      proxy := some (t.completed { t.connection with clientBuffer := [] } .success) }
  | proxyFails (t : Timed Proxy.Connection) (bytes : List Byte) (n : ℕ) (h : l.proxy = some t)
    (hop : t.connection.operation ≠ .stopped) (hcompletion : t.completion = none) :
    Step now l { l with
      proxy := some (t.completed { t.connection with
        clientBuffer := t.connection.clientBuffer ++ bytes
        connectionBuffer := t.connection.connectionBuffer ++ l.toProxy.take n } .eof)
      toProxy := l.toProxy.drop n }

/-! ## `Proxy`

The handlers of `Proxy`, each a function from the state of the service to the next: it starts an
operation at the end of the list, and it starts the proxy's side of a connection.  A `connect` or
an `accept` carries the number of the connection that it is for, as the bound arguments of the
source do. -/

/-- An operation of `Proxy`, with the number of the connection. -/
inductive ProxyOperation
  /-- `async_resolve`, with `handleResolve`. -/
  | resolve
  /-- `async_connect`, with `handleConnect`. -/
  | connect (i : ℕ)
  /-- `async_accept`, with `handleAccept`. -/
  | accept (i : ℕ)
  deriving DecidableEq

/-- An operation of `Proxy` that is pending (`none`), or whose handler is queued with this error
code. -/
structure Pending where
  operation : ProxyOperation
  completion : Option Asio.ErrorCode
  deriving DecidableEq

/-- The proxy with the server behind it: the operations that `Proxy` has under way, and all the
connections that it has ever made, by their numbers. -/
structure Service where
  now : ℕ
  operations : List Pending
  /-- How many connections were made. -/
  count : ℕ
  links : ℕ → Link

/-- The constructor of `Proxy`. -/
def Service.start (now : ℕ) : Service where
  now := now
  operations := [⟨.resolve, none⟩]
  count := 0
  links _ := .new

def Service.async (s : Service) (op : ProxyOperation) : Service :=
  { s with operations := s.operations ++ [⟨op, none⟩] }

def Service.setLink (s : Service) (i : ℕ) (l : Link) : Service :=
  { s with links := Function.update s.links i l }

def Service.startConnect (s : Service) : Service :=
  { s with count := s.count + 1 }.async (.connect s.count)

def Service.handleResolve (s : Service) (ec : Asio.ErrorCode) : Service :=
  if ec ≠ .success then s else s.startConnect

def Service.handleConnect (s : Service) (ec : Asio.ErrorCode) (i : ℕ) : Service :=
  if ec ≠ .success then s else s.async (.accept i)

def Service.handleAccept (s : Service) (ec : Asio.ErrorCode) (i : ℕ) : Service :=
  let s := if ec ≠ .success then s else s.setLink i ((s.links i).startProxy s.now)
  s.startConnect

def Service.handle (s : Service) (op : ProxyOperation) (ec : Asio.ErrorCode) : Service :=
  match op with
  | .resolve => s.handleResolve ec
  | .connect i => s.handleConnect ec i
  | .accept i => s.handleAccept ec i

/-- A connect that succeeds establishes its connection. -/
def Service.complete (s : Service) (op : ProxyOperation) (ec : Asio.ErrorCode) : Service :=
  match op, ec with
  | .connect i, .success => s.setLink i { s.links i with established := true }
  | _, _ => s

/-- What a step is about.  The results read off the events which operations have succeeded or
failed, so each carries its error code. -/
inductive ServiceEvent
  /-- An operation of `Proxy` completes. -/
  | complete (op : ProxyOperation) (ec : Asio.ErrorCode)
  /-- A handler of `Proxy` is called. -/
  | handle (op : ProxyOperation) (ec : Asio.ErrorCode)
  /-- The clock goes on. -/
  | clock
  /-- Something happens on a connection. -/
  | link (i : ℕ)

/-- The steps of the service.  An operation that is pending completes with any error code; a
queued handler is called, whatever stands before or behind it in the list; the clock goes on; or a
connection takes a step of its own. -/
inductive Service.Step (s : Service) : ServiceEvent → Service → Prop
  | complete (before after : List Pending) (op : ProxyOperation) (ec : Asio.ErrorCode)
    (h : s.operations = before ++ ⟨op, none⟩ :: after) :
    Step s (.complete op ec)
      ({ s with operations := before ++ Pending.mk op (some ec) :: after }.complete op ec)
  | handle (before after : List Pending) (op : ProxyOperation) (ec : Asio.ErrorCode)
    (h : s.operations = before ++ ⟨op, some ec⟩ :: after) :
    Step s (.handle op ec) ({ s with operations := before ++ after }.handle op ec)
  | clock (now : ℕ) (h : s.now ≤ now) : Step s .clock { s with now := now }
  | link (i : ℕ) (l : Link) (h : (s.links i).Step s.now l) : Step s (.link i) (s.setLink i l)

/-- A run, with what happens in it.  Runs are extended at the end, so that an induction on one
compares the operations before and behind the last event. -/
inductive Service.Run (s : Service) : List ServiceEvent → Service → Prop
  | nil : Run s [] s
  | snoc {es : List ServiceEvent} {e : ServiceEvent} {s' s'' : Service} (h : Run s es s')
    (hstep : s'.Step e s'') : Run s (es ++ [e]) s''

variable {s s' : Service} {es es' : List ServiceEvent} {op : ProxyOperation}
  {ec : Asio.ErrorCode} {c : Option Asio.ErrorCode} {i : ℕ}

theorem Service.Run.trans {s₁ s₂ s₃ : Service} (h : s₁.Run es s₂) (h' : s₂.Run es' s₃) :
    s₁.Run (es ++ es') s₃ := by
  induction h' with
  | nil => rwa [List.append_nil]
  | snoc _ hstep ih =>
    rw [← List.append_assoc]
    exact ih.snoc hstep

theorem Service.Run.single {e : ServiceEvent} (hstep : s.Step e s') : s.Run [e] s' :=
  .snoc .nil hstep

/-! ## The cycle

The operations of `Proxy` after a run depend on the events of the run only through two facts:
whether the name was resolved, and whether a connect has failed.  `Service.Cycle` says how, and
`Service.Run.cycle` proves it by induction on the run; steps of the connections and of the clock
change nothing here. -/

/-- The resolver has succeeded. -/
def Resolved (es : List ServiceEvent) : Prop := .handle .resolve .success ∈ es

/-- No connect has failed. -/
def Connected (es : List ServiceEvent) : Prop :=
  ∀ i ec, .complete (.connect i) ec ∈ es → ec = .success

/-- One connect or one accept is under way; it is pending when a handler of `Proxy` was
called last. -/
def Service.Armed (s : Service) (es : List ServiceEvent) : Prop :=
  ∃ i c, (s.operations = [⟨.connect i, c⟩] ∨ s.operations = [⟨.accept i, c⟩]) ∧
    ((∃ op ec, es.getLast? = some (.handle op ec)) → c = none)

/-- Both sides were started just now. -/
def Link.Fresh (l : Link) (now : ℕ) : Prop :=
  ∃ m, l.server = some (.start Boost.server (.start m [] false) now) ∧
    l.proxy = some (.start Boost.proxy ⟨[], [], .readRequest⟩ now) ∧
    l.toServer = [] ∧ l.toProxy = []

/-- The run can go on so that a client is accepted, and both sides of its connection are
at the start. -/
def Service.CanServe (s : Service) : Prop :=
  ∃ es s' i, s.Run es s' ∧ .handle (.accept i) .success ∈ es ∧ (s'.links i).Fresh s'.now

/-- Nothing is under way, and nothing will be started. -/
def Service.Ended (s : Service) : Prop :=
  s.operations = [] ∨ ∃ i ec, s.operations = [⟨.connect i, some ec⟩] ∧ ec ≠ .success

/-- **The operations after some events.**  The name has not been resolved, and there is nothing
else under way; or it has been, every connection has succeeded so far, and there is the one
operation that the cycle is at; or a connection has failed, and the cycle has come to its end. -/
inductive Service.Cycle (s : Service) (es : List ServiceEvent) : Prop
  | resolving (hresolved : ¬ Resolved es) (hconnected : Connected es)
    (h : s.operations = [] ∨ ∃ c, s.operations = [⟨.resolve, c⟩])
  | armed (hresolved : Resolved es) (hconnected : Connected es) (h : s.Armed es)
    (hec : ∀ i ec, ⟨.connect i, some ec⟩ ∈ s.operations → ec = .success)
  | ended (hresolved : Resolved es) (hconnected : ¬ Connected es) (h : s.Ended)

/-- The connection of an operation. -/
def ProxyOperation.link : ProxyOperation → Option ℕ
  | .resolve => none
  | .connect i => some i
  | .accept i => some i

/-- The numbers of the connections: one that was not made yet is new, and the operations are about
connections that were made.  It lets `startConnect` take the next number. -/
structure Service.Numbered (s : Service) : Prop where
  new : ∀ k, s.count ≤ k → s.links k = .new
  lt : ∀ p ∈ s.operations, ∀ i, p.operation.link = some i → i < s.count

theorem Link.not_step_new {now : ℕ} {l : Link} : ¬ Link.new.Step now l := by
  intro h
  cases h with
  | accept m h => cases h
  | server t t' e h => cases h
  | serverReads t n h => cases h
  | serverWrites t h => cases h
  | serverFails t n h => cases h
  | stores t m h => cases h
  | proxy t t' e h => cases h
  | proxyReadsRequest t bytes h => cases h
  | proxyWritesRequest t h => cases h
  | proxyReadsResponse t n h => cases h
  | proxyWritesResponse t h => cases h
  | proxyFails t bytes n h => cases h

theorem nil_ne_append_cons {α : Type} {before after : List α} {a : α} :
    [] ≠ before ++ a :: after :=
  (List.append_ne_nil_of_right_ne_nil before (List.cons_ne_nil a after)).symm

theorem resolved_append {e : ServiceEvent} :
    Resolved (es ++ [e]) ↔ Resolved es ∨ e = .handle .resolve .success := by
  rw [Resolved, List.mem_append, List.mem_singleton, eq_comm (a := e)]
  rfl

theorem connected_append {e : ServiceEvent} :
    Connected (es ++ [e]) ↔
      Connected es ∧ ∀ i ec, e = .complete (.connect i) ec → ec = .success := by
  constructor
  · intro h
    exact ⟨fun i ec hmem => h i ec (List.mem_append_left _ hmem),
      fun i ec heq => h i ec (List.mem_append_right _ (List.mem_singleton.mpr heq.symm))⟩
  · rintro ⟨h, he⟩ i ec hmem
    rcases List.mem_append.mp hmem with hmem | hmem
    · exact h i ec hmem
    · exact he i ec (List.mem_singleton.mp hmem).symm

theorem Service.operations_complete (s : Service) (op : ProxyOperation) (ec : Asio.ErrorCode) :
    (s.complete op ec).operations = s.operations := by
  cases op with
  | resolve => rfl
  | accept i => rfl
  | connect i => cases ec <;> rfl

theorem Service.operations_startConnect (h : s.operations = []) :
    s.startConnect.operations = [⟨.connect s.count, none⟩] := by
  show s.operations ++ _ = _
  rw [h, List.nil_append]

theorem Service.operations_handleAccept (h : s.operations = []) (ec : Asio.ErrorCode) (i : ℕ) :
    (s.handleAccept ec i).operations = [⟨.connect s.count, none⟩] := by
  rw [handleAccept]
  split <;> exact operations_startConnect h

/-- What does not complete or handle an operation of `Proxy` changes nothing here. -/
theorem Service.Cycle.congr {e : ServiceEvent} (h : s.Cycle es)
    (hoperations : s'.operations = s.operations) (he : e = .clock ∨ ∃ i, e = .link i) :
    s'.Cycle (es ++ [e]) := by
  have hresolve : ¬ e = .handle .resolve .success := by
    rintro rfl
    rcases he with he | ⟨i, he⟩ <;> cases he
  have hconnect : ∀ i ec, e = .complete (.connect i) ec → ec = .success := by
    rintro i ec rfl
    rcases he with he | ⟨i, he⟩ <;> cases he
  have hhandle : ∀ op ec, (es ++ [e]).getLast? ≠ some (.handle op ec) := by
    intro op ec hlast
    rw [List.getLast?_append, List.getLast?_singleton, Option.some_or] at hlast
    obtain rfl := Option.some.inj hlast
    rcases he with he | ⟨i, he⟩ <;> cases he
  cases h with
  | resolving hresolved hconnected h =>
    exact .resolving (fun hmem => (resolved_append.mp hmem).elim hresolved hresolve)
      (connected_append.mpr ⟨hconnected, hconnect⟩) (hoperations ▸ h)
  | armed hresolved hconnected h hec =>
    obtain ⟨i, c, h, -⟩ := h
    refine .armed (resolved_append.mpr (.inl hresolved))
      (connected_append.mpr ⟨hconnected, hconnect⟩) ⟨i, c, hoperations ▸ h, ?_⟩
      (hoperations ▸ hec)
    rintro ⟨op, ec, hlast⟩
    exact absurd hlast (hhandle op ec)
  | ended hresolved hconnected h =>
    refine .ended (resolved_append.mpr (.inl hresolved))
      (fun h => hconnected (connected_append.mp h).1) ?_
    rw [Ended, hoperations]
    exact h

theorem not_handle_complete (es : List ServiceEvent) (op : ProxyOperation)
    (ec : Asio.ErrorCode) :
    ¬ ∃ op' ec', (es ++ [ServiceEvent.complete op ec]).getLast? = some (.handle op' ec') := by
  rintro ⟨op', ec', hlast⟩
  rw [List.getLast?_append, List.getLast?_singleton, Option.some_or] at hlast
  cases hlast

/-- An operation of `Proxy` completes. -/
theorem Service.Cycle.complete (h : s.Cycle es) {before after : List Pending}
    (hoperations : s.operations = before ++ ⟨op, none⟩ :: after)
    (hoperations' : s'.operations = before ++ ⟨op, some ec⟩ :: after) :
    s'.Cycle (es ++ [.complete op ec]) := by
  cases h with
  | resolving hresolved hconnected h =>
    rcases h with h | ⟨c, h⟩
    · rw [h] at hoperations
      exact absurd hoperations nil_ne_append_cons
    · obtain ⟨rfl, hop, rfl⟩ := Asio.append_cons_eq_singleton (hoperations.symm.trans h)
      obtain ⟨rfl, -⟩ := Pending.mk.inj hop
      refine .resolving (fun hmem => ?_) (connected_append.mpr ⟨hconnected, fun i ec heq => ?_⟩)
        (.inr ⟨some ec, hoperations'⟩)
      · rcases resolved_append.mp hmem with hmem | hmem
        · exact hresolved hmem
        · cases hmem
      · cases heq
  | armed hresolved hconnected h hec =>
    have hresolved' := resolved_append (e := .complete op ec) |>.mpr (.inl hresolved)
    obtain ⟨i, c, h, -⟩ := h
    rcases h with h | h
    · obtain ⟨rfl, hop, rfl⟩ := Asio.append_cons_eq_singleton (hoperations.symm.trans h)
      obtain ⟨rfl, -⟩ := Pending.mk.inj hop
      rw [List.nil_append] at hoperations'
      by_cases hsuccess : ec = .success
      · refine .armed hresolved' (connected_append.mpr ⟨hconnected, fun j ec' heq => ?_⟩)
          ⟨i, some ec, .inl hoperations', fun hlast => ?_⟩ fun j ec' hmem => ?_
        · cases heq
          exact hsuccess
        · exact absurd hlast (not_handle_complete es _ ec)
        · rw [hoperations'] at hmem
          cases List.mem_singleton.mp hmem
          exact hsuccess
      · exact .ended hresolved' (fun h => hsuccess ((connected_append.mp h).2 i ec rfl))
          (.inr ⟨i, ec, hoperations', hsuccess⟩)
    · obtain ⟨rfl, hop, rfl⟩ := Asio.append_cons_eq_singleton (hoperations.symm.trans h)
      obtain ⟨rfl, -⟩ := Pending.mk.inj hop
      refine .armed hresolved' (connected_append.mpr ⟨hconnected, fun j ec' heq => ?_⟩)
        ⟨i, some ec, .inr hoperations', fun hlast => ?_⟩ fun j ec' hmem => ?_
      · cases heq
      · exact absurd hlast (not_handle_complete es _ ec)
      · rw [hoperations'] at hmem
        cases List.mem_singleton.mp hmem
  | ended hresolved hconnected h =>
    rcases h with h | ⟨i, ec', h, -⟩
    · rw [h] at hoperations
      exact absurd hoperations nil_ne_append_cons
    · obtain ⟨-, hop, -⟩ := Asio.append_cons_eq_singleton (hoperations.symm.trans h)
      cases hop

/-- After the handler of the resolver or of an accept, a connect is pending. -/
theorem Service.Cycle.of_connect {e : ServiceEvent} (hresolved : Resolved (es ++ [e]))
    (hconnected : Connected (es ++ [e])) (h : s.operations = [⟨.connect i, none⟩]) :
    s.Cycle (es ++ [e]) := by
  refine .armed hresolved hconnected ⟨i, none, .inl h, fun _ => rfl⟩ fun j ec hmem => ?_
  rw [h] at hmem
  cases List.mem_singleton.mp hmem

/-- **A handler of `Proxy` is called.**  Each of the three starts the next operation of the cycle,
unless the resolver or a connect has failed. -/
theorem Service.Cycle.handle (h : s.Cycle es) {before after : List Pending}
    (hoperations : s.operations = before ++ ⟨op, some ec⟩ :: after) :
    (Service.handle { s with operations := before ++ after } op ec).Cycle
      (es ++ [.handle op ec]) := by
  have hconnect : ∀ i ec', ServiceEvent.handle op ec = .complete (.connect i) ec' →
      ec' = .success := by
    intro i ec' heq
    cases heq
  cases h with
  | resolving hresolved hconnected h =>
    have hconnected' := connected_append.mpr ⟨hconnected, hconnect⟩
    rcases h with h | ⟨c, h⟩
    · rw [h] at hoperations
      exact absurd hoperations nil_ne_append_cons
    · obtain ⟨rfl, hop, rfl⟩ := Asio.append_cons_eq_singleton (hoperations.symm.trans h)
      obtain ⟨rfl, -⟩ := Pending.mk.inj hop
      rw [Service.handle, handleResolve]
      by_cases hec : ec ≠ .success
      · rw [if_pos hec]
        refine .resolving (fun hmem => ?_) hconnected' (.inl rfl)
        rcases resolved_append.mp hmem with hmem | hmem
        · exact hresolved hmem
        · cases hmem
          exact hec rfl
      · rw [if_neg hec]
        rw [not_not] at hec
        rw [hec] at hconnected' ⊢
        exact .of_connect (resolved_append.mpr (.inr rfl)) hconnected' (operations_startConnect rfl)
  | armed hresolved hconnected h hec =>
    have hresolved' := resolved_append (e := .handle op ec) |>.mpr (.inl hresolved)
    have hconnected' := connected_append.mpr ⟨hconnected, hconnect⟩
    obtain ⟨i, c, h, -⟩ := h
    rcases h with h | h
    · obtain ⟨rfl, hop, rfl⟩ := Asio.append_cons_eq_singleton (hoperations.symm.trans h)
      obtain ⟨rfl, -⟩ := Pending.mk.inj hop
      have hsuccess : ec = .success := hec i ec (hoperations ▸ List.mem_cons_self)
      rw [Service.handle, handleConnect, if_neg (not_not_intro hsuccess)]
      refine .armed hresolved' hconnected' ⟨i, none, .inr rfl, fun _ => rfl⟩ fun j ec' hmem => ?_
      cases List.mem_singleton.mp hmem
    · obtain ⟨rfl, hop, rfl⟩ := Asio.append_cons_eq_singleton (hoperations.symm.trans h)
      obtain ⟨rfl, -⟩ := Pending.mk.inj hop
      exact .of_connect hresolved' hconnected' (operations_handleAccept rfl ec i)
  | ended hresolved hconnected h =>
    have hresolved' := resolved_append (e := .handle op ec) |>.mpr (.inl hresolved)
    have hconnected' : ¬ Connected (es ++ [.handle op ec]) :=
      fun h => hconnected (connected_append.mp h).1
    rcases h with h | ⟨i, ec', h, hec⟩
    · rw [h] at hoperations
      exact absurd hoperations nil_ne_append_cons
    · obtain ⟨rfl, hop, rfl⟩ := Asio.append_cons_eq_singleton (hoperations.symm.trans h)
      obtain ⟨rfl, heq⟩ := Pending.mk.inj hop
      rw [← Option.some.inj heq] at hec
      rw [Service.handle, handleConnect, if_pos hec]
      exact .ended hresolved' hconnected' (.inl rfl)

theorem Service.Cycle.step {e : ServiceEvent} (h : s.Cycle es) (hstep : s.Step e s') :
    s'.Cycle (es ++ [e]) := by
  cases hstep with
  | complete before after op ec hoperations =>
    exact h.complete hoperations (operations_complete _ op ec)
  | handle before after op ec hoperations => exact h.handle hoperations
  | clock now hle => exact h.congr rfl (.inl rfl)
  | link i l hl => exact h.congr rfl (.inr ⟨i, rfl⟩)

theorem Service.Run.cycle {now : ℕ} (h : (Service.start now).Run es s) : s.Cycle es := by
  induction h with
  | nil =>
    exact .resolving List.not_mem_nil (fun i ec hmem => absurd hmem List.not_mem_nil)
      (.inr ⟨none, rfl⟩)
  | snoc _ hstep ih => exact ih.step hstep

/-! ### A further client

While the cycle goes on, the service can serve one more client: from any such state there is a run
that completes what is under way, connects, accepts and starts both sides.  The connection in it
is new, since its number was not used before (`Service.Numbered`). -/

theorem Service.links_setLink_self (s : Service) (i : ℕ) (l : Link) :
    (s.setLink i l).links i = l := by
  show Function.update s.links i l i = l
  exact Function.update_self ..

theorem Service.links_setLink_of_ne (s : Service) {i k : ℕ} (h : k ≠ i) (l : Link) :
    (s.setLink i l).links k = s.links k := by
  show Function.update s.links i l k = s.links k
  exact Function.update_of_ne h ..

theorem Service.Numbered.setLink (h : s.Numbered) (hi : i < s.count) (l : Link) :
    (s.setLink i l).Numbered := by
  refine ⟨fun k hk => ?_, h.lt⟩
  rw [links_setLink_of_ne s (Nat.ne_of_gt (hi.trans_le hk))]
  exact h.new k hk

theorem Service.Numbered.async (h : s.Numbered) (hop : ∀ i, op.link = some i → i < s.count) :
    (s.async op).Numbered := by
  refine ⟨h.new, fun p hp => ?_⟩
  rcases List.mem_append.mp hp with hp | hp
  · exact h.lt p hp
  · rw [List.mem_singleton.mp hp]
    exact hop

theorem Service.Numbered.startConnect (h : s.Numbered) : s.startConnect.Numbered := by
  have hnext : Service.Numbered { s with count := s.count + 1 } :=
    ⟨fun k hk => h.new k (Nat.le_of_succ_le hk),
      fun p hp i hi => Nat.lt_succ_of_lt (h.lt p hp i hi)⟩
  refine hnext.async fun i hi => ?_
  rw [← Option.some.inj hi]
  exact Nat.lt_succ_self _

theorem Service.Numbered.complete (h : s.Numbered) (hop : ∀ i, op.link = some i → i < s.count)
    (ec : Asio.ErrorCode) : (s.complete op ec).Numbered := by
  cases op with
  | resolve => exact h
  | accept i => exact h
  | connect i =>
    cases ec with
    | success => exact h.setLink (hop i rfl) _
    | eof => exact h
    | operationAborted => exact h
    | other code => exact h

theorem Service.Numbered.handle (h : s.Numbered) (hop : ∀ i, op.link = some i → i < s.count)
    (ec : Asio.ErrorCode) : (s.handle op ec).Numbered := by
  cases op with
  | resolve =>
    rw [Service.handle, handleResolve]
    split
    · exact h
    · exact h.startConnect
  | connect i =>
    rw [Service.handle, handleConnect]
    split
    · exact h
    · exact h.async hop
  | accept i =>
    rw [Service.handle, handleAccept]
    split
    · exact h.startConnect
    · exact (h.setLink (hop i rfl) _).startConnect

theorem Service.Numbered.step {e : ServiceEvent} (h : s.Numbered) (hstep : s.Step e s') :
    s'.Numbered := by
  cases hstep with
  | complete before after op ec hoperations =>
    have hop : ∀ i, op.link = some i → i < s.count :=
      h.lt ⟨op, none⟩ (hoperations ▸ List.mem_append_cons_self)
    have hnext : Service.Numbered
        { s with operations := before ++ Pending.mk op (some ec) :: after } := by
      refine ⟨h.new, fun p hp => ?_⟩
      rcases List.mem_append.mp hp with hp | hp
      · exact h.lt p (hoperations ▸ List.mem_append_left _ hp)
      · rcases List.mem_cons.mp hp with hp | hp
        · rw [hp]
          exact hop
        · exact h.lt p (hoperations ▸ List.mem_append_right _ (List.mem_cons_of_mem _ hp))
    exact hnext.complete hop ec
  | handle before after op ec hoperations =>
    have hop : ∀ i, op.link = some i → i < s.count :=
      h.lt ⟨op, some ec⟩ (hoperations ▸ List.mem_append_cons_self)
    have hsub : (before ++ after).Sublist s.operations :=
      hoperations ▸ (List.sublist_cons_self _ after).append_left before
    have hnext : Service.Numbered { s with operations := before ++ after } :=
      ⟨h.new, fun p hp => h.lt p (hsub.subset hp)⟩
    exact hnext.handle hop ec
  | clock now hle => exact ⟨h.new, h.lt⟩
  | link i l hl =>
    refine h.setLink (Nat.lt_of_not_le fun hle => ?_) l
    rw [h.new i hle] at hl
    exact Link.not_step_new hl

theorem Service.Run.numbered {now : ℕ} (h : (Service.start now).Run es s) : s.Numbered := by
  induction h with
  | nil =>
    refine ⟨fun k _ => rfl, fun p hp i hi => ?_⟩
    rw [List.mem_singleton.mp hp] at hi
    cases hi
  | snoc _ hstep ih => exact ih.step hstep

/-- A run can go on to the next connect. -/
def Service.CanConnect (s : Service) : Prop :=
  ∃ es s' i, s.Run es s' ∧ s'.operations = [⟨.connect i, none⟩] ∧ s'.links i = .new

theorem Service.CanConnect.of_step {e : ServiceEvent} (hstep : s.Step e s')
    (h : s'.CanConnect) : s.CanConnect := by
  obtain ⟨es, s'', i, hrun, hrest⟩ := h
  exact ⟨[e] ++ es, s'', i, (Service.Run.single hstep).trans hrun, hrest⟩

theorem Service.canConnect_of_accepted (h : s.Numbered)
    (hoperations : s.operations = [⟨.accept i, some ec⟩]) : s.CanConnect := by
  have hstep := Step.handle [] [] (.accept i) ec hoperations
  refine .of_step hstep ⟨[], _, s.count, .nil, ?_, ?_⟩
  · exact operations_handleAccept rfl ec i
  · have hlt := h.lt ⟨.accept i, some ec⟩ (hoperations ▸ List.mem_cons_self) i rfl
    show (Service.handleAccept _ ec i).links s.count = _
    rw [handleAccept]
    split
    · exact h.new s.count le_rfl
    · show (setLink _ i _).links s.count = _
      rw [links_setLink_of_ne _ (Nat.ne_of_gt hlt)]
      exact h.new s.count le_rfl

theorem Service.canConnect_of_accept (h : s.Numbered)
    (hoperations : s.operations = [⟨.accept i, c⟩]) : s.CanConnect := by
  cases c with
  | none =>
    have hstep := Step.complete [] [] (.accept i) .success hoperations
    exact .of_step hstep (canConnect_of_accepted (h.step hstep) rfl)
  | some ec => exact canConnect_of_accepted h hoperations

theorem Service.canConnect_of_connected (h : s.Numbered)
    (hoperations : s.operations = [⟨.connect i, some .success⟩]) : s.CanConnect := by
  have hstep := Step.handle [] [] (.connect i) .success hoperations
  exact .of_step hstep (canConnect_of_accept (h.step hstep) rfl)

/-- **From a connect to a client that is served.**  The connect succeeds, its handler accepts, the
accept succeeds, and meanwhile the server accepts the connection. -/
theorem Service.canServe_of_connect (hoperations : s.operations = [⟨.connect i, none⟩])
    (hnew : s.links i = .new) : s.CanServe := by
  have hconnect := Step.complete [] [] (.connect i) .success hoperations
  let s₁ : Service := setLink { s with operations := [⟨.connect i, some .success⟩] } i
    { s.links i with established := true }
  have hlink₁ : s₁.links i = { s.links i with established := true } := links_setLink_self _ i _
  -- the server accepts the connection at once
  let m : PrognosisManager := fun _ => none
  have hserver : s₁.Step (.link i) (s₁.setLink i ((s₁.links i).startServer m s₁.now)) := by
    refine .link i _ (.accept m ?_ ?_)
    · rw [hlink₁]
    · rw [hlink₁, hnew]
      rfl
  let s₂ := s₁.setLink i ((s₁.links i).startServer m s₁.now)
  have hconnected := Step.handle (s := s₂) [] [] (.connect i) .success rfl
  let s₃ : Service := { s₂ with operations := [⟨.accept i, none⟩] }
  have haccept := Step.complete (s := s₃) [] [] (.accept i) .success rfl
  let s₄ : Service := { s₃ with operations := [⟨.accept i, some .success⟩] }
  have haccepted := Step.handle (s := s₄) [] [] (.accept i) .success rfl
  have hlink₂ : s₄.links i = (s₁.links i).startServer m s₁.now := links_setLink_self s₁ i _
  refine ⟨_, _, i, ((((Run.single hconnect).snoc hserver).snoc hconnected).snoc haccept).snoc
    haccepted, List.mem_append_right _ List.mem_cons_self, m, ?_⟩
  have hlink : (Service.handleAccept { s₄ with operations := [] } .success i).links i =
      ((s₁.links i).startServer m s₁.now).startProxy s.now :=
    (links_setLink_self { s₄ with operations := [] } i _).trans (by rw [hlink₂]; rfl)
  show ((Service.handleAccept { s₄ with operations := [] } .success i).links i).server = _ ∧
    ((Service.handleAccept { s₄ with operations := [] } .success i).links i).proxy = _ ∧
    ((Service.handleAccept { s₄ with operations := [] } .success i).links i).toServer = _ ∧
    ((Service.handleAccept { s₄ with operations := [] } .success i).links i).toProxy = _
  rw [hlink, hlink₁, hnew]
  exact ⟨rfl, rfl, rfl, rfl⟩

theorem Service.CanServe.of_run (h : s.Run es s') (hserve : s'.CanServe) : s.CanServe := by
  obtain ⟨es', s'', i, hrun, hmem, hfresh⟩ := hserve
  exact ⟨es ++ es', s'', i, h.trans hrun, List.mem_append_right _ hmem, hfresh⟩

theorem Service.Armed.canServe (h : s.Armed es) (hnumbered : s.Numbered)
    (hec : ∀ i ec, ⟨.connect i, some ec⟩ ∈ s.operations → ec = .success) : s.CanServe := by
  have hconnect : s.CanConnect := by
    obtain ⟨i, c, hconnect | haccept, -⟩ := h
    · cases c with
      | none =>
        have hstep := Step.complete [] [] (.connect i) .success hconnect
        exact .of_step hstep (canConnect_of_connected (hnumbered.step hstep) rfl)
      | some ec =>
        rw [hec i ec (hconnect ▸ List.mem_cons_self)] at hconnect
        exact canConnect_of_connected hnumbered hconnect
    · exact canConnect_of_accept hnumbered haccept
  obtain ⟨es', s', i, hrun, hoperations, hnew⟩ := hconnect
  exact .of_run hrun (canServe_of_connect hoperations hnew)

/-! ### The end

When a connect has failed, its handler returns and starts nothing.  From then on no step adds an
operation of `Proxy`, so nothing can be accepted any more. -/

theorem Service.Ended.step {e : ServiceEvent} (h : s.Ended) (hstep : s.Step e s') :
    s'.Ended ∧ ∀ i, e ≠ .handle (.accept i) .success := by
  cases hstep with
  | complete before after op ec hoperations =>
    rcases h with h | ⟨i, ec', h, -⟩
    · rw [h] at hoperations
      exact absurd hoperations nil_ne_append_cons
    · obtain ⟨-, hop, -⟩ := Asio.append_cons_eq_singleton (hoperations.symm.trans h)
      cases hop
  | handle before after op ec hoperations =>
    rcases h with h | ⟨i, ec', h, hec⟩
    · rw [h] at hoperations
      exact absurd hoperations nil_ne_append_cons
    · obtain ⟨rfl, hop, rfl⟩ := Asio.append_cons_eq_singleton (hoperations.symm.trans h)
      obtain ⟨rfl, heq⟩ := Pending.mk.inj hop
      rw [← Option.some.inj heq] at hec
      rw [Service.handle, handleConnect, if_pos hec]
      exact ⟨.inl rfl, fun i heq => by cases heq⟩
  | clock now hle => exact ⟨h, fun i heq => by cases heq⟩
  | link i l hl => exact ⟨h, fun i heq => by cases heq⟩

theorem Service.Ended.run (h : s.Ended) (hrun : s.Run es s') :
    s'.Ended ∧ ∀ i, .handle (.accept i) .success ∉ es := by
  induction hrun with
  | nil => exact ⟨h, fun i => List.not_mem_nil⟩
  | snoc _ hstep ih =>
    obtain ⟨hended, hne⟩ := ih.1.step hstep
    refine ⟨hended, fun i hmem => ?_⟩
    rcases List.mem_append.mp hmem with hmem | hmem
    · exact ih.2 i hmem
    · exact hne i (List.mem_singleton.mp hmem).symm

/-- **The proxy keeps accepting exactly as long as no connect fails.**  In every run in
which the resolver has succeeded, with any results of the connects and accepts, and with
anything that happens on the connections in between: one connect or one accept is under
way and a further client can be served, if and only if no connect has failed. -/
theorem Service.accepting_iff {now : ℕ} (hrun : (Service.start now).Run es s)
    (hresolved : Resolved es) : s.Armed es ∧ s.CanServe ↔ Connected es := by
  cases hrun.cycle with
  | resolving hnot hconnected h => exact absurd hresolved hnot
  | armed _ hconnected h hec =>
    exact iff_of_true ⟨h, h.canServe hrun.numbered hec⟩ hconnected
  | ended _ hconnected h =>
    refine iff_of_false ?_ hconnected
    rintro ⟨-, es', s', i, hrun', hmem, -⟩
    exact (h.run hrun').2 i hmem

/-- The server is down when the proxy connects for the first time. -/
def sampleRefused : Service := ⟨0, [], 1, fun _ => .new⟩

def sampleRefusal : List ServiceEvent :=
  [.complete .resolve .success, .handle .resolve .success, .complete (.connect 0) (.other 111),
    .handle (.connect 0) (.other 111)]

theorem sampleRefused_run : (Service.start 0).Run sampleRefusal sampleRefused := by
  have hresolve := Service.Step.complete (s := .start 0) [] [] .resolve .success rfl
  have hresolved := Service.Step.handle (s := ⟨0, [⟨.resolve, some .success⟩], 0, fun _ => .new⟩)
    [] [] .resolve .success rfl
  have hconnect := Service.Step.complete (s := ⟨0, [⟨.connect 0, none⟩], 1, fun _ => .new⟩)
    [] [] (.connect 0) (.other 111) rfl
  have hfailed := Service.Step.handle
    (s := ⟨0, [⟨.connect 0, some (.other 111)⟩], 1, fun _ => .new⟩) [] [] (.connect 0)
    (.other 111) rfl
  exact (((Service.Run.single hresolve).snoc hresolved).snoc hconnect).snoc hfailed

/-- **One failed connect** ends the cycle: there is a run in which the resolver has succeeded and
no operation is under way. -/
theorem sampleRefused_ends :
    ¬ ∀ (now : ℕ) (es : List ServiceEvent) (s : Service), (Service.start now).Run es s →
      Resolved es → s.Armed es := by
  intro h
  obtain ⟨i, c, hoperations | hoperations, -⟩ :=
    h 0 sampleRefusal sampleRefused sampleRefused_run (.tail _ (.head _))
  · cases hoperations
  · cases hoperations

theorem sampleRefused_iff :
    sampleRefused.Armed sampleRefusal ∧ sampleRefused.CanServe ↔ Connected sampleRefusal :=
  Service.accepting_iff sampleRefused_run (.tail _ (.head _))

/-! ## Idle connections

The server starts its side when it accepts the connection, and from then on its deadline runs; the
proxy's side is started when a client has come.  Until then nothing is sent to the server's side,
so its read cannot succeed: it waits, or its deadline stops it, or an operation fails. -/

/-- The server's side waits for its first request. -/
def Timed.Waits (t : Timed Connection) : Prop :=
  t.connection.operation = .readRequest ∧ t.connection.buffer = [] ∧ t.completion = none

/-- It can go on with an error only, and `deadline` is its deadline. -/
def Timed.Untouched (t : Timed Connection) (deadline now : ℕ) : Prop :=
  t.connection.operation = .readRequest ∧ t.connection.buffer = [] ∧
    t.completion ≠ some .success ∧ t.deadline.expiry = deadline ∧ t.deadline.Fresh now

/-- What the server's side does by itself before its first request. -/
theorem Timed.Untouched.step {t t' : Timed Connection} {deadline now : ℕ} {e : Event}
    (h : t.Untouched deadline now) (hstep : { t with now := now }.Step Boost.server e t')
    (he : e.IsLocal) :
    (t'.Untouched deadline now ∧ t'.completion = t.completion) ∨
      (t'.connection.operation = .stopped ∧
        ((e = .handleDeadline ∧ deadline ≤ now) ∨ (e = .handle ∧ t.completion ≠ none))) := by
  obtain ⟨hop, hbuffer, hcompletion, hexpiry, hfresh⟩ := h
  cases hstep with
  | clock now' hle => exact he.elim
  | complete ec c hnone hopen hc => exact he.elim
  | elapse hwait hle =>
    exact .inl ⟨⟨hop, hbuffer, hcompletion, hexpiry, SteadyTimer.Timer.fresh_elapse hle⟩, rfl⟩
  | handle ec hsome =>
    have hsome' : t.completion = some ec := hsome
    have hec : ec ≠ .success := fun heq => hcompletion (heq ▸ hsome')
    have hhandle : Boost.server.handle t.connection ec = t.connection.stop := by
      show t.connection.handle ec = _
      rw [Connection.handle, hop]
      exact if_pos hec
    refine .inr ⟨?_, .inr ⟨rfl, hsome' ▸ Option.some_ne_none ec⟩⟩
    have hopen : Boost.server.stopped t.connection = false := by
      show decide (t.connection.operation = .stopped) = false
      rw [hop]
      rfl
    rw [handle_of_stop (s := { t with now := now }) hopen (by rw [hhandle]; rfl)]
    exact congrArg Connection.operation hhandle
  | handleDeadline hwait =>
    have hopen : Boost.server.stopped t.connection = false := by
      show decide (t.connection.operation = .stopped) = false
      rw [hop]
      rfl
    rw [Timed.handleDeadline, if_neg (Bool.eq_false_iff.mp hopen)]
    by_cases haborted : t.deadline.wait = .aborted
    · rw [if_pos haborted]
      exact .inl ⟨⟨hop, hbuffer, hcompletion, hexpiry,
        SteadyTimer.Timer.fresh_of_ne (fun h => by cases h) now⟩, rfl⟩
    · rw [if_neg haborted]
      have helapsed : t.deadline.wait = .elapsed := hwait.resolve_right haborted
      exact .inr ⟨rfl, .inl ⟨rfl, hexpiry ▸ hfresh helapsed⟩⟩

/-- After the end nothing changes but the queued handlers. -/
theorem Timed.stopped_step {t t' : Timed Connection} {now : ℕ} {e : Event}
    (h : t.connection.operation = .stopped)
    (hstep : { t with now := now }.Step Boost.server e t') (he : e.IsLocal) :
    t'.connection.operation = .stopped := by
  have hstopped : Boost.server.stopped t.connection = true := decide_eq_true h
  cases hstep with
  | clock now' hle => exact he.elim
  | complete ec c hnone hopen hc => exact he.elim
  | elapse hwait hle => exact h
  | handle ec hsome =>
    rw [handle_of_stopped (s := { t with now := now }) hstopped]
    exact h
  | handleDeadline hwait =>
    rw [Timed.handleDeadline, if_pos hstopped]
    exact h

/-- **The invariant of a connection that waits for its client.**  Nothing has come from the proxy;
the server's side, if there is one, waits with the deadline of its first read or has stopped; and
it can have stopped by its deadline only when `ReadRequestTimeout` has passed since it was
accepted. -/
structure Link.Idle (l : Link) (now : ℕ) : Prop where
  toServer : l.toServer = []
  unserved : l.server = none → l.timedOut = false
  timedOut : l.timedOut = true → l.acceptedAt + readRequestTimeout ≤ now
  side : ∀ t, l.server = some t → t.connection.operation = .stopped ∨
    t.Untouched (l.acceptedAt + readRequestTimeout) now
  waits : l.timedOut = false → l.failed = false → ∀ t, l.server = some t → t.Waits

theorem Link.Idle.new (now : ℕ) : Link.new.Idle now where
  toServer := rfl
  unserved _ := rfl
  timedOut h := by cases h
  side t h := by cases h
  waits _ _ t h := by cases h

theorem Link.Idle.mono {l : Link} {now now' : ℕ} (h : l.Idle now) (hle : now ≤ now') :
    l.Idle now' where
  toServer := h.toServer
  unserved := h.unserved
  timedOut htimed := (h.timedOut htimed).trans hle
  side t ht := by
    refine (h.side t ht).imp_right ?_
    rintro ⟨hop, hbuffer, hcompletion, hexpiry, hfresh⟩
    exact ⟨hop, hbuffer, hcompletion, hexpiry, hfresh.mono hle⟩
  waits := h.waits

/-- The server accepts the connection. -/
theorem Link.Idle.startServer {l : Link} {now : ℕ} (h : l.Idle now) (hserver : l.server = none)
    (m : PrognosisManager) : (l.startServer m now).Idle now where
  toServer := h.toServer
  unserved hnone := by cases hnone
  timedOut htimed := by
    have hfalse : l.timedOut = true := htimed
    rw [h.unserved hserver] at hfalse
    cases hfalse
  side t ht := by
    obtain rfl := Option.some.inj ht
    exact .inr ⟨rfl, rfl, (fun hcompletion => by cases hcompletion), rfl,
      SteadyTimer.Timer.fresh_of_ne (fun hwait => by cases hwait) now⟩
  waits _ _ t ht := by
    obtain rfl := Option.some.inj ht
    exact ⟨rfl, rfl, rfl⟩

/-- The server's side does something by itself. -/
theorem Link.Idle.server {l : Link} {now : ℕ} (h : l.Idle now) {t t' : Timed Connection}
    {e : Event} (ht : l.server = some t) (he : e.IsLocal)
    (hstep : { t with now := now }.Step Boost.server e t') :
    Link.Idle { l with
      server := some t'
      timedOut := l.timedOut || (e = .handleDeadline ∧ t.connection.operation ≠ .stopped ∧
        t'.connection.operation = .stopped) } now where
  toServer := h.toServer
  unserved hnone := by cases hnone
  timedOut htimed := by
    rcases (Bool.or_eq_true _ _).mp htimed with htimed | htimed
    · exact h.timedOut htimed
    · obtain ⟨hdeadline, hopen, hstopped⟩ := of_decide_eq_true htimed
      rcases (h.side t ht).resolve_left hopen |>.step hstep he with ⟨huntouched, -⟩ | ⟨-, hend⟩
      · rw [huntouched.1] at hstopped
        cases hstopped
      · rcases hend with ⟨-, hle⟩ | ⟨hhandle, -⟩
        · exact hle
        · rw [hdeadline] at hhandle
          cases hhandle
  side u hu := by
    obtain rfl := Option.some.inj hu
    rcases h.side t ht with hstopped | huntouched
    · exact .inl (Timed.stopped_step hstopped hstep he)
    · rcases huntouched.step hstep he with ⟨huntouched', -⟩ | ⟨hstopped, -⟩
      · exact .inr huntouched'
      · exact .inl hstopped
  waits htimed hfailed u hu := by
    obtain rfl := Option.some.inj hu
    obtain ⟨htimed, hdeadline⟩ := (Bool.or_eq_false_iff).mp htimed
    obtain ⟨hop, hbuffer, hcompletion⟩ := h.waits htimed hfailed t ht
    have hopen : t.connection.operation ≠ .stopped := by
      rw [hop]
      exact Operation.noConfusion
    rcases (h.side t ht).resolve_left hopen |>.step hstep he with
      ⟨huntouched, hcompletion'⟩ | ⟨hstopped, hend⟩
    · exact ⟨huntouched.1, huntouched.2.1, hcompletion'.trans hcompletion⟩
    · rcases hend with ⟨hhandle, -⟩ | ⟨-, hne⟩
      · exact absurd ⟨hhandle, hopen, hstopped⟩ (of_decide_eq_false hdeadline)
      · exact absurd hcompletion hne

/-- An operation of the server's side fails. -/
theorem Link.Idle.serverFails {l : Link} {now : ℕ} (h : l.Idle now) {t : Timed Connection}
    (ht : l.server = some t) (n : ℕ) (hop : t.connection.operation ≠ .stopped) :
    Link.Idle { l with
      server := some (t.completed
        { t.connection with buffer := t.connection.buffer ++ l.toServer.take n } .eof)
      toServer := l.toServer.drop n
      failed := true } now where
  toServer := by
    show l.toServer.drop n = []
    rw [h.toServer, List.drop_nil]
  unserved hnone := by cases hnone
  timedOut := h.timedOut
  side u hu := by
    obtain rfl := Option.some.inj hu
    obtain ⟨hop', hbuffer, -, hexpiry, hfresh⟩ := (h.side t ht).resolve_left hop
    refine .inr ⟨hop', ?_, (fun hcompletion => by cases hcompletion), hexpiry, hfresh⟩
    show t.connection.buffer ++ l.toServer.take n = []
    rw [hbuffer, h.toServer, List.take_nil, List.append_nil]
  waits _ hfailed := by cases hfailed

/-- **Until the proxy's side is started**, the server's side gets nothing to read.  So of its own
steps only the deadline and an error get it on. -/
theorem Link.Idle.step {l l' : Link} {now : ℕ} (h : l.Idle now) (hproxy : l.proxy = none)
    (hstep : l.Step now l') : l'.Idle now ∧ l'.proxy = none := by
  cases hstep with
  | accept m hest hserver => exact ⟨h.startServer hserver m, hproxy⟩
  | server t t' e ht he hstep => exact ⟨h.server ht he hstep, hproxy⟩
  | serverReads t n ht hop hcompletion hdelim =>
    rcases h.side t ht with hstopped | ⟨-, hbuffer, -⟩
    · rw [hstopped] at hop
      rcases hop with hop | ⟨zodiac, hop⟩ <;> cases hop
    · rw [hbuffer, h.toServer, List.take_nil] at hdelim
      cases hdelim
  | serverWrites t ht hop hcompletion =>
    rcases h.side t ht with hstopped | ⟨hread, -⟩
    · rw [hstopped] at hop
      cases hop
    · rw [hread] at hop
      cases hop
  | serverFails t n ht hop hcompletion => exact ⟨h.serverFails ht n hop, hproxy⟩
  | stores t m ht =>
    refine ⟨⟨h.toServer, (fun hnone => by cases hnone), h.timedOut, fun u hu => ?_,
      fun htimed hfailed u hu => ?_⟩, hproxy⟩
    · obtain rfl := Option.some.inj hu
      exact h.side t ht
    · obtain rfl := Option.some.inj hu
      exact h.waits htimed hfailed t ht
  | proxy t t' e ht => rw [hproxy] at ht; cases ht
  | proxyReadsRequest t bytes ht => rw [hproxy] at ht; cases ht
  | proxyWritesRequest t ht => rw [hproxy] at ht; cases ht
  | proxyReadsResponse t n ht => rw [hproxy] at ht; cases ht
  | proxyWritesResponse t ht => rw [hproxy] at ht; cases ht
  | proxyFails t bytes n ht => rw [hproxy] at ht; cases ht

theorem Link.Step.proxy_ne_none {l l' : Link} {now : ℕ} (hstep : l.Step now l')
    (h : l.proxy ≠ none) : l'.proxy ≠ none := by
  cases hstep with
  | accept m hest hserver => exact h
  | server t t' e ht he hstep => exact h
  | serverReads t n ht hop hcompletion hdelim => exact h
  | serverWrites t ht hop hcompletion => exact h
  | serverFails t n ht hop hcompletion => exact h
  | stores t m ht => exact h
  | proxy t t' e ht he hstep => exact Option.some_ne_none _
  | proxyReadsRequest t bytes ht hop hcompletion hdelim => exact Option.some_ne_none _
  | proxyWritesRequest t ht hop hcompletion => exact Option.some_ne_none _
  | proxyReadsResponse t n ht hop hcompletion hdelim => exact Option.some_ne_none _
  | proxyWritesResponse t ht hop hcompletion => exact Option.some_ne_none _
  | proxyFails t bytes n ht hop hcompletion => exact Option.some_ne_none _

/-- The connections without a client are idle, and so are those that an operation of `Proxy` is
about: `handleAccept` is what starts the proxy's side, and takes the connection out of both. -/
structure Service.IdleLinks (s : Service) : Prop where
  idle : ∀ i, (s.links i).proxy = none → (s.links i).Idle s.now
  unclaimed : ∀ p ∈ s.operations, ∀ i, p.operation.link = some i → (s.links i).proxy = none

theorem Service.Cycle.operations_eq (h : s.Cycle es) {before after : List Pending} {p : Pending}
    (hoperations : s.operations = before ++ p :: after) : before = [] ∧ after = [] := by
  have hsingle : s.operations = [] ∨ ∃ q, s.operations = [q] := by
    cases h with
    | resolving _ _ h => exact h.imp_right fun ⟨c, h⟩ => ⟨_, h⟩
    | armed _ _ h _ =>
      obtain ⟨i, c, h | h, -⟩ := h
      · exact .inr ⟨_, h⟩
      · exact .inr ⟨_, h⟩
    | ended _ _ h => exact h.imp_right fun ⟨i, ec, h, _⟩ => ⟨_, h⟩
  rcases hsingle with h | ⟨q, h⟩
  · exact absurd (h.symm.trans hoperations) nil_ne_append_cons
  · obtain ⟨hbefore, -, hafter⟩ := Asio.append_cons_eq_singleton (hoperations.symm.trans h)
    exact ⟨hbefore, hafter⟩

theorem Service.IdleLinks.startConnect (h : s.IdleLinks) (hnumbered : s.Numbered)
    (hoperations : s.operations = []) : s.startConnect.IdleLinks := by
  refine ⟨h.idle, fun p hp i hi => ?_⟩
  rw [operations_startConnect hoperations] at hp
  rw [List.mem_singleton.mp hp] at hi
  obtain rfl := Option.some.inj hi
  show (s.links s.count).proxy = none
  rw [hnumbered.new s.count le_rfl]
  rfl

/-- The proxy's side of a connection is started. -/
theorem Service.IdleLinks.startProxy (h : s.IdleLinks) (i : ℕ) (hoperations : s.operations = []) :
    (s.setLink i ((s.links i).startProxy s.now)).IdleLinks := by
  refine ⟨fun k hk => ?_, fun p hp => ?_⟩
  · rcases eq_or_ne k i with rfl | hne
    · rw [links_setLink_self] at hk
      cases hk
    · rw [links_setLink_of_ne s hne] at hk ⊢
      exact h.idle k hk
  · have hmem : p ∈ s.operations := hp
    rw [hoperations] at hmem
    cases hmem

theorem Service.IdleLinks.handle (h : s.IdleLinks) (hnumbered : s.Numbered)
    (hoperations : s.operations = [])
    (hop : ∀ i, op.link = some i → i < s.count ∧ (s.links i).proxy = none)
    (ec : Asio.ErrorCode) : (s.handle op ec).IdleLinks := by
  cases op with
  | resolve =>
    rw [Service.handle, handleResolve]
    split
    · exact h
    · exact h.startConnect hnumbered hoperations
  | connect i =>
    rw [Service.handle, handleConnect]
    split
    · exact h
    · refine ⟨h.idle, fun p hp j hj => ?_⟩
      rw [async, hoperations] at hp
      rw [List.mem_singleton.mp hp] at hj
      obtain rfl := Option.some.inj hj
      exact (hop i rfl).2
  | accept i =>
    rw [Service.handle, handleAccept]
    split
    · exact h.startConnect hnumbered hoperations
    · exact (h.startProxy i hoperations).startConnect (hnumbered.setLink (hop i rfl).1 _)
        hoperations

theorem Service.IdleLinks.complete (h : s.IdleLinks) (op : ProxyOperation)
    (ec : Asio.ErrorCode) : (s.complete op ec).IdleLinks := by
  cases op with
  | resolve => exact h
  | accept i => exact h
  | connect i =>
    cases ec with
    | success =>
      have hproxy : ∀ k, ((s.complete (.connect i) .success).links k).proxy =
          (s.links k).proxy := by
        intro k
        rcases eq_or_ne k i with rfl | hne
        · show ((s.setLink k { s.links k with established := true }).links k).proxy = _
          rw [links_setLink_self]
        · exact congrArg Link.proxy (links_setLink_of_ne s hne _)
      refine ⟨fun k hk => ?_, fun p hp k hk => ?_⟩
      · rw [hproxy] at hk
        have hidle := h.idle k hk
        rcases eq_or_ne k i with rfl | hne
        · show Link.Idle ((s.setLink k _).links k) s.now
          rw [links_setLink_self]
          exact ⟨hidle.toServer, hidle.unserved, hidle.timedOut, hidle.side, hidle.waits⟩
        · show Link.Idle ((s.setLink i _).links k) s.now
          rw [links_setLink_of_ne s hne]
          exact hidle
      · rw [hproxy]
        exact h.unclaimed p hp k hk
    | eof => exact h
    | operationAborted => exact h
    | other code => exact h

theorem Service.IdleLinks.step {e : ServiceEvent} (h : s.IdleLinks) (hnumbered : s.Numbered)
    (hcycle : s.Cycle es) (hstep : s.Step e s') : s'.IdleLinks := by
  cases hstep with
  | complete before after op ec hoperations =>
    obtain ⟨rfl, rfl⟩ := hcycle.operations_eq hoperations
    have hnext : IdleLinks { s with operations := [⟨op, some ec⟩] } := by
      refine ⟨h.idle, fun p hp => ?_⟩
      rw [List.mem_singleton.mp hp]
      exact h.unclaimed ⟨op, none⟩ (hoperations ▸ List.mem_cons_self)
    exact hnext.complete op ec
  | handle before after op ec hoperations =>
    obtain ⟨rfl, rfl⟩ := hcycle.operations_eq hoperations
    have hmem : ⟨op, some ec⟩ ∈ s.operations := hoperations ▸ List.mem_cons_self
    have hnext : IdleLinks { s with operations := [] } := ⟨h.idle, fun p hp => by cases hp⟩
    have hnumbered' : Numbered { s with operations := [] } :=
      ⟨hnumbered.new, fun p hp => by cases hp⟩
    exact hnext.handle hnumbered' rfl
      (fun i hi => ⟨hnumbered.lt _ hmem i hi, h.unclaimed _ hmem i hi⟩) ec
  | clock now hle => exact ⟨fun i hi => (h.idle i hi).mono hle, h.unclaimed⟩
  | link i l hl =>
    have hstep : (s.links i).proxy = none → l.Idle s.now ∧ l.proxy = none :=
      fun hproxy => (h.idle i hproxy).step hproxy hl
    refine ⟨fun k hk => ?_, fun p hp k hk => ?_⟩
    · rcases eq_or_ne k i with rfl | hne
      · rw [links_setLink_self] at hk ⊢
        exact (hstep (by_contra fun hproxy => hl.proxy_ne_none hproxy hk)).1
      · rw [links_setLink_of_ne s hne] at hk ⊢
        exact h.idle k hk
    · have hproxy := h.unclaimed p hp k hk
      rcases eq_or_ne k i with rfl | hne
      · rw [links_setLink_self]
        exact (hstep hproxy).2
      · rw [links_setLink_of_ne s hne]
        exact hproxy

theorem Service.Run.idleLinks {now : ℕ} (h : (Service.start now).Run es s) : s.IdleLinks := by
  induction h with
  | nil =>
    refine ⟨fun i _ => .new now, fun p hp i hi => ?_⟩
    rw [List.mem_singleton.mp hp] at hi
    cases hi
  | snoc hrun hstep ih => exact ih.step hrun.numbered hrun.cycle hstep

/-- A client was accepted for the connection, and `handleAccept` will start it. -/
def Service.Accepted (s : Service) (i : ℕ) : Prop :=
  ⟨.accept i, some .success⟩ ∈ s.operations

/-- If the server has accepted the connection, this was `T` ago. -/
def Service.Waited (s : Service) (i T : ℕ) : Prop :=
  (s.links i).server ≠ none → s.now = (s.links i).acceptedAt + T

/-- The server's side was not stopped by its deadline; unless one of its operations has
failed, it waits for the first request. -/
def Link.Alive (l : Link) : Prop :=
  l.timedOut = false ∧ (l.failed = false → ∀ t, l.server = some t → t.Waits)

theorem Link.Idle.alive {l : Link} {now : ℕ} (h : l.Idle now)
    (hlt : l.server ≠ none → now < l.acceptedAt + readRequestTimeout) : l.Alive := by
  have htimed : l.timedOut = false := by
    cases hserver : l.server with
    | none => exact h.unserved hserver
    | some t =>
      refine Bool.eq_false_iff.mpr fun htimed => ?_
      exact absurd (h.timedOut htimed)
        (Nat.not_le.mpr (hlt (hserver ▸ Option.some_ne_none t)))
  exact ⟨htimed, h.waits htimed⟩

/-! ### A client that comes late

A run in which the proxy has to wait for its client until the deadline of the server's side has
passed, for every time that is long enough; it gives the direction from right to left. -/

/-- The connection when the server has accepted it. -/
def sampleIdleLink : Link := Link.startServer { Link.new with established := true } (fun _ => none) 0

/-- The connection when its deadline has stopped the server's side. -/
def sampleLateLink (T : ℕ) : Link :=
  { sampleIdleLink with
    server := some ⟨⟨[], .stopped, fun _ => none, [], false, []⟩, T,
      ⟨readRequestTimeout, .none⟩, none⟩
    timedOut := true }

/-- The server's side when its deadline is reached. -/
def sampleElapsedSide (T : ℕ) : Timed Connection :=
  ⟨.start (fun _ => none) [] false, T, ⟨readRequestTimeout, .elapsed⟩, none⟩

theorem sampleIdleLink_step {T : ℕ} (hT : readRequestTimeout ≤ T) :
    ∃ l, sampleIdleLink.Step T l ∧ l.Step T (sampleLateLink T) := by
  let t : Timed Connection := .start Boost.server (.start (fun _ => none) [] false) 0
  have helapse : Timed.Step Boost.server { t with now := T } .elapse (sampleElapsedSide T) :=
    .elapse rfl hT
  have hdeadline : Timed.Step Boost.server (sampleElapsedSide T) .handleDeadline
      ((sampleElapsedSide T).handleDeadline Boost.server) := .handleDeadline (.inl rfl)
  let l : Link := { sampleIdleLink with server := some (sampleElapsedSide T) }
  have hlate : l.Step T (sampleLateLink T) :=
    Link.Step.server (l := l) (sampleElapsedSide T) _ .handleDeadline rfl trivial hdeadline
  exact ⟨l, Link.Step.server t (sampleElapsedSide T) .elapse rfl trivial helapse, hlate⟩

/-- A client comes when the deadline of the server's side has passed. -/
theorem late_run {T : ℕ} (hT : readRequestTimeout ≤ T) :
    ∃ es s, (Service.start 0).Run es s ∧ s.Accepted 0 ∧ s.now = T ∧
      s.links 0 = sampleLateLink T := by
  have hresolve := Service.Step.complete (s := .start 0) [] [] .resolve .success rfl
  have hresolved := Service.Step.handle (s := ⟨0, [⟨.resolve, some .success⟩], 0, fun _ => .new⟩)
    [] [] .resolve .success rfl
  have hconnect := Service.Step.complete (s := ⟨0, [⟨.connect 0, none⟩], 1, fun _ => .new⟩)
    [] [] (.connect 0) .success rfl
  let s₁ : Service := Service.setLink ⟨0, [⟨.connect 0, some .success⟩], 1, fun _ => .new⟩ 0
    { Link.new with established := true }
  have hlink₁ : s₁.links 0 = { Link.new with established := true } :=
    Service.links_setLink_self _ 0 _
  have hserver : s₁.Step (.link 0) (s₁.setLink 0 sampleIdleLink) := by
    refine .link 0 _ ?_
    rw [hlink₁]
    exact .accept (fun _ => none) rfl rfl
  let s₂ := s₁.setLink 0 sampleIdleLink
  have hconnected := Service.Step.handle (s := s₂) [] [] (.connect 0) .success rfl
  let s₃ : Service := { s₂ with operations := [⟨.accept 0, none⟩] }
  have hclock : s₃.Step .clock { s₃ with now := T } := .clock T (Nat.zero_le _)
  let s₄ : Service := { s₃ with now := T }
  have hlink₄ : s₄.links 0 = sampleIdleLink := Service.links_setLink_self s₁ 0 _
  obtain ⟨l, helapse, hdeadline⟩ := sampleIdleLink_step hT
  have hlink₅ : s₄.Step (.link 0) (s₄.setLink 0 l) := .link 0 l (hlink₄ ▸ helapse)
  let s₅ := s₄.setLink 0 l
  have hlink₆ : s₅.Step (.link 0) (s₅.setLink 0 (sampleLateLink T)) := by
    refine .link 0 _ ?_
    rw [show s₅.links 0 = l from Service.links_setLink_self s₄ 0 l]
    exact hdeadline
  let s₆ := s₅.setLink 0 (sampleLateLink T)
  have haccept := Service.Step.complete (s := s₆) [] [] (.accept 0) .success rfl
  refine ⟨_, _, ((((((((Service.Run.single hresolve).snoc hresolved).snoc hconnect).snoc
    hserver).snoc hconnected).snoc hclock).snoc hlink₅).snoc hlink₆).snoc haccept,
    List.mem_cons_self, rfl, ?_⟩
  exact Service.links_setLink_self s₅ 0 _

/-- **The server's side is alive when the client is accepted, if and only if this is
before its deadline.**  For every time `T`: in every run in which a client is accepted `T`
after the server has accepted the connection, the server's side was not stopped by its
deadline, if and only if `T` is less than the deadline of the first request. -/
theorem Service.idle_iff (T : ℕ) :
    (∀ (now : ℕ) (es : List ServiceEvent) (s : Service) (i : ℕ), (Service.start now).Run es s →
      s.Accepted i → s.Waited i T → (s.links i).Alive) ↔ T < readRequestTimeout := by
  constructor
  · intro h
    by_contra hle
    obtain ⟨es, s, hrun, haccepted, hnow, hlink⟩ := late_run (Nat.le_of_not_lt hle)
    have halive := h 0 es s 0 hrun haccepted fun _ => by rw [hnow, hlink]; exact (zero_add T).symm
    rw [hlink] at halive
    cases halive.1
  · intro hlt now es s i hrun haccepted hwaited
    have hidle := hrun.idleLinks
    refine (hidle.idle i (hidle.unclaimed _ haccepted i rfl)).alive fun hserver => ?_
    rw [hwaited hserver]
    exact Nat.add_lt_add_left hlt _

/-- **After two minutes** the client gets a connection that the server has stopped: the deadline
of the first request runs while the proxy waits for a client. -/
theorem late_not_alive :
    ¬ ∀ (now : ℕ) (es : List ServiceEvent) (s : Service) (i : ℕ), (Service.start now).Run es s →
      s.Accepted i → (s.links i).timedOut = false := by
  intro h
  obtain ⟨es, s, hrun, haccepted, -, hlink⟩ := late_run (T := readRequestTimeout) le_rfl
  have htimed := h 0 es s 0 hrun haccepted
  rw [hlink] at htimed
  cases htimed

end Astrologer.Boost
