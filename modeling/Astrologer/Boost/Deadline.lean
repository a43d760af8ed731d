import Astrologer.Boost.Proxy
import Astrologer.Library.SteadyTimer

/-!
# Deadlines

Each operation of a connection has a deadline.  The handler that starts the operation
sets `mDeadline`, and a wait on it is always under way: `handleDeadline` starts the next
one when its wait was cancelled, and it stops the connection when its wait has elapsed.
The connections of the server and of the proxy do this in the same way (`Party`).

`Timed` is a connection with its timer, the clock and the handlers that are queued.
They are called in any order, so the handler of an operation may be called when the wait
for its deadline has elapsed already.  It sets the deadline of the next operation, and
then `handleDeadline` stops the connection, though this deadline is not reached.

`guarded_deadline`: as long as no handler sets the deadline while such a wait is queued,
a connection is stopped by `handleDeadline` only when its deadline is reached; and when
a handler does, the connection can be stopped too early.
-/

namespace Astrologer.Boost

open SteadyTimer

/-! ## The deadlines of the operations

Each operation has a timeout of its own, and the handler that starts it sets the timer. -/

/-- `durationType`, in the nanoseconds of the clock. -/
def milliseconds (n : ℕ) : ℕ := n * 1000000

def readRequestTimeout : ℕ := milliseconds 120000
def writeRequestTimeout : ℕ := milliseconds 120000
def readPrognosisTimeout : ℕ := milliseconds 120000
def readResponseTimeout : ℕ := milliseconds 120000
def writeResponseTimeout : ℕ := milliseconds 120000

/-- A kind of connections. -/
structure Handlers (κ : Type) where
  stopped : κ → Bool
  stop : κ → κ
  /-- How the operation under way can complete. -/
  completes : κ → ErrorCode → κ → Prop
  /-- The handler of the operation, which starts the next one or stops the connection.
  A handler does nothing when the connection is stopped. -/
  handle : κ → ErrorCode → κ
  /-- The deadline of the operation under way. -/
  timeout : κ → ℕ
  stopped_stop : ∀ c, stopped (stop c) = true
  handle_stopped : ∀ c ec, stopped c = true → handle c ec = c
  timeout_pos : ∀ c, stopped c = false → 0 < timeout c

/-- A read brings a line, or a write is made, or there is an error. -/
inductive Connection.Completes (c : Connection) : ErrorCode → Connection → Prop
  | read (bytes : List Byte)
    (hop : c.operation = .readRequest ∨ ∃ zodiac, c.operation = .readPrognosis zodiac)
    (h : delim ∈ c.buffer ++ bytes) :
    Completes c .success { c with buffer := c.buffer ++ bytes }
  | write (hop : c.operation = .writeResponse) : Completes c .success { c with buffer := [] }
  | error (bytes : List Byte) : Completes c .eof { c with buffer := c.buffer ++ bytes }

/-- The handler of the operation under way. -/
def Connection.handle (c : Connection) (ec : ErrorCode) : Connection :=
  match c.operation with
  | .readRequest => c.handleReadRequest ec
  | .readPrognosis zodiac => c.handleReadPrognosis ec zodiac
  | .writeResponse => c.handleWriteResponse ec
  | .stopped => c

def Connection.timeout (c : Connection) : ℕ :=
  match c.operation with
  | .readRequest => readRequestTimeout
  | .readPrognosis _ => readPrognosisTimeout
  | .writeResponse => writeResponseTimeout
  | .stopped => 0

/-- The connections of `server.cpp`. -/
def server : Handlers Connection where
  stopped c := c.operation = .stopped
  stop := Connection.stop
  completes := Connection.Completes
  handle := Connection.handle
  timeout := Connection.timeout
  stopped_stop _ := rfl
  handle_stopped c ec h := by rw [Connection.handle, of_decide_eq_true h]
  timeout_pos c h := by
    rw [Connection.timeout]
    cases hop : c.operation with
    | stopped => exact absurd hop (of_decide_eq_false h)
    | readRequest => decide
    | readPrognosis zodiac => exact (by decide : 0 < readPrognosisTimeout)
    | writeResponse => decide

namespace Proxy

inductive Connection.Completes (c : Connection) : ErrorCode → Connection → Prop
  | readClient (bytes : List Byte) (hop : c.operation = .readRequest)
    (h : delim ∈ c.clientBuffer ++ bytes) :
    Completes c .success { c with clientBuffer := c.clientBuffer ++ bytes }
  | writeServer (hop : c.operation = .writeRequest) :
    Completes c .success { c with connectionBuffer := [] }
  | readServer (bytes : List Byte) (hop : c.operation = .readResponse)
    (h : delim ∈ c.connectionBuffer ++ bytes) :
    Completes c .success { c with connectionBuffer := c.connectionBuffer ++ bytes }
  | writeClient (hop : c.operation = .writeResponse) :
    Completes c .success { c with clientBuffer := [] }
  | error (fromClient fromServer : List Byte) :
    Completes c .eof { c with
      clientBuffer := c.clientBuffer ++ fromClient
      connectionBuffer := c.connectionBuffer ++ fromServer }

def Connection.handle (c : Connection) (ec : ErrorCode) : Connection :=
  match c.operation with
  | .readRequest => c.handleReadRequest ec
  | .writeRequest => c.handleWriteRequest ec
  | .readResponse => c.handleReadResponse ec
  | .writeResponse => c.handleWriteResponse ec
  | .stopped => c

def Connection.timeout (c : Connection) : ℕ :=
  match c.operation with
  | .readRequest => readRequestTimeout
  | .writeRequest => writeRequestTimeout
  | .readResponse => readResponseTimeout
  | .writeResponse => writeResponseTimeout
  | .stopped => 0

end Proxy

/-- The connections of `proxy.cpp`. -/
def proxy : Handlers Proxy.Connection where
  stopped c := c.operation = .stopped
  stop := Proxy.Connection.stop
  completes := Proxy.Connection.Completes
  handle := Proxy.Connection.handle
  timeout := Proxy.Connection.timeout
  stopped_stop _ := rfl
  handle_stopped c ec h := by rw [Proxy.Connection.handle, of_decide_eq_true h]
  timeout_pos c h := by
    rw [Proxy.Connection.timeout]
    cases hop : c.operation with
    | stopped => exact absurd hop (of_decide_eq_false h)
    | readRequest => decide
    | writeRequest => decide
    | readResponse => decide
    | writeResponse => decide

/-! ## A connection with its deadline

The connection, its timer, and one operation that is pending or has completed.  The handlers of
both are queued when they are due, and they are called in any order. -/

structure Timed (κ : Type) where
  connection : κ
  now : ℕ
  deadline : Timer
  /-- The operation has completed, and its handler is queued. -/
  completion : Option ErrorCode

variable {κ : Type} (k : Handlers κ)

/-- `start`: `startReadRequest` and `startWaitDeadline`. -/
def Timed.start (connection : κ) (now : ℕ) : Timed κ where
  connection := connection
  now := now
  deadline := ⟨now + k.timeout connection, .pending⟩
  completion := none

/-- The handler of the operation is called. -/
def Timed.handle (s : Timed κ) (ec : ErrorCode) : Timed κ :=
  let c := k.handle s.connection ec
  if k.stopped s.connection then { s with completion := none }
  else if k.stopped c then
    -- `stop` cancels the wait
    { s with connection := c, deadline := s.deadline.cancel, completion := none }
  else
    { s with
      connection := c
      deadline := s.deadline.expiresAfter s.now (k.timeout c)
      completion := none }

def Timed.handleDeadline (s : Timed κ) : Timed κ :=
  if k.stopped s.connection then { s with deadline := s.deadline.take }
  else if s.deadline.wait = .aborted then { s with deadline := s.deadline.asyncWait }
  else { s with connection := k.stop s.connection, deadline := s.deadline.take.cancel }

/-- What can happen. -/
inductive Event
  | clock
  | elapse
  | complete
  | handle
  | handleDeadline
  deriving DecidableEq

/-- The clock goes on, the deadline is reached, the operation completes, or a queued
handler is called. -/
inductive Timed.Step (s : Timed κ) : Event → Timed κ → Prop
  | clock (now : ℕ) (h : s.now ≤ now) : Step s .clock { s with now := now }
  | elapse (h : s.deadline.wait = .pending) (hexpiry : s.deadline.expiry ≤ s.now) :
    Step s .elapse { s with deadline := s.deadline.elapse }
  | complete (ec : ErrorCode) (c : κ) (h : s.completion = none)
    (hopen : k.stopped s.connection = false) (hc : k.completes s.connection ec c) :
    Step s .complete { s with connection := c, completion := some ec }
  | handle (ec : ErrorCode) (h : s.completion = some ec) : Step s .handle (s.handle k ec)
  | handleDeadline (h : s.deadline.wait = .elapsed ∨ s.deadline.wait = .aborted) :
    Step s .handleDeadline (s.handleDeadline k)

/-- The handler of the operation will set the deadline of the next one. -/
def Timed.Restarts (s : Timed κ) : Prop :=
  ∃ ec, s.completion = some ec ∧ k.stopped s.connection = false ∧
    k.stopped (k.handle s.connection ec) = false

/-- No handler sets the deadline when the wait for it has elapsed. -/
def Timed.Guard (s : Timed κ) (e : Event) : Prop :=
  e = .handle → s.deadline.wait = .elapsed → ¬ s.Restarts k

/-- Every run of a new connection. -/
def Timed.Reachable (s : Timed κ) : Prop :=
  ∃ c now, k.stopped c = false ∧
    Relation.ReflTransGen (fun s s' : Timed κ => ∃ e, s.Step k e s') (.start k c now) s

/-- The runs whose steps all meet the condition. -/
def Timed.Guarded (s : Timed κ) : Prop :=
  ∃ c now, k.stopped c = false ∧
    Relation.ReflTransGen (fun s s' : Timed κ => ∃ e, s.Step k e s' ∧ s.Guard k e)
      (.start k c now) s

/-- `handleDeadline` stops the connection. -/
def Timed.TimesOut (s s' : Timed κ) : Prop :=
  s.Step k .handleDeadline s' ∧ k.stopped s.connection = false ∧ k.stopped s'.connection = true

/-! ## When it is stopped too early

A wait whose handler is queued already is not cancelled by a new expiry time.  Its handler finds
the operation that was started since, and stops the connection.  As long as this does not happen
the timer is fresh, and `handleDeadline` comes at the deadline. -/

variable {k} {s s' : Timed κ}

theorem Timed.handle_of_stopped {ec : ErrorCode} (h : k.stopped s.connection = true) :
    s.handle k ec = { s with completion := none } := by
  rw [handle, if_pos h]

theorem Timed.handle_of_stop {ec : ErrorCode} (h : k.stopped s.connection = false)
    (hc : k.stopped (k.handle s.connection ec) = true) :
    s.handle k ec = { s with
      connection := k.handle s.connection ec
      deadline := s.deadline.cancel
      completion := none } := by
  rw [handle, if_neg (Bool.eq_false_iff.mp h), if_pos hc]

theorem Timed.handle_of_restart {ec : ErrorCode} (h : k.stopped s.connection = false)
    (hc : k.stopped (k.handle s.connection ec) = false) :
    s.handle k ec = { s with
      connection := k.handle s.connection ec
      deadline := s.deadline.expiresAfter s.now (k.timeout (k.handle s.connection ec))
      completion := none } := by
  rw [handle, if_neg (Bool.eq_false_iff.mp h), if_neg (Bool.eq_false_iff.mp hc)]

/-- **The invariant.**  While a connection is open, a wait that has elapsed has elapsed
for its present deadline. -/
def Timed.Inv (k : Handlers κ) (s : Timed κ) : Prop :=
  k.stopped s.connection = false → s.deadline.Fresh s.now

theorem Timed.Inv.start (c : κ) (now : ℕ) : (Timed.start k c now).Inv k :=
  fun _ => Timer.fresh_of_ne (fun h => by cases h) now

/-- **A step that meets the condition keeps the invariant.** -/
theorem Timed.Inv.step {e : Event} (h : s.Inv k) (hstep : s.Step k e s') (hguard : s.Guard k e) :
    s'.Inv k := by
  cases hstep with
  | clock now hle => exact fun hopen => (h hopen).mono hle
  | elapse hwait hexpiry => exact fun _ => Timer.fresh_elapse hexpiry
  | complete ec c hnone hopen hc => exact fun _ => h hopen
  | handle ec hsome =>
    cases hopen : k.stopped s.connection with
    | true =>
      rw [handle_of_stopped hopen]
      exact h
    | false =>
      cases hc : k.stopped (k.handle s.connection ec) with
      | true =>
        rw [handle_of_stop hopen hc]
        intro hc'
        rw [hc] at hc'
        cases hc'
      | false =>
        rw [handle_of_restart hopen hc]
        have hne : s.deadline.wait ≠ .elapsed := fun hwait =>
          hguard rfl hwait ⟨ec, hsome, hopen, hc⟩
        exact fun _ => Timer.fresh_expiresAfter hne _ _
  | handleDeadline hwait =>
    rw [handleDeadline]
    split
    next hstopped =>
      intro hopen
      rw [hstopped] at hopen
      cases hopen
    next =>
      split
      · exact fun _ => Timer.fresh_of_ne (fun h => by cases h) _
      · intro hopen
        rw [k.stopped_stop] at hopen
        cases hopen

theorem Timed.Guarded.inv (h : s.Guarded k) : s.Inv k := by
  obtain ⟨c, now, -, hrun⟩ := h
  induction hrun with
  | refl => exact .start c now
  | tail _ hstep ih =>
    obtain ⟨e, hstep, hguard⟩ := hstep
    exact ih.step hstep hguard

/-- With a fresh timer, a connection times out at its deadline. -/
theorem Timed.TimesOut.expiry_le (h : s.TimesOut k s') (hinv : s.Inv k) :
    s.deadline.expiry ≤ s.now := by
  obtain ⟨hstep, hopen, hstopped⟩ := h
  cases hstep with
  | handleDeadline hwait =>
    rcases hwait with hwait | hwait
    · exact hinv hopen hwait
    · rw [handleDeadline, if_neg (Bool.eq_false_iff.mp hopen), if_pos hwait, hopen] at hstopped
      cases hstopped

/-- **A step that does not meet the condition** leaves a connection that can be stopped
at once, long before its deadline. -/
theorem Timed.timesOut_of_not_guard (hstep : s.Step k .handle s')
    (hguard : ¬ s.Guard k .handle) :
    ∃ s'', s'.TimesOut k s'' ∧ s'.now < s'.deadline.expiry := by
  rw [Guard, Classical.not_imp, Classical.not_imp, not_not] at hguard
  obtain ⟨-, hwait, ec', hsome', hopen, hc⟩ := hguard
  cases hstep with
  | handle ec hsome =>
    rw [hsome] at hsome'
    rw [← Option.some.inj hsome'] at hc
    rw [handle_of_restart hopen hc]
    have hwait' : (s.deadline.expiresAfter s.now
        (k.timeout (k.handle s.connection ec))).wait = .elapsed := cancel_eq_elapsed.mpr hwait
    refine ⟨_, ⟨.handleDeadline (.inl hwait'), hc, ?_⟩,
      Nat.lt_add_of_pos_right (k.timeout_pos _ hc)⟩
    rw [handleDeadline, if_neg (Bool.eq_false_iff.mp hc), if_neg]
    · exact k.stopped_stop _
    · rw [hwait']
      decide

/-! ## The server and the proxy

The handlers of both have the shape that was needed above. -/

/-- Who has the connection. -/
inductive Party
  | server
  | proxy

def Party.Connection : Party → Type
  | .server => Boost.Connection
  | .proxy => Proxy.Connection

def Party.handlers : (p : Party) → Handlers p.Connection
  | .server => Boost.server
  | .proxy => Boost.proxy

/-- **Deadlines.**  In a run in which no handler sets the deadline while an elapsed wait is
queued, `handleDeadline` stops a connection only when its deadline is reached.  A handler
that does so makes a connection that can be stopped before its deadline. -/
theorem Party.guarded_deadline (p : Party) {s : Timed p.Connection} (h : s.Guarded p.handlers) :
    (∀ s', s.TimesOut p.handlers s' → s.deadline.expiry ≤ s.now) ∧
      ∀ s', s.Step p.handlers .handle s' → ¬ s.Guard p.handlers .handle →
        ∃ s'', s'.TimesOut p.handlers s'' ∧ s'.now < s'.deadline.expiry :=
  ⟨fun _ htimes => htimes.expiry_le h.inv, fun _ hstep hguard =>
    Timed.timesOut_of_not_guard hstep hguard⟩

/-! ## A request at its deadline -/

/-- A connection of the server that waits for its first request. -/
def sampleWaiting : Timed Connection :=
  .start server (.start (fun _ => none) [] false) 0

/-- Two minutes later the wait has elapsed. -/
def sampleElapsed : Timed Connection :=
  ⟨.start (fun _ => none) [] false, milliseconds 120000, ⟨milliseconds 120000, .elapsed⟩, none⟩

theorem sampleElapsed_guarded : sampleElapsed.Guarded server := by
  refine ⟨.start (fun _ => none) [] false, 0, rfl, ?_⟩
  have hclock : Relation.ReflTransGen
      (fun s s' : Timed Connection => ∃ e, s.Step server e s' ∧ s.Guard server e) sampleWaiting
      { sampleWaiting with now := milliseconds 120000 } :=
    .tail .refl ⟨.clock, .clock _ (Nat.zero_le _), fun h => by cases h⟩
  exact hclock.tail ⟨.elapse, .elapse rfl (by decide), fun h => by cases h⟩

theorem sampleElapsed_deadline :
    (∀ s', sampleElapsed.TimesOut server s' → sampleElapsed.deadline.expiry ≤ sampleElapsed.now) ∧
      ∀ s', sampleElapsed.Step server .handle s' → ¬ sampleElapsed.Guard server .handle →
        ∃ s'', s'.TimesOut server s'' ∧ s'.now < s'.deadline.expiry :=
  Party.guarded_deadline .server sampleElapsed_guarded

/-- A request comes at that time, and its handler is called before `handleDeadline`. -/
def sampleAnswering : Timed Connection :=
  ⟨⟨str "YOU ARE OUT OF LUCK!\n", .writeResponse, fun _ => none, [], false, []⟩,
    milliseconds 120000, ⟨milliseconds 240000, .elapsed⟩, none⟩

theorem sampleAnswering_reachable : sampleAnswering.Reachable server := by
  refine ⟨.start (fun _ => none) [] false, 0, rfl, ?_⟩
  have hclock : Relation.ReflTransGen (fun s s' : Timed Connection => ∃ e, s.Step server e s')
      sampleWaiting { sampleWaiting with now := milliseconds 120000 } :=
    .tail .refl ⟨.clock, .clock _ (Nat.zero_le _)⟩
  have hread : Relation.ReflTransGen (fun s s' : Timed Connection => ∃ e, s.Step server e s')
      sampleWaiting
      ⟨⟨str "HOROSCOPE Leo\n", .readRequest, fun _ => none, [], false, []⟩,
        milliseconds 120000, ⟨milliseconds 120000, .pending⟩, some .success⟩ :=
    hclock.tail ⟨.complete, .complete .success _ rfl rfl
      (.read (str "HOROSCOPE Leo\n") (.inl rfl) (by decide))⟩
  have helapsed : Relation.ReflTransGen (fun s s' : Timed Connection => ∃ e, s.Step server e s')
      sampleWaiting
      ⟨⟨str "HOROSCOPE Leo\n", .readRequest, fun _ => none, [], false, []⟩,
        milliseconds 120000, ⟨milliseconds 120000, .elapsed⟩, some .success⟩ :=
    hread.tail ⟨.elapse, .elapse rfl (by decide)⟩
  exact helapsed.tail ⟨.handle, .handle .success rfl⟩

/-- **The connection is stopped two minutes before its deadline.** -/
theorem sampleAnswering_stopped :
    ¬ ∀ (p : Party) (s s' : Timed p.Connection), s.Reachable p.handlers →
      s.TimesOut p.handlers s' → s.deadline.expiry ≤ s.now := by
  intro h
  have htimes : sampleAnswering.TimesOut server (sampleAnswering.handleDeadline server) :=
    ⟨.handleDeadline (.inl rfl), rfl, rfl⟩
  have hle := h .server sampleAnswering _ sampleAnswering_reachable htimes
  exact absurd hle (by decide)

end Astrologer.Boost
