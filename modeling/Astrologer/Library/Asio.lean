import Mathlib

/-!
# Objects with asynchronous operations

An object of an event loop has sockets, stream buffers and one timer.  A handler of it
can start an operation on a socket, which uses a buffer until it completes, and a wait
on the timer.  Then a handler is queued, and the loop calls the queued handlers in any
order.  Each of them keeps the object alive; when none is left it is released.

`Object` is such an object, with everything that was started on it and whose handler was
not called yet.  The functions on it are what a handler can do:

* `start` starts an operation, `asyncWait` a wait;
* `close` completes the operations on a socket with `operationAborted`, `cancel` and
  `expiresAfter` do so with the waits;
* `read` and `write` use a buffer.  A buffer that is used by an operation as well is
  noted in `races`.

`System` has the handlers.  It is `Lawful` when a handler of an operation either stops
the object, or sets the timer and starts one operation, and when the handler of a wait
starts a wait or stops the object.  An object of a lawful system is `Disciplined` in
every state it can reach (`System.Lawful.disciplined`).
-/

namespace Asio

/-- `boost::system::error_code`, as far as handlers tell the errors apart. -/
inductive ErrorCode
  | success
  | eof
  | operationAborted
  | other (code : ℕ)
  deriving DecidableEq

variable {S B β ω δ : Type*}

/-- An operation that was started, with its handler.  `startedAt` and `startedIn` record when, by
the clock and by the number of handlers that were called, so that a result can say that the
operation and its wait were started together. -/
structure Started (S B ω : Type*) where
  handler : ω
  socket : S
  /-- The buffer it uses. -/
  buffer : B
  startedAt : ℕ
  /-- The number of handlers that were called before. -/
  startedIn : ℕ
  /-- It has completed, and its handler is queued. -/
  completion : Option ErrorCode

/-- An object with sockets, buffers and a deadline timer, and what is pending on them.  Nothing
forbids it to have several operations at once, on one buffer or on several, or several waits. -/
structure Object (S B β ω δ : Type*) where
  now : ℕ
  /-- The number of handlers that were called. -/
  turn : ℕ
  isOpen : S → Bool
  buffers : B → β
  data : δ
  /-- The operations that are pending or have their handler queued. -/
  operations : List (Started S B ω)
  expiry : ℕ
  /-- The value of `turn` when the timer was set. -/
  setIn : ℕ
  /-- The waits on the timer that are pending or have their handler queued. -/
  waits : List (Option ErrorCode)
  /-- The buffers that were used together with an operation. -/
  races : List B

/-! ## What a handler can do

The calls of a handler on its object.  A call that uses a buffer which an operation is using is
recorded in `races`. -/

/-- What is pending is aborted; a handler that is queued stays. -/
def abort (completion : Option ErrorCode) : Option ErrorCode :=
  completion.or (some .operationAborted)

def Started.abort (p : Started S B ω) : Started S B ω :=
  { p with completion := Asio.abort p.completion }

namespace Object

/-- `socket::close`. -/
def close [DecidableEq S] (o : Object S B β ω δ) (s : S) : Object S B β ω δ :=
  { o with
    isOpen := Function.update o.isOpen s false
    operations := o.operations.map fun p => if p.socket = s then p.abort else p }

/-- `steady_timer::cancel`. -/
def cancel (o : Object S B β ω δ) : Object S B β ω δ :=
  { o with waits := o.waits.map abort }

/-- `steady_timer::expires_after`. -/
def expiresAfter (o : Object S B β ω δ) (duration : ℕ) : Object S B β ω δ :=
  { o with
    expiry := o.now + duration
    setIn := o.turn
    waits := o.waits.map abort }

/-- `steady_timer::async_wait`. -/
def asyncWait (o : Object S B β ω δ) : Object S B β ω δ :=
  { o with waits := o.waits ++ [none] }

variable [DecidableEq B]

/-- The races, when a buffer is used now. -/
def racesWith (o : Object S B β ω δ) (b : B) : List B :=
  if o.operations.any (·.buffer = b) then b :: o.races else o.races

def read (o : Object S B β ω δ) (b : B) : β × Object S B β ω δ :=
  (o.buffers b, { o with races := o.racesWith b })

def write (o : Object S B β ω δ) (b : B) (content : β) : Object S B β ω δ :=
  { o with
    buffers := Function.update o.buffers b content
    races := o.racesWith b }

/-- `async_read_until` or `async_write`. -/
def start (o : Object S B β ω δ) (handler : ω) (s : S) (b : B) : Object S B β ω δ :=
  { o with
    operations := o.operations ++ [⟨handler, s, b, o.now, o.turn, none⟩]
    races := o.racesWith b }

theorem racesWith_of_nil {o : Object S B β ω δ} (h : o.operations = []) (b : B) :
    o.racesWith b = o.races := by
  rw [racesWith, h]
  rfl

theorem read_of_nil {o : Object S B β ω δ} (h : o.operations = []) (b : B) :
    o.read b = (o.buffers b, o) := by
  rw [read, racesWith_of_nil h]

theorem write_of_nil {o : Object S B β ω δ} (h : o.operations = []) (b : B) (content : β) :
    o.write b content = { o with buffers := Function.update o.buffers b content } := by
  rw [write, racesWith_of_nil h]

/-- How many handlers will be called. -/
def outstanding (o : Object S B β ω δ) : ℕ := o.operations.length + o.waits.length

/-- No handler holds the object any more. -/
def Released (o : Object S B β ω δ) : Prop := o.operations = [] ∧ o.waits = []

end Object

/-! ## The event loop

What the loop does with an object between two handlers: an operation completes with any result,
the timer's wait ends, or a handler is called. -/

namespace Object

/-- Nothing is pending. -/
def Finished (o : Object S B β ω δ) : Prop :=
  (∀ p ∈ o.operations, p.completion ≠ none) ∧ ∀ w ∈ o.waits, w ≠ none

theorem Finished.of_sublist {o o' : Object S B β ω δ} (h : o.Finished)
    (hoperations : o'.operations.Sublist o.operations) (hwaits : o'.waits.Sublist o.waits) :
    o'.Finished :=
  ⟨fun p hp => h.1 p (hoperations.subset hp), fun w hw => h.2 w (hwaits.subset hw)⟩

variable [DecidableEq S]

/-- The sockets are closed, and the waits are cancelled. -/
def stop (o : Object S B β ω δ) (sockets : List S) : Object S B β ω δ :=
  (sockets.foldl close o).cancel

/-- A socket is closed. -/
def stopped (o : Object S B β ω δ) (sockets : List S) : Bool := sockets.any fun s => !o.isOpen s

/-- An object that was just made: its sockets are open, and nothing was started. -/
structure New (o : Object S B β ω δ) (sockets : List S) : Prop where
  stopped : o.stopped sockets = false
  operations : o.operations = []
  waits : o.waits = []
  races : o.races = []

/-! ### Stopping

Closing the sockets completes what is pending on them with an error, and every wait is cancelled.
So there is nothing pending behind `stop`, and only queued handlers are left. -/

theorem abort_ne_none (completion : Option ErrorCode) : abort completion ≠ none := by
  cases completion <;> exact Option.some_ne_none _

theorem completion_closeAll {sockets : List S} {o : Object S B β ω δ}
    (h : ∀ p ∈ o.operations, p.socket ∈ sockets ∨ p.completion ≠ none) :
    ∀ p ∈ (sockets.foldl close o).operations, p.completion ≠ none := by
  induction sockets generalizing o with
  | nil => exact fun p hp => (h p hp).resolve_left List.not_mem_nil
  | cons s sockets ih =>
    refine ih fun p hp => ?_
    obtain ⟨q, hq, heq⟩ := List.mem_map.mp hp
    by_cases hs : q.socket = s
    · rw [if_pos hs] at heq
      rw [← heq]
      exact .inr (abort_ne_none _)
    · rw [if_neg hs] at heq
      rw [← heq]
      exact (h q hq).imp_left fun hmem => (List.mem_cons.mp hmem).resolve_left hs

theorem frame_closeAll (sockets : List S) (o : Object S B β ω δ) :
    (sockets.foldl close o).waits = o.waits ∧ (sockets.foldl close o).races = o.races ∧
      (sockets.foldl close o).turn = o.turn ∧ (sockets.foldl close o).buffers = o.buffers := by
  induction sockets generalizing o with
  | nil => exact ⟨rfl, rfl, rfl, rfl⟩
  | cons s sockets ih => exact ih (o.close s)

theorem isOpen_closeAll {sockets : List S} {o : Object S B β ω δ} {s : S}
    (h : s ∈ sockets ∨ o.isOpen s = false) : (sockets.foldl close o).isOpen s = false := by
  induction sockets generalizing o with
  | nil => exact h.resolve_left List.not_mem_nil
  | cons t sockets ih =>
    refine ih ?_
    by_cases hs : s = t
    · exact .inr (by rw [hs]; exact Function.update_self t false o.isOpen)
    · refine h.imp (fun hmem => (List.mem_cons.mp hmem).resolve_left hs) fun hclosed => ?_
      exact (Function.update_of_ne hs false o.isOpen).trans hclosed

theorem stopped_stop {sockets : List S} (hne : sockets ≠ []) (o : Object S B β ω δ) :
    (o.stop sockets).stopped sockets = true := by
  obtain ⟨s, hs⟩ := List.exists_mem_of_ne_nil sockets hne
  refine List.any_eq_true.mpr ⟨s, hs, ?_⟩
  show (!(sockets.foldl close o).isOpen s) = true
  rw [isOpen_closeAll (.inl hs), Bool.not_false]

/-- **After `stop`** every handler is queued: what was pending on a socket that is closed has been
aborted, and so have the waits. -/
theorem finished_stop {sockets : List S} {o : Object S B β ω δ}
    (h : ∀ p ∈ o.operations, p.socket ∈ sockets) : (o.stop sockets).Finished := by
  refine ⟨completion_closeAll fun p hp => .inl (h p hp), fun w hw => ?_⟩
  obtain ⟨v, -, heq⟩ := List.mem_map.mp hw
  rw [← heq]
  exact abort_ne_none v

end Object

/-- A kind of objects: its sockets and timeouts, how it starts, and its handlers, each a function
of the object and the error code that it is called with. -/
structure System (S B β ω δ : Type*) where
  sockets : List S
  /-- How long the operation of a handler may take. -/
  timeout : ω → ℕ
  start : Object S B β ω δ → Object S B β ω δ
  handle : ω → Object S B β ω δ → ErrorCode → Object S B β ω δ
  handleDeadline : Object S B β ω δ → ErrorCode → Object S B β ω δ

/-- What a step is about. -/
inductive Event
  | clock
  | data
  | complete
  | elapse
  | handle
  | handleDeadline
  deriving DecidableEq

variable [DecidableEq S] [DecidableEq B]

/-- The clock goes on, others change the data they share with the object, an operation
or a wait completes, or a queued handler is called. -/
inductive System.Step (sys : System S B β ω δ) (o : Object S B β ω δ) :
    Event → Object S B β ω δ → Prop
  | clock (now : ℕ) (h : o.now ≤ now) : Step sys o .clock { o with now := now }
  | data (data : δ) : Step sys o .data { o with data := data }
  | complete (before after : List (Started S B ω)) (p : Started S B ω) (ec : ErrorCode)
    (content : β) (h : o.operations = before ++ p :: after) (hp : p.completion = none) :
    Step sys o .complete { o with
      operations := before ++ { p with completion := some ec } :: after
      buffers := Function.update o.buffers p.buffer content }
  | elapse (before after : List (Option ErrorCode)) (ec : ErrorCode)
    (h : o.waits = before ++ none :: after) (hexpiry : ec = .success → o.expiry ≤ o.now) :
    Step sys o .elapse { o with waits := before ++ some ec :: after }
  | handle (before after : List (Started S B ω)) (p : Started S B ω) (ec : ErrorCode)
    (h : o.operations = before ++ p :: after) (hp : p.completion = some ec) :
    Step sys o .handle (sys.handle p.handler
      { o with operations := before ++ after, turn := o.turn + 1 } ec)
  | handleDeadline (before after : List (Option ErrorCode)) (ec : ErrorCode)
    (h : o.waits = before ++ some ec :: after) :
    Step sys o .handleDeadline (sys.handleDeadline
      { o with waits := before ++ after, turn := o.turn + 1 } ec)

/-- A run of the event loop. -/
def System.Run (sys : System S B β ω δ) : Object S B β ω δ → Object S B β ω δ → Prop :=
  Relation.ReflTransGen fun o o' => ∃ e, sys.Step o e o'

/-- The runs of an object that was started. -/
def System.Reachable (sys : System S B β ω δ) (o : Object S B β ω δ) : Prop :=
  ∃ new : Object S B β ω δ, new.New sys.sockets ∧ sys.Run (sys.start new) o

/-! ## Lawful systems -/

/-- What a handler of an operation does to an open object: it uses buffers and data, and
then it stops the object, or it sets the timer for one operation and starts it. -/
inductive System.Moves (sys : System S B β ω δ) (o : Object S B β ω δ) :
    Object S B β ω δ → Prop
  | stop (buffers : B → β) (data : δ) :
    Moves sys o ({ o with buffers := buffers, data := data }.stop sys.sockets)
  | start (buffers : B → β) (data : δ) (handler : ω) (s : S) (b : B) (hs : s ∈ sys.sockets) :
    Moves sys o (({ o with buffers := buffers, data := data }.expiresAfter
      (sys.timeout handler)).start handler s b)

/-- The laws of a kind of objects that has one operation at a time: it starts with one operation
and one wait; its handlers do nothing when it is stopped, and otherwise stop it or start one
operation; and `handleDeadline` waits again, or stops it, as its error code says. -/
structure System.Lawful (sys : System S B β ω δ) : Prop where
  sockets : sys.sockets ≠ []
  start : ∀ o : Object S B β ω δ, o.New sys.sockets → ∃ handler, ∃ s ∈ sys.sockets, ∃ b,
    sys.start o = ((o.expiresAfter (sys.timeout handler)).start handler s b).asyncWait
  handle_stopped : ∀ handler (o : Object S B β ω δ) ec, o.stopped sys.sockets = true →
    sys.handle handler o ec = o
  handle_open : ∀ handler (o : Object S B β ω δ) ec, o.stopped sys.sockets = false →
    o.operations = [] → sys.Moves o (sys.handle handler o ec)
  deadline_stopped : ∀ (o : Object S B β ω δ) ec, o.stopped sys.sockets = true →
    sys.handleDeadline o ec = o
  deadline_aborted : ∀ o : Object S B β ω δ, o.stopped sys.sockets = false →
    sys.handleDeadline o .operationAborted = o.asyncWait
  deadline_elapsed : ∀ (o : Object S B β ω δ) ec, o.stopped sys.sockets = false →
    ec ≠ .operationAborted → sys.handleDeadline o ec = o.stop sys.sockets

/-- **One operation and one wait**, and the timer was set when the operation was
started. -/
def System.Working (sys : System S B β ω δ) (o : Object S B β ω δ) : Prop :=
  ∃ p w, o.operations = [p] ∧ o.waits = [w] ∧ p.socket ∈ sys.sockets ∧
    p.startedIn = o.setIn ∧ o.expiry = p.startedAt + sys.timeout p.handler

/-- The invariant of a lawful kind: while a socket is open there is one operation with its wait,
and when all are closed there are only aborted operations and queued handlers left. -/
structure System.Inv (sys : System S B β ω δ) (o : Object S B β ω δ) : Prop where
  races : o.races = []
  working : o.stopped sys.sockets = false → sys.Working o
  finished : o.stopped sys.sockets = true → o.Finished

variable {sys : System S B β ω δ} {o o' : Object S B β ω δ}

/-! ## The invariant

With one operation and one wait, a handler that is called leaves nothing of its kind behind, and
what it starts is the one of the next step. -/

theorem append_cons_eq_singleton {α : Type*} {before after : List α} {a b : α}
    (h : before ++ a :: after = [b]) : before = [] ∧ a = b ∧ after = [] := by
  rcases List.append_eq_singleton_iff.mp h with ⟨hbefore, hcons⟩ | ⟨-, hcons⟩
  · obtain ⟨rfl, rfl⟩ := List.cons.inj hcons
    exact ⟨hbefore, rfl, rfl⟩
  · cases hcons

theorem System.Inv.start (hsys : sys.Lawful) (hnew : o.New sys.sockets) :
    sys.Inv (sys.start o) := by
  obtain ⟨handler, s, hs, b, heq⟩ := hsys.start o hnew
  rw [heq]
  refine ⟨?_, fun _ => ?_, fun hstopped => ?_⟩
  · exact (Object.racesWith_of_nil (o := o.expiresAfter _) hnew.operations b).trans hnew.races
  · refine ⟨⟨handler, s, b, o.now, o.turn, none⟩, none, ?_, ?_, hs, rfl, rfl⟩
    · show o.operations ++ [⟨handler, s, b, o.now, o.turn, none⟩] = _
      rw [hnew.operations, List.nil_append]
    · show o.waits.map abort ++ _ = _
      rw [hnew.waits]
      rfl
  · exact absurd hstopped (Bool.eq_false_iff.mp hnew.stopped)

/-- What a handler of an operation leaves when it was the only one. -/
theorem System.Inv.of_moves (hsys : sys.Lawful) (h : sys.Moves o o')
    (hopen : o.stopped sys.sockets = false) (hoperations : o.operations = [])
    {w : Option ErrorCode} (hwaits : o.waits = [w]) (hraces : o.races = []) :
    sys.Inv o' := by
  cases h with
  | stop buffers data =>
    have hstopped := Object.stopped_stop hsys.sockets
      { o with buffers := buffers, data := data }
    refine ⟨?_, fun hopen' => ?_, fun _ => Object.finished_stop fun p hp => ?_⟩
    · exact (Object.frame_closeAll sys.sockets _).2.1.trans hraces
    · rw [hstopped] at hopen'
      cases hopen'
    · have hnil : p ∈ o.operations := hp
      rw [hoperations] at hnil
      cases hnil
  | start buffers data handler s b hs =>
    refine ⟨?_, fun _ => ?_, fun hstopped => ?_⟩
    · exact (Object.racesWith_of_nil hoperations b).trans hraces
    · refine ⟨⟨handler, s, b, o.now, o.turn, none⟩, abort w, ?_, ?_, hs, rfl, rfl⟩
      · show o.operations ++ [⟨handler, s, b, o.now, o.turn, none⟩] = _
        rw [hoperations, List.nil_append]
      · show o.waits.map abort = _
        rw [hwaits]
        rfl
    · exact absurd hstopped (Bool.eq_false_iff.mp hopen)

/-- **A step keeps the invariant.**  A handler is called with the only operation taken out of the
list, so it finds an object with none, and the laws say what it does then. -/
theorem System.Inv.step (hsys : sys.Lawful) (h : sys.Inv o) {e : Event}
    (hstep : sys.Step o e o') : sys.Inv o' := by
  cases hstep with
  | clock now hle => exact ⟨h.races, h.working, h.finished⟩
  | data data => exact ⟨h.races, h.working, h.finished⟩
  | complete before after p ec content hoperations hp =>
    refine ⟨h.races, fun hopen => ?_, fun hstopped => ?_⟩
    · obtain ⟨q, w, hq, hw, hs, hset, hexpiry⟩ := h.working hopen
      obtain ⟨rfl, rfl, rfl⟩ := append_cons_eq_singleton (hoperations.symm.trans hq)
      exact ⟨{ p with completion := some ec }, w, rfl, hw, hs, hset, hexpiry⟩
    · have hmem : p ∈ o.operations := hoperations ▸ List.mem_append_cons_self
      exact absurd hp ((h.finished hstopped).1 p hmem)
  | elapse before after ec hwaits hexpiry =>
    refine ⟨h.races, fun hopen => ?_, fun hstopped => ?_⟩
    · obtain ⟨p, w, hp, hw, hrest⟩ := h.working hopen
      obtain ⟨rfl, rfl, rfl⟩ := append_cons_eq_singleton (hwaits.symm.trans hw)
      exact ⟨p, some ec, hp, rfl, hrest⟩
    · have hmem : none ∈ o.waits := hwaits ▸ List.mem_append_cons_self
      exact absurd rfl ((h.finished hstopped).2 none hmem)
  | handle before after p ec hoperations hp =>
    cases hstopped : o.stopped sys.sockets with
    | true =>
      rw [hsys.handle_stopped p.handler { o with operations := before ++ after, turn := o.turn + 1 }
        ec hstopped]
      have hsub : (before ++ after).Sublist o.operations :=
        hoperations ▸ (List.sublist_cons_self p after).append_left before
      refine ⟨h.races, fun hopen => ?_, fun _ => ?_⟩
      · exact absurd hstopped (Bool.eq_false_iff.mp hopen)
      · exact (h.finished hstopped).of_sublist hsub (List.Sublist.refl _)
    | false =>
      obtain ⟨q, w, hq, hw, -⟩ := h.working hstopped
      obtain ⟨rfl, rfl, rfl⟩ := append_cons_eq_singleton (hoperations.symm.trans hq)
      exact .of_moves hsys (hsys.handle_open p.handler _ ec hstopped rfl) hstopped rfl hw h.races
  | handleDeadline before after ec hwaits =>
    cases hstopped : o.stopped sys.sockets with
    | true =>
      rw [hsys.deadline_stopped { o with waits := before ++ after, turn := o.turn + 1 } ec hstopped]
      have hsub : (before ++ after).Sublist o.waits :=
        hwaits ▸ (List.sublist_cons_self (some ec) after).append_left before
      refine ⟨h.races, fun hopen => ?_, fun _ => ?_⟩
      · exact absurd hstopped (Bool.eq_false_iff.mp hopen)
      · exact (h.finished hstopped).of_sublist (List.Sublist.refl _) hsub
    | false =>
      obtain ⟨p, w, hp, hw, hs, hset, hexpiry⟩ := h.working hstopped
      obtain ⟨rfl, rfl, rfl⟩ := append_cons_eq_singleton (hwaits.symm.trans hw)
      by_cases hec : ec = .operationAborted
      · subst hec
        rw [hsys.deadline_aborted { o with waits := [] ++ [], turn := o.turn + 1 } hstopped]
        refine ⟨h.races, fun _ => ⟨p, none, hp, rfl, hs, hset, hexpiry⟩, fun hstopped' => ?_⟩
        exact absurd hstopped' (Bool.eq_false_iff.mp hstopped)
      · rw [hsys.deadline_elapsed { o with waits := [] ++ [], turn := o.turn + 1 } ec hstopped
          hec]
        refine ⟨?_, fun hopen => ?_, fun _ => Object.finished_stop fun q hq => ?_⟩
        · exact (Object.frame_closeAll sys.sockets _).2.1.trans h.races
        · rw [Object.stopped_stop hsys.sockets] at hopen
          cases hopen
        · have hmem : q ∈ o.operations := hq
          rw [hp] at hmem
          rw [List.mem_singleton.mp hmem]
          exact hs

theorem System.Reachable.inv (hsys : sys.Lawful) (h : sys.Reachable o) : sys.Inv o := by
  obtain ⟨new, hnew, hrun⟩ := h
  induction hrun with
  | refl => exact .start hsys hnew
  | tail _ hstep ih =>
    obtain ⟨e, hstep⟩ := hstep
    exact ih.step hsys hstep

/-! ## After the end

An object that has been stopped stays so; its queued handlers are called and do nothing, until
none is left. -/

/-- **From a stopped object**: it stays stopped, nothing is started, and each handler that
is called is one less to call. -/
structure System.Ends (sys : System S B β ω δ) (o o' : Object S B β ω δ) : Prop where
  stopped : o'.stopped sys.sockets = true
  finished : o'.Finished
  operations : o'.operations.Sublist o.operations
  waits : o'.waits.Sublist o.waits
  turn : o'.turn + o'.outstanding = o.turn + o.outstanding

omit [DecidableEq S] [DecidableEq B] in
theorem System.Ends.trans {o₁ o₂ o₃ : Object S B β ω δ} (h : sys.Ends o₁ o₂)
    (h' : sys.Ends o₂ o₃) : sys.Ends o₁ o₃ :=
  ⟨h'.stopped, h'.finished, h'.operations.trans h.operations, h'.waits.trans h.waits,
    h'.turn.trans h.turn⟩

theorem System.Step.ends (hsys : sys.Lawful) {e : Event} (hstep : sys.Step o e o')
    (hstopped : o.stopped sys.sockets = true) (h : o.Finished) : sys.Ends o o' := by
  cases hstep with
  | clock now hle => exact ⟨hstopped, h, .refl _, .refl _, rfl⟩
  | data data => exact ⟨hstopped, h, .refl _, .refl _, rfl⟩
  | complete before after p ec content hoperations hp =>
    have hmem : p ∈ o.operations := hoperations ▸ List.mem_append_cons_self
    exact absurd hp (h.1 p hmem)
  | elapse before after ec hwaits hexpiry =>
    have hmem : none ∈ o.waits := hwaits ▸ List.mem_append_cons_self
    exact absurd rfl (h.2 none hmem)
  | handle before after p ec hoperations hp =>
    rw [hsys.handle_stopped p.handler { o with operations := before ++ after, turn := o.turn + 1 }
        ec hstopped]
    have hsub : (before ++ after).Sublist o.operations :=
      hoperations ▸ (List.sublist_cons_self p after).append_left before
    have hlength : o.operations.length = (before ++ after).length + 1 := by
      rw [hoperations, List.length_append, List.length_append, List.length_cons, Nat.add_assoc]
    refine ⟨hstopped, h.of_sublist hsub (.refl _), hsub, .refl _, ?_⟩
    show o.turn + 1 + ((before ++ after).length + o.waits.length) = o.turn + o.outstanding
    rw [Object.outstanding, hlength]
    omega
  | handleDeadline before after ec hwaits =>
    rw [hsys.deadline_stopped { o with waits := before ++ after, turn := o.turn + 1 } ec hstopped]
    have hsub : (before ++ after).Sublist o.waits :=
      hwaits ▸ (List.sublist_cons_self (some ec) after).append_left before
    have hlength : o.waits.length = (before ++ after).length + 1 := by
      rw [hwaits, List.length_append, List.length_append, List.length_cons, Nat.add_assoc]
    refine ⟨hstopped, h.of_sublist (.refl _) hsub, .refl _, hsub, ?_⟩
    show o.turn + 1 + (o.operations.length + (before ++ after).length) = o.turn + o.outstanding
    rw [Object.outstanding, hlength]
    omega

theorem System.Run.ends (hsys : sys.Lawful) (hrun : sys.Run o o')
    (hstopped : o.stopped sys.sockets = true) (h : o.Finished) : sys.Ends o o' := by
  induction hrun with
  | refl => exact ⟨hstopped, h, .refl _, .refl _, rfl⟩
  | tail _ hstep ih =>
    obtain ⟨e, hstep⟩ := hstep
    exact ih.trans (hstep.ends hsys ih.stopped ih.finished)

/-- A handler is called. -/
def System.Calls (sys : System S B β ω δ) (o o' : Object S B β ω δ) : Prop :=
  sys.Step o .handle o' ∨ sys.Step o .handleDeadline o'

omit [DecidableEq S] in
/-- A handler can be called until the object is released. -/
theorem Object.Finished.released_or_calls (h : o.Finished) :
    o.Released ∨ ∃ o', sys.Calls o o' := by
  cases hoperations : o.operations with
  | cons p after =>
    obtain ⟨ec, hp⟩ := Option.ne_none_iff_exists'.mp
      (h.1 p (hoperations ▸ List.mem_cons_self))
    exact .inr ⟨_, .inl (.handle [] after p ec hoperations hp)⟩
  | nil =>
    cases hwaits : o.waits with
    | cons w after =>
      obtain ⟨ec, rfl⟩ := Option.ne_none_iff_exists'.mp (h.2 w (hwaits ▸ List.mem_cons_self))
      exact .inr ⟨_, .inr (.handleDeadline [] after ec hwaits)⟩
    | nil => exact .inl ⟨hoperations, hwaits⟩

/-- `handleDeadline` uses no buffer. -/
theorem System.Step.buffers_of_deadline (hsys : sys.Lawful)
    (hstep : sys.Step o .handleDeadline o') : o'.buffers = o.buffers := by
  cases hstep with
  | handleDeadline before after ec hwaits =>
    have hframe : ∀ o₁ : Object S B β ω δ, (sys.handleDeadline o₁ ec).buffers = o₁.buffers := by
      intro o₁
      cases hstopped : o₁.stopped sys.sockets with
      | true => rw [hsys.deadline_stopped o₁ ec hstopped]
      | false =>
        by_cases hec : ec = .operationAborted
        · rw [hec, hsys.deadline_aborted o₁ hstopped]
          rfl
        · rw [hsys.deadline_elapsed o₁ ec hstopped hec]
          exact (Object.frame_closeAll sys.sockets o₁).2.2.2
    exact hframe _

/-- **One operation and one timer.**  An open object has one operation and one wait, with
the timer set for the operation, and no other handler uses its buffer.  A stopped object
starts nothing, and a handler can be called until it is released. -/
structure System.Disciplined (sys : System S B β ω δ) (o : Object S B β ω δ) : Prop where
  working : o.stopped sys.sockets = false → sys.Working o
  races : o.races = []
  untouched : ∀ o', sys.Step o .handleDeadline o' → o'.buffers = o.buffers
  ends : o.stopped sys.sockets = true → ∀ o', sys.Run o o' →
    sys.Ends o o' ∧ (o'.Released ∨ ∃ o'', sys.Calls o' o'')

theorem System.Lawful.disciplined (hsys : sys.Lawful) (h : sys.Reachable o) :
    sys.Disciplined o where
  working := (h.inv hsys).working
  races := (h.inv hsys).races
  untouched _ hstep := hstep.buffers_of_deadline hsys
  ends hstopped _ hrun :=
    have hends := hrun.ends hsys hstopped ((h.inv hsys).finished hstopped)
    ⟨hends, hends.finished.released_or_calls⟩

end Asio
