import Mathlib

/-!
# A timer with one wait

A timer has an expiry time and at most one wait.  The handler of a wait is queued when
the expiry time is reached (`elapse`), or when the wait is cancelled.  Setting a new
expiry time cancels a wait, but only as long as its handler is not queued
(`expiresAfter`).

So the handler of a wait that has elapsed may find that the timer has been set again.
A timer is `Fresh` when this is not the case.  It stays so unless it is set while such a
handler is queued (`fresh_expiresAfter`).
-/

namespace SteadyTimer

/-- The wait on a timer, of which there is at most one. -/
inductive Wait
  | none
  | pending
  /-- The handler is queued: the expiry time was reached. -/
  | elapsed
  /-- The handler is queued: the wait was cancelled. -/
  | aborted
  deriving DecidableEq

/-- `boost::asio::steady_timer`, with the wait on it. -/
structure Timer where
  expiry : ℕ
  wait : Wait

def Wait.cancel : Wait → Wait
  | .pending => .aborted
  | w => w

def Timer.cancel (t : Timer) : Timer := { t with wait := t.wait.cancel }

/-- A new expiry time. -/
def Timer.expiresAfter (t : Timer) (now duration : ℕ) : Timer :=
  ⟨now + duration, t.wait.cancel⟩

def Timer.asyncWait (t : Timer) : Timer := { t with wait := .pending }

/-- The expiry time is reached. -/
def Timer.elapse (t : Timer) : Timer := { t with wait := .elapsed }

/-- The handler of the wait is called. -/
def Timer.take (t : Timer) : Timer := { t with wait := .none }

theorem cancel_eq_elapsed {w : Wait} : w.cancel = .elapsed ↔ w = .elapsed := by
  cases w <;> decide

/-- **A wait that has elapsed has elapsed for the present expiry time.** -/
def Timer.Fresh (t : Timer) (now : ℕ) : Prop := t.wait = .elapsed → t.expiry ≤ now

variable {t : Timer} {now : ℕ}

theorem Timer.fresh_of_ne (h : t.wait ≠ .elapsed) (now : ℕ) : t.Fresh now := fun h' => absurd h' h

theorem Timer.Fresh.mono (h : t.Fresh now) {now' : ℕ} (hle : now ≤ now') : t.Fresh now' :=
  fun hwait => (h hwait).trans hle

theorem Timer.fresh_elapse (h : t.expiry ≤ now) : t.elapse.Fresh now := fun _ => h

theorem Timer.Fresh.cancel (h : t.Fresh now) : t.cancel.Fresh now :=
  fun hwait => h (cancel_eq_elapsed.mp hwait)

theorem Timer.fresh_expiresAfter (h : t.wait ≠ .elapsed) (now duration : ℕ) :
    (t.expiresAfter now duration).Fresh now :=
  fresh_of_ne (mt cancel_eq_elapsed.mp h) now

end SteadyTimer
