import Mathlib.Logic.Relation
import Mathlib.Order.WellFounded

/-!
# Fair runs

Several actors run a system for ever.  At a time one of them takes a step, or nobody does.  An
actor is treated fairly when he takes a step at some time, or cannot at some time, from every
time on: nobody waits for ever for a step that he could take all the time.

A goal that is not reached by every run may still be reached by the fair ones.  As long as it is
not reached there is a helper: he can take a step, and his step makes a measure less.  What the
others do does not make it more, and the helper stays the same as long as it is not made less
(`Ranked`).  Then every run that is fair to the helpers reaches the goal (`Ranked.reaches`).
-/

namespace Fairness

variable {σ α μ : Type*} {step : α → σ → σ → Prop}

/-- The actor can take a step. -/
def Enabled (step : α → σ → σ → Prop) (a : α) (s : σ) : Prop := ∃ t, step a s t

/-- A run that goes on for ever, one step of an actor at a time.  When nobody takes a step the
state stays, so a finite run is one that is idle from some time on. -/
structure Run (step : α → σ → σ → Prop) where
  state : ℕ → σ
  /-- Who takes a step. -/
  actor : ℕ → Option α
  idle : ∀ n, actor n = none → state (n + 1) = state n
  next : ∀ n a, actor n = some a → step a (state n) (state (n + 1))

namespace Run

variable {run : Run step}

/-- Nobody waits for ever for a step that he could take all the time. -/
def Fair (run : Run step) (a : α) : Prop :=
  ∀ n, (∀ m ≥ n, Enabled step a (run.state m)) → ∃ m ≥ n, run.actor m = some a

/-- What every step keeps holds from then on. -/
theorem keeps (inv : σ → Prop) (hstep : ∀ a s t, inv s → step a s t → inv t) {n m : ℕ}
    (hn : inv (run.state n)) (hm : n ≤ m) : inv (run.state m) := by
  induction m, hm using Nat.le_induction with
  | base => exact hn
  | succ m _ ih =>
    cases hactor : run.actor m with
    | none =>
      rw [run.idle m hactor]
      exact ih
    | some a => exact hstep a _ _ ih (run.next m a hactor)

/-- Who cannot take a step at the end of a run has been treated fairly. -/
theorem fair_of_stuck {n : ℕ} {t : σ} {a : α} (hend : ∀ m ≥ n, run.state m = t)
    (hstuck : ¬ Enabled step a t) : run.Fair a := by
  intro m henabled
  have hlast := henabled (max n m) (le_max_right n m)
  rw [hend _ (le_max_left n m)] at hlast
  exact absurd hlast hstuck

end Run

/-- Some steps, and then nobody takes one. -/
theorem exists_run {s t : σ} (h : Relation.ReflTransGen (fun s t => ∃ a, step a s t) s t) :
    ∃ run : Run step, run.state 0 = s ∧ ∃ n, ∀ m ≥ n, run.state m = t := by
  induction h using Relation.ReflTransGen.head_induction_on with
  | refl =>
    exact ⟨⟨fun _ => t, fun _ => none, fun _ _ => rfl, fun _ _ h => by cases h⟩, rfl, 0,
      fun _ _ => rfl⟩
  | @head s u hs _ ih =>
    obtain ⟨a, hs⟩ := hs
    obtain ⟨run, rfl, n, hend⟩ := ih
    let state : ℕ → σ := fun
      | 0 => s
      | m + 1 => run.state m
    let actor : ℕ → Option α := fun
      | 0 => some a
      | m + 1 => run.actor m
    refine ⟨⟨state, actor, fun m h => ?_, fun m b h => ?_⟩, rfl, n + 1, fun m hm => ?_⟩
    · cases m with
      | zero => cases h
      | succ m => exact run.idle m h
    · cases m with
      | zero => exact Option.some.inj h ▸ hs
      | succ m => exact run.next m b h
    · cases m with
      | zero => exact absurd hm (Nat.not_succ_le_zero n)
      | succ m => exact hend m (Nat.le_of_succ_le_succ hm)

variable [Preorder μ]

/-- As long as the goal is not reached, a helper can bring it nearer, and nobody takes that
away. -/
structure Ranked (step : α → σ → σ → Prop) (inv goal : σ → Prop) (measure : σ → μ)
    (helper : σ → α) : Prop where
  keeps : ∀ a s t, inv s → ¬ goal s → step a s t → inv t
  enabled : ∀ s, inv s → ¬ goal s → Enabled step (helper s) s
  helps : ∀ s t, inv s → ¬ goal s → step (helper s) s t → measure t < measure s
  waits : ∀ a s t, inv s → ¬ goal s → step a s t →
    measure t < measure s ∨ measure t = measure s ∧ helper t = helper s

variable {inv goal : σ → Prop} {measure : σ → μ} {helper : σ → α}

/-- **A fair run reaches the goal** from every state with the invariant.  By induction on the
measure: the helper stays the same until the measure goes down, and fairness lets it take its
step. -/
theorem Ranked.reaches [WellFoundedLT μ] (h : Ranked step inv goal measure helper)
    (run : Run step) (hfair : ∀ s, inv s → ¬ goal s → run.Fair (helper s)) {n : ℕ}
    (hinv : inv (run.state n)) : ∃ m ≥ n, goal (run.state m) := by
  generalize hmeasure : measure (run.state n) = w
  induction w using WellFoundedLT.induction generalizing n with
  | ind w ih =>
    by_contra hnever
    have hopen : ∀ m ≥ n, ¬ goal (run.state m) := fun m hm hgoal => hnever ⟨m, hm, hgoal⟩
    -- if the measure were made less at some time, the goal would be reached behind it
    have hless : ∀ m ≥ n, inv (run.state m) → ¬ measure (run.state m) < w := by
      intro m hm hinv hlt
      obtain ⟨l, hl, hgoal⟩ := ih _ hlt hinv rfl
      exact hopen l (hm.trans hl) hgoal
    have hstays : ∀ m ≥ n, inv (run.state m) ∧ measure (run.state m) = w ∧
        helper (run.state m) = helper (run.state n) := by
      intro m hm
      induction m, hm using Nat.le_induction with
      | base => exact ⟨hinv, hmeasure, rfl⟩
      | succ m hm ihm =>
        obtain ⟨hinv, hw, hhelper⟩ := ihm
        cases hactor : run.actor m with
        | none =>
          rw [run.idle m hactor]
          exact ⟨hinv, hw, hhelper⟩
        | some a =>
          have hstep := run.next m a hactor
          have hinv' := h.keeps a _ _ hinv (hopen m hm) hstep
          rcases h.waits a _ _ hinv (hopen m hm) hstep with hlt | ⟨heq, hsame⟩
          · exact absurd (hw ▸ hlt) (hless (m + 1) (hm.trans (Nat.le_succ m)) hinv')
          · exact ⟨hinv', heq.trans hw, hsame.trans hhelper⟩
    obtain ⟨m, hm, hactor⟩ := hfair (run.state n) hinv (hopen n le_rfl) n fun m hm => by
      obtain ⟨hinv, -, hhelper⟩ := hstays m hm
      exact hhelper ▸ h.enabled _ hinv (hopen m hm)
    obtain ⟨hinv, hw, hhelper⟩ := hstays m hm
    have hstep := run.next m _ hactor
    rw [← hhelper] at hstep
    have hlt := h.helps _ _ hinv (hopen m hm) hstep
    exact hless (m + 1) (hm.trans (Nat.le_succ m)) (h.keeps _ _ _ hinv (hopen m hm) hstep)
      (hw ▸ hlt)

end Fairness
