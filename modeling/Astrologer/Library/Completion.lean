import Mathlib.Logic.Relation
import Mathlib.Order.WellFounded

/-!
# Runs that come to their end

A system with the steps `step` is run by somebody who may choose any of them.  `Inevitable`
says that he cannot avoid a goal: it has been reached, or there is a step, and it is
inevitable behind every step.  So a run that has not reached the goal is never stuck, and it
does not go on for ever.

It is enough to have a measure that every step makes less, and a step as long as the goal has
not been reached (`inevitable_of_measure`).  Nothing has to be assumed about the choice.
-/

namespace Completion

variable {σ : Type*}

/-- Every run reaches the goal: it is reached, or there is a step and every step leads to where it
is inevitable.  Nothing is assumed of the scheduler, and a run that is stuck has not reached it.
-/
inductive Inevitable (step : σ → σ → Prop) (goal : σ → Prop) : σ → Prop
  | reached {s : σ} (h : goal s) : Inevitable step goal s
  | later {s : σ} (hex : ∃ t, step s t) (h : ∀ t, step s t → Inevitable step goal t) :
      Inevitable step goal s

variable {step : σ → σ → Prop} {goal inv : σ → Prop}

/-- **A measure and a next step.**  If every step keeps the invariant and makes a measure smaller,
and there is a step until the goal is reached, then it is reached in every run. -/
theorem inevitable_of_measure {μ : Type*} [LT μ] [WellFoundedLT μ] (measure : σ → μ)
    (hstep : ∀ s t, inv s → step s t → inv t ∧ measure t < measure s)
    (hnext : ∀ s, inv s → ¬ goal s → ∃ t, step s t) {s : σ} (h : inv s) :
    Inevitable step goal s := by
  generalize hm : measure s = m
  induction m using WellFoundedLT.induction generalizing s with
  | ind m ih =>
    by_cases hgoal : goal s
    · exact .reached hgoal
    · refine .later (hnext s h hgoal) fun t ht => ?_
      obtain ⟨hinv, hless⟩ := hstep s t h ht
      exact ih (measure t) (hm ▸ hless) hinv rfl

theorem Inevitable.mono {goal' : σ → Prop} {s : σ} (h : Inevitable step goal s)
    (himp : ∀ s, goal s → goal' s) : Inevitable step goal' s := by
  induction h with
  | reached hgoal => exact .reached (himp _ hgoal)
  | later hex _ ih => exact .later hex ih

/-- **Some run reaches the goal**, so what is inevitable is also possible.  By induction on the
proof that it is inevitable. -/
theorem Inevitable.exists_run {s : σ} (h : Inevitable step goal s) :
    ∃ t, Relation.ReflTransGen step s t ∧ goal t := by
  induction h with
  | reached hgoal => exact ⟨_, .refl, hgoal⟩
  | later hex _ ih =>
    obtain ⟨t, ht⟩ := hex
    obtain ⟨u, hrun, hgoal⟩ := ih t ht
    exact ⟨u, .head ht hrun, hgoal⟩

end Completion
