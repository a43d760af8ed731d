import Mathlib

/-!
# Machines that come to an end

A deterministic machine is a partial function `step`; it has halted where there is no
step.  `run step n s` makes up to `n` steps, so it can be computed.

When each step makes a measure smaller, the measure of a state is fuel enough, and more
fuel changes nothing.  `result` is the state where the machine halts, and it is what
the rest of a development needs: it has halted (`step_result`), it can be found one step
at a time (`result_eq_of_step`), and a reflexive and transitive relation that holds
along the steps holds between a state and its result (`rel_result`).

Where there is no such measure at hand, the state where a machine halts is Mathlib's
`StateTransition.eval`.  A run that has halted computes it (`run_mem_eval`).
-/

namespace Halting

variable {σ : Type*} (step : σ → Option σ)

/-- Up to `n` steps. -/
def run : ℕ → σ → σ
  | 0, s => s
  | n + 1, s =>
    match step s with
    | none => s
    | some s' => run n s'

/-- The state where the machine halts, given that `measure` is fuel enough. -/
def result (measure : σ → ℕ) (s : σ) : σ := run step (measure s) s

variable {step} {s s' : σ}

theorem run_of_none (h : step s = none) (n : ℕ) : run step n s = s := by
  cases n with
  | zero => rfl
  | succ n => rw [run, h]

theorem run_of_some (h : step s = some s') (n : ℕ) : run step (n + 1) s = run step n s' := by
  rw [run, h]

theorem result_of_none (h : step s = none) (measure : σ → ℕ) : result step measure s = s :=
  run_of_none h (measure s)

/-- The machine reaches what it has come to. -/
theorem reaches_run (n : ℕ) (s : σ) : StateTransition.Reaches step s (run step n s) := by
  induction n generalizing s with
  | zero => exact Relation.ReflTransGen.refl
  | succ n ih =>
    cases h : step s with
    | none =>
      rw [run_of_none h]
      exact Relation.ReflTransGen.refl
    | some s' =>
      rw [run_of_some h]
      exact Relation.ReflTransGen.head h (ih s')

/-- **A run that has halted** is what the machine evaluates to. -/
theorem run_mem_eval {n : ℕ} (h : step (run step n s) = none) :
    run step n s ∈ StateTransition.eval step s :=
  StateTransition.mem_eval.mpr ⟨reaches_run n s, h⟩

section Measure

variable {measure : σ → ℕ} (hdec : ∀ s s', step s = some s' → measure s' < measure s)

include hdec

/-- **The measure is fuel enough.** -/
theorem step_run {n : ℕ} (hn : measure s ≤ n) : step (run step n s) = none := by
  induction n generalizing s with
  | zero =>
    cases h : step s with
    | none => rw [run, h]
    | some s' => exact absurd (hdec s s' h) (by omega)
  | succ n ih =>
    cases h : step s with
    | none => rw [run_of_none h, h]
    | some s' =>
      have hlt := hdec s s' h
      rw [run_of_some h]
      exact ih (by omega)

/-- More fuel changes nothing. -/
theorem run_eq_run {m n : ℕ} (hm : measure s ≤ m) (hn : measure s ≤ n) :
    run step m s = run step n s := by
  induction m generalizing n s with
  | zero =>
    have h : step s = none := step_run hdec hm
    rw [run_of_none h, run_of_none h]
  | succ m ih =>
    cases h : step s with
    | none => rw [run_of_none h, run_of_none h]
    | some s' =>
      have hlt := hdec s s' h
      obtain ⟨n, rfl⟩ : ∃ k, n = k + 1 := ⟨n - 1, by omega⟩
      rw [run_of_some h, run_of_some h]
      exact ih (by omega) (by omega)

theorem run_eq_result {n : ℕ} (hn : measure s ≤ n) :
    run step n s = result step measure s := run_eq_run hdec hn (Nat.le_refl _)

theorem step_result (s : σ) : step (result step measure s) = none := step_run hdec (Nat.le_refl _)

/-- A step on the way to the result. -/
theorem result_eq_of_step (h : step s = some s') :
    result step measure s = result step measure s' := by
  have hlt := hdec s s' h
  rw [← run_eq_result hdec (Nat.le_succ (measure s)), run_of_some h]
  exact run_eq_result hdec (Nat.le_of_lt hlt)

omit hdec in
/-- What holds along the steps holds between a state and its result. -/
theorem rel_result {R : σ → σ → Prop} (hrefl : ∀ s, R s s)
    (htrans : ∀ s t u, R s t → R t u → R s u)
    (hstep : ∀ s s', step s = some s' → R s s') (s : σ) : R s (result step measure s) := by
  rw [result]
  generalize measure s = n
  induction n generalizing s with
  | zero => exact hrefl s
  | succ n ih =>
    cases h : step s with
    | none =>
      rw [run_of_none h]
      exact hrefl s
    | some s' =>
      rw [run_of_some h]
      exact htrans s s' _ (hstep s s' h) (ih s')

end Measure

end Halting
