import Astrologer.Library.Fairness
import Mathlib

/-!
# A process and its children

A process forks children in a loop, waits until one of them ends, and kills them all.  When
`fork` fails it does not wait.  Before and behind this it runs a program of its own, and so do
the children (`Program`).

The processes run at the same time, and a `Family` is where all of them are.  A step belongs to
the parent, to a child, or to the kernel, which delivers `SIGTERM` to a child that it has been
sent to.

## How a child ends

A child returns, or a call that it makes sends it a signal that it does not survive
(`Program.mortal`), or `SIGTERM` is delivered to it.  Between the `kill` of the parent and the
delivery it goes on as before (`Life.signalled`), so what it does then may come behind anything
that the parent does.  A child that has ended remains as a zombie until the parent has waited for
it, and from then on the number is free: the parent, who kills everything that `fork` has
returned, sends a signal to that number too, and it need not be the number of a child any more.

## What is proved

* Whatever the programs are, the family is in order in every run (`Reachable.inv`): only what
  `fork` has returned is killed, at most one of these numbers has been given back by then, and when
  the parent is behind the loop every child has ended or has been sent its signal.
* What the programs keep holds of all processes (`Keeps`, `Reachable.kept`).  It is enough to look
  at one program at a time.
* A fair run comes to its end, unless all children were forked and none of them ever ends; then
  the parent waits for ever (`Lawful.over_or_waits`).  Nothing is asked of the children: the
  parent and the kernel bring the end nearer.

A process holds resources.  `Holder` tells what it holds, and what it has released without
holding it.
-/

namespace Processes

open Fairness (Enabled Run Ranked)

/-! ## Resources

What a process holds is a finite set, and a release of something that is not in it is written
down. A program is right when nothing is ever written down and nothing is left at the end. -/

/-- What a process holds of the things that it must release, and what it has released without
holding it: a double release is recorded and not forbidden. -/
structure Holder (ρ : Type*) where
  held : Finset ρ
  /-- What it has released without holding it. -/
  misused : List ρ
  deriving DecidableEq

namespace Holder

variable {ρ : Type*} [DecidableEq ρ]

/-- It holds these, and has never released anything that it did not hold. -/
def only (s : Finset ρ) : Holder ρ := ⟨s, []⟩

def acquire (h : Holder ρ) (r : ρ) : Holder ρ := { h with held := insert r h.held }

def release (h : Holder ρ) (r : ρ) : Holder ρ :=
  if r ∈ h.held then { h with held := h.held.erase r }
  else { h with misused := h.misused ++ [r] }

/-- The last to be acquired is released. -/
@[simp] theorem release_insert {s : Finset ρ} {r : ρ} (h : r ∉ s) :
    (only (insert r s)).release r = only s := by
  rw [release, only, if_pos (Finset.mem_insert_self r s)]
  exact congrArg only (Finset.erase_insert h)

@[simp] theorem release_singleton (r : ρ) : (only {r}).release r = only ∅ :=
  release_insert (Finset.notMem_empty r)

end Holder

/-! ## The programs

The state of a family and its steps.  The parent keeps the list of what `fork` has returned and
never takes anything out of it; the children have lives, which the parent sees through `wait` and
changes through `kill` only. -/

abbrev Pid := ℕ

/-- The program of the parent, and the program of its children.  The loop that forks, waits and
kills is the same for all (`Family.Step`); what the parent does before and behind it, and what its
children do, is this. -/
structure Program (ν κ β : Type*) where
  /-- How many children it wants. -/
  amount : ℕ
  /-- The steps of the parent before and behind the loop. -/
  own : ν → ν → Prop
  /-- The parent is at the loop, and this is what a child begins with. -/
  start : ν → Option κ
  /-- The parent is behind the loop; it has forked all the children, or not. -/
  after : ν → Bool → ν
  /-- The parent has returned from `main`. -/
  returned : ν → Bool
  /-- The steps of a child, with what is seen of them. -/
  step : κ → β → κ → Prop
  /-- A child has returned. -/
  ended : κ → Bool
  /-- A child is at a call that may send it a signal which ends it, as a `send` does when nobody
  can receive any more. -/
  mortal : κ → Bool

/-- What has become of a process that was forked. -/
inductive Life
  | running
  /-- `SIGTERM` has been sent to it, and has not been delivered. -/
  | signalled
  /-- It has ended, and the parent has not waited for it. -/
  | zombie
  | reaped
  deriving DecidableEq

/-- It has not ended. -/
def Life.Alive : Life → Prop
  | .running => True
  | .signalled => True
  | .zombie => False
  | .reaped => False

/-- A process that was forked, with its own state from then on. -/
structure Child (κ : Type*) where
  life : Life
  /-- Where it is, or where it was when it ended. -/
  state : κ

/-- `SIGTERM` is sent to it.  A process that has ended does not notice. -/
def Child.signal {κ : Type*} (c : Child κ) : Child κ :=
  if c.life = .running then { c with life := .signalled } else c

/-- Where the parent is.  `killing` has the process ids that it is still to send a signal to, of
all those that `fork` has returned. -/
inductive Stage
  | before
  /-- In the loop that forks. -/
  | forking
  | waiting
  /-- These are to be killed. -/
  | killing (left : List Pid)
  | behind
  deriving DecidableEq

/-- The parent and its children: where the parent is, what `fork` has returned to it, and every
process that was forked, whatever has become of it. -/
structure Family (ν κ β : Type*) where
  parent : ν
  stage : Stage
  /-- What `fork` has returned. -/
  pids : List Pid
  child : Pid → Option (Child κ)
  /-- What the children have done. -/
  log : List (Pid × β)

/-- Who takes a step. -/
inductive Actor
  | parent
  | child (p : Pid)
  /-- The kernel, for this process. -/
  | kernel (p : Pid)

variable {ν κ β : Type*}

/-- Before the parent does anything. -/
def Family.begin (v : ν) : Family ν κ β := ⟨v, .before, [], fun _ => none, []⟩

def Family.setChild (f : Family ν κ β) (p : Pid) (c : Child κ) : Family ν κ β :=
  { f with child := Function.update f.child p (some c) }

/-- **The steps of a family.**  The parent runs its own program before and behind the loop, and in
the loop it makes the calls of `fork`, the one of `wait`, and those of `kill`; `fork` returns a
number that no child has.  A child runs its program until it ends, also after `SIGTERM` has been
sent to it, and the kernel delivers what has been sent. -/
inductive Family.Step (prog : Program ν κ β) : Actor → Family ν κ β → Family ν κ β → Prop
  | own {f : Family ν κ β} {v : ν} (hf : f.stage = .before ∨ f.stage = .behind)
      (hv : prog.own f.parent v) : Step prog .parent f { f with parent := v }
  | enter {f : Family ν κ β} (hf : f.stage = .before) (hk : (prog.start f.parent).isSome) :
      Step prog .parent f { f with stage := .forking }
  | fork {f : Family ν κ β} {p : Pid} {k : κ} (hf : f.stage = .forking)
      (hless : f.pids.length < prog.amount) (hp : f.child p = none)
      (hk : prog.start f.parent = some k) :
      Step prog .parent f { f.setChild p ⟨.running, k⟩ with pids := f.pids ++ [p] }
  | forkFailed {f : Family ν κ β} (hf : f.stage = .forking)
      (hless : f.pids.length < prog.amount) :
      Step prog .parent f { f with stage := .killing f.pids }
  | forked {f : Family ν κ β} (hf : f.stage = .forking) (hall : f.pids.length = prog.amount) :
      Step prog .parent f { f with stage := .waiting }
  | wait {f : Family ν κ β} {p : Pid} {k : κ} (hf : f.stage = .waiting)
      (hp : f.child p = some ⟨.zombie, k⟩) :
      Step prog .parent f { f.setChild p ⟨.reaped, k⟩ with stage := .killing f.pids }
  | kill {f : Family ν κ β} {p : Pid} {left : List Pid} (hf : f.stage = .killing (p :: left)) :
      Step prog .parent f { f with
        stage := .killing left
        child := Function.update f.child p ((f.child p).map Child.signal) }
  | killed {f : Family ν κ β} (hf : f.stage = .killing []) :
      Step prog .parent f { f with
        stage := .behind
        parent := prog.after f.parent (decide (f.pids.length = prog.amount)) }
  | child {f : Family ν κ β} {p : Pid} {l : Life} {k k' : κ} {b : β} (hl : l.Alive)
      (hp : f.child p = some ⟨l, k⟩) (hk : prog.step k b k') :
      Step prog (.child p) f { f.setChild p ⟨l, k'⟩ with log := f.log ++ [(p, b)] }
  | exit {f : Family ν κ β} {p : Pid} {l : Life} {k : κ} (hl : l.Alive)
      (hp : f.child p = some ⟨l, k⟩) (hk : prog.ended k) :
      Step prog (.child p) f (f.setChild p ⟨.zombie, k⟩)
  /-- A call of the child ends it. -/
  | crash {f : Family ν κ β} {p : Pid} {l : Life} {k : κ} (hl : l.Alive)
      (hp : f.child p = some ⟨l, k⟩) (hk : prog.mortal k) :
      Step prog (.child p) f (f.setChild p ⟨.zombie, k⟩)
  | die {f : Family ν κ β} {p : Pid} {k : κ} (hp : f.child p = some ⟨.signalled, k⟩) :
      Step prog (.kernel p) f (f.setChild p ⟨.zombie, k⟩)

/-- What can come of `f`. -/
def Family.Reachable (prog : Program ν κ β) (v : ν) (f : Family ν κ β) : Prop :=
  Relation.ReflTransGen (fun f f' => ∃ a, Family.Step prog a f f') (.begin v) f

/-! ## The family is in order

The invariant holds for all programs, as it speaks about the list and the lives only.  There are
three kinds of steps to look at: those that put a child into the table, those that change the life
of one, and those of the parent alone. -/

/-- The parent is between the first `fork` and the last `kill`. -/
def Stage.Looping : Stage → Prop
  | .before => False
  | .forking => True
  | .waiting => True
  | .killing _ => True
  | .behind => False

/-- Nobody has been killed, and nobody has been waited for. -/
def Family.Untouched (f : Family ν κ β) : Prop :=
  ∀ p c, f.child p = some c → c.life = .running ∨ c.life = .zombie

/-- What there is to say about the children at a stage. -/
def Family.Orderly (amount : ℕ) (f : Family ν κ β) : Prop :=
  match f.stage with
  | .before => f.pids = []
  | .forking => f.Untouched
  | .waiting => f.pids.length = amount ∧ f.Untouched
  | .killing left => ∃ killed, f.pids = killed ++ left ∧
      ∀ p ∈ killed, ∀ c, f.child p = some c → c.life ≠ .running
  | .behind => ∀ p c, f.child p = some c → c.life ≠ .running

/-- The parent has waited for this child. -/
def Family.Reaped (f : Family ν κ β) (p : Pid) : Prop := (f.child p).map Child.life = some .reaped

/-- **The family is in order.**  What the parent knows about its children is true: the numbers
that it has written down are theirs, they are not too many, and it has waited for one of them at
most. -/
structure Family.Inv (prog : Program ν κ β) (f : Family ν κ β) : Prop where
  nodup : f.pids.Nodup
  /-- What `fork` has returned are the children. -/
  child_iff : ∀ p, (f.child p).isSome ↔ p ∈ f.pids
  length_le : f.pids.length ≤ prog.amount
  reaped : ∀ p q, f.Reaped p → f.Reaped q → p = q
  start : f.stage.Looping → (prog.start f.parent).isSome
  orderly : f.Orderly prog.amount

section Children

variable {f : Family ν κ β} {p q : Pid} {c c' : Child κ}

@[simp] theorem Family.child_setChild_self (f : Family ν κ β) (p : Pid) (c : Child κ) :
    (f.setChild p c).child p = some c := by
  rw [setChild]
  exact Function.update_self p (some c) f.child

theorem Family.child_setChild_of_ne (h : q ≠ p) : (f.setChild p c).child q = f.child q := by
  rw [setChild]
  exact Function.update_of_ne h (some c) f.child

/-- The child at a number, when another one is put in the place of `p`. -/
theorem Family.child_setChild (h : (f.setChild p c').child q = some c) :
    q = p ∧ c = c' ∨ f.child q = some c := by
  by_cases hq : q = p
  · subst hq
    rw [child_setChild_self] at h
    exact .inl ⟨rfl, (Option.some.inj h).symm⟩
  · rw [child_setChild_of_ne hq] at h
    exact .inr h

theorem Family.isSome_setChild (hp : f.child p = some c) (c' : Child κ) (q : Pid) :
    ((f.setChild p c').child q).isSome ↔ (f.child q).isSome := by
  by_cases hq : q = p
  · subst hq
    rw [child_setChild_self, hp]
    exact iff_of_true rfl rfl
  · rw [child_setChild_of_ne hq]

theorem Child.life_signal (c : Child κ) : c.signal.life ≠ .running := by
  rw [Child.signal]
  split
  · exact fun h => Life.noConfusion h
  · assumption

theorem Child.reaped_of_signal (c : Child κ) (h : c.signal.life = .reaped) :
    c.life = .reaped := by
  rw [Child.signal] at h
  split at h
  · cases h
  · exact h

/-- What a life can come to without the parent: a process that is alive may end, by itself or by a
signal; nothing else happens to it. -/
inductive Life.Goes : Life → Life → Prop
  | on (l : Life) : Goes l l
  | exit {l : Life} (hl : l.Alive) : Goes l .zombie

theorem Life.Goes.not_running {l l' : Life} (h : l.Goes l') (hl : l ≠ .running) :
    l' ≠ .running := by
  cases h with
  | on => exact hl
  | exit => exact fun h => Life.noConfusion h

theorem Life.Goes.reaped {l l' : Life} (h : l.Goes l') (hl : l' = .reaped) : l = .reaped := by
  cases h with
  | on => exact hl
  | exit => cases hl

theorem Life.Alive.ne_zombie {l : Life} (h : l.Alive) : l ≠ .zombie := by
  rintro rfl
  exact h

theorem Family.reaped_iff : f.Reaped p ↔ ∃ c, f.child p = some c ∧ c.life = .reaped :=
  Option.map_eq_some_iff

/-- Nobody is reaped who was not reaped before. -/
theorem Family.Reaped.of_setChild (h : (f.setChild p c').Reaped q) (hp : f.child p = some c)
    (hlife : c'.life = .reaped → c.life = .reaped) : f.Reaped q := by
  obtain ⟨d, hd, hreaped⟩ := reaped_iff.mp h
  rcases child_setChild hd with ⟨rfl, rfl⟩ | hd
  · exact reaped_iff.mpr ⟨c, hp, hlife hreaped⟩
  · exact reaped_iff.mpr ⟨d, hd, hreaped⟩

theorem Family.Untouched.not_reaped (h : f.Untouched) (p : Pid) : ¬ f.Reaped p := by
  intro hreaped
  obtain ⟨c, hc, hlife⟩ := reaped_iff.mp hreaped
  rcases h p c hc with hrunning | hzombie
  · rw [hrunning] at hlife
    cases hlife
  · rw [hzombie] at hlife
    cases hlife

variable {prog : Program ν κ β}

/-- **What a child does** keeps the family in order: its number stays in the table, and its life
goes on or ends. -/
theorem Family.Inv.setChild (h : f.Inv prog) (hp : f.child p = some c)
    (hlife : c.life.Goes c'.life) : (f.setChild p c').Inv prog := by
  refine ⟨h.nodup, fun q => ?_, h.length_le, fun q r hq hr => ?_, h.start, ?_⟩
  · rw [isSome_setChild hp]
    exact h.child_iff q
  · exact h.reaped q r (hq.of_setChild hp hlife.reaped) (hr.of_setChild hp hlife.reaped)
  · have huntouched : f.Untouched → (f.setChild p c').Untouched := by
      intro hfresh q d hd
      rcases child_setChild hd with ⟨-, rfl⟩ | hd
      · have hc := hfresh p c hp
        generalize c.life = l, d.life = l' at hlife hc ⊢
        cases hlife with
        | on => exact hc
        | exit => exact .inr rfl
      · exact hfresh q d hd
    have hnot : ∀ q, (∀ d, f.child q = some d → d.life ≠ .running) →
        ∀ d, (f.setChild p c').child q = some d → d.life ≠ .running := by
      intro q hq d hd
      rcases child_setChild hd with ⟨rfl, rfl⟩ | hd
      · exact hlife.not_running (hq c hp)
      · exact hq d hd
    have horderly := h.orderly
    unfold Orderly at horderly ⊢
    show match f.stage with
      | .before => f.pids = []
      | .forking => (f.setChild p c').Untouched
      | .waiting => f.pids.length = prog.amount ∧ (f.setChild p c').Untouched
      | .killing left => ∃ killed, f.pids = killed ++ left ∧
          ∀ q ∈ killed, ∀ d, (f.setChild p c').child q = some d → d.life ≠ .running
      | .behind => ∀ q d, (f.setChild p c').child q = some d → d.life ≠ .running
    cases hstage : f.stage with
    | before =>
      rw [hstage] at horderly
      exact horderly
    | forking =>
      rw [hstage] at horderly
      exact huntouched horderly
    | waiting =>
      rw [hstage] at horderly
      exact ⟨horderly.1, huntouched horderly.2⟩
    | killing left =>
      rw [hstage] at horderly
      obtain ⟨killed, hpids, hkilled⟩ := horderly
      exact ⟨killed, hpids, fun q hq => hnot q (hkilled q hq)⟩
    | behind =>
      rw [hstage] at horderly
      exact fun q => hnot q (horderly q)

end Children

section Steps

variable {prog : Program ν κ β} {f f' : Family ν κ β} {a : Actor} {v : ν}

theorem Family.Inv.begin (v : ν) : (Family.begin v : Family ν κ β).Inv prog where
  nodup := List.nodup_nil
  child_iff _ := iff_of_false Bool.false_ne_true List.not_mem_nil
  length_le := Nat.zero_le _
  reaped _ _ h := by cases h
  start h := h.elim
  orderly := rfl

theorem Family.Inv.mem (h : f.Inv prog) {p : Pid} {c : Child κ} (hp : f.child p = some c) :
    p ∈ f.pids := (h.child_iff p).mp (Option.isSome_iff_exists.mpr ⟨c, hp⟩)

theorem Family.Inv.fork (h : f.Inv prog) (hf : f.stage = .forking)
    (hless : f.pids.length < prog.amount) {p : Pid} {k : κ} (hp : f.child p = none) :
    Family.Inv prog { f.setChild p ⟨.running, k⟩ with pids := f.pids ++ [p] } := by
  have hnew : p ∉ f.pids := fun hmem => by
    have hsome := (h.child_iff p).mpr hmem
    rw [hp] at hsome
    exact Bool.false_ne_true hsome
  have horderly := h.orderly
  rw [Orderly, hf] at horderly
  refine ⟨?_, fun q => ?_, ?_, fun q r hq => ?_, fun _ => h.start (hf ▸ trivial), ?_⟩
  · exact List.nodup_append.mpr ⟨h.nodup, List.nodup_singleton p, fun q hq r hr heq =>
      hnew ((heq.trans (List.mem_singleton.mp hr)) ▸ hq)⟩
  · show ((f.setChild p _).child q).isSome ↔ q ∈ f.pids ++ [p]
    rw [List.mem_append, List.mem_singleton]
    by_cases hq : q = p
    · subst hq
      rw [child_setChild_self]
      exact iff_of_true rfl (.inr rfl)
    · rw [child_setChild_of_ne hq, h.child_iff, or_iff_left hq]
  · show (f.pids ++ [p]).length ≤ _
    rw [List.length_append]
    exact hless
  · obtain ⟨c, hc, hreaped⟩ := reaped_iff.mp hq
    rcases child_setChild hc with ⟨-, rfl⟩ | hc
    · cases hreaped
    · exact absurd (reaped_iff.mpr ⟨c, hc, hreaped⟩) (horderly.not_reaped q)
  · unfold Orderly
    show match f.stage with
      | .before => f.pids ++ [p] = []
      | .forking => (f.setChild p ⟨.running, k⟩).Untouched
      | .waiting => (f.pids ++ [p]).length = _ ∧ _
      | .killing left => _
      | .behind => _
    rw [hf]
    intro q c hc
    rcases child_setChild hc with ⟨-, rfl⟩ | hc
    · exact .inl rfl
    · exact horderly q c hc

theorem Family.Inv.kill (h : f.Inv prog) {p : Pid} {left : List Pid}
    (hf : f.stage = .killing (p :: left)) :
    Family.Inv prog { f with
      stage := .killing left
      child := Function.update f.child p ((f.child p).map Child.signal) } := by
  have horderly := h.orderly
  rw [Orderly, hf] at horderly
  obtain ⟨killed, hpids, hkilled⟩ := horderly
  have hreaped : ∀ q, Family.Reaped { f with
      stage := .killing left
      child := Function.update f.child p ((f.child p).map Child.signal) } q → f.Reaped q := by
    intro q hq
    obtain ⟨c, hc, hlife⟩ := reaped_iff.mp hq
    dsimp only at hc
    by_cases hqp : q = p
    · subst hqp
      rw [Function.update_self] at hc
      obtain ⟨d, hd, rfl⟩ := Option.map_eq_some_iff.mp hc
      exact reaped_iff.mpr ⟨d, hd, d.reaped_of_signal hlife⟩
    · rw [Function.update_of_ne hqp] at hc
      exact reaped_iff.mpr ⟨c, hc, hlife⟩
  refine ⟨h.nodup, fun q => ?_, h.length_le, fun q r hq hr => h.reaped q r (hreaped q hq)
    (hreaped r hr), fun _ => h.start (hf ▸ trivial), killed ++ [p], ?_, fun q hq c hc => ?_⟩
  · rw [← h.child_iff q]
    by_cases hq : q = p
    · subst hq
      dsimp only
      rw [Function.update_self, Option.isSome_map]
    · dsimp only
      rw [Function.update_of_ne hq]
  · rw [List.append_assoc]
    exact hpids
  · dsimp only at hc
    by_cases hqp : q = p
    · subst hqp
      rw [Function.update_self] at hc
      obtain ⟨d, -, rfl⟩ := Option.map_eq_some_iff.mp hc
      exact d.life_signal
    · rw [Function.update_of_ne hqp] at hc
      rcases List.mem_append.mp hq with hq | hq
      · exact hkilled q hq c hc
      · exact absurd (List.mem_singleton.mp hq) hqp

/-- **What a step keeps.**  By the cases of the step: a `fork` adds a number that no child has, a
`wait` reaps one, a `kill` goes through the list, and all others change one child. -/
theorem Family.Inv.step (h : f.Inv prog) (hs : Step prog a f f') : f'.Inv prog := by
  have horderly := h.orderly
  rw [Orderly] at horderly
  cases hs with
  | @own _ w hf hv =>
    refine ⟨h.nodup, h.child_iff, h.length_le, h.reaped, fun hloop => ?_, h.orderly⟩
    dsimp only at hloop
    rcases hf with hf | hf
    · rw [hf] at hloop
      exact hloop.elim
    · rw [hf] at hloop
      exact hloop.elim
  | enter hf hk =>
    rw [hf] at horderly
    refine ⟨h.nodup, h.child_iff, h.length_le, h.reaped, fun _ => hk, fun p c hc => ?_⟩
    exact absurd (horderly ▸ h.mem hc) List.not_mem_nil
  | fork hf hless hp hk => exact h.fork hf hless hp
  | forkFailed hf hless =>
    exact ⟨h.nodup, h.child_iff, h.length_le, h.reaped, fun _ => h.start (hf ▸ trivial), [], rfl,
      fun p hp => absurd hp List.not_mem_nil⟩
  | forked hf hall =>
    rw [hf] at horderly
    exact ⟨h.nodup, h.child_iff, h.length_le, h.reaped, fun _ => h.start (hf ▸ trivial), hall,
      horderly⟩
  | @wait _ p k hf hp =>
    rw [hf] at horderly
    -- nobody else has been waited for
    have hself : ∀ q, (f.setChild p ⟨.reaped, k⟩).Reaped q → q = p := by
      intro q hq
      obtain ⟨c, hc, hlife⟩ := reaped_iff.mp hq
      rcases child_setChild hc with ⟨heq, -⟩ | hc
      · exact heq
      · exact absurd (reaped_iff.mpr ⟨c, hc, hlife⟩) (horderly.2.not_reaped q)
    exact ⟨h.nodup, fun q => (isSome_setChild hp _ q).trans (h.child_iff q), h.length_le,
      fun q r hq hr => (hself q hq).trans (hself r hr).symm, fun _ => h.start (hf ▸ trivial), [],
      rfl, fun p hp => absurd hp List.not_mem_nil⟩
  | kill hf => exact h.kill hf
  | killed hf =>
    rw [hf] at horderly
    obtain ⟨killed, hpids, hkilled⟩ := horderly
    refine ⟨h.nodup, h.child_iff, h.length_le, h.reaped, fun hloop => hloop.elim,
      fun p c hc => ?_⟩
    rw [List.append_nil] at hpids
    exact hkilled p (hpids ▸ h.mem hc) c hc
  | @child _ p l k k' b hl hp hk =>
    have hset : (f.setChild p ⟨l, k'⟩).Inv prog := h.setChild hp (.on l)
    exact ⟨hset.nodup, hset.child_iff, hset.length_le, hset.reaped, hset.start, hset.orderly⟩
  | exit hl hp hk => exact h.setChild hp (.exit hl)
  | crash hl hp hk => exact h.setChild hp (.exit hl)
  | die hp => exact h.setChild hp (.exit trivial)

/-- **Every family is in order.** -/
theorem Family.Reachable.inv (h : f.Reachable prog v) : f.Inv prog := by
  induction h with
  | refl => exact .begin v
  | tail _ hs ih => exact ih.step hs.choose_spec

/-- What is killed is what `fork` has returned, each number once. -/
theorem Family.Inv.killing_suffix (h : f.Inv prog) {left : List Pid}
    (hf : f.stage = .killing left) : left <:+ f.pids := by
  have horderly := h.orderly
  rw [Orderly, hf] at horderly
  obtain ⟨killed, hpids, -⟩ := horderly
  exact ⟨killed, hpids.symm⟩

/-! ## What the programs keep

An invariant of the parent's program and one of the children's programs, each kept by the steps of
its own program, hold in every run of the family.  The invariant of the parent may say whether all
children were forked, since the parent's program can tell when it is behind the loop. -/

/-- Whether all children were forked, when the parent is behind the loop. -/
def Family.outcome (amount : ℕ) (f : Family ν κ β) : Option Bool :=
  if f.stage = .behind then some (decide (f.pids.length = amount)) else none

/-- What is true of the parent, before and behind the loop, and of every child, is kept by their
own steps and by the loop.  `P none` is for the parent that has not been in the loop, and `P (some
b)` for behind it, where `b` says whether it has forked all the children. -/
structure Program.Keeps (prog : Program ν κ β) (P : Option Bool → ν → Prop) (Q : κ → Prop) :
    Prop where
  own : ∀ o v v', P o v → prog.own v v' → P o v'
  start : ∀ v k, P none v → prog.start v = some k → Q k
  after : ∀ v b, P none v → (prog.start v).isSome → P (some b) (prog.after v b)
  step : ∀ k b k', Q k → prog.step k b k' → Q k'

/-- The programs keep it in a family: the parent has `P` for the outcome of the loop, and every
child `Q`, wherever it is or was when it ended. -/
structure Family.Kept (prog : Program ν κ β) (P : Option Bool → ν → Prop) (Q : κ → Prop)
    (f : Family ν κ β) : Prop where
  inv : f.Inv prog
  parent : P (f.outcome prog.amount) f.parent
  child : ∀ p c, f.child p = some c → Q c.state

variable {P : Option Bool → ν → Prop} {Q : κ → Prop}

theorem Family.Kept.setChild (h : f.Kept prog P Q) {p : Pid} {l : Life} {k : κ} (hk : Q k)
    {q : Pid} {d : Child κ} (hd : (f.setChild p ⟨l, k⟩).child q = some d) : Q d.state := by
  rcases child_setChild hd with ⟨-, rfl⟩ | hd
  · exact hk
  · exact h.child q d hd

theorem Family.Kept.parent_none (h : f.Kept prog P Q) (hf : f.stage ≠ .behind) :
    P none f.parent := by
  have hparent := h.parent
  rwa [outcome, if_neg hf] at hparent

theorem Family.parent_of_none (h : P none f.parent) (hparent : f'.parent = f.parent)
    (hf : f'.stage ≠ .behind) (amount : ℕ) : P (f'.outcome amount) f'.parent := by
  rw [outcome, if_neg hf, hparent]
  exact h

theorem Child.state_signal (c : Child κ) : c.signal.state = c.state := by
  rw [Child.signal]
  split <;> rfl

theorem Family.Kept.keeps_parent (hprog : prog.Keeps P Q) (h : f.Kept prog P Q)
    (hs : Step prog a f f') : P (f'.outcome prog.amount) f'.parent := by
  have hparent := h.parent
  -- nothing happens to the parent between the first `fork` and the last `kill`
  have hnone : f.stage ≠ .behind → f'.parent = f.parent → f'.stage ≠ .behind →
      P (f'.outcome prog.amount) f'.parent :=
    fun hf hsame hf' => parent_of_none (h.parent_none hf) hsame hf' _
  cases hs with
  | own hf hv => exact hprog.own _ _ _ hparent hv
  | enter hf hk => exact hnone (by simp [hf]) rfl (by simp)
  | fork hf hless hp hk => exact hnone (by simp [hf]) rfl (by simp [Family.setChild, hf])
  | forkFailed hf hless => exact hnone (by simp [hf]) rfl (by simp)
  | forked hf hall => exact hnone (by simp [hf]) rfl (by simp)
  | wait hf hp => exact hnone (by simp [hf]) rfl (by simp)
  | kill hf => exact hnone (by simp [hf]) rfl (by simp)
  | killed hf =>
    have hstart : (prog.start f.parent).isSome := h.inv.start (hf ▸ trivial)
    exact hprog.after _ _ (h.parent_none (by simp [hf])) hstart
  | child hl hp hk => exact hparent
  | exit hl hp hk => exact hparent
  | crash hl hp hk => exact hparent
  | die hp => exact hparent

theorem Family.Kept.keeps_child (hprog : prog.Keeps P Q) (h : f.Kept prog P Q)
    (hs : Step prog a f f') {q : Pid} {d : Child κ} (hd : f'.child q = some d) : Q d.state := by
  cases hs with
  | own hf hv => exact h.child q d hd
  | enter hf hk => exact h.child q d hd
  | fork hf hless hp hk =>
    exact h.setChild (hprog.start _ _ (h.parent_none (by simp [hf])) hk) hd
  | forkFailed hf hless => exact h.child q d hd
  | forked hf hall => exact h.child q d hd
  | @wait _ p k hf hp =>
    have hk : Q k := h.child p _ hp
    exact h.setChild hk hd
  | @kill _ p left hf =>
    dsimp only at hd
    by_cases hq : q = p
    · subst hq
      rw [Function.update_self] at hd
      obtain ⟨c, hc, rfl⟩ := Option.map_eq_some_iff.mp hd
      exact c.state_signal ▸ h.child q c hc
    · rw [Function.update_of_ne hq] at hd
      exact h.child q d hd
  | killed hf => exact h.child q d hd
  | @child _ p l k k' b hl hp hk =>
    have hk' : Q k' := hprog.step k b k' (h.child p _ hp) hk
    exact h.setChild hk' hd
  | @exit _ p l k hl hp hk =>
    have hk : Q k := h.child p _ hp
    exact h.setChild hk hd
  | @crash _ p l k hl hp hk =>
    have hk : Q k := h.child p _ hp
    exact h.setChild hk hd
  | @die _ p k hp =>
    have hk : Q k := h.child p _ hp
    exact h.setChild hk hd

theorem Family.Kept.step (hprog : prog.Keeps P Q) (h : f.Kept prog P Q)
    (hs : Step prog a f f') : f'.Kept prog P Q :=
  ⟨h.inv.step hs, h.keeps_parent hprog hs, fun _ _ hd => h.keeps_child hprog hs hd⟩

/-- **What the programs keep holds of all processes**, at every time.  By induction on the run; a
step of the family is a step of one program, or it moves the parent past the loop, or it starts a
child. -/
theorem Family.Reachable.kept (hprog : prog.Keeps P Q) (hv : P none v)
    (h : f.Reachable prog v) : f.Kept prog P Q := by
  induction h with
  | refl => exact ⟨.begin v, hv, fun p c hc => absurd hc (Option.some_ne_none c).symm⟩
  | tail _ hs ih =>
    obtain ⟨a, hs⟩ := hs
    exact Family.Kept.step hprog ih hs

/-! ## Runs that come to their end

Whoever is to go on (`Program.helper`) is the parent, or the kernel with a signal to deliver; its
step lowers a measure which the steps of all others do not raise.  With fairness to these two that
is enough, by the general rule of `Library.Fairness`. -/

/-- The parent has returned, and every child has ended. -/
def Family.Over (prog : Program ν κ β) (f : Family ν κ β) : Prop :=
  prog.returned f.parent ∧ ∀ p c, f.child p = some c → c.life = .zombie ∨ c.life = .reaped

/-- The parent waits, and no child has ended. -/
def Family.Waits (f : Family ν κ β) : Prop :=
  f.stage = .waiting ∧ ∀ p c, f.child p = some c → c.life = .running

/-- How much there is to do outside the loop: `rank` bounds the parent's own steps, and a parent
that has not returned has a step, or is at the loop. -/
structure Program.Lawful (prog : Program ν κ β) (P : Option Bool → ν → Prop) (rank : ν → ℕ) :
    Prop where
  own : ∀ v v', prog.own v v' → rank v' < rank v
  after : ∀ v b, (prog.start v).isSome → rank (prog.after v b) < rank v
  next : ∀ v, prog.returned v = false → (prog.start v).isSome ∨ ∃ v', prog.own v v'
  /-- The loop is entered once. -/
  behind : ∀ b v, P (some b) v → prog.start v = none
  returned : ∀ v, prog.returned v → prog.start v = none ∧ ∀ v', ¬ prog.own v v'

/-- When it is over, nobody can take a step. -/
theorem Family.Inv.not_enabled {rank : ν → ℕ} (h : f.Inv prog) (hlaw : prog.Lawful P rank)
    (hover : f.Over prog) (a : Actor) : ¬ Enabled (Step prog) a f := by
  obtain ⟨hstart, hown⟩ := hlaw.returned _ hover.1
  have hloop : ¬ f.stage.Looping := fun hloop => by
    have hsome := h.start hloop
    rw [hstart] at hsome
    exact Bool.false_ne_true hsome
  have hended : ∀ {p : Pid} {l : Life} {k : κ}, f.child p = some ⟨l, k⟩ → ¬ l.Alive := by
    intro p l k hp hl
    rcases hover.2 p _ hp with hzombie | hreaped
    · obtain rfl : l = .zombie := hzombie
      exact hl
    · obtain rfl : l = .reaped := hreaped
      exact hl
  rintro ⟨f', hs⟩
  cases hs with
  | own hf hv => exact hown _ hv
  | enter hf hk =>
    rw [hstart] at hk
    exact Bool.false_ne_true hk
  | fork hf => exact hloop (hf ▸ trivial)
  | forkFailed hf => exact hloop (hf ▸ trivial)
  | forked hf => exact hloop (hf ▸ trivial)
  | wait hf => exact hloop (hf ▸ trivial)
  | kill hf => exact hloop (hf ▸ trivial)
  | killed hf => exact hloop (hf ▸ trivial)
  | child hl hp hk => exact hended hp hl
  | exit hl hp hk => exact hended hp hl
  | crash hl hp hk => exact hended hp hl
  | die hp => exact hended hp trivial

/-- How far a child is from its end. -/
def Life.rank : Life → ℕ
  | .running => 2
  | .signalled => 1
  | .zombie => 0
  | .reaped => 0

/-- How far all children are from their end. -/
def Family.load (f : Family ν κ β) : ℕ :=
  ∑ p ∈ f.pids.toFinset, (f.child p).elim 0 fun c => c.life.rank

/-- What the parent has left to do in the loop. -/
def Family.loopRank (amount : ℕ) (f : Family ν κ β) : ℕ :=
  match f.stage with
  | .before => 2 * amount + 4
  | .forking => 2 * amount - f.pids.length + 3
  | .waiting => amount + 2
  | .killing left => left.length + 1
  | .behind => 0

/-- The parent comes first. -/
def Family.measure (amount : ℕ) (rank : ν → ℕ) (f : Family ν κ β) : ℕ ×ₗ (ℕ ×ₗ ℕ) :=
  toLex (rank f.parent, toLex (f.loopRank amount, f.load))

/-- A process that is to die. -/
def Family.dying (f : Family ν κ β) : Pid :=
  (f.pids.filter fun p => decide ((f.child p).map Child.life = some .signalled)).headD 0

/-- Who is to go on. -/
def Program.helper (prog : Program ν κ β) (f : Family ν κ β) : Actor :=
  if prog.returned f.parent then .kernel f.dying else .parent

section Load

variable {p : Pid} {c c' : Child κ}

theorem Life.Alive.rank_pos {l : Life} (h : l.Alive) : 0 < l.rank := by
  cases l with
  | running => exact Nat.two_pos
  | signalled => exact Nat.one_pos
  | zombie => exact h.elim
  | reaped => exact h.elim

/-- Who is to die depends on the lives of the children only. -/
theorem Family.dying_setChild (hp : f.child p = some c) (hlife : c'.life = c.life) :
    (f.setChild p c').dying = f.dying := by
  refine congrArg (List.headD · 0) (List.filter_congr fun q _ => ?_)
  by_cases hq : q = p
  · subst hq
    rw [child_setChild_self, hp, Option.map_some, Option.map_some, hlife]
  · rw [child_setChild_of_ne hq]

theorem Family.load_setChild (hp : f.child p = some c) (heq : c'.life.rank = c.life.rank) :
    (f.setChild p c').load = f.load := by
  refine Finset.sum_congr rfl fun q _ => ?_
  by_cases hq : q = p
  · subst hq
    rw [child_setChild_self, hp]
    exact heq
  · rw [child_setChild_of_ne hq]

theorem Family.Inv.load_setChild_lt (h : f.Inv prog) (hp : f.child p = some c)
    (hlt : c'.life.rank < c.life.rank) : (f.setChild p c').load < f.load := by
  refine Finset.sum_lt_sum (fun q _ => ?_) ⟨p, List.mem_toFinset.mpr (h.mem hp), ?_⟩
  · by_cases hq : q = p
    · subst hq
      rw [child_setChild_self, hp]
      exact hlt.le
    · rw [child_setChild_of_ne hq]
  · rw [child_setChild_self, hp]
    exact hlt

end Load

variable {rank : ν → ℕ}

/-- **The parent gets on**: each of its steps lowers the measure, before the loop, in it, and
behind it. -/
theorem Family.Inv.measure_lt (h : f.Inv prog) (hlaw : prog.Lawful P rank)
    (hs : Step prog .parent f f') : f'.measure prog.amount rank < f.measure prog.amount rank := by
  have hlength := h.length_le
  have hloop : rank f'.parent = rank f.parent →
      f'.loopRank prog.amount < f.loopRank prog.amount →
      f'.measure prog.amount rank < f.measure prog.amount rank := fun hrank hless =>
    Prod.Lex.toLex_lt_toLex.mpr (.inr ⟨hrank, Prod.Lex.toLex_lt_toLex.mpr (.inl hless)⟩)
  cases hs with
  | own hf hv => exact Prod.Lex.toLex_lt_toLex.mpr (.inl (hlaw.own _ _ hv))
  | enter hf hk =>
    refine hloop rfl ?_
    simp only [loopRank, hf]
    omega
  | fork hf hless hp hk =>
    refine hloop rfl ?_
    simp only [loopRank, Family.setChild, hf, List.length_append, List.length_singleton]
    omega
  | forkFailed hf hless =>
    refine hloop rfl ?_
    simp only [loopRank, hf]
    omega
  | forked hf hall =>
    refine hloop rfl ?_
    simp only [loopRank, hf]
    omega
  | wait hf hp =>
    refine hloop rfl ?_
    simp only [loopRank, hf]
    omega
  | kill hf =>
    refine hloop rfl ?_
    simp only [loopRank, hf, List.length_cons]
    omega
  | killed hf =>
    exact Prod.Lex.toLex_lt_toLex.mpr (.inl (hlaw.after _ _ (h.start (hf ▸ trivial))))

/-- **What the others do** does not take it back, and a death is one death less. -/
theorem Family.Inv.measure_others (h : f.Inv prog) (hs : Step prog a f f') (ha : a ≠ .parent) :
    f'.parent = f.parent ∧ (f'.measure prog.amount rank < f.measure prog.amount rank ∨
      (f'.measure prog.amount rank = f.measure prog.amount rank ∧ f'.dying = f.dying) ∧
        ∃ p, a = .child p) := by
  have hless : ∀ {p : Pid} {c c' : Child κ}, f.child p = some c →
      c'.life.rank < c.life.rank →
      (f.setChild p c').measure prog.amount rank < f.measure prog.amount rank := fun hp hlt =>
    Prod.Lex.toLex_lt_toLex.mpr (.inr ⟨rfl, Prod.Lex.toLex_lt_toLex.mpr
      (.inr ⟨rfl, h.load_setChild_lt hp hlt⟩)⟩)
  cases hs with
  | @child _ p l k k' b hl hp hk =>
    have hload : (f.setChild p ⟨l, k'⟩).load = f.load := load_setChild hp rfl
    have hdying : (f.setChild p ⟨l, k'⟩).dying = f.dying := dying_setChild hp rfl
    refine ⟨rfl, .inr ⟨⟨?_, hdying⟩, p, rfl⟩⟩
    show toLex (rank f.parent, toLex (_, (f.setChild p ⟨l, k'⟩).load)) = _
    rw [hload]
    rfl
  | exit hl hp hk => exact ⟨rfl, .inl (hless hp hl.rank_pos)⟩
  | crash hl hp hk => exact ⟨rfl, .inl (hless hp hl.rank_pos)⟩
  | die hp => exact ⟨rfl, .inl (hless hp Nat.one_pos)⟩
  | _ => exact absurd rfl ha

theorem Family.Inv.not_looping (h : f.Inv prog) (hstart : prog.start f.parent = none) :
    ¬ f.stage.Looping := fun hloop => by
  have hsome := h.start hloop
  rw [hstart] at hsome
  exact Bool.false_ne_true hsome

/-- Outside the loop no child is running. -/
theorem Family.Inv.not_running (h : f.Inv prog) (hstart : prog.start f.parent = none) {p : Pid}
    {c : Child κ} (hc : f.child p = some c) : c.life ≠ .running := by
  have horderly := h.orderly
  rw [Orderly] at horderly
  have hloop := h.not_looping hstart
  cases hstage : f.stage with
  | before =>
    rw [hstage] at horderly
    exact absurd (horderly ▸ h.mem hc) List.not_mem_nil
  | forking => exact absurd (hstage ▸ trivial) hloop
  | waiting => exact absurd (hstage ▸ trivial) hloop
  | killing left => exact absurd (hstage ▸ trivial) hloop
  | behind =>
    rw [hstage] at horderly
    exact horderly p c hc

/-- The parent has not come to the loop. -/
theorem Family.Inv.pids_eq_nil (h : f.Inv prog) (hstart : prog.start f.parent = none)
    (hstage : f.stage ≠ .behind) : f.pids = [] := by
  have horderly := h.orderly
  rw [Orderly] at horderly
  have hloop := h.not_looping hstart
  cases hf : f.stage with
  | before =>
    rw [hf] at horderly
    exact horderly
  | behind => exact absurd hf hstage
  | forking => exact absurd (hf ▸ trivial) hloop
  | waiting => exact absurd (hf ▸ trivial) hloop
  | killing left => exact absurd (hf ▸ trivial) hloop

/-- If some child is to die, this one is. -/
theorem Family.Inv.child_dying (h : f.Inv prog) {p : Pid} {c : Child κ}
    (hc : f.child p = some c) (hlife : c.life = .signalled) :
    ∃ k, f.child f.dying = some ⟨.signalled, k⟩ := by
  have hmem : p ∈ f.pids.filter fun p =>
      decide ((f.child p).map Child.life = some .signalled) :=
    List.mem_filter.mpr ⟨h.mem hc, by simp [hc, hlife]⟩
  have hdying : f.dying ∈ f.pids.filter fun p =>
      decide ((f.child p).map Child.life = some .signalled) := by
    unfold dying
    generalize (f.pids.filter fun p =>
      decide ((f.child p).map Child.life = some .signalled)) = ps at hmem
    cases ps with
    | nil => cases hmem
    | cons q qs => exact List.mem_cons_self
  obtain ⟨⟨l, k⟩, hd, hl⟩ := Option.map_eq_some_iff.mp
    (of_decide_eq_true (List.mem_filter.mp hdying).2)
  obtain rfl : l = .signalled := hl
  exact ⟨k, hd⟩

theorem Family.Inv.enabled_kernel (h : f.Inv prog) (hlaw : prog.Lawful P rank)
    (hreturned : prog.returned f.parent) (hopen : ¬ f.Over prog) :
    Enabled (Step prog) (.kernel f.dying) f := by
  have hleft : ∃ p c, f.child p = some c ∧ c.life = .signalled := by
    by_contra hnone
    refine hopen ⟨hreturned, fun p c hc => ?_⟩
    have hrunning := h.not_running (hlaw.returned _ hreturned).1 hc
    have hsignalled : c.life ≠ .signalled := fun hlife => hnone ⟨p, c, hc, hlife⟩
    generalize c.life = l at hrunning hsignalled ⊢
    cases l with
    | running => exact absurd rfl hrunning
    | signalled => exact absurd rfl hsignalled
    | zombie => exact .inl rfl
    | reaped => exact .inr rfl
  obtain ⟨p, c, hc, hlife⟩ := hleft
  obtain ⟨k, hd⟩ := h.child_dying hc hlife
  exact ⟨_, .die hd⟩

theorem Family.Kept.enabled_parent (h : f.Kept prog P Q) (hlaw : prog.Lawful P rank)
    (hreturned : prog.returned f.parent = false) (hopen : ¬ f.Waits) :
    Enabled (Step prog) .parent f := by
  have horderly := h.inv.orderly
  rw [Orderly] at horderly
  cases hstage : f.stage with
  | before =>
    rcases hlaw.next _ hreturned with hstart | ⟨v', hv⟩
    · exact ⟨_, .enter hstage hstart⟩
    · exact ⟨_, .own (.inl hstage) hv⟩
  | forking =>
    rcases h.inv.length_le.lt_or_eq with hless | hall
    · exact ⟨_, .forkFailed hstage hless⟩
    · exact ⟨_, .forked hstage hall⟩
  | waiting =>
    rw [hstage] at horderly
    have hended : ∃ p c, f.child p = some c ∧ c.life ≠ .running := by
      by_contra hnone
      exact hopen ⟨hstage, fun p c hc => not_not.mp fun hlife => hnone ⟨p, c, hc, hlife⟩⟩
    obtain ⟨p, ⟨l, k⟩, hc, hlife⟩ := hended
    obtain rfl : l = .zombie := (horderly.2 p _ hc).resolve_left hlife
    exact ⟨_, .wait hstage hc⟩
  | killing left =>
    cases left with
    | nil => exact ⟨_, .killed hstage⟩
    | cons p left => exact ⟨_, .kill hstage⟩
  | behind =>
    have hparent := h.parent
    rw [outcome, if_pos hstage] at hparent
    rcases hlaw.next _ hreturned with hstart | ⟨v', hv⟩
    · rw [hlaw.behind _ _ hparent] at hstart
      exact absurd hstart Bool.false_ne_true
    · exact ⟨_, .own (.inr hstage) hv⟩

/-- **Who is to go on** brings the end nearer, as long as the family is not over and does not
wait. -/
theorem Program.Lawful.ranked (hlaw : prog.Lawful P rank) (hprog : prog.Keeps P Q) :
    Ranked (Family.Step prog) (fun f => f.Kept prog P Q) (fun f => f.Over prog ∨ f.Waits)
      (fun f => f.measure prog.amount rank) prog.helper where
  keeps _ _ _ h _ hs := Family.Kept.step hprog h hs
  enabled f h hopen := by
    rw [not_or] at hopen
    unfold helper
    split
    next hreturned => exact h.inv.enabled_kernel hlaw hreturned hopen.1
    next hreturned => exact h.enabled_parent hlaw (Bool.not_eq_true _ ▸ hreturned) hopen.2
  helps f f' h _ hs := by
    unfold helper at hs
    split at hs
    next =>
      rcases (h.inv.measure_others hs Actor.noConfusion).2 with hless | ⟨-, p, hp⟩
      · exact hless
      · cases hp
    next => exact h.inv.measure_lt hlaw hs
  waits a f f' h _ hs := by
    cases a with
    | parent => exact .inl (h.inv.measure_lt hlaw hs)
    | kernel p =>
      rcases (h.inv.measure_others hs Actor.noConfusion).2 with hless | ⟨-, q, hq⟩
      · exact .inl hless
      · cases hq
    | child p =>
      obtain ⟨hparent, hless | ⟨⟨heq, hdying⟩, -⟩⟩ := h.inv.measure_others hs Actor.noConfusion
      · exact .inl hless
      · refine .inr ⟨heq, ?_⟩
        unfold helper
        rw [hparent, hdying]

/-! ### The parent does not wait twice

When a child ends while the parent waits, the wait comes to its end and there is no other one.  So
a fair run is over, or the parent waits from some time on and no child ever ends. -/

/-- The parent does not wait any more, or has no reason to. -/
def Family.Leaves (f : Family ν κ β) : Prop :=
  match f.stage with
  | .before => False
  | .forking => False
  | .waiting => ∃ p k, f.child p = some ⟨.zombie, k⟩
  | .killing _ => True
  | .behind => True

theorem Family.Leaves.not_waits (h : f.Leaves) : ¬ f.Waits := by
  rintro ⟨hstage, hrunning⟩
  rw [Leaves, hstage] at h
  obtain ⟨p, k, hp⟩ := h
  exact Life.noConfusion (hrunning p _ hp)

theorem Family.Leaves.setChild (h : f.Leaves) {p : Pid} {c : Child κ} (hp : f.child p = some c)
    (hlife : c.life ≠ .zombie) (c' : Child κ) : (f.setChild p c').Leaves := by
  rw [Leaves] at h
  show match f.stage with
    | .before => False
    | .forking => False
    | .waiting => ∃ q k, (f.setChild p c').child q = some ⟨.zombie, k⟩
    | .killing _ => True
    | .behind => True
  cases hstage : f.stage with
  | before =>
    rw [hstage] at h
    exact h
  | forking =>
    rw [hstage] at h
    exact h
  | waiting =>
    rw [hstage] at h
    obtain ⟨q, k, hq⟩ := h
    have hne : q ≠ p := fun heq => hlife (by
      rw [heq, hp] at hq
      rw [Option.some.inj hq])
    exact ⟨q, k, (child_setChild_of_ne hne).trans hq⟩
  | killing left => trivial
  | behind => trivial

theorem Family.Leaves.step (h : f.Leaves) (hs : Step prog a f f') : f'.Leaves := by
  have hleaves := h
  rw [Leaves] at h
  cases hs with
  | own hf hv => exact hleaves
  | enter hf hk =>
    rw [hf] at h
    exact h.elim
  | fork hf hless hp hk =>
    rw [hf] at h
    exact h.elim
  | forkFailed hf hless => exact trivial
  | forked hf hall =>
    rw [hf] at h
    exact h.elim
  | wait hf hp => exact trivial
  | kill hf => exact trivial
  | killed hf => exact trivial
  | child hl hp hk => exact hleaves.setChild hp hl.ne_zombie _
  | exit hl hp hk => exact hleaves.setChild hp hl.ne_zombie _
  | crash hl hp hk => exact hleaves.setChild hp hl.ne_zombie _
  | die hp => exact hleaves.setChild hp Life.noConfusion _

theorem Family.leaves_of_ended (hf : f.stage = .waiting) (p : Pid) (k : κ) :
    (f.setChild p ⟨.zombie, k⟩).Leaves := by
  rw [Leaves, show (f.setChild p _).stage = _ from hf]
  exact ⟨p, k, child_setChild_self f p _⟩

/-- **What happens while the parent waits**: nothing to it, or a child ends; and then it will not
wait any more. -/
theorem Family.Waits.step (h : f.Waits) (hs : Step prog a f f') : f'.Waits ∨ f'.Leaves := by
  obtain ⟨hstage, hrunning⟩ := h
  cases hs with
  | own hf hv => rw [hstage] at hf; simp at hf
  | enter hf hk => rw [hstage] at hf; cases hf
  | fork hf hless hp hk => rw [hstage] at hf; cases hf
  | forkFailed hf hless => rw [hstage] at hf; cases hf
  | forked hf hall => rw [hstage] at hf; cases hf
  | wait hf hp => exact .inr trivial
  | kill hf => exact .inr trivial
  | killed hf => exact .inr trivial
  | @child _ p l k k' b hl hp hk =>
    refine .inl ⟨hstage, fun q d hd => ?_⟩
    rcases child_setChild hd with ⟨-, rfl⟩ | hd
    · exact hrunning p ⟨l, k⟩ hp
    · exact hrunning q d hd
  | @exit _ p l k hl hp hk => exact .inr (leaves_of_ended hstage p k)
  | @crash _ p l k hl hp hk => exact .inr (leaves_of_ended hstage p k)
  | die hp => exact Life.noConfusion (hrunning _ _ hp)

/-- **It is over, or the parent waits for ever** for children that run for ever. -/
theorem Program.Lawful.over_or_waits (hlaw : prog.Lawful P rank) (hprog : prog.Keeps P Q)
    (run : Run (Family.Step prog)) (h : (run.state 0).Kept prog P Q) (hparent : run.Fair .parent)
    (hkernel : ∀ p, run.Fair (.kernel p)) :
    (∃ n, (run.state n).Over prog) ∨ ∃ n, ∀ m ≥ n, (run.state m).Waits := by
  have hkept : ∀ n, (run.state n).Kept prog P Q := fun n =>
    run.keeps _ (fun _ _ _ h hs => Family.Kept.step hprog h hs) h (Nat.zero_le n)
  have hreaches : ∀ n, ∃ m ≥ n, (run.state m).Over prog ∨ (run.state m).Waits := fun n => by
    refine (hlaw.ranked hprog).reaches run (fun f _ _ => ?_) (hkept n)
    unfold helper
    split
    · exact hkernel _
    · exact hparent
  obtain ⟨n, -, hover | hwaits⟩ := hreaches 0
  · exact .inl ⟨n, hover⟩
  · by_cases hall : ∀ m ≥ n, (run.state m).Waits
    · exact .inr ⟨n, hall⟩
    · obtain ⟨m, hm, hnot⟩ : ∃ m ≥ n, ¬ (run.state m).Waits := by
        by_contra hnone
        exact hall fun m hm => not_not.mp fun hnot => hnone ⟨m, hm, hnot⟩
      have hleaves : (run.state m).Leaves :=
        (run.keeps (fun f => f.Waits ∨ f.Leaves) (fun _ _ _ h hs =>
          h.elim (fun h => h.step hs) fun h => .inr (h.step hs)) (.inl hwaits) hm).resolve_left
          hnot
      obtain ⟨l, hl, hover | hagain⟩ := hreaches m
      · exact .inl ⟨l, hover⟩
      · exact absurd hagain (run.keeps _ (fun _ _ _ h hs => h.step hs) hleaves hl).not_waits

end Steps

end Processes
