import Astrologer.Library.Completion
import Mathlib

/-!
# Parties that share a store

Several parties run at once, and each has one operation to make on a store that they share.  A
party takes many steps for it, in any order with the steps of the others, but only one of them
touches the store.  A world records these steps in the order in which they come (`World.trace`).

A `Contract` says of the parties what each can be told about by looking at it alone: where it is
in its operation (`matched`), that one step makes the operation and every other step keeps
what is known, that a step brings the party nearer to its end, and that it is never stuck.
Then the operations are atomic (`World.Reachable.atomic`): every answer is the one that the
party would get if the operations were made one after the other, in the order of the trace.
When every party has its answer this order is a list of all parties (`World.Inv.exists_order`),
and a party that had its answer before another one began comes before it.  And all parties
come to their end (`World.Inv.inevitable`).
-/

namespace SharedStore

open Completion (Inevitable inevitable_of_measure)

/-- Parties `ι` with states `σ`, a store `μ` and the operations `ε` on it.  A step may make one
operation. -/
structure Parties (ι σ μ ε : Type*) where
  start : ι → σ
  init : μ
  step : ι → μ → σ → Option ε → μ → σ → Prop

/-- The parties, the store that they share, and the operations that were made, in order. -/
structure World (ι σ μ ε : Type*) where
  party : ι → σ
  store : μ
  trace : List (ι × ε)

section World

variable {ι σ μ ε : Type*} [DecidableEq ι]

/-- A party takes a step, with the store as it is, and the operation that it makes, if any, is
recorded under its index. -/
inductive World.Step (P : Parties ι σ μ ε) (w : World ι σ μ ε) : World ι σ μ ε → Prop
  | party {i : ι} {e : Option ε} {m : μ} {s : σ} (h : P.step i w.store (w.party i) e m s) :
      Step P w {
        party := Function.update w.party i s
        store := m
        trace := w.trace ++ (e.map (Prod.mk i)).toList }

def World.initial (P : Parties ι σ μ ε) : World ι σ μ ε := ⟨P.start, P.init, []⟩

/-- The worlds of every run. -/
def World.Reachable (P : Parties ι σ μ ε) (w : World ι σ μ ε) : Prop :=
  Relation.ReflTransGen (World.Step P) (.initial P) w

end World

/-- **What the parties keep.**  `entry i` is the operation of `i`, and `answer i m` what `i` is
told when it is made on the store `m`. -/
structure Contract {ι σ μ ε : Type*} (P : Parties ι σ μ ε) (α ρ : Type*) [LT ρ] where
  entry : ι → ε
  apply : ε → μ → μ
  answer : ι → μ → α
  /-- What can be said of a store. -/
  lawful : μ → Prop
  /-- Where a party is: its operation has not been made, or this was the answer. -/
  matched : ι → σ → Option α → Prop
  done : ι → σ → Prop
  rank : ι → Bool → σ → ρ
  matched_start : ∀ i, matched i (P.start i) none
  lawful_init : lawful P.init
  lawful_apply : ∀ i m, lawful m → lawful (apply (entry i) m)
  step : ∀ {i m s a e m' s'}, lawful m → matched i s a → P.step i m s e m' s' →
    (e = none ∧ m' = m ∧ matched i s' a ∧ rank i a.isSome s' < rank i a.isSome s) ∨
    (a = none ∧ e = some (entry i) ∧ m' = apply (entry i) m ∧ matched i s' (some (answer i m)) ∧
      rank i true s' < rank i false s)
  next : ∀ {i m s a}, lawful m → matched i s a → ¬ done i s → ∃ e m' s', P.step i m s e m' s'

section Atomic

variable {ι σ μ ε α ρ : Type*} {P : Parties ι σ μ ε}

/-- The store after operations, one after the other. -/
def Contract.replay [LT ρ] (C : Contract P α ρ) (trace : List (ι × ε)) : μ :=
  trace.foldl (fun m x => C.apply x.2 m) P.init

/-- What the trace says about `i`: the operation was made once, and it had this answer. -/
def Contract.Recorded [LT ρ] (C : Contract P α ρ) (i : ι) (trace : List (ι × ε)) :
    Option α → Prop
  | none => ∀ x ∈ trace, x.1 ≠ i
  | some a => ∃ pre post, trace = pre ++ (i, C.entry i) :: post ∧ a = C.answer i (C.replay pre) ∧
      ∀ x ∈ pre ++ post, x.1 ≠ i

section Recorded

variable [LT ρ] {C : Contract P α ρ} {i j : ι} {trace : List (ι × ε)} {a : Option α} {e : ε}

theorem Contract.replay_concat (C : Contract P α ρ) (trace : List (ι × ε)) (x : ι × ε) :
    C.replay (trace ++ [x]) = C.apply x.2 (C.replay trace) := by
  rw [replay, List.foldl_append]
  rfl

theorem Contract.Recorded.append_of_ne (h : C.Recorded j trace a) (hij : i ≠ j) :
    C.Recorded j (trace ++ [(i, e)]) a := by
  have hlast : ∀ {l : List (ι × ε)}, (∀ x ∈ l, x.1 ≠ j) → ∀ x ∈ l ++ [(i, e)], x.1 ≠ j := by
    intro l hl x hx
    rcases List.mem_append.mp hx with hx | hx
    · exact hl x hx
    · rw [List.mem_singleton.mp hx]
      exact hij
  cases a with
  | none => exact hlast h
  | some a =>
    obtain ⟨pre, post, rfl, ha, hothers⟩ := h
    refine ⟨pre, post ++ [(i, e)], ?_, ha, ?_⟩
    · rw [List.append_assoc]
      rfl
    · rw [← List.append_assoc]
      exact hlast hothers

theorem Contract.Recorded.made (h : C.Recorded i trace none) :
    C.Recorded i (trace ++ [(i, C.entry i)]) (some (C.answer i (C.replay trace))) := by
  refine ⟨trace, [], rfl, rfl, fun x hx => ?_⟩
  rw [List.append_nil] at hx
  exact h x hx

/-- The operation of `i` has been made. -/
def made [DecidableEq ι] (i : ι) (trace : List (ι × ε)) : Bool := trace.any fun x => x.1 = i

theorem Contract.Recorded.made_eq [DecidableEq ι] (h : C.Recorded i trace a) :
    SharedStore.made i trace = a.isSome := by
  cases a with
  | none => simpa [SharedStore.made] using fun j e hx => h (j, e) hx
  | some a =>
    obtain ⟨pre, post, rfl, -, -⟩ := h
    simp [SharedStore.made]

end Recorded

variable [DecidableEq ι] {w w' : World ι σ μ ε}

/-- **The invariant.**  Every party is where the trace says, the store is what the operations of
the trace leave, one after the other, and it is lawful. -/
structure World.Inv [LT ρ] (C : Contract P α ρ) (w : World ι σ μ ε) : Prop where
  party : ∀ i, ∃ a, C.matched i (w.party i) a ∧ C.Recorded i w.trace a
  store : w.store = C.replay w.trace
  lawful : C.lawful w.store

omit [DecidableEq ι] in
theorem World.Inv.initial [LT ρ] (C : Contract P α ρ) : (World.initial P).Inv C where
  party i := ⟨none, C.matched_start i, fun _ hx => absurd hx List.not_mem_nil⟩
  store := rfl
  lawful := C.lawful_init

/-- One party moves: the others stay, with the operations that they have made, and its rank goes
down. -/
structure World.Moves [LT ρ] (C : Contract P α ρ) (w w' : World ι σ μ ε) (i : ι) : Prop where
  others : ∀ j, j ≠ i → w'.party j = w.party j ∧ made j w'.trace = made j w.trace
  less : C.rank i (made i w'.trace) (w'.party i) < C.rank i (made i w.trace) (w.party i)

/-- **What a step keeps.**  The party that moves is silent or makes its operation, which goes to
the end of the trace; for the others the trace says what it said. -/
theorem World.Inv.step [LT ρ] {C : Contract P α ρ} (h : w.Inv C) (hs : w.Step P w') :
    w'.Inv C ∧ ∃ i, w.Moves C w' i := by
  cases hs with
  | @party i e m s hstep =>
    obtain ⟨a, hmatched, hrecorded⟩ := h.party i
    have hmade := hrecorded.made_eq
    rcases C.step h.lawful hmatched hstep with
      ⟨rfl, rfl, hmatched', hless⟩ | ⟨rfl, rfl, rfl, hmatched', hless⟩
    · have htrace : w.trace ++ (Option.map (Prod.mk i) (none : Option ε)).toList = w.trace :=
        List.append_nil w.trace
      rw [htrace]
      refine ⟨⟨fun j => ?_, h.store, h.lawful⟩, i,
        fun j hji => ⟨Function.update_of_ne hji _ _, rfl⟩, ?_⟩
      · by_cases hji : j = i
        · subst hji
          exact ⟨a, by simpa using hmatched', hrecorded⟩
        · simpa [Function.update_of_ne hji] using h.party j
      · simpa [hmade] using hless
    · have hrecorded' := hrecorded.made
      rw [← h.store] at hrecorded'
      refine ⟨⟨fun j => ?_, ?_, C.lawful_apply i _ h.lawful⟩, i,
        fun j hji => ⟨Function.update_of_ne hji _ _, ?_⟩, ?_⟩
      · by_cases hji : j = i
        · subst hji
          exact ⟨_, by simpa using hmatched', hrecorded'⟩
        · obtain ⟨a, hmatched, hrecorded⟩ := h.party j
          refine ⟨a, ?_, hrecorded.append_of_ne (Ne.symm hji)⟩
          dsimp only
          rw [Function.update_of_ne hji]
          exact hmatched
      · dsimp only [Option.map_some, Option.toList_some]
        rw [C.replay_concat, ← h.store]
      · simp [SharedStore.made, Ne.symm hji]
      · have hmade' := hrecorded'.made_eq
        simp only [Option.map_some, Option.toList_some, Function.update_self]
        rw [hmade, hmade']
        exact hless

theorem World.Inv.run [LT ρ] {C : Contract P α ρ} (h : w.Inv C)
    (hrun : Relation.ReflTransGen (World.Step P) w w') : w'.Inv C := by
  induction hrun with
  | refl => exact h
  | tail _ hs ih => exact (ih.step hs).1

/-- **The operations are atomic**: the answers are those of the operations made one after the
other, in the order of the trace. -/
theorem World.Reachable.atomic [LT ρ] (C : Contract P α ρ) (h : w.Reachable P) : w.Inv C :=
  (World.Inv.initial C).run h

/-! ## The order of the operations

The trace is an order of the parties, and every answer is the one that its party would get if the
operations were made in this order, by themselves. -/

/-- The store after the operations of some parties, one after the other. -/
def Contract.serial [LT ρ] (C : Contract P α ρ) (order : List ι) : μ :=
  order.foldl (fun m i => C.apply (C.entry i) m) P.init

section Order

variable [LT ρ] {C : Contract P α ρ}

omit [DecidableEq ι] in
/-- Every party that is in the trace made its own operation. -/
theorem World.Inv.snd_eq (h : w.Inv C) {x : ι × ε} (hx : x ∈ w.trace) : x.2 = C.entry x.1 := by
  obtain ⟨a, -, hrecorded⟩ := h.party x.1
  cases a with
  | none => exact absurd rfl (hrecorded x hx)
  | some a =>
    obtain ⟨pre, post, htrace, -, hothers⟩ := hrecorded
    rw [htrace] at hx
    rcases List.mem_append.mp hx with hx | hx
    · exact absurd rfl (hothers x (List.mem_append_left post hx))
    · rcases List.mem_cons.mp hx with hx | hx
      · exact congrArg Prod.snd hx
      · exact absurd rfl (hothers x (List.mem_append_right pre hx))

omit [DecidableEq ι] in
theorem Contract.replay_eq_serial (C : Contract P α ρ) {trace : List (ι × ε)}
    (h : ∀ x ∈ trace, x.2 = C.entry x.1) : C.replay trace = C.serial (trace.map Prod.fst) := by
  rw [replay, serial, List.foldl_map]
  exact List.foldl_ext _ _ _ fun m x hx => by rw [h x hx]

/-- No party makes its operation twice. -/
theorem World.Inv.nodup (h : w.Inv C) : (w.trace.map Prod.fst).Nodup := by
  refine List.nodup_iff_count_le_one.mpr fun i => ?_
  obtain ⟨a, -, hrecorded⟩ := h.party i
  have hnone : ∀ l : List (ι × ε), (∀ x ∈ l, x.1 ≠ i) → (l.map Prod.fst).count i = 0 := by
    intro l hl
    refine List.count_eq_zero.mpr fun hmem => ?_
    obtain ⟨x, hx, hxi⟩ := List.mem_map.mp hmem
    exact hl x hx hxi
  cases a with
  | none =>
    rw [hnone w.trace hrecorded]
    exact Nat.zero_le 1
  | some a =>
    obtain ⟨pre, post, htrace, -, hothers⟩ := hrecorded
    rw [htrace, List.map_append, List.map_cons, List.count_append, List.count_cons_self,
      hnone pre fun x hx => hothers x (List.mem_append_left post hx),
      hnone post fun x hx => hothers x (List.mem_append_right pre hx)]

omit [DecidableEq ι] in
theorem World.Inv.answer_eq (h : w.Inv C) {i : ι} {pre post : List ι}
    (horder : w.trace.map Prod.fst = pre ++ i :: post) :
    C.matched i (w.party i) (some (C.answer i (C.serial pre))) := by
  obtain ⟨a, hmatched, hrecorded⟩ := h.party i
  obtain ⟨pre', rest, htrace, rfl, hrest⟩ := List.map_eq_append_iff.mp horder
  obtain ⟨x, post', rfl, rfl, rfl⟩ := List.map_eq_cons_iff.mp hrest
  cases a with
  | none =>
    refine absurd rfl (hrecorded x ?_)
    rw [htrace]
    exact List.mem_append_right pre' List.mem_cons_self
  | some a =>
    obtain ⟨pre'', post'', htrace', rfl, hothers⟩ := hrecorded
    have hpre : pre' = pre'' := by
      rw [htrace] at htrace'
      rcases List.append_eq_append_iff.mp htrace' with ⟨mid, rfl, hmid⟩ | ⟨mid, rfl, hmid⟩
      · cases mid with
        | nil => rw [List.append_nil]
        | cons y mid =>
          obtain ⟨rfl, -⟩ := List.cons.inj hmid
          refine absurd rfl (hothers x ?_)
          exact List.mem_append_left post'' (List.mem_append_right pre' List.mem_cons_self)
      · cases mid with
        | nil => rw [List.append_nil]
        | cons y mid =>
          obtain ⟨-, hmid⟩ := List.cons.inj hmid
          refine absurd rfl (hothers x ?_)
          rw [hmid]
          exact List.mem_append_right pre''
            (List.mem_append_right mid List.mem_cons_self)
    have hserial : C.replay pre' = C.serial (pre'.map Prod.fst) := by
      refine C.replay_eq_serial fun y hy => h.snd_eq ?_
      rw [htrace]
      exact List.mem_append_left _ hy
    rw [← hserial, hpre]
    exact hmatched

/-- What is recorded stays. -/
theorem World.trace_isPrefix
    (hrun : Relation.ReflTransGen (World.Step P) w w') : w.trace <+: w'.trace := by
  induction hrun with
  | refl => exact List.prefix_refl _
  | tail _ hs ih =>
    cases hs with
    | party hstep => exact ih.trans (List.prefix_append _ _)

/-- **There is one order of all operations** that explains the answers, and a party that had
its answer when another one had not made its operation comes before it. -/
theorem World.Inv.exists_order (h : w.Inv C) (hrun : Relation.ReflTransGen (World.Step P) w w')
    (hanswered : ∀ i, ¬ C.matched i (w'.party i) none) :
    ∃ order : List ι, order.Nodup ∧ (∀ i, i ∈ order) ∧ w'.store = C.serial order ∧
      (∀ i pre post, order = pre ++ i :: post →
        C.matched i (w'.party i) (some (C.answer i (C.serial pre)))) ∧
      ∀ i j pre post, ¬ C.matched i (w.party i) none →
        (∀ a, ¬ C.matched j (w.party j) (some a)) → order = pre ++ j :: post → i ∈ pre := by
  have h' := h.run hrun
  have hmem : ∀ {v : World ι σ μ ε}, v.Inv C → ∀ i, ¬ C.matched i (v.party i) none →
      i ∈ v.trace.map Prod.fst := by
    intro v hv i hi
    obtain ⟨a, hmatched, hrecorded⟩ := hv.party i
    cases a with
    | none => exact absurd hmatched hi
    | some a =>
      obtain ⟨pre, post, htrace, -, -⟩ := hrecorded
      rw [htrace]
      exact List.mem_map_of_mem (List.mem_append_right pre List.mem_cons_self)
  refine ⟨w'.trace.map Prod.fst, h'.nodup, fun i => hmem h' i (hanswered i), ?_,
    fun i pre post horder => h'.answer_eq horder, fun i j pre post hi hj horder => ?_⟩
  · rw [h'.store]
    exact C.replay_eq_serial fun x hx => h'.snd_eq hx
  · have hbefore := hmem h i hi
    obtain ⟨more, hmore⟩ := World.trace_isPrefix hrun
    rw [← hmore, List.map_append] at horder
    have hjnot : j ∉ w.trace.map Prod.fst := by
      intro hmemj
      obtain ⟨pre', post', hsplit⟩ := List.append_of_mem hmemj
      exact hj _ (h.answer_eq hsplit)
    rcases List.append_eq_append_iff.mp horder with ⟨mid, rfl, -⟩ | ⟨mid, hmid, hrest⟩
    · exact List.mem_append_left mid hbefore
    · cases mid with
      | nil =>
        rw [List.append_nil] at hmid
        rwa [← hmid]
      | cons y mid =>
        obtain ⟨rfl, -⟩ := List.cons.inj hrest
        rw [hmid] at hjnot
        exact absurd (List.mem_append_right pre List.mem_cons_self) hjnot

end Order

variable [Fintype ι] [AddCommMonoid ρ] [PartialOrder ρ] [IsOrderedCancelAddMonoid ρ]

/-- How far it is to the end. -/
def World.measure (C : Contract P α ρ) (w : World ι σ μ ε) : ρ :=
  ∑ i, C.rank i (made i w.trace) (w.party i)

theorem World.Moves.measure_lt {C : Contract P α ρ} {i : ι} (h : w.Moves C w' i) :
    w'.measure C < w.measure C := by
  refine Finset.sum_lt_sum (fun j _ => ?_) ⟨i, Finset.mem_univ i, h.less⟩
  by_cases hji : j = i
  · rw [hji]
    exact le_of_lt h.less
  · obtain ⟨hparty, hmade⟩ := h.others j hji
    rw [hparty, hmade]

/-- **Every party comes to its end**, whatever the order of the steps: the sum of the ranks gets
smaller, and a party that has not ended has a step. -/
theorem World.Inv.inevitable [WellFoundedLT ρ] {C : Contract P α ρ} (h : w.Inv C) :
    Inevitable (World.Step P) (fun w => ∀ i, C.done i (w.party i)) w := by
  refine inevitable_of_measure (World.measure C) (fun v v' hv hs => ?_) (fun v hv hopen => ?_) h
  · obtain ⟨hinv, i, hmoves⟩ := hv.step hs
    exact ⟨hinv, hmoves.measure_lt⟩
  · obtain ⟨i, hi⟩ := not_forall.mp hopen
    obtain ⟨a, hmatched, -⟩ := hv.party i
    obtain ⟨e, m, s, hstep⟩ := C.next hv.lawful hmatched hi
    exact ⟨_, .party hstep⟩

end Atomic

end SharedStore
