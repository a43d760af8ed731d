import Astrologer.Library.Asio
import Astrologer.Library.Completion

/-!
# Event loops that come to their end

The objects of a lawful system go on for ever, when their handlers start one operation after the
other in a circle.  A system is `Ranked` when they do not: the operation that a handler starts
has a smaller rank than its own.

Then `io_context::run` returns.  A wait is started again only when it has been aborted, and it is
aborted only when the timer is set or cancelled, which a handler of an operation does once.  So
an operation pays for the waits that are started again behind it (`Object.work`).  The program
may choose the handler that is called, and Asio the operation that completes, with any error and
any content of the buffer; they cannot go on for ever, and they are not stuck before all objects
are released (`inevitable_released`).

`System.Turn` are the steps of `System.Step` that an object takes part in.  A wait does not
complete without a reason here: its time has come, or it has been aborted.
-/

namespace Asio

open Completion (Inevitable inevitable_of_measure)

variable {S B β ω δ : Type*} [DecidableEq S] [DecidableEq B]

/-! ## Turns

A turn is a step of the event loop that the object has been waiting for, with the time that has
passed before it. -/

/-- A turn of an object: an operation completes, a time comes, or a queued handler is called.  The
clock and the shared data are left out, so that a turn is what the object does itself. -/
inductive System.Turn (sys : System S B β ω δ) (o : Object S B β ω δ) : Object S B β ω δ → Prop
  | complete (before after : List (Started S B ω)) (p : Started S B ω) (ec : ErrorCode)
    (content : β) (h : o.operations = before ++ p :: after) (hp : p.completion = none) :
    Turn sys o { o with
      operations := before ++ { p with completion := some ec } :: after
      buffers := Function.update o.buffers p.buffer content }
  | elapse (before after : List (Option ErrorCode)) (h : o.waits = before ++ none :: after)
    (hexpiry : o.expiry ≤ o.now) :
    Turn sys o { o with waits := before ++ some .success :: after }
  | handle (before after : List (Started S B ω)) (p : Started S B ω) (ec : ErrorCode)
    (h : o.operations = before ++ p :: after) (hp : p.completion = some ec) :
    Turn sys o (sys.handle p.handler
      { o with operations := before ++ after, turn := o.turn + 1 } ec)
  | handleDeadline (before after : List (Option ErrorCode)) (ec : ErrorCode)
    (h : o.waits = before ++ some ec :: after) :
    Turn sys o (sys.handleDeadline
      { o with waits := before ++ after, turn := o.turn + 1 } ec)

/-- Some time passes before it. -/
def System.Timely (sys : System S B β ω δ) (o o' : Object S B β ω δ) : Prop :=
  ∃ now, o.now ≤ now ∧ sys.Turn { o with now := now } o'

variable {sys : System S B β ω δ} {o o' : Object S B β ω δ}

omit [DecidableEq S] in
theorem System.Turn.step (h : sys.Turn o o') : ∃ e, sys.Step o e o' := by
  cases h with
  | complete before after p ec content h hp => exact ⟨_, .complete before after p ec content h hp⟩
  | elapse before after h hexpiry => exact ⟨_, .elapse before after .success h fun _ => hexpiry⟩
  | handle before after p ec h hp => exact ⟨_, .handle before after p ec h hp⟩
  | handleDeadline before after ec h => exact ⟨_, .handleDeadline before after ec h⟩

theorem System.Inv.turn (hsys : sys.Lawful) (h : sys.Inv o) (ht : sys.Turn o o') : sys.Inv o' := by
  obtain ⟨e, hstep⟩ := ht.step
  exact h.step hsys hstep

theorem System.Inv.clock (hsys : sys.Lawful) (h : sys.Inv o) {now : ℕ} (hnow : o.now ≤ now) :
    sys.Inv { o with now := now } := h.step hsys (.clock now hnow)

/-! ## Ranked systems

If each operation is followed by one of smaller rank, an object has as many operations as its
first one has rank, at most. -/

/-- What a handler may do when the object is to come to an end: it stops the object, or it starts
an operation of a rank below `n`, with any data and any buffers. -/
inductive System.Descends (sys : System S B β ω δ) (rank : ω → ℕ) (n : ℕ)
    (o : Object S B β ω δ) : Object S B β ω δ → Prop
  | stop (buffers : B → β) (data : δ) :
    Descends sys rank n o ({ o with buffers := buffers, data := data }.stop sys.sockets)
  | start (buffers : B → β) (data : δ) (handler : ω) (s : S) (b : B) (hs : s ∈ sys.sockets)
      (hrank : rank handler < n) :
    Descends sys rank n o (({ o with buffers := buffers, data := data }.expiresAfter
      (sys.timeout handler)).start handler s b)

theorem System.Descends.moves {rank : ω → ℕ} {n : ℕ}
    (h : sys.Descends rank n o o') : sys.Moves o o' := by
  cases h with
  | stop buffers data => exact .stop buffers data
  | start buffers data handler s b hs hrank => exact .start buffers data handler s b hs

/-- **Every operation is followed by one of a smaller rank**, or by none; so an object has no more
operations than the rank of its first. -/
structure System.Ranked (sys : System S B β ω δ) (rank : ω → ℕ) : Prop where
  lawful : sys.Lawful
  descends : ∀ handler (o : Object S B β ω δ) ec, o.stopped sys.sockets = false →
    o.operations = [] → sys.Descends rank (rank handler) o (sys.handle handler o ec)

/-! ## What is left to do

An operation counts for more than all that may follow it: the next operation, which has a smaller
rank, and the wait that is aborted with it and started again. -/

variable {rank : ω → ℕ}

/-- An operation pays for those that follow it. -/
def Started.work (rank : ω → ℕ) (p : Started S B ω) : ℕ :=
  4 * rank p.handler + 2 + if p.completion = none then 1 else 0

/-- A wait that was aborted is started again. -/
def waitWork : Option ErrorCode → ℕ
  | none => 2
  | some .operationAborted => 3
  | some _ => 1

def Object.work (rank : ω → ℕ) (o : Object S B β ω δ) : ℕ :=
  (o.operations.map (Started.work rank)).sum + (o.waits.map waitWork).sum

omit [DecidableEq S] [DecidableEq B] in
theorem Started.two_le_work (p : Started S B ω) : 4 * rank p.handler + 2 ≤ p.work rank :=
  Nat.le_add_right _ _

omit [DecidableEq S] [DecidableEq B] in
theorem Started.work_abort_le (p : Started S B ω) : p.abort.work rank ≤ p.work rank := by
  refine Nat.add_le_add_left ?_ _
  rw [if_neg (show p.abort.completion ≠ none from Object.abort_ne_none p.completion)]
  exact Nat.zero_le _

theorem waitWork_pos (w : Option ErrorCode) : 0 < waitWork w := by
  cases w with
  | none => decide
  | some ec => cases ec <;> exact Nat.succ_pos _

theorem waitWork_abort_le (w : Option ErrorCode) : waitWork (abort w) ≤ waitWork w + 1 := by
  cases w with
  | none => decide
  | some ec => exact Nat.le_succ _

omit [DecidableEq B] in
theorem work_closeAll_le (sockets : List S) (o : Object S B β ω δ) :
    ((sockets.foldl Object.close o).operations.map (Started.work rank)).sum ≤
      (o.operations.map (Started.work rank)).sum := by
  induction sockets generalizing o with
  | nil => exact le_rfl
  | cons s sockets ih =>
    refine (ih (o.close s)).trans ?_
    show ((o.operations.map fun p => if p.socket = s then p.abort else p).map _).sum ≤ _
    rw [List.map_map]
    refine List.sum_le_sum fun p _ => ?_
    rw [Function.comp_apply]
    split
    · exact p.work_abort_le
    · exact le_rfl

omit [DecidableEq B] in
theorem work_stop_le (sockets : List S) (o : Object S B β ω δ) :
    (o.stop sockets).work rank ≤
      (o.operations.map (Started.work rank)).sum + ((o.waits.map abort).map waitWork).sum := by
  have hwaits : (o.stop sockets).waits = o.waits.map abort := by
    show (sockets.foldl Object.close o).waits.map abort = _
    rw [(Object.frame_closeAll sockets o).1]
  rw [Object.work, hwaits]
  exact Nat.add_le_add_right (work_closeAll_le sockets o) _

/-- **What a handler starts is worth less than its own operation.** -/
theorem System.Descends.work_lt {handler : ω} (h : sys.Descends rank (rank handler) o o')
    (hoperations : o.operations = []) {w : Option ErrorCode} (hwaits : o.waits = [w])
    {p : Started S B ω} (hp : p.handler = handler) :
    o'.work rank < p.work rank + waitWork w := by
  have hwork : 4 * rank p.handler + 2 ≤ p.work rank := p.two_le_work
  have habort := waitWork_abort_le w
  rw [hp] at hwork
  cases h with
  | stop buffers data =>
    refine (work_stop_le sys.sockets _).trans_lt ?_
    show (o.operations.map _).sum + ((o.waits.map abort).map waitWork).sum < _
    rw [hoperations, hwaits]
    simp only [List.map_nil, List.map_cons, List.sum_nil, List.sum_cons]
    omega
  | start buffers data handler' s b hs hrank =>
    obtain ⟨q, hq⟩ : ∃ q : Started S B ω, q = ⟨handler', s, b, o.now, o.turn, none⟩ := ⟨_, rfl⟩
    have hone : q.work rank = 4 * rank handler' + 3 := by
      rw [hq]
      rfl
    have hwork' : Object.work rank (({ o with buffers := buffers, data := data }.expiresAfter
        (sys.timeout handler')).start handler' s b) =
        ((o.operations ++ [q]).map (Started.work rank)).sum +
          ((o.waits.map abort).map waitWork).sum := by
      rw [hq]
      rfl
    rw [hwork', hoperations, hwaits]
    simp only [List.nil_append, List.map_nil, List.map_cons, List.sum_nil, List.sum_cons, hone]
    omega

/-- **A turn leaves less to do**: a completion makes a pending operation a queued one, and a
handler gives its operation for what it starts. -/
theorem System.Ranked.work_lt (hsys : sys.Ranked rank) (h : sys.Inv o) (ht : sys.Turn o o') :
    o'.work rank < o.work rank := by
  cases ht with
  | complete before after p ec content hoperations hp =>
    have hless : Started.work rank { p with completion := some ec } < p.work rank := by
      rw [Started.work, Started.work, hp]
      exact Nat.lt_succ_self _
    simp only [Object.work, hoperations, List.map_append, List.map_cons, List.sum_append,
      List.sum_cons]
    omega
  | elapse before after hwaits hexpiry =>
    have hless : waitWork (some .success) < waitWork none := by decide
    simp only [Object.work, hwaits, List.map_append, List.map_cons, List.sum_append,
      List.sum_cons]
    omega
  | handle before after p ec hoperations hp =>
    cases hstopped : o.stopped sys.sockets with
    | true =>
      rw [hsys.lawful.handle_stopped p.handler
        { o with operations := before ++ after, turn := o.turn + 1 } ec hstopped]
      have hpos : 4 * rank p.handler + 2 ≤ p.work rank := p.two_le_work
      simp only [Object.work, hoperations, List.map_append, List.map_cons, List.sum_append,
        List.sum_cons]
      omega
    | false =>
      obtain ⟨q, w, hq, hw, -⟩ := h.working hstopped
      obtain ⟨rfl, rfl, rfl⟩ := append_cons_eq_singleton (hoperations.symm.trans hq)
      have hless := (hsys.descends p.handler { o with operations := [] ++ [], turn := o.turn + 1 }
        ec hstopped rfl).work_lt rfl hw (p := p) rfl
      refine hless.trans_eq ?_
      rw [Object.work, hq, hw]
      simp only [List.map_cons, List.map_nil, List.sum_cons, List.sum_nil, Nat.add_zero]
  | handleDeadline before after ec hwaits =>
    have hpos := waitWork_pos (some ec)
    cases hstopped : o.stopped sys.sockets with
    | true =>
      rw [hsys.lawful.deadline_stopped
        { o with waits := before ++ after, turn := o.turn + 1 } ec hstopped]
      simp only [Object.work, hwaits, List.map_append, List.map_cons, List.sum_append,
        List.sum_cons]
      omega
    | false =>
      obtain ⟨q, w, hq, hw, -⟩ := h.working hstopped
      obtain ⟨rfl, rfl, rfl⟩ := append_cons_eq_singleton (hwaits.symm.trans hw)
      by_cases hec : ec = .operationAborted
      · subst hec
        rw [hsys.lawful.deadline_aborted { o with waits := [] ++ [], turn := o.turn + 1 } hstopped,
          Object.work, Object.work, hw]
        exact Nat.add_lt_add_left (by decide : waitWork none + 0 < 3 + 0) _
      · rw [hsys.lawful.deadline_elapsed { o with waits := [] ++ [], turn := o.turn + 1 } ec
          hstopped hec]
        refine (work_stop_le sys.sockets _).trans_lt ?_
        rw [Object.work, hw]
        exact Nat.add_lt_add_left hpos _

omit [DecidableEq S] in
/-- **An object that is not released can take a turn**: something of it is pending and may
complete, or it is queued and may be called. -/
theorem System.Inv.exists_turn (h : sys.Inv o) (hopen : ¬ o.Released) :
    ∃ o', sys.Turn o o' := by
  cases hstopped : o.stopped sys.sockets with
  | true =>
    have hends : o.Released ∨ ∃ o', sys.Calls o o' := (h.finished hstopped).released_or_calls
    obtain ⟨o', hcalls⟩ := hends.resolve_left hopen
    rcases hcalls with hcall | hcall
    · cases hcall with
      | handle before after p ec hoperations hp =>
        exact ⟨_, .handle before after p ec hoperations hp⟩
    · cases hcall with
      | handleDeadline before after ec hwaits => exact ⟨_, .handleDeadline before after ec hwaits⟩
  | false =>
    obtain ⟨p, w, hp, -⟩ := h.working hstopped
    cases hcompletion : p.completion with
    | none => exact ⟨_, .complete [] [] p .success (o.buffers p.buffer) hp hcompletion⟩
    | some ec => exact ⟨_, .handle [] [] p ec hp hcompletion⟩

omit [DecidableEq S] in
/-- A released object takes no turn. -/
theorem Object.Released.not_turn (h : o.Released) : ¬ sys.Turn o o' := by
  intro ht
  cases ht with
  | complete before after p ec content hoperations hp =>
    exact List.append_ne_nil_of_right_ne_nil before (List.cons_ne_nil p after)
      (hoperations.symm.trans h.1)
  | elapse before after hwaits hexpiry =>
    exact List.append_ne_nil_of_right_ne_nil before (List.cons_ne_nil none after)
      (hwaits.symm.trans h.2)
  | handle before after p ec hoperations hp =>
    exact List.append_ne_nil_of_right_ne_nil before (List.cons_ne_nil p after)
      (hoperations.symm.trans h.1)
  | handleDeadline before after ec hwaits =>
    exact List.append_ne_nil_of_right_ne_nil before (List.cons_ne_nil (some ec) after)
      (hwaits.symm.trans h.2)

/-- It is at work, or it has nothing to do any more. -/
def System.Lives (sys : System S B β ω δ) (o : Object S B β ω δ) : Prop := sys.Inv o ∨ o.Released

theorem System.Ranked.timely (hsys : sys.Ranked rank) (h : sys.Lives o) (ht : sys.Timely o o') :
    sys.Inv o ∧ sys.Inv o' ∧ o'.work rank < o.work rank := by
  obtain ⟨now, hnow, hturn⟩ := ht
  rcases h with h | h
  · have hclock := h.clock hsys.lawful hnow
    exact ⟨h, hclock.turn hsys.lawful hturn,
      hsys.work_lt (o := { o with now := now }) hclock hturn⟩
  · exact absurd hturn (Object.Released.not_turn (o := { o with now := now }) h)

/-! ## All objects of a loop

Objects of several kinds in one loop, which enter at any time.  Their measures are added up, and
one that has not entered counts for more than any measure. -/

section Loop

variable {ι : Type*} [DecidableEq ι]

/-- A step of an event loop with many objects: one of them enters, as one that it may be then, or
one that has entered takes a turn. -/
inductive LoopStep (sys : ι → System S B β ω δ) (enters : ι → Object S B β ω δ → Prop)
    (os : ι → Option (Object S B β ω δ)) : (ι → Option (Object S B β ω δ)) → Prop
  | enter {i : ι} {o : Object S B β ω δ} (hi : os i = none) (ho : enters i o) :
    LoopStep sys enters os (Function.update os i (some o))
  | turn {i : ι} {o o' : Object S B β ω δ} (hi : os i = some o) (ht : (sys i).Timely o o') :
    LoopStep sys enters os (Function.update os i (some o'))

/-- Every object that has entered lives, that is, the invariant of its kind holds of it or it has
nothing to do any more; and `good` is true of it. -/
def LoopInv (sys : ι → System S B β ω δ) (good : ι → Object S B β ω δ → Prop)
    (os : ι → Option (Object S B β ω δ)) : Prop :=
  ∀ i o, os i = some o → (sys i).Lives o ∧ good i o

/-- An object that has not entered has more to do than any that has. -/
def loopWork (rank : ω → ℕ) : Option (Object S B β ω δ) → ℕ ×ₗ ℕ
  | none => toLex (1, 0)
  | some o => toLex (0, o.work rank)

omit [DecidableEq S] [DecidableEq B] in
/-- One object has less to do, and the others stay. -/
theorem sum_update_lt [Fintype ι] {rank : ι → ω → ℕ} {os : ι → Option (Object S B β ω δ)}
    {i : ι} {o : Option (Object S B β ω δ)} (h : loopWork (rank i) o < loopWork (rank i) (os i)) :
    ∑ j, loopWork (rank j) (Function.update os i o j) < ∑ j, loopWork (rank j) (os j) := by
  refine Finset.sum_lt_sum (fun j _ => ?_) ⟨i, Finset.mem_univ i, ?_⟩
  · by_cases hji : j = i
    · subst hji
      rw [Function.update_self]
      exact h.le
    · rw [Function.update_of_ne hji]
  · rw [Function.update_self]
    exact h

variable {sys : ι → System S B β ω δ} {rank : ι → ω → ℕ} {enters good : ι → Object S B β ω δ → Prop}
  {os os' : ι → Option (Object S B β ω δ)}

/-- What makes a loop end with all its objects good: each kind is ranked, an object can always
enter, one that enters lives and is good, and a turn keeps it good. -/
structure LoopLaw (sys : ι → System S B β ω δ) (rank : ι → ω → ℕ)
    (enters good : ι → Object S B β ω δ → Prop) : Prop where
  ranked : ∀ i, (sys i).Ranked (rank i)
  exists_enters : ∀ i, ∃ o, enters i o
  lives : ∀ i o, enters i o → (sys i).Lives o
  good_enters : ∀ i o, enters i o → good i o
  good_turn : ∀ i o o', (sys i).Inv o → good i o → (sys i).Timely o o' → good i o'

/-- **A step of a loop** keeps the invariant, and leaves less to do: one object enters or takes a
turn, and the others are as they were. -/
theorem LoopInv.step (hlaw : LoopLaw sys rank enters good) (h : LoopInv sys good os)
    (hs : LoopStep sys enters os os') :
    LoopInv sys good os' ∧ ∀ [Fintype ι],
      ∑ j, loopWork (rank j) (os' j) < ∑ j, loopWork (rank j) (os j) := by
  have hupdate : ∀ {i : ι} {o' : Object S B β ω δ}, (sys i).Lives o' → good i o' →
      LoopInv sys good (Function.update os i (some o')) := by
    intro i o' hlives hgood j o hj
    by_cases hji : j = i
    · subst hji
      rw [Function.update_self, Option.some.injEq] at hj
      exact hj ▸ ⟨hlives, hgood⟩
    · rw [Function.update_of_ne hji] at hj
      exact h j o hj
  cases hs with
  | @enter i o hi ho =>
    refine ⟨hupdate (hlaw.lives i o ho) (hlaw.good_enters i o ho), sum_update_lt ?_⟩
    rw [hi]
    exact Prod.Lex.toLex_lt_toLex.mpr (.inl Nat.one_pos)
  | @turn i o o' hi ht =>
    obtain ⟨hinv, hinv', hless⟩ := (hlaw.ranked i).timely (h i o hi).1 ht
    refine ⟨hupdate (.inl hinv') (hlaw.good_turn i o o' hinv (h i o hi).2 ht), sum_update_lt ?_⟩
    rw [hi]
    exact Prod.Lex.toLex_lt_toLex.mpr (.inr ⟨rfl, hless⟩)

/-- All objects have entered, and are released. -/
def LoopDone (os : ι → Option (Object S B β ω δ)) : Prop := ∀ i, ∃ o, os i = some o ∧ o.Released

theorem LoopInv.exists_step (hlaw : LoopLaw sys rank enters good) (h : LoopInv sys good os)
    (hopen : ¬ LoopDone os) : ∃ os', LoopStep sys enters os os' := by
  obtain ⟨i, hi⟩ := not_forall.mp hopen
  cases ho : os i with
  | none =>
    obtain ⟨o, henters⟩ := hlaw.exists_enters i
    exact ⟨_, .enter ho henters⟩
  | some o =>
    have hrelease : ¬ o.Released := fun hrel => hi ⟨o, ho, hrel⟩
    obtain ⟨o', hturn⟩ := ((h i o ho).1.resolve_right hrelease).exists_turn hrelease
    exact ⟨_, .turn ho ⟨o.now, le_rfl, hturn⟩⟩

/-- **A run of a loop** keeps the invariant. -/
theorem LoopInv.run (hlaw : LoopLaw sys rank enters good) (h : LoopInv sys good os)
    (hrun : Relation.ReflTransGen (LoopStep sys enters) os os') : LoopInv sys good os' := by
  induction hrun with
  | refl => exact h
  | tail _ hs ih => exact (ih.step hlaw hs).1

/-- **`run` returns**: in the end all objects are released, and what their turns keep is true
then. -/
theorem inevitable_released [Fintype ι] (hlaw : LoopLaw sys rank enters good)
    (h : LoopInv sys good os) :
    Inevitable (LoopStep sys enters) (fun os => LoopDone os ∧ LoopInv sys good os) os := by
  refine inevitable_of_measure (fun os => ∑ j, loopWork (rank j) (os j))
    (fun os os' h hs => ?_) (fun os h hopen => ?_) h
  · obtain ⟨hinv, hless⟩ := h.step hlaw hs
    exact ⟨hinv, hless⟩
  · exact h.exists_step hlaw fun hdone => hopen ⟨hdone, h⟩

end Loop

end Asio
