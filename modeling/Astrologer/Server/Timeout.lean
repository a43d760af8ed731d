import Astrologer.Server.Discard

/-!
# How long `main` waits

`min_timeout` reads the clock and takes the distance to the first deadline, in whole
milliseconds, for `epoll_wait`.  When nothing happens for that long,
`discard_expired_connections` is called, and it should find the deadline passed.

The division rounds the distance down.  So the wait is never too long, but when the
distance is not a whole number of milliseconds it is too short: the clock stands less than
a millisecond before the deadline, nothing is thrown out, and `main` comes around with a
timeout of `0` until the deadline is reached (`minTimeout_iff`).

The timeout is an `int`.  The division result is a `long`, and it fits because no deadline
is more than five minutes behind the last reading of the clock (`Timed.deadline_le`), and
the clock does not go back.

## Runs with a clock

`Timed now srv` are the states of the runs whose clock never goes back, with no reading
behind `now` so far.  Every iteration of `main` reads the clock between two such times.
Entries of a stream that are not read are bounded too, which excludes no run: what is not
read may be anything.
-/

namespace Astrologer

open ServerStateType FdOperation

/-- `INT_MAX`. -/
def intMax : ℤ := 2 ^ 31 - 1

/-- Five minutes, the longer of the two timeouts. -/
def maxTimeoutNs : ℤ := 300 * secNsFactor

/-- No reading of the clock to come is behind `c`. -/
def Kernel.ClockTo (c : ℤ) (k : Kernel) : Prop := ∀ n, accumTimeNs (k.clock.get n) ≤ c

/-- The runs of `main` with a clock that never goes back, between two iterations: what an
iteration reads lies between the time of the last one and its own. -/
inductive Timed : ℤ → Server → Prop
  | init {listenSocket : Fd} {srv : Server} (now : ℤ) (h : Initial listenSocket srv) :
    Timed now srv
  | iterate {now now' : ℤ} {srv srv' : Server} {k : Kernel} {turns : List Turn}
      (h : Timed now srv) (hi : Iteration srv k turns srv')
      (hfrom : k.ClockFrom now) (hto : k.ClockTo now')
      (hturns : ∀ t ∈ turns, t.kernel.ClockFrom now ∧ t.kernel.ClockTo now') :
    Timed now' srv'

section Deadlines

variable {srv srv' : Server} {p : Ptr} {now now' : ℤ}

theorem Timed.reachable (h : Timed now srv) : Reachable ⟨.epollWait, srv⟩ := by
  induction h with
  | init now h => exact .init h
  | iterate h hi hfrom hto hturns ih => exact ih.steps hi.steps

theorem updateTs_le {ts : Timespec} (h : accumTimeNs ts ≤ now) (op : FdOperation) :
    accumTimeNs (updateTs ts op) ≤ now + maxTimeoutNs := by
  have hadd : accumTimeNs (updateTs ts op) ≤ accumTimeNs ts + maxTimeoutNs := by
    rw [updateTs]
    by_cases hop : op = opRead
    · rw [if_pos hop, accumTimeNs, accumTimeNs]
      simp only [recvTimeoutSec, recvTimeoutNsec, secNsFactor, maxTimeoutNs]
      omega
    · rw [if_neg hop, accumTimeNs, accumTimeNs]
      simp only [sendTimeoutSec, sendTimeoutNsec, secNsFactor, maxTimeoutNs]
      omega
  omega

/-- No deadline is more than five minutes behind `now`. -/
def DeadlinesTo (now : ℤ) (srv : Server) : Prop :=
  ∀ p ∈ srv.allocated, accumTimeNs (srv.mem p).ts ≤ now + maxTimeoutNs

theorem DeadlinesTo.mono (h : DeadlinesTo now srv) (hle : now ≤ now') :
    DeadlinesTo now' srv := by
  intro p hp
  have hdeadline := h p hp
  omega

theorem DeadlinesTo.withKernel (h : DeadlinesTo now srv) (k : Kernel) :
    DeadlinesTo now (srv.withKernel k) := h

/-- What the loop of `update_state` keeps of the deadline: no reading is behind `now`, so no
deadline is more than the longest timeout behind it. -/
structure Bounded (now : ℤ) (p : Ptr) (srv : Server) : Prop where
  ready : Ready p srv
  clock : srv.kernel.ClockTo now
  deadline : accumTimeNs (srv.mem p).ts ≤ now + maxTimeoutNs

theorem Bounded.runHandler (h : Bounded now p srv) : Bounded now p (runHandler p srv) := by
  have hh := h.ready.inv.handled h.ready.mem
  refine ⟨h.ready.runHandler, fun n => ?_, ?_⟩
  · rcases hh.clock with heq | heq
    · rw [heq]
      exact h.clock n
    · rw [heq]
      exact h.clock (n + 1)
  · rw [hh.ts]
    split
    · exact h.deadline
    · exact updateTs_le (h.clock 0) _

theorem DeadlinesTo.updateState (h : DeadlinesTo now srv) (hinv : ServerInv srv)
    (hp : p ∈ srv.allocated) (hc : ConnInv (srv.mem p).toConnState)
    (hclock : srv.kernel.ClockTo now) {fuel : ℕ} {r : ℤ × Server}
    (hr : Astrologer.updateState fuel p srv = some r) : DeadlinesTo now r.2 := by
  have hupd := hinv.updated hp hc hr
  obtain ⟨srv₁, hloop, rfl⟩ := Option.map_eq_some_iff.mp hr
  have hb : Bounded now p srv₁ :=
    updateStateLoop_preserves (fun _ ht => ht.runHandler) hloop
      ⟨⟨hinv.heap, hp, hc⟩, hclock, h p hp⟩
  intro q hq
  by_cases hqp : q = p
  · rw [hqp] at hq ⊢
    rcases afterLoop_cases (srv.mem p).op p srv₁ with ⟨-, heq⟩ | ⟨-, mask, ret, hw⟩
    · rw [heq, (hb.ready.inv.removed hb.ready.mem).allocated] at hq
      exact absurd hq (Finset.notMem_erase p _)
    · rw [congrArg HeapMem.mem hw.toHeapMem]
      exact hb.deadline
  · rw [(hupd.others q hqp).2]
    rcases hupd.allocated with heq | heq
    · exact h q (heq ▸ hq)
    · exact h q (Finset.mem_of_mem_erase (heq ▸ hq))

theorem DeadlinesTo.processNewConnection (h : DeadlinesTo now srv) (hinv : ServerInv srv)
    {conSocket : Option Fd} {block : Option (Ptr × ServerState)}
    (hblock : ∀ b ∈ block, b.1 ∉ srv.allocated) (hclock : srv.kernel.ClockTo now) :
    DeadlinesTo now (processNewConnection conSocket block srv).2 := by
  cases conSocket with
  | none => exact h
  | some fd =>
    unfold Astrologer.processNewConnection
    simp only
    by_cases hfull : srv.heap.size ≥ srv.heap.capacity
    · rw [if_pos hfull]
      exact h
    · rw [if_neg hfull]
      cases block with
      | none => exact h
      | some b =>
        obtain ⟨p, raw⟩ := b
        have hp : p ∉ srv.allocated := hblock (p, raw) rfl
        have hc := hinv.heap.created hp fd raw
        have hold : ∀ q ∈ srv.allocated,
            accumTimeNs ((createServerState fd (some (p, raw)) srv).2.mem q).ts ≤
              now + maxTimeoutNs := by
          intro q hq
          rw [(hc.same q fun heq => hp (heq ▸ hq)).2]
          exact h q hq
        have hall : DeadlinesTo now (createServerState fd (some (p, raw)) srv).2 := by
          intro q hq
          rw [hc.allocated] at hq
          by_cases hret : (createServerState fd (some (p, raw)) srv).1 = 0
          · rw [if_pos hret, Finset.mem_insert] at hq
            rcases hq with rfl | hq
            · rw [hc.ts hret]
              exact updateTs_le (hclock 0) opRead
            · exact hold q hq
          · rw [if_neg hret] at hq
            exact hold q hq
        split
        · exact hall
        · exact hall

/-- **The `for` loop** sets no deadline more than five minutes behind the clock. -/
theorem Dispatch.deadlines {turns : List Turn} (h : Dispatch turns srv srv')
    (hinv : ServerInv srv) (hidle : ConnsIdle srv)
    (hev : EventsInv srv (turns.map Turn.event))
    (hclock : ∀ t ∈ turns, t.kernel.ClockTo now) (hd : DeadlinesTo now srv) :
    DeadlinesTo now srv' := by
  induction h with
  | nil srv => exact hd
  | @accept srv srv' k conSocket block turns hfd hblock hret h ih =>
    have hk : k.ClockTo now := hclock _ List.mem_cons_self
    obtain ⟨hinv', hsub⟩ := (hinv.withKernel k).processNewConnection hfd hblock
    exact ih hinv' ((hidle.withKernel k).processNewConnection (hinv.withKernel k) hblock)
      (hev.mono fun p _ hp => hsub hp) (fun t ht => hclock t (List.mem_cons_of_mem _ ht))
      ((hd.withKernel k).processNewConnection (hinv.withKernel k) hblock hk)
  | @update srv srv' p k fuel r turns hu hret h ih =>
    have hk : k.ClockTo now := hclock _ List.mem_cons_self
    have hp : p ∈ srv.allocated := hev.2 p (by
      rw [List.map_cons, Turn.event, List.reduceOption_cons_of_some]
      exact List.mem_cons_self)
    have hupd := (hinv.withKernel k).updated hp (hidle p hp).conn hu
    have hnodup := hev.1
    rw [List.map_cons, Turn.event, List.reduceOption_cons_of_some, List.nodup_cons] at hnodup
    have hev' : EventsInv r.2 (turns.map Turn.event) := by
      refine hev.mono fun q hq hmem => ?_
      have hqp : q ≠ p := fun heq => hnodup.1 (heq ▸ hq)
      rcases hupd.allocated with heq | heq
      · rw [heq]
        exact hmem
      · rw [heq]
        exact Finset.mem_erase.mpr ⟨hqp, hmem⟩
    exact ih hupd.inv ((hidle.withKernel k).updated hupd) hev'
      (fun t ht => hclock t (List.mem_cons_of_mem _ ht))
      ((hd.withKernel k).updateState (hinv.withKernel k) hp (hidle p hp).conn hk hu)

/-- **No deadline is more than five minutes behind the clock**, in any run whose clock does not go
back: each is a reading of it and one of the two timeouts. -/
theorem Timed.deadline_le (h : Timed now srv) : DeadlinesTo now srv := by
  induction h with
  | init now h =>
    intro p hp
    rw [h.allocated] at hp
    exact absurd hp (Finset.notMem_empty p)
  | @iterate now now' srv srv' k turns h hi hfrom hto hturns ih =>
    have hle : now ≤ now' := (hfrom 0).trans (hto 0)
    have hinv := (h.reachable.inv.srv.withKernel k).getCurTime
    have hidle : ConnsIdle (getCurTime (srv.withKernel k)).2 :=
      (h.reachable.idle.withKernel k).of_eq rfl rfl
    have hnow : DeadlinesTo now' (getCurTime (srv.withKernel k)).2 := ih.mono hle
    cases hi with
    | expired hd =>
      rw [minTimeout_eq] at hd
      obtain ⟨gone, hgone⟩ := discarded_of_discardLoop hinv.getCurTime hd
      intro p hp
      obtain ⟨hmem, hnot⟩ := (hgone.allocated p).mp hp
      rw [(hgone.others p hnot).2]
      exact hnow p hmem
    | events hne hr hd =>
      rw [minTimeout_eq] at hd
      exact hd.deadlines hinv hidle (hinv.reports hr) (fun t ht => (hturns t ht).2) hnow

end Deadlines

/-! ## The timeout -/

section Timeout

variable {srv : Server} {now D : ℤ} {k : Kernel}

/-- `D` is the first deadline. -/
def Server.FirstDeadline (srv : Server) (D : ℤ) : Prop :=
  IsLeast {d | ∃ p ∈ srv.allocated, accumTimeNs (srv.mem p).ts = d} D

/-- What `min_timeout` returns: the distance to the first deadline, rounded down. -/
theorem HeapInv.minTimeout_eq (h : HeapInv srv) (hD : srv.FirstDeadline D) (k : Kernel) :
    (minTimeout (srv.withKernel k)).1 = accumTimeNs k.clock.head ∧
      (minTimeout (srv.withKernel k)).2.1 =
        max 0 (D - accumTimeNs k.clock.head) / secUsFactor := by
  obtain ⟨⟨p, hp, hts⟩, hleast⟩ := hD
  have hpos : srv.heap.size ≠ 0 := Nat.ne_of_gt (Nat.zero_lt_of_lt (h.entry_eq hp).1)
  have htop : binaryHeapTop srv.toHeapMem = some (srv.heap.arr 0) := if_neg hpos
  have hmem : srv.heap.arr 0 ∈ srv.allocated := h.mem_allocated (Nat.pos_of_ne_zero hpos)
  have hfirst : accumTimeNs (srv.mem (srv.heap.arr 0)).ts = D := by
    have hle : accumTimeNs (srv.mem (srv.heap.arr 0)).ts ≤ accumTimeNs (srv.mem p).ts :=
      (h.wf.top_le htop).2 p (h.elems ▸ hp)
    have hge : D ≤ accumTimeNs (srv.mem (srv.heap.arr 0)).ts := hleast ⟨_, hmem, rfl⟩
    omega
  have htop' : binaryHeapTop (getCurTime (srv.withKernel k)).2.toHeapMem =
      some (srv.heap.arr 0) := htop
  have hts' : accumTimeNs ((getCurTime (srv.withKernel k)).2.mem (srv.heap.arr 0)).ts = D :=
    hfirst
  have hclock : (getCurTime (srv.withKernel k)).1 = k.clock.head := rfl
  unfold minTimeout
  simp only [htop', hts', hclock]
  by_cases hle : D ≤ accumTimeNs k.clock.head
  · rw [if_pos hle, max_eq_left (by omega)]
    exact ⟨rfl, rfl⟩
  · rw [if_neg hle, max_eq_right (by omega)]
    exact ⟨rfl, Int.tdiv_eq_ediv_of_nonneg (by omega)⟩

/-- The wait is right: the timeout is an `int` and not negative, the wait is not a
millisecond too long, and when it is over the first deadline has passed, so that
`discard_expired_connections` throws something out. -/
structure Server.WaitsWell (srv : Server) (D : ℤ) (k : Kernel) : Prop where
  nonneg : 0 ≤ (minTimeout (srv.withKernel k)).2.1
  int : (minTimeout (srv.withKernel k)).2.1 ≤ intMax
  not_long : (minTimeout (srv.withKernel k)).2.1 * secUsFactor <
    max 0 (D - srv.clockRead k) + secUsFactor
  reached : D ≤ srv.clockRead k + (minTimeout (srv.withKernel k)).2.1 * secUsFactor
  discards : ∀ k' : Kernel,
    accumTimeNs k'.clock.head =
      srv.clockRead k + (minTimeout (srv.withKernel k)).2.1 * secUsFactor →
    ∃ fuel srv', discardExpiredConnections fuel
      ((minTimeout (srv.withKernel k)).2.2.withKernel k') = some srv' ∧
      ∃ p ∈ srv.allocated, p ∉ srv'.allocated

/-- **When the wait is right.**  In every run with a clock that does not go back, and for
every reading of it at or behind all those before, the timeout of `min_timeout` is as it
should be if and only if the first deadline has passed, or is a whole number of
milliseconds away. -/
theorem minTimeout_iff (h : Timed now srv) (hD : srv.FirstDeadline D)
    (hk : k.ClockFrom now) :
    srv.WaitsWell D k ↔ D ≤ srv.clockRead k ∨ secUsFactor ∣ D - srv.clockRead k := by
  have hinv := h.reachable.inv.srv
  obtain ⟨hclock, ht⟩ := hinv.heap.minTimeout_eq hD k
  have hread : srv.clockRead k = accumTimeNs k.clock.head := hclock
  obtain ⟨c, hc⟩ : ∃ c, c = accumTimeNs k.clock.head := ⟨_, rfl⟩
  obtain ⟨t, hteq⟩ : ∃ t, t = (minTimeout (srv.withKernel k)).2.1 := ⟨_, rfl⟩
  rw [← hteq, ← hc] at ht
  have hfactor : secUsFactor = 1000000 := rfl
  have hfar : D - c ≤ 300 * 1000000000 := by
    obtain ⟨⟨p, hp, hts⟩, -⟩ := hD
    have hdeadline := h.deadline_le p hp
    have hnow : now ≤ c := hc ▸ hk 0
    have hmax : maxTimeoutNs = 300 * 1000000000 := rfl
    omega
  constructor
  · intro hw
    have hreached := hw.reached
    rw [← hteq, hread, ← hc] at hreached
    rw [hread, ← hc]
    rw [hfactor] at ht hreached ⊢
    omega
  · intro hcond
    rw [hread, ← hc] at hcond
    have hreached : D ≤ c + t * secUsFactor := by
      rw [hfactor] at ht hcond ⊢
      omega
    refine ⟨?_, ?_, ?_, ?_, fun k' hk' => ?_⟩
    · rw [← hteq]
      rw [hfactor] at ht
      omega
    · rw [← hteq, intMax]
      rw [hfactor] at ht
      omega
    · rw [← hteq, hread, ← hc]
      rw [hfactor] at ht ⊢
      omega
    · rw [← hteq, hread, ← hc]
      exact hreached
    · rw [← hteq, hread, ← hc] at hk'
      have hnext := h.reachable.step (.waitFailed srv k)
      rw [minTimeout_eq] at hnext ⊢
      have hinv' := hnext.inv.srv.withKernel k'
      obtain ⟨fuel, srv', hd⟩ :=
        discardExpiredConnections_returns hinv' (hnext.idle.withKernel k')
      obtain ⟨gone, hgone⟩ := discarded_of_discardExpired hinv' hd
      obtain ⟨⟨p, hp, hts⟩, -⟩ := hD
      refine ⟨fuel, srv', hd, p, hp, fun hin => ?_⟩
      refine ((hgone.allocated p).mp hin).2 ((hgone.mem_gone p).mpr ⟨hp, ?_⟩)
      show accumTimeNs (srv.mem p).ts ≤ accumTimeNs k'.clock.head
      omega

end Timeout

/-! Two clients have connected at time `0`, so the first deadline is at `300` seconds.  A
nanosecond later it is not a whole number of milliseconds away. -/

theorem Server.sampleAccept_iteration {srv : Server} {fd : Fd} {p : Ptr}
    (hlisten : srv.epoll 3 = some ⟨epollIn, none⟩)
    (hfd : (minTimeout (srv.withKernel (sampleKernel 0))).2.2.epoll fd = none)
    (hp : p ∉ (minTimeout (srv.withKernel (sampleKernel 0))).2.2.allocated)
    (hret : (processNewConnection (some fd) (some (p, sampleBlock))
      ((minTimeout (srv.withKernel (sampleKernel 0))).2.2.withKernel
        (sampleKernel 0))).1 = 0) :
    Iteration srv (sampleKernel 0)
      [.accept (sampleKernel 0) (some fd) (some (p, sampleBlock))] (srv.sampleAccept fd p) := by
  have hreports : srv.Reports [none] :=
    ⟨[3], List.nodup_singleton 3, by decide, .cons ⟨epollIn, hlisten⟩ .nil⟩
  refine .events (List.cons_ne_nil _ _) hreports (.accept ?_ ?_ hret (.nil _))
  · exact fun f hf => Option.mem_some.mp hf ▸ hfd
  · exact fun b hb => Option.mem_some.mp hb ▸ hp

theorem sampleTwo_timed : Timed 0 sampleTwo := by
  have hfrom : (sampleKernel 0).ClockFrom 0 := fun _ => le_refl _
  have hto : (sampleKernel 0).ClockTo 0 := fun _ => le_refl _
  have hturns : ∀ fd p, ∀ t ∈ [Turn.accept (sampleKernel 0) (some fd) (some (p, sampleBlock))],
      t.kernel.ClockFrom 0 ∧ t.kernel.ClockTo 0 := by
    intro fd p t ht
    rw [List.mem_singleton.mp ht]
    exact ⟨hfrom, hto⟩
  have hboot : Initial 3 sampleBoot :=
    ⟨⟨some fun _ => 0, rfl⟩, rfl, fun _ => rfl, rfl, rfl⟩
  have hone : Timed 0 (sampleBoot.sampleAccept 5 1) :=
    (Timed.init 0 hboot).iterate (Server.sampleAccept_iteration rfl rfl (by decide) rfl)
      hfrom hto (hturns 5 1)
  exact hone.iterate (Server.sampleAccept_iteration rfl rfl (by decide) rfl)
    hfrom hto (hturns 6 2)

theorem sampleTwo_firstDeadline : sampleTwo.FirstDeadline (300 * secNsFactor) := by
  have hall : ∀ p ∈ sampleTwo.allocated,
      300 * secNsFactor ≤ accumTimeNs (sampleTwo.mem p).ts := by decide
  refine ⟨⟨1, by decide, by decide⟩, ?_⟩
  rintro d ⟨p, hp, rfl⟩
  exact hall p hp

/-- The clock stands at one nanosecond. -/
def sampleLateKernel : Kernel := { sampleKernel 0 with clock := Stream'.const ⟨0, 1⟩ }

/-- The wait is `299999` milliseconds, and ends before the deadline. -/
theorem sampleTwo_not_waitsWell :
    Timed 0 sampleTwo ∧ sampleTwo.FirstDeadline (300 * secNsFactor) ∧
      sampleLateKernel.ClockFrom 0 ∧
      ¬ sampleTwo.WaitsWell (300 * secNsFactor) sampleLateKernel := by
  refine ⟨sampleTwo_timed, sampleTwo_firstDeadline, fun _ => Int.zero_le_ofNat 1, fun hw => ?_⟩
  have hnot : ¬ 300 * secNsFactor ≤ sampleTwo.clockRead sampleLateKernel +
      (minTimeout (sampleTwo.withKernel sampleLateKernel)).2.1 * secUsFactor := by decide
  exact hnot hw.reached

/-- At time `0` the deadline is a whole number of milliseconds away. -/
theorem sampleTwo_waitsWell : sampleTwo.WaitsWell (300 * secNsFactor) (sampleKernel 0) :=
  (minTimeout_iff sampleTwo_timed sampleTwo_firstDeadline fun _ => le_refl _).mpr
    (Or.inr (by decide))

end Astrologer
