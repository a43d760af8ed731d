import Astrologer.Server.UpdateState

/-!
# The timeout heap holds the live connections

`HeapInv` ties the heap to the process: the stored pointers are the allocated
structures, each once; the structure in slot `i` has `heap_ix = i`; and no deadline
is before that of its parent.  It is kept by everything the event loop does, and so
it holds in every state of every run (`reachable_heap`).

The back indices need an argument of their own.  They are written by `swap` alone,
and a removal exchanges an entry with the last one *after* the size has been
decreased, so what an exchange keeps is stated for a number of slots that may be
more than the size (`Back`).  Everything about order and content is the general
theory of the heap, `HeapWf.push`, `HeapWf.update` and `HeapWf.remove`.

The lemmas about the single operations (`Retimed`, `Removed`, `Created`) also say
what the operation leaves alone.
-/

namespace Astrologer

open ImplicitHeap ServerStateType FdOperation

/-! ## The callbacks

`compare_server_state` and `swap_server_state` are what the general theory of the heap asks of
callbacks: the one compares a key, the other one exchanges two slots and changes no key.  That it
also writes the two `heap_ix` fields is what the next section is about. -/

/-- The deadline of a structure. -/
def tsKey (mem : Mem) (p : Ptr) : ℤ := accumTimeNs (mem p).ts

/-- `mem'` differs from `mem` in `heap_ix` fields only. -/
def SameStates (mem mem' : Mem) : Prop :=
  ∀ p, (mem' p).toConnState = (mem p).toConnState ∧ (mem' p).ts = (mem p).ts

theorem swapServerState_same (mem : Mem) (a b : Ptr) :
    SameStates mem (swapServerState mem a b).1 := by
  intro p
  by_cases ha : p = a
  · by_cases hab : a = b <;> simp [swapServerState, ha, hab]
  · by_cases hb : p = b
    · have hba : b ≠ a := hb ▸ ha
      simp [swapServerState, hb, hba]
    · simp [swapServerState, ha, hb]

/-- The `heap_ix` fields of the two structures are exchanged. -/
theorem swapServerState_heapIx (mem : Mem) (a b p : Ptr) :
    ((swapServerState mem a b).1 p).heapIx = (mem (Equiv.swap a b p)).heapIx := by
  rw [Equiv.swap_apply_def]
  by_cases ha : p = a
  · rw [if_pos ha, ha]
    simp [swapServerState]
  · rw [if_neg ha]
    by_cases hb : p = b
    · rw [if_pos hb, hb]
      have hba : b ≠ a := hb ▸ ha
      simp [swapServerState, hba]
    · rw [if_neg hb]
      simp [swapServerState, ha, hb]

theorem lawful_server {heap : BinaryHeap Mem Ptr}
    (hc : heap.compare = compareServerState) (hs : heap.swap = swapServerState) :
    Lawful tsKey heap := by
  refine ⟨fun mem a b => ?_, fun mem a b => ?_, fun mem a b p => ?_⟩
  · rw [hc, compareServerState, lessTs, decide_eq_true_iff]
    rfl
  · rw [hs]
    rfl
  · rw [hs]
    exact congrArg accumTimeNs (swapServerState_same mem a b p).2

/-! ## Back indices

An exchange of two slots writes the fields of the two structures in them, so it keeps the back
indices as long as both slots are among those that are right.  All operations of the heap are
sequences of exchanges (`Swaps`), and a removal by index makes its first one on a slot that is
outside the new size; hence `Back` has a number of slots of its own. -/

/-- The structures in the first `n` slots know where they are. -/
def HeapMem.Back (s : HeapMem Mem Ptr) (n : ℕ) : Prop :=
  ∀ i, i < n → (s.mem (s.heap.arr i)).heapIx = i

theorem HeapMem.Back.mono {s : HeapMem Mem Ptr} {m n : ℕ} (h : s.Back n) (hle : m ≤ n) :
    s.Back m := fun i hi => h i (Nat.lt_of_lt_of_le hi hle)

/-- Two slots never hold the same pointer. -/
theorem HeapMem.Back.injective {s : HeapMem Mem Ptr} {n i j : ℕ} (h : s.Back n)
    (hi : i < n) (hj : j < n) (heq : s.heap.arr i = s.heap.arr j) : i = j := by
  rw [← h i hi, heq, h j hj]

theorem swap_lt {i j l n : ℕ} (hi : i < n) (hj : j < n) (hl : l < n) :
    Equiv.swap i j l < n := by
  rw [Equiv.swap_apply_def]
  split
  · exact hj
  · split
    · exact hi
    · exact hl

/-- **An exchange keeps the back indices.** -/
theorem HeapMem.Back.swapIx {s : HeapMem Mem Ptr} {n i j : ℕ} (h : s.Back n)
    (hs : s.heap.swap = swapServerState) (hi : i < n) (hj : j < n) :
    (s.swapIx i j).Back n := by
  have harr : (s.swapIx i j).heap.arr = s.heap.arr ∘ Equiv.swap i j := by
    have hslots : (s.heap.swap s.mem (s.heap.arr i) (s.heap.arr j)).2 =
        (s.heap.arr j, s.heap.arr i) := by
      rw [hs]
      rfl
    simp only [HeapMem.swapIx, hslots]
    exact update_update_eq_swap s.heap.arr i j
  have hmem : (s.swapIx i j).mem =
      (swapServerState s.mem (s.heap.arr i) (s.heap.arr j)).1 := by
    rw [← hs]
    rfl
  -- exchanging the pointers in memory is exchanging the slots
  have hcomm : ∀ l, l < n →
      Equiv.swap (s.heap.arr i) (s.heap.arr j) (s.heap.arr l) =
        s.heap.arr (Equiv.swap i j l) := by
    intro l hl
    rw [Equiv.swap_apply_def, Equiv.swap_apply_def]
    by_cases hli : l = i
    · rw [if_pos hli, if_pos (by rw [hli])]
    · rw [if_neg hli, if_neg fun heq => hli (h.injective hl hi heq)]
      by_cases hlj : l = j
      · rw [if_pos hlj, if_pos (by rw [hlj])]
      · rw [if_neg hlj, if_neg fun heq => hlj (h.injective hl hj heq)]
  intro l hl
  rw [harr, hmem, Function.comp_apply, swapServerState_heapIx,
    hcomm _ (swap_lt hi hj hl), Equiv.swap_apply_self]
  exact h l hl

theorem sameStates_swapIx {s : HeapMem Mem Ptr} (hs : s.heap.swap = swapServerState)
    (i j : ℕ) : SameStates s.mem (s.swapIx i j).mem := by
  have hmem : (s.swapIx i j).mem =
      (swapServerState s.mem (s.heap.arr i) (s.heap.arr j)).1 := by
    rw [← hs]
    rfl
  rw [hmem]
  exact swapServerState_same _ _ _

theorem SameStates.trans {a b c : Mem} (hab : SameStates a b) (hbc : SameStates b c) :
    SameStates a c :=
  fun p => ⟨(hbc p).1.trans (hab p).1, (hbc p).2.trans (hab p).2⟩

/-- What a sequence of exchanges keeps of the memory. -/
theorem Swaps.back {s t : HeapMem Mem Ptr} {n : ℕ} (h : Swaps s t)
    (hs : s.heap.swap = swapServerState) (hn : s.heap.size ≤ n) (hb : s.Back n) :
    t.Back n ∧ SameStates s.mem t.mem := by
  have hP : t.heap.swap = swapServerState ∧ t.heap.size ≤ n ∧ t.Back n ∧
      SameStates s.mem t.mem := by
    refine Swaps.preserves (P := fun t => t.heap.swap = swapServerState ∧
      t.heap.size ≤ n ∧ t.Back n ∧ SameStates s.mem t.mem) ?_ h
      ⟨hs, hn, hb, fun _ => ⟨rfl, rfl⟩⟩
    rintro u i j hi hj ⟨hu, hun, hub, hsame⟩
    exact ⟨hu, hun, hub.swapIx hu (by omega) (by omega),
      hsame.trans (sameStates_swapIx hu i j)⟩
  exact hP.2.2

/-! ## The invariant

Of each function that calls the heap there is one lemma with all that it does, as a structure
whose fields are read by name: `retimed`, `unheaped` and `removed`, `created`, and `handled` for a
whole round of `update_state`.  No proof behind this section unfolds one of them. -/

/-- **The heap holds the live connections**, and they know where.  `back` says that each stored
pointer finds its own slot in `heap_ix`, which is what makes a call with `s->heap_ix` a call about
`s`; `ordered` is the order of a heap, by the deadlines. -/
structure HeapInv (srv : Server) : Prop where
  compare_eq : srv.heap.compare = compareServerState
  swap_eq : srv.heap.swap = swapServerState
  size_le : srv.heap.size ≤ srv.heap.capacity
  /-- Every live connection exactly once, and nothing else. -/
  elems : srv.elems = srv.allocated.val
  back : srv.toHeapMem.Back srv.heap.size
  ordered : Ordered (srv.keys tsKey) srv.heap.size

section Ops

variable {srv srv' : Server} {p : Ptr}

theorem HeapInv.wf (h : HeapInv srv) : HeapWf tsKey srv.toHeapMem :=
  ⟨lawful_server h.compare_eq h.swap_eq, h.ordered⟩

/-- A live connection stands at its `heap_ix`. -/
theorem HeapInv.entry_eq (h : HeapInv srv) (hp : p ∈ srv.allocated) :
    (srv.mem p).heapIx < srv.heap.size ∧ srv.heap.arr (srv.mem p).heapIx = p := by
  have hmem : p ∈ srv.elems := by
    rw [h.elems]
    exact hp
  obtain ⟨i, hi, rfl⟩ := mem_contents.mp hmem
  rw [h.back i hi]
  exact ⟨hi, rfl⟩

theorem HeapInv.entry (h : HeapInv srv) (hp : p ∈ srv.allocated) :
    srv.entry p = some p := by
  obtain ⟨hlt, harr⟩ := h.entry_eq hp
  rw [Server.entry, if_pos hlt, harr]

theorem HeapInv.mem_allocated (h : HeapInv srv) {i : ℕ} (hi : i < srv.heap.size) :
    srv.heap.arr i ∈ srv.allocated := by
  have hmem : srv.heap.arr i ∈ srv.elems := mem_contents.mpr ⟨i, hi, rfl⟩
  rw [h.elems] at hmem
  exact hmem

/-- Nothing matters but the heap, what is allocated, and the deadlines and back
indices there. -/
theorem HeapInv.congr_of_mem (h : HeapInv srv) (hheap : srv'.heap = srv.heap)
    (halloc : srv'.allocated = srv.allocated)
    (hmem : ∀ q ∈ srv.allocated, (srv'.mem q).ts = (srv.mem q).ts ∧
      (srv'.mem q).heapIx = (srv.mem q).heapIx) : HeapInv srv' := by
  refine ⟨?_, ?_, ?_, ?_, fun i hi => ?_, ?_⟩
  · rw [hheap, h.compare_eq]
  · rw [hheap, h.swap_eq]
  · rw [hheap]
    exact h.size_le
  · rw [HeapMem.elems, hheap, halloc]
    exact h.elems
  · rw [hheap] at hi ⊢
    rw [(hmem _ (h.mem_allocated hi)).2]
    exact h.back i hi
  · rw [hheap]
    refine h.ordered.congr fun i hi => ?_
    rw [HeapMem.keys, HeapMem.keys, hheap, tsKey, (hmem _ (h.mem_allocated hi)).1]
    rfl

theorem HeapInv.congr (h : HeapInv srv) (hheap : srv'.heap = srv.heap)
    (halloc : srv'.allocated = srv.allocated)
    (hmem : ∀ q, (srv'.mem q).ts = (srv.mem q).ts ∧
      (srv'.mem q).heapIx = (srv.mem q).heapIx) : HeapInv srv' :=
  h.congr_of_mem hheap halloc fun q _ => hmem q

/-- What `update_server_state_ts` does, and what it leaves alone: one deadline is set from the
clock and the phase, the heap is put in order again, and that is all. -/
structure Retimed (p : Ptr) (srv srv' : Server) : Prop where
  inv : HeapInv srv'
  conn : ∀ q, (srv'.mem q).toConnState = (srv.mem q).toConnState
  ts_ne : ∀ q, q ≠ p → (srv'.mem q).ts = (srv.mem q).ts
  ts_self : (srv'.mem p).ts = updateTs srv.kernel.clock.head (srv.mem p).op
  allocated : srv'.allocated = srv.allocated
  zodiacPrognosises : srv'.zodiacPrognosises = srv.zodiacPrognosises
  epoll : srv'.epoll = srv.epoll
  kernel : srv'.kernel = { srv.kernel with clock := srv.kernel.clock.tail }
  trace : srv'.trace = srv.trace ++ [.heapCall p (some p)]

/-- **A new deadline**: the key at one index has changed, and the update repairs the
heap at that index. -/
theorem HeapInv.retimed (h : HeapInv srv) (hp : p ∈ srv.allocated) :
    Retimed p srv (updateServerStateTs p srv) := by
  obtain ⟨hlt, harr⟩ := h.entry_eq hp
  obtain ⟨s', hs'⟩ : ∃ s' : ServerState, s' = { srv.mem p with
      ts := updateTs srv.kernel.clock.head (srv.mem p).op } := ⟨_, rfl⟩
  obtain ⟨u, hu⟩ : ∃ u, u = ((getCurTime srv).2.store p s').toHeapMem := ⟨_, rfl⟩
  have humem : u.mem = Function.update srv.mem p s' := by rw [hu]; rfl
  have huheap : u.heap = srv.heap := by rw [hu]; rfl
  have hix : ∀ q, (u.mem q).heapIx = (srv.mem q).heapIx := by
    intro q
    rw [humem]
    by_cases hq : q = p
    · rw [hq, Function.update_self, hs']
    · rw [Function.update_of_ne hq]
  have hconn : ∀ q, (u.mem q).toConnState = (srv.mem q).toConnState := by
    intro q
    rw [humem]
    by_cases hq : q = p
    · rw [hq, Function.update_self, hs']
    · rw [Function.update_of_ne hq]
  have hres : updateServerStateTs p srv =
      { ((getCurTime srv).2.store p s').log (.heapCall p (some p)) with
        toHeapMem := binaryHeapUpdate u (srv.mem p).heapIx } := by
    have hentry : Server.entry ((getCurTime srv).2.store p s') p = some p := by
      have hix' : (((getCurTime srv).2.store p s').mem p).heapIx = (srv.mem p).heapIx := by
        rw [← hix p, hu]
      rw [Server.entry, hix']
      exact (if_pos hlt).trans (congrArg some harr)
    rw [updateServerStateTs, ← hix p, hu, ← hentry, hs']
    rfl
  have hchange : KeyChange tsKey srv.toHeapMem u (srv.mem p).heapIx := by
    refine ⟨by rw [huheap], by rw [huheap], by rw [huheap], by rw [huheap],
      fun i _ _ => by rw [huheap], fun i hi hne => ?_⟩
    have hne' : srv.heap.arr i ≠ p := by
      intro heq
      rw [← heq, h.back i hi] at hne
      exact hne rfl
    show accumTimeNs (u.mem (u.heap.arr i)).ts = accumTimeNs (srv.mem (srv.heap.arr i)).ts
    rw [huheap, humem, Function.update_of_ne hne']
  have hback : u.Back u.heap.size := by
    intro i hi
    rw [hix, huheap]
    rw [huheap] at hi
    exact h.back i hi
  obtain ⟨hwf, hsw, helems⟩ := h.wf.update hlt hchange
  obtain ⟨hback', hsame⟩ := hsw.back (by rw [huheap, h.swap_eq]) (Nat.le_refl _) hback
  rw [hres]
  refine ⟨⟨?_, ?_, ?_, ?_, ?_, ?_⟩, fun q => (hsame q).1.trans (hconn q), fun q hq => ?_,
    ?_, rfl, rfl, rfl, rfl, rfl⟩
  · exact hsw.compare_eq.trans (by rw [huheap, h.compare_eq])
  · exact hsw.swap_eq.trans (by rw [huheap, h.swap_eq])
  · rw [show _ = u.heap.capacity from hsw.capacity_eq,
      show _ = u.heap.size from hsw.size_eq, huheap]
    exact h.size_le
  · refine helems.trans (Eq.trans ?_ h.elems)
    rw [HeapMem.elems, HeapMem.elems, huheap]
  · exact hsw.size_eq.symm ▸ hback'
  · exact hwf.ordered
  · refine (hsame q).2.trans ?_
    rw [humem, Function.update_of_ne hq]
  · refine (hsame p).2.trans ?_
    rw [humem, Function.update_self, hs']

/-- A removal by index, and what it leaves alone.  The heap is in order for the process without
`p`, which is destroyed next. -/
structure Unheaped (p : Ptr) (srv srv' : Server) : Prop where
  inv : HeapInv (destroyServerState p srv')
  same : SameStates srv.mem srv'.mem
  allocated : srv'.allocated = srv.allocated
  zodiacPrognosises : srv'.zodiacPrognosises = srv.zodiacPrognosises
  epoll : srv'.epoll = srv.epoll
  kernel : srv'.kernel = srv.kernel
  trace : srv'.trace = srv.trace ++ [.heapCall p (some p)]

/-- **A removal takes out the connection it is meant for**, and does not fail: `heap_ix` is the
index of a slot, and the slot has this connection. -/
theorem HeapInv.unheaped (h : HeapInv srv) (hp : p ∈ srv.allocated) :
    (heapRemove p srv).1 = p ∧ Unheaped p srv (heapRemove p srv).2 := by
  obtain ⟨hlt, harr⟩ := h.entry_eq hp
  obtain ⟨hret, helem, hwf, hcont⟩ := h.wf.remove hlt p
  have hsw := swaps_binaryHeapRemove hlt p
  rw [harr] at helem hcont
  have hentry := h.entry hp
  have hres : heapRemove p srv = (p, { srv.log (.heapCall p (some p)) with
      toHeapMem := (binaryHeapRemove srv.toHeapMem (srv.mem p).heapIx p).2.1 }) := by
    rw [heapRemove, hret, helem, hentry]
    rfl
  obtain ⟨hc, hs, hcap, hsize, hback, hsame⟩ :
      (binaryHeapRemove srv.toHeapMem (srv.mem p).heapIx p).2.1.heap.compare =
          srv.heap.compare ∧
        (binaryHeapRemove srv.toHeapMem (srv.mem p).heapIx p).2.1.heap.swap =
          srv.heap.swap ∧
        (binaryHeapRemove srv.toHeapMem (srv.mem p).heapIx p).2.1.heap.capacity =
          srv.heap.capacity ∧
        (binaryHeapRemove srv.toHeapMem (srv.mem p).heapIx p).2.1.heap.size =
          srv.heap.size - 1 ∧
        (binaryHeapRemove srv.toHeapMem (srv.mem p).heapIx p).2.1.Back
          (srv.heap.size - 1) ∧
        SameStates srv.mem
          (binaryHeapRemove srv.toHeapMem (srv.mem p).heapIx p).2.1.mem := by
    rcases hsw with heq | ⟨hlast, hsw⟩
    · rw [heq]
      exact ⟨rfl, rfl, rfl, rfl, h.back.mono (Nat.sub_le _ _), fun _ => ⟨rfl, rfl⟩⟩
    · have hdrop : (srv.dropIx (srv.mem p).heapIx).Back srv.heap.size :=
        HeapMem.Back.swapIx h.back h.swap_eq hlt (by omega)
      have hsame : SameStates srv.mem (srv.dropIx (srv.mem p).heapIx).mem :=
        sameStates_swapIx (s := { srv.toHeapMem with
          heap := { srv.heap with size := srv.heap.size - 1 } }) h.swap_eq _ _
      obtain ⟨hback, hsame'⟩ := hsw.back h.swap_eq (Nat.sub_le _ _) hdrop
      exact ⟨hsw.compare_eq, hsw.swap_eq, hsw.capacity_eq, hsw.size_eq,
        hback.mono (Nat.sub_le _ _), hsame.trans hsame'⟩
  have hle := h.size_le
  rw [hres]
  refine ⟨rfl, ⟨hc.trans h.compare_eq, hs.trans h.swap_eq, ?_, ?_, ?_, hwf.ordered⟩,
    hsame, rfl, rfl, rfl, rfl, rfl⟩
  · show (binaryHeapRemove srv.toHeapMem (srv.mem p).heapIx p).2.1.heap.size ≤
      (binaryHeapRemove srv.toHeapMem (srv.mem p).heapIx p).2.1.heap.capacity
    omega
  · show (binaryHeapRemove srv.toHeapMem (srv.mem p).heapIx p).2.1.elems =
      srv.allocated.val.erase p
    have helems := h.elems
    rw [hcont] at helems
    rw [← helems, Multiset.erase_cons_head]
  · exact hsize.symm ▸ hback

/-- What `remove_server_state` does, and what it leaves alone: the connection is not live any
more, its descriptor is not watched, and the states of the others are the same. -/
structure Removed (p : Ptr) (srv srv' : Server) : Prop where
  inv : HeapInv srv'
  same : SameStates srv.mem srv'.mem
  allocated : srv'.allocated = srv.allocated.erase p
  zodiacPrognosises : srv'.zodiacPrognosises = srv.zodiacPrognosises
  epoll : srv'.epoll = Function.update srv.epoll (srv.mem p).intermBuf.fd none
  recvs : srv'.kernel.recvs = srv.kernel.recvs
  sends : srv'.kernel.sends = srv.kernel.sends
  clock : srv'.kernel.clock = srv.kernel.clock
  trace : srv'.trace = srv.trace ++ [.removed p, .heapCall p (some p)]

/-- What `configure_epoll` does, and what it leaves alone: one descriptor is watched
in another way, or as before. -/
structure Watched (fd : Fd) (events : Option EpollEvent) (srv : Server) (ret : ℤ)
    (srv' : Server) : Prop where
  toHeapMem : srv'.toHeapMem = srv.toHeapMem
  allocated : srv'.allocated = srv.allocated
  zodiacPrognosises : srv'.zodiacPrognosises = srv.zodiacPrognosises
  epoll : srv'.epoll = srv.epoll ∨
    ret = 0 ∧ srv'.epoll = Function.update srv.epoll fd events
  recvs : srv'.kernel.recvs = srv.kernel.recvs
  sends : srv'.kernel.sends = srv.kernel.sends
  clock : srv'.kernel.clock = srv.kernel.clock
  trace : srv'.trace = srv.trace

theorem watched_configureEpoll (op : EpollCtl) (fd : Fd) (events : UInt32)
    (ptr : Option Ptr) (srv : Server) :
    Watched fd (if op = .del then none else some ⟨events, ptr⟩) srv
      (configureEpoll op fd events ptr srv).1 (configureEpoll op fd events ptr srv).2 := by
  unfold configureEpoll
  by_cases hf : srv.kernel.ctlFails.head
  · rw [if_pos hf]
    exact ⟨rfl, rfl, rfl, Or.inl rfl, rfl, rfl, rfl, rfl⟩
  · rw [if_neg hf]
    exact ⟨rfl, rfl, rfl, Or.inr ⟨rfl, rfl⟩, rfl, rfl, rfl, rfl⟩

theorem configureEpoll_epoll {op : EpollCtl} {fd : Fd} {events : UInt32} {ptr : Option Ptr}
    (h : (configureEpoll op fd events ptr srv).1 = 0) :
    (configureEpoll op fd events ptr srv).2.epoll =
      Function.update srv.epoll fd (if op = .del then none else some ⟨events, ptr⟩) := by
  unfold configureEpoll at h ⊢
  by_cases hf : srv.kernel.ctlFails.head
  · rw [if_pos hf] at h
    exact absurd h (by decide : ¬ (-1 : ℤ) = 0)
  · rw [if_neg hf]

theorem Watched.inv {fd : Fd} {events : Option EpollEvent} {ret : ℤ}
    (hw : Watched fd events srv ret srv') (h : HeapInv srv) : HeapInv srv' :=
  h.congr (congrArg HeapMem.heap hw.toHeapMem) hw.allocated fun q => by
    rw [hw.toHeapMem]
    exact ⟨rfl, rfl⟩

theorem HeapInv.removed (h : HeapInv srv) (hp : p ∈ srv.allocated) :
    Removed p srv (removeServerState p srv) := by
  have hw := watched_configureEpoll .del (srv.mem p).intermBuf.fd 0 none
    (srv.log (.removed p))
  obtain ⟨w, hweq⟩ : ∃ w, w = (configureEpoll .del (srv.mem p).intermBuf.fd 0 none
    (srv.log (.removed p))).2 := ⟨_, rfl⟩
  rw [← hweq] at hw
  have hinv : HeapInv w := hw.inv (h.congr rfl rfl fun _ => ⟨rfl, rfl⟩)
  have hmem : w.mem = srv.mem := congrArg HeapMem.mem hw.toHeapMem
  obtain ⟨hfst, hun⟩ := hinv.unheaped (hw.allocated ▸ hp)
  have hres : removeServerState p srv =
      closeFd (srv.mem p).intermBuf.fd (destroyServerState p (heapRemove p w).2) := by
    rw [removeServerState, ← hweq, hfst]
  have hwatch : Function.update w.epoll (srv.mem p).intermBuf.fd none =
      Function.update srv.epoll (srv.mem p).intermBuf.fd none := by
    rcases hw.epoll with heq | ⟨-, heq⟩
    · rw [heq]
      rfl
    · rw [heq]
      exact Function.update_idem _ _ _
  rw [hres]
  refine ⟨hun.inv.congr rfl rfl fun _ => ⟨rfl, rfl⟩, hmem ▸ hun.same, ?_,
    hun.zodiacPrognosises.trans hw.zodiacPrognosises, ?_,
    (congrArg Kernel.recvs hun.kernel).trans hw.recvs,
    (congrArg Kernel.sends hun.kernel).trans hw.sends,
    (congrArg Kernel.clock hun.kernel).trans hw.clock, ?_⟩
  · show (heapRemove p w).2.allocated.erase p = _
    rw [hun.allocated, hw.allocated]
    rfl
  · show Function.update (heapRemove p w).2.epoll (srv.mem p).intermBuf.fd none = _
    rw [hun.epoll, hwatch]
  · show (heapRemove p w).2.trace = _
    rw [hun.trace, hw.trace]
    exact List.append_assoc _ _ _

/-- What a successful or failed `create_server_state` does for a new address.  When it fails no
connection has been added, and the heap is in order in either case. -/
structure Created (fd : Fd) (p : Ptr) (raw : ServerState) (srv : Server)
    (r : ℤ × Server) : Prop where
  inv : HeapInv r.2
  same : ∀ q, q ≠ p → (r.2.mem q).toConnState = (srv.mem q).toConnState ∧
    (r.2.mem q).ts = (srv.mem q).ts
  allocated : r.2.allocated = if r.1 = 0 then insert p srv.allocated else srv.allocated
  conn : r.1 = 0 → (r.2.mem p).toConnState = raw.toConnState.create fd
  ts : r.1 = 0 → (r.2.mem p).ts = updateTs srv.kernel.clock.head opRead
  epoll : r.2.epoll =
    if r.1 = 0 then Function.update srv.epoll fd (some ⟨epollIn, some p⟩) else srv.epoll
  zodiacPrognosises : r.2.zodiacPrognosises = srv.zodiacPrognosises
  trace : r.2.trace = srv.trace ∨ r.2.trace = srv.trace ++ [.heapCall p (some p)]

/-- A structure that is not in use is written, and then it is in use. -/
def Server.adopt (srv : Server) (p : Ptr) (s : ServerState) : Server :=
  { srv.store p s with allocated := insert p srv.allocated }

theorem Server.adopt_mem_ne {q : Ptr} (hq : q ≠ p) (s : ServerState) :
    (srv.adopt p s).mem q = srv.mem q :=
  Function.update_of_ne hq _ _

/-- A push behind the last entry, where `heap_ix` says. -/
theorem HeapInv.pushed (h : HeapInv srv) (hp : p ∉ srv.allocated) {s : ServerState}
    (hix : s.heapIx = srv.heap.size) (hroom : srv.heap.size < srv.heap.capacity) :
    (binaryHeapPush (srv.adopt p s).toHeapMem p).1 = 0 ∧
    HeapInv { srv.adopt p s with
      toHeapMem := (binaryHeapPush (srv.adopt p s).toHeapMem p).2 } ∧
    SameStates (srv.adopt p s).mem (binaryHeapPush (srv.adopt p s).toHeapMem p).2.mem := by
  have hne : ∀ i, i < srv.heap.size → srv.heap.arr i ≠ p :=
    fun i hi heq => hp (heq ▸ h.mem_allocated hi)
  have hold : ∀ i, i < srv.heap.size →
      (srv.adopt p s).mem (srv.heap.arr i) = srv.mem (srv.heap.arr i) :=
    fun i hi => Server.adopt_mem_ne (hne i hi) s
  have hself : (srv.adopt p s).mem p = s := Function.update_self _ _ _
  have hwf : HeapWf tsKey (srv.adopt p s).toHeapMem := by
    refine ⟨lawful_server h.compare_eq h.swap_eq, h.ordered.congr fun i hi => ?_⟩
    exact congrArg (fun s : ServerState => accumTimeNs s.ts) (hold i hi)
  have hback : ((srv.adopt p s).toHeapMem.append p).Back (srv.heap.size + 1) := by
    intro i hi
    show ((srv.adopt p s).mem (Function.update srv.heap.arr srv.heap.size p i)).heapIx = i
    by_cases hlast : i = srv.heap.size
    · rw [hlast, Function.update_self, hself, hix]
    · have hlt : i < srv.heap.size := by omega
      rw [Function.update_of_ne hlast, hold i hlt, h.back i hlt]
  obtain ⟨hret, hwf', hsw, helems⟩ := hwf.push hroom p
  obtain ⟨hback', hsame⟩ := hsw.back h.swap_eq (Nat.le_refl _) hback
  have hsize : (binaryHeapPush (srv.adopt p s).toHeapMem p).2.heap.size =
      srv.heap.size + 1 := hsw.size_eq
  refine ⟨hret, ⟨hsw.compare_eq.trans h.compare_eq, hsw.swap_eq.trans h.swap_eq, ?_, ?_,
    hsize.symm ▸ hback', hwf'.ordered⟩, hsame⟩
  · show (binaryHeapPush (srv.adopt p s).toHeapMem p).2.heap.size ≤ _
    rw [hsize, hsw.capacity_eq]
    exact hroom
  · refine helems.trans ?_
    show p ::ₘ srv.elems = (insert p srv.allocated).val
    rw [h.elems, Finset.insert_val_of_notMem hp]

/-- The structure `create_server_state` fills in. -/
def Server.newState (srv : Server) (fd : Fd) (raw : ServerState) : ServerState :=
  { raw.toConnState.create fd with
    heapIx := srv.heap.size
    ts := updateTs srv.kernel.clock.head opRead }

/-- **A new connection** is pushed behind the last entry, where its `heap_ix` says it
is; if `epoll` will not watch it, it is removed again. -/
theorem HeapInv.created (h : HeapInv srv) (hp : p ∉ srv.allocated) (fd : Fd)
    (raw : ServerState) :
    Created fd p raw srv (createServerState fd (some (p, raw)) srv) := by
  have hneg : ¬ (-1 : ℤ) = 0 := by decide
  have hinv : HeapInv (getCurTime srv).2 := h.congr rfl rfl fun _ => ⟨rfl, rfl⟩
  obtain ⟨a, ha⟩ : ∃ a, a = (getCurTime srv).2.adopt p (srv.newState fd raw) := ⟨_, rfl⟩
  have hadopt : ∀ q, q ≠ p → a.mem q = srv.mem q := by
    intro q hq
    rw [ha, Server.adopt_mem_ne hq]
    rfl
  have hself : a.mem p = srv.newState fd raw := by
    rw [ha]
    exact Function.update_self _ _ _
  have halloc : a.allocated = insert p srv.allocated := by rw [ha]; rfl
  have herase : (insert p srv.allocated).erase p = srv.allocated :=
    Finset.erase_insert hp
  have hres : createServerState fd (some (p, raw)) srv =
      if (binaryHeapPush a.toHeapMem p).1 ≠ 0 then
        (-1, destroyServerState p { a with toHeapMem := (binaryHeapPush a.toHeapMem p).2 })
      else
        let added := configureEpoll .add fd epollIn (some p)
          { a with toHeapMem := (binaryHeapPush a.toHeapMem p).2 }
        if added.1 ≠ 0 then
          (-1, destroyServerState (heapRemove p added.2).1 (heapRemove p added.2).2)
        else (0, added.2) := by
    rw [ha]
    rfl
  rw [hres]
  by_cases hroom : srv.heap.size < srv.heap.capacity
  · obtain ⟨hret, hpinv, hsame⟩ := hinv.pushed hp
      (s := srv.newState fd raw) rfl hroom
    rw [← ha] at hret hpinv hsame
    obtain ⟨b, hb⟩ : ∃ b : Server,
      b = { a with toHeapMem := (binaryHeapPush a.toHeapMem p).2 } := ⟨_, rfl⟩
    have hballoc : b.allocated = insert p srv.allocated := by rw [hb]; exact halloc
    have hw := watched_configureEpoll .add fd epollIn (some p) b
    rw [← hb] at hpinv ⊢
    rw [if_neg (not_not.mpr hret)]
    simp only
    obtain ⟨w, hweq⟩ : ∃ w, w = configureEpoll .add fd epollIn (some p) b := ⟨_, rfl⟩
    rw [← hweq] at hw ⊢
    have hwinv : HeapInv w.2 := hw.inv hpinv
    have hwp : p ∈ w.2.allocated := by
      rw [hw.allocated, hballoc]
      exact Finset.mem_insert_self p _
    have hwsame : SameStates a.mem w.2.mem := by
      rw [show w.2.mem = b.mem from congrArg HeapMem.mem hw.toHeapMem, hb]
      exact hsame
    have hkeep : ∀ q, q ≠ p → (w.2.mem q).toConnState = (srv.mem q).toConnState ∧
        (w.2.mem q).ts = (srv.mem q).ts := by
      intro q hq
      rw [(hwsame q).1, (hwsame q).2, hadopt q hq]
      exact ⟨rfl, rfl⟩
    have htable : w.2.zodiacPrognosises = srv.zodiacPrognosises := by
      rw [hw.zodiacPrognosises, hb, ha]
      rfl
    have htrace : w.2.trace = srv.trace := by
      rw [hw.trace, hb, ha]
      rfl
    have hepoll : b.epoll = srv.epoll := by
      rw [hb, ha]
      rfl
    by_cases hadd : w.1 = 0
    · rw [if_neg (not_not.mpr hadd)]
      refine ⟨hwinv, hkeep, ?_, fun _ => ?_, fun _ => ?_, ?_, htable, Or.inl htrace⟩
      · rw [if_pos rfl, hw.allocated, hballoc]
      · rw [(hwsame p).1, hself]
        rfl
      · rw [(hwsame p).2, hself]
        rfl
      · have hwatch : w.2.epoll = _ := hweq ▸ configureEpoll_epoll (hweq ▸ hadd)
        rw [if_pos rfl, hwatch, hepoll, if_neg (by decide)]
    · obtain ⟨hfst, hun⟩ := hwinv.unheaped hwp
      have hepoll' : w.2.epoll = srv.epoll := by
        rcases hw.epoll with heq | ⟨hzero, -⟩
        · exact heq.trans hepoll
        · exact absurd hzero hadd
      rw [if_pos hadd, hfst]
      refine ⟨hun.inv, fun q hq => ?_, ?_, fun h => absurd h hneg,
        fun h => absurd h hneg, (hun.epoll.trans hepoll').trans (if_neg hneg).symm,
        hun.zodiacPrognosises.trans htable, Or.inr ?_⟩
      · exact ⟨(hun.same q).1.trans (hkeep q hq).1, (hun.same q).2.trans (hkeep q hq).2⟩
      · rw [if_neg hneg]
        show (heapRemove p w.2).2.allocated.erase p = _
        rw [hun.allocated, hw.allocated, hballoc, herase]
      · show (heapRemove p w.2).2.trace = _
        rw [hun.trace, htrace]
  · have hfull : binaryHeapPush a.toHeapMem p = (-1, a.toHeapMem) := by
      refine binaryHeapPush_of_full ?_ p
      rw [ha]
      exact Nat.le_of_not_lt hroom
    rw [hfull, if_pos hneg]
    refine ⟨h.congr_of_mem (by rw [ha]; rfl) ?_ fun q hq => ?_, fun q hq => ?_, ?_,
      fun h => absurd h hneg, fun h => absurd h hneg, ?_, ?_, Or.inl ?_⟩
    · show a.allocated.erase p = _
      rw [halloc, herase]
    · show (a.mem q).ts = _ ∧ (a.mem q).heapIx = _
      rw [hadopt q fun heq => hp (heq ▸ hq)]
      exact ⟨rfl, rfl⟩
    · show (a.mem q).toConnState = _ ∧ (a.mem q).ts = _
      rw [hadopt q hq]
      exact ⟨rfl, rfl⟩
    · rw [if_neg hneg]
      show a.allocated.erase p = _
      rw [halloc, herase]
    · rw [if_neg hneg, ha]
      rfl
    · show a.zodiacPrognosises = _
      rw [ha]
      rfl
    · show a.trace = _
      rw [ha]
      rfl

/-- What one round of `update_state` does, and what it leaves alone.  The connection is what
`handleState` makes of it; its deadline is set when the handler asks for it; the rest of the
process is untouched.  The rounds of a loop are chained by this alone. -/
structure Handled (p : Ptr) (srv srv' : Server) : Prop where
  inv : HeapInv srv'
  conn_ne : ∀ q, q ≠ p → (srv'.mem q).toConnState = (srv.mem q).toConnState ∧
    (srv'.mem q).ts = (srv.mem q).ts
  conn : (srv'.mem p).toConnState = (handleState (srv.ctx p)).1.s
  ts : (srv'.mem p).ts =
    if (handleState (srv.ctx p)).2 = .done then (srv.mem p).ts
    else updateTs srv.kernel.clock.head (srv'.mem p).op
  allocated : srv'.allocated = srv.allocated
  zodiacPrognosises :
    srv'.zodiacPrognosises = (handleState (srv.ctx p)).1.zodiacPrognosises
  epoll : srv'.epoll = srv.epoll
  recvs : srv'.kernel.recvs = (handleState (srv.ctx p)).1.io.recvs
  sends : srv'.kernel.sends = (handleState (srv.ctx p)).1.io.sends
  clock : srv'.kernel.clock = srv.kernel.clock ∨
    srv'.kernel.clock = srv.kernel.clock.tail
  trace : ∃ calls, srv'.trace = srv.trace ++
      (handleState (srv.ctx p)).1.io.trace.map (.conn p) ++ calls ∧
    ∀ e ∈ calls, e = .heapCall p (some p)

theorem Server.withCtx_mem_self (srv : Server) (p : Ptr) (c : Ctx) :
    (srv.withCtx p c).mem p = { srv.mem p with toConnState := c.s } :=
  Function.update_self _ _ _

theorem Server.withCtx_mem_ne {q : Ptr} (hq : q ≠ p) (c : Ctx) :
    (srv.withCtx p c).mem q = srv.mem q :=
  Function.update_of_ne hq _ _

/-- A handler does not touch what the heap is about. -/
theorem HeapInv.withCtx (h : HeapInv srv) (c : Ctx) : HeapInv (srv.withCtx p c) := by
  refine h.congr rfl rfl fun q => ?_
  by_cases hq : q = p
  · rw [hq, Server.withCtx_mem_self]
    exact ⟨rfl, rfl⟩
  · rw [Server.withCtx_mem_ne hq]
    exact ⟨rfl, rfl⟩

/-- **One round of `update_state`.**  The handler works on one connection and on the table; if it
gives a new deadline the heap is updated at the index of the connection. -/
theorem HeapInv.handled (h : HeapInv srv) (hp : p ∈ srv.allocated) :
    Handled p srv (runHandler p srv) := by
  have hself := srv.withCtx_mem_self p (handleState (srv.ctx p)).1
  have hne : ∀ q, q ≠ p → (srv.withCtx p (handleState (srv.ctx p)).1).mem q = srv.mem q :=
    fun q hq => Server.withCtx_mem_ne hq _
  have hinv : HeapInv (srv.withCtx p (handleState (srv.ctx p)).1) := h.withCtx _
  cases hafter : (handleState (srv.ctx p)).2 with
  | done =>
    have hres : runHandler p srv = srv.withCtx p (handleState (srv.ctx p)).1 := by
      simp only [runHandler, hafter]
    rw [hres]
    refine ⟨hinv, fun q hq => ?_, ?_, ?_, rfl, rfl, rfl, rfl, rfl, Or.inl rfl,
      [], ?_, fun e he => absurd he List.not_mem_nil⟩
    · rw [hne q hq]
      exact ⟨rfl, rfl⟩
    · rw [hself]
    · rw [if_pos hafter, hself]
    · exact (List.append_nil _).symm
  | updateTs =>
    have hres : runHandler p srv =
        updateServerStateTs p (srv.withCtx p (handleState (srv.ctx p)).1) := by
      simp only [runHandler, hafter]
    rw [hres]
    have hre := hinv.retimed (p := p) hp
    refine ⟨hre.inv, fun q hq => ?_, ?_, ?_, hre.allocated, hre.zodiacPrognosises,
      hre.epoll, congrArg Kernel.recvs hre.kernel, congrArg Kernel.sends hre.kernel,
      Or.inr (congrArg Kernel.clock hre.kernel), [.heapCall p (some p)], hre.trace,
      fun e he => List.mem_singleton.mp he⟩
    · rw [hre.conn q, hre.ts_ne q hq, hne q hq]
      exact ⟨rfl, rfl⟩
    · rw [hre.conn p, hself]
    · rw [if_neg (by rw [hafter]; decide), hre.ts_self, hre.conn p]
      rfl

/-- The loop of `update_state` makes a round, and goes on or ends. -/
theorem updateStateLoop_cases {fuel : ℕ} (h : updateStateLoop p fuel srv = some srv') :
    (∃ n, fuel = n + 1 ∧ ((runHandler p srv).mem p).goesOn = true ∧
        updateStateLoop p n (runHandler p srv) = some srv') ∨
      ((runHandler p srv).mem p).goesOn = false ∧ srv' = runHandler p srv := by
  cases fuel with
  | zero => cases h
  | succ n =>
    rw [updateStateLoop] at h
    cases hg : ((runHandler p srv).mem p).goesOn with
    | true =>
      rw [hg] at h
      exact .inl ⟨n, rfl, rfl, h⟩
    | false =>
      rw [hg] at h
      exact .inr ⟨rfl, (Option.some.inj h).symm⟩

/-- What holds after every round holds when the loop of `update_state` ends. -/
theorem updateStateLoop_preserves {P : Server → Prop}
    (hP : ∀ srv, P srv → P (runHandler p srv)) {fuel : ℕ}
    (h : updateStateLoop p fuel srv = some srv') (hs : P srv) : P srv' := by
  induction fuel generalizing srv with
  | zero => cases h
  | succ fuel ih =>
    rcases updateStateLoop_cases h with ⟨n, hn, -, hloop⟩ | ⟨-, rfl⟩
    · rw [← Nat.succ.inj hn] at hloop
      exact ih hloop (hP srv hs)
    · exact hP srv hs

end Ops

/-! ## Descriptors

No handler changes the descriptor of its connection.  It is a fact about each of the functions
that a handler calls, and from it follows that what `epoll` watches stays right. -/

theorem copyUntilDelim_fd (buf : Buffer) (dst : CharArray) (off n : ℕ) (delim : Byte) :
    (copyUntilDelim buf dst off n delim).2.1.fd = buf.fd := rfl

theorem bufferedRecvUntilDelim_fd (buf : Buffer) (dst : CharArray) (off n : ℕ)
    (delim : Byte) (io : Io) :
    (bufferedRecvUntilDelim buf dst off n delim io).1.2.1.fd = buf.fd := by
  unfold bufferedRecvUntilDelim
  by_cases hempty : buf.pos = buf.len
  · rw [if_pos hempty]
    simp only
    split <;> rfl
  · rw [if_neg hempty, copyUntilDelim_fd]

theorem parseStarFirstLine_fd (c : Ctx) :
    (parseStarFirstLine c).1.s.intermBuf = c.s.intermBuf := by
  unfold parseStarFirstLine
  simp only
  split <;> rfl

theorem parseClientFirstLine_fd (c : Ctx) :
    (parseClientFirstLine c).1.s.intermBuf = c.s.intermBuf := by
  unfold parseClientFirstLine
  simp only
  split <;> rfl

theorem firstLineReceived_fd (c : Ctx) :
    (firstLineReceived c).1.s.intermBuf = c.s.intermBuf := by
  unfold firstLineReceived
  simp only
  split
  · split
    · exact parseStarFirstLine_fd c
    · split
      · exact parseClientFirstLine_fd c
      · rfl
  · split <;> rfl

theorem prognosisReceived_fd (c : Ctx) :
    (prognosisReceived c).1.s.intermBuf = c.s.intermBuf := by
  unfold prognosisReceived
  simp only
  split
  · rfl
  · split <;> rfl

/-- A connection keeps its descriptor. -/
theorem handleState_fd (c : Ctx) :
    (handleState c).1.s.intermBuf.fd = c.s.intermBuf.fd := by
  have hrecv := bufferedRecvUntilDelim_fd c.s.intermBuf c.s.buf c.s.curPos c.s.rem
    delimiter c.io
  have hsend : (handleSendReply c).1.s.intermBuf.fd = c.s.intermBuf.fd := by
    unfold handleSendReply
    simp only
    split
    · rfl
    · split <;> rfl
  unfold handleState
  cases c.s.state with
  | stateRecvFirstLine =>
    simp only
    unfold handleFirstLine
    simp only
    split
    · exact hrecv
    · split
      · exact hrecv
      · rw [firstLineReceived_fd]
        exact hrecv
  | stateRecvH =>
    simp only
    unfold handleRecvH
    simp only
    split
    · exact hrecv
    · split
      · exact hrecv
      · rw [prognosisReceived_fd]
        exact hrecv
  | stateSendThanks => exact hsend
  | stateSendH => exact hsend
  | stateError => rfl
  | stateSuccess => rfl

/-! ## Every step

The functions of the event loop, put together from those above.  The two loops, that of
`update_state` and that of `discard_expired_connections`, have a lemma each that makes an
invariant of one turn an invariant of the loop (`updateStateLoop_preserves`,
`discardLoop_preserves`); the later modules use these for their own invariants. -/

/-- The heap was called with the right index, and the removal did not fail. -/
def ServerEvent.Sound : ServerEvent → Prop
  | .heapCall s entry => entry = some s
  | .removeFailed _ => False
  | .conn _ _ => True
  | .connected _ => True
  | .removed _ => True

/-- The invariant of the process between two steps of `main`: the heap is in order, `epoll` points
to live connections only, and every call of the heap so far was made with the right index. -/
structure ServerInv (srv : Server) : Prop where
  heap : HeapInv srv
  /-- A watched pointer is a live connection with that descriptor. -/
  watch : ∀ fd mask p, srv.epoll fd = some ⟨mask, some p⟩ →
    p ∈ srv.allocated ∧ (srv.mem p).intermBuf.fd = fd
  sound : ∀ e ∈ srv.trace, e.Sound

section Steps

variable {srv srv' : Server} {p : Ptr}

theorem sound_append {es fs : List ServerEvent} (hes : ∀ e ∈ es, e.Sound)
    (hfs : ∀ e ∈ fs, e.Sound) : ∀ e ∈ es ++ fs, e.Sound :=
  fun e he => (List.mem_append.mp he).elim (hes e) (hfs e)

theorem ServerInv.withKernel (h : ServerInv srv) (k : Kernel) :
    ServerInv (srv.withKernel k) :=
  ⟨h.heap.congr rfl rfl fun _ => ⟨rfl, rfl⟩, h.watch, h.sound⟩

theorem ServerInv.getCurTime (h : ServerInv srv) : ServerInv (getCurTime srv).2 :=
  ⟨h.heap.congr rfl rfl fun _ => ⟨rfl, rfl⟩, h.watch, h.sound⟩

theorem minTimeout_eq (srv : Server) : (minTimeout srv).2.2 = (getCurTime srv).2 := by
  unfold minTimeout
  simp only
  split
  · split <;> rfl
  · rfl

theorem ServerInv.minTimeout (h : ServerInv srv) : ServerInv (minTimeout srv).2.2 := by
  rw [minTimeout_eq]
  exact h.getCurTime

theorem ServerInv.log (h : ServerInv srv) {e : ServerEvent} (he : e.Sound) :
    ServerInv (srv.log e) :=
  ⟨h.heap.congr rfl rfl fun _ => ⟨rfl, rfl⟩, h.watch,
    sound_append h.sound fun _ hf => List.mem_singleton.mp hf ▸ he⟩

theorem ServerInv.closeFd (h : ServerInv srv) (fd : Fd) : ServerInv (closeFd fd srv) := by
  refine ⟨h.heap.congr rfl rfl fun _ => ⟨rfl, rfl⟩, fun fd' mask p hw => ?_, h.sound⟩
  have hw' : Function.update srv.epoll fd none fd' = some ⟨mask, some p⟩ := hw
  by_cases hfd : fd' = fd
  · rw [hfd, Function.update_self] at hw'
    cases hw'
  · rw [Function.update_of_ne hfd] at hw'
    exact h.watch fd' mask p hw'

theorem ServerInv.runHandler (h : ServerInv srv) (hp : p ∈ srv.allocated) :
    ServerInv (runHandler p srv) ∧ (runHandler p srv).allocated = srv.allocated := by
  have hh := h.heap.handled hp
  obtain ⟨calls, htrace, hcalls⟩ := hh.trace
  refine ⟨⟨hh.inv, fun fd mask q hw => ?_, ?_⟩, hh.allocated⟩
  · rw [hh.epoll] at hw
    obtain ⟨hq, hfd⟩ := h.watch fd mask q hw
    refine ⟨hh.allocated.symm ▸ hq, ?_⟩
    by_cases hqp : q = p
    · rw [hqp, hh.conn, handleState_fd, ← hfd, hqp]
      rfl
    · rw [(hh.conn_ne q hqp).1, hfd]
  · rw [htrace]
    refine sound_append (sound_append h.sound fun e he => ?_) fun e he => ?_
    · obtain ⟨ce, -, rfl⟩ := List.mem_map.mp he
      trivial
    · rw [hcalls e he]
      rfl

theorem ServerInv.removed (h : ServerInv srv) (hp : p ∈ srv.allocated) :
    ServerInv (removeServerState p srv) := by
  have hr := h.heap.removed hp
  refine ⟨hr.inv, fun fd mask q hw => ?_, ?_⟩
  · rw [hr.epoll] at hw
    by_cases hfd : fd = (srv.mem p).intermBuf.fd
    · rw [hfd, Function.update_self] at hw
      cases hw
    · rw [Function.update_of_ne hfd] at hw
      obtain ⟨hq, hqfd⟩ := h.watch fd mask q hw
      have hqp : q ≠ p := fun heq => hfd (by rw [← hqfd, heq])
      rw [hr.allocated, (hr.same q).1]
      exact ⟨Finset.mem_erase.mpr ⟨hqp, hq⟩, hqfd⟩
  · rw [hr.trace]
    refine sound_append h.sound fun e he => ?_
    rcases List.mem_cons.mp he with rfl | he
    · trivial
    · rw [List.mem_singleton.mp he]
      rfl

/-- The connection is done for. -/
def ConnState.over (s : ConnState) : Prop := s.state = stateError ∨ s.state = stateSuccess

/-- Behind its loop `update_state` removes the connection, or at most has it watched
in another way. -/
theorem afterLoop_cases (initOp : FdOperation) (p : Ptr) (srv : Server) :
    ((srv.mem p).over ∧ afterLoop initOp p srv = (0, removeServerState p srv)) ∨
    (¬ (srv.mem p).over ∧ ∃ mask ret,
      Watched (srv.mem p).intermBuf.fd (some ⟨mask, some p⟩) srv ret
        (afterLoop initOp p srv).2) := by
  unfold afterLoop
  simp only
  by_cases hover : (srv.mem p).state = stateError ∨ (srv.mem p).state = stateSuccess
  · exact Or.inl ⟨hover, if_pos hover⟩
  · refine Or.inr ⟨hover, if (srv.mem p).op = opRead then epollIn else epollOut, ?_⟩
    rw [if_neg hover]
    by_cases hop : initOp ≠ (srv.mem p).op
    · have hw := watched_configureEpoll .mod (srv.mem p).intermBuf.fd
        (if (srv.mem p).op = opRead then epollIn else epollOut) (some p) srv
      rw [if_neg (by decide)] at hw
      rw [if_pos hop]
      by_cases hret : (configureEpoll .mod (srv.mem p).intermBuf.fd
          (if (srv.mem p).op = opRead then epollIn else epollOut) (some p) srv).1 ≠ 0
      · rw [if_pos hret]
        exact ⟨_, hw⟩
      · rw [if_neg hret]
        exact ⟨_, hw⟩
    · rw [if_neg hop]
      exact ⟨0, rfl, rfl, rfl, Or.inl rfl, rfl, rfl, rfl, rfl⟩

/-- What `update_state` leaves: the connection is there or it is gone. -/
theorem ServerInv.updateState (h : ServerInv srv) (hp : p ∈ srv.allocated) {fuel : ℕ}
    {r : ℤ × Server} (hr : updateState fuel p srv = some r) :
    ServerInv r.2 ∧
      (r.2.allocated = srv.allocated ∨ r.2.allocated = srv.allocated.erase p) := by
  obtain ⟨srv₁, hloop, rfl⟩ := Option.map_eq_some_iff.mp hr
  obtain ⟨hinv, halloc⟩ : ServerInv srv₁ ∧ srv₁.allocated = srv.allocated :=
    updateStateLoop_preserves
      (P := fun t => ServerInv t ∧ t.allocated = srv.allocated)
      (fun t ht =>
        have hstep := ht.1.runHandler (ht.2 ▸ hp)
        ⟨hstep.1, hstep.2.trans ht.2⟩) hloop ⟨h, rfl⟩
  have hp₁ : p ∈ srv₁.allocated := halloc.symm ▸ hp
  rcases afterLoop_cases (srv.mem p).op p srv₁ with ⟨-, heq⟩ | ⟨-, mask, ret, hw⟩
  · rw [heq]
    exact ⟨hinv.removed hp₁, Or.inr (halloc ▸ (hinv.heap.removed hp₁).allocated)⟩
  · have hmem := congrArg HeapMem.mem hw.toHeapMem
    refine ⟨⟨hw.inv hinv.heap, fun fd mask' q hq => ?_, hw.trace.symm ▸ hinv.sound⟩,
      Or.inl (hw.allocated.trans halloc)⟩
    rw [hw.allocated, hmem]
    rcases hw.epoll with heq | ⟨-, heq⟩
    · rw [heq] at hq
      exact hinv.watch fd mask' q hq
    · rw [heq] at hq
      by_cases hfd : fd = (srv₁.mem p).intermBuf.fd
      · rw [hfd, Function.update_self, Option.some.injEq, EpollEvent.mk.injEq,
          Option.some.injEq] at hq
        rw [hfd, ← hq.2]
        exact ⟨hp₁, rfl⟩
      · rw [Function.update_of_ne hfd] at hq
        exact hinv.watch fd mask' q hq

theorem binaryHeapTop_mem (h : HeapInv srv) (htop : binaryHeapTop srv.toHeapMem = some p) :
    p ∈ srv.allocated := by
  unfold binaryHeapTop at htop
  by_cases h0 : srv.heap.size = 0
  · rw [if_pos h0] at htop
    cases htop
  · rw [if_neg h0, Option.some.injEq] at htop
    exact htop ▸ h.mem_allocated (Nat.pos_of_ne_zero h0)

theorem setState_mem_self (srv : Server) (p : Ptr) (t : ServerStateType) :
    (srv.setState p t).mem p = { srv.mem p with state := t } :=
  Function.update_self _ _ _

theorem setState_mem_ne {q : Ptr} (hq : q ≠ p) (t : ServerStateType) :
    (srv.setState p t).mem q = srv.mem q :=
  Function.update_of_ne hq _ _

/-- A connection may be given another state. -/
theorem ServerInv.setState (h : ServerInv srv) (p : Ptr) (t : ServerStateType) :
    ServerInv (srv.setState p t) := by
  have hmem : ∀ q, ((srv.setState p t).mem q).ts = (srv.mem q).ts ∧
      ((srv.setState p t).mem q).heapIx = (srv.mem q).heapIx ∧
      ((srv.setState p t).mem q).intermBuf = (srv.mem q).intermBuf := by
    intro q
    by_cases hq : q = p
    · rw [hq, setState_mem_self]
      exact ⟨rfl, rfl, rfl⟩
    · rw [setState_mem_ne hq]
      exact ⟨rfl, rfl, rfl⟩
  refine ⟨h.heap.congr rfl rfl fun q => ⟨(hmem q).1, (hmem q).2.1⟩, fun fd mask q hq => ?_,
    h.sound⟩
  obtain ⟨hq', hfd⟩ := h.watch fd mask q hq
  exact ⟨hq', by rw [(hmem q).2.2, hfd]⟩

/-- No handler touches a connection that has been given up. -/
theorem runHandler_of_error (h : (srv.mem p).state = stateError) : runHandler p srv = srv := by
  have hstate : handleState (srv.ctx p) = (srv.ctx p, .done) := by
    have hs : (srv.ctx p).s.state = stateError := h
    rw [handleState, hs]
  have hmem : Function.update srv.mem p { srv.mem p with
      toConnState := (srv.mem p).toConnState } = srv.mem :=
    Function.update_eq_self p srv.mem
  rw [runHandler, hstate]
  show srv.withCtx p (srv.ctx p) = srv
  rw [Server.withCtx, Server.ctx]
  dsimp only
  rw [hmem, List.map_nil, List.append_nil]

/-- **Giving up a connection** removes it: with `STATE_ERROR` set, no handler does anything, and
the call ends in the removal. -/
theorem updateState_setState {fuel : ℕ} {r : ℤ × Server}
    (h : updateState fuel p (srv.setState p stateError) = some r) :
    r = (0, removeServerState p (srv.setState p stateError)) := by
  have herror : ((srv.setState p stateError).mem p).state = stateError := by
    rw [setState_mem_self]
  obtain ⟨srv₁, hloop, rfl⟩ := Option.map_eq_some_iff.mp h
  have heq : srv₁ = srv.setState p stateError :=
    updateStateLoop_preserves (P := fun t => t = srv.setState p stateError)
      (fun t ht => by rw [ht, runHandler_of_error herror]) hloop rfl
  rw [heq, afterLoop]
  exact if_pos (Or.inl herror)

/-- What holds after every connection that is given up holds when the loop of
`discard_expired_connections` ends. -/
theorem discardLoop_preserves {P : Server → Prop}
    (hP : ∀ t q, ServerInv t → q ∈ t.allocated → P t →
      P (removeServerState q (t.setState q stateError)))
    (h : ServerInv srv) {cur : ℤ} {fuel : ℕ} (hd : discardLoop cur fuel srv = some srv')
    (hs : P srv) : ServerInv srv' ∧ P srv' := by
  induction fuel generalizing srv with
  | zero => cases hd
  | succ fuel ih =>
    rw [Astrologer.discardLoop] at hd
    cases htop : binaryHeapTop srv.toHeapMem with
    | none =>
      simp only [htop, Option.some.injEq] at hd
      exact hd ▸ ⟨h, hs⟩
    | some elem =>
      simp only [htop] at hd
      by_cases hts : accumTimeNs (srv.mem elem).ts ≤ cur
      · rw [if_pos hts] at hd
        split at hd
        · cases hd
        next r hr =>
          have hmem : elem ∈ srv.allocated := binaryHeapTop_mem h.heap htop
          rw [updateState_setState hr] at hd
          exact ih ((h.setState elem stateError).removed hmem) hd (hP srv elem h hmem hs)
      · rw [if_neg hts, Option.some.injEq] at hd
        exact hd ▸ ⟨h, hs⟩

theorem ServerInv.discardLoop (h : ServerInv srv) {cur : ℤ} {fuel : ℕ}
    (hd : discardLoop cur fuel srv = some srv') : ServerInv srv' :=
  (discardLoop_preserves (P := fun _ => True) (fun _ _ _ _ _ => trivial) h hd trivial).1

/-- **What `process_new_connection` leaves**: the connections there were, and at most one
more. -/
theorem HeapInv.processNewConnection_cases (h : HeapInv srv) (conSocket : Option Fd)
    {block : Option (Ptr × ServerState)} (hblock : ∀ b ∈ block, b.1 ∉ srv.allocated) :
    let r := processNewConnection conSocket block srv
    (∀ q ∈ srv.allocated, (r.2.mem q).toConnState = (srv.mem q).toConnState ∧
      (r.2.mem q).ts = (srv.mem q).ts) ∧
    (r.2.allocated = srv.allocated ∨
      ∃ fd p raw, conSocket = some fd ∧ block = some (p, raw) ∧ p ∉ srv.allocated ∧
        r.2.allocated = insert p srv.allocated ∧
        (r.2.mem p).toConnState = raw.toConnState.create fd ∧
        (r.2.mem p).ts = updateTs srv.kernel.clock.head opRead) := by
  cases conSocket with
  | none => exact ⟨fun _ _ => ⟨rfl, rfl⟩, Or.inl rfl⟩
  | some fd =>
    unfold Astrologer.processNewConnection
    simp only
    by_cases hfull : srv.heap.size ≥ srv.heap.capacity
    · rw [if_pos hfull]
      exact ⟨fun _ _ => ⟨rfl, rfl⟩, Or.inl rfl⟩
    · rw [if_neg hfull]
      cases block with
      | none => exact ⟨fun _ _ => ⟨rfl, rfl⟩, Or.inl rfl⟩
      | some b =>
        obtain ⟨p, raw⟩ := b
        have hp : p ∉ srv.allocated := hblock (p, raw) rfl
        have hc := h.created hp fd raw
        have hsame : ∀ q ∈ srv.allocated,
            ((createServerState fd (some (p, raw)) srv).2.mem q).toConnState =
                (srv.mem q).toConnState ∧
              ((createServerState fd (some (p, raw)) srv).2.mem q).ts = (srv.mem q).ts :=
          fun q hq => hc.same q fun heq => hp (heq ▸ hq)
        by_cases hret : (createServerState fd (some (p, raw)) srv).1 ≠ 0
        · rw [if_pos hret]
          exact ⟨hsame, Or.inl (hc.allocated.trans (if_neg hret))⟩
        · rw [if_neg hret]
          have hzero := not_not.mp hret
          exact ⟨hsame, Or.inr ⟨fd, p, raw, rfl, rfl, hp, hc.allocated.trans (if_pos hzero),
            hc.conn hzero, hc.ts hzero⟩⟩

/-- A new connection, or none. -/
theorem ServerInv.processNewConnection (h : ServerInv srv) {conSocket : Option Fd}
    {block : Option (Ptr × ServerState)} (hfd : ∀ fd ∈ conSocket, srv.epoll fd = none)
    (hblock : ∀ b ∈ block, b.1 ∉ srv.allocated) :
    ServerInv (processNewConnection conSocket block srv).2 ∧
      srv.allocated ⊆ (processNewConnection conSocket block srv).2.allocated := by
  cases conSocket with
  | none => exact ⟨h, Finset.Subset.refl _⟩
  | some fd =>
    have hfree : srv.epoll fd = none := hfd fd rfl
    unfold Astrologer.processNewConnection
    simp only
    by_cases hfull : srv.heap.size ≥ srv.heap.capacity
    · rw [if_pos hfull]
      exact ⟨h.closeFd fd, Finset.Subset.refl _⟩
    · rw [if_neg hfull]
      cases block with
      | none => exact ⟨h.closeFd fd, Finset.Subset.refl _⟩
      | some b =>
        obtain ⟨p, raw⟩ := b
        have hp : p ∉ srv.allocated := hblock (p, raw) rfl
        have hc := h.heap.created hp fd raw
        have hsub : srv.allocated ⊆ (createServerState fd (some (p, raw)) srv).2.allocated := by
          rw [hc.allocated]
          split
          · exact Finset.subset_insert p _
          · exact Finset.Subset.refl _
        have hinv : ServerInv (createServerState fd (some (p, raw)) srv).2 := by
          refine ⟨hc.inv, fun fd' mask q hq => ?_, ?_⟩
          · have hold : srv.epoll fd' = some ⟨mask, some q⟩ →
                q ∈ (createServerState fd (some (p, raw)) srv).2.allocated ∧
                ((createServerState fd (some (p, raw)) srv).2.mem q).intermBuf.fd = fd' := by
              intro hq
              obtain ⟨hq', hqfd⟩ := h.watch fd' mask q hq
              have hqp : q ≠ p := fun heq => hp (heq ▸ hq')
              rw [(hc.same q hqp).1]
              exact ⟨hsub hq', hqfd⟩
            rw [hc.epoll] at hq
            by_cases hret : (createServerState fd (some (p, raw)) srv).1 = 0
            · rw [if_pos hret] at hq
              by_cases hfd' : fd' = fd
              · rw [hfd', Function.update_self, Option.some.injEq, EpollEvent.mk.injEq,
                  Option.some.injEq] at hq
                rw [hfd', ← hq.2, hc.allocated, if_pos hret, hc.conn hret]
                exact ⟨Finset.mem_insert_self p _, rfl⟩
              · rw [Function.update_of_ne hfd'] at hq
                exact hold hq
            · rw [if_neg hret] at hq
              exact hold hq
          · rcases hc.trace with heq | heq
            · rw [heq]
              exact h.sound
            · rw [heq]
              exact sound_append h.sound fun e he => by
                rw [List.mem_singleton.mp he]
                rfl
        by_cases hret : (createServerState fd (some (p, raw)) srv).1 ≠ 0
        · rw [if_pos hret]
          exact ⟨hinv.closeFd fd, hsub⟩
        · rw [if_neg hret]
          exact ⟨hinv.log trivial, hsub⟩

/-! ## Every run

`main` holds a list of events between two steps, so its invariant has a part about these too: a
pointer among them must not be freed by an earlier event of the same list.  It is not, since the
pointers are different and a call frees at most its own. -/

/-- The events left are about different live connections: `epoll_wait` reports each descriptor
once, and a turn removes no other connection than its own. -/
def EventsInv (srv : Server) (events : List (Option Ptr)) : Prop :=
  events.reduceOption.Nodup ∧ ∀ p ∈ events.reduceOption, p ∈ srv.allocated

/-- The invariant of `main`: that of the process, and that the events which are left point to live
connections, so that no freed state is used. -/
structure LoopInv (c : Config) : Prop where
  srv : ServerInv c.srv
  events : ∀ events, c.pc = .dispatch events → EventsInv c.srv events

/-- What `epoll_wait` reports is about different live connections. -/
theorem ServerInv.reports (h : ServerInv srv) {events : List (Option Ptr)}
    (hr : srv.Reports events) : EventsInv srv events := by
  obtain ⟨fds, hnodup, -, hall⟩ := hr
  -- along the list: a pointer is reported with its descriptor
  have hkey : ∀ {fds : List Fd} {events : List (Option Ptr)},
      List.Forall₂ (fun fd ptr => ∃ mask, srv.epoll fd = some ⟨mask, ptr⟩) fds events →
      ∀ p ∈ events.reduceOption, p ∈ srv.allocated ∧ (srv.mem p).intermBuf.fd ∈ fds := by
    intro fds events hall
    induction hall with
    | nil => exact fun p hp => absurd hp List.not_mem_nil
    | @cons fd ptr fds events hfd _ ih =>
      intro p hp
      obtain ⟨mask, hmask⟩ := hfd
      cases ptr with
      | none =>
        rw [List.reduceOption_cons_of_none] at hp
        exact ⟨(ih p hp).1, List.mem_cons_of_mem _ (ih p hp).2⟩
      | some q =>
        rw [List.reduceOption_cons_of_some, List.mem_cons] at hp
        rcases hp with rfl | hp
        · obtain ⟨hq, hqfd⟩ := h.watch fd mask p hmask
          exact ⟨hq, hqfd ▸ List.mem_cons_self⟩
        · exact ⟨(ih p hp).1, List.mem_cons_of_mem _ (ih p hp).2⟩
  refine ⟨?_, fun p hp => (hkey hall p hp).1⟩
  induction hall with
  | nil => exact List.nodup_nil
  | @cons fd ptr fds events hfd hall ih =>
    obtain ⟨mask, hmask⟩ := hfd
    rw [List.nodup_cons] at hnodup
    cases ptr with
    | none =>
      rw [List.reduceOption_cons_of_none]
      exact ih hnodup.2
    | some q =>
      rw [List.reduceOption_cons_of_some, List.nodup_cons]
      refine ⟨fun hq => hnodup.1 ?_, ih hnodup.2⟩
      rw [← (h.watch fd mask q hmask).2]
      exact (hkey hall q hq).2

theorem EventsInv.mono {events : List (Option Ptr)} {e : Option Ptr}
    (h : EventsInv srv (e :: events))
    (hsub : ∀ p ∈ events.reduceOption, p ∈ srv.allocated → p ∈ srv'.allocated) :
    EventsInv srv' events := by
  obtain ⟨hnodup, hall⟩ := h
  cases e with
  | none =>
    rw [List.reduceOption_cons_of_none] at hnodup hall
    exact ⟨hnodup, fun p hp => hsub p hp (hall p hp)⟩
  | some q =>
    rw [List.reduceOption_cons_of_some] at hnodup hall
    exact ⟨(List.nodup_cons.mp hnodup).2,
      fun p hp => hsub p hp (hall p (List.mem_cons_of_mem _ hp))⟩

/-- **One step of `main` keeps the invariant.**  An event that is left is not about the connection
of the one that is served, so its pointer stays live. -/
theorem LoopInv.step {c c' : Config} (h : LoopInv c) (hs : Step c c') : LoopInv c' := by
  cases hs with
  | waitFailed srv k =>
    exact ⟨(h.srv.withKernel k).minTimeout, fun _ he => by cases he⟩
  | waitExpired srv k hd =>
    exact ⟨((h.srv.withKernel k).minTimeout.getCurTime).discardLoop hd,
      fun _ he => by cases he⟩
  | @waitEvents srv k events hne hr =>
    have hinv := (h.srv.withKernel k).minTimeout
    refine ⟨hinv, fun evs he => ?_⟩
    cases he
    refine hinv.reports ?_
    have hwatch : (minTimeout (srv.withKernel k)).2.2.epoll = srv.epoll := by
      unfold minTimeout
      simp only
      split
      · split <;> rfl
      · rfl
    obtain ⟨fds, hnodup, hlen, hall⟩ := hr
    exact ⟨fds, hnodup, hlen, hwatch.symm ▸ hall⟩
  | dispatched srv => exact ⟨h.srv, fun _ he => by cases he⟩
  | @newConnection srv k events conSocket block hfd hblock =>
    obtain ⟨hinv, hsub⟩ := (h.srv.withKernel k).processNewConnection hfd hblock
    refine ⟨hinv, fun evs he => ?_⟩
    have hevs : evs = events := by
      simp only at he
      split at he
      · cases he
      · cases he
        rfl
    rw [hevs]
    exact (h.events _ rfl).mono fun p _ hp => hsub hp
  | @update srv k p events fuel r hu =>
    have hev := h.events _ rfl
    have hp : p ∈ srv.allocated := hev.2 p (by
      rw [List.reduceOption_cons_of_some]
      exact List.mem_cons_self)
    obtain ⟨hinv, halloc⟩ := (h.srv.withKernel k).updateState hp hu
    refine ⟨hinv, fun evs he => ?_⟩
    have hevs : evs = events := by
      simp only at he
      split at he
      · cases he
      · cases he
        rfl
    rw [hevs]
    refine hev.mono fun q hq hmem => ?_
    rcases halloc with heq | heq
    · rw [heq]
      exact hmem
    · have hne : q ≠ p := by
        rintro rfl
        rw [EventsInv, List.reduceOption_cons_of_some, List.nodup_cons] at hev
        exact hev.1.1 hq
      rw [heq]
      exact Finset.mem_erase.mpr ⟨hne, hmem⟩
  | freeElem srv k hsize =>
    have hlast : srv.heap.size - 1 < srv.heap.size := Nat.sub_lt hsize Nat.one_pos
    exact ⟨(h.srv.withKernel k).removed (h.srv.heap.mem_allocated hlast),
      fun _ he => by cases he⟩
  | freed srv hsize => exact ⟨h.srv, fun _ he => by cases he⟩

/-- When `main` enters its loop there are no connections. -/
theorem Initial.inv {listenSocket : Fd} (h : Initial listenSocket srv) :
    ServerInv srv := by
  obtain ⟨arr, harr⟩ := h.heap
  obtain ⟨a, -, heq⟩ := Option.map_eq_some_iff.mp harr
  have hheap : srv.heap =
      { arr := a
        capacity := clientConNum
        size := 0
        compare := compareServerState
        swap := swapServerState } := heq.symm
  have hsize : srv.heap.size = 0 := by rw [hheap]
  refine ⟨⟨by rw [hheap], by rw [hheap], ?_, ?_, ?_, ?_⟩, fun fd mask p hw => ?_, ?_⟩
  · rw [hsize]
    exact Nat.zero_le _
  · rw [HeapMem.elems, hsize, contents_zero, h.allocated]
    rfl
  · intro i hi
    rw [hsize] at hi
    exact absurd hi (Nat.not_lt_zero i)
  · intro i _ hi
    rw [hsize] at hi
    exact absurd hi (Nat.not_lt_zero i)
  · rw [h.epoll] at hw
    by_cases hfd : fd = listenSocket
    · rw [hfd, Function.update_self] at hw
      cases hw
    · rw [Function.update_of_ne hfd] at hw
      cases hw
  · rw [h.trace]
    exact fun e he => absurd he List.not_mem_nil

theorem Reachable.inv {c : Config} (h : Reachable c) : LoopInv c := by
  induction h with
  | init h => exact ⟨h.inv, fun _ he => by cases he⟩
  | step _ hs ih => exact ih.step hs

end Steps

/-- **The heap after every step of every run.**  It holds every live connection
exactly once and nothing else; the entry at index `i` has `heap_ix = i`; no entry has
an earlier deadline than its parent.  Every call of `binary_heap_remove` and
`binary_heap_update` through `s->heap_ix` that was made found `s` there, and no
removal failed. -/
theorem reachable_heap {c : Config} (h : Reachable c) :
    c.srv.elems = c.srv.allocated.val ∧
    (∀ i, i < c.srv.heap.size → (c.srv.mem (c.srv.heap.arr i)).heapIx = i) ∧
    (∀ i, 0 < i → i < c.srv.heap.size →
      ¬ accumTimeNs (c.srv.mem (c.srv.heap.arr i)).ts <
        accumTimeNs (c.srv.mem (c.srv.heap.arr (parent i))).ts) ∧
    (∀ s entry, .heapCall s entry ∈ c.srv.trace → entry = some s) ∧
    ∀ heapIx, .removeFailed heapIx ∉ c.srv.trace := by
  have hinv := h.inv.srv
  refine ⟨hinv.heap.elems, hinv.heap.back, fun i h0 hi => ?_, fun s entry he => ?_,
    fun heapIx he => hinv.sound _ he⟩
  · exact not_lt_of_ge (hinv.heap.ordered i h0 hi)
  · exact hinv.sound _ he

/-! A run to look at: two clients connect at time `0`, one after the other. -/

/-- A kernel at rest: clients have hung up, and the clock stands at this second. -/
def sampleKernel (sec : ℤ) : Kernel where
  recvs := Stream'.const (.bytes [])
  sends := Stream'.const (.count 0)
  clock := Stream'.const ⟨sec, 0⟩
  ctlFails := Stream'.const false

def sampleBlock : ServerState where
  intermBuf := ⟨0, CArray.replicate _ 0, 0, 0⟩
  buf := CArray.replicate _ 0
  curPos := 0
  rem := 0
  zodiacIx := 0
  state := stateError
  op := opRead
  ts := ⟨0, 0⟩
  heapIx := 0

/-- The process before its loop, listening on the descriptor `3`. -/
def sampleBoot : Server where
  mem := fun _ => sampleBlock
  heap :=
    { arr := fun _ => 0
      capacity := clientConNum
      size := 0
      compare := compareServerState
      swap := swapServerState }
  allocated := ∅
  zodiacPrognosises := fun _ => CArray.replicate _ 0
  epoll := Function.update (fun _ => none) 3 (some ⟨epollIn, none⟩)
  kernel := sampleKernel 0
  trace := []
  closed := []

/-- A client connects: `epoll_wait` reports the listening socket. -/
def Server.sampleAccept (srv : Server) (fd : Fd) (p : Ptr) : Server :=
  (processNewConnection (some fd) (some (p, sampleBlock))
    ((minTimeout (srv.withKernel (sampleKernel 0))).2.2.withKernel (sampleKernel 0))).2

def sampleTwo : Server := (sampleBoot.sampleAccept 5 1).sampleAccept 6 2

theorem reachable_sampleAccept {srv : Server} (h : Reachable ⟨.epollWait, srv⟩) {fd : Fd}
    {p : Ptr} (hlisten : srv.epoll 3 = some ⟨epollIn, none⟩)
    (hfd : (minTimeout (srv.withKernel (sampleKernel 0))).2.2.epoll fd = none)
    (hp : p ∉ (minTimeout (srv.withKernel (sampleKernel 0))).2.2.allocated)
    (hret : (processNewConnection (some fd) (some (p, sampleBlock))
      ((minTimeout (srv.withKernel (sampleKernel 0))).2.2.withKernel
        (sampleKernel 0))).1 = 0) :
    Reachable ⟨.epollWait, srv.sampleAccept fd p⟩ := by
  have hreports : srv.Reports [none] :=
    ⟨[3], List.nodup_singleton 3, by decide, .cons ⟨epollIn, hlisten⟩ .nil⟩
  have hwait := h.step (.waitEvents srv (sampleKernel 0) (List.cons_ne_nil _ _) hreports)
  have hfd' : ∀ f ∈ some fd,
      (minTimeout (srv.withKernel (sampleKernel 0))).2.2.epoll f = none :=
    fun f hf => Option.mem_some.mp hf ▸ hfd
  have hp' : ∀ b ∈ some (p, sampleBlock),
      b.1 ∉ (minTimeout (srv.withKernel (sampleKernel 0))).2.2.allocated :=
    fun b hb => Option.mem_some.mp hb ▸ hp
  have hnew := hwait.step (.newConnection _ (sampleKernel 0) [] hfd' hp')
  rw [hret] at hnew
  exact hnew.step (.dispatched _)

theorem sampleTwo_reachable : Reachable ⟨.epollWait, sampleTwo⟩ := by
  have hboot : Initial 3 sampleBoot :=
    ⟨⟨some fun _ => 0, rfl⟩, rfl, fun _ => rfl, rfl, rfl⟩
  have hone : Reachable ⟨.epollWait, sampleBoot.sampleAccept 5 1⟩ :=
    reachable_sampleAccept (.init hboot) rfl rfl (by decide) rfl
  exact reachable_sampleAccept hone rfl rfl (by decide) rfl

/-- The two of them are the heap. -/
theorem sampleTwo_heap :
    sampleTwo.elems = ({2, 1} : Finset Ptr).val ∧
      (sampleTwo.mem (sampleTwo.heap.arr 1)).heapIx = 1 :=
  ⟨(reachable_heap sampleTwo_reachable).1,
    (reachable_heap sampleTwo_reachable).2.1 1 (by decide)⟩

/-- `epoll_wait` reports one connection, and `update_state` is called for it. -/
def Server.sampleServe (srv : Server) (p : Ptr) (k : Kernel) : Option (ℤ × Server) :=
  updateState 8 p ((minTimeout (srv.withKernel (sampleKernel 0))).2.2.withKernel k)

theorem reachable_sampleServe {srv : Server} (h : Reachable ⟨.epollWait, srv⟩) {fd : Fd}
    {mask : UInt32} {p : Ptr} {k : Kernel} {r : ℤ × Server}
    (hfd : srv.epoll fd = some ⟨mask, some p⟩) (hr : srv.sampleServe p k = some r)
    (hret : r.1 = 0) : Reachable ⟨.epollWait, r.2⟩ := by
  have hreports : srv.Reports [some p] :=
    ⟨[fd], List.nodup_singleton fd, by rw [List.length_singleton]; decide,
      .cons ⟨mask, hfd⟩ .nil⟩
  have hwait := h.step (.waitEvents srv (sampleKernel 0) (List.cons_ne_nil _ _) hreports)
  have hupdate := hwait.step (.update _ k p [] hr)
  rw [hret] at hupdate
  exact hupdate.step (.dispatched _)

/-- A star sends its two lines in one piece. -/
def sampleStarSays : Kernel :=
  { sampleKernel 0 with recvs := Stream'.const (.bytes (str "STARS SAY Aries\nhi\n")) }

/-- The connection `1` is that of a star, who is to be thanked next. -/
def sampleStored : Option (ℤ × Server) := sampleTwo.sampleServe 1 sampleStarSays

theorem sampleStored_reachable :
    ∃ r, sampleStored = some r ∧ Reachable ⟨.epollWait, r.2⟩ ∧ 1 ∈ r.2.allocated ∧
      (r.2.mem 1).state = stateSendThanks ∧ (r.2.mem 1).op = opWrite := by
  have hstored : (sampleStored.map fun r => (r.1, decide (1 ∈ r.2.allocated),
      (r.2.mem 1).state, (r.2.mem 1).op)) = some (0, true, stateSendThanks, opWrite) := by decide
  obtain ⟨r, hr, heq⟩ := Option.map_eq_some_iff.mp hstored
  simp only [Prod.mk.injEq, decide_eq_true_eq] at heq
  obtain ⟨hret, hmem, hstate, hop⟩ := heq
  have hwatch : sampleTwo.epoll 5 = some ⟨epollIn, some 1⟩ := rfl
  exact ⟨r, hr, reachable_sampleServe sampleTwo_reachable hwatch hr hret, hmem, hstate, hop⟩

end Astrologer
