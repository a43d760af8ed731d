import Astrologer.Server.Interest

/-!
# The number of connections

The heap is allocated once, for `CLIENT_CON_NUM` connections, and none of its operations
changes that (`Reachable.capacity`).  The connections are the entries of the heap, so there
are never more of them.
-/

namespace Astrologer

open ServerStateType FdOperation

/-! ## The operations -/

section Heap

variable {M α : Type*}

theorem heapifyUpLoop_capacity (n : ℕ) (s : HeapMem M α) (ix : ℕ) :
    (heapifyUpLoop n s ix).heap.capacity = s.heap.capacity := by
  induction n generalizing s ix with
  | zero => rfl
  | succ n ih =>
    rw [heapifyUpLoop]
    split
    · exact ih _ _
    · rfl

theorem heapifyDownLoop_capacity (last n : ℕ) (s : HeapMem M α) (ix : ℕ) :
    (heapifyDownLoop last n s ix).heap.capacity = s.heap.capacity := by
  induction n generalizing s ix with
  | zero => rfl
  | succ n ih =>
    rw [heapifyDownLoop]
    split
    · dsimp only
      split
      · rfl
      · exact ih _ _
    · rfl

theorem heapifyDown_capacity (s : HeapMem M α) (ix : ℕ) :
    (heapifyDown s ix).heap.capacity = s.heap.capacity := by
  rw [heapifyDown]
  split
  · rfl
  · exact heapifyDownLoop_capacity _ _ _ _

theorem binaryHeapUpdate_capacity (s : HeapMem M α) (ix : ℕ) :
    (binaryHeapUpdate s ix).heap.capacity = s.heap.capacity := by
  rw [binaryHeapUpdate]
  split
  · exact heapifyUpLoop_capacity _ _ _
  · exact heapifyDown_capacity _ _

theorem binaryHeapPush_capacity (s : HeapMem M α) (elem : α) :
    (binaryHeapPush s elem).2.heap.capacity = s.heap.capacity := by
  rw [binaryHeapPush]
  split
  · rfl
  · exact heapifyUpLoop_capacity _ _ _

theorem binaryHeapRemove_capacity (s : HeapMem M α) (ix : ℕ) (elem : α) :
    (binaryHeapRemove s ix elem).2.1.heap.capacity = s.heap.capacity := by
  rw [binaryHeapRemove]
  split
  · rfl
  · dsimp only
    split
    · exact binaryHeapUpdate_capacity _ _
    · rfl

end Heap

section Server

variable {srv srv' : Server} {p : Ptr}

theorem configureEpoll_heap (op : EpollCtl) (fd : Fd) (events : UInt32) (ptr : Option Ptr)
    (srv : Server) : (configureEpoll op fd events ptr srv).2.heap = srv.heap := by
  unfold configureEpoll
  dsimp only
  split <;> rfl

theorem heapRemove_capacity (p : Ptr) (srv : Server) :
    (heapRemove p srv).2.heap.capacity = srv.heap.capacity := by
  have h := binaryHeapRemove_capacity srv.toHeapMem (srv.mem p).heapIx p
  rw [heapRemove]
  dsimp only
  split <;> exact h

theorem removeServerState_capacity (p : Ptr) (srv : Server) :
    (removeServerState p srv).heap.capacity = srv.heap.capacity := by
  refine (heapRemove_capacity p _).trans ?_
  rw [configureEpoll_heap]
  rfl

theorem runHandler_capacity (p : Ptr) (srv : Server) :
    (runHandler p srv).heap.capacity = srv.heap.capacity := by
  unfold runHandler
  dsimp only
  split
  · rfl
  · exact binaryHeapUpdate_capacity _ _

theorem updateState_capacity {fuel : ℕ} {r : ℤ × Server} (h : updateState fuel p srv = some r) :
    r.2.heap.capacity = srv.heap.capacity := by
  obtain ⟨t, hloop, rfl⟩ := Option.map_eq_some_iff.mp h
  have ht : t.heap.capacity = srv.heap.capacity :=
    updateStateLoop_preserves (P := fun t => t.heap.capacity = srv.heap.capacity)
      (fun u hu => (runHandler_capacity p u).trans hu) hloop rfl
  refine Eq.trans ?_ ht
  rcases afterLoop_cases (srv.mem p).op p t with ⟨-, heq⟩ | ⟨-, mask, ret, hw⟩
  · rw [heq]
    exact removeServerState_capacity p t
  · rw [hw.toHeapMem]

theorem createServerState_capacity (fd : Fd) (block : Option (Ptr × ServerState))
    (srv : Server) : (createServerState fd block srv).2.heap.capacity = srv.heap.capacity := by
  unfold createServerState
  cases block with
  | none => rfl
  | some b =>
    dsimp only
    split
    · exact binaryHeapPush_capacity _ _
    · split
      · refine (heapRemove_capacity _ _).trans ?_
        rw [configureEpoll_heap]
        exact binaryHeapPush_capacity _ _
      · rw [configureEpoll_heap]
        exact binaryHeapPush_capacity _ _

theorem processNewConnection_capacity (conSocket : Option Fd)
    (block : Option (Ptr × ServerState)) (srv : Server) :
    (processNewConnection conSocket block srv).2.heap.capacity = srv.heap.capacity := by
  unfold processNewConnection
  cases conSocket with
  | none => rfl
  | some fd =>
    dsimp only
    split
    · rfl
    · split <;> exact createServerState_capacity fd block srv

/-! ## Every run -/

theorem capacity_of_step {c c' : Config} (hinv : LoopInv c) (hs : Step c c') :
    c'.srv.heap.capacity = c.srv.heap.capacity := by
  cases hs with
  | waitFailed srv k => rw [minTimeout_eq]; rfl
  | waitExpired srv k hd =>
    rw [minTimeout_eq] at hd
    refine (discardLoop_preserves (P := fun t => t.heap.capacity = srv.heap.capacity)
      (fun t q _ _ ht => ?_) (hinv.srv.withKernel k).getCurTime.getCurTime hd rfl).2
    exact (removeServerState_capacity q _).trans ht
  | waitEvents srv k hne hr => rw [minTimeout_eq]; rfl
  | dispatched srv => rfl
  | newConnection srv k events hfd hblock => exact processNewConnection_capacity _ _ _
  | update srv k p events hu => exact (updateState_capacity hu).trans rfl
  | freeElem srv k hsize => exact removeServerState_capacity _ _
  | freed srv hsize => rfl

/-- **The heap is as large as it was made.** -/
theorem Reachable.capacity {c : Config} (h : Reachable c) :
    c.srv.heap.capacity = clientConNum := by
  induction h with
  | init h =>
    obtain ⟨arr, harr⟩ := h.heap
    obtain ⟨a, -, heq⟩ := Option.map_eq_some_iff.mp harr
    exact (congrArg BinaryHeap.capacity heq).symm
  | step h hs ih => exact (capacity_of_step h.inv hs).trans ih

/-- The entries of the heap are the live connections. -/
theorem HeapInv.size_eq_card (h : HeapInv srv) : srv.heap.size = srv.allocated.card := by
  have hcard := congrArg Multiset.card h.elems
  rw [HeapMem.elems, ImplicitHeap.contents, Multiset.card_map, Multiset.card_range] at hcard
  exact hcard

/-- **There are never more connections** than the heap has room for. -/
theorem Reachable.card_le {c : Config} (h : Reachable c) :
    c.srv.allocated.card ≤ clientConNum := by
  have hinv := h.inv.srv.heap
  rw [← hinv.size_eq_card, ← h.capacity]
  exact hinv.size_le

end Server

end Astrologer
