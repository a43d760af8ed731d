import Astrologer.BinaryHeap.History
import Astrologer.Server.Handlers

/-!
# The event loop of `astrolog.c`

`Server` is the whole process: the connection structures in memory, the timeout
heap of pointers to them, the table of prognoses and the descriptors that `epoll`
watches.  `update_state`, `create_server_state`, `process_new_connection` and
`discard_expired_connections` are functions on it, and `Step` is `main`.

## Memory

A pointer is a number, and the memory `mem` has a structure for each; those that
`malloc` has handed out and `free` has not taken back are in `allocated`.  The heap
stores pointers.  Its callbacks read and write the structures: `compare` their
deadlines, `swap` their `heap_ix`.

## The kernel

`Kernel` has the answers to come of the calls that can be answered in any way, and
every step of the event loop is taken with any kernel whatever.  A clock is read
through it too, so it may stand still or go back.  Three calls are tied to the
state, by the premises of `Step`: `malloc` returns a block that is not in use,
`accept4` a descriptor that is not open, and `epoll_wait` reports descriptors that
are watched, each at most once, with the pointers that were left with them.  A call
that ends the process (`clock_gettime` failing) ends the run.

## Loops without a bound

The `do`-`while` loop of `update_state` and the loop of
`discard_expired_connections` need not end.  They recurse on a `fuel` and have no
result when it is used up; the call returns when some fuel has a result.
-/

namespace Astrologer

open ServerStateType FdOperation

abbrev Ptr := ℕ
abbrev Fd := ℕ

/-! ## The data -/

def clientConNum : ℕ := 10000

def recvTimeoutSec : ℤ := 5 * 60
def recvTimeoutNsec : ℤ := 0

def sendTimeoutSec : ℤ := 3 * 60
def sendTimeoutNsec : ℤ := 0

/-- `struct server_state`. -/
structure ServerState extends ConnState where
  ts : Timespec
  heapIx : ℕ

/-- The memory that the heap callbacks work on. -/
abbrev Mem := Ptr → ServerState

/-- `struct epoll_event`, with `NULL` as no pointer. -/
structure EpollEvent where
  events : UInt32
  ptr : Option Ptr
  deriving DecidableEq

def epollIn : UInt32 := 1
def epollOut : UInt32 := 4

inductive EpollCtl
  | add
  | mod
  | del
  deriving DecidableEq

/-- The answers to come: of `recv` and `send` for the connection that is updated, of the clock,
and whether `epoll_ctl` fails.  Every step of `main` is given new ones. -/
structure Kernel where
  recvs : Stream' RecvResult
  sends : Stream' SendResult
  clock : Stream' Timespec
  /-- Whether `epoll_ctl` fails. -/
  ctlFails : Stream' Bool

/-- What is seen of the server. -/
inductive ServerEvent
  | conn (s : Ptr) (e : ConnEvent)
  /-- "Connected to addr". -/
  | connected (s : Ptr)
  /-- `remove_server_state` is called. -/
  | removed (s : Ptr)
  /-- The heap is called with `s->heap_ix`, and this is the entry there. -/
  | heapCall (s : Ptr) (entry : Option Ptr)
  /-- "Failed to remove heap ix". -/
  | removeFailed (heapIx : ℕ)
  deriving DecidableEq

/-- The process: the heap with the memory of the states, the table, what `epoll` was told, and the
record of what was done. -/
structure Server extends HeapMem Mem Ptr where
  allocated : Finset Ptr
  zodiacPrognosises : Table
  /-- What `epoll_ctl` has left for each descriptor. -/
  epoll : Fd → Option EpollEvent
  kernel : Kernel
  trace : List ServerEvent
  /-- The descriptors that `close_fd` was called with. -/
  closed : List Fd

def Server.log (srv : Server) (e : ServerEvent) : Server :=
  { srv with trace := srv.trace ++ [e] }

/-- Write a structure. -/
def Server.store (srv : Server) (p : Ptr) (s : ServerState) : Server :=
  { srv with mem := Function.update srv.mem p s }

/-- `s->state = t`. -/
def Server.setState (srv : Server) (p : Ptr) (t : ServerStateType) : Server :=
  srv.store p { srv.mem p with state := t }

/-! ## Time -/

/-- `get_cur_time`. -/
def getCurTime (srv : Server) : Timespec × Server :=
  (srv.kernel.clock.head,
    { srv with kernel := { srv.kernel with clock := srv.kernel.clock.tail } })

def updateTs (now : Timespec) (op : FdOperation) : Timespec :=
  if op = opRead then
    ⟨now.tvSec + recvTimeoutSec, now.tvNsec + recvTimeoutNsec⟩
  else
    ⟨now.tvSec + sendTimeoutSec, now.tvNsec + sendTimeoutNsec⟩

def lessTs (a b : Timespec) : Bool := decide (accumTimeNs a ≥ accumTimeNs b)

def compareServerState (mem : Mem) (a b : Ptr) : Bool := lessTs (mem a).ts (mem b).ts

/-- The two slots are exchanged, and then the `heap_ix` of what they point to. -/
def swapServerState (mem : Mem) (a b : Ptr) : Mem × Ptr × Ptr :=
  let elemA := b
  let elemB := a
  let tmpHeapIx := (mem elemA).heapIx
  let mem := Function.update mem elemA { mem elemA with heapIx := (mem elemB).heapIx }
  let mem := Function.update mem elemB { mem elemB with heapIx := tmpHeapIx }
  (mem, elemA, elemB)

/-! ## Descriptors -/

def configureEpoll (op : EpollCtl) (fd : Fd) (events : UInt32) (ptr : Option Ptr)
    (srv : Server) : ℤ × Server :=
  let srv' := { srv with
    kernel := { srv.kernel with ctlFails := srv.kernel.ctlFails.tail } }
  if srv.kernel.ctlFails.head then
    (-1, srv')
  else
    (0, { srv' with
      epoll := Function.update srv'.epoll fd
        (if op = .del then none else some ⟨events, ptr⟩) })

/-- `close_fd`; a closed descriptor is not watched any more. -/
def closeFd (fd : Fd) (srv : Server) : Server :=
  { srv with
    epoll := Function.update srv.epoll fd none
    closed := srv.closed ++ [fd] }

/-! ## Connections -/

/-- The entry at `s->heap_ix`. -/
def Server.entry (srv : Server) (p : Ptr) : Option Ptr :=
  if (srv.mem p).heapIx < srv.heap.size then some (srv.heap.arr (srv.mem p).heapIx)
  else none

/-- `binary_heap_remove(heap, s->heap_ix, &s)` and its message; the result is `s`
afterwards. -/
def heapRemove (p : Ptr) (srv : Server) : Ptr × Server :=
  let r := binaryHeapRemove srv.toHeapMem (srv.mem p).heapIx p
  let srv' := { srv.log (.heapCall p (srv.entry p)) with toHeapMem := r.2.1 }
  (r.2.2, if r.1 ≠ 0 then srv'.log (.removeFailed (srv'.mem r.2.2).heapIx) else srv')

def destroyServerState (p : Ptr) (srv : Server) : Server :=
  { srv with allocated := srv.allocated.erase p }

/-- `create_server_state`.  `block` is what `malloc` returns: nothing, or an address
and what stands there. -/
def createServerState (fd : Fd) (block : Option (Ptr × ServerState)) (srv : Server) :
    ℤ × Server :=
  match block with
  | none => (-1, srv)
  | some (p, raw) =>
    let now := getCurTime { srv with allocated := insert p srv.allocated }
    let s : ServerState :=
      { raw.toConnState.create fd with
        heapIx := srv.heap.size
        ts := updateTs now.1 opRead }
    let srv := now.2.store p s
    let pushed := binaryHeapPush srv.toHeapMem p
    let srv := { srv with toHeapMem := pushed.2 }
    if pushed.1 ≠ 0 then
      (-1, destroyServerState p srv)
    else
      let added := configureEpoll .add fd epollIn (some p) srv
      if added.1 ≠ 0 then
        let removed := heapRemove p added.2
        (-1, destroyServerState removed.1 removed.2)
      else
        (0, added.2)

def updateServerStateTs (p : Ptr) (srv : Server) : Server :=
  let now := getCurTime srv
  let srv := now.2.store p
    { now.2.mem p with ts := updateTs now.1 (now.2.mem p).op }
  { srv.log (.heapCall p (srv.entry p)) with
    toHeapMem := binaryHeapUpdate srv.toHeapMem (srv.mem p).heapIx }

def removeServerState (p : Ptr) (srv : Server) : Server :=
  let fd := (srv.mem p).intermBuf.fd
  let srv := (configureEpoll .del fd 0 none (srv.log (.removed p))).2
  let removed := heapRemove p srv
  closeFd fd (destroyServerState removed.1 removed.2)

/-! ## `update_state` -/

/-- What the handlers see of the server. -/
def Server.ctx (srv : Server) (p : Ptr) : Ctx where
  s := (srv.mem p).toConnState
  zodiacPrognosises := srv.zodiacPrognosises
  io := ⟨srv.kernel.recvs, srv.kernel.sends, []⟩

/-- What the handlers leave. -/
def Server.withCtx (srv : Server) (p : Ptr) (c : Ctx) : Server :=
  { srv with
    mem := Function.update srv.mem p { srv.mem p with toConnState := c.s }
    zodiacPrognosises := c.zodiacPrognosises
    kernel := { srv.kernel with recvs := c.io.recvs, sends := c.io.sends }
    trace := srv.trace ++ c.io.trace.map (.conn p) }

/-- The body of the loop. -/
def runHandler (p : Ptr) (srv : Server) : Server :=
  let r := handleState (srv.ctx p)
  match r.2 with
  | .done => srv.withCtx p r.1
  | .updateTs => updateServerStateTs p (srv.withCtx p r.1)

def updateStateLoop (p : Ptr) : ℕ → Server → Option Server
  | 0, _ => none
  | fuel + 1, srv =>
    let srv := runHandler p srv
    if (srv.mem p).goesOn then updateStateLoop p fuel srv else some srv

/-- The part of `update_state` behind the loop. -/
def afterLoop (initOp : FdOperation) (p : Ptr) (srv : Server) : ℤ × Server :=
  let s := srv.mem p
  if s.state = stateError ∨ s.state = stateSuccess then
    (0, removeServerState p srv)
  else if initOp ≠ s.op then
    let r := configureEpoll .mod s.intermBuf.fd
      (if s.op = opRead then epollIn else epollOut) (some p) srv
    if r.1 ≠ 0 then (-1, r.2) else (0, r.2)
  else
    (0, srv)

def updateState (fuel : ℕ) (p : Ptr) (srv : Server) : Option (ℤ × Server) :=
  (updateStateLoop p fuel srv).map (afterLoop (srv.mem p).op p)

/-! ## `main` -/

/-- `min_timeout`: the clock it reads, and the timeout in milliseconds. -/
def minTimeout (srv : Server) : ℤ × ℤ × Server :=
  let now := getCurTime srv
  let curTsNs := accumTimeNs now.1
  match binaryHeapTop now.2.toHeapMem with
  | some elem =>
    let minTsNs := accumTimeNs (now.2.mem elem).ts
    if minTsNs ≤ curTsNs then (curTsNs, 0, now.2)
    else (curTsNs, (minTsNs - curTsNs).tdiv secUsFactor, now.2)
  | none => (curTsNs, -1, now.2)

/-- `process_new_connection`; `conSocket` is what `accept4` returns. -/
def processNewConnection (conSocket : Option Fd) (block : Option (Ptr × ServerState))
    (srv : Server) : ℤ × Server :=
  match conSocket with
  | none => (-1, srv)
  | some fd =>
    if srv.heap.size ≥ srv.heap.capacity then
      (0, closeFd fd srv)
    else
      let r := createServerState fd block srv
      if r.1 ≠ 0 then (-1, closeFd fd r.2)
      else (0, r.2.log (.connected (block.elim 0 Prod.fst)))

/-- The loop of `discard_expired_connections`. -/
def discardLoop (curTsNs : ℤ) : ℕ → Server → Option Server
  | 0, _ => none
  | fuel + 1, srv =>
    match binaryHeapTop srv.toHeapMem with
    | none => some srv
    | some elem =>
      if accumTimeNs (srv.mem elem).ts ≤ curTsNs then
        match updateState fuel elem (srv.setState elem stateError) with
        | none => none
        | some r => discardLoop curTsNs fuel r.2
      else
        some srv

def discardExpiredConnections (fuel : ℕ) (srv : Server) : Option Server :=
  let now := getCurTime srv
  discardLoop (accumTimeNs now.1) fuel now.2

/-- Where `main` is: at one of the places where it calls something that is modelled here. -/
inductive Pc
  /-- Before `epoll_wait`. -/
  | epollWait
  /-- In the `for` loop, with these events left. -/
  | dispatch (events : List (Option Ptr))
  /-- At the label `FREE_HEAP_ELEMS`. -/
  | freeHeapElems
  /-- The heap has been freed. -/
  | returned

structure Config where
  pc : Pc
  srv : Server

/-- The pointers that `epoll_wait` may leave in `ep_event_arr`. -/
def Server.Reports (srv : Server) (events : List (Option Ptr)) : Prop :=
  ∃ fds : List Fd, fds.Nodup ∧ fds.length ≤ clientConNum ∧
    List.Forall₂ (fun fd ptr => ∃ mask, srv.epoll fd = some ⟨mask, ptr⟩) fds events

/-- The kernel gives its answers for the next step. -/
def Server.withKernel (srv : Server) (k : Kernel) : Server := { srv with kernel := k }

/-- The steps of `main`, each with any kernel.  `epoll_wait` fails, or expires, or reports some
descriptors that are watched, in any order; each event is a step; and the label `FREE_HEAP_ELEMS`,
which every failure leads to, removes one connection in a step. -/
inductive Step : Config → Config → Prop
  | waitFailed (srv : Server) (k : Kernel) :
    Step ⟨.epollWait, srv⟩ ⟨.freeHeapElems, (minTimeout (srv.withKernel k)).2.2⟩
  | waitExpired (srv : Server) (k : Kernel) {fuel : ℕ} {srv' : Server}
      (h : discardExpiredConnections fuel (minTimeout (srv.withKernel k)).2.2 =
        some srv') :
    Step ⟨.epollWait, srv⟩ ⟨.epollWait, srv'⟩
  | waitEvents (srv : Server) (k : Kernel) {events : List (Option Ptr)}
      (hne : events ≠ []) (h : srv.Reports events) :
    Step ⟨.epollWait, srv⟩ ⟨.dispatch events, (minTimeout (srv.withKernel k)).2.2⟩
  | dispatched (srv : Server) : Step ⟨.dispatch [], srv⟩ ⟨.epollWait, srv⟩
  | newConnection (srv : Server) (k : Kernel) (events : List (Option Ptr))
      {conSocket : Option Fd} {block : Option (Ptr × ServerState)}
      (hfd : ∀ fd ∈ conSocket, srv.epoll fd = none)
      (hblock : ∀ b ∈ block, b.1 ∉ srv.allocated) :
    Step ⟨.dispatch (none :: events), srv⟩
      ⟨if (processNewConnection conSocket block (srv.withKernel k)).1 ≠ 0
          then .freeHeapElems else .dispatch events,
        (processNewConnection conSocket block (srv.withKernel k)).2⟩
  | update (srv : Server) (k : Kernel) (p : Ptr) (events : List (Option Ptr))
      {fuel : ℕ} {r : ℤ × Server} (h : updateState fuel p (srv.withKernel k) = some r) :
    Step ⟨.dispatch (some p :: events), srv⟩
      ⟨if r.1 ≠ 0 then .freeHeapElems else .dispatch events, r.2⟩
  | freeElem (srv : Server) (k : Kernel) (h : 0 < srv.heap.size) :
    Step ⟨.freeHeapElems, srv⟩ ⟨.freeHeapElems,
      removeServerState (srv.heap.arr (srv.heap.size - 1)) (srv.withKernel k)⟩
  | freed (srv : Server) (h : srv.heap.size = 0) :
    Step ⟨.freeHeapElems, srv⟩ ⟨.returned, srv⟩

/-- The process when `main` enters its loop: the heap is allocated, and `epoll`
watches the listening socket. -/
structure Initial (listenSocket : Fd) (srv : Server) : Prop where
  heap : ∃ arr, binaryHeapAllocate arr clientConNum compareServerState swapServerState =
    some srv.heap
  allocated : srv.allocated = ∅
  rows : ∀ z, srv.zodiacPrognosises z = CArray.replicate _ 0
  epoll : srv.epoll = Function.update (fun _ => none) listenSocket (some ⟨epollIn, none⟩)
  trace : srv.trace = []

/-- The states of every run, from the first call of `epoll_wait` to the end of `main`. -/
inductive Reachable : Config → Prop
  | init {listenSocket : Fd} {srv : Server} (h : Initial listenSocket srv) :
    Reachable ⟨.epollWait, srv⟩
  | step {c c' : Config} (h : Reachable c) (hs : Step c c') : Reachable c'

end Astrologer
