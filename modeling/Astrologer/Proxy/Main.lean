import Astrologer.Library.Processes
import Astrologer.Proxy.AccessControl
import Astrologer.Proxy.Failure
import Astrologer.Server.UpdateState

/-!
# The processes of `proxy.c`

`main` connects to the server and listens, and then it forks the two children of
`Proxy.Children`.  It waits for one of them, kills both, and closes what it has opened.  When a
call fails it jumps to the label behind which everything is closed that has been opened until
then.  A child frees its copy of `child_pids`, and `proxy_child` closes its copies of the two
sockets at the end.

So `main` is a program with children (`Processes.Program`), and every step is a system call,
which may fail.  A `send` may do worse.  The source passes no flags to it and leaves `SIGPIPE` as
it is, so a child that sends to a peer who receives no more is killed by its own call
(`Program.mortal`); the errors that `send` returns are the other ones.

Three things come out of it.

* What the children do on the connection to the server is a run of `Proxy.System`, with
  children that have not been forked yet in `accept`: what `System` leaves out makes no
  difference to it (`system_reachable`).
* Nothing is closed or freed that is not held, a process that returns holds nothing, and the
  exit status of `main` tells whether both children were forked.  `main` kills what `fork` has
  returned, each number once.  One of them may be the number that `wait` has returned, which the
  kernel may have given to somebody else by then; all the others are children of `main`
  (`main_sound`).
* Either both children run for ever, or everything comes to its end: `main` returns, no child is
  left, and nobody has the connection to the server or the listening socket any more
  (`main_ends`).
-/

namespace Astrologer.Proxy

open Processes (Holder Program Family Actor Stage)
open Relation (ReflTransGen)
open ProxyStateType

/-! ## `main`

Each call of `main` before and behind the loop is a place, and its error path is the place that
the source jumps to.  What `socket` and `malloc` return is new to the process; `close_fd` and
`free` give back a thing, held or not. -/

/-- A descriptor, or a block of `malloc`. -/
inductive Resource
  | fd (n : Fd)
  | block (p : Ptr)
  deriving DecidableEq

def exitFailure : ℤ := 1

/-- The call that `main` is at, and its local variables: each label of its error path is a place
here, with the value that it is going to return. -/
inductive MainPc
  | socketAstrolog
  | connect (astrologSocket : Fd)
  | socketListen (astrologSocket : Fd)
  | setsockopt (astrologSocket listenSocket : Fd)
  | bind (astrologSocket listenSocket : Fd)
  | listen (astrologSocket listenSocket : Fd)
  | malloc (astrologSocket listenSocket : Fd)
  /-- At the loop. -/
  | fork (astrologSocket listenSocket : Fd) (childPids : Ptr)
  | freeChildPids (astrologSocket listenSocket : Fd) (childPids : Ptr) (ret : ℤ)
  | closeListenSocket (astrologSocket listenSocket : Fd) (ret : ℤ)
  | closeAstrologSocket (astrologSocket : Fd) (ret : ℤ)
  | returned (ret : ℤ)

/-- `main` at a call, with what it holds. -/
structure MainState where
  pc : MainPc
  holder : Holder Resource

/-- `main` is entered; `EXPECTED_ARGC` is 4. -/
def mainStart (argc : ℕ) : MainState :=
  ⟨if argc ≠ 4 then .returned exitFailure else .socketAstrolog, .only ∅⟩

/-- The steps of `main` before and behind the loop.  `socket` and `malloc` return what is not in
use. -/
inductive MainState.Step : MainState → MainState → Prop
  | socketAstrolog {h : Holder Resource} {a : Fd} (ha : .fd a ∉ h.held) :
      Step ⟨.socketAstrolog, h⟩ ⟨.connect a, h.acquire (.fd a)⟩
  | socketAstrologFailed {h : Holder Resource} :
      Step ⟨.socketAstrolog, h⟩ ⟨.returned exitFailure, h⟩
  | connected {h : Holder Resource} {a : Fd} : Step ⟨.connect a, h⟩ ⟨.socketListen a, h⟩
  | connectFailed {h : Holder Resource} {a : Fd} :
      Step ⟨.connect a, h⟩ ⟨.closeAstrologSocket a exitFailure, h⟩
  | socketListen {h : Holder Resource} {a l : Fd} (hl : .fd l ∉ h.held) :
      Step ⟨.socketListen a, h⟩ ⟨.setsockopt a l, h.acquire (.fd l)⟩
  | socketListenFailed {h : Holder Resource} {a : Fd} :
      Step ⟨.socketListen a, h⟩ ⟨.closeAstrologSocket a exitFailure, h⟩
  | optionSet {h : Holder Resource} {a l : Fd} : Step ⟨.setsockopt a l, h⟩ ⟨.bind a l, h⟩
  | setsockoptFailed {h : Holder Resource} {a l : Fd} :
      Step ⟨.setsockopt a l, h⟩ ⟨.closeListenSocket a l exitFailure, h⟩
  | bound {h : Holder Resource} {a l : Fd} : Step ⟨.bind a l, h⟩ ⟨.listen a l, h⟩
  | bindFailed {h : Holder Resource} {a l : Fd} :
      Step ⟨.bind a l, h⟩ ⟨.closeListenSocket a l exitFailure, h⟩
  | listening {h : Holder Resource} {a l : Fd} : Step ⟨.listen a l, h⟩ ⟨.malloc a l, h⟩
  | listenFailed {h : Holder Resource} {a l : Fd} :
      Step ⟨.listen a l, h⟩ ⟨.closeListenSocket a l exitFailure, h⟩
  | malloc {h : Holder Resource} {a l : Fd} {p : Ptr} (hp : .block p ∉ h.held) :
      Step ⟨.malloc a l, h⟩ ⟨.fork a l p, h.acquire (.block p)⟩
  | mallocFailed {h : Holder Resource} {a l : Fd} :
      Step ⟨.malloc a l, h⟩ ⟨.closeListenSocket a l exitFailure, h⟩
  | freeChildPids {h : Holder Resource} {a l : Fd} {p : Ptr} {ret : ℤ} :
      Step ⟨.freeChildPids a l p ret, h⟩ ⟨.closeListenSocket a l ret, h.release (.block p)⟩
  | closeListenSocket {h : Holder Resource} {a l : Fd} {ret : ℤ} :
      Step ⟨.closeListenSocket a l ret, h⟩ ⟨.closeAstrologSocket a ret, h.release (.fd l)⟩
  | closeAstrologSocket {h : Holder Resource} {a : Fd} {ret : ℤ} :
      Step ⟨.closeAstrologSocket a ret, h⟩ ⟨.returned ret, h.release (.fd a)⟩

/-! ## The children

A child has `process_new_connection` inside, which is `Process.Step`; around it are the calls of
`proxy_child`.  Both are put together in `program`, with the loop of `main` between them. -/

/-- The call that a child is at, and its local variables.  It has inherited both sockets and the
block of `child_pids`. -/
inductive ChildPc
  | freeChildPids (astrologSocket listenSocket : Fd) (childPids : Ptr)
  | accept (astrologSocket listenSocket : Fd)
  /-- In `process_new_connection`. -/
  | serving (astrologSocket listenSocket conSocket : Fd) (s : ProxyState) (pos : ℕ)
  | closeConSocket (astrologSocket listenSocket conSocket : Fd) (discType : DisconnectType)
  | closeListenSocket (astrologSocket listenSocket : Fd)
  | closeAstrologSocket (astrologSocket : Fd)
  | returned

/-- A child at a call, with what it holds. -/
structure ChildState where
  pc : ChildPc
  holder : Holder Resource

/-- `process_new_connection` goes on, or it returns. -/
def ChildPc.ofProcess (a l con : Fd) : Process → ChildPc
  | .serving s pos => .serving a l con s pos
  | .accepting => .closeConSocket a l con .disconnectClient
  | .exited => .closeConSocket a l con .disconnectAstrolog

/-- Behind the `close_fd` of a connection. -/
def ChildPc.ofDiscType (a l : Fd) (discType : DisconnectType) : ChildPc :=
  if discType = .disconnectAstrolog then .closeListenSocket a l else .accept a l

/-- The steps of a child: it frees what it has inherited and does not need, accepts clients,
serves each by the steps of `Process`, and closes its descriptors.  A new descriptor is one that
it does not hold. -/
inductive ChildState.Step : ChildState → Label → ChildState → Prop
  | freeChildPids {h : Holder Resource} {a l : Fd} {p : Ptr} :
      Step ⟨.freeChildPids a l p, h⟩ .quiet ⟨.accept a l, h.release (.block p)⟩
  | accept {h : Holder Resource} {a l con : Fd} (hcon : .fd con ∉ h.held) (buf : CharArray) :
      Step ⟨.accept a l, h⟩ .quiet ⟨.ofProcess a l con (.connect buf), h.acquire (.fd con)⟩
  | acceptFailed {h : Holder Resource} {a l : Fd} :
      Step ⟨.accept a l, h⟩ .quiet ⟨.closeListenSocket a l, h⟩
  | serve {h : Holder Resource} {a l con : Fd} {s : ProxyState} {pos : ℕ} {b : Label}
      {p : Process} (hp : (Process.serving s pos).Step b p) :
      Step ⟨.serving a l con s pos, h⟩ b ⟨.ofProcess a l con p, h⟩
  | closeConSocket {h : Holder Resource} {a l con : Fd} {discType : DisconnectType} :
      Step ⟨.closeConSocket a l con discType, h⟩ .quiet
        ⟨.ofDiscType a l discType, h.release (.fd con)⟩
  | closeListenSocket {h : Holder Resource} {a l : Fd} :
      Step ⟨.closeListenSocket a l, h⟩ .quiet ⟨.closeAstrologSocket a, h.release (.fd l)⟩
  | closeAstrologSocket {h : Holder Resource} {a : Fd} :
      Step ⟨.closeAstrologSocket a, h⟩ .quiet ⟨.returned, h.release (.fd a)⟩

/-- The whole program.  A child has a copy of all that `main` has.  When `fork` fails, its
result is returned. -/
def program : Program MainState ChildState Label where
  amount := childProcNum
  own := MainState.Step
  start v :=
    match v.pc with
    | .fork a l p => some ⟨.freeChildPids a l p, v.holder⟩
    | _ => none
  after v all :=
    match v.pc with
    | .fork a l p => ⟨.freeChildPids a l p (if all then 0 else -1), v.holder⟩
    | _ => v
  returned v :=
    match v.pc with
    | .returned _ => true
    | _ => false
  step := ChildState.Step
  ended k :=
    match k.pc with
    | .returned => true
    | _ => false
  mortal k :=
    match k.pc with
    | .serving _ _ _ s _ => decide (s.state = stateSendDenied ∨ s.state = stateSendRequest ∨
        s.state = stateSendReply)
    | _ => false

/-- `main` and its children. -/
abbrev Main := Family MainState ChildState Label

/-! ## What a process holds

`MainPc.holds` and `ChildPc.holds` say for each place what the process has to have there.  That
the record agrees is an invariant of each of the two programs, and with it comes the value that
`main` returns, which each error path has to get right. -/

def MainPc.holds : MainPc → Finset Resource
  | .socketAstrolog => ∅
  | .connect a => {.fd a}
  | .socketListen a => {.fd a}
  | .setsockopt a l => {.fd l, .fd a}
  | .bind a l => {.fd l, .fd a}
  | .listen a l => {.fd l, .fd a}
  | .malloc a l => {.fd l, .fd a}
  | .fork a l p => {.block p, .fd l, .fd a}
  | .freeChildPids a l p _ => {.block p, .fd l, .fd a}
  | .closeListenSocket a l _ => {.fd l, .fd a}
  | .closeAstrologSocket a _ => {.fd a}
  | .returned _ => ∅

/-- What `main` is going to return. -/
def MainPc.ret : MainPc → Option ℤ
  | .freeChildPids _ _ _ ret => some ret
  | .closeListenSocket _ _ ret => some ret
  | .closeAstrologSocket _ ret => some ret
  | .returned ret => some ret
  | _ => none

def ChildPc.holds : ChildPc → Finset Resource
  | .freeChildPids a l p => {.block p, .fd l, .fd a}
  | .accept a l => {.fd l, .fd a}
  | .serving a l con _ _ => {.fd con, .fd l, .fd a}
  | .closeConSocket a l con _ => {.fd con, .fd l, .fd a}
  | .closeListenSocket a l => {.fd l, .fd a}
  | .closeAstrologSocket a => {.fd a}
  | .returned => ∅

/-- The sockets of `main` are two. -/
def MainPc.Distinct : MainPc → Prop
  | .setsockopt a l => l ≠ a
  | .bind a l => l ≠ a
  | .listen a l => l ≠ a
  | .malloc a l => l ≠ a
  | .fork a l _ => l ≠ a
  | .freeChildPids a l _ _ => l ≠ a
  | .closeListenSocket a l _ => l ≠ a
  | _ => True

def ChildPc.Distinct : ChildPc → Prop
  | .freeChildPids a l _ => l ≠ a
  | .accept a l => l ≠ a
  | .serving a l con _ _ => l ≠ a ∧ con ≠ l ∧ con ≠ a
  | .closeConSocket a l con _ => l ≠ a ∧ con ≠ l ∧ con ≠ a
  | .closeListenSocket a l => l ≠ a
  | _ => True

/-- What `main` returns when it has not come to the loop, or when it has forked all the
children, or not. -/
def MainPc.Returns (pc : MainPc) : Option Bool → Prop
  | none => pc.ret = none ∨ pc.ret = some exitFailure
  | some all => pc.ret = some (if all then 0 else -1)

/-- `main` holds what it is going to release, each thing once, and it returns what it should: the
value depends on whether all children were forked (`outcome`). -/
structure MainState.Good (outcome : Option Bool) (v : MainState) : Prop where
  holder : v.holder = .only v.pc.holds
  distinct : v.pc.Distinct
  ret : v.pc.Returns outcome

/-- A child holds what it is going to release, each thing once, and it has released nothing twice.
-/
structure ChildState.Good (k : ChildState) : Prop where
  holder : k.holder = .only k.pc.holds
  distinct : k.pc.Distinct

section Good

variable {v v' : MainState} {k k' : ChildState} {outcome : Option Bool}

theorem fd_notMem {a l : Fd} (h : l ≠ a) : Resource.fd l ∉ ({.fd a} : Finset Resource) :=
  fun hmem => h (Resource.fd.inj (Finset.mem_singleton.mp hmem))

theorem block_notMem {a l : Fd} (p : Ptr) :
    Resource.block p ∉ ({.fd l, .fd a} : Finset Resource) := by simp

theorem con_notMem {a l con : Fd} (hl : con ≠ l) (ha : con ≠ a) :
    Resource.fd con ∉ ({.fd l, .fd a} : Finset Resource) := by simp [hl, ha]

/-- A call before the loop. -/
theorem MainPc.Returns.early {pc pc' : MainPc} (h : pc.Returns outcome) (hpc : pc.ret = none)
    (hpc' : pc'.ret = none ∨ pc'.ret = some exitFailure) : pc'.Returns outcome := by
  cases outcome with
  | none => exact hpc'
  | some all => exact absurd (hpc.symm.trans h) (Option.some_ne_none _).symm

theorem MainPc.Returns.late {pc pc' : MainPc} (h : pc.Returns outcome)
    (hpc : pc'.ret = pc.ret) : pc'.Returns outcome := by
  cases outcome with
  | none => exact h.imp hpc.trans hpc.trans
  | some all => exact hpc.trans h

/-- **What a call of `main` keeps.**  What it has opened is added to what it holds, what it closes
is taken out, and an error goes to the label that closes the rest. -/
theorem MainState.Good.step (h : v.Good outcome) (hs : v.Step v') : v'.Good outcome := by
  obtain ⟨hholder, hdistinct, hret⟩ := h
  cases hs with
  | @socketAstrolog h a ha =>
    obtain rfl : h = .only ∅ := hholder
    exact ⟨rfl, trivial, hret.early rfl (.inl rfl)⟩
  | socketAstrologFailed => exact ⟨hholder, trivial, hret.early rfl (.inr rfl)⟩
  | connected => exact ⟨hholder, trivial, hret.early rfl (.inl rfl)⟩
  | connectFailed => exact ⟨hholder, trivial, hret.early rfl (.inr rfl)⟩
  | @socketListen h a l hl =>
    obtain rfl : h = .only {.fd a} := hholder
    refine ⟨rfl, fun heq => hl ?_, hret.early rfl (.inl rfl)⟩
    rw [heq]
    exact Finset.mem_singleton_self _
  | socketListenFailed => exact ⟨hholder, trivial, hret.early rfl (.inr rfl)⟩
  | optionSet => exact ⟨hholder, hdistinct, hret.early rfl (.inl rfl)⟩
  | setsockoptFailed => exact ⟨hholder, hdistinct, hret.early rfl (.inr rfl)⟩
  | bound => exact ⟨hholder, hdistinct, hret.early rfl (.inl rfl)⟩
  | bindFailed => exact ⟨hholder, hdistinct, hret.early rfl (.inr rfl)⟩
  | listening => exact ⟨hholder, hdistinct, hret.early rfl (.inl rfl)⟩
  | listenFailed => exact ⟨hholder, hdistinct, hret.early rfl (.inr rfl)⟩
  | @malloc h a l p hp =>
    obtain rfl : h = .only {.fd l, .fd a} := hholder
    exact ⟨rfl, hdistinct, hret.early rfl (.inl rfl)⟩
  | mallocFailed => exact ⟨hholder, hdistinct, hret.early rfl (.inr rfl)⟩
  | @freeChildPids h a l p ret =>
    obtain rfl : h = .only {.block p, .fd l, .fd a} := hholder
    exact ⟨Holder.release_insert (block_notMem p), hdistinct, hret.late rfl⟩
  | @closeListenSocket h a l ret =>
    obtain rfl : h = .only {.fd l, .fd a} := hholder
    exact ⟨Holder.release_insert (fd_notMem hdistinct), trivial, hret.late rfl⟩
  | @closeAstrologSocket h a ret =>
    obtain rfl : h = .only {.fd a} := hholder
    exact ⟨Holder.release_singleton _, trivial, hret.late rfl⟩

theorem ChildState.Good.ofProcess {a l con : Fd} {h : Holder Resource}
    (hholder : h = .only {.fd con, .fd l, .fd a}) (hdistinct : l ≠ a ∧ con ≠ l ∧ con ≠ a)
    (p : Process) : ChildState.Good ⟨.ofProcess a l con p, h⟩ := by
  cases p with
  | accepting => exact ⟨hholder, hdistinct⟩
  | serving s pos => exact ⟨hholder, hdistinct⟩
  | exited => exact ⟨hholder, hdistinct⟩

/-- **What a call of a child keeps.**  It closes what it has accepted before it accepts the next
client, and what it has inherited at the end. -/
theorem ChildState.Good.step {b : Label} (h : k.Good) (hs : k.Step b k') : k'.Good := by
  obtain ⟨hholder, hdistinct⟩ := h
  cases hs with
  | @freeChildPids h a l p =>
    obtain rfl : h = .only {.block p, .fd l, .fd a} := hholder
    exact ⟨Holder.release_insert (block_notMem p), hdistinct⟩
  | @accept h a l con hcon buf =>
    obtain rfl : h = .only {.fd l, .fd a} := hholder
    have hnot : Resource.fd con ∉ ({.fd l, .fd a} : Finset Resource) := hcon
    have hne : con ≠ l ∧ con ≠ a := by simpa using hnot
    exact .ofProcess rfl ⟨hdistinct, hne⟩ _
  | acceptFailed => exact ⟨hholder, hdistinct⟩
  | serve hp => exact .ofProcess hholder hdistinct _
  | @closeConSocket h a l con discType =>
    obtain rfl : h = .only {.fd con, .fd l, .fd a} := hholder
    rw [Holder.release_insert (con_notMem hdistinct.2.1 hdistinct.2.2)]
    cases discType with
    | disconnectAstrolog => exact ⟨rfl, hdistinct.1⟩
    | disconnectClient => exact ⟨rfl, hdistinct.1⟩
  | @closeListenSocket h a l =>
    obtain rfl : h = .only {.fd l, .fd a} := hholder
    exact ⟨Holder.release_insert (fd_notMem hdistinct), trivial⟩
  | @closeAstrologSocket h a =>
    obtain rfl : h = .only {.fd a} := hholder
    exact ⟨Holder.release_singleton _, trivial⟩

end Good

/-! ## The program

What the general theory asks of a program: that the invariants are kept, and that `main` has less
to do behind each of its calls. -/

theorem start_eq_some {v : MainState} {k : ChildState} (h : program.start v = some k) :
    ∃ a l p, v.pc = .fork a l p ∧ k = ⟨.freeChildPids a l p, v.holder⟩ := by
  obtain ⟨pc, holder⟩ := v
  cases pc with
  | fork a l p => exact ⟨a, l, p, rfl, (Option.some.inj h).symm⟩
  | _ => cases h

theorem keeps : program.Keeps MainState.Good ChildState.Good where
  own _ _ _ h hs := h.step hs
  start v k h hk := by
    obtain ⟨a, l, p, hpc, rfl⟩ := start_eq_some hk
    have hholder := h.holder
    have hdistinct := h.distinct
    rw [hpc] at hholder hdistinct
    exact ⟨hholder, hdistinct⟩
  after v all h hk := by
    obtain ⟨k, hk⟩ := Option.isSome_iff_exists.mp hk
    obtain ⟨a, l, p, hpc, -⟩ := start_eq_some hk
    have hholder := h.holder
    have hdistinct := h.distinct
    obtain ⟨pc, holder⟩ := v
    cases hpc
    exact ⟨hholder, hdistinct, rfl⟩
  step _ _ _ h hs := h.step hs

/-- How many calls are left. -/
def MainPc.rank : MainPc → ℕ
  | .socketAstrolog => 11
  | .connect _ => 10
  | .socketListen _ => 9
  | .setsockopt _ _ => 8
  | .bind _ _ => 7
  | .listen _ _ => 6
  | .malloc _ _ => 5
  | .fork _ _ _ => 4
  | .freeChildPids _ _ _ _ => 3
  | .closeListenSocket _ _ _ => 2
  | .closeAstrologSocket _ _ => 1
  | .returned _ => 0

theorem lawful : program.Lawful MainState.Good fun v => v.pc.rank where
  own v v' hs := by
    cases hs <;> simp [MainPc.rank]
  after v all hk := by
    obtain ⟨k, hk⟩ := Option.isSome_iff_exists.mp hk
    obtain ⟨a, l, p, hpc, -⟩ := start_eq_some hk
    obtain ⟨pc, holder⟩ := v
    cases hpc
    exact Nat.lt_succ_self 3
  next v hv := by
    obtain ⟨pc, holder⟩ := v
    cases pc with
    | socketAstrolog => exact .inr ⟨_, .socketAstrologFailed⟩
    | connect a => exact .inr ⟨_, .connectFailed⟩
    | socketListen a => exact .inr ⟨_, .socketListenFailed⟩
    | setsockopt a l => exact .inr ⟨_, .setsockoptFailed⟩
    | bind a l => exact .inr ⟨_, .bindFailed⟩
    | listen a l => exact .inr ⟨_, .listenFailed⟩
    | malloc a l => exact .inr ⟨_, .mallocFailed⟩
    | fork a l p => exact .inl rfl
    | freeChildPids a l p ret => exact .inr ⟨_, .freeChildPids⟩
    | closeListenSocket a l ret => exact .inr ⟨_, .closeListenSocket⟩
    | closeAstrologSocket a ret => exact .inr ⟨_, .closeAstrologSocket⟩
    | returned ret => cases hv
  behind all v h := by
    obtain ⟨pc, holder⟩ := v
    cases pc with
    | fork a l p => exact absurd h.ret (Option.some_ne_none _).symm
    | _ => rfl
  returned v hv := by
    obtain ⟨pc, holder⟩ := v
    cases pc with
    | returned ret => exact ⟨rfl, fun v' hs => by cases hs⟩
    | _ => cases hv

/-! ## The connection to the server

A run of the family is a run of the two children on their connection.  A child that was not forked
is one that has not accepted anybody, and a child that was killed is one that takes no more steps;
so the results of `Proxy.AccessControl` hold here too. -/

/-- A child in `Proxy.Children`. -/
def ChildPc.process : ChildPc → Process
  | .freeChildPids _ _ _ => .accepting
  | .accept _ _ => .accepting
  | .serving _ _ _ s pos => .serving s pos
  | .closeConSocket _ _ _ .disconnectClient => .accepting
  | .closeConSocket _ _ _ .disconnectAstrolog => .exited
  | .closeListenSocket _ _ => .exited
  | .closeAstrologSocket _ => .exited
  | .returned => .exited

theorem process_ofProcess (a l con : Fd) (p : Process) :
    (ChildPc.ofProcess a l con p).process = p := by
  cases p <;> rfl

/-- **A call of a child** is a step of `Proxy.Children`, or none. -/
theorem ChildState.Step.process {k k' : ChildState} {b : Label} (h : k.Step b k') :
    k.pc.process.Step b k'.pc.process ∨ b = .quiet ∧ k'.pc.process = k.pc.process := by
  cases h with
  | freeChildPids => exact .inr ⟨rfl, rfl⟩
  | accept hcon buf =>
    left
    rw [process_ofProcess]
    exact .accept buf
  | acceptFailed => exact .inl .acceptFailed
  | serve hp =>
    left
    rw [process_ofProcess]
    exact hp
  | @closeConSocket _ a l con discType => cases discType <;> exact .inr ⟨rfl, rfl⟩
  | closeListenSocket => exact .inr ⟨rfl, rfl⟩
  | closeAstrologSocket => exact .inr ⟨rfl, rfl⟩

variable {f f' : Main}

/-- Where a child is; one that has not been forked will begin with `accept`. -/
def processOf (f : Main) (p : Processes.Pid) : Process :=
  (f.child p).elim .accepting fun c => c.state.pc.process

/-- The children, and what they have sent. -/
def system (f : Main) : System where
  children c := (f.pids[(c : ℕ)]?).elim .accepting (processOf f)
  wire := f.log.flatMap fun x => x.2.bytes

theorem system_congr (hpids : f'.pids = f.pids) (hproc : ∀ p, processOf f' p = processOf f p)
    (hlog : f'.log = f.log) : system f' = system f := by
  rw [system, system, hpids, hlog, funext hproc]

theorem processOf_setChild_self (f : Main) (p : Processes.Pid)
    (c : Processes.Child ChildState) : processOf (f.setChild p c) p = c.state.pc.process := by
  rw [processOf, Family.child_setChild_self]
  rfl

theorem processOf_setChild_of_ne {p q : Processes.Pid} (h : q ≠ p)
    (c : Processes.Child ChildState) : processOf (f.setChild p c) q = processOf f q := by
  rw [processOf, Family.child_setChild_of_ne h, processOf]

/-- A child has not moved. -/
theorem processOf_setChild {p : Processes.Pid} {c c' : Processes.Child ChildState}
    (hp : f.child p = some c) (hpc : c'.state.pc.process = c.state.pc.process)
    (q : Processes.Pid) : processOf (f.setChild p c') q = processOf f q := by
  by_cases hq : q = p
  · subst hq
    rw [processOf_setChild_self, hpc, processOf, hp]
    rfl
  · exact processOf_setChild_of_ne hq c'

theorem processOf_signal (f : Main) (p q : Processes.Pid) (stage : Stage) :
    processOf { f with
      stage := stage
      child := Function.update f.child p ((f.child p).map Processes.Child.signal) } q =
      processOf f q := by
  rw [processOf, processOf]
  dsimp only
  by_cases hq : q = p
  · subst hq
    rw [Function.update_self]
    cases f.child q with
    | none => rfl
    | some c =>
      show c.signal.state.pc.process = c.state.pc.process
      rw [Processes.Child.state_signal]
  · rw [Function.update_of_ne hq]

/-- A new child is in `accept`. -/
theorem system_fork {p : Processes.Pid} {v : MainState} {k : ChildState}
    (hp : f.child p = none) (hk : program.start v = some k) :
    system { f.setChild p ⟨.running, k⟩ with pids := f.pids ++ [p] } = system f := by
  obtain ⟨a, l, ptr, -, rfl⟩ := start_eq_some hk
  have hproc : ∀ q, processOf (f.setChild p ⟨.running, ⟨.freeChildPids a l ptr, v.holder⟩⟩) q =
      processOf f q := by
    intro q
    by_cases hq : q = p
    · subst hq
      rw [processOf_setChild_self, processOf, hp]
      rfl
    · exact processOf_setChild_of_ne hq _
  refine congrArg (System.mk · _) (funext fun c => ?_)
  show ((f.pids ++ [p])[(c : ℕ)]?).elim .accepting (processOf (f.setChild p _)) =
    (f.pids[(c : ℕ)]?).elim .accepting (processOf f)
  rw [funext hproc, List.getElem?_append]
  split
  · rfl
  next hc =>
    rw [List.getElem?_eq_none (not_lt.mp hc)]
    cases hi : [p][(c : ℕ) - f.pids.length]? with
    | none => rfl
    | some q =>
      rw [List.mem_singleton.mp (List.mem_of_getElem? hi)]
      show processOf f p = _
      rw [processOf, hp]
      rfl

/-- A child moves. -/
theorem system_child (h : f.Inv program) {p : Processes.Pid} {l : Processes.Life}
    {k k' : ChildState} {b : Label} (hp : f.child p = some ⟨l, k⟩)
    (hk : k.pc.process.Step b k'.pc.process) :
    ∃ c, (system f).Step c b
      (system { f.setChild p ⟨l, k'⟩ with log := f.log ++ [(p, b)] }) := by
  obtain ⟨i, hi, hip⟩ := List.mem_iff_getElem.mp (h.mem hp)
  have hget : f.pids[i]? = some p := by rw [List.getElem?_eq_getElem hi, hip]
  let c : Child := ⟨i, lt_of_lt_of_le hi h.length_le⟩
  have hc : (system f).children c = k.pc.process := by
    show (f.pids[i]?).elim .accepting (processOf f) = _
    rw [hget]
    show processOf f p = _
    rw [processOf, hp]
    rfl
  have hstep : (system f).Step c b
      ⟨Function.update (system f).children c k'.pc.process, (system f).wire ++ b.bytes⟩ :=
    .step (by rw [hc]; exact hk)
  refine ⟨c, ?_⟩
  convert hstep using 1
  rw [system, System.mk.injEq]
  refine ⟨funext fun d => ?_, ?_⟩
  · by_cases hd : d = c
    · subst hd
      rw [Function.update_self]
      show (f.pids[i]?).elim .accepting (processOf (f.setChild p _)) = _
      rw [hget]
      exact processOf_setChild_self f p _
    · rw [Function.update_of_ne hd]
      show (f.pids[(d : ℕ)]?).elim .accepting (processOf (f.setChild p _)) =
        (f.pids[(d : ℕ)]?).elim .accepting (processOf f)
      cases hq : f.pids[(d : ℕ)]? with
      | none => rfl
      | some q =>
        refine processOf_setChild_of_ne (fun hqp => hd ?_) _
        rw [hqp, ← hget] at hq
        exact Fin.ext ((List.getElem?_inj hi h.nodup).mp hq.symm).symm
  · show (f.log ++ [(p, b)]).flatMap _ = f.log.flatMap _ ++ _
    rw [List.flatMap_append, List.flatMap_singleton]

/-- **What happens on the connection** happens in `Proxy.System` too: a step of a child is one of
the same child there, and any other step changes nothing. -/
theorem system_step (h : f.Inv program) {a : Actor} (hs : Family.Step program a f f') :
    system f' = system f ∨ ∃ c l, (system f).Step c l (system f') := by
  cases hs with
  | own hf hv => exact .inl rfl
  | enter hf hk => exact .inl rfl
  | fork hf hless hp hk => exact .inl (system_fork hp hk)
  | forkFailed hf hless => exact .inl rfl
  | forked hf hall => exact .inl rfl
  | wait hf hp => exact .inl (system_congr rfl (processOf_setChild hp rfl) rfl)
  | @kill _ p left hf =>
    exact .inl (system_congr rfl (fun q => processOf_signal f p q (.killing left)) rfl)
  | killed hf => exact .inl rfl
  | @child _ p l k k' b hl hp hk =>
    rcases hk.process with hstep | ⟨rfl, hsame⟩
    · obtain ⟨c, hc⟩ := system_child h hp hstep
      exact .inr ⟨c, b, hc⟩
    · left
      have hlog : (f.log ++ [(p, Label.quiet)]).flatMap (fun x => x.2.bytes) =
          f.log.flatMap fun x => x.2.bytes := by
        rw [List.flatMap_append]
        exact List.append_nil _
      have hsame' : system (f.setChild p ⟨l, k'⟩) = system f :=
        system_congr rfl (processOf_setChild hp hsame) rfl
      show System.mk (system (f.setChild p ⟨l, k'⟩)).children _ = _
      rw [hsame', hlog]
      rfl
  | exit hl hp hk => exact .inl (system_congr rfl (processOf_setChild hp rfl) rfl)
  | crash hl hp hk => exact .inl (system_congr rfl (processOf_setChild hp rfl) rfl)
  | die hp => exact .inl (system_congr rfl (processOf_setChild hp rfl) rfl)

theorem system_reachable {v : MainState} (h : f.Reachable program v) :
    (system f).Reachable := by
  induction h with
  | refl => exact ReflTransGen.refl
  | tail hreach hs ih =>
    obtain ⟨a, hs⟩ := hs
    rcases system_step (Family.Reachable.inv hreach) hs with heq | hstep
    · rw [heq]
      exact ih
    · exact ReflTransGen.tail ih hstep

/-! ## What comes of a run

The invariants of the family, of the programs and of the connection are put side by side, for
every state that a run can come to. -/

theorem mainStart_good (argc : ℕ) : (mainStart argc).Good none := by
  unfold mainStart
  split
  · exact ⟨rfl, trivial, .inr rfl⟩
  · exact ⟨rfl, trivial, .inl rfl⟩

theorem returned_iff {v : MainState} : program.returned v ↔ ∃ ret, v.pc = .returned ret := by
  obtain ⟨pc, holder⟩ := v
  cases pc with
  | returned ret => exact iff_of_true rfl ⟨ret, rfl⟩
  | _ => exact iff_of_false Bool.false_ne_true (fun ⟨ret, h⟩ => by cases h)

/-- **The exit status** of `main` is `0` exactly when it has forked all its children; what becomes
of these does not matter to it. -/
theorem ret_eq_zero_iff (h : f.Kept program MainState.Good ChildState.Good) {ret : ℤ}
    (hpc : f.parent.pc = .returned ret) : ret = 0 ↔ f.pids.length = childProcNum := by
  have hreturns := h.parent.ret
  have hstart := (lawful.returned _ (returned_iff.mpr ⟨ret, hpc⟩)).1
  rw [Family.outcome, hpc] at hreturns
  split at hreturns
  next hstage =>
    have hret : ret = if decide (f.pids.length = childProcNum) then 0 else -1 :=
      Option.some.inj hreturns
    rw [hret]
    by_cases hall : f.pids.length = childProcNum
    · simp [hall]
    · simp [hall]
  next hstage =>
    have hret : ret = exitFailure :=
      Option.some.inj (hreturns.resolve_left (Option.some_ne_none ret))
    have hnil : f.pids = [] := h.inv.pids_eq_nil hstart hstage
    rw [hret, hnil]
    exact iff_of_false (by decide) (by decide)

/-- **The processes of the proxy are in order**, whatever fails, whoever is killed, and in
whatever order they take their steps.  What is said of a child that has not returned holds until
it ends, in whatever way that is. -/
theorem main_sound {argc : ℕ} (h : f.Reachable program (mainStart argc)) :
    (system f).Reachable ∧
    (f.parent.holder.misused = [] ∧
      ∀ p c, f.child p = some c → c.state.holder.misused = []) ∧
    (∀ ret, f.parent.pc = .returned ret → f.parent.holder.held = ∅ ∧
      (ret = 0 ↔ f.pids.length = childProcNum) ∧
      ∀ p c, f.child p = some c → c.life ≠ .running) ∧
    (∀ p c, f.child p = some c → c.state.pc = .returned → c.state.holder.held = ∅) ∧
    (∀ left, f.stage = .killing left → left <:+ f.pids) ∧
    (f.pids.Nodup ∧ ∀ p, (f.child p).isSome ↔ p ∈ f.pids) ∧
    ∀ p q, f.Reaped p → f.Reaped q → p = q := by
  have hkept := Family.Reachable.kept keeps (mainStart_good argc) h
  refine ⟨system_reachable h, ⟨?_, fun p c hc => ?_⟩, fun ret hpc => ⟨?_, ?_, fun p c hc => ?_⟩,
    fun p c hc hpc => ?_, fun left hstage => hkept.inv.killing_suffix hstage,
    ⟨hkept.inv.nodup, hkept.inv.child_iff⟩, hkept.inv.reaped⟩
  · rw [hkept.parent.holder]
    rfl
  · rw [(hkept.child p c hc).holder]
    rfl
  · rw [hkept.parent.holder, hpc]
    rfl
  · exact ret_eq_zero_iff hkept hpc
  · exact hkept.inv.not_running (lawful.returned _ (returned_iff.mpr ⟨ret, hpc⟩)).1 hc
  · rw [(hkept.child p c hc).holder, hpc]
    rfl

/-! A run to look at: both children are forked, `accept` fails in the first one, and `SIGTERM`
ends the second. -/

theorem reachable_own {v v' : MainState} (h : ReflTransGen MainState.Step v v') :
    (Family.begin v' : Main).Reachable program v := by
  induction h with
  | refl => exact .refl
  | tail _ hs ih => exact .tail ih ⟨.parent, .own (.inl rfl) hs⟩

/-- What `main` holds at the loop. -/
def sampleHolder : Holder Resource :=
  (((Holder.only ∅).acquire (.fd 3)).acquire (.fd 4)).acquire (.block 5)

/-- Both children have been forked, and `main` waits. -/
def sampleWaiting : Main where
  parent := ⟨.fork 3 4 5, sampleHolder⟩
  stage := .waiting
  pids := [7, 8]
  child := Function.update
    (Function.update (fun _ => none) 7 (some ⟨.running, .freeChildPids 3 4 5, sampleHolder⟩))
    8 (some ⟨.running, .freeChildPids 3 4 5, sampleHolder⟩)
  log := []

theorem sampleWaiting_reachable : sampleWaiting.Reachable program (mainStart 4) := by
  have hmain : ReflTransGen MainState.Step (mainStart 4) ⟨.fork 3 4 5, sampleHolder⟩ := by
    refine .head (.socketAstrolog (a := 3) (by decide)) ?_
    refine .head .connected (.head (.socketListen (l := 4) (by decide)) ?_)
    exact .head .optionSet (.head .bound (.head .listening (.single (.malloc (by decide)))))
  have henter := (reachable_own hmain).tail ⟨.parent, .enter rfl rfl⟩
  have hfirst := henter.tail ⟨.parent, .fork (p := 7) rfl (by decide) rfl rfl⟩
  have hsecond := hfirst.tail ⟨.parent, .fork (p := 8) rfl (by decide) rfl rfl⟩
  exact hsecond.tail ⟨.parent, .forked rfl rfl⟩

/-- The first child ends. -/
theorem sampleWaiting_exit : ∃ f : Main,
    ReflTransGen (fun f f' => ∃ a, Family.Step program a f f') sampleWaiting f ∧
      f.parent = sampleWaiting.parent ∧ f.stage = .waiting ∧ f.pids = [7, 8] ∧
      (∃ k, f.child 7 = some ⟨.zombie, k⟩) ∧ ∃ k, f.child 8 = some ⟨.running, k⟩ := by
  have hstart : ReflTransGen (fun f f' => ∃ a, Family.Step program a f f') sampleWaiting
      sampleWaiting := .refl
  have hfree := hstart.tail ⟨.child 7, .child (l := .running) trivial rfl .freeChildPids⟩
  have haccept := hfree.tail ⟨.child 7, .child (l := .running) trivial rfl .acceptFailed⟩
  have hlisten := haccept.tail ⟨.child 7, .child (l := .running) trivial rfl .closeListenSocket⟩
  have hastrolog := hlisten.tail
    ⟨.child 7, .child (l := .running) trivial rfl .closeAstrologSocket⟩
  exact ⟨_, hastrolog.tail ⟨.child 7, .exit (l := .running) trivial rfl rfl⟩, rfl, rfl, rfl,
    ⟨_, rfl⟩, ⟨_, rfl⟩⟩

/-- `main` waits for the first child and kills both, the second one dies, and `main` returns. -/
theorem sampleWaiting_over : ∃ f : Main,
    ReflTransGen (fun f f' => ∃ a, Family.Step program a f f') sampleWaiting f ∧
      f.parent.pc = .returned 0 ∧ f.pids = [7, 8] ∧ f.Over program := by
  obtain ⟨⟨v, stage, pids, child, log⟩, hreach, hparent, hstage, hpids, ⟨k, hk⟩, ⟨k', hk'⟩⟩ :=
    sampleWaiting_exit
  obtain rfl : v = ⟨.fork 3 4 5, sampleHolder⟩ := hparent
  obtain rfl : stage = .waiting := hstage
  obtain rfl : pids = [7, 8] := hpids
  replace hk : child 7 = some ⟨.zombie, k⟩ := hk
  replace hk' : child 8 = some ⟨.running, k'⟩ := hk'
  have hwait := hreach.tail ⟨.parent, .wait rfl hk⟩
  have hkill := (hwait.tail ⟨.parent, .kill rfl⟩).tail ⟨.parent, .kill rfl⟩
  have hdie := hkill.tail ⟨.kernel 8, .die (k := k') (by
    simp [Family.setChild, hk', Processes.Child.signal])⟩
  have hback := hdie.tail ⟨.parent, .killed rfl⟩
  have hfree := hback.tail ⟨.parent, .own (.inr rfl) .freeChildPids⟩
  have hlisten := hfree.tail ⟨.parent, .own (.inr rfl) .closeListenSocket⟩
  have hastrolog := hlisten.tail ⟨.parent, .own (.inr rfl) .closeAstrologSocket⟩
  have hinv := Family.Reachable.inv (sampleWaiting_reachable.trans hastrolog)
  refine ⟨_, hastrolog, rfl, rfl, rfl, fun p c hc => ?_⟩
  have hp : p ∈ [7, 8] := hinv.mem hc
  rcases List.mem_pair.mp hp with rfl | rfl
  · right
    simp [Family.setChild, Processes.Child.signal] at hc
    rw [← hc]
  · left
    simp [Family.setChild] at hc
    rw [← hc]

theorem sampleWaiting_sound : ∃ f : Main, f.pids = [7, 8] ∧ (system f).Reachable ∧
    f.parent.pc = .returned 0 ∧ f.parent.holder.held = ∅ := by
  obtain ⟨f, hf, hpc, hpids, -⟩ := sampleWaiting_over
  have hsound := main_sound (sampleWaiting_reachable.trans hf)
  exact ⟨f, hpids, hsound.1, hpc, (hsound.2.2.1 0 hpc).1⟩

/-! ## Everything comes to its end

Fairness is asked for `main` and for the deliveries of `SIGTERM`, not for the children.  When the
run is over, no process is left that could have a descriptor. -/

/-- Some process has it; what has ended has nothing. -/
def Open (f : Main) (r : Resource) : Prop :=
  r ∈ f.parent.holder.held ∨ ∃ p c, f.child p = some c ∧ c.life.Alive ∧ r ∈ c.state.holder.held

/-- **Everything comes to its end, or both children run for ever.**  The run is fair to `main`
and to the deliveries of `SIGTERM`; the children may do what they like, and may be killed by their
own calls at any time. -/
theorem main_ends (run : Fairness.Run (Family.Step program)) {argc : ℕ}
    (hstart : run.state 0 = .begin (mainStart argc)) (hparent : run.Fair .parent)
    (hkernel : ∀ p, run.Fair (.kernel p)) :
    (∃ n, (run.state n).Over program ∧ ∀ r, ¬ Open (run.state n) r) ∨
      ∃ n, ∀ m ≥ n, (run.state m).pids.length = childProcNum ∧ (run.state m).Waits := by
  have hbegin : (run.state 0).Kept program MainState.Good ChildState.Good := by
    rw [hstart]
    exact Family.Reachable.kept keeps (mainStart_good argc) .refl
  have hkept : ∀ n, (run.state n).Kept program MainState.Good ChildState.Good := fun n =>
    run.keeps _ (fun _ _ _ h hs => Family.Kept.step keeps h hs) hbegin (Nat.zero_le n)
  rcases lawful.over_or_waits keeps run hbegin hparent hkernel with ⟨n, hover⟩ | ⟨n, hwaits⟩
  · refine .inl ⟨n, hover, fun r hopen => ?_⟩
    rcases hopen with hheld | ⟨p, c, hc, halive, -⟩
    · obtain ⟨ret, hpc⟩ := returned_iff.mp hover.1
      rw [(hkept n).parent.holder, hpc] at hheld
      exact Finset.notMem_empty r hheld
    · rcases hover.2 p c hc with hended | hended
      · rw [hended] at halive
        exact halive
      · rw [hended] at halive
        exact halive
  · refine .inr ⟨n, fun m hm => ⟨?_, hwaits m hm⟩⟩
    have horderly := (hkept m).inv.orderly
    rw [Family.Orderly, (hwaits m hm).1] at horderly
    exact horderly.1

/-- The run of the sample, with nobody moving at its end. -/
theorem sampleWaiting_ends : ∃ run : Fairness.Run (Family.Step program),
    run.state 0 = .begin (mainStart 4) ∧ (∃ n, (run.state n).pids = [7, 8]) ∧
      ∃ n, (run.state n).Over program ∧ ∀ r, ¬ Open (run.state n) r := by
  obtain ⟨f, hf, -, hpids, hover⟩ := sampleWaiting_over
  have hreach := sampleWaiting_reachable.trans hf
  have hstuck := (Family.Reachable.inv hreach).not_enabled lawful hover
  obtain ⟨run, hstart, n, hend⟩ := Fairness.exists_run hreach
  refine ⟨run, hstart, ⟨n, by rw [hend n le_rfl, hpids]⟩, ?_⟩
  have hfair : ∀ a, run.Fair a := fun a => Fairness.Run.fair_of_stuck hend (hstuck a)
  refine (main_ends run hstart (hfair _) fun p => hfair _).resolve_right fun ⟨m, hwaits⟩ => ?_
  have hstage := (hwaits (max n m) (le_max_right n m)).2.1
  rw [hend _ (le_max_left n m)] at hstage
  exact (Family.Reachable.inv hreach).not_looping (lawful.returned _ hover.1).1
    (hstage ▸ trivial)

end Astrologer.Proxy
