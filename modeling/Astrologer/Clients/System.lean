import Astrologer.Clients.Process
import Astrologer.Library.Pipe
import Astrologer.Server.Commutation

/-!
# Clients and server

The clients of `client.c` are connected to the server of `astrolog.c`, and all of them run
at once.  A `World` is the server at a step of its event loop, and for every client its
process and its connection.  A connection is two pipes (`Link`): what a `send` takes is put
into one of them at one end, and a `recv` takes what there is at the other.  How much that
is, is open each time, so every segmentation is there, and every partial `send`.

The steps of a world are the steps of the clients and of the server, in any order
(`World.Step`).  What a process sees of a step must fit the pipe of the connection: bytes
received are bytes on their way, an end of the stream is a socket that the other side has
closed, and a `recv` of the server with nothing there fails, because its sockets do not
block.  `epoll_wait` reports what is ready.

What is left out is failure: a call that fails other than by having nothing to receive, and a
connection that is discarded because its time is up.  A connection that the server refuses,
because it has too many, is closed.

## One request outstanding

What makes it work is that a client has one exchange at a time.  `Matched` says where the
two sides are in it: what the server has of the lines, with what is on its way and what is
not yet sent, is all of them; or what the client has of the reply, with what is on its way
and what is owed, is all of it.  So the pipe to the client never has more in it than one
reply, which is what its `recv_line` rests on.
-/

namespace Astrologer.Clients

open Lines ServerStateType FdOperation
open Proxy (StarPair recvLine)

/-! ## Connections -/

/-- What has become of a connection. -/
inductive Stage
  /-- The client has not called `connect`. -/
  | offline
  /-- The server has not called `accept`. -/
  | backlog
  | accepted
  /-- The server has closed it at once. -/
  | refused
  /-- The server has removed it. -/
  | ended
  deriving DecidableEq

/-- A connection: the bytes on the way in the two directions, and what has become of its two ends.
-/
structure Link where
  /-- On the way to the server. -/
  up : List Byte
  /-- On the way to the client. -/
  down : List Byte
  stage : Stage
  /-- The client has closed its socket. -/
  closed : Bool

def Link.unconnected : Link := ⟨[], [], .offline, false⟩

/-- The server has closed its socket. -/
def Link.hungUp (l : Link) : Bool := decide (l.stage = .refused ∨ l.stage = .ended)

/-- What the client does to the connection. -/
def Link.client (l : Link) : Act → Option Link
  | .connect => some { l with stage := .backlog }
  | .enter => some l
  | .sent bs => if bs = [] then none else some { l with up := l.up ++ bs }
  | .sendFailed => none
  | .received .error => none
  | .received (.bytes bs) => (Pipe.receive l.down l.hungUp bs).map fun down => { l with down := down }
  | .close => some { l with closed := true }

/-- What the server does to it.  A `recv` with nothing to receive fails. -/
def Link.server (l : Link) : ConnEvent → Option Link
  | .recv bs => (Pipe.receive l.up l.closed bs).map fun up => { l with up := up }
  | .recvError => if l.up = [] ∧ l.closed = false then some l else none
  | .sent bs => if bs = [] then none else some { l with down := l.down ++ bs }
  | .sendError => none
  | .request _ => some l
  | .prognosis _ _ => some l

/-- What an entry of the server's record about `p` does to the connection of `p`. -/
def Link.flow (p : Ptr) (l : Link) : ServerEvent → Option Link
  | .conn q e => if q = p then l.server e else none
  | .removed q => if q = p then some { l with stage := .ended } else none
  | .heapCall _ _ => some l
  | .removeFailed _ => some l
  | .connected _ => none

/-! ## The world -/

variable {ι : Type*} [DecidableEq ι]

/-- The server, with the process that it is, and the clients with their connections; what stands
behind them relates the two and is read by nobody. -/
structure World (ι : Type*) where
  config : Config
  client : ι → Process
  link : ι → Link
  /-- Whose connection a pointer of the server is. -/
  owner : Ptr → Option ι
  /-- How long the server's record was when the client began its exchange, or when its
  connection was accepted, if that was later. -/
  began : ι → ℕ

/-- What `epoll` has to report: there is a connection to accept, or something to receive.
There is always room to send. -/
def World.Signals (w : World ι) : Option Ptr → Prop
  | none => ∃ i, (w.link i).stage = .backlog
  | some p => (w.config.srv.mem p).op = opRead → ∃ i, w.owner p = some i ∧
      ((w.link i).up ≠ [] ∨ (w.link i).closed = true)

/-- The steps of a world: a client takes a step that its connection allows, or `main` takes one of
its own.  `epoll_wait` reports only what is so (`World.Signals`); `accept4` takes any connection
from the backlog; and in `update_state` the calls of `recv` and `send` take from the connection
and give to it what the server has recorded (`Link.flow`). -/
inductive World.Step : World ι → World ι → Prop
  | client {w : World ι} {i : ι} {a : Act} {c : Process} {l : Link}
      (hc : (w.client i).Step a c) (hl : (w.link i).client a = some l) :
      Step w { w with
        client := Function.update w.client i c
        link := Function.update w.link i l
        began := if a = .enter then Function.update w.began i w.config.srv.trace.length
          else w.began }
  | wait {w : World ι} {srv srv' : Server} {events : List (Option Ptr)}
      (hw : w.config = ⟨.epollWait, srv⟩)
      (hs : Astrologer.Step ⟨.epollWait, srv⟩ ⟨.dispatch events, srv'⟩)
      (hready : ∀ e ∈ events, w.Signals e) :
      Step w { w with config := ⟨.dispatch events, srv'⟩ }
  | dispatched {w : World ι} {srv : Server} (hw : w.config = ⟨.dispatch [], srv⟩) :
      Step w { w with config := ⟨.epollWait, srv⟩ }
  | accept {w : World ι} {srv srv' : Server} {events : List (Option Ptr)} {i : ι} {p : Ptr}
      (hw : w.config = ⟨.dispatch (none :: events), srv⟩)
      (hs : Astrologer.Step ⟨.dispatch (none :: events), srv⟩ ⟨.dispatch events, srv'⟩)
      (hi : (w.link i).stage = .backlog) (hp : srv.since srv' = [.connected p]) :
      Step w { w with
        config := ⟨.dispatch events, srv'⟩
        link := Function.update w.link i { w.link i with stage := .accepted }
        owner := Function.update w.owner p (some i)
        began := Function.update w.began i srv'.trace.length }
  | refuse {w : World ι} {srv srv' : Server} {events : List (Option Ptr)} {i : ι}
      (hw : w.config = ⟨.dispatch (none :: events), srv⟩)
      (hs : Astrologer.Step ⟨.dispatch (none :: events), srv⟩ ⟨.dispatch events, srv'⟩)
      (hi : (w.link i).stage = .backlog) (hfull : srv.heap.size ≥ srv.heap.capacity) :
      Step w { w with
        config := ⟨.dispatch events, srv'⟩
        link := Function.update w.link i { w.link i with stage := .refused } }
  | serve {w : World ι} {srv srv' : Server} {events : List (Option Ptr)} {i : ι} {p : Ptr}
      {l : Link} (hw : w.config = ⟨.dispatch (some p :: events), srv⟩)
      (hs : Astrologer.Step ⟨.dispatch (some p :: events), srv⟩ ⟨.dispatch events, srv'⟩)
      (hp : w.owner p = some i)
      (hl : (srv.since srv').foldlM (Link.flow p) (w.link i) = some l) :
      Step w { w with
        config := ⟨.dispatch events, srv'⟩
        link := Function.update w.link i l }

/-- The server has come to its loop, and no client has done anything: each has its requests, and
its connection is not there yet. -/
structure World.Initial (w : World ι) : Prop where
  server : ∃ listenSocket srv, Astrologer.Initial listenSocket srv ∧ w.config = ⟨.epollWait, srv⟩
  client : ∀ i, ∃ todo, w.client i = .connecting todo
  link : ∀ i, w.link i = .unconnected

/-- The worlds of every run: any number of clients, in any order with the server. -/
inductive World.Reachable : World ι → Prop
  | init {w : World ι} (h : w.Initial) : Reachable w
  | step {w w' : World ι} (h : Reachable w) (hs : w.Step w') : Reachable w'

/-! ## The right reply -/

/-- An entry of the record that a connection is owed a reply for. -/
def serves (p : Ptr) : ServerEvent → Bool
  | .conn q (.request _) => q == p
  | .conn q (.prognosis _ _) => q == p
  | _ => false

/-- The entry that answers an exchange, with the record before it, and the reply. -/
def Exchange.Answer (job : Exchange) (p : Ptr) (pre : List ServerEvent) (e : ServerEvent)
    (reply : List Byte) : Prop :=
  match job with
  | .star pair => e = .conn p (.prognosis pair.zodiacIx pair.prognosis) ∧ reply = starReplySuccess
  | .ordinary z => e = .conn p (.request z) ∧ reply = replyTo (lastPrognosis z pre)

/-- Nothing has been answered since. -/
def Unanswered (p : Ptr) (began : ℕ) (trace : List ServerEvent) : Prop :=
  ∀ e ∈ trace.drop began, serves p e = false

/-- **The exchange has its reply**: one entry of the record since it began is an answer, the
only one, and this is the answer to this exchange. -/
structure Answered (p : Ptr) (began : ℕ) (trace : List ServerEvent) (job : Exchange)
    (reply : List Byte) : Prop where
  answer : ∃ pre e mid, trace = pre ++ e :: mid ∧ began ≤ pre.length ∧
    job.Answer p pre e reply ∧ ∀ f ∈ pre.drop began ++ mid, serves p f = false
  line : IsLine delimiter reply
  fits : reply.length ≤ astrologBufLen

section Record

variable {p : Ptr} {began : ℕ} {trace es : List ServerEvent} {job : Exchange}
  {reply : List Byte}

theorem Unanswered.append (h : Unanswered p began trace) (hes : ∀ e ∈ es, serves p e = false) :
    Unanswered p began (trace ++ es) := by
  intro e he
  rw [List.drop_append] at he
  rcases List.mem_append.mp he with he | he
  · exact h e he
  · exact hes e (List.mem_of_mem_drop he)

theorem Unanswered.of_length_le (h : trace.length ≤ began) : Unanswered p began trace := by
  intro e he
  rw [List.drop_eq_nil_of_le h] at he
  cases he

theorem Answered.append (h : Answered p began trace job reply)
    (hes : ∀ e ∈ es, serves p e = false) : Answered p began (trace ++ es) job reply := by
  obtain ⟨pre, e, mid, rfl, hbegan, hanswer, hnone⟩ := h.answer
  refine ⟨⟨pre, e, mid ++ es, ?_, hbegan, hanswer, fun f hf => ?_⟩, h.line, h.fits⟩
  · rw [List.append_assoc]
    rfl
  · rw [← List.append_assoc] at hf
    rcases List.mem_append.mp hf with hf | hf
    · exact hnone f hf
    · exact hes f hf

/-- The next entry is the answer. -/
theorem Unanswered.answered (h : Unanswered p began trace) (hbegan : began ≤ trace.length)
    {e : ServerEvent} (hanswer : job.Answer p trace e reply) (hline : IsLine delimiter reply)
    (hfit : reply.length ≤ astrologBufLen) : Answered p began (trace ++ [e]) job reply := by
  refine ⟨⟨trace, e, [], rfl, hbegan, hanswer, fun f hf => ?_⟩, hline, hfit⟩
  rw [List.append_nil] at hf
  exact h f hf

end Record

end Astrologer.Clients
