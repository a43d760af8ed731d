import Astrologer.Library.SharedStream
import Astrologer.Proxy.AccessControl

/-!
# Who receives which reply

The children share the connection to the server in the other direction too.  A reply
does not say whose request it answers, and whichever child calls `recv` first gets it;
and when two replies have come, one `recv` may return both, which `recv_line` takes
for an error.

`Net` is the children, the connection, and a server that answers every line it reads
with one line.  Each byte on the connection has its owner written beside it: the child
that has sent it, or the child whose request is answered.  Nobody looks at the owners;
they are there to say what should happen (`Net.Routed`).

## What should happen

* The server reads the requests that a child has forwarded, one by one, and the child
  receives the reply to each of them, each once and in order.
* What a client is sent are the lines that its child has got for it, and nothing else:
  the replies to its own requests, and `DENIED!` for what was not forwarded.  Each is
  sent once and whole, as far as the child has come, unless a `send` to this very client
  fails (`Net.sentTo`, `Net.broken`).

So the bytes of a client are followed from the call that receives them to the calls that
send them on: a child that sent a reply twice, or forgot it, or cut it, would not be
routed.

## When it happens

`guarded_routed`: so it is in every run in which no call on the connection fails, if

* no child sends while the other has sent a part of a request, and
* no `recv` of a child takes a byte of a reply to the other one.

The second condition is about the bytes that are taken, not about those that are there: a
child may receive its own reply while the next one, to the other child, is behind it.
-/

namespace Astrologer.Proxy

open Lines SharedStream ProxyStateType

/-! ## What a child is doing -/

/-- What a child has sent of a request that it has not sent completely. -/
def Process.begun : Process → List Byte
  | .accepting => []
  | .serving s pos => if s.state = stateSendRequest then s.buf.slice 0 pos else []
  | .exited => []

/-- The child waits for a reply. -/
def Process.waiting : Process → Bool
  | .accepting => false
  | .serving s _ => decide (s.state = stateRecvReply)
  | .exited => false

/-- The request that a child is sending. -/
def Process.request : Process → List Byte
  | .accepting => []
  | .serving s _ => s.buf.slice 0 s.len
  | .exited => []

/-- The reply that a child is sending to its client. -/
def Process.passing : Process → Option (List Byte)
  | .accepting => none
  | .serving s _ => if s.state = stateSendReply then some (s.buf.slice 0 s.len) else none
  | .exited => none

/-- The child is at a `send` to its client. -/
def Process.toClient : Process → Bool
  | .accepting => false
  | .serving s _ => decide (s.state = stateSendDenied ∨ s.state = stateSendReply)
  | .exited => false

/-- The child answers its client itself. -/
def Process.denying : Process → Bool
  | .accepting => false
  | .serving s _ => decide (s.state = stateSendDenied)
  | .exited => false

/-- What the child has still to send to its client of the line that it is sending. -/
def Process.pending : Process → List Byte
  | .accepting => []
  | .serving s pos =>
    if s.state = stateSendDenied ∨ s.state = stateSendReply then s.rest pos else []
  | .exited => []

/-- The child has a client. -/
def Process.Serving : Process → Prop
  | .accepting => False
  | .serving _ _ => True
  | .exited => False

/-- How many bytes the `recv` of `recv_line` asks for. -/
def Process.room : Process → ℕ
  | .accepting => 0
  | .serving _ pos => astrologBufLen - pos
  | .exited => 0

/-! ## The network

Every byte on the shared connection carries the child that has sent it, or that it is a reply to;
no program reads these tags, they are for the results to speak about.  What a client is sent is
recorded by the number of the client, and so are the lines that a child has got for it. -/

/-- A line that a child has got for its client: it has denied the request, or it has received the
reply. -/
inductive Answer
  | denied
  | reply (line : List Byte)
  deriving DecidableEq

def Answer.line : Answer → List Byte
  | .denied => starReplyFailure
  | .reply line => line

/-- The children, the connection to the server, and records.  A client is known by the
number of the `accept` that has returned it. -/
structure Net where
  children : Child → Process
  /-- Sent to the server, and not read. -/
  requests : List (Child × Byte)
  /-- Sent by the server, and not received. -/
  replies : List (Child × Byte)
  /-- The client that the child serves. -/
  client : Child → ℕ
  /-- The requests that a child has sent completely, with the client that has asked. -/
  forwarded : Child → List (ℕ × List Byte)
  /-- The lines of a child that the server has read, with its replies. -/
  served : Child → List (List Byte × List Byte)
  /-- The replies that a child has received completely, and the requests that it has
  denied, with the client that it has then. -/
  answers : Child → List (ℕ × Answer)
  /-- What the `send` calls on `con_fd` have taken, for each client of a child. -/
  sentTo : Child → ℕ → List Byte
  /-- A `send` to this client has failed. -/
  broken : Child → ℕ → Bool

/-- After the two calls of `fork`. -/
def Net.init : Net where
  children := fun _ => .accepting
  requests := []
  replies := []
  client := fun _ => 0
  forwarded := fun _ => []
  served := fun _ => []
  answers := fun _ => []
  sentTo := fun _ _ => []
  broken := fun _ _ => false

/-- Who does what.  A `recv` comes with the number of bytes that it takes from the connection,
which is what the guard of a run speaks about. -/
inductive Act
  | own (c : Child)
  | pass (c : Child)
  | send (c : Child)
  | sendFailed (c : Child)
  | recv (c : Child) (bytes : ℕ)
  | recvFailed (c : Child)
  | answer

/-- A child goes on. -/
def Net.move (net : Net) (c : Child) (p : Process) : Net :=
  { net with children := Function.update net.children c p }

/-- An entry for the record of a child. -/
def record {α : Type} (f : Child → List α) (c : Child) (x : α) : Child → List α :=
  Function.update f c (f c ++ [x])

/-- The replies among them. -/
def repliesOf (answers : List (ℕ × Answer)) : List (ℕ × List Byte) :=
  answers.filterMap fun x =>
    match x.2 with
    | .denied => none
    | .reply line => some (x.1, line)

/-- The replies that a child has received completely, with the client that it passes
them to. -/
def Net.relayed (net : Net) (c : Child) : List (ℕ × List Byte) := repliesOf (net.answers c)

/-- The lines for a client, one after the other. -/
def linesOf (answers : List (ℕ × Answer)) (n : ℕ) : List Byte :=
  answers.flatMap fun x => if x.1 = n then x.2.line else []

/-- What a child has got for a client. -/
def Net.linesFor (net : Net) (c : Child) (n : ℕ) : List Byte := linesOf (net.answers c) n

/-- **The steps of the network.**  A child that does not use the connection to the server
accepts, or receives from its client (`own`), or sends to its client (`pass`).  The calls on
the connection are `send` and `recv`, which take any part of what could be taken, and the
server answers a line that has arrived. -/
inductive Net.Step (net : Net) : Act → Net → Prop
  | own {c : Child} {p' : Process} (h : (net.children c).Step .quiet p')
      (hnot : (net.children c).toClient = false) :
    Step net (.own c)
      { net.move c p' with
        client :=
          if net.children c = .accepting then
            Function.update net.client c (net.client c + 1)
          else net.client
        answers :=
          if p'.denying then record net.answers c (net.client c, .denied) else net.answers }
  | pass {c : Child} {s : ProxyState} {pos : ℕ} (hc : net.children c = .serving s pos)
      (hs : (net.children c).toClient = true) (r : SendResult) :
    Step net (.pass c)
      { net.move c (.afterSend handleSendReply s pos r) with
        sentTo := Function.update net.sentTo c (Function.update (net.sentTo c) (net.client c)
          (net.sentTo c (net.client c) ++ sendTaken (s.rest pos) r))
        broken :=
          if r = .error then
            Function.update net.broken c (Function.update (net.broken c) (net.client c) true)
          else net.broken }
  | send {c : Child} {bs : List Byte} {p' : Process}
      (h : (net.children c).Step (.sent bs) p') :
    Step net (.send c)
      { net.move c p' with
        requests := net.requests ++ tag c bs
        forwarded :=
          if p'.waiting then
            record net.forwarded c (net.client c, (net.children c).request)
          else net.forwarded }
  | sendFailed {c : Child} {p' : Process} (h : (net.children c).Step .sendFailed p') :
    Step net (.sendFailed c) (net.move c p')
  | recv {c : Child} {taken rest : List (Child × Byte)} {p' : Process}
      (hne : taken ≠ []) (hroom : taken.length ≤ (net.children c).room)
      (hsplit : net.replies = taken ++ rest)
      (h : (net.children c).Step (.received (.bytes (taken.map Prod.snd))) p') :
    Step net (.recv c taken.length)
      { net.move c p' with
        replies := rest
        answers :=
          match p'.passing with
          | some reply => record net.answers c (net.client c, .reply reply)
          | none => net.answers }
  | recvFailed {c : Child} {r : RecvResult} {p' : Process}
      (hr : r = .error ∨ r = .bytes []) (h : (net.children c).Step (.received r) p') :
    Step net (.recvFailed c) (net.move c p')
  | answer {c : Child} {line rest : List (Child × Byte)} {reply : List Byte}
      (hline : IsLine delimiter (line.map Prod.snd))
      (hlast : line.getLast? = some (c, delimiter)) (hsplit : net.requests = line ++ rest)
      (hreply : IsLine delimiter reply) (hlen : reply.length ≤ astrologBufLen) :
    Step net .answer
      { net with
        requests := rest
        replies := net.replies ++ tag c reply
        served := record net.served c (line.map Prod.snd, reply) }

/-! ## What should happen, and when it does

`Net.Routed` compares the records: what was forwarded with what the server has read, what the
server has answered with what was received, and what was received or denied with what the clients
were sent.  `Net.Guard` is a condition on a step in the state before it, and says when two
children do not get into each other's way. -/

/-- To each request the reply, for the client that has asked. -/
def dueTo (forwarded : List (ℕ × List Byte)) (served : List (List Byte × List Byte)) :
    List (ℕ × List Byte) :=
  List.zipWith (fun f a => (f.1, a.2)) forwarded served

/-- The replies that are due to a child. -/
def Net.due (net : Net) (c : Child) : List (ℕ × List Byte) :=
  dueTo (net.forwarded c) (net.served c)

/-- **The replies of a child are routed.** -/
structure Net.Routed (net : Net) (c : Child) : Prop where
  /-- The server reads what the child has forwarded. -/
  read : (net.served c).map Prod.fst <+: (net.forwarded c).map Prod.snd
  /-- The child receives what is due to it, in order. -/
  received : net.relayed c <+: net.due c
  /-- Only the last reply can be missing, while the child waits for it. -/
  complete : (net.forwarded c).length ≤
    (net.relayed c).length + if (net.children c).waiting then 1 else 0
  /-- What is passed on is the last reply, to the client that has asked. -/
  passing : ∀ reply, (net.children c).passing = some reply →
    (net.relayed c).getLast? = some (net.client c, reply)
  /-- A client is sent its lines, in order, and nothing else. -/
  sent : ∀ n, net.sentTo c n <+: net.linesFor c n
  /-- Nothing is missing but what the child is sending, unless a `send` to this client has
  failed. -/
  whole : ∀ n, net.broken c n = false →
    net.sentTo c n ++ (if n = net.client c then (net.children c).pending else []) =
      net.linesFor c n

/-- No call on the connection fails, no child sends while the other has sent a part of
a request, and no `recv` of a child takes a byte of a reply to the other. -/
def Net.Guard (net : Net) : Act → Prop
  | .own _ => True
  | .pass _ => True
  | .send c => ∀ d, d ≠ c → (net.children d).begun = []
  | .sendFailed _ => False
  | .recv c bytes => ∀ x ∈ net.replies.take bytes, x.1 = c
  | .recvFailed _ => False
  | .answer => True

/-- Every run. -/
def Net.Reachable (net : Net) : Prop :=
  Relation.ReflTransGen (fun a b : Net => ∃ act, a.Step act b) .init net

/-- The runs whose steps all meet the condition. -/
def Net.Guarded (net : Net) : Prop :=
  Relation.ReflTransGen (fun a b : Net => ∃ act, a.Step act b ∧ a.Guard act) .init net

/-! ## The steps of one child

A step of a child, read by what it does for the network: it is about its own business, it sends a
piece of its request, or it receives a piece of its reply.  Each of these has one lemma with the
case that the line is complete by it and the case that it is not. -/

section Child

variable {p p' : Process} {s : ProxyState} {pos : ℕ} {bs : List Byte}

/-- A request has been received from the client, or none. -/
theorem resume_handleRecvRequest (bytes : ℤ) (s : ProxyState) :
    (Process.resume (handleRecvRequest bytes s)).waiting = false ∧
      (Process.resume (handleRecvRequest bytes s)).begun = [] ∧
      (Process.resume (handleRecvRequest bytes s)).passing = none := by
  unfold handleRecvRequest
  simp only
  split
  · exact ⟨rfl, rfl, rfl⟩
  · split
    · exact ⟨rfl, rfl, rfl⟩
    · split <;> exact ⟨rfl, rfl, rfl⟩

/-- A line to the client has been sent, or a part of it. -/
theorem afterSend_handleSendReply_cases (s : ProxyState) (pos : ℕ) (r : SendResult) :
    (∃ pos', Process.afterSend handleSendReply s pos r = .serving s pos') ∨
      (Process.afterSend handleSendReply s pos r).waiting = false ∧
      (Process.afterSend handleSendReply s pos r).begun = [] ∧
      (Process.afterSend handleSendReply s pos r).passing = none := by
  cases r with
  | error => exact Or.inr ⟨rfl, rfl, rfl⟩
  | count k =>
    by_cases hlt : pos + min k (s.len - pos) < s.len
    · exact Or.inl ⟨_, afterSend_more handleSendReply hlt⟩
    · rw [afterSend_done handleSendReply hlt]
      exact Or.inr ⟨rfl, rfl, rfl⟩

/-- A child is about its own business: it neither waits for a reply nor has sent a part of a
request, before the step and behind it. -/
structure Aside (p p' : Process) : Prop where
  waiting : p.waiting = false
  begun : p.begun = []
  waiting' : p'.waiting = false
  begun' : p'.begun = []
  passing : ∀ reply, p'.passing = some reply → p.passing = some reply ∧ p ≠ .accepting

theorem Process.Step.aside (h : p.Step .quiet p') (hinv : p.Inv) : Aside p p' := by
  have hwait : ∀ {t : ProxyStateType} {s : ProxyState}, s.state = t →
      t ≠ stateRecvReply → ∀ pos, (Process.serving s pos).waiting = false :=
    fun hs ht _ => decide_eq_false (hs ▸ ht)
  have hbegun : ∀ {t : ProxyStateType} {s : ProxyState}, s.state = t →
      t ≠ stateSendRequest → ∀ pos, (Process.serving s pos).begun = [] :=
    fun hs ht _ => if_neg (hs ▸ ht)
  have hpass : ∀ {t : ProxyStateType} {s : ProxyState} {pos : ℕ}, s.state = t →
      t ≠ stateSendReply → (Process.serving s pos).passing = none :=
    fun hs ht => if_neg (hs ▸ ht)
  cases h with
  | accept buf => exact ⟨rfl, rfl, rfl, rfl, fun _ hp => by cases hp⟩
  | acceptFailed => exact ⟨rfl, rfl, rfl, rfl, fun _ hp => by cases hp⟩
  | @recvRequest s pos hs r =>
    have hrecv : Receiving s.buf pos := by rwa [Process.Inv, hs] at hinv
    have hres : ∀ bytes t, Aside (.serving s pos) (.resume (handleRecvRequest bytes t)) := by
      intro bytes t
      obtain ⟨hw, hb, hp⟩ := resume_handleRecvRequest bytes t
      refine ⟨hwait hs (by decide) _, hbegun hs (by decide) _, hw, hb, fun reply h => ?_⟩
      rw [hp] at h
      cases h
    rcases afterRecv_cases handleRecvRequest hrecv r with ⟨buf, pos', -, -, heq⟩ |
      ⟨buf, n, -, -, -, heq⟩ | ⟨buf, ret, -, heq⟩
    · rw [heq]
      refine ⟨hwait hs (by decide) _, hbegun hs (by decide) _,
        hwait (s := { s with buf := buf }) hs (by decide) _,
        hbegun (s := { s with buf := buf }) hs (by decide) _, fun reply h => ?_⟩
      rw [hpass (s := { s with buf := buf }) hs (by decide)] at h
      cases h
    · rw [heq]
      exact hres _ _
    · rw [heq]
      exact hres _ _
  | @sendDenied s pos hs r =>
    have hw := hwait hs (by decide)
    have hb := hbegun hs (by decide)
    rcases afterSend_handleSendReply_cases s pos r with ⟨pos', heq⟩ | ⟨hw', hb', hp'⟩
    · rw [heq]
      refine ⟨hw pos, hb pos, hw pos', hb pos', fun reply h => ?_⟩
      rw [hpass hs (by decide)] at h
      cases h
    · refine ⟨hw pos, hb pos, hw', hb', fun reply h => ?_⟩
      rw [hp'] at h
      cases h
  | @sendReply s pos hs r =>
    have hw := hwait hs (by decide)
    have hb := hbegun hs (by decide)
    rcases afterSend_handleSendReply_cases s pos r with ⟨pos', heq⟩ | ⟨hw', hb', hp'⟩
    · rw [heq]
      exact ⟨hw pos, hb pos, hw pos', hb pos', fun reply h => ⟨h, fun h => by cases h⟩⟩
    · refine ⟨hw pos, hb pos, hw', hb', fun reply h => ?_⟩
      rw [hp'] at h
      cases h

theorem pending_of_state {t : ProxyStateType} (hs : s.state = t) (hdenied : t ≠ stateSendDenied)
    (hreply : t ≠ stateSendReply) (pos : ℕ) : (Process.serving s pos).pending = [] :=
  if_neg fun h => h.elim (fun h => hdenied (hs.symm.trans h)) fun h => hreply (hs.symm.trans h)

/-- **A child that does not send to its client** has nothing for it, or denies its request. -/
theorem Process.Step.own_cases (h : p.Step .quiet p') (hinv : p.Inv)
    (hnot : p.toClient = false) : p.pending = [] ∧
      ((p'.denying = true ∧ p.Serving ∧ p'.pending = starReplyFailure) ∨
      p'.denying = false ∧ p'.pending = [] ∧ (p ≠ .accepting → p'.Serving → p.Serving)) := by
  cases h with
  | accept buf => exact ⟨rfl, Or.inr ⟨rfl, rfl, fun hne => absurd rfl hne⟩⟩
  | acceptFailed => exact ⟨rfl, Or.inr ⟨rfl, rfl, fun hne => absurd rfl hne⟩⟩
  | @recvRequest s pos hs r =>
    have hrecv : Receiving s.buf pos := by rwa [Process.Inv, hs] at hinv
    refine ⟨pending_of_state hs (by decide) (by decide) pos, ?_⟩
    rcases afterRecv_cases handleRecvRequest hrecv r with ⟨buf, pos', -, -, heq⟩ |
      ⟨buf, n, hn, hline, -, heq⟩ | ⟨buf, ret, hret, heq⟩
    · rw [heq]
      have hs' : ({ s with buf := buf } : ProxyState).state = stateRecvRequest := hs
      exact Or.inr ⟨decide_eq_false (by rw [hs']; decide),
        pending_of_state hs' (by decide) (by decide) pos', fun _ _ => trivial⟩
    · rw [heq]
      by_cases hclient : clientRequestType <+: buf.slice 0 n
      · obtain ⟨buf', -, hres⟩ :=
          handleRecvRequest_client (s := { s with buf := buf }) hn hline hclient
        rw [hres]
        exact Or.inr ⟨rfl, rfl, fun _ _ => trivial⟩
      · obtain ⟨buf', hbuf, hres⟩ :=
          handleRecvRequest_filtered (s := { s with buf := buf }) hn hline hclient
        rw [hres]
        exact Or.inl ⟨rfl, trivial, hbuf⟩
    · rw [heq, handleRecvRequest]
      by_cases hneg : ret < 0
      · rw [if_pos hneg]
        exact Or.inr ⟨rfl, rfl, fun _ hs => hs.elim⟩
      · rw [if_neg hneg, if_pos (by omega)]
        exact Or.inr ⟨rfl, rfl, fun _ hs => hs.elim⟩
  | sendDenied hs r => exact absurd (Or.inl hs) (of_decide_eq_false hnot)
  | sendReply hs r => exact absurd (Or.inr hs) (of_decide_eq_false hnot)

/-- What a `send` to the client leaves unsent. -/
theorem pending_afterSend (hs : (Process.serving s pos).toClient = true) (hleft : pos < s.len)
    (k : ℕ) : (Process.serving s pos).pending =
      (s.rest pos).take k ++ (Process.afterSend handleSendReply s pos (.count k)).pending := by
  have hpending : ∀ pos, (Process.serving s pos).pending = s.rest pos :=
    fun pos => if_pos (of_decide_eq_true hs)
  rw [hpending]
  by_cases hlt : pos + min k (s.len - pos) < s.len
  · rw [afterSend_more handleSendReply hlt, hpending]
    have hk : min k (s.len - pos) = k := by omega
    rw [hk, ProxyState.rest, ProxyState.rest, Nat.sub_add_eq, ← CArray.drop_slice,
      List.take_append_drop]
  · rw [afterSend_done handleSendReply hlt]
    have hall : (s.rest pos).take k = s.rest pos := by
      refine List.take_of_length_le ?_
      rw [ProxyState.rest, CArray.length_slice]
      omega
    rw [hall]
    exact (List.append_nil _).symm

/-- **A piece of a request is sent**, or the last piece. -/
theorem Process.Step.sent_cases (h : p.Step (.sent bs) p') (hinv : p.Inv) :
    ∃ s pos, p = .serving s pos ∧ s.state = stateSendRequest ∧
      ((∃ pos', p' = .serving s pos' ∧ pos' < s.len ∧
        s.buf.slice 0 pos ++ bs = s.buf.slice 0 pos') ∨
      ∃ s', p' = .serving s' 0 ∧ s'.state = stateRecvReply ∧
        s.buf.slice 0 pos ++ bs = s.buf.slice 0 s.len) := by
  cases h with
  | @sendRequest s pos hs k =>
    rw [Process.Inv, hs] at hinv
    have hleft := hinv.1.left
    have hnext : s.buf.slice 0 pos ++ (s.rest pos).take k =
        s.buf.slice 0 (pos + min k (s.len - pos)) := by
      rw [ProxyState.rest, CArray.take_slice]
      have hsplit := s.buf.slice_append 0 pos (min k (s.len - pos))
      rwa [Nat.zero_add] at hsplit
    refine ⟨s, pos, rfl, hs, ?_⟩
    by_cases hlt : pos + min k (s.len - pos) < s.len
    · exact Or.inl ⟨_, afterSend_more handleSendRequest hlt, hlt, hnext⟩
    · rw [afterSend_done handleSendRequest hlt, resume_handleSendRequest]
      have hall : pos + min k (s.len - pos) = s.len := by omega
      exact Or.inr ⟨_, rfl, rfl, hall ▸ hnext⟩

/-- A child that sends to the server has nothing for its client. -/
theorem Process.Step.sent_pending (h : p.Step (.sent bs) p') (hinv : p.Inv) :
    p.pending = [] ∧ p'.pending = [] ∧ p.Serving := by
  obtain ⟨s, pos, rfl, hs, hcases⟩ := h.sent_cases hinv
  refine ⟨pending_of_state hs (by decide) (by decide) pos, ?_, trivial⟩
  rcases hcases with ⟨pos', rfl, -, -⟩ | ⟨s', rfl, hs', -⟩
  · exact pending_of_state hs (by decide) (by decide) pos'
  · exact pending_of_state hs' (by decide) (by decide) 0

/-- The same, as the connection sees it. -/
theorem Process.Step.send_cases (h : p.Step (.sent bs) p') (hinv : p.Inv) :
    p.waiting = false ∧
      ((p'.begun = p.begun ++ bs ∧ p'.waiting = false ∧ p'.passing = none) ∨
      (p.begun ++ bs = p.request ∧ IsLine delimiter p.request ∧
        ∃ s, p' = .serving s 0 ∧ s.state = stateRecvReply)) := by
  obtain ⟨s, pos, rfl, hs, hcases⟩ := h.sent_cases hinv
  have hbegun : ∀ pos, (Process.serving s pos).begun = s.buf.slice 0 pos :=
    fun pos => if_pos hs
  rw [Process.Inv, hs] at hinv
  refine ⟨decide_eq_false (by rw [hs]; decide), ?_⟩
  rcases hcases with ⟨pos', rfl, -, hnext⟩ | ⟨s', rfl, hs', hall⟩
  · refine Or.inl ⟨?_, decide_eq_false (by rw [hs]; decide), if_neg (by rw [hs]; decide)⟩
    rw [hbegun, hbegun, hnext]
  · refine Or.inr ⟨?_, hinv.1.line, s', rfl, hs'⟩
    rw [hbegun, hall]
    rfl

/-- **A piece of a reply is received**, or the last piece. -/
theorem Process.Step.recv_cases {more reply : List Byte}
    (h : (Process.serving s pos).Step (.received (.bytes bs)) p')
    (hinv : Receiving s.buf pos) (hne : bs ≠ []) (hroom : bs.length ≤ astrologBufLen - pos)
    (hreply : IsLine delimiter reply) (hlen : reply.length ≤ astrologBufLen)
    (hsplit : s.buf.slice 0 pos ++ (bs ++ more) = reply) :
    (more = [] ∧ (p'.passing = some reply ∧ p'.pending = reply) ∧ p'.waiting = false ∧
        p'.begun = []) ∨
      ∃ s' pos', p' = .serving s' pos' ∧ s'.state = stateRecvReply ∧
        s'.buf.slice 0 pos' = s.buf.slice 0 pos ++ bs := by
  have hpos := hinv.room
  have hfit : pos + bs.length ≤ astrologBufLen := by omega
  have htext := (hinv.recvLine_bytes hne hfit).2
  cases h with
  | recvReply hs r =>
    by_cases hmore : more = []
    · rw [hmore, List.append_nil] at hsplit
      rw [afterRecv_line handleRecvReply hinv hne hfit (hsplit ▸ hreply)]
      obtain ⟨s', hres, hst, hline, -⟩ := handleRecvReply_line
        (s := { s with buf := s.buf.memcpy pos bs }) hfit
        (by rw [htext, hsplit]; exact hreply)
      rw [hres]
      have hreply' : s'.buf.slice 0 s'.len = reply := by rw [hline, htext, hsplit]
      refine Or.inl ⟨hmore, ⟨?_, ?_⟩, decide_eq_false (by rw [hst]; decide),
        if_neg (by rw [hst]; decide)⟩
      · rw [Process.passing, if_pos hst, hreply']
      · rw [Process.pending, if_pos (Or.inr hst), ProxyState.rest]
        exact hreply'
    · have hnot : delimiter ∉ s.buf.slice 0 pos ++ bs := by
        intro hmem
        rw [← List.append_assoc] at hsplit
        exact hmore (hreply.eq_nil_of_mem hsplit.symm hmem)
      have hlt : pos + bs.length < astrologBufLen := by
        have hcount := congrArg List.length hsplit
        have hpositive := List.length_pos_iff.mpr hmore
        rw [List.length_append, List.length_append, hinv.length_text] at hcount
        omega
      rw [afterRecv_more handleRecvReply hinv hne hlt hnot]
      exact Or.inr ⟨_, _, rfl, hs, htext⟩

end Child

/-! ## Clients

The connection of a child to its client is simple: the lines that the child has got for the client
are what it was sent and what is left of the line under way.  `Delivered` keeps this over the
steps of the child, also when a `send` fails, which ends the delivery to this client. -/

/-- **What the clients of a child have been sent.**  The child has sent them their lines but
for the rest of the line that it is sending; a client that could not be sent something has a
part of its lines, and is left by the child; and those who will come have nothing yet. -/
structure Delivered (p : Process) (client : ℕ) (answers : List (ℕ × Answer))
    (sentTo : ℕ → List Byte) (broken : ℕ → Bool) : Prop where
  whole : ∀ n, broken n = false →
    sentTo n ++ (if n = client then p.pending else []) = linesOf answers n
  cut : ∀ n, sentTo n <+: linesOf answers n
  serving : p.Serving → broken client = false
  fresh : ∀ n, client < n → broken n = false ∧ sentTo n = [] ∧ linesOf answers n = []

section Delivered

variable {p p' : Process} {client : ℕ} {answers : List (ℕ × Answer)}
  {sentTo : ℕ → List Byte} {broken : ℕ → Bool}

theorem linesOf_concat (answers : List (ℕ × Answer)) (m n : ℕ) (x : Answer) :
    linesOf (answers ++ [(m, x)]) n = linesOf answers n ++ if m = n then x.line else [] := by
  rw [linesOf, linesOf, List.flatMap_append, List.flatMap_singleton]

theorem ite_pending_nil (hp : p.pending = []) (n : ℕ) :
    (if n = client then p.pending else []) = [] := by
  rw [hp, ite_self]

/-- The next client is accepted. -/
theorem Delivered.accept (h : Delivered p client answers sentTo broken) (hp : p.pending = [])
    (hp' : p'.pending = []) : Delivered p' (client + 1) answers sentTo broken := by
  refine ⟨fun n hn => ?_, h.cut, fun _ => (h.fresh _ (Nat.lt_succ_self client)).1,
    fun n hn => h.fresh n (Nat.lt_of_succ_lt hn)⟩
  have hwhole := h.whole n hn
  rw [ite_pending_nil hp] at hwhole
  rw [ite_pending_nil hp', hwhole]

/-- Nothing happens between the child and its client, or the client is left. -/
theorem Delivered.quiet (h : Delivered p client answers sentTo broken) (hp : p.pending = [])
    (hp' : p'.pending = []) (hserving : p'.Serving → p.Serving) :
    Delivered p' client answers sentTo broken := by
  refine ⟨fun n hn => ?_, h.cut, fun hs => h.serving (hserving hs), h.fresh⟩
  have hwhole := h.whole n hn
  rw [ite_pending_nil hp] at hwhole
  rw [ite_pending_nil hp', hwhole]

/-- The child has got a line for its client. -/
theorem Delivered.answer (h : Delivered p client answers sentTo broken) (hp : p.pending = [])
    (hserving : p.Serving) {x : Answer} (hp' : p'.pending = x.line) :
    Delivered p' client (answers ++ [(client, x)]) sentTo broken := by
  refine ⟨fun n hn => ?_, fun n => ?_, fun _ => h.serving hserving, fun n hn => ?_⟩
  · have hwhole := h.whole n hn
    rw [ite_pending_nil hp, List.append_nil] at hwhole
    rw [linesOf_concat, hwhole, hp']
    by_cases hc : n = client
    · rw [if_pos hc, if_pos hc.symm]
    · rw [if_neg hc, if_neg (Ne.symm hc)]
  · rw [linesOf_concat]
    exact (h.cut n).trans (List.prefix_append _ _)
  · obtain ⟨hbroken, hsent, hlines⟩ := h.fresh n hn
    rw [linesOf_concat, hlines, if_neg (Nat.ne_of_lt hn)]
    exact ⟨hbroken, hsent, rfl⟩

/-- The child sends its client a piece of a line. -/
theorem Delivered.pass (h : Delivered p client answers sentTo broken) (hserving : p.Serving)
    {bs : List Byte} (hp : p.pending = bs ++ p'.pending) :
    Delivered p' client answers (Function.update sentTo client (sentTo client ++ bs)) broken := by
  have hnow : (sentTo client ++ bs) ++ p'.pending = linesOf answers client := by
    have hwhole := h.whole client (h.serving hserving)
    rw [if_pos rfl, hp] at hwhole
    rw [List.append_assoc, hwhole]
  refine ⟨fun n hn => ?_, fun n => ?_, fun _ => h.serving hserving, fun n hn => ?_⟩
  · by_cases hc : n = client
    · subst hc
      rw [Function.update_self, if_pos rfl, hnow]
    · have hwhole := h.whole n hn
      rw [if_neg hc] at hwhole
      rw [Function.update_of_ne hc, if_neg hc, hwhole]
  · by_cases hc : n = client
    · subst hc
      rw [Function.update_self]
      exact ⟨_, hnow⟩
    · rw [Function.update_of_ne hc]
      exact h.cut n
  · rw [Function.update_of_ne (Nat.ne_of_gt hn)]
    exact h.fresh n hn

/-- A `send` to the client fails, and the child leaves it. -/
theorem Delivered.fail (h : Delivered p client answers sentTo broken) (hnot : ¬ p'.Serving) :
    Delivered p' client answers sentTo (Function.update broken client true) := by
  refine ⟨fun n hn => ?_, h.cut, fun hs => absurd hs hnot, fun n hn => ?_⟩
  · by_cases hc : n = client
    · subst hc
      rw [Function.update_self] at hn
      cases hn
    · have hwhole := h.whole n ((Function.update_of_ne hc true broken).symm.trans hn)
      rw [if_neg hc] at hwhole
      rw [if_neg hc, hwhole]
  · rw [Function.update_of_ne (Nat.ne_of_gt hn)]
    exact h.fresh n hn

end Delivered

/-! ## Exchanges

Between a child and the server there are three stages, and the guard makes sure that the bytes of
the other child do not move one of them on.  `Net.Stage.congr` is the frame: a stage depends on
the child's own tags and records only. -/

theorem dueTo_concat {f : List (ℕ × List Byte)} {a : List (List Byte × List Byte)}
    (h : a.map Prod.fst = f.map Prod.snd) (x : ℕ × List Byte) (y : List Byte × List Byte) :
    dueTo (f ++ [x]) (a ++ [y]) = dueTo f a ++ [(x.1, y.2)] := by
  have hlen := congrArg List.length h
  rw [List.length_map, List.length_map] at hlen
  rw [dueTo, List.zipWith_append hlen.symm]
  rfl

/-- A request that was not answered is not due. -/
theorem dueTo_concat_left {f : List (ℕ × List Byte)} {a : List (List Byte × List Byte)}
    (h : a.map Prod.fst = f.map Prod.snd) (x : ℕ × List Byte) :
    dueTo (f ++ [x]) a = dueTo f a := by
  have hlen := congrArg List.length h
  rw [List.length_map, List.length_map] at hlen
  rw [dueTo, ← List.append_nil a, List.zipWith_append hlen.symm, List.zipWith_nil_right,
    List.append_nil, List.append_nil]
  rfl

theorem length_dueTo {f : List (ℕ × List Byte)} {a : List (List Byte × List Byte)}
    (h : a.map Prod.fst = f.map Prod.snd) : (dueTo f a).length = f.length := by
  have hlen := congrArg List.length h
  rw [List.length_map, List.length_map] at hlen
  rw [dueTo, List.length_zipWith, hlen, Nat.min_self]

/-- The lines of one child. -/
def ofChild (lines : List (Child × List Byte)) (c : Child) : List (Child × List Byte) :=
  lines.filter fun x => x.1 = c

/-- **Where a child stands in its exchange with the server.**  `lines` are the requests
that were sent completely and not read. -/
inductive Net.Stage (net : Net) (lines : List (Child × List Byte)) (c : Child) : Prop
  /-- Everything has been answered and received. -/
  | idle (hwait : (net.children c).waiting = false) (hlines : ofChild lines c = [])
      (hflight : share c net.replies = [])
      (hread : (net.served c).map Prod.fst = (net.forwarded c).map Prod.snd)
      (hdue : net.relayed c = dueTo (net.forwarded c) (net.served c))
  /-- A request was sent, and not read. -/
  | asked {s : ProxyState} {l : List Byte} {f : List (ℕ × List Byte)}
      (hproc : net.children c = .serving s 0) (hs : s.state = stateRecvReply)
      (hlines : ofChild lines c = [(c, l)]) (hflight : share c net.replies = [])
      (hf : net.forwarded c = f ++ [(net.client c, l)])
      (hread : (net.served c).map Prod.fst = f.map Prod.snd)
      (hdue : net.relayed c = dueTo f (net.served c))
  /-- A request was answered, and the reply was not received completely. -/
  | answered {s : ProxyState} {pos : ℕ} {l reply : List Byte} {f : List (ℕ × List Byte)}
      {a : List (List Byte × List Byte)} (hproc : net.children c = .serving s pos)
      (hs : s.state = stateRecvReply) (hlines : ofChild lines c = [])
      (hreply : IsLine delimiter reply) (hlen : reply.length ≤ astrologBufLen)
      (hflight : s.buf.slice 0 pos ++ share c net.replies = reply)
      (hf : net.forwarded c = f ++ [(net.client c, l)])
      (ha : net.served c = a ++ [(l, reply)]) (hread : a.map Prod.fst = f.map Prod.snd)
      (hdue : net.relayed c = dueTo f a)

/-- What the clients of a child of the network have been sent. -/
def Net.Delivers (net : Net) (c : Child) : Prop :=
  Delivered (net.children c) (net.client c) (net.answers c) (net.sentTo c) (net.broken c)

/-- What was recorded of a child, and the part of the replies that is its own, is the same in two
states of the network. -/
structure Net.SameFor (net net' : Net) (d : Child) : Prop where
  client : net'.client d = net.client d
  answers : net'.answers d = net.answers d
  sentTo : net'.sentTo d = net.sentTo d
  broken : net'.broken d = net.broken d
  forwarded : net'.forwarded d = net.forwarded d
  served : net'.served d = net.served d
  flight : share d net'.replies = share d net.replies

theorem Net.SameFor.relayed {net net' : Net} {d : Child} (h : net.SameFor net' d) :
    net'.relayed d = net.relayed d := congrArg repliesOf h.answers

section Stage

variable {net net' : Net} {lines lines' : List (Child × List Byte)} {c d : Child}

/-- What others do does not matter. -/
theorem Net.Stage.congr (h : net.Stage lines d) (hproc : net'.children d = net.children d)
    (hclient : net'.client d = net.client d)
    (hlines : ofChild lines' d = ofChild lines d)
    (hflight : share d net'.replies = share d net.replies)
    (hf : net'.forwarded d = net.forwarded d) (ha : net'.served d = net.served d)
    (hr : net'.relayed d = net.relayed d) : net'.Stage lines' d := by
  cases h with
  | idle hwait hl hfl hread hdue =>
    refine .idle ?_ ?_ ?_ ?_ ?_
    · rw [hproc, hwait]
    · rw [hlines, hl]
    · rw [hflight, hfl]
    · rw [hf, ha, hread]
    · rw [hf, ha, hr, hdue]
  | @asked s l f hp hs hl hfl hfwd hread hdue =>
    refine .asked (f := f) (hproc.trans hp) hs (hlines.trans hl) (hflight.trans hfl)
      ?_ ?_ ?_
    · rw [hf, hfwd, hclient]
    · rw [ha, hread]
    · rw [hr, ha, hdue]
  | answered hp hs hl hrep hlen hfl hfwd hserved hread hdue =>
    refine .answered (hproc.trans hp) hs (hlines.trans hl) hrep hlen ?_ ?_
      (ha.trans hserved) hread (hr.trans hdue)
    · rw [hflight, hfl]
    · rw [hf, hfwd, hclient]

/-- The exchange is over when the child does not wait. -/
theorem Net.Stage.idle_of_not_waiting (h : net.Stage lines c)
    (hwait : (net.children c).waiting = false) :
    ofChild lines c = [] ∧ share c net.replies = [] ∧
      (net.served c).map Prod.fst = (net.forwarded c).map Prod.snd ∧
      net.relayed c = dueTo (net.forwarded c) (net.served c) := by
  cases h with
  | idle _ hlines hflight hread hdue => exact ⟨hlines, hflight, hread, hdue⟩
  | asked hproc hs _ _ _ _ _ =>
    rw [hproc] at hwait
    exact absurd hs (of_decide_eq_false hwait)
  | answered hproc hs _ _ _ _ _ _ _ _ =>
    rw [hproc] at hwait
    exact absurd hs (of_decide_eq_false hwait)

/-- **A stage is routed.**  What is due to the child is what it has received, but for the reply of
the exchange that is under way. -/
theorem Net.Stage.routed (h : net.Stage lines c)
    (hpass : ∀ reply, (net.children c).passing = some reply →
      (net.relayed c).getLast? = some (net.client c, reply)) (hsent : net.Delivers c) :
    net.Routed c := by
  cases h with
  | idle hwait hlines hflight hread hdue =>
    refine ⟨hread ▸ List.prefix_rfl, hdue ▸ List.prefix_rfl, ?_, hpass, hsent.cut, hsent.whole⟩
    rw [hdue, length_dueTo hread]
    exact Nat.le_add_right _ _
  | asked hproc hs hlines hflight hf hread hdue =>
    have hwait : (net.children c).waiting = true := by
      rw [hproc]
      exact decide_eq_true hs
    refine ⟨?_, ?_, ?_, hpass, hsent.cut, hsent.whole⟩
    · rw [hread, hf, List.map_append]
      exact List.prefix_append _ _
    · refine ⟨[], ?_⟩
      rw [List.append_nil, Net.due, hf, dueTo_concat_left hread, hdue]
    · refine Nat.le_of_eq ?_
      rw [hdue, length_dueTo hread, hf, hwait, List.length_append, List.length_singleton,
        if_pos rfl]
  | answered hproc hs hlines hreply hlen hflight hf ha hread hdue =>
    have hwait : (net.children c).waiting = true := by
      rw [hproc]
      exact decide_eq_true hs
    refine ⟨?_, ?_, ?_, hpass, hsent.cut, hsent.whole⟩
    · refine ⟨[], ?_⟩
      rw [List.append_nil, hf, ha, List.map_append, List.map_append, hread]
      rfl
    · rw [Net.due, hf, ha, dueTo_concat hread, hdue]
      exact List.prefix_append _ _
    · refine Nat.le_of_eq ?_
      rw [hdue, length_dueTo hread, hf, hwait, List.length_append, List.length_singleton,
        if_pos rfl]

end Stage

/-! ## The invariant

The guard comes in at two places: a piece of a request can be appended only where no request of
the other child has been begun, and a piece that is received belongs to the reply at the front,
which is the child's own. -/

/-- **The invariant of the guarded runs.**  The bytes before the server are complete requests and
the beginning of one at most; each child is at a stage of its exchange with the server; a reply
that is being passed on is the last one received; and what its clients were sent is in order. -/
structure Net.Inv (net : Net) : Prop where
  children : ∀ c, (net.children c).Inv
  /-- The server has before it the requests sent, and the beginning of one. -/
  stream : ∃ lines tail, net.requests = merged lines ++ tail ∧
    (∀ x ∈ lines, IsLine delimiter x.2) ∧
    (∃ c, tail = tag c (net.children c).begun ∧
      ∀ d, d ≠ c → (net.children d).begun = []) ∧
    ∀ c, net.Stage lines c
  passing : ∀ c reply, (net.children c).passing = some reply →
    (net.relayed c).getLast? = some (net.client c, reply)
  delivers : ∀ c, net.Delivers c

theorem Net.Inv.routed {net : Net} (h : net.Inv) (c : Child) : net.Routed c := by
  obtain ⟨lines, tail, -, -, -, hstage⟩ := h.stream
  exact (hstage c).routed (h.passing c) (h.delivers c)

theorem Net.init_inv : Net.init.Inv := by
  have hlines : ∀ x ∈ ([] : List (Child × List Byte)), IsLine delimiter x.2 :=
    fun x hx => absurd hx List.not_mem_nil
  have hstage : ∀ c, Net.init.Stage [] c := fun _ => .idle rfl rfl rfl rfl rfl
  have hpass : ∀ c reply, (Net.init.children c).passing = some reply →
      (Net.init.relayed c).getLast? = some (Net.init.client c, reply) :=
    fun _ _ hp => by cases hp
  have hdelivers : ∀ c, Net.init.Delivers c := fun _ =>
    ⟨fun n _ => ite_pending_nil rfl n, fun _ => List.prefix_rfl, fun hs => hs.elim,
      fun _ _ => ⟨rfl, rfl, rfl⟩⟩
  exact ⟨fun _ => trivial, ⟨[], [], rfl, hlines, ⟨0, rfl, fun _ _ => rfl⟩, hstage⟩, hpass,
    hdelivers⟩

section Steps

variable {net : Net} {c : Child}

theorem move_self (net : Net) (c : Child) (p : Process) : (net.move c p).children c = p :=
  Function.update_self _ _ _

theorem move_ne {d : Child} (hd : d ≠ c) (p : Process) :
    (net.move c p).children d = net.children d := Function.update_of_ne hd _ _

theorem record_self {α : Type} (f : Child → List α) (c : Child) (x : α) :
    record f c x c = f c ++ [x] := Function.update_self _ _ _

theorem record_ne {α : Type} {d : Child} (hd : d ≠ c) (f : Child → List α) (x : α) :
    record f c x d = f d := Function.update_of_ne hd _ _

theorem repliesOf_denied (answers : List (ℕ × Answer)) (n : ℕ) :
    repliesOf (answers ++ [(n, .denied)]) = repliesOf answers := by
  rw [repliesOf, List.filterMap_append]
  exact List.append_nil _

theorem repliesOf_reply (answers : List (ℕ × Answer)) (n : ℕ) (line : List Byte) :
    repliesOf (answers ++ [(n, .reply line)]) = repliesOf answers ++ [(n, line)] := by
  rw [repliesOf, List.filterMap_append]
  rfl

/-- A denial is not relayed. -/
theorem repliesOf_record_denied (f : Child → List (ℕ × Answer)) (c d : Child) (n : ℕ) :
    repliesOf (record f c (n, .denied) d) = repliesOf (f d) := by
  by_cases hd : d = c
  · rw [hd, record_self, repliesOf_denied]
  · rw [record_ne hd]

/-- What a child does does not matter to the clients of another one. -/
theorem Net.Delivers.congr {net' : Net} {d : Child} (h : net.Delivers d)
    (hproc : net'.children d = net.children d) (hclient : net'.client d = net.client d)
    (hanswers : net'.answers d = net.answers d) (hsent : net'.sentTo d = net.sentTo d)
    (hbroken : net'.broken d = net.broken d) : net'.Delivers d := by
  rw [Net.Delivers, hproc, hclient, hanswers, hsent, hbroken]
  exact h

theorem Net.Inv.move (h : net.Inv) {l : Label} {p' : Process}
    (hs : (net.children c).Step l p') (d : Child) : ((net.move c p').children d).Inv := by
  by_cases hd : d = c
  · rw [hd, move_self]
    exact hs.inv (h.children c)
  · rw [move_ne hd]
    exact h.children d

theorem ofChild_concat_self (lines : List (Child × List Byte)) (c : Child)
    (l : List Byte) : ofChild (lines ++ [(c, l)]) c = ofChild lines c ++ [(c, l)] := by
  rw [ofChild, List.filter_append, List.filter_singleton, decide_eq_true rfl]
  rfl

theorem ofChild_concat_ne {d : Child} (hd : d ≠ c) (lines : List (Child × List Byte))
    (l : List Byte) : ofChild (lines ++ [(c, l)]) d = ofChild lines d := by
  have hne : decide (((c, l) : Child × List Byte).1 = d) = false :=
    decide_eq_false (Ne.symm hd)
  rw [ofChild, List.filter_append, List.filter_singleton, hne]
  exact List.append_nil _

/-- **A step of one child is about that child.**  What is shown of the child that moves is its own
stage, its own reply and its own clients; the other children have their records, their requests
and their replies as before, and so their part of the invariant. -/
theorem Net.Inv.moved (h : net.Inv) {l : Label} {p' : Process}
    (hs : (net.children c).Step l p') {net' : Net} {lines lines' : List (Child × List Byte)}
    {tail : List (Child × Byte)} (hproc : net'.children = (net.move c p').children)
    (hother : ∀ d, d ≠ c → net.SameFor net' d) (hstage : ∀ d, net.Stage lines d)
    (hrequests : net'.requests = merged lines' ++ tail)
    (hlines : ∀ x ∈ lines', IsLine delimiter x.2)
    (htail : ∃ c₀, tail = tag c₀ (net'.children c₀).begun ∧
      ∀ d, d ≠ c₀ → (net'.children d).begun = [])
    (hof : ∀ d, d ≠ c → ofChild lines' d = ofChild lines d) (hself : net'.Stage lines' c)
    (hpass : ∀ reply, p'.passing = some reply →
      (net'.relayed c).getLast? = some (net'.client c, reply))
    (hdelivers : net'.Delivers c) : net'.Inv := by
  have hchild : ∀ d, d ≠ c → net'.children d = net.children d := by
    intro d hd
    rw [hproc, move_ne hd]
  refine ⟨fun d => hproc ▸ h.move hs d,
    ⟨lines', tail, hrequests, hlines, htail, fun d => ?_⟩, fun d reply hp => ?_, fun d => ?_⟩
  · by_cases hd : d = c
    · exact hd ▸ hself
    · have hsame := hother d hd
      exact (hstage d).congr (hchild d hd) hsame.client (hof d hd) hsame.flight
        hsame.forwarded hsame.served hsame.relayed
  · by_cases hd : d = c
    · rw [hd] at hp ⊢
      rw [hproc, move_self] at hp
      exact hpass reply hp
    · have hsame := hother d hd
      rw [hchild d hd] at hp
      rw [hsame.relayed, hsame.client]
      exact h.passing d reply hp
  · by_cases hd : d = c
    · exact hd ▸ hdelivers
    · have hsame := hother d hd
      exact (h.delivers d).congr (hchild d hd) hsame.client hsame.answers hsame.sentTo
        hsame.broken

/-- **A child is about its own business**, and what it does with its clients is right. -/
theorem Net.Inv.aside (h : net.Inv) {p' : Process} (hs : (net.children c).Step .quiet p')
    {net' : Net} (hproc : net'.children = (net.move c p').children)
    (hrequests : net'.requests = net.requests) (hreplies : net'.replies = net.replies)
    (hforwarded : net'.forwarded = net.forwarded) (hserved : net'.served = net.served)
    (hrelayed : ∀ d, net'.relayed d = net.relayed d)
    (hclient : ∀ d, d ≠ c → net'.client d = net.client d)
    (hsame : net.children c ≠ .accepting → net'.client c = net.client c)
    (hdelivers : ∀ d, net'.Delivers d) : net'.Inv := by
  have haside := hs.aside (h.children c)
  obtain ⟨lines, tail, hreq, hlines, ⟨c₀, htail, hothers⟩, hstage⟩ := h.stream
  have hbegun : ∀ d, (net'.children d).begun = (net.children d).begun := by
    intro d
    rw [hproc]
    by_cases hd : d = c
    · rw [hd, move_self, haside.begun, haside.begun']
    · rw [move_ne hd]
  refine ⟨fun d => hproc ▸ h.move hs d, ⟨lines, tail, hrequests.trans hreq, hlines,
    ⟨c₀, ?_, fun d hd => ?_⟩, fun d => ?_⟩, fun d reply hp => ?_, hdelivers⟩
  · exact htail.trans (congrArg (tag c₀) (hbegun c₀).symm)
  · exact (hbegun d).trans (hothers d hd)
  · by_cases hd : d = c
    · rw [hd]
      obtain ⟨hl, hf, hread, hdue⟩ := (hstage c).idle_of_not_waiting haside.waiting
      refine .idle ?_ hl ?_ ?_ ?_
      · rw [hproc, move_self]
        exact haside.waiting'
      · rw [hreplies, hf]
      · rw [hserved, hforwarded, hread]
      · rw [hrelayed, hserved, hforwarded, hdue]
    · exact (hstage d).congr (by rw [hproc, move_ne hd]) (hclient d hd) rfl (by rw [hreplies])
        (by rw [hforwarded]) (by rw [hserved]) (hrelayed d)
  · rw [hproc] at hp
    rw [hrelayed]
    by_cases hd : d = c
    · rw [hd] at hp ⊢
      rw [move_self] at hp
      obtain ⟨hold, hacc⟩ := haside.passing reply hp
      rw [hsame hacc]
      exact h.passing c reply hold
    · rw [move_ne hd] at hp
      rw [hclient d hd]
      exact h.passing d reply hp

/-- **A child accepts, or receives from its client.** -/
theorem Net.Inv.own (h : net.Inv) {p' : Process} (hs : (net.children c).Step .quiet p')
    (hnot : (net.children c).toClient = false) :
    Net.Inv { net.move c p' with
      client :=
        if net.children c = .accepting then Function.update net.client c (net.client c + 1)
        else net.client
      answers :=
        if p'.denying then record net.answers c (net.client c, .denied) else net.answers } := by
  obtain ⟨hnone, hcases⟩ := hs.own_cases (h.children c) hnot
  refine h.aside hs rfl rfl rfl rfl rfl (fun d => ?_) (fun d hd => ?_) (fun hacc => ?_)
    fun d => ?_
  · rw [Net.relayed, Net.relayed]
    dsimp only
    split
    · exact repliesOf_record_denied _ _ _ _
    · rfl
  · dsimp only
    split
    · exact Function.update_of_ne hd _ _
    · rfl
  · dsimp only
    rw [if_neg hacc]
  · by_cases hd : d = c
    · subst hd
      have hbefore := h.delivers d
      rw [Net.Delivers]
      dsimp only
      rw [move_self]
      rcases hcases with ⟨hdenying, hserving, hnew⟩ | ⟨hdenying, hnew, hserving⟩
      · have hacc : net.children d ≠ .accepting := by
          intro hacc
          rw [hacc] at hserving
          exact hserving
        rw [if_neg hacc, if_pos hdenying, record_self]
        exact hbefore.answer hnone hserving hnew
      · rw [hdenying]
        by_cases hacc : net.children d = .accepting
        · rw [if_pos hacc, Function.update_self]
          exact hbefore.accept hnone hnew
        · rw [if_neg hacc]
          exact hbefore.quiet hnone hnew (hserving hacc)
    · refine (h.delivers d).congr (move_ne hd _) ?_ ?_ rfl rfl
      · dsimp only
        split
        · exact Function.update_of_ne hd _ _
        · rfl
      · dsimp only
        split
        · exact record_ne hd _ _
        · rfl

/-- **A child sends its client a piece of a line**, or fails to. -/
theorem Net.Inv.pass (h : net.Inv) {s : ProxyState} {pos : ℕ}
    (hc : net.children c = .serving s pos) (hs : (net.children c).toClient = true)
    (r : SendResult) :
    Net.Inv { net.move c (.afterSend handleSendReply s pos r) with
      sentTo := Function.update net.sentTo c (Function.update (net.sentTo c) (net.client c)
        (net.sentTo c (net.client c) ++ sendTaken (s.rest pos) r))
      broken :=
        if r = .error then
          Function.update net.broken c (Function.update (net.broken c) (net.client c) true)
        else net.broken } := by
  have hinv := h.children c
  rw [hc] at hs hinv
  have hstate : s.state = stateSendDenied ∨ s.state = stateSendReply := of_decide_eq_true hs
  have hstep : (net.children c).Step .quiet (.afterSend handleSendReply s pos r) := by
    rw [hc]
    exact hstate.elim (fun hs => .sendDenied hs r) fun hs => .sendReply hs r
  have hsending : Sending s pos := by
    rcases hstate with hstate | hstate
    · rwa [Process.Inv, hstate] at hinv
    · rwa [Process.Inv, hstate] at hinv
  refine h.aside hstep rfl rfl rfl rfl rfl (fun _ => rfl) (fun _ _ => rfl) (fun _ => rfl)
    fun d => ?_
  by_cases hd : d = c
  · subst hd
    have hbefore := h.delivers d
    rw [Net.Delivers, hc] at hbefore
    rw [Net.Delivers]
    dsimp only
    rw [move_self, Function.update_self]
    cases r with
    | error =>
      rw [if_pos rfl, Function.update_self, sendTaken, List.append_nil, Function.update_eq_self]
      exact hbefore.fail id
    | count k =>
      rw [if_neg SendResult.noConfusion]
      exact hbefore.pass trivial (pending_afterSend hs hsending.left k)
  · refine (h.delivers d).congr (move_ne hd _) rfl rfl ?_ ?_
    · exact Function.update_of_ne hd _ _
    · dsimp only
      split
      · exact Function.update_of_ne hd _ _
      · rfl

/-- **A child sends a piece of its request**, and the other is not in the middle of
one. -/
theorem Net.Inv.send (h : net.Inv) {bs : List Byte} {p' : Process}
    (hs : (net.children c).Step (.sent bs) p')
    (hg : ∀ d, d ≠ c → (net.children d).begun = []) :
    Net.Inv { net.move c p' with
      requests := net.requests ++ tag c bs
      forwarded :=
        if p'.waiting then
          record net.forwarded c (net.client c, (net.children c).request)
        else net.forwarded } := by
  obtain ⟨hwait, hcases⟩ := hs.send_cases (h.children c)
  obtain ⟨lines, tail, hreq, hlines, ⟨c₀, htail, hothers⟩, hstage⟩ := h.stream
  -- the tail is what this child has sent
  have htail : tail = tag c (net.children c).begun := by
    by_cases hc : c = c₀
    · rw [hc, htail]
    · rw [htail, hg c₀ (Ne.symm hc), hothers c hc]
      rfl
  obtain ⟨hl, hf, hread, hdue⟩ := (hstage c).idle_of_not_waiting hwait
  have hother : ∀ d, d ≠ c → ((net.move c p').children d).begun = [] := by
    intro d hd
    rw [move_ne hd]
    exact hg d hd
  have hdelivers : (net.move c p').Delivers c := by
    obtain ⟨hnone, hnew, hserving⟩ := hs.sent_pending (h.children c)
    rw [Net.Delivers, move_self]
    exact (h.delivers c).quiet hnone hnew fun _ => hserving
  rcases hcases with ⟨hbegun, hwait', hpass⟩ | ⟨hall, hline, s, rfl, hst⟩
  · -- the request is not complete
    rw [if_neg (by rw [hwait']; decide)]
    have hrequests : net.requests ++ tag c bs = merged lines ++ (tail ++ tag c bs) := by
      rw [hreq, List.append_assoc]
    refine h.moved hs rfl (fun d _ => ⟨rfl, rfl, rfl, rfl, rfl, rfl, rfl⟩) hstage hrequests
      hlines ⟨c, ?_, hother⟩ (fun _ _ => rfl) (.idle ?_ hl hf hread hdue)
      (fun reply hp => ?_) hdelivers
    · show _ = tag c ((net.move c p').children c).begun
      rw [move_self, hbegun, htail, tag_append]
    · show ((net.move c p').children c).waiting = false
      rw [move_self]
      exact hwait'
    · rw [hpass] at hp
      cases hp
  · -- the request is complete, and the child waits for its reply
    have hwait' : (Process.serving s 0).waiting = true := decide_eq_true hst
    rw [if_pos hwait']
    have hrequests : net.requests ++ tag c bs =
        merged (lines ++ [(c, (net.children c).request)]) ++ [] := by
      rw [hreq, htail, List.append_assoc, ← tag_append, hall, merged_concat,
        List.append_nil]
    refine h.moved hs rfl (fun d hd => ⟨rfl, rfl, rfl, rfl, record_ne hd _ _, rfl, rfl⟩) hstage
      hrequests ?_ ⟨c, ?_, hother⟩ (fun d hd => ofChild_concat_ne hd _ _) ?_
      (fun reply hp => ?_) hdelivers
    · intro x hx
      rcases List.mem_append.mp hx with hx | hx
      · exact hlines x hx
      · rw [List.mem_singleton.mp hx]
        exact hline
    · show _ = tag c ((net.move c (.serving s 0)).children c).begun
      rw [move_self, Process.begun, if_neg (by rw [hst]; decide)]
      rfl
    · refine .asked (s := s) (l := (net.children c).request) (f := net.forwarded c)
        (move_self net c _) hst ?_ hf ?_ hread hdue
      · rw [ofChild_concat_self, hl]
        rfl
      · exact record_self _ c _
    · rw [Process.passing, if_neg (by rw [hst]; decide)] at hp
      cases hp

/-- A child that receives from the server waits for a reply. -/
theorem Process.Step.receiver {p p' : Process} {r : RecvResult}
    (h : p.Step (.received r) p') :
    ∃ s pos, p = .serving s pos ∧ s.state = stateRecvReply := by
  cases h with
  | recvReply hs r => exact ⟨_, _, rfl, hs⟩

/-- **A child receives a piece of its reply**, and nothing of another one. -/
theorem Net.Inv.recv (h : net.Inv) {taken rest : List (Child × Byte)} {p' : Process}
    (hne : taken ≠ []) (hroom : taken.length ≤ (net.children c).room)
    (hsplit : net.replies = taken ++ rest)
    (hs : (net.children c).Step (.received (.bytes (taken.map Prod.snd))) p')
    (hg : ∀ x ∈ taken, x.1 = c) :
    Net.Inv { net.move c p' with
      replies := rest
      answers :=
        match p'.passing with
        | some reply => record net.answers c (net.client c, .reply reply)
        | none => net.answers } := by
  obtain ⟨s, pos, hproc, hst⟩ := hs.receiver
  obtain ⟨lines, tail, hreq, hlines, ⟨c₀, htail, hothers⟩, hstage⟩ := h.stream
  have hrecv : Receiving s.buf pos := by
    have hinv := h.children c
    rwa [hproc, Process.Inv, hst] at hinv
  have hshare : share c net.replies = taken.map Prod.snd ++ share c rest := by
    rw [hsplit, share_append, share_of_owner hg]
  have hnone : (net.children c).pending = [] := by
    rw [hproc]
    exact pending_of_state hst (by decide) (by decide) pos
  have hbegun : (net.children c).begun = [] := by
    rw [hproc]
    exact if_neg (by rw [hst]; decide)
  have hne' : taken.map Prod.snd ≠ [] := fun hnil => hne (List.map_eq_nil_iff.mp hnil)
  cases hstage c with
  | idle hwait _ _ _ _ =>
    rw [hproc] at hwait
    exact absurd hst (of_decide_eq_false hwait)
  | asked _ _ _ hflight _ _ _ =>
    rw [hshare] at hflight
    exact absurd (List.append_eq_nil_iff.mp hflight).1 hne'
  | @answered s' pos' l reply f a hproc' _ hl hreply hlen hflight hf ha hread hdue =>
    have hsame : s' = s ∧ pos' = pos := by
      rw [hproc] at hproc'
      cases hproc'
      exact ⟨rfl, rfl⟩
    rw [hsame.1, hsame.2, hshare] at hflight
    have hstep : (Process.serving s pos).Step (.received (.bytes (taken.map Prod.snd))) p' :=
      hproc ▸ hs
    have hroom' : (taken.map Prod.snd).length ≤ astrologBufLen - pos := by
      rw [hproc] at hroom
      rw [List.length_map]
      exact hroom
    have hother : ∀ d, d ≠ c → share d rest = share d net.replies := by
      intro d hd
      rw [hsplit, share_append, share_of_other hg hd]
      rfl
    -- nobody has sent a part of a request in this step
    have hstream : ∀ (p' : Process), p'.begun = [] → ∃ c₀,
        tail = tag c₀ ((net.move c p').children c₀).begun ∧
          ∀ d, d ≠ c₀ → ((net.move c p').children d).begun = [] := by
      intro p' hp'
      have hsame : ∀ d, ((net.move c p').children d).begun = (net.children d).begun := by
        intro d
        by_cases hd : d = c
        · rw [hd, move_self, hp', hbegun]
        · rw [move_ne hd]
      exact ⟨c₀, by rw [hsame, htail], fun d hd => (hsame d).trans (hothers d hd)⟩
    have hserving : (net.children c).Serving := by
      rw [hproc]
      trivial
    rcases hstep.recv_cases hrecv hne' hroom' hreply hlen hflight with
      ⟨hrest, ⟨hpass, hnew⟩, hwait', hbegun'⟩ | ⟨s₂, pos₂, rfl, hst₂, htext⟩
    · -- the reply is complete
      simp only [hpass]
      refine h.moved hs rfl
        (fun d hd => ⟨rfl, record_ne hd _ _, rfl, rfl, rfl, rfl, hother d hd⟩) hstage hreq
        hlines (hstream p' hbegun') (fun _ _ => rfl) (.idle ?_ hl hrest ?_ ?_)
        (fun line hp => ?_) ?_
      · show ((net.move c p').children c).waiting = false
        rw [move_self]
        exact hwait'
      · show (net.served c).map Prod.fst = (net.forwarded c).map Prod.snd
        rw [hf, ha, List.map_append, List.map_append, hread]
        rfl
      · show repliesOf (record net.answers c (net.client c, .reply reply) c) =
          dueTo (net.forwarded c) (net.served c)
        rw [record_self, repliesOf_reply, hf, ha, dueTo_concat hread]
        exact congrArg (· ++ [(net.client c, reply)]) hdue
      · show (repliesOf (record net.answers c (net.client c, .reply reply) c)).getLast? = _
        rw [hpass, Option.some.injEq] at hp
        rw [record_self, repliesOf_reply, List.getLast?_concat, hp]
        rfl
      · rw [Net.Delivers]
        dsimp only
        rw [move_self, record_self]
        exact (h.delivers c).answer hnone hserving hnew
    · -- there is more of it to come
      have hpass : (Process.serving s₂ pos₂).passing = none := if_neg (by rw [hst₂]; decide)
      have hbegun' : (Process.serving s₂ pos₂).begun = [] := if_neg (by rw [hst₂]; decide)
      simp only [hpass]
      refine h.moved hs rfl (fun d hd => ⟨rfl, rfl, rfl, rfl, rfl, rfl, hother d hd⟩) hstage
        hreq hlines (hstream _ hbegun') (fun _ _ => rfl)
        (.answered (move_self net c _) hst₂ hl hreply hlen ?_ hf ha hread hdue)
        (fun line hp => ?_) ?_
      · show s₂.buf.slice 0 pos₂ ++ share c rest = reply
        rw [htext, List.append_assoc, hflight]
      · rw [hpass] at hp
        cases hp
      · rw [Net.Delivers]
        dsimp only
        rw [move_self]
        exact (h.delivers c).quiet hnone
          (pending_of_state hst₂ (by decide) (by decide) pos₂) fun _ => hserving

/-- What a child has begun to send has no delimiter. -/
theorem begun_notMem {p : Process} (h : p.Inv) : delimiter ∉ p.begun := by
  cases p with
  | accepting => exact List.not_mem_nil
  | exited => exact List.not_mem_nil
  | serving s pos =>
    by_cases hs : s.state = stateSendRequest
    · rw [Process.Inv, hs] at h
      rw [Process.begun, if_pos hs]
      intro hmem
      have hleft := h.1.left
      have hfits := h.1.fits
      have hsplit := s.buf.slice_append 0 pos (s.len - pos)
      rw [Nat.zero_add, show pos + (s.len - pos) = s.len by omega] at hsplit
      have hnil := congrArg List.length (h.1.line.eq_nil_of_mem hsplit.symm hmem)
      rw [CArray.length_slice, List.length_nil] at hnil
      omega
    · rw [Process.begun, if_neg hs]
      exact List.not_mem_nil

/-- **The server reads a line and answers it.**  The line is the first complete request before it,
which is that of one child, and the reply is put behind all others. -/
theorem Net.Inv.answer (h : net.Inv) {line rest : List (Child × Byte)}
    {reply : List Byte} (hline : IsLine delimiter (line.map Prod.snd))
    (hlast : line.getLast? = some (c, delimiter)) (hsplit : net.requests = line ++ rest)
    (hreply : IsLine delimiter reply) (hlen : reply.length ≤ astrologBufLen) :
    Net.Inv { net with
      requests := rest
      replies := net.replies ++ tag c reply
      served := record net.served c (line.map Prod.snd, reply) } := by
  obtain ⟨lines, tail, hreq, hlines, ⟨c₀, htail, hothers⟩, hstage⟩ := h.stream
  rw [hreq] at hsplit
  cases lines with
  | nil =>
    -- a line cannot be read before it is there
    have hmem : delimiter ∈ (net.children c₀).begun := by
      have htag : tag c₀ (net.children c₀).begun = line ++ rest := htail ▸ hsplit
      have hsnd := congrArg (List.map Prod.snd) htag
      rw [map_snd_tag, List.map_append] at hsnd
      exact hsnd ▸ List.mem_append_left _ hline.mem
    exact absurd hmem (begun_notMem (h.children c₀))
  | cons x lines =>
    obtain ⟨i, l⟩ := x
    have hl : IsLine delimiter l := hlines (i, l) List.mem_cons_self
    obtain ⟨hfirst, hrest⟩ := first_line hl hline hsplit
    have hi : i = c := by
      have hmem := List.mem_of_getLast? hlast
      rw [hfirst] at hmem
      exact (owner_tag i l _ hmem).symm
    have hsnd : line.map Prod.snd = l := by rw [hfirst, map_snd_tag]
    rw [hi] at hstage
    have hself : ofChild ((c, l) :: lines) c = (c, l) :: ofChild lines c :=
      List.filter_cons_of_pos (decide_eq_true rfl)
    have hother : ∀ d, d ≠ c → ofChild lines d = ofChild ((c, l) :: lines) d := by
      intro d hd
      have hne : ¬ decide (((c, l) : Child × List Byte).1 = d) = true :=
        fun heq => hd (of_decide_eq_true heq).symm
      rw [ofChild, ofChild, List.filter_cons, if_neg hne]
    refine ⟨h.children, ⟨lines, tail, hrest,
      fun x hx => hlines x (List.mem_cons_of_mem _ hx), ⟨c₀, htail, hothers⟩, fun d => ?_⟩,
      h.passing, h.delivers⟩
    by_cases hd : d = c
    · rw [hd]
      cases hstage c with
      | idle _ hnil _ _ _ =>
        rw [hself] at hnil
        cases hnil
      | answered _ _ hnil _ _ _ _ _ _ _ =>
        rw [hself] at hnil
        cases hnil
      | @asked s l' f hproc hst hone hflight hf hread hdue =>
        rw [hself] at hone
        obtain ⟨hfst, hnil⟩ := List.cons.inj hone
        have hll : l = l' := congrArg Prod.snd hfst
        refine .answered (l := l) (f := f) (a := net.served c) hproc hst hnil hreply hlen
          ?_ ?_ ?_ hread hdue
        · show s.buf.slice 0 0 ++ share c (net.replies ++ tag c reply) = reply
          rw [share_append, hflight, share_tag_self]
          rfl
        · exact hf.trans (by rw [hll])
        · show record net.served c (line.map Prod.snd, reply) c = _
          rw [record_self, hsnd]
    · refine (hstage d).congr rfl rfl (hother d hd) ?_ rfl (record_ne hd _ _) rfl
      show share d (net.replies ++ tag c reply) = _
      rw [share_append, share_tag_of_ne hd, List.append_nil]

/-- **A guarded step keeps the invariant.**  By the cases of the step, each of which is about one
child; what the other child has stays as it is. -/
theorem Net.Inv.step (h : net.Inv) {act : Act} {net' : Net} (hs : net.Step act net')
    (hg : net.Guard act) : net'.Inv := by
  cases hs with
  | own hstep hnot => exact h.own hstep hnot
  | pass hc hs r => exact h.pass hc hs r
  | send hstep => exact h.send hstep hg
  | sendFailed hstep => exact hg.elim
  | @recv c taken rest p' hne hroom hsplit hstep =>
    have htaken : net.replies.take taken.length = taken := by
      rw [hsplit, List.take_left]
    rw [Net.Guard, htaken] at hg
    exact h.recv hne hroom hsplit hstep hg
  | recvFailed hr hstep => exact hg.elim
  | answer hline hlast hsplit hreply hlen =>
    exact h.answer hline hlast hsplit hreply hlen

theorem Net.Guarded.inv (h : net.Guarded) : net.Inv := by
  induction h with
  | refl => exact Net.init_inv
  | tail _ hs ih =>
    obtain ⟨act, hstep, hg⟩ := hs
    exact ih.step hstep hg

theorem Net.Guarded.reachable (h : net.Guarded) : net.Reachable := by
  induction h with
  | refl => exact .refl
  | tail _ hs ih =>
    obtain ⟨act, hstep, -⟩ := hs
    exact ih.tail ⟨act, hstep⟩

end Steps

/-- **Reply routing.**  In every run of the two children and the server in which no
call on the connection fails, no child sends while the other has sent a part of a
request, and no `recv` of a child takes a byte of a reply to the other: the server reads
what each child has forwarded, each child receives the replies to its own requests, each
once and in order, and sends each to the client that has asked, whole and once, unless a
`send` to this client fails. -/
theorem guarded_routed {net : Net} (h : net.Guarded) (c : Child) : net.Routed c :=
  h.inv.routed c

/-! Two runs to look at.  In the first one a client of the first child asks and is
answered.  In the second one a client of each child asks, the server answers the first,
and the second child is quicker to receive. -/

def sampleAries : List Byte := str "HOROSCOPE Aries\n"
def sampleBold : List Byte := str "be bold\n"

theorem sampleAries_received :
    Process.afterRecv handleRecvRequest sampleConnected 0 (.bytes sampleAries) =
      .serving (sampleRequest sampleAries) 0 := by decide

theorem sampleAries_sent : (Process.serving (sampleRequest sampleAries) 0).Step
    (.sent sampleAries) (sampleSent sampleAries) :=
  sample_sent (k := 80) (by decide) (by decide) (by decide)

/-- A client connects to a child. -/
def Net.sampleConnect (net : Net) (c : Child) : Net :=
  { net.move c (.serving sampleConnected 0) with
    client := Function.update net.client c (net.client c + 1) }

/-- A child sends its whole request. -/
def Net.sampleForward (net : Net) (c : Child) (line : List Byte) : Net :=
  { net.move c (sampleSent line) with
    requests := net.requests ++ tag c line
    forwarded := record net.forwarded c (net.client c, line) }

/-- A client connects and asks, and its request is sent. -/
def Net.sampleAsk (net : Net) (c : Child) (line : List Byte) : Net :=
  ((net.sampleConnect c).move c (.serving (sampleRequest line) 0)).sampleForward c line

section Samples

variable {net : Net} {c : Child} {line : List Byte}

theorem step_sampleConnect (hacc : net.children c = .accepting) :
    net.Step (.own c) (net.sampleConnect c) := by
  have hstep : net.Step (.own c) _ :=
    .own (hacc ▸ Process.Step.accept (CArray.replicate _ 0)) (by rw [hacc]; rfl)
  rwa [if_pos hacc] at hstep

theorem step_sampleRequest (hc : net.children c = .serving sampleConnected 0)
    (hrecv : Process.afterRecv handleRecvRequest sampleConnected 0 (.bytes line) =
      .serving (sampleRequest line) 0)
    (hstate : (sampleRequest line).state = stateSendRequest) :
    net.Step (.own c) (net.move c (.serving (sampleRequest line) 0)) := by
  have hown := (sample_received hrecv).2
  have hnot : (net.children c).toClient = false := by
    rw [hc]
    rfl
  have hdenying : (Process.serving (sampleRequest line) 0).denying = false :=
    decide_eq_false (by rw [hstate]; decide)
  rw [← hc] at hown
  have hstep := Net.Step.own hown hnot
  rw [if_neg (by rw [hc]; exact fun h => by cases h), hdenying] at hstep
  exact hstep

theorem step_sampleForward (hc : net.children c = .serving (sampleRequest line) 0)
    (hsent : (Process.serving (sampleRequest line) 0).Step (.sent line) (sampleSent line))
    (hline : (Process.serving (sampleRequest line) 0).request = line) :
    net.Step (.send c) (net.sampleForward c line) := by
  rw [← hc] at hsent hline
  have hstep := Net.Step.send hsent
  have hwait : (sampleSent line).waiting = true := rfl
  rwa [if_pos hwait, hline] at hstep

/-- A client asks, when no other child is in the middle of a request. -/
theorem guarded_sampleAsk (h : net.Guarded) (hacc : net.children c = .accepting)
    (hrecv : Process.afterRecv handleRecvRequest sampleConnected 0 (.bytes line) =
      .serving (sampleRequest line) 0)
    (hstate : (sampleRequest line).state = stateSendRequest)
    (hsent : (Process.serving (sampleRequest line) 0).Step (.sent line) (sampleSent line))
    (hline : (Process.serving (sampleRequest line) 0).request = line)
    (hg : ∀ d, d ≠ c → (net.children d).begun = []) : (net.sampleAsk c line).Guarded := by
  have hconnected : (net.sampleConnect c).children c = .serving sampleConnected 0 :=
    move_self net c _
  have hguard : ∀ d, d ≠ c → (((net.sampleConnect c).move c
      (.serving (sampleRequest line) 0)).children d).begun = [] := by
    intro d hd
    rw [move_ne hd]
    exact (congrArg Process.begun (move_ne hd _)).trans (hg d hd)
  have h₁ := h.tail ⟨_, step_sampleConnect hacc, trivial⟩
  have h₂ := h₁.tail ⟨_, step_sampleRequest hconnected hrecv hstate, trivial⟩
  exact h₂.tail ⟨_, step_sampleForward (move_self _ c _) hsent hline, hguard⟩

end Samples

/-- The client of the first child has asked. -/
def sampleAsked : Net := Net.init.sampleAsk 0 sampleAries

/-- So has the client of the second. -/
def sampleBoth : Net := sampleAsked.sampleAsk 1 sampleOther

theorem sampleAsked_guarded : sampleAsked.Guarded :=
  guarded_sampleAsk .refl rfl sampleAries_received (by decide) sampleAries_sent (by decide)
    fun _ _ => rfl

theorem sampleBoth_guarded : sampleBoth.Guarded :=
  guarded_sampleAsk sampleAsked_guarded rfl sampleOther_received (by decide)
    sampleOther_sent (by decide) (by decide)

/-- The server answers the first child. -/
def Net.sampleAnswer (net : Net) (rest : List (Child × Byte)) : Net :=
  { net with
    requests := rest
    replies := net.replies ++ tag 0 sampleBold
    served := record net.served 0 (sampleAries, sampleBold) }

theorem guarded_sampleAnswer {net : Net} (h : net.Guarded) (rest : List (Child × Byte))
    (hreq : net.requests = tag 0 sampleAries ++ rest) : (net.sampleAnswer rest).Guarded := by
  have hline : IsLine delimiter ((tag (0 : Child) sampleAries).map Prod.snd) := by
    rw [map_snd_tag]
    exact ⟨str "HOROSCOPE Aries", by decide, by decide⟩
  have hreply : IsLine delimiter sampleBold := ⟨str "be bold", by decide, by decide⟩
  have hstep := Net.Step.answer (c := 0) hline (by decide) hreq hreply (by decide)
  rw [map_snd_tag] at hstep
  exact h.tail ⟨_, hstep, trivial⟩

/-- What a child is that has received the reply, waiting with this request. -/
def sampleReceived (line : List Byte) : Process :=
  .afterRecv handleRecvReply
    ⟨(sampleRequest line).buf.poke ((sampleRequest line).len - 1) 0, 0, stateRecvReply⟩ 0
    (.bytes sampleBold)

theorem sampleReceived_step (line : List Byte) :
    (sampleSent line).Step (.received (.bytes sampleBold)) (sampleReceived line) := by
  have hsent : sampleSent line = .serving
      ⟨(sampleRequest line).buf.poke ((sampleRequest line).len - 1) 0, 0, stateRecvReply⟩
      0 := resume_handleSendRequest 0 (sampleRequest line)
  rw [hsent]
  exact .recvReply rfl (.bytes sampleBold)

/-- A child receives the reply. -/
def Net.sampleReceive (net : Net) (c : Child) (line : List Byte) : Net :=
  { net.move c (sampleReceived line) with
    replies := []
    answers := record net.answers c (net.client c, .reply sampleBold) }

theorem step_sampleReceive {net : Net} {c : Child} {line : List Byte}
    (hc : net.children c = sampleSent line) (hreplies : net.replies = tag 0 sampleBold)
    (hpass : (sampleReceived line).passing = some sampleBold) :
    net.Step (.recv c sampleBold.length) (net.sampleReceive c line) := by
  have hroom : (tag (0 : Child) sampleBold).length ≤ (net.children c).room := by
    rw [hc]
    exact Nat.le_of_ble_eq_true rfl
  have hrecv := sampleReceived_step line
  rw [← hc] at hrecv
  have hsplit : net.replies = tag 0 sampleBold ++ [] :=
    hreplies.trans (List.append_nil _).symm
  have hstep := Net.Step.recv (by decide) hroom hsplit hrecv
  rwa [hpass] at hstep

/-- Both clients have asked, the first one is answered, and its child has the reply. -/
def sampleRelayed : Net :=
  (sampleBoth.sampleAnswer (tag 1 sampleOther)).sampleReceive 0 sampleAries

theorem sampleRelayed_guarded : sampleRelayed.Guarded := by
  have hboth := guarded_sampleAnswer sampleBoth_guarded (tag 1 sampleOther) rfl
  have hguard : ∀ x ∈ (sampleBoth.sampleAnswer (tag 1 sampleOther)).replies.take
      sampleBold.length, x.1 = 0 :=
    fun x hx => owner_tag 0 sampleBold x (List.mem_of_mem_take hx)
  exact hboth.tail ⟨_, step_sampleReceive rfl rfl (by decide), hguard⟩

/-- The first run: the reply goes on to the client that has asked, in one piece. -/
theorem sampleRelayed_routed :
    ∃ net : Net, net.Guarded ∧ net.sentTo 0 1 = sampleBold ∧ net.Routed 0 := by
  obtain ⟨s, hs, hclient, hrest⟩ : ∃ s, sampleRelayed.children 0 = .serving s 0 ∧
      (sampleRelayed.children 0).toClient = true ∧ s.rest 0 = sampleBold :=
    ⟨_, rfl, by decide, by decide⟩
  have hguarded := sampleRelayed_guarded.tail
    ⟨.pass 0, .pass hs hclient (.count 80), trivial⟩
  refine ⟨_, hguarded, ?_, guarded_routed hguarded 0⟩
  show Function.update sampleRelayed.sentTo 0 (Function.update (sampleRelayed.sentTo 0) 1
    ([] ++ sendTaken (s.rest 0) (.count 80))) 0 1 = _
  rw [hrest, Function.update_self, Function.update_self]
  decide

/-- The second run: the reply to the first child goes to the client of the second. -/
theorem sampleBoth_not_routed :
    ((sampleBoth.sampleAnswer (tag 1 sampleOther)).sampleReceive 1 sampleOther).Reachable ∧
      ¬ ((sampleBoth.sampleAnswer (tag 1 sampleOther)).sampleReceive 1
        sampleOther).Routed 1 := by
  have hboth := guarded_sampleAnswer sampleBoth_guarded (tag 1 sampleOther) rfl
  refine ⟨hboth.reachable.tail ⟨_, step_sampleReceive rfl rfl (by decide)⟩, fun hrouted => ?_⟩
  exact absurd (List.IsPrefix.length_le hrouted.received) (by decide)

end Astrologer.Proxy
