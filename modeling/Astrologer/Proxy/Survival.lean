import Astrologer.Proxy.Routing

/-!
# A child of the proxy and the server

A child returns from `process_new_connection` with `DISCONNECT_ASTROLOG`, and exits, when
its connection to the server fails.  So it should not be in the hands of a client to make
the server close this connection.  But it is: the proxy forwards each line that begins
with `HOROSCOPE`, and the server closes the connection when no zodiac is named behind
it.

`Joint` is a child with the connection of the server: the functions of `proxy.c` on one
side, those of `astrolog.c` on the other, and the bytes that are on their way.  The
clients may do anything, and the calls on `con_fd` may return anything.  Other connections of
the server may change the table.  No call on the connection fails, and no deadline passes.  A
`send` to a client who is gone may also end the child by `SIGPIPE`; then there is no result and
nothing more to say here (`Proxy.Main` has the children that are killed).

As long as each forwarded line names a zodiac, the two sides go in lock-step
(`Joint.Stage`): no request, one request, or one reply is under way.  So the child never
exits, and between two clients the connection is as it was at the beginning
(`guarded_survives`).
-/

namespace Astrologer.Proxy

open Lines ProxyStateType FdOperation

/-! ## The two sides

A step of the child is one system call, and one of the server is one handler, which is all that
its event loop does with this connection between two waits.  The bytes of a `send` are appended to
those on the way, and a `recv` takes some of them off the front. -/

/-- The bytes that `send` took. -/
def transmitted (trace : List ConnEvent) : List Byte :=
  trace.flatMap fun
    | .sent bs => bs
    | _ => []

/-- A child, and its connection at the server, with the bytes on the way between them.  Nobody
else uses the connection meanwhile. -/
structure Joint where
  child : Process
  server : Ctx
  /-- Sent by the child, and not received by the server. -/
  requests : List Byte
  /-- Sent by the server, and not received by the child. -/
  replies : List Byte

/-- The child has connected, and the server has accepted the connection. -/
def Joint.init (table : Table) (raw : ConnState) (fd : ℕ) (io : Io) : Joint where
  child := .accepting
  server := ⟨raw.create fd, table, io⟩
  requests := []
  replies := []

/-- The server has closed the connection. -/
def Joint.Closed (j : Joint) : Prop :=
  j.server.s.state = .stateError ∨ j.server.s.state = .stateSuccess

/-- A handler can be called: it does not have to wait for bytes. -/
def Joint.Ready (j : Joint) : Prop :=
  ¬ j.Closed ∧
    (j.server.s.op = opRead → j.server.s.intermBuf.pos = j.server.s.intermBuf.len →
      j.requests ≠ [])

instance (j : Joint) : Decidable j.Closed := inferInstanceAs (Decidable (_ ∨ _))

instance (j : Joint) : Decidable j.Ready := inferInstanceAs (Decidable (_ ∧ _))

/-- The connection at the server, where `recv` gets up to `n` bytes and `send` is rid of up
to `k`. -/
def Joint.offer (j : Joint) (n k : ℕ) : Ctx :=
  { j.server with
    io :=
      { recvs := Stream'.const (.bytes (j.requests.take n))
        sends := Stream'.const (.count k)
        trace := [] } }

/-- The connection behind a handler call. -/
def Joint.call (j : Joint) (n k : ℕ) : Ctx := (handleState (j.offer n k)).1

/-- A handler call of the server. -/
def Joint.serve (j : Joint) (n k : ℕ) : Joint where
  child := j.child
  server := j.call n k
  requests := j.requests.drop (received (j.call n k).io.trace).length
  replies := j.replies ++ transmitted (j.call n k).io.trace

/-- What can happen: the child goes on with its client, with any results; it sends to the server
or receives from it, in pieces of any size; it meets the end of the stream, if the server has
closed; a handler of the server is called; or the table changes under it. -/
inductive Joint.Step (j : Joint) : Joint → Prop
  /-- The child goes on with a client; `accept` does not fail. -/
  | own {p' : Process} (h : j.child.Step .quiet p')
    (haccept : j.child = .accepting → ∃ buf, p' = .connect buf) : Step j { j with child := p' }
  | send {bs : List Byte} {p' : Process} (h : j.child.Step (.sent bs) p') :
    Step j { j with child := p', requests := j.requests ++ bs }
  | recv {bs rest : List Byte} {p' : Process} (hne : bs ≠ [])
    (hroom : bs.length ≤ j.child.room) (hsplit : j.replies = bs ++ rest)
    (h : j.child.Step (.received (.bytes bs)) p') :
    Step j { j with child := p', replies := rest }
  /-- The end of the stream. -/
  | eof {p' : Process} (hclosed : j.Closed) (hnil : j.replies = [])
    (h : j.child.Step (.received (.bytes [])) p') : Step j { j with child := p' }
  | serve (n k : ℕ) (hn : 0 < n) (h : j.Ready) : Step j (j.serve n k)
  /-- Another connection changes the table. -/
  | elsewhere (table : Table) :
    Step j { j with server := { j.server with zodiacPrognosises := table } }

/-- **The request that the child is about to send names a zodiac**, by `find_zodiac` of the
server. -/
def Joint.Named (j : Joint) : Prop :=
  ∀ s, j.child = .serving s 0 → s.state = stateSendRequest →
    0 ≤ findZodiac ((s.buf.slice 0 s.len).drop clientRequestType.length)

/-- Every run. -/
def Joint.Reachable (j : Joint) : Prop :=
  ∃ table raw fd io, Relation.ReflTransGen Joint.Step (.init table raw fd io) j

/-- The runs whose steps all meet the condition. -/
def Joint.Guarded (j : Joint) : Prop :=
  ∃ table raw fd io,
    Relation.ReflTransGen (fun a b : Joint => a.Step b ∧ a.Named) (.init table raw fd io) j

/-- Nothing is under way: the server waits for a request, and has nothing of it, and there
is nothing on the connection. -/
def Joint.Between (j : Joint) : Prop :=
  j.server.s.state = .stateRecvFirstLine ∧ j.server.s.curPos = 0 ∧
    j.server.s.intermBuf.unread = [] ∧ j.requests = [] ∧ j.replies = []

/-! ## What a child can do

Three facts about the steps of a child that need no server: that it exits in `accept` only, as
long as its connection does not fail; that it receives from the server only while it waits for a
reply; and that what it has sent of a request and what it has left are the request. -/

section Child

variable {p p' : Process} {s : ProxyState} {pos : ℕ}

/-- A child exits on its own only in `accept`. -/
theorem Process.Step.ne_exited (h : p.Step .quiet p') (hp : p ≠ .accepting) :
    p' ≠ .exited := by
  cases h with
  | accept buf => exact absurd rfl hp
  | acceptFailed => exact absurd rfl hp
  | @recvRequest s pos hs r =>
    rw [Process.afterRecv]
    split
    · exact fun h => by cases h
    · rw [handleRecvRequest]
      split
      · exact fun h => by cases h
      · split
        · exact fun h => by cases h
        · dsimp only
          split <;> exact fun h => by cases h
  | @sendDenied s pos hs r =>
    rw [Process.afterSend]
    split
    · exact fun h => by cases h
    · rw [handleSendReply]
      split <;> exact fun h => by cases h
  | @sendReply s pos hs r =>
    rw [Process.afterSend]
    split
    · exact fun h => by cases h
    · rw [handleSendReply]
      split <;> exact fun h => by cases h

/-- A child that receives from the server waits for a reply. -/
theorem Process.Step.waiting_of_received {r : RecvResult} (h : p.Step (.received r) p') :
    p.waiting = true := by
  cases h with
  | recvReply hs r => exact decide_eq_true hs

/-- What is left of a request that was begun. -/
theorem Process.Inv.request_split (h : p.Inv) (hbegun : p.begun ≠ []) :
    ∃ rest, rest ≠ [] ∧ p.begun ++ rest = p.request := by
  cases p with
  | accepting => exact absurd rfl hbegun
  | exited => exact absurd rfl hbegun
  | serving s pos =>
    by_cases hs : s.state = stateSendRequest
    · rw [Process.Inv, hs] at h
      have hleft := h.1.left
      have hfits := h.1.fits
      refine ⟨s.buf.slice pos (s.len - pos), ?_, ?_⟩
      · rw [← List.length_pos_iff, CArray.length_slice]
        omega
      · have hsplit := s.buf.slice_append 0 pos (s.len - pos)
        rw [Nat.zero_add, Nat.add_sub_cancel' (Nat.le_of_lt hleft)] at hsplit
        rw [Process.begun, if_pos hs, hsplit]
        rfl
    · exact absurd (if_neg hs) hbegun

end Child

/-! ## What the server can do

A request line that names a zodiac is answered by one line which fits a buffer of the child. -/

/-- A reply is one line. -/
theorem isLine_replyTo (row : CharArray) : IsLine delimiter (replyTo (rowLine row)) := by
  rw [rowLine]
  split
  next hmem => exact isLine_takeLine hmem
  next => exact ⟨str "YOU ARE OUT OF LUCK!", by decide, rfl⟩

/-- A request line that names a zodiac, so the server answers it; it is what the guard of a run
asks of the lines that a child forwards. -/
structure Forwardable (line : List Byte) : Prop where
  isLine : IsLine delimiter line
  fits : line.length ≤ astrologBufLen
  request : clientRequestType <+: line
  named : 0 ≤ findZodiac (line.drop clientRequestType.length)

theorem Forwardable.classify {line : List Byte} (h : Forwardable line) :
    ∃ z, classify line = .client z := by
  have hstar : ¬ starRequestType <+: line := by
    intro hstar
    have hle : starRequestType.length ≤ clientRequestType.length := by decide
    exact absurd (List.prefix_of_prefix_length_le hstar h.request hle) (by decide)
  have hnamed := h.named
  rw [findZodiac_eq] at hnamed
  rw [Astrologer.classify, if_neg hstar, if_pos h.request]
  cases hz : zodiacAt (line.drop clientRequestType.length) with
  | none =>
    rw [hz] at hnamed
    exact absurd hnamed (by decide)
  | some z => exact ⟨z, rfl⟩

/-! ## Lock-step

The five stages follow each other in a circle.  A step of the child keeps the stage or goes on to
the next one, and the guard is used in one place: where the first piece of a request is sent, the
line is known to name a zodiac, and this is kept until the server reads it. -/

/-- What is under way between the child and the server.  In each of the five stages the bytes of
one line stand in the pieces between the two: what is not sent, what is on the way, and what has
been read. -/
inductive Joint.Stage (j : Joint) : Prop
  | idle (hwait : j.child.waiting = false) (hbegun : j.child.begun = [])
    (hexit : j.child ≠ .exited) (hphase : j.server.session.phase = .firstLine [])
    (hrequests : j.requests = []) (hreplies : j.replies = [])
  /-- The child has sent a part of the request. -/
  | asking (part : List Byte) (hwait : j.child.waiting = false) (hbegun : j.child.begun ≠ [])
    (hline : Forwardable j.child.request) (hphase : j.server.session.phase = .firstLine part)
    (hsplit : part ++ j.requests = j.child.begun) (hreplies : j.replies = [])
  /-- The child has sent all of it. -/
  | asked (line part : List Byte) (s : ProxyState) (hchild : j.child = .serving s 0)
    (hs : s.state = stateRecvReply) (hline : Forwardable line)
    (hphase : j.server.session.phase = .firstLine part) (hsplit : part ++ j.requests = line)
    (hreplies : j.replies = [])
  /-- The server has sent a part of the reply. -/
  | answering (reply pending : List Byte) (s : ProxyState) (pos : ℕ)
    (hchild : j.child = .serving s pos) (hs : s.state = stateRecvReply)
    (hreply : IsLine delimiter reply) (hlen : reply.length ≤ astrologBufLen)
    (hphase : j.server.session.phase = .reply pending) (hrequests : j.requests = [])
    (hsplit : s.buf.slice 0 pos ++ (j.replies ++ pending) = reply)
  /-- The server has sent all of it. -/
  | answered (reply : List Byte) (s : ProxyState) (pos : ℕ)
    (hchild : j.child = .serving s pos) (hs : s.state = stateRecvReply)
    (hreply : IsLine delimiter reply) (hlen : reply.length ≤ astrologBufLen)
    (hphase : j.server.session.phase = .firstLine []) (hrequests : j.requests = [])
    (hsplit : s.buf.slice 0 pos ++ j.replies = reply)

/-- **The invariant.**  The child and the connection of the server are each in order, the server
has no byte that it has not used, and one of the stages holds. -/
structure Joint.Inv (j : Joint) : Prop where
  child : j.child.Inv
  conn : ConnInv j.server.s
  unread : j.server.session.unread = []
  stage : j.Stage

theorem Joint.inv_init (table : Table) (raw : ConnState) (fd : ℕ) (io : Io) :
    (Joint.init table raw fd io).Inv where
  child := trivial
  conn := connInv_create raw fd
  unread := rfl
  stage := .idle rfl rfl (fun h => by cases h) rfl rfl rfl

section Steps

variable {j : Joint} {p' : Process} {bs : List Byte}

theorem waiting_of_recvReply {s : ProxyState} (hs : s.state = stateRecvReply) (pos : ℕ) :
    (Process.serving s pos).waiting = true := decide_eq_true hs

/-- A child that does not wait for a reply has sent nothing of a request, or a part of it. -/
theorem Joint.Stage.of_not_waiting (h : j.Stage) (hwait : j.child.waiting = false) :
    (j.child.begun = [] ∧ j.child ≠ .exited ∧ j.server.session.phase = .firstLine [] ∧
        j.requests = [] ∧ j.replies = []) ∨
      j.child.begun ≠ [] ∧ Forwardable j.child.request ∧ ∃ part,
        j.server.session.phase = .firstLine part ∧ part ++ j.requests = j.child.begun ∧
          j.replies = [] := by
  have hserving : ∀ {s pos}, j.child = .serving s pos → s.state ≠ stateRecvReply := by
    intro s pos hchild hs
    rw [hchild, waiting_of_recvReply hs] at hwait
    cases hwait
  cases h with
  | idle _ hbegun hexit hphase hrequests hreplies =>
    exact .inl ⟨hbegun, hexit, hphase, hrequests, hreplies⟩
  | asking part _ hbegun hline hphase hsplit hreplies =>
    exact .inr ⟨hbegun, hline, part, hphase, hsplit, hreplies⟩
  | asked line part s hchild hs => exact absurd hs (hserving hchild)
  | answering reply pending s pos hchild hs => exact absurd hs (hserving hchild)
  | answered reply s pos hchild hs => exact absurd hs (hserving hchild)

/-- The child goes on with a client. -/
theorem Joint.Inv.own (hinv : j.Inv) (h : j.child.Step .quiet p')
    (haccept : j.child = .accepting → ∃ buf, p' = .connect buf) :
    Joint.Inv { j with child := p' } := by
  have haside := h.aside hinv.child
  refine ⟨h.inv hinv.child, hinv.conn, hinv.unread, ?_⟩
  rcases hinv.stage.of_not_waiting haside.waiting with
    ⟨-, hexit, hphase, hrequests, hreplies⟩ | ⟨hbegun, -⟩
  · refine .idle haside.waiting' haside.begun' ?_ hphase hrequests hreplies
    by_cases hacc : j.child = .accepting
    · obtain ⟨buf, hbuf⟩ := haccept hacc
      rw [hbuf]
      exact fun h => by cases h
    · exact h.ne_exited hacc
  · exact absurd haside.begun hbegun

/-- A request that is sent can be forwarded: that it names a zodiac was seen when it was
begun. -/
theorem Joint.Inv.forwardable (hinv : j.Inv) (hnamed : j.Named) {s : ProxyState} {pos : ℕ}
    (hchild : j.child = .serving s pos) (hs : s.state = stateSendRequest) :
    Forwardable (s.buf.slice 0 s.len) ∧ ∃ part, j.server.session.phase = .firstLine part ∧
      part ++ j.requests = s.buf.slice 0 pos ∧ j.replies = [] := by
  have hproc := hinv.child
  rw [hchild, Process.Inv, hs] at hproc
  have hfits := hproc.1.fits
  have hbegun : j.child.begun = s.buf.slice 0 pos := by
    rw [hchild]
    exact if_pos hs
  have hwait : j.child.waiting = false := by
    rw [hchild]
    exact decide_eq_false (by rw [hs]; decide)
  rcases hinv.stage.of_not_waiting hwait with ⟨hnil, -, hphase, hrequests, hreplies⟩ |
    ⟨-, hline, part, hphase, hsplit, hreplies⟩
  · rw [hbegun] at hnil
    have hpos : pos = 0 := by
      have hl := congrArg List.length hnil
      have hleft := hproc.1.left
      rw [CArray.length_slice, List.length_nil] at hl
      omega
    have hlen : (s.buf.slice 0 s.len).length ≤ astrologBufLen := by
      rw [CArray.length_slice]
      omega
    refine ⟨⟨hproc.1.line, hlen, hproc.2, hnamed s (hpos ▸ hchild) hs⟩, [], hphase, ?_,
      hreplies⟩
    rw [hrequests, hnil]
    rfl
  · rw [hchild] at hline
    exact ⟨hline, part, hphase, hsplit.trans hbegun, hreplies⟩

/-- The child sends a piece of a request. -/
theorem Joint.Inv.send (hinv : j.Inv) (hnamed : j.Named) (h : j.child.Step (.sent bs) p') :
    Joint.Inv { j with child := p', requests := j.requests ++ bs } := by
  obtain ⟨s, pos, hchild, hs, hcases⟩ := h.sent_cases hinv.child
  obtain ⟨hline, part, hphase, hsplit, hreplies⟩ := hinv.forwardable hnamed hchild hs
  refine ⟨h.inv hinv.child, hinv.conn, hinv.unread, ?_⟩
  rcases hcases with ⟨pos', rfl, -, hnext⟩ | ⟨s', rfl, hs', hall⟩
  · have hwait : (Process.serving s pos').waiting = false := decide_eq_false (by rw [hs]; decide)
    have hbegun : (Process.serving s pos').begun = s.buf.slice 0 pos' := if_pos hs
    have hsplit' : part ++ (j.requests ++ bs) = s.buf.slice 0 pos' := by
      rw [← List.append_assoc, hsplit, hnext]
    by_cases hnil : s.buf.slice 0 pos' = []
    · -- nothing has been sent
      rw [hnil] at hsplit' hbegun
      obtain ⟨rfl, hrequests⟩ := List.append_eq_nil_iff.mp hsplit'
      exact .idle hwait hbegun (fun h => by cases h) hphase hrequests hreplies
    · exact .asking part hwait (hbegun ▸ hnil) hline hphase (hsplit'.trans hbegun.symm) hreplies
  · refine .asked (s.buf.slice 0 s.len) part s' rfl hs' hline hphase ?_ hreplies
    rw [← List.append_assoc, hsplit, hall]

/-- The child receives a piece of a reply. -/
theorem Joint.Inv.recv {rest : List Byte} (hinv : j.Inv) (hne : bs ≠ [])
    (hroom : bs.length ≤ j.child.room) (hreplies : j.replies = bs ++ rest)
    (h : j.child.Step (.received (.bytes bs)) p') :
    Joint.Inv { j with child := p', replies := rest } := by
  have hwaiting := h.waiting_of_received
  have hnil : j.replies ≠ [] := by
    rw [hreplies]
    exact List.append_ne_nil_of_left_ne_nil hne rest
  refine ⟨h.inv hinv.child, hinv.conn, hinv.unread, ?_⟩
  have hproc := hinv.child
  cases hinv.stage with
  | idle hwait =>
    rw [hwaiting] at hwait
    cases hwait
  | asking part hwait =>
    rw [hwaiting] at hwait
    cases hwait
  | asked line part s hchild hs hline hphase hsplit hrep => exact absurd hrep hnil
  | answering reply pending s pos hchild hs hreply hlen hphase hrequests hsplit =>
    rw [hchild] at h hroom
    rw [hchild, Process.Inv, hs] at hproc
    rw [hreplies, List.append_assoc] at hsplit
    rcases h.recv_cases hproc hne hroom hreply hlen hsplit with
      ⟨hmore, -⟩ | ⟨s', pos', rfl, hs', htext⟩
    · -- something is left of the reply
      have hlegal := hinv.conn.legal
      rw [hphase] at hlegal
      exact absurd (List.append_eq_nil_iff.mp hmore).2 hlegal.1
    · refine .answering reply pending s' pos' rfl hs' hreply hlen hphase hrequests ?_
      rw [htext, List.append_assoc, hsplit]
  | answered reply s pos hchild hs hreply hlen hphase hrequests hsplit =>
    rw [hchild] at h hroom
    rw [hchild, Process.Inv, hs] at hproc
    rw [hreplies] at hsplit
    rcases h.recv_cases hproc hne hroom hreply hlen hsplit with
      ⟨hmore, ⟨hpassing, -⟩, hwait, hbegun⟩ | ⟨s', pos', rfl, hs', htext⟩
    · refine .idle hwait hbegun (fun hexit => ?_) hphase hrequests hmore
      rw [show p' = .exited from hexit] at hpassing
      cases hpassing
    · refine .answered reply s' pos' rfl hs' hreply hlen hphase hrequests ?_
      rw [htext, List.append_assoc, hsplit]

/-- The server has not closed the connection. -/
theorem Joint.Inv.not_closed (hinv : j.Inv) : ¬ j.Closed := by
  have hphase : j.server.session.phase = j.server.s.phase := rfl
  have hover : j.server.session.phase.over = false := by
    cases hinv.stage with
    | idle _ _ _ hphase => rw [hphase]; rfl
    | asking part _ _ _ hphase => rw [hphase]; rfl
    | asked line part s _ _ _ hphase => rw [hphase]; rfl
    | answering reply pending s pos _ _ _ _ hphase => rw [hphase]; rfl
    | answered reply s pos _ _ _ _ hphase => rw [hphase]; rfl
  rw [hphase, ConnState.phase] at hover
  rintro (hstate | hstate) <;> rw [hstate] at hover <;> cases hover

end Steps

/-! ### A handler call

The server's side is followed on the session machine, by the refinement of `Server.Refinement`.
Its rounds keep the stage, or end the request with its reply, or end the reply. -/

section Serve

variable {s : Session} {part bs more line : List Byte}

/-- Bytes are received for a request line. -/
theorem fetch_bytes (hunread : s.unread = []) (hrecv : s.io.recvs.head = .bytes bs)
    (hne : bs.take astrologBufLen ≠ []) :
    ∃ io, io.trace = s.io.trace ++ [.recv (bs.take astrologBufLen)] ∧
      s.fetch = (.bytes (bs.take astrologBufLen),
        { s with unread := bs.take astrologBufLen, io := io }) := by
  rw [Session.fetch, if_pos hunread, Io.recv, hrecv]
  dsimp only
  cases hbs : bs.take astrologBufLen with
  | nil => exact absurd hbs hne
  | cons b tl => exact ⟨_, rfl, rfl⟩

/-- The line goes on. -/
theorem round_unfinished (hphase : s.phase = .firstLine part) (hunread : s.unread = [])
    (hrecv : s.io.recvs.head = .bytes bs) (hne : bs.take astrologBufLen ≠ [])
    (hnot : delimiter ∉ part ++ bs.take astrologBufLen)
    (hlen : (part ++ bs.take astrologBufLen).length < astrologBufLen) :
    s.round.1.phase = .firstLine (part ++ bs.take astrologBufLen) ∧ s.round.1.unread = [] ∧
      s.round.1.io.trace = s.io.trace ++ [.recv (bs.take astrologBufLen)] := by
  obtain ⟨io, htrace, hfetch⟩ := fetch_bytes hunread hrecv hne
  have hframe := frame_eq_unfinished.mpr ⟨hnot, hlen⟩
  rw [Session.round, hphase]
  dsimp only
  rw [hfetch]
  dsimp only
  rw [Session.readFirstLine, hframe]
  exact ⟨rfl, rfl, htrace⟩

/-- The line is complete, and it is answered. -/
theorem round_client (hphase : s.phase = .firstLine part) (hunread : s.unread = [])
    (hrecv : s.io.recvs.head = .bytes bs) (hne : bs.take astrologBufLen ≠ [])
    (hline : Forwardable (part ++ bs.take astrologBufLen)) :
    ∃ z, s.round.1.phase = .reply (replyTo (s.store z)) ∧ s.round.1.unread = [] ∧
      s.round.1.io.trace = s.io.trace ++ [.recv (bs.take astrologBufLen)] ++ [.request z] := by
  obtain ⟨io, htrace, hfetch⟩ := fetch_bytes hunread hrecv hne
  obtain ⟨z, hz⟩ := hline.classify
  obtain ⟨hmem, htake⟩ := isLine_iff.mp hline.isLine
  have hdrop : dropLine delimiter (part ++ bs.take astrologBufLen) = [] := by
    have hd := hline.isLine.dropLine_append []
    rwa [List.append_nil] at hd
  have hframe : frame astrologBufLen delimiter (part ++ bs.take astrologBufLen) =
      .line (part ++ bs.take astrologBufLen) [] := by
    rw [frame, if_pos (mem_take_iff.mpr ⟨hmem, htake.symm ▸ hline.fits⟩), htake, hdrop]
  refine ⟨z, ?_⟩
  rw [Session.round, hphase]
  dsimp only
  rw [hfetch]
  dsimp only
  rw [Session.readFirstLine, hframe]
  dsimp only
  rw [Session.obey, hz]
  exact ⟨rfl, rfl, congrArg (· ++ [ConnEvent.request z]) htrace⟩

/-- A piece of the reply is sent. -/
theorem round_reply {pending : List Byte} {k : ℕ} (hphase : s.phase = .reply pending)
    (hsend : s.io.sends.head = .count k) :
    s.round.1.unread = s.unread ∧
      s.round.1.io.trace = s.io.trace ++ [.sent (pending.take k)] ∧
      s.round.1.phase =
        if pending.drop k = [] then .firstLine [] else .reply (pending.drop k) := by
  have hdrop : pending.drop (min k pending.length) = pending.drop k := by
    rcases Nat.le_total k pending.length with hle | hle
    · rw [Nat.min_eq_left hle]
    · rw [Nat.min_eq_right hle, List.drop_length, List.drop_of_length_le hle]
  rw [Session.round, hphase]
  dsimp only
  rw [Io.send, hsend]
  dsimp only
  rw [hdrop]
  split <;> exact ⟨rfl, rfl, rfl⟩

end Serve

section Joint

variable {j : Joint} {n k : ℕ}

theorem Joint.Inv.call_session (hinv : j.Inv) :
    (j.call n k).session = (j.offer n k).session.round.1 ∧ ConnInv (j.call n k).s := by
  have hconn : ConnInv (j.offer n k).s := hinv.conn
  exact ⟨session_handleState hconn, (handleState_session hconn).2⟩

/-- A handler that reads is called when there are bytes for it. -/
theorem Joint.Inv.requests_ne_nil (hinv : j.Inv) (hready : j.Ready) {part : List Byte}
    (hphase : j.server.session.phase = .firstLine part) : j.requests ≠ [] := by
  have hreads := reads_session hinv.conn
  rw [hphase] at hreads
  exact hready.2 (of_decide_eq_true hreads.symm)
    ((Buffer.unread_eq_nil hinv.conn.pos_le hinv.conn.len_le).mp hinv.unread)

/-- The server goes on with a request line, or it answers it. -/
theorem Joint.Inv.serve_request (hinv : j.Inv) (k : ℕ) (hn : 0 < n) (hready : j.Ready)
    {part line : List Byte} (hphase : j.server.session.phase = .firstLine part)
    (hreplies : j.replies = []) (hline : Forwardable line)
    (hsent : part ++ j.requests <+: line) :
    (j.serve n k).server.session.unread = [] ∧
      ((∃ part', (j.serve n k).server.session.phase = .firstLine part' ∧
          part' ++ (j.serve n k).requests = part ++ j.requests ∧ (j.serve n k).replies = []) ∨
        part ++ j.requests = line ∧ ∃ reply, IsLine delimiter reply ∧
          reply.length ≤ astrologBufLen ∧ (j.serve n k).server.session.phase = .reply reply ∧
          (j.serve n k).requests = [] ∧ (j.serve n k).replies = []) := by
  obtain ⟨bs, hbs⟩ : ∃ bs, bs = (j.requests.take n).take astrologBufLen := ⟨_, rfl⟩
  have hne : bs ≠ [] := by
    have hpos := List.length_pos_iff.mpr (hinv.requests_ne_nil hready hphase)
    rw [hbs, ← List.length_pos_iff, List.length_take, List.length_take]
    exact Nat.lt_min.mpr ⟨by decide, Nat.lt_min.mpr ⟨hn, hpos⟩⟩
  have hsplit : bs ++ j.requests.drop bs.length = j.requests := by
    have hpre : bs <+: j.requests := by
      rw [hbs]
      exact (List.take_prefix _ _).trans (List.take_prefix _ _)
    rw [List.prefix_iff_eq_take.mp hpre, List.length_take]
    have hle := hpre.length_le
    rw [Nat.min_eq_left hle, List.take_append_drop]
  obtain ⟨more, hmore⟩ := hsent
  have hall : part ++ bs ++ (j.requests.drop bs.length ++ more) = line := by
    rw [← hmore, List.append_assoc, ← List.append_assoc bs, hsplit, List.append_assoc]
  obtain ⟨hsess, -⟩ := hinv.call_session (n := n) (k := k)
  have htrace : (j.call n k).io.trace = (j.call n k).session.io.trace := rfl
  by_cases hmem : delimiter ∈ part ++ bs
  · -- the line is complete
    have hnil := hline.isLine.eq_nil_of_mem hall.symm hmem
    rw [hnil, List.append_nil] at hall
    obtain ⟨hdrop, -⟩ := List.append_eq_nil_iff.mp hnil
    rw [hdrop, List.append_nil] at hsplit
    obtain ⟨z, hphase', hunread', htrace'⟩ := round_client (s := (j.offer n k).session)
      hphase hinv.unread rfl (hbs ▸ hne) (by rw [← hbs, hall]; exact hline)
    rw [← hsess] at hphase' hunread' htrace'
    rw [← htrace, ← hbs] at htrace'
    refine ⟨hunread', .inr ⟨by rw [← hsplit]; exact hall, _, isLine_replyTo _, ?_, hphase', ?_, ?_⟩⟩
    · obtain ⟨-, -, hle⟩ := exists_replyTo_rowLine (j.server.zodiacPrognosises z)
      exact hle
    · rw [serve, htrace']
      show j.requests.drop (([] ++ bs) ++ []).length = []
      rw [List.nil_append, List.append_nil, hdrop]
    · rw [serve, htrace', hreplies]
      rfl
  · have hlen : (part ++ bs).length < astrologBufLen := by
      have hneq : j.requests.drop bs.length ++ more ≠ [] := by
        intro hnil
        rw [hnil, List.append_nil] at hall
        exact hmem (hall ▸ hline.isLine.mem)
      have hcount := congrArg List.length hall
      have hpos := List.length_pos_iff.mpr hneq
      have hfits := hline.fits
      rw [List.length_append] at hcount
      omega
    obtain ⟨hphase', hunread', htrace'⟩ := round_unfinished (s := (j.offer n k).session)
      hphase hinv.unread rfl (hbs ▸ hne) (hbs ▸ hmem) (hbs ▸ hlen)
    rw [← hsess] at hphase' hunread' htrace'
    rw [← htrace, ← hbs] at htrace'
    refine ⟨hunread', .inl ⟨_, hphase', ?_, ?_⟩⟩
    · rw [← hbs, serve, htrace']
      show part ++ bs ++ j.requests.drop (([] ++ bs) ++ []).length = _
      rw [List.nil_append, List.append_nil, List.append_assoc, hsplit]
    · rw [serve, htrace', hreplies]
      rfl

/-- The server goes on with a reply. -/
theorem Joint.Inv.serve_reply (hinv : j.Inv) (n k : ℕ) {pending : List Byte}
    (hphase : j.server.session.phase = .reply pending) :
    (j.serve n k).server.session.unread = [] ∧ (j.serve n k).requests = j.requests ∧
      (j.serve n k).replies = j.replies ++ pending.take k ∧
      (j.serve n k).server.session.phase =
        if pending.drop k = [] then .firstLine [] else .reply (pending.drop k) := by
  obtain ⟨hsess, -⟩ := hinv.call_session (n := n) (k := k)
  have htrace : (j.call n k).io.trace = (j.call n k).session.io.trace := rfl
  obtain ⟨hunread', htrace', hphase'⟩ := round_reply (s := (j.offer n k).session) hphase rfl
  rw [← hsess] at hphase' hunread' htrace'
  rw [← htrace] at htrace'
  refine ⟨hunread'.trans hinv.unread, ?_, ?_, hphase'⟩
  · rw [serve, htrace']
    rfl
  · rw [serve, htrace']
    exact congrArg (j.replies ++ ·) (List.append_nil _)

/-- **A handler call of the server keeps the invariant.**  In the stages with a request it reads
and may answer, and in the one with a reply it sends. -/
theorem Joint.Inv.serve (hinv : j.Inv) (n k : ℕ) (hn : 0 < n) (hready : j.Ready) :
    (j.serve n k).Inv := by
  have hconn : ConnInv (j.serve n k).server.s := hinv.call_session.2
  cases hinv.stage with
  | idle _ _ _ hphase hrequests => exact absurd hrequests (hinv.requests_ne_nil hready hphase)
  | answered reply s pos _ _ _ _ hphase hrequests =>
    exact absurd hrequests (hinv.requests_ne_nil hready hphase)
  | asking part hwait hbegun hline hphase hsplit hreplies =>
    obtain ⟨rest, hrest, hrequest⟩ := hinv.child.request_split hbegun
    obtain ⟨hunread, hcases⟩ := hinv.serve_request k hn hready hphase hreplies hline
      (by rw [hsplit]; exact ⟨rest, hrequest⟩)
    refine ⟨hinv.child, hconn, hunread, ?_⟩
    rcases hcases with ⟨part', hphase', hsplit', hreplies'⟩ | ⟨hall, -⟩
    · exact .asking part' hwait hbegun hline hphase' (hsplit'.trans hsplit) hreplies'
    · rw [hsplit, ← hrequest] at hall
      exact absurd (List.self_eq_append_right.mp hall) hrest
  | asked line part s hchild hs hline hphase hsplit hreplies =>
    obtain ⟨hunread, hcases⟩ := hinv.serve_request k hn hready hphase hreplies hline
      (by rw [hsplit])
    refine ⟨hinv.child, hconn, hunread, ?_⟩
    rcases hcases with ⟨part', hphase', hsplit', hreplies'⟩ |
      ⟨-, reply, hreply, hlen, hphase', hrequests', hreplies'⟩
    · exact .asked line part' s hchild hs hline hphase' (hsplit'.trans hsplit) hreplies'
    · refine .answering reply reply s 0 hchild hs hreply hlen hphase' hrequests' ?_
      rw [hreplies', CArray.slice_zero]
      rfl
  | answering reply pending s pos hchild hs hreply hlen hphase hrequests hsplit =>
    obtain ⟨hunread, hrequests', hreplies', hphase'⟩ := hinv.serve_reply n k hphase
    refine ⟨hinv.child, hconn, hunread, ?_⟩
    by_cases hnil : pending.drop k = []
    · rw [if_pos hnil] at hphase'
      refine .answered reply s pos hchild hs hreply hlen hphase' (hrequests'.trans hrequests) ?_
      have htake := List.take_append_drop k pending
      rw [hnil, List.append_nil] at htake
      rw [hreplies', htake, hsplit]
    · rw [if_neg hnil] at hphase'
      refine .answering reply (pending.drop k) s pos hchild hs hreply hlen hphase'
        (hrequests'.trans hrequests) ?_
      rw [hreplies', List.append_assoc, List.take_append_drop, hsplit]

/-- Another table. -/
theorem Joint.Inv.elsewhere (hinv : j.Inv) (table : Table) :
    Joint.Inv { j with server := { j.server with zodiacPrognosises := table } } := by
  refine ⟨hinv.child, hinv.conn, hinv.unread, ?_⟩
  cases hinv.stage with
  | idle hwait hbegun hexit hphase hrequests hreplies =>
    exact .idle hwait hbegun hexit hphase hrequests hreplies
  | asking part hwait hbegun hline hphase hsplit hreplies =>
    exact .asking part hwait hbegun hline hphase hsplit hreplies
  | asked line part s hchild hs hline hphase hsplit hreplies =>
    exact .asked line part s hchild hs hline hphase hsplit hreplies
  | answering reply pending s pos hchild hs hreply hlen hphase hrequests hsplit =>
    exact .answering reply pending s pos hchild hs hreply hlen hphase hrequests hsplit
  | answered reply s pos hchild hs hreply hlen hphase hrequests hsplit =>
    exact .answered reply s pos hchild hs hreply hlen hphase hrequests hsplit

/-! ## Every run

The invariant of the guarded runs, and what it says between two clients. -/

/-- **Every step keeps the invariant.** -/
theorem Joint.Inv.step {j' : Joint} (hinv : j.Inv) (hstep : j.Step j') (hnamed : j.Named) :
    j'.Inv := by
  cases hstep with
  | own h haccept => exact hinv.own h haccept
  | send h => exact hinv.send hnamed h
  | recv hne hroom hsplit h => exact hinv.recv hne hroom hsplit h
  | eof hclosed => exact absurd hclosed hinv.not_closed
  | serve n k hn hready => exact hinv.serve n k hn hready
  | elsewhere table => exact hinv.elsewhere table

theorem Joint.Guarded.inv (h : j.Guarded) : j.Inv := by
  obtain ⟨table, raw, fd, io, hrun⟩ := h
  induction hrun with
  | refl => exact Joint.inv_init table raw fd io
  | tail _ hstep ih => exact ih.step hstep.1 hstep.2

/-- A server that waits for a request and has nothing of it. -/
theorem between_of_phase (hconn : ConnInv j.server.s)
    (hphase : j.server.session.phase = .firstLine []) :
    j.server.s.state = .stateRecvFirstLine ∧ j.server.s.curPos = 0 := by
  have heq : j.server.s.phase = .firstLine [] := hphase
  rw [ConnState.phase] at heq
  cases hstate : j.server.s.state with
  | stateRecvFirstLine =>
    rw [hstate] at heq
    have hnil : j.server.s.buf.slice 0 j.server.s.curPos = [] := Phase.firstLine.inj heq
    have hroom := (hconn.recv_room (.inl hstate)).1
    have hlen := congrArg List.length hnil
    rw [CArray.length_slice, List.length_nil] at hlen
    exact ⟨rfl, by omega⟩
  | stateRecvH => rw [hstate] at heq; cases heq
  | stateSendThanks => rw [hstate] at heq; cases heq
  | stateSendH => rw [hstate] at heq; cases heq
  | stateError => rw [hstate] at heq; cases heq
  | stateSuccess => rw [hstate] at heq; cases heq

/-- **The child survives its clients.**  When each forwarded line names a zodiac, the child
never exits, and between two clients nothing is under way on its connection. -/
theorem Joint.guarded_survives (h : j.Guarded) :
    j.child ≠ .exited ∧ (j.child = .accepting → j.Between) := by
  have hinv := h.inv
  have hserving : ∀ {s pos}, j.child = .serving s pos →
      j.child ≠ .exited ∧ (j.child = .accepting → j.Between) := by
    intro s pos hchild
    refine ⟨fun hexit => ?_, fun hacc => ?_⟩
    · rw [hchild] at hexit
      cases hexit
    · rw [hchild] at hacc
      cases hacc
  cases hinv.stage with
  | idle _ _ hexit hphase hrequests hreplies =>
    obtain ⟨hstate, hpos⟩ := between_of_phase hinv.conn hphase
    exact ⟨hexit, fun _ => ⟨hstate, hpos, hinv.unread, hrequests, hreplies⟩⟩
  | asking part _ hbegun =>
    refine ⟨fun hexit => hbegun ?_, fun hacc => absurd ?_ hbegun⟩
    · rw [hexit]
      rfl
    · rw [hacc]
      rfl
  | asked line part s hchild => exact hserving hchild
  | answering reply pending s pos hchild => exact hserving hchild
  | answered reply s pos hchild => exact hserving hchild

end Joint

/-! ## A zodiac, and none

In the first run a client asks for Aries and leaves.  In the second run a client names no
zodiac: the server closes the connection, and the child exits. -/

def sampleInit : Joint :=
  .init sampleTable sampleRaw 5 ⟨Stream'.const .error, Stream'.const .error, []⟩

/-- A client has asked, and its request was sent. -/
def sampleForwarded (line : List Byte) : Joint :=
  { sampleInit with child := sampleSent line, requests := line }

section Samples

variable {line : List Byte}

/-- The steps of a child with its client until it has a request. -/
theorem sampleForwarded_steps
    (hrecv : Process.afterRecv handleRecvRequest sampleConnected 0 (.bytes line) =
      .serving (sampleRequest line) 0)
    (hsent : (Process.serving (sampleRequest line) 0).Step (.sent line) (sampleSent line)) :
    sampleInit.Step { sampleInit with child := .serving sampleConnected 0 } ∧
      Joint.Step { sampleInit with child := .serving sampleConnected 0 }
        { sampleInit with child := .serving (sampleRequest line) 0 } ∧
      Joint.Step { sampleInit with child := .serving (sampleRequest line) 0 }
        (sampleForwarded line) :=
  ⟨.own (.accept (.replicate _ 0)) (fun _ => ⟨_, rfl⟩),
    .own (sample_received hrecv).2 (fun h => by cases h), .send hsent⟩

theorem sampleForwarded_reachable
    (hrecv : Process.afterRecv handleRecvRequest sampleConnected 0 (.bytes line) =
      .serving (sampleRequest line) 0)
    (hsent : (Process.serving (sampleRequest line) 0).Step (.sent line) (sampleSent line)) :
    (sampleForwarded line).Reachable := by
  obtain ⟨hfirst, hsecond, hthird⟩ := sampleForwarded_steps hrecv hsent
  exact ⟨_, _, _, _, ((Relation.ReflTransGen.single hfirst).tail hsecond).tail hthird⟩

theorem named_of_ne {j : Joint} (h : ∀ s pos, j.child = .serving s pos →
    s.state ≠ stateSendRequest) : j.Named :=
  fun s hchild hs => absurd hs (h s 0 hchild)

theorem sampleForwarded_guarded
    (hrecv : Process.afterRecv handleRecvRequest sampleConnected 0 (.bytes line) =
      .serving (sampleRequest line) 0)
    (hsent : (Process.serving (sampleRequest line) 0).Step (.sent line) (sampleSent line))
    (hnamed : 0 ≤ findZodiac (((sampleRequest line).buf.slice 0 (sampleRequest line).len).drop
      clientRequestType.length)) : (sampleForwarded line).Guarded := by
  obtain ⟨hfirst, hsecond, hthird⟩ := sampleForwarded_steps hrecv hsent
  have hinit : sampleInit.Named := named_of_ne fun s pos h => by cases h
  have hconnected : Joint.Named { sampleInit with child := .serving sampleConnected 0 } :=
    named_of_ne fun s pos h hs => by
      cases h
      cases hs
  have hrequest : Joint.Named { sampleInit with child := .serving (sampleRequest line) 0 } := by
    intro s h _
    cases h
    exact hnamed
  exact ⟨_, _, _, _, ((Relation.ReflTransGen.single ⟨hfirst, hinit⟩).tail
    ⟨hsecond, hconnected⟩).tail ⟨hthird, hrequest⟩⟩

end Samples

/-- The request is read, and the reply is sent. -/
def sampleServed : Joint := ((sampleForwarded sampleAries).serve 80 80).serve 80 80

def sampleUnlucky : List Byte := str "YOU ARE OUT OF LUCK!\n"

/-- The child that has received the reply. -/
def sampleReplied : ProxyState :=
  handleRecvReply 21
    ⟨((sampleRequest sampleAries).buf.poke 15 0).memcpy 0 sampleUnlucky, 0, stateRecvReply⟩

/-- The client has its reply, and has left. -/
def sampleLeft : Joint := { sampleServed with child := .accepting, replies := [] }

theorem sampleServed_guarded : sampleServed.Guarded := by
  have hforwarded : (sampleForwarded sampleAries).Guarded :=
    sampleForwarded_guarded sampleAries_received sampleAries_sent (by decide)
  have hnamed : ∀ j : Joint, j.child = sampleSent sampleAries → j.Named := by
    intro j hj
    refine named_of_ne fun s pos h hs => ?_
    rw [hj] at h
    cases h
    cases hs
  obtain ⟨_, _, _, _, hrun⟩ := hforwarded
  exact ⟨_, _, _, _, (hrun.tail ⟨.serve 80 80 (by decide) (by decide), hnamed _ rfl⟩).tail
    ⟨.serve 80 80 (by decide) (by decide), hnamed _ rfl⟩⟩

/-- The child receives the reply and passes it on, and then the client leaves. -/
theorem sampleLeft_guarded : sampleLeft.Guarded := by
  have hsent : sampleSent sampleAries =
      .serving ⟨(sampleRequest sampleAries).buf.poke 15 0, 0, stateRecvReply⟩ 0 := by decide
  have hreplied : Process.afterRecv handleRecvReply
      ⟨(sampleRequest sampleAries).buf.poke 15 0, 0, stateRecvReply⟩ 0 (.bytes sampleUnlucky) =
      .serving sampleReplied 0 := by decide
  have hrecv : (sampleSent sampleAries).Step (.received (.bytes sampleUnlucky))
      (.serving sampleReplied 0) := by
    rw [hsent, ← hreplied]
    exact .recvReply rfl _
  have hpassed : Process.afterSend handleSendReply sampleReplied 0 (.count 80) =
      .serving (handleSendReply 0 sampleReplied) 0 := by decide
  have hpass : (Process.serving sampleReplied 0).Step .quiet
      (.serving (handleSendReply 0 sampleReplied) 0) := by
    rw [← hpassed]
    exact .sendReply rfl _
  have hend : Process.afterRecv handleRecvRequest (handleSendReply 0 sampleReplied) 0
      (.bytes []) = .accepting := by decide
  have hleave : (Process.serving (handleSendReply 0 sampleReplied) 0).Step .quiet
      .accepting := by
    rw [← hend]
    exact .recvRequest rfl _
  have hnamed : ∀ {j : Joint} {s : ProxyState}, j.child = .serving s 0 →
      s.state ≠ stateSendRequest → j.Named := by
    intro j s hj hs
    refine named_of_ne fun t pos h => ?_
    rw [hj] at h
    cases h
    exact hs
  obtain ⟨_, _, _, _, hrun⟩ := sampleServed_guarded
  have hrecvStep : sampleServed.Step
      { sampleServed with child := .serving sampleReplied 0, replies := [] } :=
    .recv (by decide) (by decide) (by decide) hrecv
  have hpassStep : Joint.Step
      { sampleServed with child := .serving sampleReplied 0, replies := [] }
      { sampleServed with
        child := .serving (handleSendReply 0 sampleReplied) 0, replies := [] } :=
    .own hpass fun h => by cases h
  have hleaveStep : Joint.Step
      { sampleServed with
        child := .serving (handleSendReply 0 sampleReplied) 0, replies := [] }
      sampleLeft :=
    .own hleave fun h => by cases h
  exact ⟨_, _, _, _, ((hrun.tail ⟨hrecvStep, hnamed hsent (by decide)⟩).tail
    ⟨hpassStep, hnamed rfl (by decide)⟩).tail ⟨hleaveStep, hnamed rfl (by decide)⟩⟩

theorem sampleLeft_survives :
    sampleLeft.child ≠ .exited ∧ (sampleLeft.child = .accepting → sampleLeft.Between) :=
  Joint.guarded_survives sampleLeft_guarded

def sampleNobody : List Byte := str "HOROSCOPE Foo\n"

/-- The server has read the request, and closed the connection. -/
def sampleRefused : Joint := (sampleForwarded sampleNobody).serve 80 80

theorem sampleRefused_reachable : Joint.Reachable { sampleRefused with child := .exited } := by
  have hrecv : Process.afterRecv handleRecvRequest sampleConnected 0 (.bytes sampleNobody) =
      .serving (sampleRequest sampleNobody) 0 := by decide
  have hsent : (Process.serving (sampleRequest sampleNobody) 0).Step (.sent sampleNobody)
      (sampleSent sampleNobody) := sample_sent (k := 80) (by decide) (by decide) (by decide)
  obtain ⟨_, _, _, _, hrun⟩ := sampleForwarded_reachable hrecv hsent
  have hserve : (sampleForwarded sampleNobody).Step sampleRefused :=
    .serve 80 80 (by decide) (by decide)
  have hend : (sampleSent sampleNobody).Step (.received (.bytes [])) .exited :=
    .recvReply rfl (.bytes [])
  exact ⟨_, _, _, _, (hrun.tail hserve).tail (.eof (by decide) (by decide) hend)⟩

/-- **A client has taken the child down**, by a request line that names no zodiac: the server
closes the connection, and the child exits. -/
theorem sampleRefused_exited :
    ¬ ∀ j : Joint, j.Reachable →
      j.child ≠ .exited ∧ (j.child = .accepting → j.Between) := by
  intro h
  exact (h _ sampleRefused_reachable).1 rfl

end Astrologer.Proxy
