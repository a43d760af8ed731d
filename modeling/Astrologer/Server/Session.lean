import Astrologer.Server.Handlers

/-!
# The protocol of one connection

What the handlers do, without arrays, positions and lengths.  A `Session` is a
connection as the protocol sees it: the phase it is in, the bytes received and
not yet used, and the store of prognoses as a map from zodiacs to lines.

A session moves in rounds (`Session.round`), one for each handler call.  In a
receiving phase a round looks at the bytes it has, or asks for some, and frames
the line they continue: a complete line is obeyed, a line that cannot fit any
more ends the session, and anything else is kept.  In a sending phase a round
offers what is left of the reply.

`Server.Refinement` shows that the handlers of `astrolog.c` are exactly this
machine.  So which lines are accepted, what is stored and what is replied can be
said of lists of bytes, without the two buffers and their positions.
-/

namespace Astrologer

open Lines ServerStateType FdOperation

/-! ## Requests -/

/-- What a request line asks for. -/
inductive Request
  | star (zodiacIx : ℕ)
  | client (zodiacIx : ℕ)
  | bad
  deriving DecidableEq

/-- The zodiac whose name a text begins with. -/
def zodiacAt (text : List Byte) : Option ℕ :=
  zodiacNames.findIdx? fun name => decide (name <+: text)

/-- Read a request line. -/
def classify (line : List Byte) : Request :=
  if starRequestType <+: line then
    match zodiacAt (line.drop starRequestType.length) with
    | some z => .star z
    | none => .bad
  else if clientRequestType <+: line then
    match zodiacAt (line.drop clientRequestType.length) with
    | some z => .client z
    | none => .bad
  else
    .bad

/-- The reply to a client: the stored line, or the failure text. -/
def replyTo (stored : Option (List Byte)) : List Byte := stored.getD clientReplyFailure

/-! ## Sessions -/

/-- Where a connection stands. -/
inductive Phase
  /-- Between requests, or inside a request line of which this much is there. -/
  | firstLine (line : List Byte)
  /-- A star has been accepted and owes its prognosis. -/
  | prognosis (zodiacIx : ℕ) (line : List Byte)
  /-- This much of a reply is still to be sent. -/
  | reply (pending : List Byte)
  /-- `STATE_ERROR`, reached while doing `op`. -/
  | failed (op : FdOperation)
  /-- `STATE_SUCCESS`. -/
  | finished
  deriving DecidableEq

/-- A connection as the protocol sees it. -/
@[ext] structure Session where
  phase : Phase
  unread : List Byte
  store : ℕ → Option (List Byte)
  io : Io

/-- What a receiving round has to work with. -/
inductive Fetched
  | error
  | eof
  | bytes (bs : List Byte)

/-- The unread bytes, or those of one more `recv`. -/
def Session.fetch (s : Session) : Fetched × Session :=
  if s.unread = [] then
    match s.io.recv astrologBufLen with
    | (.error, io) => (.error, { s with io := io })
    | (.bytes [], io) => (.eof, { s with io := io })
    | (.bytes bs, io) => (.bytes bs, { s with unread := bs, io := io })
  else
    (.bytes s.unread, s)

/-- A request line is complete. -/
def Session.obey (s : Session) (l rest : List Byte) : Session × After :=
  match classify l with
  | .star z => ({ s with phase := .prognosis z [], unread := rest }, .updateTs)
  | .client z =>
    ({ s with
        phase := .reply (replyTo (s.store z))
        unread := rest
        io := s.io.log (.request z) }, .updateTs)
  | .bad => ({ s with phase := .failed opRead, unread := rest }, .done)

/-- A prognosis line is complete. -/
def Session.keep (s : Session) (z : ℕ) (l rest : List Byte) : Session × After :=
  ({ phase := .reply starReplySuccess
     unread := rest
     store := Function.update s.store z (some l)
     io := s.io.log (.prognosis z l) }, .updateTs)

/-- Bytes for a request line of which `line` was there. -/
def Session.readFirstLine (s : Session) (line bs : List Byte) : Session × After :=
  match frame astrologBufLen delimiter (line ++ bs) with
  | .line l rest => s.obey l rest
  | .overlong =>
    ({ s with
        phase := .failed opRead
        unread := (line ++ bs).drop astrologBufLen }, .done)
  | .unfinished => ({ s with phase := .firstLine (line ++ bs), unread := [] }, .done)

/-- Bytes for a prognosis line of which `line` was there. -/
def Session.readPrognosis (s : Session) (z : ℕ) (line bs : List Byte) : Session × After :=
  match frame astrologBufLen delimiter (line ++ bs) with
  | .line l rest => s.keep z l rest
  | .overlong =>
    ({ s with
        phase := .failed opRead
        unread := (line ++ bs).drop astrologBufLen }, .done)
  | .unfinished => ({ s with phase := .prognosis z (line ++ bs), unread := [] }, .done)

/-- One round, as `update_state` runs them. -/
def Session.round (s : Session) : Session × After :=
  match s.phase with
  | .firstLine line =>
    match s.fetch with
    | (.error, s) => ({ s with phase := .failed opRead }, .done)
    | (.eof, s) =>
      ({ s with phase := if line = [] then .finished else .failed opRead }, .done)
    | (.bytes bs, s) => s.readFirstLine line bs
  | .prognosis z line =>
    match s.fetch with
    | (.error, s) => ({ s with phase := .failed opRead }, .done)
    | (.eof, s) => ({ s with phase := .failed opRead }, .done)
    | (.bytes bs, s) => s.readPrognosis z line bs
  | .reply pending =>
    match s.io.send pending with
    | (.error, io) => ({ s with phase := .failed opWrite, io := io }, .done)
    | (.count k, io) =>
      if pending.drop k = [] then
        ({ s with phase := .firstLine [], io := io }, .updateTs)
      else
        ({ s with phase := .reply (pending.drop k), io := io }, .done)
  | .failed _ => (s, .done)
  | .finished => (s, .done)

/-- The phases in which `op` is `OP_READ`. -/
def Phase.reads : Phase → Bool
  | .firstLine _ => true
  | .prognosis _ _ => true
  | .reply _ => false
  | .failed op => decide (op = opRead)
  | .finished => true

/-- The condition of the loop of `update_state`: bytes are there and the
connection is reading. -/
def Session.goesOn (s : Session) : Bool := s.phase.reads && decide (s.unread ≠ [])

/-- What a phase carries is in order: the line begun can still be completed, and
there is something left of the reply. -/
def Phase.Legal : Phase → Prop
  | .firstLine line => delimiter ∉ line ∧ line.length < astrologBufLen
  | .prognosis z line => z < zodiacNum ∧ delimiter ∉ line ∧ line.length < astrologBufLen
  | .reply pending => pending ≠ [] ∧ pending.length ≤ astrologBufLen
  | .failed _ => True
  | .finished => True

/-- The connection is done for. -/
def Phase.over : Phase → Bool
  | .failed _ => true
  | .finished => true
  | _ => false

end Astrologer
