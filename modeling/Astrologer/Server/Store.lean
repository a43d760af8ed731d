import Astrologer.Server.Termination
import Astrologer.Server.Reference

/-!
# The table of prognoses is a map

`zodiac_prognosises` is three raw rows of bytes.  A prognosis overwrites the front of
its row and leaves what stood behind it, a reply copies a row up to the first
delimiter and is sent in pieces while other connections write, and connections fail
and are thrown out at any time.

`StoreSpec` is what this is meant to be: a map from zodiacs to lines, and for every
connection the bytes it has received and not used and the bytes it is owed.  Its
steps are the entries of the record, and it *refuses* an entry that is not right: a
request that the bytes received do not begin with, a prognosis that is not the
complete line behind an accepted star line, bytes sent that are not the next ones
owed, anything new before the last reply is out.  What is owed is fixed when the
request is taken.

`reachable_store`: the record of every run is accepted, and the map is what the rows
hold.  Beside it stands what follows for the replies of a connection read off the
record alone, without the map.
-/

namespace Astrologer

open Lines ServerStateType FdOperation

/-! ## The abstract store

A transition system over the entries of the record.  It has no state machine, no buffers of a
fixed size and no rows; what it can do is refuse.  So that a record is accepted is a strong
statement: every entry of it was allowed where it stands. -/

/-- A connection to the store: the bytes that it was given and has not used, and those that it
owes. There is no state machine here, and no buffer of a fixed size. -/
structure StoreConn where
  /-- Received, and not used. -/
  input : List Byte
  /-- Owed. -/
  pending : List Byte
  deriving DecidableEq

abbrev StoreMap := ℕ → Option (List Byte)

/-- The complete line at the front of the input, with what is behind it. -/
def nextLine (input : List Byte) : Option (List Byte × List Byte) :=
  match frame astrologBufLen delimiter input with
  | .line l rest => some (l, rest)
  | .overlong => none
  | .unfinished => none

/-- What a connection may do to the store, and what it is owed then. -/
def StoreConn.step (store : StoreMap) (k : StoreConn) :
    ConnEvent → Option (StoreMap × StoreConn)
  | .recv bs => some (store, { k with input := k.input ++ bs })
  | .recvError => some (store, k)
  | .sendError => some (store, k)
  | .sent bs =>
    if bs <+: k.pending then some (store, { k with pending := k.pending.drop bs.length })
    else none
  | .request z =>
    if k.pending = [] then
      (nextLine k.input).bind fun r =>
        if classify r.1 = .client z then some (store, ⟨r.2, replyTo (store z)⟩) else none
    else none
  | .prognosis z l =>
    if k.pending = [] then
      (nextLine k.input).bind fun r =>
        if classify r.1 = .star z then
          (nextLine r.2).bind fun r' =>
            if r'.1 = l then
              some (Function.update store z (some l), ⟨r'.2, starReplySuccess⟩)
            else none
        else none
    else none

/-- The store, with its connections: what the server is for, stated without its handlers. -/
structure StoreSpec where
  store : StoreMap
  conns : Ptr → StoreConn

def StoreSpec.init : StoreSpec := ⟨fun _ => none, fun _ => ⟨[], []⟩⟩

/-- The map and one connection are as they are now. -/
def StoreSpec.set (spec : StoreSpec) (p : Ptr) (r : StoreMap × StoreConn) : StoreSpec :=
  ⟨r.1, Function.update spec.conns p r.2⟩

def StoreSpec.step (spec : StoreSpec) : ServerEvent → Option StoreSpec
  | .conn p e => ((spec.conns p).step spec.store e).map (spec.set p)
  | .connected p => some (spec.set p (spec.store, ⟨[], []⟩))
  | .removed _ => some spec
  | .heapCall _ _ => some spec
  | .removeFailed _ => some spec

/-- Go through a record; there is no result when an entry is refused. -/
def StoreSpec.run (spec : StoreSpec) (trace : List ServerEvent) : Option StoreSpec :=
  trace.foldlM StoreSpec.step spec

theorem StoreSpec.run_append (spec : StoreSpec) (a b : List ServerEvent) :
    spec.run (a ++ b) = (spec.run a).bind fun t => t.run b :=
  List.foldlM_append

theorem StoreSpec.run_cons (spec : StoreSpec) (e : ServerEvent) (es : List ServerEvent) :
    spec.run (e :: es) = (spec.step e).bind fun t => t.run es := rfl

/-! ## One connection

A round of a session is what the store does with the entries that the round records.  The two
agree about the connection before it and behind it, by the phase that the session is in. -/

/-- Go through the record of one connection. -/
def StoreConn.run (r : StoreMap × StoreConn) (es : List ConnEvent) :
    Option (StoreMap × StoreConn) :=
  es.foldlM (fun r e => r.2.step r.1 e) r

theorem StoreConn.run_append (r : StoreMap × StoreConn) (a b : List ConnEvent) :
    StoreConn.run r (a ++ b) = (StoreConn.run r a).bind fun t => StoreConn.run t b :=
  List.foldlM_append

theorem StoreConn.run_singleton (r : StoreMap × StoreConn) (e : ConnEvent) :
    StoreConn.run r [e] = r.2.step r.1 e :=
  bind_pure (r.2.step r.1 e)

/-- The record of one connection moves that connection. -/
theorem StoreSpec.run_conn (spec : StoreSpec) (p : Ptr) (es : List ConnEvent) :
    spec.run (es.map (.conn p)) =
      (StoreConn.run (spec.store, spec.conns p) es).map (spec.set p) := by
  induction es generalizing spec with
  | nil =>
    refine congrArg some ?_
    rw [StoreSpec.set, Function.update_eq_self]
  | cons e es ih =>
    rw [List.map_cons, StoreSpec.run_cons, StoreSpec.step]
    show _ = Option.map _ (((spec.conns p).step spec.store e).bind fun r =>
      StoreConn.run r es)
    cases hstep : (spec.conns p).step spec.store e with
    | none => rfl
    | some r =>
      show (spec.set p r).run (es.map (.conn p)) = _
      rw [ih]
      have hset : (spec.set p r).set p = spec.set p := by
        funext t
        rw [StoreSpec.set, StoreSpec.set, StoreSpec.set, Function.update_idem]
      have hconn : (spec.set p r).conns p = r.2 := Function.update_self _ _ _
      rw [hset, hconn]
      rfl

/-- A connection of the server is one of the store. -/
def ConnAgrees (phase : Phase) (unread : List Byte) (k : StoreConn) : Prop :=
  match phase with
  | .firstLine line => k.pending = [] ∧ k.input = line ++ unread
  | .prognosis z line =>
    k.pending = [] ∧ ∃ l, nextLine k.input = some (l, line ++ unread) ∧ classify l = .star z
  | .reply pending => k.pending = pending ∧ k.input = unread
  | .failed _ => True
  | .finished => True

theorem nextLine_append {input l rest : List Byte} (h : nextLine input = some (l, rest))
    (more : List Byte) : nextLine (input ++ more) = some (l, rest ++ more) := by
  unfold nextLine at h ⊢
  cases hf : frame astrologBufLen delimiter input with
  | line m r =>
    simp only [hf, Option.some.injEq, Prod.mk.injEq] at h
    rw [frame_append_of_line hf more, ← h.1, ← h.2]
  | overlong =>
    simp only [hf] at h
    cases h
  | unfinished =>
    simp only [hf] at h
    cases h

section Conn

variable {s : Session} {k : StoreConn} {line bs : List Byte}

/-- Bytes for a request line. -/
theorem agrees_readFirstLine (hp : k.pending = []) (hi : k.input = line ++ bs) :
    ∃ es k', (s.readFirstLine line bs).1.io.trace = s.io.trace ++ es ∧
      StoreConn.run (s.store, k) es = some ((s.readFirstLine line bs).1.store, k') ∧
      ConnAgrees (s.readFirstLine line bs).1.phase (s.readFirstLine line bs).1.unread k' := by
  unfold Session.readFirstLine
  cases hf : frame astrologBufLen delimiter (line ++ bs) with
  | line l rest =>
    have hnext : nextLine k.input = some (l, rest) := by
      rw [hi, nextLine, hf]
    simp only [Session.obey]
    cases hclass : classify l with
    | star z =>
      exact ⟨[], k, (List.append_nil _).symm, rfl, hp, l, hnext, hclass⟩
    | client z =>
      refine ⟨[.request z], ⟨rest, replyTo (s.store z)⟩, rfl, ?_, rfl, rfl⟩
      rw [StoreConn.run_singleton, StoreConn.step, if_pos hp, hnext]
      exact if_pos hclass
    | bad => exact ⟨[], k, (List.append_nil _).symm, rfl, trivial⟩
  | overlong => exact ⟨[], k, (List.append_nil _).symm, rfl, trivial⟩
  | unfinished =>
    exact ⟨[], k, (List.append_nil _).symm, rfl, hp, hi.trans (List.append_nil _).symm⟩

/-- Bytes for a prognosis line. -/
theorem agrees_readPrognosis {z : ℕ} {l : List Byte} (hp : k.pending = [])
    (hi : nextLine k.input = some (l, line ++ bs)) (hl : classify l = .star z) :
    ∃ es k', (s.readPrognosis z line bs).1.io.trace = s.io.trace ++ es ∧
      StoreConn.run (s.store, k) es = some ((s.readPrognosis z line bs).1.store, k') ∧
      ConnAgrees (s.readPrognosis z line bs).1.phase
        (s.readPrognosis z line bs).1.unread k' := by
  unfold Session.readPrognosis
  cases hf : frame astrologBufLen delimiter (line ++ bs) with
  | line m rest =>
    have hnext : nextLine (line ++ bs) = some (m, rest) := by
      rw [nextLine, hf]
    refine ⟨[.prognosis z m], ⟨rest, starReplySuccess⟩, rfl, ?_, rfl, rfl⟩
    rw [StoreConn.run_singleton, StoreConn.step, if_pos hp, hi]
    simp only [Option.bind_some, if_pos hl, hnext, if_true]
    rfl
  | overlong => exact ⟨[], k, (List.append_nil _).symm, rfl, trivial⟩
  | unfinished =>
    exact ⟨[], k, (List.append_nil _).symm, rfl, hp, l,
      hi.trans (by rw [List.append_nil]), hl⟩

/-- What a fetch shows: the bytes received, if any. -/
theorem fetch_trace (s : Session) :
    (∃ t, s.fetch = (.error, t) ∧ t.store = s.store ∧ t.unread = s.unread ∧
      t.io.trace = s.io.trace ++ [.recvError]) ∨
    (∃ t, s.fetch = (.eof, t) ∧ t.store = s.store ∧ t.unread = s.unread ∧
      t.io.trace = s.io.trace ++ [.recv []]) ∨
    ∃ bs t es, s.fetch = (.bytes bs, t) ∧ t.store = s.store ∧
      t.io.trace = s.io.trace ++ es ∧
      ((s.unread = bs ∧ es = []) ∨ (s.unread = [] ∧ es = [.recv bs])) := by
  unfold Session.fetch
  by_cases hun : s.unread = []
  · rw [if_pos hun]
    unfold Io.recv
    cases s.io.recvs.head with
    | error => exact Or.inl ⟨_, rfl, rfl, rfl, rfl⟩
    | bytes bs =>
      simp only
      cases bs.take astrologBufLen with
      | nil => exact Or.inr (Or.inl ⟨_, rfl, rfl, rfl, rfl⟩)
      | cons b tl =>
        exact Or.inr (Or.inr ⟨_, _, _, rfl, rfl, rfl, Or.inr ⟨hun, rfl⟩⟩)
  · rw [if_neg hun]
    exact Or.inr (Or.inr ⟨_, _, [], rfl, rfl, (List.append_nil _).symm, Or.inl ⟨rfl, rfl⟩⟩)

/-- **A round of a session is accepted** by the store, entry by entry, and behind it the two agree
about the connection again. -/
theorem agrees_round (h : ConnAgrees s.phase s.unread k) :
    ∃ es k', s.round.1.io.trace = s.io.trace ++ es ∧
      StoreConn.run (s.store, k) es = some (s.round.1.store, k') ∧
      ConnAgrees s.round.1.phase s.round.1.unread k' := by
  unfold Session.round
  cases hphase : s.phase with
  | firstLine line =>
    rw [hphase] at h
    obtain ⟨hp, hi⟩ := h
    rcases fetch_trace s with ⟨t, hf, hst, hun, htr⟩ | ⟨t, hf, hst, hun, htr⟩ |
      ⟨bs, t, es, hf, hst, htr, hes⟩
    · simp only [hf]
      exact ⟨[.recvError], k, htr, by rw [hst]; rfl, trivial⟩
    · simp only [hf]
      refine ⟨[.recv []], _, htr, by rw [hst]; rfl, ?_⟩
      by_cases hnil : line = []
      · rw [if_pos hnil]
        trivial
      · rw [if_neg hnil]
        trivial
    · simp only [hf]
      have hin : ∃ k₁ : StoreConn, StoreConn.run (s.store, k) es = some (s.store, k₁) ∧
          k₁.pending = [] ∧ k₁.input = line ++ bs := by
        rcases hes with ⟨hun, rfl⟩ | ⟨hun, rfl⟩
        · exact ⟨k, rfl, hp, hi.trans (by rw [hun])⟩
        · refine ⟨_, rfl, hp, ?_⟩
          show k.input ++ bs = _
          rw [hi, hun, List.append_nil]
      obtain ⟨k₁, hrun, hp₁, hi₁⟩ := hin
      obtain ⟨es', k', htr', hrun', hag⟩ := agrees_readFirstLine (s := t) hp₁ hi₁
      refine ⟨es ++ es', k', ?_, ?_, hag⟩
      · rw [htr', htr, List.append_assoc]
      · rw [StoreConn.run_append, hrun, ← hst]
        exact hrun'
  | prognosis z line =>
    rw [hphase] at h
    obtain ⟨hp, l, hi, hl⟩ := h
    rcases fetch_trace s with ⟨t, hf, hst, hun, htr⟩ | ⟨t, hf, hst, hun, htr⟩ |
      ⟨bs, t, es, hf, hst, htr, hes⟩
    · simp only [hf]
      exact ⟨[.recvError], k, htr, by rw [hst]; rfl, trivial⟩
    · simp only [hf]
      exact ⟨[.recv []], _, htr, by rw [hst]; rfl, trivial⟩
    · simp only [hf]
      have hin : ∃ k₁ : StoreConn, StoreConn.run (s.store, k) es = some (s.store, k₁) ∧
          k₁.pending = [] ∧ nextLine k₁.input = some (l, line ++ bs) := by
        rcases hes with ⟨hun, rfl⟩ | ⟨hun, rfl⟩
        · exact ⟨k, rfl, hp, hi.trans (by rw [hun])⟩
        · refine ⟨_, rfl, hp, ?_⟩
          have hmore := nextLine_append hi bs
          rwa [hun, List.append_nil] at hmore
      obtain ⟨k₁, hrun, hp₁, hi₁⟩ := hin
      obtain ⟨es', k', htr', hrun', hag⟩ := agrees_readPrognosis (s := t) hp₁ hi₁ hl
      refine ⟨es ++ es', k', ?_, ?_, hag⟩
      · rw [htr', htr, List.append_assoc]
      · rw [StoreConn.run_append, hrun, ← hst]
        exact hrun'
  | reply pending =>
    rw [hphase] at h
    obtain ⟨hp, hi⟩ := h
    unfold Io.send
    cases s.io.sends.head with
    | error => exact ⟨[.sendError], k, rfl, rfl, trivial⟩
    | count n =>
      have hsent : StoreConn.run (s.store, k) [.sent (pending.take n)] =
          some (s.store, ⟨k.input, pending.drop (min n pending.length)⟩) := by
        rw [StoreConn.run_singleton, StoreConn.step, hp, if_pos (List.take_prefix _ _),
          List.length_take]
      simp only
      by_cases hnil : pending.drop (min n pending.length) = []
      · rw [if_pos hnil]
        refine ⟨_, _, rfl, hsent, hnil, hi⟩
      · rw [if_neg hnil]
        exact ⟨_, _, rfl, hsent, rfl, hi⟩
  | failed op => exact ⟨[], k, (List.append_nil _).symm, rfl, by rw [hphase]; trivial⟩
  | finished => exact ⟨[], k, (List.append_nil _).symm, rfl, by rw [hphase]; trivial⟩

end Conn

/-! ## The rows

The raw rows follow the record too: a prognosis overwrites the front of its row and leaves the
rest, and nothing else touches a row.  This is for all handlers, whether their connection is live
or not. -/

/-- What an entry of the record does to the raw rows: a prognosis overwrites the front
of its row. -/
def ConnEvent.rows (t : Table) : ConnEvent → Table
  | .prognosis z l => Function.update t z ((t z).memcpy 0 l)
  | .recv _ => t
  | .recvError => t
  | .sent _ => t
  | .sendError => t
  | .request _ => t

def ServerEvent.rows (t : Table) : ServerEvent → Table
  | .conn _ e => e.rows t
  | .connected _ => t
  | .removed _ => t
  | .heapCall _ _ => t
  | .removeFailed _ => t

/-- The rows that a record has made of the zeroed array. -/
def rowsAfter (trace : List ServerEvent) : Table :=
  trace.foldl ServerEvent.rows fun _ => CArray.replicate _ 0

/-- The rows have changed as the record says. -/
def RowsFollow (c c' : Ctx) : Prop :=
  ∃ es, c'.io.trace = c.io.trace ++ es ∧
    c'.zodiacPrognosises = es.foldl ConnEvent.rows c.zodiacPrognosises

theorem RowsFollow.of_eq {c c' : Ctx} (hio : c'.io.trace = c.io.trace)
    (ht : c'.zodiacPrognosises = c.zodiacPrognosises) : RowsFollow c c' :=
  ⟨[], hio.trans (List.append_nil _).symm, ht⟩

theorem RowsFollow.trans {a b c : Ctx} (hab : RowsFollow a b) (hbc : RowsFollow b c) :
    RowsFollow a c := by
  obtain ⟨es, hes, ht⟩ := hab
  obtain ⟨es', hes', ht'⟩ := hbc
  refine ⟨es ++ es', ?_, ?_⟩
  · rw [hes', hes, List.append_assoc]
  · rw [ht', ht, List.foldl_append]

theorem rowsFollow_parseStarFirstLine (c : Ctx) :
    RowsFollow c (parseStarFirstLine c).1 := by
  unfold parseStarFirstLine
  simp only
  split <;> exact .of_eq rfl rfl

theorem rowsFollow_parseClientFirstLine (c : Ctx) :
    RowsFollow c (parseClientFirstLine c).1 := by
  unfold parseClientFirstLine
  simp only
  split
  · exact .of_eq rfl rfl
  · exact ⟨[.request _], rfl, rfl⟩

theorem rowsFollow_firstLineReceived (c : Ctx) :
    RowsFollow c (firstLineReceived c).1 := by
  unfold firstLineReceived
  simp only
  split
  · split
    · exact rowsFollow_parseStarFirstLine c
    · split
      · exact rowsFollow_parseClientFirstLine c
      · exact .of_eq rfl rfl
  · split <;> exact .of_eq rfl rfl

theorem rowsFollow_prognosisReceived (c : Ctx) :
    RowsFollow c (prognosisReceived c).1 := by
  unfold prognosisReceived
  simp only
  split
  · exact ⟨[.prognosis _ _], rfl, rfl⟩
  · split <;> exact .of_eq rfl rfl

/-- A receive shows in the record, and not in the rows. -/
theorem bufferedRecvUntilDelim_trace (buf : Buffer) (dst : CharArray) (off n : ℕ)
    (delim : Byte) (io : Io) :
    ∃ es, (bufferedRecvUntilDelim buf dst off n delim io).2.trace = io.trace ++ es ∧
      ∀ t, es.foldl ConnEvent.rows t = t := by
  unfold bufferedRecvUntilDelim
  by_cases hempty : buf.pos = buf.len
  · rw [if_pos hempty]
    unfold Io.recv
    cases io.recvs.head with
    | error => exact ⟨[.recvError], rfl, fun _ => rfl⟩
    | bytes bs =>
      simp only
      cases bs.take astrologBufLen with
      | nil => exact ⟨[.recv []], rfl, fun _ => rfl⟩
      | cons b tl => exact ⟨[.recv (b :: tl)], rfl, fun _ => rfl⟩
  · rw [if_neg hempty]
    exact ⟨[], (List.append_nil _).symm, fun _ => rfl⟩

/-- **A handler changes the rows as the record says.** -/
theorem rowsFollow_handleState (c : Ctx) : RowsFollow c (handleState c).1 := by
  have hrecv : ∀ s, RowsFollow c
      ⟨s, c.zodiacPrognosises, (bufferedRecvUntilDelim c.s.intermBuf c.s.buf c.s.curPos
        c.s.rem delimiter c.io).2⟩ := by
    intro s
    obtain ⟨es, hes, ht⟩ := bufferedRecvUntilDelim_trace c.s.intermBuf c.s.buf c.s.curPos
      c.s.rem delimiter c.io
    exact ⟨es, hes, (ht _).symm⟩
  have hsend : RowsFollow c (handleSendReply c).1 := by
    unfold handleSendReply Io.send
    simp only
    cases c.io.sends.head with
    | error => exact ⟨[.sendError], rfl, rfl⟩
    | count k =>
      simp only
      split <;> exact ⟨[.sent _], rfl, rfl⟩
  unfold handleState
  cases c.s.state with
  | stateRecvFirstLine =>
    simp only
    unfold handleFirstLine
    simp only
    split
    · exact hrecv _
    · split
      · exact hrecv _
      · exact (hrecv _).trans (rowsFollow_firstLineReceived _)
  | stateRecvH =>
    simp only
    unfold handleRecvH
    simp only
    split
    · exact hrecv _
    · split
      · exact hrecv _
      · exact (hrecv _).trans (rowsFollow_prognosisReceived _)
  | stateSendThanks => exact hsend
  | stateSendH => exact hsend
  | stateError => exact .of_eq rfl rfl
  | stateSuccess => exact .of_eq rfl rfl

/-! ## Every run

Most steps of `main` record nothing that the store is about, and then there is nothing to do.  A
round records what the store accepts, by what was said of one connection; a connection that is
removed, for whatever reason, owes nothing any more. -/

/-- The server is where the store is: the rows hold the lines of the store, and every live
connection is at the same byte of its input and owes the same bytes. -/
structure Agrees (srv : Server) (spec : StoreSpec) : Prop where
  store : spec.store = fun z => rowLine (srv.zodiacPrognosises z)
  conns : ∀ p ∈ srv.allocated, ConnAgrees (srv.mem p).toConnState.phase
    (srv.mem p).intermBuf.unread (spec.conns p)

/-- The record has been accepted so far by the store, which has come to where the server is; and
the rows are what the record says. -/
structure StoreInv (srv : Server) : Prop where
  accepted : ∃ spec, StoreSpec.init.run srv.trace = some spec ∧ Agrees srv spec
  rows : srv.zodiacPrognosises = rowsAfter srv.trace

/-- An entry that is not about requests, prognoses and replies. -/
def ServerEvent.Neutral : ServerEvent → Prop
  | .conn _ _ => False
  | .connected _ => False
  | .removed _ => True
  | .heapCall _ _ => True
  | .removeFailed _ => True

theorem run_neutral (spec : StoreSpec) {es : List ServerEvent} (h : ∀ e ∈ es, e.Neutral) :
    spec.run es = some spec := by
  induction es with
  | nil => rfl
  | cons e es ih =>
    have hstep : spec.step e = some spec := by
      have he := h e List.mem_cons_self
      cases e with
      | conn => exact absurd he not_false
      | connected => exact absurd he not_false
      | removed => rfl
      | heapCall => rfl
      | removeFailed => rfl
    rw [StoreSpec.run_cons, hstep]
    exact ih fun e he => h e (List.mem_cons_of_mem _ he)

theorem rows_neutral (t : Table) {es : List ServerEvent} (h : ∀ e ∈ es, e.Neutral) :
    es.foldl ServerEvent.rows t = t := by
  induction es with
  | nil => rfl
  | cons e es ih =>
    have hstep : ServerEvent.rows t e = t := by
      have he := h e List.mem_cons_self
      cases e with
      | conn => exact absurd he not_false
      | connected => rfl
      | removed => rfl
      | heapCall => rfl
      | removeFailed => rfl
    rw [List.foldl_cons, hstep]
    exact ih fun e he => h e (List.mem_cons_of_mem _ he)

section Inv

variable {srv srv' : Server} {p : Ptr}

/-- Steps that are not about requests, prognoses and replies. -/
theorem StoreInv.of_neutral (h : StoreInv srv) {es : List ServerEvent}
    (htrace : srv'.trace = srv.trace ++ es) (hes : ∀ e ∈ es, e.Neutral)
    (ht : srv'.zodiacPrognosises = srv.zodiacPrognosises)
    (hconn : ∀ q ∈ srv'.allocated, q ∈ srv.allocated ∧
      (srv'.mem q).toConnState = (srv.mem q).toConnState) : StoreInv srv' := by
  obtain ⟨spec, hrun, hag⟩ := h.accepted
  refine ⟨⟨spec, ?_, ?_, fun q hq => ?_⟩, ?_⟩
  · rw [htrace, StoreSpec.run_append, hrun]
    exact run_neutral spec hes
  · rw [hag.store, ht]
  · obtain ⟨hq', heq⟩ := hconn q hq
    rw [heq]
    exact hag.conns q hq'
  · rw [ht, h.rows, htrace, rowsAfter, rowsAfter, List.foldl_append, rows_neutral _ hes]

theorem StoreInv.of_same (h : StoreInv srv) (htrace : srv'.trace = srv.trace)
    (ht : srv'.zodiacPrognosises = srv.zodiacPrognosises)
    (hconn : ∀ q ∈ srv'.allocated, q ∈ srv.allocated ∧
      (srv'.mem q).toConnState = (srv.mem q).toConnState) : StoreInv srv' :=
  h.of_neutral (htrace.trans (List.append_nil _).symm)
    (fun _ he => absurd he List.not_mem_nil) ht hconn

/-- **A round of `update_state` is accepted.** -/
theorem StoreInv.runHandler (h : StoreInv srv) (hr : Ready p srv) :
    StoreInv (runHandler p srv) := by
  have hh := hr.inv.handled hr.mem
  obtain ⟨calls, htrace, hcalls⟩ := hh.trace
  obtain ⟨spec, hrun, hag⟩ := h.accepted
  have hsess := (session_runHandler hr.inv hr.mem hr.conn).1
  have hstate : (handleState (srv.ctx p)).1.session = (srv.session p).round.1 :=
    session_handleState (c := srv.ctx p) hr.conn
  obtain ⟨es, k', htr, hconn, hag'⟩ := agrees_round (s := srv.session p)
    (k := spec.conns p) (hag.conns p hr.mem)
  have hes : (handleState (srv.ctx p)).1.io.trace = es := by
    have hio : (handleState (srv.ctx p)).1.io.trace = (srv.session p).round.1.io.trace :=
      congrArg (fun s : Session => s.io.trace) hstate
    rw [hio, htr]
    rfl
  have hneutral : ∀ e ∈ calls, e.Neutral := fun e he => by
    rw [hcalls e he]
    trivial
  have hstore : (srv.session p).round.1.store =
      fun z => rowLine ((Astrologer.runHandler p srv).zodiacPrognosises z) := by
    rw [hh.zodiacPrognosises, ← hstate]
    rfl
  rw [hes] at htrace
  refine ⟨⟨spec.set p ((srv.session p).round.1.store, k'), ?_, hstore, fun q hq => ?_⟩, ?_⟩
  · rw [htrace, StoreSpec.run_append, StoreSpec.run_append, hrun]
    show ((spec.run (es.map (.conn p))).bind fun t => t.run calls) = _
    have hst : spec.store = (srv.session p).store := hag.store
    rw [StoreSpec.run_conn, hst, hconn]
    exact run_neutral _ hneutral
  · rw [hh.allocated] at hq
    by_cases hqp : q = p
    · rw [hqp]
      have hphase := congrArg Session.phase hsess
      have hunread := congrArg Session.unread hsess
      show ConnAgrees ((Astrologer.runHandler p srv).session p).phase
        ((Astrologer.runHandler p srv).session p).unread
        (Function.update spec.conns p k' p)
      rw [hphase, hunread, Function.update_self]
      exact hag'
    · rw [(hh.conn_ne q hqp).1]
      show ConnAgrees _ _ (Function.update spec.conns p k' q)
      rw [Function.update_of_ne hqp]
      exact hag.conns q hq
  · obtain ⟨es', hes', hrows⟩ := rowsFollow_handleState (srv.ctx p)
    have heq : es' = es := by
      rw [← hes, hes']
      rfl
    have hmap : ∀ (t : Table) (l : List ConnEvent),
        (l.map (ServerEvent.conn p)).foldl ServerEvent.rows t = l.foldl ConnEvent.rows t :=
      fun t l => List.foldl_map
    rw [hh.zodiacPrognosises, hrows, heq, htrace, rowsAfter, List.foldl_append,
      List.foldl_append, rows_neutral _ hneutral, hmap]
    exact congrArg (fun t => es.foldl ConnEvent.rows t) h.rows

/-- A connection that is removed owes nothing. -/
theorem StoreInv.removed (h : StoreInv srv) (hrem : Removed p srv srv') : StoreInv srv' := by
  refine h.of_neutral hrem.trace (fun e he => ?_) hrem.zodiacPrognosises fun q hq => ?_
  · rcases List.mem_cons.mp he with rfl | he
    · trivial
    · rw [List.mem_singleton.mp he]
      trivial
  · rw [hrem.allocated] at hq
    exact ⟨Finset.mem_of_mem_erase hq, (hrem.same q).1⟩

theorem StoreInv.updateState (h : StoreInv srv) (hr : Ready p srv) {fuel : ℕ}
    {r : ℤ × Server} (hu : updateState fuel p srv = some r) : StoreInv r.2 := by
  obtain ⟨srv₁, hloop, rfl⟩ := Option.map_eq_some_iff.mp hu
  obtain ⟨hr₁, h₁⟩ : Ready p srv₁ ∧ StoreInv srv₁ :=
    updateStateLoop_preserves (P := fun t => Ready p t ∧ StoreInv t)
      (fun _ ht => ⟨ht.1.runHandler, ht.2.runHandler ht.1⟩) hloop ⟨hr, h⟩
  rcases afterLoop_cases (srv.mem p).op p srv₁ with ⟨-, heq⟩ | ⟨-, mask, ret, hw⟩
  · rw [heq]
    exact h₁.removed (hr₁.inv.removed hr₁.mem)
  · refine h₁.of_same hw.trace hw.zodiacPrognosises fun q hq => ?_
    rw [hw.allocated] at hq
    exact ⟨hq, by rw [hw.toHeapMem]⟩

/-- A connection that is given up owes nothing any more. -/
theorem StoreInv.setState (h : StoreInv srv) (p : Ptr) :
    StoreInv (srv.setState p stateError) := by
  obtain ⟨spec, hrun, hag⟩ := h.accepted
  refine ⟨⟨spec, hrun, hag.store, fun q hq => ?_⟩, h.rows⟩
  by_cases hqp : q = p
  · rw [hqp, setState_mem_self]
    trivial
  · rw [setState_mem_ne hqp]
    exact hag.conns q hq

theorem StoreInv.discardLoop (h : StoreInv srv) (hinv : ServerInv srv) {cur : ℤ} {fuel : ℕ}
    (hd : discardLoop cur fuel srv = some srv') : StoreInv srv' :=
  (discardLoop_preserves (fun _ q ht hq hstore => (hstore.setState q).removed
    ((ht.setState q stateError).heap.removed hq)) hinv hd h).2

theorem StoreInv.processNewConnection (h : StoreInv srv) (hinv : ServerInv srv)
    {conSocket : Option Fd} {block : Option (Ptr × ServerState)}
    (hblock : ∀ b ∈ block, b.1 ∉ srv.allocated) :
    StoreInv (processNewConnection conSocket block srv).2 := by
  cases conSocket with
  | none => exact h
  | some fd =>
    unfold Astrologer.processNewConnection
    simp only
    by_cases hfull : srv.heap.size ≥ srv.heap.capacity
    · rw [if_pos hfull]
      exact h.of_same rfl rfl fun q hq => ⟨hq, rfl⟩
    · rw [if_neg hfull]
      cases block with
      | none => exact h.of_same rfl rfl fun q hq => ⟨hq, rfl⟩
      | some b =>
        obtain ⟨p, raw⟩ := b
        have hp : p ∉ srv.allocated := hblock (p, raw) rfl
        have hc := hinv.heap.created hp fd raw
        have hne : ∀ q ∈ srv.allocated, q ≠ p := fun q hq heq => hp (heq ▸ hq)
        obtain ⟨es, htrace, hes⟩ : ∃ es,
            (createServerState fd (some (p, raw)) srv).2.trace = srv.trace ++ es ∧
              ∀ e ∈ es, e.Neutral := by
          rcases hc.trace with heq | heq
          · exact ⟨[], heq.trans (List.append_nil _).symm,
              fun _ he => absurd he List.not_mem_nil⟩
          · exact ⟨_, heq, fun e he => by rw [List.mem_singleton.mp he]; trivial⟩
        by_cases hret : (createServerState fd (some (p, raw)) srv).1 = 0
        · rw [if_neg (not_not.mpr hret)]
          obtain ⟨spec, hrun, hag⟩ := h.accepted
          have halloc := hc.allocated
          rw [if_pos hret] at halloc
          refine ⟨⟨spec.set p (spec.store, ⟨[], []⟩), ?_, ?_, fun q hq => ?_⟩, ?_⟩
          · show StoreSpec.init.run
              ((createServerState fd (some (p, raw)) srv).2.trace ++ [.connected p]) = _
            rw [htrace, StoreSpec.run_append, StoreSpec.run_append, hrun]
            show ((spec.run es).bind fun t => t.run [.connected p]) = _
            rw [run_neutral spec hes]
            rfl
          · refine hag.store.trans ?_
            show _ = fun z => rowLine
              ((createServerState fd (some (p, raw)) srv).2.zodiacPrognosises z)
            rw [hc.zodiacPrognosises]
          · have hq' : q ∈ insert p srv.allocated := halloc ▸ hq
            show ConnAgrees
              ((createServerState fd (some (p, raw)) srv).2.mem q).toConnState.phase
              ((createServerState fd (some (p, raw)) srv).2.mem q).intermBuf.unread
              (Function.update spec.conns p ⟨[], []⟩ q)
            by_cases hqp : q = p
            · rw [hqp, Function.update_self, hc.conn hret]
              exact ⟨rfl, rfl⟩
            · rw [Function.update_of_ne hqp, (hc.same q hqp).1]
              exact hag.conns q ((Finset.mem_insert.mp hq').resolve_left hqp)
          · show (createServerState fd (some (p, raw)) srv).2.zodiacPrognosises =
              rowsAfter ((createServerState fd (some (p, raw)) srv).2.trace ++
                [.connected p])
            rw [hc.zodiacPrognosises, h.rows, htrace, rowsAfter, rowsAfter,
              List.foldl_append, List.foldl_append, rows_neutral _ hes]
            rfl
        · rw [if_pos hret]
          have halloc := hc.allocated
          rw [if_neg hret] at halloc
          refine h.of_neutral htrace hes hc.zodiacPrognosises fun q hq => ?_
          have hq' : q ∈ srv.allocated := halloc ▸ hq
          exact ⟨hq', (hc.same q (hne q hq')).1⟩

theorem StoreInv.withKernel (h : StoreInv srv) (k : Kernel) : StoreInv (srv.withKernel k) :=
  h.of_same rfl rfl fun _ hq => ⟨hq, rfl⟩

theorem StoreInv.step {c c' : Config} (h : StoreInv c.srv) (hidle : ConnsIdle c.srv)
    (hl : LoopInv c) (hs : Step c c') : StoreInv c'.srv := by
  cases hs with
  | waitFailed srv k =>
    rw [minTimeout_eq]
    exact h.of_same rfl rfl fun q hq => ⟨hq, rfl⟩
  | waitExpired srv k hd =>
    rw [minTimeout_eq] at hd
    have h' : StoreInv (getCurTime (getCurTime (srv.withKernel k)).2).2 :=
      h.of_same rfl rfl fun q hq => ⟨hq, rfl⟩
    exact h'.discardLoop (hl.srv.withKernel k).getCurTime.getCurTime hd
  | waitEvents srv k hne hr =>
    rw [minTimeout_eq]
    exact h.of_same rfl rfl fun q hq => ⟨hq, rfl⟩
  | dispatched srv => exact h
  | newConnection srv k events hfd hblock =>
    exact (h.withKernel k).processNewConnection (hl.srv.withKernel k) hblock
  | update srv k p events hu =>
    have hp := hl.mem_allocated
    exact (h.withKernel k).updateState ⟨(hl.srv.withKernel k).heap, hp, (hidle p hp).conn⟩ hu
  | freeElem srv k hsize =>
    have hlast : srv.heap.size - 1 < srv.heap.size := Nat.sub_lt hsize Nat.one_pos
    exact (h.withKernel k).removed
      ((hl.srv.withKernel k).heap.removed (hl.srv.heap.mem_allocated hlast))
  | freed srv hsize => exact h

/-- A zeroed row holds no line. -/
theorem rowLine_replicate : rowLine (CArray.replicate _ 0) = none := by
  refine if_neg fun hmem => ?_
  have hmem := List.mem_of_mem_drop (List.mem_of_mem_take hmem)
  exact absurd (List.eq_of_mem_replicate hmem) (by decide)

theorem Reachable.store {c : Config} (h : Reachable c) : StoreInv c.srv := by
  induction h with
  | @init listenSocket srv h =>
    have hrows : srv.zodiacPrognosises = fun _ => CArray.replicate _ 0 := funext h.rows
    refine ⟨⟨.init, ?_, ?_, fun q hq => ?_⟩, ?_⟩
    · rw [h.trace]
      rfl
    · rw [hrows]
      exact funext fun _ => rowLine_replicate.symm
    · rw [h.allocated] at hq
      exact absurd hq (Finset.notMem_empty q)
    · rw [h.trace, hrows]
      rfl
  | step h hs ih => exact ih.step h.idle h.inv hs

end Inv

/-! ## The replies of a connection

From an accepted record the replies can be read without the store: what is sent from a request on
is the beginning of one line, fixed at the request, and all of it before anything new begins. -/

/-- The prognosis for a zodiac that an entry of the record shows. -/
def ServerEvent.prognosisFor (z : ℕ) : ServerEvent → Option (List Byte)
  | .conn _ (.prognosis z' l) => if z' = z then some l else none
  | _ => none

/-- The prognosis for a zodiac that was completely received last. -/
def lastPrognosis (z : ℕ) (trace : List ServerEvent) : Option (List Byte) :=
  trace.reverse.findSome? (ServerEvent.prognosisFor z)

/-- The bytes sent to a connection. -/
def sentTo (p : Ptr) (trace : List ServerEvent) : List Byte :=
  trace.flatMap fun
    | .conn q (.sent bs) => if q = p then bs else []
    | _ => []

/-- Something new begins for a connection. -/
def ServerEvent.begins (p : Ptr) : ServerEvent → Bool
  | .conn q (.request _) => q == p
  | .conn q (.prognosis _ _) => q == p
  | .connected q => q == p
  | _ => false

section Replies

variable {spec spec' : StoreSpec} {p : Ptr}

/-- Only a prognosis changes the map. -/
theorem step_store {e : ServerEvent} (h : spec.step e = some spec') (z : ℕ) :
    spec'.store z = (e.prognosisFor z).or (spec.store z) := by
  cases e with
  | conn q ce =>
    obtain ⟨r, hr, rfl⟩ := Option.map_eq_some_iff.mp h
    cases ce with
    | recv bs =>
      cases hr
      rfl
    | recvError =>
      cases hr
      rfl
    | sendError =>
      cases hr
      rfl
    | sent bs =>
      rw [StoreConn.step] at hr
      split at hr
      · cases hr
        rfl
      · cases hr
    | request z' =>
      rw [StoreConn.step] at hr
      split at hr
      · obtain ⟨a, -, ha⟩ := Option.bind_eq_some_iff.mp hr
        split at ha
        · cases ha
          rfl
        · cases ha
      · cases hr
    | prognosis z' l =>
      rw [StoreConn.step] at hr
      split at hr
      · obtain ⟨a, -, ha⟩ := Option.bind_eq_some_iff.mp hr
        split at ha
        · obtain ⟨b, -, hb⟩ := Option.bind_eq_some_iff.mp ha
          split at hb
          · cases hb
            show Function.update spec.store z' (some l) z = _
            rw [ServerEvent.prognosisFor]
            by_cases hz : z' = z
            · rw [hz, Function.update_self, if_pos rfl]
              rfl
            · rw [Function.update_of_ne (Ne.symm hz), if_neg hz]
              rfl
          · cases hb
        · cases ha
      · cases hr
  | connected q =>
    cases h
    rfl
  | removed q =>
    cases h
    rfl
  | heapCall q entry =>
    cases h
    rfl
  | removeFailed ix =>
    cases h
    rfl

/-- **The map is the last prognosis** of the record for each zodiac, as nothing else changes the
map.  By induction on the record. -/
theorem run_store {trace : List ServerEvent} (h : StoreSpec.init.run trace = some spec)
    (z : ℕ) : spec.store z = lastPrognosis z trace := by
  induction trace using List.reverseRecOn generalizing spec with
  | nil =>
    cases h
    rfl
  | append_singleton l e ih =>
    rw [StoreSpec.run_append] at h
    obtain ⟨t, ht, hstep⟩ := Option.bind_eq_some_iff.mp h
    have hstep : t.step e = some spec := (bind_pure (t.step e)).symm.trans hstep
    have hone : lastPrognosis z (l ++ [e]) = (e.prognosisFor z).or (lastPrognosis z l) := by
      rw [lastPrognosis, List.reverse_append, List.reverse_singleton, List.singleton_append,
        List.findSome?_cons]
      cases e.prognosisFor z with
      | none => rfl
      | some _ => rfl
    rw [step_store hstep z, hone, ih ht]

/-- Bytes sent are taken off what is owed; nothing else is, until something new
begins. -/
theorem step_pending {e : ServerEvent} (h : spec.step e = some spec')
    (he : e.begins p = false) :
    (spec.conns p).pending = sentTo p [e] ++ (spec'.conns p).pending := by
  have hset : ∀ (q : Ptr) (r : StoreMap × StoreConn), q ≠ p →
      (spec.set q r).conns p = spec.conns p :=
    fun q r hq => Function.update_of_ne (Ne.symm hq) _ _
  have hself : ∀ r : StoreMap × StoreConn, (spec.set p r).conns p = r.2 :=
    fun r => Function.update_self _ _ _
  cases e with
  | conn q ce =>
    obtain ⟨r, hr, rfl⟩ := Option.map_eq_some_iff.mp h
    by_cases hq : q = p
    · rw [hq] at hr he ⊢
      rw [hself]
      cases ce with
      | recv bs =>
        cases hr
        rfl
      | recvError =>
        cases hr
        rfl
      | sendError =>
        cases hr
        rfl
      | sent bs =>
        rw [StoreConn.step] at hr
        split at hr
        next hpre =>
          cases hr
          have hsent : sentTo p [.conn p (.sent bs)] = bs := by
            rw [sentTo, List.flatMap_singleton]
            exact if_pos rfl
          rw [hsent]
          exact (List.prefix_iff_eq_append.mp hpre).symm
        next => cases hr
      | request z =>
        rw [ServerEvent.begins, beq_self_eq_true] at he
        cases he
      | prognosis z l =>
        rw [ServerEvent.begins, beq_self_eq_true] at he
        cases he
    · rw [hset q r hq]
      have hnil : sentTo p [.conn q ce] = [] := by
        rw [sentTo, List.flatMap_singleton]
        cases ce with
        | sent bs => exact if_neg hq
        | _ => rfl
      rw [hnil, List.nil_append]
  | connected q =>
    have hq : q ≠ p := by
      rintro rfl
      rw [ServerEvent.begins, beq_self_eq_true] at he
      cases he
    cases h
    rw [hset q _ hq]
    rfl
  | removed q =>
    cases h
    rfl
  | heapCall q entry =>
    cases h
    rfl
  | removeFailed ix =>
    cases h
    rfl

theorem run_pending {mid : List ServerEvent} (h : spec.run mid = some spec')
    (hmid : ∀ e ∈ mid, e.begins p = false) :
    (spec.conns p).pending = sentTo p mid ++ (spec'.conns p).pending := by
  induction mid generalizing spec with
  | nil =>
    cases h
    rfl
  | cons e es ih =>
    rw [StoreSpec.run_cons] at h
    obtain ⟨t, ht, hrun⟩ := Option.bind_eq_some_iff.mp h
    have hcons : sentTo p (e :: es) = sentTo p [e] ++ sentTo p es := by
      rw [sentTo, sentTo, sentTo, List.flatMap_cons, List.flatMap_singleton]
    rw [step_pending ht (hmid e List.mem_cons_self),
      ih hrun fun e he => hmid e (List.mem_cons_of_mem _ he), hcons, List.append_assoc]

/-- What a request is owed, and that nothing else was. -/
theorem step_request {z : ℕ} (h : spec.step (.conn p (.request z)) = some spec') :
    (spec.conns p).pending = [] ∧ (spec'.conns p).pending = replyTo (spec.store z) := by
  obtain ⟨r, hr, rfl⟩ := Option.map_eq_some_iff.mp h
  rw [StoreConn.step] at hr
  split at hr
  next hp =>
    obtain ⟨a, -, ha⟩ := Option.bind_eq_some_iff.mp hr
    split at ha
    · cases ha
      have hconn := Function.update_self p (⟨a.2, replyTo (spec.store z)⟩ : StoreConn)
        spec.conns
      exact ⟨hp, congrArg StoreConn.pending hconn⟩
    · cases ha
  next => cases hr

/-- Something new begins when nothing is owed. -/
theorem step_begins {ce : ConnEvent} (h : spec.step (.conn p ce) = some spec')
    (he : (ServerEvent.conn p ce).begins p = true) : (spec.conns p).pending = [] := by
  obtain ⟨r, hr, -⟩ := Option.map_eq_some_iff.mp h
  cases ce with
  | request z => exact (step_request h).1
  | prognosis z l =>
    rw [StoreConn.step] at hr
    split at hr
    next hp => exact hp
    next => cases hr
  | recv bs => cases he
  | recvError => cases he
  | sent bs => cases he
  | sendError => cases he

end Replies

/-- **The prognosis store refines a map.**  The record of every run, of any number of
connections in any order, is accepted by the map, and the map is what the rows hold
and what was completely received last; the rows change by complete prognoses only.
What a connection is sent after a request, until something new begins for it, is the
beginning of the one reply that was right when the request was taken; and it is all of
it when something new begins. -/
theorem reachable_store {c : Config} (h : Reachable c) :
    (∃ spec, StoreSpec.init.run c.srv.trace = some spec ∧
      ∀ z, spec.store z = lastPrognosis z c.srv.trace ∧
        rowLine (c.srv.zodiacPrognosises z) = lastPrognosis z c.srv.trace) ∧
    c.srv.zodiacPrognosises = rowsAfter c.srv.trace ∧
    ∀ pre mid post p z,
      c.srv.trace = pre ++ .conn p (.request z) :: (mid ++ post) →
      (∀ e ∈ mid, e.begins p = false) →
      sentTo p mid <+: replyTo (lastPrognosis z pre) ∧
      ∀ ce rest, post = .conn p ce :: rest → (ServerEvent.conn p ce).begins p = true →
        sentTo p mid = replyTo (lastPrognosis z pre) := by
  obtain ⟨⟨spec, hrun, hag⟩, hrows⟩ := h.store
  refine ⟨⟨spec, hrun, fun z => ⟨run_store hrun z, ?_⟩⟩, hrows,
    fun pre mid post p z htrace hmid => ?_⟩
  · rw [← run_store hrun z, hag.store]
  · rw [htrace, StoreSpec.run_append] at hrun
    obtain ⟨s₁, h₁, hrun⟩ := Option.bind_eq_some_iff.mp hrun
    rw [StoreSpec.run_cons] at hrun
    obtain ⟨s₂, h₂, hrun⟩ := Option.bind_eq_some_iff.mp hrun
    rw [StoreSpec.run_append] at hrun
    obtain ⟨s₃, h₃, hrun⟩ := Option.bind_eq_some_iff.mp hrun
    have howed : replyTo (lastPrognosis z pre) = sentTo p mid ++ (s₃.conns p).pending := by
      rw [← run_store h₁ z, ← (step_request h₂).2]
      exact run_pending h₃ hmid
    refine ⟨⟨_, howed.symm⟩, fun ce rest hpost hbegins => ?_⟩
    rw [hpost, StoreSpec.run_cons] at hrun
    obtain ⟨s₄, h₄, -⟩ := Option.bind_eq_some_iff.mp hrun
    rw [howed, step_begins h₄ hbegins, List.append_nil]

/-! A run to look at: the connection `1` brings a prognosis for Aries, and the
connection `2` asks for it and is sent the first two bytes of the reply. -/

def sampleAsked : Option (ℤ × Server) :=
  sampleStored.bind fun r => r.2.sampleServe 2
    { sampleKernel 0 with recvs := Stream'.const (.bytes (str "HOROSCOPE Aries\n")) }

def sampleAnswered : Option (ℤ × Server) :=
  sampleAsked.bind fun r => r.2.sampleServe 2
    { sampleKernel 0 with sends := Stream'.const (.count 2) }

/-- The end of the run, as far as it is looked at. -/
theorem sampleAnswered_reachable :
    ∃ r, sampleAnswered = some r ∧ Reachable ⟨.epollWait, r.2⟩ := by
  have hep₀ : sampleTwo.epoll 5 = some ⟨epollIn, some 1⟩ := rfl
  have hstored : (sampleStored.map fun r => (r.1, r.2.epoll 6)) =
      some (0, some ⟨epollIn, some 2⟩) := by decide
  have hasked : (sampleAsked.map fun r => (r.1, r.2.epoll 6)) =
      some (0, some ⟨epollOut, some 2⟩) := by decide
  have hanswered : (sampleAnswered.map fun r => r.1) = some 0 := by decide
  obtain ⟨r₁, h₁, heq₁⟩ := Option.map_eq_some_iff.mp hstored
  obtain ⟨hret₁, hep₁⟩ := Prod.mk.inj heq₁
  obtain ⟨r₂, h₂, heq₂⟩ := Option.map_eq_some_iff.mp hasked
  obtain ⟨hret₂, hep₂⟩ := Prod.mk.inj heq₂
  obtain ⟨r₃, h₃, hret₃⟩ := Option.map_eq_some_iff.mp hanswered
  have hserve₂ := h₂
  rw [sampleAsked, h₁, Option.bind_some] at hserve₂
  have hserve₃ := h₃
  rw [sampleAnswered, h₂, Option.bind_some] at hserve₃
  have hreach₁ : Reachable ⟨.epollWait, r₁.2⟩ :=
    reachable_sampleServe sampleTwo_reachable hep₀ h₁ hret₁
  have hreach₂ : Reachable ⟨.epollWait, r₂.2⟩ :=
    reachable_sampleServe hreach₁ hep₁ hserve₂ hret₂
  exact ⟨r₃, h₃, reachable_sampleServe hreach₂ hep₂ hserve₃ hret₃⟩

/-- What has been sent is a part of the reply. -/
theorem sampleAnswered_store :
    ∃ r pre mid, sampleAnswered = some r ∧
      r.2.trace = pre ++ .conn 2 (.request 0) :: (mid ++ []) ∧
      lastPrognosis 0 pre = some (str "hi\n") ∧ sentTo 2 mid = str "hi" ∧
      sentTo 2 mid <+: replyTo (lastPrognosis 0 pre) := by
  obtain ⟨r, hr, hreach⟩ := sampleAnswered_reachable
  have htrace : (sampleAnswered.map fun r => (r.2.trace,
        lastPrognosis 0 (r.2.trace.take 7), sentTo 2 (r.2.trace.drop 8),
        (r.2.trace.drop 8).any (ServerEvent.begins 2))) =
      sampleAnswered.map fun r =>
        (r.2.trace.take 7 ++ .conn 2 (.request 0) :: (r.2.trace.drop 8 ++ []),
          some (str "hi\n"), str "hi", false) := by decide
  rw [hr] at htrace
  obtain ⟨heq, hlast, hsent, hany⟩ :
      r.2.trace = r.2.trace.take 7 ++ .conn 2 (.request 0) :: (r.2.trace.drop 8 ++ []) ∧
        lastPrognosis 0 (r.2.trace.take 7) = some (str "hi\n") ∧
        sentTo 2 (r.2.trace.drop 8) = str "hi" ∧
        (r.2.trace.drop 8).any (ServerEvent.begins 2) = false := by
    simpa only [Option.map_some, Option.some.injEq, Prod.mk.injEq] using htrace
  have hmid : ∀ e ∈ r.2.trace.drop 8, e.begins 2 = false :=
    fun e he => Bool.eq_false_iff.mpr (List.any_eq_false.mp hany e he)
  exact ⟨r, _, _, hr, heq, hlast, hsent,
    ((reachable_store hreach).2.2 _ _ _ _ _ heq hmid).1⟩

end Astrologer
