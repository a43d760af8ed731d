import Astrologer.Server.Refinement

/-!
# Where `handle_first_line` takes a line

`handle_first_line` compares the bytes in `s->buf` with the two request types when the
last byte received is the delimiter.  `ConnState.dispatch` is these comparisons and no
more, and `firstLineReceived_dispatch` says that the handler does what they say.

A line comes in pieces, so the comparisons are made at the end of some calls of the
handler.  `Dispatches` follows the calls up to the one that completes the line.  What
stands in the table in between does not matter: other connections may write to it.

`dispatches_line` is the result: however a line that fits is cut, whatever of it is in
the intermediate buffer already, and whatever comes behind it, it goes where its first
bytes say (`lineDispatch`).
-/

namespace Astrologer

open Lines ServerStateType FdOperation

/-! ## The comparisons -/

/-- What becomes of a request line. -/
inductive Destination
  | parseStarFirstLine
  | parseClientFirstLine
  | badRequestType
  deriving DecidableEq

/-- The comparisons of `handle_first_line`; there are none while the last byte is not the
delimiter. -/
def ConnState.dispatch (s : ConnState) : Option Destination :=
  let len := astrologBufLen - s.rem
  if s.buf.slice (s.curPos - 1) 1 = [delimiter] then
    if len > starRequestType.length ∧
        s.buf.slice 0 starRequestType.length = starRequestType then
      some .parseStarFirstLine
    else if len > clientRequestType.length ∧
        s.buf.slice 0 clientRequestType.length = clientRequestType then
      some .parseClientFirstLine
    else
      some .badRequestType
  else
    none

/-- **The handler goes where the comparisons say**: to one of the parse functions, or to the
error, or nowhere while the line is not complete. -/
theorem firstLineReceived_dispatch (c : Ctx) :
    firstLineReceived c =
      match c.s.dispatch with
      | some .parseStarFirstLine => parseStarFirstLine c
      | some .parseClientFirstLine => parseClientFirstLine c
      | some .badRequestType =>
        ({ c with s := { c.s with
            state := stateError
            buf := c.s.buf.poke (c.s.curPos - 1) 0 } }, .done)
      | none =>
        if c.s.rem = 0 then ({ c with s := { c.s with state := stateError } }, .done)
        else (c, .done) := by
  unfold firstLineReceived ConnState.dispatch
  simp only
  split
  · split
    · rfl
    · split <;> rfl
  · rfl

/-- `handle_first_line` up to the comparisons: where it stands, if it has received
something. -/
def Ctx.receive (c : Ctx) : Option Ctx :=
  let s := c.s
  let r := bufferedRecvUntilDelim s.intermBuf s.buf s.curPos s.rem delimiter c.io
  let received := r.1.1
  if received ≤ 0 then none
  else some { c with
    s := { s with
      intermBuf := r.1.2.1
      buf := r.1.2.2
      curPos := s.curPos + received.toNat
      rem := s.rem - received.toNat }
    io := r.2 }

theorem handleFirstLine_receive {c c' : Ctx} (h : c.receive = some c') :
    handleFirstLine c = firstLineReceived c' := by
  unfold Ctx.receive at h
  simp only at h
  split at h
  next => cases h
  next hpos =>
    cases h
    unfold handleFirstLine
    simp only [if_neg (not_lt_of_gt (not_le.mp hpos)), if_neg (ne_of_gt (not_le.mp hpos))]

/-- What one call of `handle_first_line` dispatches to. -/
def Ctx.dispatch (c : Ctx) : Option Destination := c.receive.bind fun c' => c'.s.dispatch

/-- `handle_first_line` is called until it has a line, and takes it there.  Between two
calls the table may change. -/
inductive Dispatches : Ctx → Destination → Prop
  | now {c : Ctx} {d : Destination} (h : c.dispatch = some d) : Dispatches c d
  | later {c : Ctx} {d : Destination} (h : c.dispatch = none)
      (hs : (handleFirstLine c).1.s.state = stateRecvFirstLine)
      (rest : ∀ table, Dispatches { (handleFirstLine c).1 with zodiacPrognosises := table } d) :
      Dispatches c d

/-- A line goes to one place. -/
theorem Dispatches.unique {c : Ctx} {d d' : Destination} (h : Dispatches c d)
    (h' : Dispatches c d') : d = d' := by
  induction h with
  | now h =>
    cases h' with
    | now h' => exact Option.some.inj (h.symm.trans h')
    | later h' => exact absurd (h.symm.trans h') (Option.some_ne_none _)
  | @later c d h _ _ ih =>
    cases h' with
    | now h' => exact absurd (h'.symm.trans h) (Option.some_ne_none _)
    | later _ _ rest' => exact ih (handleFirstLine c).1.zodiacPrognosises (rest' _)

/-! ## The line decides -/

/-- Where a line belongs. -/
def lineDispatch (line : List Byte) : Destination :=
  if starRequestType <+: line then .parseStarFirstLine
  else if clientRequestType <+: line then .parseClientFirstLine
  else .badRequestType

/-- No line is of both types. -/
theorem lineDispatch_eq_client {line : List Byte} :
    lineDispatch line = .parseClientFirstLine ↔ clientRequestType <+: line := by
  have hother : clientRequestType <+: line → ¬ starRequestType <+: line := fun hc hs =>
    absurd (List.prefix_of_prefix_length_le hs hc (by decide)) (by decide)
  unfold lineDispatch
  constructor
  · intro h
    split at h
    · cases h
    · split at h
      next hc => exact hc
      next => cases h
  · intro hc
    rw [if_neg (hother hc), if_pos hc]

section Round

variable {c : Ctx} {io : Io} {bs line text : List Byte}

theorem LineInBuf.dispatch_eq {s : ConnState} (h : LineInBuf s text) :
    s.dispatch = some (lineDispatch (text ++ [delimiter])) := by
  unfold ConnState.dispatch lineDispatch
  simp only [h.last, if_true, h.type_iff delimiter_notMem_starRequestType,
    h.type_iff delimiter_notMem_clientRequestType]
  split
  · rfl
  · split <;> rfl

theorem phase_eq_firstLine {s : ConnState} (h : s.phase = .firstLine line) :
    s.state = stateRecvFirstLine ∧ s.buf.slice 0 s.curPos = line := by
  unfold ConnState.phase at h
  cases hs : s.state <;> rw [hs] at h <;> cases h
  exact ⟨rfl, rfl⟩

/-- **One call of the handler** that has bytes: it completes the line, or it keeps them and
the line goes on. -/
theorem dispatch_round (hinv : ConnInv c.s) (hs : c.s.state = stateRecvFirstLine)
    (hfetch : c.session.fetch = (.bytes bs, { c.session with unread := bs, io := io })) :
    (∀ l rest, frame astrologBufLen delimiter (c.s.buf.slice 0 c.s.curPos ++ bs) = .line l rest →
      c.dispatch = some (lineDispatch l)) ∧
    (frame astrologBufLen delimiter (c.s.buf.slice 0 c.s.curPos ++ bs) = .unfinished →
      c.dispatch = none ∧ ConnInv (handleFirstLine c).1.s ∧
        (handleFirstLine c).1.s.state = stateRecvFirstLine ∧
        (handleFirstLine c).1.s.buf.slice 0 (handleFirstLine c).1.s.curPos =
          c.s.buf.slice 0 c.s.curPos ++ bs ∧
        (handleFirstLine c).1.s.intermBuf.unread = [] ∧ (handleFirstLine c).1.io = io) := by
  obtain ⟨hroom, hrem⟩ := hinv.recv_room (Or.inl hs)
  have hline := hinv.recv_line (Or.inl hs)
  rcases recv_cases c hinv.pos_le hinv.len_le c.s.curPos c.s.rem with
    ⟨io', -, hfetch', -⟩ | ⟨io', -, hfetch', -⟩ | ⟨io', buf, hne, hpos, hlen, hfetch', hrecv⟩
  · rw [hfetch] at hfetch'
    cases hfetch'
  · rw [hfetch] at hfetch'
    cases hfetch'
  · rw [hfetch] at hfetch'
    obtain ⟨hbs, hrest⟩ := Prod.ext_iff.mp hfetch'
    have hbs : bs = buf.unread := Fetched.bytes.inj hbs
    have hio : io = io' := congrArg Session.io hrest
    subst hbs hio
    obtain ⟨hchunk, hroom', hcases⟩ := arrived_cases hroom hrem hline hne
    obtain ⟨⟨hneg, hzero⟩, heq⟩ := arrived_eq io hlen hchunk
    have hreceive : c.receive = some (c.arrived buf io) := by
      unfold Ctx.receive
      simp only [hrecv]
      rw [if_neg (not_le.mpr (lt_of_le_of_ne (not_lt.mp hneg) (Ne.symm hzero))), heq]
    have hdispatch : c.dispatch = (c.arrived buf io).s.dispatch := by
      rw [Ctx.dispatch, hreceive, Option.bind_some]
    constructor
    · intro l rest hframe
      rcases hcases with ⟨text, htext, hslice, hframe'⟩ | ⟨-, -, -, hframe'⟩ |
        ⟨-, -, -, -, hframe'⟩
      · rw [hframe] at hframe'
        have hl : l = text ++ [delimiter] := (Frame.line.inj hframe').1
        have h : LineInBuf (c.arrived buf io).s text := ⟨htext, hslice, hroom'⟩
        rw [hdispatch, h.dispatch_eq, hl]
      · rw [hframe] at hframe'
        cases hframe'
      · rw [hframe] at hframe'
        cases hframe'
    · intro hframe
      obtain ⟨hsess, hinv'⟩ := handleFirstLine_session hinv hs
      have hround : (handleFirstLine c).1.session =
          { c.session with
            phase := .firstLine (c.s.buf.slice 0 c.s.curPos ++ buf.unread)
            unread := []
            io := io } := by
        have hphase : c.session.phase = .firstLine (c.s.buf.slice 0 c.s.curPos) := by
          show c.s.phase = _
          unfold ConnState.phase
          rw [hs]
        have hfst : (handleFirstLine c).1.session = c.session.round.1 :=
          congrArg Prod.fst hsess
        rw [hfst, Session.round, hphase]
        simp only [hfetch, Session.readFirstLine, hframe]
      obtain ⟨hstate, hslice'⟩ := phase_eq_firstLine (congrArg Session.phase hround)
      refine ⟨?_, hinv', hstate, hslice', congrArg Session.unread hround,
        congrArg Session.io hround⟩
      rcases hcases with ⟨text, -, -, hframe'⟩ | ⟨-, -, -, hframe'⟩ | ⟨hnot, -, -, -, -⟩
      · rw [hframe] at hframe'
        cases hframe'
      · rw [hframe] at hframe'
        cases hframe'
      · rw [hdispatch, ConnState.dispatch]
        exact if_neg (arrived_last hchunk hnot)

end Round

/-! ## A line in pieces -/

/-- The next results of `recv`. -/
def Io.Brings (io : Io) (chunks : List (List Byte)) : Prop :=
  (∀ bs ∈ chunks, bs ≠ [] ∧ bs.length ≤ astrologBufLen) ∧
    ∃ rest, io.recvs = chunks.map .bytes ++ₛ rest

/-- With nothing unread the next piece is fetched. -/
theorem Io.Brings.fetch {c : Ctx} {bs : List Byte} {chunks : List (List Byte)}
    (h : c.io.Brings (bs :: chunks)) (hun : c.s.intermBuf.unread = []) :
    ∃ io : Io, c.session.fetch = (.bytes bs, { c.session with unread := bs, io := io }) ∧
      io.Brings chunks := by
  obtain ⟨hcut, rest, hrecvs⟩ := h
  obtain ⟨hne, hle⟩ := hcut bs List.mem_cons_self
  have hsess : c.session.unread = c.s.intermBuf.unread := rfl
  have hio : c.session.io = c.io := rfl
  unfold Session.fetch Io.recv
  rw [hsess, hun, if_pos rfl, hio, hrecvs, List.map_cons, Stream'.cons_append_stream,
    Stream'.head_cons, Stream'.tail_cons]
  simp only [List.take_of_length_le hle]
  cases bs with
  | nil => exact absurd rfl hne
  | cons b tl =>
    exact ⟨_, rfl, fun b hb => hcut b (List.mem_cons_of_mem _ hb), rest, rfl⟩

section Pieces

variable {c : Ctx} {io : Io} {bs line more : List Byte} {chunks : List (List Byte)}

/-- **The call that has bytes of the line**: it dispatches the line, or the next calls have
the rest of it. -/
theorem dispatches_fetched (hinv : ConnInv c.s) (hs : c.s.state = stateRecvFirstLine)
    (hline : IsLine delimiter line) (hfit : line.length ≤ astrologBufLen)
    (hfetch : c.session.fetch = (.bytes bs, { c.session with unread := bs, io := io }))
    (hall : (c.s.buf.slice 0 c.s.curPos ++ bs) ++ chunks.flatten = line ++ more)
    (hnext : ∀ c' : Ctx, ConnInv c'.s → c'.s.state = stateRecvFirstLine →
      c'.s.buf.slice 0 c'.s.curPos = c.s.buf.slice 0 c.s.curPos ++ bs →
      c'.s.intermBuf.unread = [] → c'.io = io → Dispatches c' (lineDispatch line)) :
    Dispatches c (lineDispatch line) := by
  obtain ⟨hcomplete, hgoes⟩ := dispatch_round hinv hs hfetch
  rcases hline.frame_of_append hfit hall with ⟨rest, -, -, hframe⟩ | ⟨hframe, -⟩
  · exact .now (hcomplete line rest hframe)
  · obtain ⟨hnone, hinv', hs', hslice, hun, hio⟩ := hgoes hframe
    exact .later hnone hs' fun table => hnext _ hinv' hs' hslice hun hio

/-- **The rest of a line in pieces.**  By induction on the pieces: each goes on with the line, and
the one with its end completes it. -/
theorem dispatches_chunks (hinv : ConnInv c.s) (hs : c.s.state = stateRecvFirstLine)
    (hline : IsLine delimiter line) (hfit : line.length ≤ astrologBufLen)
    (hun : c.s.intermBuf.unread = []) (hbrings : c.io.Brings chunks)
    (hall : c.s.buf.slice 0 c.s.curPos ++ chunks.flatten = line ++ more) :
    Dispatches c (lineDispatch line) := by
  induction chunks generalizing c with
  | nil =>
    -- the line begun has no delimiter
    rw [List.flatten_nil, List.append_nil] at hall
    have hmem : delimiter ∈ c.s.buf.slice 0 c.s.curPos :=
      hall ▸ List.mem_append_left more hline.mem
    exact absurd hmem (hinv.recv_line (Or.inl hs))
  | cons bs chunks ih =>
    obtain ⟨io, hfetch, hbrings'⟩ := hbrings.fetch hun
    rw [List.flatten_cons, ← List.append_assoc] at hall
    refine dispatches_fetched hinv hs hline hfit hfetch hall fun c' hinv' hs' hslice hun' hio => ?_
    exact ih hinv' hs' hun' (hio ▸ hbrings') (hslice ▸ hall)

/-- The server stands at the beginning of a line, and this line is what comes next: from
the intermediate buffer, and from the next results of `recv`. -/
structure Ctx.Receives (c : Ctx) (line : List Byte) : Prop where
  inv : ConnInv c.s
  state : c.s.state = stateRecvFirstLine
  start : c.s.curPos = 0
  comes : ∃ chunks more, c.io.Brings chunks ∧
    c.s.intermBuf.unread ++ chunks.flatten = line ++ more

/-- **A line goes where it belongs**, in whatever pieces it comes. -/
theorem dispatches_line (h : c.Receives line) (hline : IsLine delimiter line)
    (hfit : line.length ≤ astrologBufLen) : Dispatches c (lineDispatch line) := by
  obtain ⟨chunks, more, hbrings, hall⟩ := h.comes
  have hnil : c.s.buf.slice 0 c.s.curPos = [] := by rw [h.start, CArray.slice_zero]
  by_cases hun : c.s.intermBuf.unread = []
  · have hrest : c.s.buf.slice 0 c.s.curPos ++ chunks.flatten = line ++ more := by
      rw [hun, List.nil_append] at hall
      rw [hnil, List.nil_append, hall]
    exact dispatches_chunks h.inv h.state hline hfit hun hbrings hrest
  · have hfetch : c.session.fetch =
        (.bytes c.s.intermBuf.unread,
          { c.session with unread := c.s.intermBuf.unread, io := c.io }) := by
      unfold Session.fetch
      exact if_neg hun
    have hfirst : (c.s.buf.slice 0 c.s.curPos ++ c.s.intermBuf.unread) ++ chunks.flatten =
        line ++ more := by
      rw [hnil, List.nil_append, hall]
    refine dispatches_fetched h.inv h.state hline hfit hfetch hfirst
      fun c' hinv' hs' hslice hun' hio => ?_
    have hrest : c'.s.buf.slice 0 c'.s.curPos ++ chunks.flatten = line ++ more := by
      rw [hslice, hfirst]
    exact dispatches_chunks hinv' hs' hline hfit hun' (hio ▸ hbrings) hrest

end Pieces

end Astrologer
