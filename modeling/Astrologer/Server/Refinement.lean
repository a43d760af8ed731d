import Astrologer.Server.Session

/-!
# The handlers refine the session machine

`Ctx.session` reads a session off the arrays of a connection: the line begun is
`buf[0 .. cur_pos)`, the reply left is `cur_pos[0 .. rem)`, the unread bytes are
`data[pos .. len)`, and a row of the table holds the line up to its first
delimiter, whatever older bytes stand behind it.

`ConnInv` is what every round keeps of the numbers; it is what makes all these
stretches lie inside their arrays.  `handleState_session` is the refinement: under
`ConnInv` a handler does to the arrays what `Session.round` does to the session.
-/

namespace Astrologer

open Lines ServerStateType FdOperation

/-! ## Reading a session off the arrays

The abstraction function and the invariant.  `ConnState.phase` reads the phase off the state and
the cursor; `ConnInv` is just strong enough that the stretches it reads are inside their arrays.
-/

/-- The line a row of the table holds. -/
def rowLine (row : CharArray) : Option (List Byte) :=
  if delimiter ∈ row.slice 0 astrologBufLen then
    some (takeLine delimiter (row.slice 0 astrologBufLen))
  else
    none

def ConnState.phase (s : ConnState) : Phase :=
  match s.state with
  | stateRecvFirstLine => .firstLine (s.buf.slice 0 s.curPos)
  | stateRecvH => .prognosis s.zodiacIx (s.buf.slice 0 s.curPos)
  | stateSendThanks => .reply (s.buf.slice s.curPos s.rem)
  | stateSendH => .reply (s.buf.slice s.curPos s.rem)
  | stateError => .failed s.op
  | stateSuccess => .finished

def Ctx.session (c : Ctx) : Session where
  phase := c.s.phase
  unread := c.s.intermBuf.unread
  store := fun z => rowLine (c.zodiacPrognosises z)
  io := c.io

/-- The state is one of the two receiving ones. -/
def ServerStateType.receiving (t : ServerStateType) : Prop :=
  t = stateRecvFirstLine ∨ t = stateRecvH

/-- The state is one of the two sending ones. -/
def ServerStateType.sending (t : ServerStateType) : Prop :=
  t = stateSendThanks ∨ t = stateSendH

/-- What every round keeps: the direction of a state, the bounds of its cursor, no delimiter in a
line that is being received, and one at the end of a line that is being sent. -/
structure ConnInv (s : ConnState) : Prop where
  pos_le : s.intermBuf.pos ≤ s.intermBuf.len
  len_le : s.intermBuf.len ≤ astrologBufLen
  recv_op : s.state.receiving → s.op = opRead
  recv_room : s.state.receiving → s.curPos + s.rem = astrologBufLen ∧ 0 < s.rem
  recv_line : s.state.receiving → delimiter ∉ s.buf.slice 0 s.curPos
  recv_zodiac : s.state = stateRecvH → s.zodiacIx < zodiacNum
  send_op : s.state.sending → s.op = opWrite
  send_room : s.state.sending → s.curPos + s.rem ≤ astrologBufLen ∧ 0 < s.rem
  send_line : s.state.sending →
    ∃ text, s.buf.slice s.curPos s.rem = text ++ [delimiter]
  success_op : s.state = stateSuccess → s.op = opRead

/-! ## Lists

What the searches of the source find in a line with its delimiter is what the session finds in the
line without it.  No name of a zodiac and no request type has a delimiter in it, so a search never
goes beyond the end of the line. -/

theorem startsWithName_iff {zodiac name : List Byte} :
    startsWithName zodiac name = true ↔ name <+: zodiac := by
  unfold startsWithName
  rw [Bool.and_eq_true, decide_eq_true_iff, beq_iff_eq, List.prefix_iff_eq_take]
  constructor
  · exact fun h => h.2.symm
  · intro h
    refine ⟨?_, h.symm⟩
    have hlen := congrArg List.length h
    rw [List.length_take] at hlen
    omega

theorem findZodiac_eq (text : List Byte) :
    findZodiac text = (zodiacAt text).elim (-1) fun z => (z : ℤ) := by
  have hfun : startsWithName text = fun name => decide (name <+: text) := by
    funext name
    rw [Bool.eq_iff_iff, startsWithName_iff, decide_eq_true_iff]
  unfold findZodiac zodiacAt
  rw [hfun]
  cases List.findIdx? (fun name => decide (name <+: text)) zodiacNames <;> rfl

/-- A prefix without the delimiter does not see the delimiter at the end. -/
theorem prefix_snoc_iff {p text : List Byte} (hp : delimiter ∉ p) :
    p <+: text ++ [delimiter] ↔ p <+: text := by
  constructor
  · intro h
    rcases List.prefix_concat_iff.mp h with heq | h
    · exact absurd (heq ▸ List.mem_append_right _ List.mem_cons_self) hp
    · exact h
  · exact fun h => h.trans (List.prefix_append _ _)

theorem delimiter_notMem_zodiacNames : ∀ name ∈ zodiacNames, delimiter ∉ name := by
  decide

theorem findIdx?_congr {α : Type*} {p q : α → Bool} {l : List α}
    (h : ∀ a ∈ l, p a = q a) : l.findIdx? p = l.findIdx? q := by
  induction l with
  | nil => rfl
  | cons a l ih =>
    rw [List.findIdx?_cons, List.findIdx?_cons, h a List.mem_cons_self,
      ih fun b hb => h b (List.mem_cons_of_mem a hb)]

theorem zodiacAt_snoc (text : List Byte) :
    zodiacAt (text ++ [delimiter]) = zodiacAt text := by
  unfold zodiacAt
  refine findIdx?_congr fun name hname => ?_
  rw [Bool.eq_iff_iff, decide_eq_true_iff, decide_eq_true_iff]
  exact prefix_snoc_iff (delimiter_notMem_zodiacNames name hname)

theorem zodiacAt_lt {text : List Byte} {z : ℕ} (h : zodiacAt text = some z) :
    z < zodiacNum :=
  (List.findIdx?_eq_some_iff_getElem.mp h).1

/-! ## Receiving

A receive is the same in the two receiving states: it may ask `recv` to fill the buffer, and it
copies what is there up to a delimiter or the end of the room.  `arrived_cases` is the outcome in
terms of the session, with the three cases of `Lines.Frame`. -/

theorem Buffer.length_unread {buf : Buffer} (hlen : buf.len ≤ astrologBufLen) :
    buf.unread.length = buf.len - buf.pos := by
  rw [Buffer.unread, CArray.length_slice]
  omega

theorem Buffer.unread_eq_nil {buf : Buffer} (hpos : buf.pos ≤ buf.len)
    (hlen : buf.len ≤ astrologBufLen) : buf.unread = [] ↔ buf.pos = buf.len := by
  rw [← List.length_eq_zero_iff, Buffer.length_unread hlen]
  omega

/-- The three ways a receive can begin, on both sides: an error, the end of the
stream, or bytes, which may have been there already. -/
theorem recv_cases (c : Ctx) (hpos : c.s.intermBuf.pos ≤ c.s.intermBuf.len)
    (hlen : c.s.intermBuf.len ≤ astrologBufLen) (off n : ℕ) :
    (∃ io, c.s.intermBuf.unread = [] ∧
      c.session.fetch = (.error, { c.session with io := io }) ∧
      bufferedRecvUntilDelim c.s.intermBuf c.s.buf off n delimiter c.io =
        ((-1, { c.s.intermBuf with pos := 0, len := 0 }, c.s.buf), io)) ∨
    (∃ io, c.s.intermBuf.unread = [] ∧
      c.session.fetch = (.eof, { c.session with io := io }) ∧
      bufferedRecvUntilDelim c.s.intermBuf c.s.buf off n delimiter c.io =
        ((0, { c.s.intermBuf with pos := 0, len := 0 }, c.s.buf), io)) ∨
    (∃ io buf, buf.unread ≠ [] ∧ buf.pos ≤ buf.len ∧ buf.len ≤ astrologBufLen ∧
      c.session.fetch =
        (.bytes buf.unread, { c.session with unread := buf.unread, io := io }) ∧
      bufferedRecvUntilDelim c.s.intermBuf c.s.buf off n delimiter c.io =
        (copyUntilDelim buf c.s.buf off n delimiter, io)) := by
  have hnil := Buffer.unread_eq_nil hpos hlen
  have hsess : c.session.unread = c.s.intermBuf.unread := rfl
  have hio : c.session.io = c.io := rfl
  unfold Session.fetch bufferedRecvUntilDelim
  rw [hsess, hio]
  by_cases hempty : c.s.intermBuf.pos = c.s.intermBuf.len
  · rw [if_pos (hnil.mpr hempty), if_pos hempty]
    unfold Io.recv
    cases c.io.recvs.head with
    | error => exact Or.inl ⟨_, hnil.mpr hempty, rfl, rfl⟩
    | bytes bs =>
      have hle : (bs.take astrologBufLen).length ≤ astrologBufLen :=
        List.length_take_le _ _
      simp only
      cases hbs : bs.take astrologBufLen with
      | nil => exact Or.inr (Or.inl ⟨_, hnil.mpr hempty, rfl, rfl⟩)
      | cons b tl =>
        rw [hbs] at hle
        have hunread : Buffer.unread { c.s.intermBuf with
            data := c.s.intermBuf.data.memcpy 0 (b :: tl)
            pos := 0
            len := (b :: tl).length } = b :: tl :=
          CArray.slice_memcpy_zero _ _ (Nat.le_succ_of_le hle)
        refine Or.inr (Or.inr ⟨_, { c.s.intermBuf with
            data := c.s.intermBuf.data.memcpy 0 (b :: tl)
            pos := 0
            len := (b :: tl).length }, ?_, Nat.zero_le _, hle, ?_, rfl⟩)
        · rw [hunread]
          exact List.cons_ne_nil _ _
        · rw [hunread]
  · rw [if_neg (mt hnil.mp hempty), if_neg hempty]
    exact Or.inr (Or.inr ⟨c.io, c.s.intermBuf, mt hnil.mp hempty, hpos, hlen, rfl, rfl⟩)

/-- The connection after a chunk has been copied behind the line begun. -/
def ConnState.arrived (s : ConnState) (buf : Buffer) (chunk : List Byte) : ConnState :=
  { s with
    intermBuf := { buf with pos := buf.pos + chunk.length }
    buf := s.buf.memcpy s.curPos chunk
    curPos := s.curPos + chunk.length
    rem := s.rem - chunk.length }

/-- What `bufferedRecvUntilDelim` copies out of a buffer with unread bytes. -/
def ConnState.chunk (s : ConnState) (buf : Buffer) : List Byte :=
  takeLine delimiter (buf.unread.take s.rem)

/-- The line begun, with the chunk behind it. -/
theorem arrived_slice {s : ConnState} (buf : Buffer)
    (hroom : s.curPos + s.rem = astrologBufLen) :
    (s.arrived buf (s.chunk buf)).buf.slice 0 (s.arrived buf (s.chunk buf)).curPos =
      s.buf.slice 0 s.curPos ++ s.chunk buf := by
  refine CArray.slice_memcpy _ _ _ ?_
  have hchunk : (s.chunk buf).length ≤ s.rem :=
    Nat.le_trans (length_takeLine_le _ _) (List.length_take_le _ _)
  omega

theorem arrived_unread (s : ConnState) (buf : Buffer) :
    (s.arrived buf (s.chunk buf)).intermBuf.unread =
      buf.unread.drop (s.chunk buf).length := by
  show CArray.slice _ _ _ = _
  rw [Buffer.unread, CArray.drop_slice]
  congr 1
  show buf.len - (buf.pos + _) = _
  omega

/-- **A chunk has arrived**: the line is complete, cannot be completed, or goes
on.  In each case this is what framing says of the line and the unread bytes. -/
theorem arrived_cases {s : ConnState} {buf : Buffer}
    (hroom : s.curPos + s.rem = astrologBufLen) (hrem : 0 < s.rem)
    (hline : delimiter ∉ s.buf.slice 0 s.curPos) (hne : buf.unread ≠ []) :
    let t := s.arrived buf (s.chunk buf)
    let line := s.buf.slice 0 s.curPos
    s.chunk buf ≠ [] ∧ t.curPos + t.rem = astrologBufLen ∧
    ((∃ text, delimiter ∉ text ∧ t.buf.slice 0 t.curPos = text ++ [delimiter] ∧
        frame astrologBufLen delimiter (line ++ buf.unread) =
          .line (text ++ [delimiter]) t.intermBuf.unread) ∨
      (delimiter ∉ t.buf.slice 0 t.curPos ∧ t.rem = 0 ∧
        t.intermBuf.unread = (line ++ buf.unread).drop astrologBufLen ∧
        frame astrologBufLen delimiter (line ++ buf.unread) = .overlong) ∨
      (delimiter ∉ t.buf.slice 0 t.curPos ∧ 0 < t.rem ∧ t.intermBuf.unread = [] ∧
        t.buf.slice 0 t.curPos = line ++ buf.unread ∧
        frame astrologBufLen delimiter (line ++ buf.unread) = .unfinished)) := by
  have hlen : (s.buf.slice 0 s.curPos).length = s.curPos := by
    rw [CArray.length_slice]
    omega
  have hne' : buf.unread.take s.rem ≠ [] := by
    rw [Ne, List.take_eq_nil_iff]
    exact not_or.mpr ⟨Nat.ne_of_gt hrem, hne⟩
  have hle : (s.chunk buf).length ≤ s.rem :=
    Nat.le_trans (length_takeLine_le _ _) (List.length_take_le _ _)
  have hslice := arrived_slice buf hroom
  have hunread := arrived_unread s buf
  have hroom' : (s.buf.slice 0 s.curPos).length + s.rem = astrologBufLen := by
    rw [hlen, hroom]
  have hframe := frame_append (l := buf.unread) hline hroom'
  refine ⟨takeLine_ne_nil hne', ?_, ?_⟩
  · show s.curPos + (s.chunk buf).length + (s.rem - (s.chunk buf).length) = _
    omega
  by_cases hmem : delimiter ∈ buf.unread.take s.rem
  · left
    obtain ⟨text, htext, heq⟩ := exists_takeLine_eq_of_mem hmem
    refine ⟨s.buf.slice 0 s.curPos ++ text, ?_, ?_, ?_⟩
    · rw [List.mem_append, not_or]
      exact ⟨hline, htext⟩
    · rw [hslice, ConnState.chunk, heq, List.append_assoc]
    · rw [hframe, if_pos hmem, hunread, ConnState.chunk, heq, List.append_assoc]
  · right
    have hchunk : s.chunk buf = buf.unread.take s.rem := takeLine_of_notMem hmem
    have hnot : delimiter ∉ s.buf.slice 0 s.curPos ++ s.chunk buf := by
      rw [List.mem_append, not_or, hchunk]
      exact ⟨hline, hmem⟩
    rw [hslice, hunread, hframe, if_neg hmem]
    rcases Nat.lt_or_ge buf.unread.length s.rem with hlt | hge
    · right
      have hall : s.chunk buf = buf.unread := by
        rw [hchunk, List.take_of_length_le (Nat.le_of_lt hlt)]
      refine ⟨hnot, ?_, ?_, by rw [hall], if_neg (by omega)⟩
      · show 0 < s.rem - (s.chunk buf).length
        rw [hall]
        omega
      · rw [hall, List.drop_length]
    · left
      have hfull : (s.chunk buf).length = s.rem := by
        rw [hchunk, List.length_take]
        omega
      refine ⟨hnot, ?_, ?_, if_pos hge⟩
      · show s.rem - (s.chunk buf).length = 0
        omega
      · have hnil : (s.buf.slice 0 s.curPos).drop astrologBufLen = [] :=
          List.drop_of_length_le (by omega)
        rw [hfull, List.drop_append, hnil, hlen, List.nil_append]
        congr 1
        omega

/-! ## Obeying a request line

The parse functions look at a complete line in the buffer (`LineInBuf`) and write their reply into
the same buffer, over the line.  Each is shown to do what the session does for the request that
the line is. -/

section Line

variable {c : Ctx} {text : List Byte}

/-- The line in the buffer is complete: it is `text` and the delimiter, it begins the buffer, and
the cursor is behind it. -/
structure LineInBuf (s : ConnState) (text : List Byte) : Prop where
  notMem : delimiter ∉ text
  slice_eq : s.buf.slice 0 s.curPos = text ++ [delimiter]
  room : s.curPos + s.rem = astrologBufLen

theorem LineInBuf.curPos_eq {s : ConnState} (h : LineInBuf s text) :
    s.curPos = text.length + 1 := by
  have hlen := congrArg List.length h.slice_eq
  rw [CArray.length_slice, List.length_append, List.length_singleton] at hlen
  have := h.room
  omega

theorem LineInBuf.last {s : ConnState} (h : LineInBuf s text) :
    s.buf.slice (s.curPos - 1) 1 = [delimiter] :=
  CArray.slice_last_of_snoc h.slice_eq (by have := h.room; omega)

/-- The two conditions under which a request type is recognised. -/
theorem LineInBuf.type_iff {s : ConnState} (h : LineInBuf s text) {p : List Byte}
    (hp : delimiter ∉ p) :
    (astrologBufLen - s.rem > p.length ∧ s.buf.slice 0 p.length = p) ↔
      p <+: text ++ [delimiter] := by
  have hcur := h.curPos_eq
  have hroom := h.room
  have htake : ∀ k, k ≤ s.curPos → s.buf.slice 0 k = (text ++ [delimiter]).take k := by
    intro k hk
    rw [← h.slice_eq, CArray.take_slice, Nat.min_eq_left hk]
  constructor
  · rintro ⟨hlen, heq⟩
    rw [List.prefix_iff_eq_take, ← htake _ (by omega)]
    exact heq.symm
  · intro hpre
    have hle := ((prefix_snoc_iff hp).mp hpre).length_le
    refine ⟨by omega, ?_⟩
    rw [htake _ (by omega)]
    exact (List.prefix_iff_eq_take.mp hpre).symm

/-- The zodiac search of the parse functions. -/
theorem LineInBuf.findZodiac_eq {s : ConnState} (h : LineInBuf s text) {ptr : ℕ}
    (hptr : ptr ≤ text.length) :
    findZodiac (s.buf.slice ptr (ptr + delIx s ptr - ptr)) =
      (zodiacAt ((text ++ [delimiter]).drop ptr)).elim (-1) fun z => (z : ℤ) := by
  have hdrop : (text ++ [delimiter]).drop ptr = text.drop ptr ++ [delimiter] :=
    List.drop_append_of_le_length hptr
  have hslice : s.buf.slice ptr (s.curPos - ptr) = text.drop ptr ++ [delimiter] := by
    have hd := s.buf.drop_slice 0 s.curPos ptr
    rw [Nat.zero_add, h.slice_eq, hdrop] at hd
    exact hd.symm
  have hnot : delimiter ∉ text.drop ptr := fun hm => h.notMem (List.mem_of_mem_drop hm)
  have hdel : delIx s ptr = (text.drop ptr).length := by
    rw [delIx, hslice, memchr, findIdx_eq_length (List.mem_append_right _ List.mem_cons_self),
      takeLine_text hnot, List.length_append]
    rfl
  have hname : s.buf.slice ptr (text.drop ptr).length = text.drop ptr := by
    have ht := s.buf.take_slice ptr (s.curPos - ptr) (text.drop ptr).length
    have hcur := h.curPos_eq
    rw [hslice, List.take_left, List.length_drop, Nat.min_eq_left (by omega)] at ht
    rw [List.length_drop]
    exact ht.symm
  rw [hdel, Nat.add_sub_cancel_left, hname, Astrologer.findZodiac_eq, hdrop, zodiacAt_snoc]

theorem delimiter_notMem_starRequestType : delimiter ∉ starRequestType := by decide

theorem delimiter_notMem_clientRequestType : delimiter ∉ clientRequestType := by decide

/-- A recognised star line: the zodiac decides. -/
theorem parseStarFirstLine_eq (h : LineInBuf c.s text)
    (hp : starRequestType <+: text ++ [delimiter]) :
    (∃ z b, classify (text ++ [delimiter]) = .star z ∧ z < zodiacNum ∧
      parseStarFirstLine c = ({ c with s := { c.s with
        buf := b
        curPos := 0
        rem := astrologBufLen
        zodiacIx := z
        state := stateRecvH
        op := opRead } }, .updateTs)) ∨
    (∃ b, classify (text ++ [delimiter]) = .bad ∧
      parseStarFirstLine c =
        ({ c with s := { c.s with state := stateError, buf := b } }, .done)) := by
  have hptr : starRequestType.length ≤ text.length :=
    ((prefix_snoc_iff delimiter_notMem_starRequestType).mp hp).length_le
  have hz := h.findZodiac_eq hptr
  unfold parseStarFirstLine classify
  simp only [hz]
  rw [if_pos hp]
  cases hzod : zodiacAt ((text ++ [delimiter]).drop starRequestType.length) with
  | none => exact Or.inr ⟨_, rfl, if_pos (by decide)⟩
  | some z =>
    have hnot : ¬ (z : ℤ) < 0 := by omega
    exact Or.inl ⟨z, _, rfl, zodiacAt_lt hzod, if_neg hnot⟩

/-- A row answers with the line it holds. -/
theorem replyTo_rowLine (row : CharArray) : clientReply row = replyTo (rowLine row) := by
  unfold rowLine clientReply
  by_cases hmem : delimiter ∈ row.slice 0 astrologBufLen
  · have hpos : 0 < (takeLine delimiter (row.slice 0 astrologBufLen)).length :=
      List.length_pos_iff.mpr (takeLine_ne_nil (List.ne_nil_of_mem hmem))
    have hle : (takeLine delimiter (row.slice 0 astrologBufLen)).length ≤
        astrologBufLen := by
      refine Nat.le_trans (length_takeLine_le _ _) ?_
      rw [CArray.length_slice]
      omega
    rw [memchr, findIdx_eq_length hmem, if_pos hmem]
    simp only [replyTo, Option.getD_some]
    rw [Nat.sub_add_cancel hpos]
    conv_rhs => rw [takeLine_eq_take, CArray.take_slice, Nat.min_eq_left hle]
  · have hnone : memchr (row.slice 0 astrologBufLen) delimiter = none := by
      rw [memchr, List.findIdx?_eq_none_iff]
      intro x hx
      simpa using fun h : x = delimiter => hmem (h ▸ hx)
    rw [hnone, if_neg hmem]
    rfl

/-- Every reply is a line that fits the buffer. -/
theorem exists_replyTo_rowLine (row : CharArray) :
    ∃ text, replyTo (rowLine row) = text ++ [delimiter] ∧
      (replyTo (rowLine row)).length ≤ astrologBufLen := by
  unfold rowLine
  by_cases hmem : delimiter ∈ row.slice 0 astrologBufLen
  · obtain ⟨text, -, heq⟩ := exists_takeLine_eq_of_mem hmem
    rw [if_pos hmem]
    refine ⟨text, heq, Nat.le_trans (length_takeLine_le _ _) ?_⟩
    rw [CArray.length_slice]
    omega
  · rw [if_neg hmem]
    exact ⟨str "YOU ARE OUT OF LUCK!", by decide, by decide⟩

/-- A recognised client line: the zodiac decides. -/
theorem parseClientFirstLine_eq (h : LineInBuf c.s text)
    (hs : ¬ starRequestType <+: text ++ [delimiter])
    (hp : clientRequestType <+: text ++ [delimiter]) :
    (∃ z b, classify (text ++ [delimiter]) = .client z ∧
      CArray.slice b 0 (replyTo (rowLine (c.zodiacPrognosises z))).length =
        replyTo (rowLine (c.zodiacPrognosises z)) ∧
      parseClientFirstLine c = ({ c with
        s := { c.s with
          rem := (replyTo (rowLine (c.zodiacPrognosises z))).length
          buf := b
          curPos := 0
          state := stateSendH
          op := opWrite }
        io := c.io.log (.request z) }, .updateTs)) ∨
    (∃ b, classify (text ++ [delimiter]) = .bad ∧
      parseClientFirstLine c =
        ({ c with s := { c.s with state := stateError, buf := b } }, .done)) := by
  have hptr : clientRequestType.length ≤ text.length :=
    ((prefix_snoc_iff delimiter_notMem_clientRequestType).mp hp).length_le
  have hz := h.findZodiac_eq hptr
  unfold parseClientFirstLine classify
  simp only [hz, replyTo_rowLine]
  rw [if_neg hs, if_pos hp]
  cases hzod : zodiacAt ((text ++ [delimiter]).drop clientRequestType.length) with
  | none => exact Or.inr ⟨_, rfl, if_pos (by decide)⟩
  | some z =>
    have hnot : ¬ (z : ℤ) < 0 := by omega
    obtain ⟨-, -, hlen⟩ := exists_replyTo_rowLine (c.zodiacPrognosises z)
    exact Or.inl ⟨z, _, rfl,
      CArray.slice_memcpy_zero _ _ (Nat.le_succ_of_le hlen), if_neg hnot⟩

end Line

/-! ## The rounds

One lemma for each handler, each by the cases of what has arrived, and `handleState_session` from
these.  The end of the section is what the modules about `update_state` need besides: that the
loop condition, the direction and the end of a connection can be read off its session. -/

section Rounds

theorem ConnInv.stopped {s : ConnState} (hpos : s.intermBuf.pos ≤ s.intermBuf.len)
    (hlen : s.intermBuf.len ≤ astrologBufLen)
    (hs : s.state = stateError ∨ s.state = stateSuccess ∧ s.op = opRead) : ConnInv s := by
  rcases hs with hs | ⟨hs, hop⟩
  · constructor <;> simp [ServerStateType.receiving, ServerStateType.sending, *]
  · constructor <;> simp [ServerStateType.receiving, ServerStateType.sending, *]

theorem ConnInv.receive {s : ConnState} (hpos : s.intermBuf.pos ≤ s.intermBuf.len)
    (hlen : s.intermBuf.len ≤ astrologBufLen) (hs : s.state.receiving)
    (hop : s.op = opRead) (hroom : s.curPos + s.rem = astrologBufLen) (hrem : 0 < s.rem)
    (hline : delimiter ∉ s.buf.slice 0 s.curPos)
    (hz : s.state = stateRecvH → s.zodiacIx < zodiacNum) : ConnInv s := by
  have hnot : ¬ s.state.sending := by
    rcases hs with hs | hs <;> simp [ServerStateType.sending, hs]
  have hne : s.state ≠ stateSuccess := by
    rcases hs with hs | hs <;> simp [hs]
  exact ⟨hpos, hlen, fun _ => hop, fun _ => ⟨hroom, hrem⟩, fun _ => hline, hz,
    fun h => absurd h hnot, fun h => absurd h hnot, fun h => absurd h hnot,
    fun h => absurd h hne⟩

theorem ConnInv.send {s : ConnState} (hpos : s.intermBuf.pos ≤ s.intermBuf.len)
    (hlen : s.intermBuf.len ≤ astrologBufLen) (hs : s.state.sending)
    (hop : s.op = opWrite) (hroom : s.curPos + s.rem ≤ astrologBufLen)
    (hline : ∃ text, s.buf.slice s.curPos s.rem = text ++ [delimiter]) : ConnInv s := by
  have hnot : ¬ s.state.receiving := by
    rcases hs with hs | hs <;> simp [ServerStateType.receiving, hs]
  have hne : s.state ≠ stateSuccess ∧ s.state ≠ stateRecvH := by
    rcases hs with hs | hs <;> simp [hs]
  have hrem : 0 < s.rem := by
    obtain ⟨text, heq⟩ := hline
    have hlen := congrArg List.length heq
    rw [CArray.length_slice, List.length_append, List.length_singleton] at hlen
    omega
  exact ⟨hpos, hlen, fun h => absurd h hnot, fun h => absurd h hnot,
    fun h => absurd h hnot, fun h => absurd h hne.2, fun _ => hop,
    fun _ => ⟨hroom, hrem⟩, fun _ => hline, fun h => absurd h hne.1⟩

variable {c : Ctx}

/-- A complete request line goes to the parse function of its type. -/
theorem firstLineReceived_line {text : List Byte} (h : LineInBuf c.s text) :
    firstLineReceived c =
      if starRequestType <+: text ++ [delimiter] then parseStarFirstLine c
      else if clientRequestType <+: text ++ [delimiter] then parseClientFirstLine c
      else ({ c with s := { c.s with
          state := stateError
          buf := c.s.buf.poke (c.s.curPos - 1) 0 } }, .done) := by
  unfold firstLineReceived
  simp only [h.last, if_true, h.type_iff delimiter_notMem_starRequestType,
    h.type_iff delimiter_notMem_clientRequestType]

theorem firstLineReceived_overlong
    (hlast : c.s.buf.slice (c.s.curPos - 1) 1 ≠ [delimiter]) (hrem : c.s.rem = 0) :
    firstLineReceived c = ({ c with s := { c.s with state := stateError } }, .done) := by
  unfold firstLineReceived
  simp only [if_neg hlast, if_pos hrem]

theorem firstLineReceived_unfinished
    (hlast : c.s.buf.slice (c.s.curPos - 1) 1 ≠ [delimiter]) (hrem : 0 < c.s.rem) :
    firstLineReceived c = (c, .done) := by
  unfold firstLineReceived
  simp only [if_neg hlast, if_neg (Nat.ne_of_gt hrem)]

/-- A complete prognosis line is stored and thanked for. -/
theorem prognosisReceived_line {text : List Byte} (h : LineInBuf c.s text) :
    prognosisReceived c =
      ({ s := { c.s with
            rem := starReplySuccess.length
            buf := (c.s.buf.poke (c.s.curPos - 1) 0).memcpy 0 starReplySuccess
            curPos := 0
            zodiacIx := zodiacUnknown
            state := stateSendThanks
            op := opWrite }
         zodiacPrognosises := Function.update c.zodiacPrognosises c.s.zodiacIx
            ((c.zodiacPrognosises c.s.zodiacIx).memcpy 0 (text ++ [delimiter]))
         io := c.io.log (.prognosis c.s.zodiacIx (text ++ [delimiter])) }, .updateTs) := by
  have hlen : astrologBufLen - c.s.rem = c.s.curPos := by
    have := h.room
    omega
  unfold prognosisReceived
  simp only [h.last, if_true, hlen, h.slice_eq]

theorem prognosisReceived_overlong
    (hlast : c.s.buf.slice (c.s.curPos - 1) 1 ≠ [delimiter]) (hrem : c.s.rem = 0) :
    prognosisReceived c = ({ c with s := { c.s with state := stateError } }, .done) := by
  unfold prognosisReceived
  simp only [if_neg hlast, if_pos hrem]

theorem prognosisReceived_unfinished
    (hlast : c.s.buf.slice (c.s.curPos - 1) 1 ≠ [delimiter]) (hrem : 0 < c.s.rem) :
    prognosisReceived c = (c, .done) := by
  unfold prognosisReceived
  simp only [if_neg hlast, if_neg (Nat.ne_of_gt hrem)]

/-- A line copied to the start of a row is what the row holds, whatever older
bytes stand behind it. -/
theorem rowLine_memcpy (row : CharArray) {text : List Byte} (htext : delimiter ∉ text)
    (hle : (text ++ [delimiter]).length ≤ astrologBufLen) :
    rowLine (row.memcpy 0 (text ++ [delimiter])) = some (text ++ [delimiter]) := by
  have hslice : (row.memcpy 0 (text ++ [delimiter])).slice 0 astrologBufLen =
      text ++ delimiter :: (row.memcpy 0 (text ++ [delimiter])).slice
        (text ++ [delimiter]).length (astrologBufLen - (text ++ [delimiter]).length) := by
    have hsplit := (row.memcpy 0 (text ++ [delimiter])).slice_append 0
      (text ++ [delimiter]).length (astrologBufLen - (text ++ [delimiter]).length)
    rw [CArray.slice_memcpy_zero _ _ (Nat.le_succ_of_le hle), Nat.zero_add,
      Nat.add_sub_cancel' hle] at hsplit
    rw [← hsplit, List.append_assoc]
    rfl
  have hmem : delimiter ∈ (row.memcpy 0 (text ++ [delimiter])).slice 0 astrologBufLen := by
    rw [hslice]
    exact List.mem_append_right _ List.mem_cons_self
  unfold rowLine
  rw [if_pos hmem, hslice, takeLine_text htext]

variable {buf : Buffer} {io : Io}

/-- The context after a chunk has been copied. -/
def Ctx.arrived (c : Ctx) (buf : Buffer) (io : Io) : Ctx :=
  { c with s := c.s.arrived buf (c.s.chunk buf), io := io }

/-- What is left in the buffer is still in the buffer. -/
theorem arrived_pos_le (hpos : buf.pos ≤ buf.len) (hlen : buf.len ≤ astrologBufLen)
    {s : ConnState} : (s.arrived buf (s.chunk buf)).intermBuf.pos ≤ buf.len := by
  have hchunk : (s.chunk buf).length ≤ buf.unread.length :=
    Nat.le_trans (length_takeLine_le _ _)
      (List.length_take_le' _ _)
  rw [Buffer.length_unread hlen] at hchunk
  show buf.pos + (s.chunk buf).length ≤ buf.len
  omega

/-- The end of a chunk that leaves the line open. -/
theorem arrived_last (hchunk : c.s.chunk buf ≠ [])
    (hnot : delimiter ∉ (c.arrived buf io).s.buf.slice 0 (c.arrived buf io).s.curPos) :
    (c.arrived buf io).s.buf.slice ((c.arrived buf io).s.curPos - 1) 1 ≠ [delimiter] := by
  refine CArray.slice_last_of_notMem hnot ?_
  have hpos := List.length_pos_iff.mpr hchunk
  show 0 < c.s.curPos + (c.s.chunk buf).length
  omega

/-- Two ways to say that a context has failed. -/
theorem failed_ext {d : Ctx} {op : FdOperation} {unread : List Byte} {b : CharArray}
    (hop : d.s.op = op) (hunread : d.s.intermBuf.unread = unread) :
    (Ctx.session { d with s := { d.s with state := stateError, buf := b } },
        (After.done : After)) =
      (({ d.session with phase := .failed op, unread := unread } : Session), .done) := by
  refine Prod.ext (Session.ext ?_ hunread rfl rfl) rfl
  exact congrArg Phase.failed hop

/-- **A chunk for a request line.** -/
theorem firstLineReceived_session (hinv : ConnInv c.s)
    (hs : c.s.state = stateRecvFirstLine) (hne : buf.unread ≠ [])
    (hpos : buf.pos ≤ buf.len) (hlen : buf.len ≤ astrologBufLen) :
    ((firstLineReceived (c.arrived buf io)).1.session,
        (firstLineReceived (c.arrived buf io)).2) =
      Session.readFirstLine { c.session with unread := buf.unread, io := io }
        (c.s.buf.slice 0 c.s.curPos) buf.unread ∧
    ConnInv (firstLineReceived (c.arrived buf io)).1.s := by
  obtain ⟨hroom, hrem⟩ := hinv.recv_room (Or.inl hs)
  have hop := hinv.recv_op (Or.inl hs)
  have hline := hinv.recv_line (Or.inl hs)
  obtain ⟨hchunk, hroom', hcases⟩ := arrived_cases hroom hrem hline hne
  have hpos' := arrived_pos_le hpos hlen (s := c.s)
  unfold Session.readFirstLine
  rcases hcases with ⟨text, htext, hslice, hframe⟩ | ⟨hnot, hrem', hunread, hframe⟩ |
    ⟨hnot, hrem', hunread, hslice, hframe⟩
  · have h : LineInBuf (c.arrived buf io).s text := ⟨htext, hslice, hroom'⟩
    rw [firstLineReceived_line h]
    simp only [hframe]
    unfold Session.obey
    by_cases hstar : starRequestType <+: text ++ [delimiter]
    · rw [if_pos hstar]
      rcases parseStarFirstLine_eq h hstar with ⟨z, b, hclass, hz, heq⟩ | ⟨b, hclass, heq⟩
      · rw [heq, hclass]
        exact ⟨rfl, .receive hpos' hlen (Or.inr rfl) rfl rfl (Nat.zero_lt_succ 79)
          List.not_mem_nil fun _ => hz⟩
      · rw [heq, hclass]
        exact ⟨failed_ext hop rfl, .stopped hpos' hlen (Or.inl rfl)⟩
    rw [if_neg hstar]
    by_cases hclient : clientRequestType <+: text ++ [delimiter]
    · rw [if_pos hclient]
      rcases parseClientFirstLine_eq h hstar hclient with
        ⟨z, b, hclass, hb, heq⟩ | ⟨b, hclass, heq⟩
      · obtain ⟨reply, hreply, hle⟩ :=
          exists_replyTo_rowLine ((c.arrived buf io).zodiacPrognosises z)
        rw [heq, hclass]
        refine ⟨?_, .send hpos' hlen (Or.inr rfl) rfl ?_ ⟨reply, hb.trans hreply⟩⟩
        · refine Prod.ext (Session.ext ?_ rfl rfl rfl) rfl
          exact congrArg Phase.reply hb
        · show 0 + _ ≤ _
          rwa [Nat.zero_add]
      · rw [heq, hclass]
        exact ⟨failed_ext hop rfl, .stopped hpos' hlen (Or.inl rfl)⟩
    · have hclass : classify (text ++ [delimiter]) = .bad := by
        rw [classify, if_neg hstar, if_neg hclient]
      rw [if_neg hclient, hclass]
      exact ⟨failed_ext hop rfl, .stopped hpos' hlen (Or.inl rfl)⟩
  · rw [hframe, firstLineReceived_overlong (arrived_last hchunk hnot) hrem']
    exact ⟨failed_ext hop hunread, .stopped hpos' hlen (Or.inl rfl)⟩
  · rw [hframe, firstLineReceived_unfinished (arrived_last hchunk hnot) hrem', ← hunread]
    refine ⟨?_, .receive hpos' hlen (Or.inl hs) hop hroom' hrem' hnot fun h => ?_⟩
    · refine Prod.ext (Session.ext ?_ rfl rfl rfl) rfl
      show ConnState.phase _ = _
      unfold ConnState.phase
      rw [show (c.arrived buf io).s.state = stateRecvFirstLine from hs]
      exact congrArg Phase.firstLine hslice
    · exact absurd (hs.symm.trans h) (by decide)

/-- **A chunk for a prognosis line.** -/
theorem prognosisReceived_session (hinv : ConnInv c.s)
    (hs : c.s.state = stateRecvH) (hne : buf.unread ≠ [])
    (hpos : buf.pos ≤ buf.len) (hlen : buf.len ≤ astrologBufLen) :
    ((prognosisReceived (c.arrived buf io)).1.session,
        (prognosisReceived (c.arrived buf io)).2) =
      Session.readPrognosis { c.session with unread := buf.unread, io := io } c.s.zodiacIx
        (c.s.buf.slice 0 c.s.curPos) buf.unread ∧
    ConnInv (prognosisReceived (c.arrived buf io)).1.s := by
  obtain ⟨hroom, hrem⟩ := hinv.recv_room (Or.inr hs)
  have hop := hinv.recv_op (Or.inr hs)
  have hline := hinv.recv_line (Or.inr hs)
  obtain ⟨hchunk, hroom', hcases⟩ := arrived_cases hroom hrem hline hne
  have hpos' := arrived_pos_le hpos hlen (s := c.s)
  unfold Session.readPrognosis
  rcases hcases with ⟨text, htext, hslice, hframe⟩ | ⟨hnot, hrem', hunread, hframe⟩ |
    ⟨hnot, hrem', hunread, hslice, hframe⟩
  · have h : LineInBuf (c.arrived buf io).s text := ⟨htext, hslice, hroom'⟩
    have hle : (text ++ [delimiter]).length ≤ astrologBufLen := by
      have hcur := h.curPos_eq
      have hroom'' := h.room
      rw [List.length_append, List.length_singleton]
      omega
    have hthanks : ((c.arrived buf io).s.buf.poke ((c.arrived buf io).s.curPos - 1) 0
        |>.memcpy 0 starReplySuccess).slice 0 starReplySuccess.length =
          starReplySuccess :=
      CArray.slice_memcpy_zero _ _ (by decide)
    rw [hframe, prognosisReceived_line h]
    have hfits : 0 + starReplySuccess.length ≤ astrologBufLen := by decide
    refine ⟨?_, .send hpos' hlen (Or.inl rfl) rfl hfits ⟨str "THANKS!", hthanks⟩⟩
    refine Prod.ext (Session.ext (congrArg Phase.reply hthanks) rfl ?_ rfl) rfl
    funext z
    show rowLine (Function.update c.zodiacPrognosises c.s.zodiacIx
      ((c.zodiacPrognosises c.s.zodiacIx).memcpy 0 (text ++ [delimiter])) z) = _
    by_cases hz : z = c.s.zodiacIx
    · rw [hz, Function.update_self, rowLine_memcpy _ htext hle]
      exact (Function.update_self c.s.zodiacIx _ c.session.store).symm
    · rw [Function.update_of_ne hz]
      exact (Function.update_of_ne hz _ c.session.store).symm
  · rw [hframe, prognosisReceived_overlong (arrived_last hchunk hnot) hrem']
    exact ⟨failed_ext hop hunread, .stopped hpos' hlen (Or.inl rfl)⟩
  · rw [hframe, prognosisReceived_unfinished (arrived_last hchunk hnot) hrem', ← hunread]
    refine ⟨?_, .receive hpos' hlen (Or.inr hs) hop hroom' hrem' hnot fun h =>
      hinv.recv_zodiac hs⟩
    refine Prod.ext (Session.ext ?_ rfl rfl rfl) rfl
    show ConnState.phase _ = _
    unfold ConnState.phase
    rw [show (c.arrived buf io).s.state = stateRecvH from hs]
    exact congrArg (Phase.prognosis c.s.zodiacIx) hslice

/-- **A reply goes out.** -/
theorem handleSendReply_session (hinv : ConnInv c.s) (hs : c.s.state.sending) :
    ((handleSendReply c).1.session, (handleSendReply c).2) = c.session.round ∧
    ConnInv (handleSendReply c).1.s := by
  obtain ⟨hroom, hrem⟩ := hinv.send_room hs
  have hop := hinv.send_op hs
  obtain ⟨text, hline⟩ := hinv.send_line hs
  have hphase : c.session.phase = .reply (c.s.buf.slice c.s.curPos c.s.rem) := by
    show c.s.phase = _
    unfold ConnState.phase
    rcases hs with hs | hs <;> rw [hs]
  have hlen : (c.s.buf.slice c.s.curPos c.s.rem).length = c.s.rem := by
    rw [CArray.length_slice]
    omega
  unfold Session.round handleSendReply
  rw [hphase]
  simp only
  rw [show c.session.io = c.io from rfl]
  unfold Io.send
  rw [hlen]
  cases c.io.sends.head with
  | error =>
    refine ⟨?_, .stopped hinv.pos_le hinv.len_le (Or.inl rfl)⟩
    refine Prod.ext (Session.ext ?_ rfl rfl rfl) rfl
    exact congrArg Phase.failed hop
  | count k =>
    obtain ⟨j, hj, hjle⟩ : ∃ j, min k c.s.rem = j ∧ j ≤ c.s.rem := ⟨_, rfl, by omega⟩
    simp only [hj, CArray.drop_slice]
    by_cases hlt : c.s.rem - j = 0
    · rw [if_pos hlt, hlt, if_pos (CArray.slice_zero _ _)]
      exact ⟨rfl, .receive hinv.pos_le hinv.len_le (Or.inl rfl) rfl rfl
        (Nat.zero_lt_succ 79) List.not_mem_nil fun h => by cases h⟩
    · have hne : c.s.buf.slice (c.s.curPos + j) (c.s.rem - j) ≠ [] := by
        rw [← List.length_pos_iff, CArray.length_slice]
        omega
      rw [if_neg hlt, if_neg hne]
      refine ⟨?_, .send hinv.pos_le hinv.len_le hs hop ?_ ⟨text.drop j, ?_⟩⟩
      · refine Prod.ext (Session.ext ?_ rfl rfl rfl) rfl
        show ConnState.phase _ = _
        unfold ConnState.phase
        rcases hs with hs | hs <;> rw [hs]
      · show c.s.curPos + j + (c.s.rem - j) ≤ _
        omega
      · have hle : j ≤ text.length := by
          have hl := congrArg List.length hline
          rw [hlen, List.length_append, List.length_singleton] at hl
          omega
        show CArray.slice _ (c.s.curPos + j) (c.s.rem - j) = _
        rw [← CArray.drop_slice, hline, List.drop_append_of_le_length hle]

/-- What a receiving handler does behind the receive is done to the arrived
context. -/
theorem arrived_eq (io : Io) (hlen : buf.len ≤ astrologBufLen) (hchunk : c.s.chunk buf ≠ []) :
    let r := copyUntilDelim buf c.s.buf c.s.curPos c.s.rem delimiter
    (¬ r.1 < 0 ∧ r.1 ≠ 0) ∧
    ({ c with
      s := { c.s with
        intermBuf := r.2.1
        buf := r.2.2
        curPos := c.s.curPos + r.1.toNat
        rem := c.s.rem - r.1.toNat }
      io := io } : Ctx) = c.arrived buf io := by
  have hpos := List.length_pos_iff.mpr hchunk
  have hr : copyUntilDelim buf c.s.buf c.s.curPos c.s.rem delimiter =
      (((c.s.chunk buf).length : ℤ),
        { buf with pos := buf.pos + (c.s.chunk buf).length },
        c.s.buf.memcpy c.s.curPos (c.s.chunk buf)) := copyUntilDelim_eq _ _ _ _ _ hlen
  simp only [hr]
  refine ⟨⟨?_, ?_⟩, rfl⟩ <;> omega

/-- The phase of a receiving connection has the line begun. -/
theorem slice_eq_nil (hinv : ConnInv c.s) (hs : c.s.state.receiving) :
    c.s.buf.slice 0 c.s.curPos = [] ↔ c.s.curPos = 0 := by
  have hroom := (hinv.recv_room hs).1
  rw [← List.length_eq_zero_iff, CArray.length_slice]
  omega

theorem handleFirstLine_session (hinv : ConnInv c.s)
    (hs : c.s.state = stateRecvFirstLine) :
    ((handleFirstLine c).1.session, (handleFirstLine c).2) = c.session.round ∧
    ConnInv (handleFirstLine c).1.s := by
  have hop := hinv.recv_op (Or.inl hs)
  have hphase : c.session.phase = .firstLine (c.s.buf.slice 0 c.s.curPos) := by
    show c.s.phase = _
    unfold ConnState.phase
    rw [hs]
  have hstop : ∀ {t : ConnState}, t.intermBuf.pos = 0 → t.intermBuf.len = 0 →
      (t.state = stateError ∨ t.state = stateSuccess ∧ t.op = opRead) → ConnInv t :=
    fun hpos hlen h => .stopped (by omega) (by omega) h
  unfold Session.round handleFirstLine
  rw [hphase]
  rcases recv_cases c hinv.pos_le hinv.len_le c.s.curPos c.s.rem with
    ⟨io, hnil, hfetch, hrecv⟩ | ⟨io, hnil, hfetch, hrecv⟩ |
    ⟨io, buf, hne, hpos, hlen, hfetch, hrecv⟩
  · simp only [hfetch, hrecv]
    refine ⟨Prod.ext (Session.ext ?_ hnil.symm rfl rfl) rfl,
      hstop rfl rfl (Or.inl rfl)⟩
    exact congrArg Phase.failed hop
  · simp only [hfetch, hrecv]
    by_cases hcur : c.s.curPos = 0
    · simp only [if_pos hcur, if_pos ((slice_eq_nil hinv (Or.inl hs)).mpr hcur)]
      exact ⟨Prod.ext (Session.ext rfl hnil.symm rfl rfl) rfl,
        hstop rfl rfl (Or.inr ⟨rfl, hop⟩)⟩
    · simp only [if_neg hcur, if_neg (mt (slice_eq_nil hinv (Or.inl hs)).mp hcur)]
      refine ⟨Prod.ext (Session.ext ?_ hnil.symm rfl rfl) rfl,
        hstop rfl rfl (Or.inl rfl)⟩
      exact congrArg Phase.failed hop
  · obtain ⟨hroom, hrem⟩ := hinv.recv_room (Or.inl hs)
    obtain ⟨hchunk, -⟩ := arrived_cases hroom hrem (hinv.recv_line (Or.inl hs)) hne
    obtain ⟨⟨hneg, hzero⟩, heq⟩ := arrived_eq io hlen hchunk
    simp only [hfetch, hrecv, if_neg hneg, if_neg hzero]
    rw [heq]
    exact firstLineReceived_session hinv hs hne hpos hlen

theorem handleRecvH_session (hinv : ConnInv c.s) (hs : c.s.state = stateRecvH) :
    ((handleRecvH c).1.session, (handleRecvH c).2) = c.session.round ∧
    ConnInv (handleRecvH c).1.s := by
  have hop := hinv.recv_op (Or.inr hs)
  have hphase : c.session.phase =
      .prognosis c.s.zodiacIx (c.s.buf.slice 0 c.s.curPos) := by
    show c.s.phase = _
    unfold ConnState.phase
    rw [hs]
  have hstop : ∀ {t : ConnState}, t.intermBuf.pos = 0 → t.intermBuf.len = 0 →
      t.state = stateError → ConnInv t :=
    fun hpos hlen h => .stopped (by omega) (by omega) (Or.inl h)
  unfold Session.round handleRecvH
  rw [hphase]
  rcases recv_cases c hinv.pos_le hinv.len_le c.s.curPos c.s.rem with
    ⟨io, hnil, hfetch, hrecv⟩ | ⟨io, hnil, hfetch, hrecv⟩ |
    ⟨io, buf, hne, hpos, hlen, hfetch, hrecv⟩
  · simp only [hfetch, hrecv]
    refine ⟨Prod.ext (Session.ext ?_ hnil.symm rfl rfl) rfl, hstop rfl rfl rfl⟩
    exact congrArg Phase.failed hop
  · simp only [hfetch, hrecv]
    refine ⟨Prod.ext (Session.ext ?_ hnil.symm rfl rfl) rfl, hstop rfl rfl rfl⟩
    exact congrArg Phase.failed hop
  · obtain ⟨hroom, hrem⟩ := hinv.recv_room (Or.inr hs)
    obtain ⟨hchunk, -⟩ := arrived_cases hroom hrem (hinv.recv_line (Or.inr hs)) hne
    obtain ⟨⟨hneg, hzero⟩, heq⟩ := arrived_eq io hlen hchunk
    simp only [hfetch, hrecv, if_neg hneg, if_neg hzero]
    rw [heq]
    exact prognosisReceived_session hinv hs hne hpos hlen

/-- **The handlers refine the session machine.**  Under `ConnInv` a handler does to
the arrays what a round does to the session, says the same about the deadline, and
keeps the invariant. -/
theorem handleState_session (hinv : ConnInv c.s) :
    ((handleState c).1.session, (handleState c).2) = c.session.round ∧
    ConnInv (handleState c).1.s := by
  unfold handleState
  cases hs : c.s.state with
  | stateRecvFirstLine => exact handleFirstLine_session hinv hs
  | stateRecvH => exact handleRecvH_session hinv hs
  | stateSendThanks => exact handleSendReply_session hinv (Or.inl hs)
  | stateSendH => exact handleSendReply_session hinv (Or.inr hs)
  | stateError =>
    have hphase : c.session.phase = .failed c.s.op := by
      show c.s.phase = _
      unfold ConnState.phase
      rw [hs]
    unfold Session.round
    rw [hphase]
    exact ⟨rfl, hinv⟩
  | stateSuccess =>
    have hphase : c.session.phase = .finished := by
      show c.s.phase = _
      unfold ConnState.phase
      rw [hs]
    unfold Session.round
    rw [hphase]
    exact ⟨rfl, hinv⟩

/-- The phases that the handlers can be in. -/
theorem ConnInv.legal (hinv : ConnInv c.s) : c.session.phase.Legal := by
  show c.s.phase.Legal
  have hreply : c.s.state.sending → (Phase.reply (c.s.buf.slice c.s.curPos c.s.rem)).Legal := by
    intro hs
    obtain ⟨hroom, hrem⟩ := hinv.send_room hs
    refine ⟨?_, ?_⟩
    · rw [← List.length_pos_iff, CArray.length_slice]
      omega
    · rw [CArray.length_slice]
      omega
  have hshort : c.s.state.receiving → (c.s.buf.slice 0 c.s.curPos).length < astrologBufLen := by
    intro hs
    obtain ⟨hroom, hrem⟩ := hinv.recv_room hs
    rw [CArray.length_slice]
    omega
  unfold ConnState.phase
  cases hs : c.s.state with
  | stateRecvFirstLine => exact ⟨hinv.recv_line (Or.inl hs), hshort (Or.inl hs)⟩
  | stateRecvH =>
    exact ⟨hinv.recv_zodiac hs, hinv.recv_line (Or.inr hs), hshort (Or.inr hs)⟩
  | stateSendThanks => exact hreply (Or.inl hs)
  | stateSendH => exact hreply (Or.inr hs)
  | stateError => trivial
  | stateSuccess => trivial

/-- The operation of a connection is that of its phase. -/
theorem reads_session (hinv : ConnInv c.s) :
    c.session.phase.reads = decide (c.s.op = opRead) := by
  show c.s.phase.reads = _
  unfold ConnState.phase
  cases hs : c.s.state with
  | stateRecvFirstLine => exact (decide_eq_true (hinv.recv_op (Or.inl hs))).symm
  | stateRecvH => exact (decide_eq_true (hinv.recv_op (Or.inr hs))).symm
  | stateSendThanks =>
    exact (decide_eq_false (by rw [hinv.send_op (Or.inl hs)]; decide)).symm
  | stateSendH =>
    exact (decide_eq_false (by rw [hinv.send_op (Or.inr hs)]; decide)).symm
  | stateError => rfl
  | stateSuccess => exact (decide_eq_true (hinv.success_op hs)).symm

/-- The loop condition is the same on both sides. -/
theorem goesOn_session (hinv : ConnInv c.s) : c.s.goesOn = c.session.goesOn := by
  have hunread : decide (c.s.intermBuf.pos ≠ c.s.intermBuf.len) =
      decide (c.session.unread ≠ []) :=
    decide_eq_decide.mpr (not_congr (Buffer.unread_eq_nil hinv.pos_le hinv.len_le).symm)
  rw [ConnState.goesOn, Session.goesOn, hunread, reads_session hinv]

/-- A connection begins between requests, with nothing received. -/
theorem connInv_create (raw : ConnState) (fd : ℕ) : ConnInv (raw.create fd) :=
  .receive (Nat.le_refl 0) (Nat.zero_le _) (Or.inl rfl) rfl rfl (Nat.zero_lt_succ 79)
    List.not_mem_nil fun h => by cases h

end Rounds

end Astrologer
