import Astrologer.Server.Termination

/-!
# No access outside an array

The handlers work on `char` arrays of eighty-one bytes with raw positions: a chunk is
copied to `cur_pos`, the byte at `cur_pos[-1]` is looked at and overwritten, a delimiter is
searched for and taken to be there, a row of the table is indexed with `zodiac_ix`, which
starts as `SIZE_MAX`.  The model has reading and writing as total functions, so it cannot
go wrong at any of these places.

The namespace `Checked` has the handlers once more, with a check at each access: the result
is `none` when a stretch is not inside its array, when a difference of positions is
negative, when `memchr` finds nothing and its result is used, when the table is indexed
behind its end, or when `buffered_recv_until_delim` is called for no bytes.

`ConnState.Safe` is what holds of a connection at each call of a handler, and under it the
checked handlers do what the handlers do (`Checked.handleState_eq`).  So no check ever
fails, in any round of any call of `update_state` in any run (`reachable_safe`).
-/

namespace Astrologer

open Lines ServerStateType FdOperation

/-! ## Checked accesses

The handlers with their checks.  Each is the one of `Server.Handlers` with an access in place of
each use of an array, and nothing else is different. -/

namespace Checked

/-- The bytes `a[off]`, …, `a[off + n - 1]`, which are in the array. -/
def read (a : CharArray) (off n : ℕ) : Option (List Byte) :=
  if off + n ≤ astrologBufLen + 1 then some (a.slice off n) else none

/-- Bytes are written to `a + off`, where they fit. -/
def write (a : CharArray) (off : ℕ) (src : List Byte) : Option CharArray :=
  if off + src.length ≤ astrologBufLen + 1 then some (a.memcpy off src) else none

/-- A row of `zodiac_prognosises`. -/
def row (t : Table) (z : ℕ) : Option CharArray := if z < zodiacNum then some (t z) else none

/-- The difference of two positions or lengths, which is not negative. -/
def distance (a b : ℕ) : Option ℕ := if b ≤ a then some (a - b) else none

def copyUntilDelim (buf : Buffer) (dst : CharArray) (off n : ℕ) (delim : Byte) :
    Option (ℤ × Buffer × CharArray) := do
  let size ← distance buf.len buf.pos
  let size := if n < size then n else size
  let unread ← read buf.data buf.pos size
  let size : ℕ :=
    match memchr unread delim with
    | some del => if del + 1 < size then del + 1 else size
    | none => size
  let bytes ← read buf.data buf.pos size
  let dst ← write dst off bytes
  return ((size : ℤ), { buf with pos := buf.pos + size }, dst)

def bufferedRecvUntilDelim (buf : Buffer) (dst : CharArray) (off n : ℕ)
    (delim : Byte) (io : Io) : Option ((ℤ × Buffer × CharArray) × Io) :=
  -- a result of `0` would not be the end of the stream
  if n = 0 then none
  else if buf.pos = buf.len then
    let buf := { buf with pos := 0, len := 0 }
    match io.recv astrologBufLen with
    | (.error, io) => some ((-1, buf, dst), io)
    | (.bytes [], io) => some ((0, buf, dst), io)
    | (.bytes bs, io) => do
      let data ← write buf.data 0 bs
      let buf := { buf with data := data, len := bs.length }
      let r ← copyUntilDelim buf dst off n delim
      return (r, io)
  else do
    let r ← copyUntilDelim buf dst off n delim
    return (r, io)

/-- The search that both parse functions begin with: where the delimiter is, and the index
of the zodiac. -/
def parseZodiac (s : ConnState) (ptr : ℕ) : Option (ℕ × ℤ) := do
  let n ← distance s.curPos ptr
  let text ← read s.buf ptr n
  let del ← memchr text delimiter
  let delPtr := ptr + del
  let zodiac ← read s.buf ptr (delPtr - ptr)
  return (delPtr, findZodiac zodiac)

/-- `*del_ptr = '\0'`, if the name has padding. -/
def cutRemainder (buf : CharArray) (ptr delPtr : ℕ) : Option CharArray :=
  if ptr ≠ delPtr then write buf delPtr [0] else some buf

def parseStarFirstLine (c : Ctx) : Option (Ctx × After) := do
  let s := c.s
  let ptr := starRequestType.length
  let (delPtr, zodiacIx) ← parseZodiac s ptr
  if zodiacIx < 0 then
    let buf ← write s.buf delPtr [0]
    return ({ c with s := { s with state := stateError, buf := buf } }, .done)
  else
    let zodiac := getZodiac zodiacIx.toNat
    let ptr := ptr + zodiac.length
    let buf ← cutRemainder s.buf ptr delPtr
    return ({ c with s := { s with
        buf := buf
        curPos := 0
        rem := astrologBufLen
        zodiacIx := zodiacIx.toNat
        state := stateRecvH
        op := opRead } }, .updateTs)

def clientReply (row : CharArray) : Option (List Byte) := do
  let text ← read row 0 astrologBufLen
  match memchr text delimiter with
  | none => some clientReplyFailure
  | some del => read row 0 (del + 1)

def parseClientFirstLine (c : Ctx) : Option (Ctx × After) := do
  let s := c.s
  let ptr := clientRequestType.length
  let (delPtr, zodiacIx) ← parseZodiac s ptr
  if zodiacIx < 0 then
    let buf ← write s.buf delPtr [0]
    return ({ c with s := { s with state := stateError, buf := buf } }, .done)
  else
    let zodiac := getZodiac zodiacIx.toNat
    let ptr := ptr + zodiac.length
    let buf ← cutRemainder s.buf ptr delPtr
    let row ← row c.zodiacPrognosises zodiacIx.toNat
    let reply ← clientReply row
    let buf ← write buf 0 reply
    return ({ c with
        s := { s with
          rem := reply.length
          buf := buf
          curPos := 0
          state := stateSendH
          op := opWrite }
        io := c.io.log (.request zodiacIx.toNat) }, .updateTs)

def firstLineReceived (c : Ctx) : Option (Ctx × After) := do
  let s := c.s
  let len ← distance astrologBufLen s.rem
  let last ← distance s.curPos 1
  let ch ← read s.buf last 1
  if ch = [delimiter] then
    let type ← read s.buf 0 starRequestType.length
    let type' ← read s.buf 0 clientRequestType.length
    if len > starRequestType.length ∧ type = starRequestType then
      parseStarFirstLine c
    else if len > clientRequestType.length ∧ type' = clientRequestType then
      parseClientFirstLine c
    else
      let buf ← write s.buf last [0]
      return ({ c with s := { s with state := stateError, buf := buf } }, .done)
  else if s.rem = 0 then
    return ({ c with s := { s with state := stateError } }, .done)
  else
    return (c, .done)

def handleFirstLine (c : Ctx) : Option (Ctx × After) := do
  let s := c.s
  let r ← bufferedRecvUntilDelim s.intermBuf s.buf s.curPos s.rem delimiter c.io
  let received := r.1.1
  let s := { s with intermBuf := r.1.2.1, buf := r.1.2.2 }
  let c := { c with s := s, io := r.2 }
  if received < 0 then
    return ({ c with s := { s with state := stateError } }, .done)
  else if received = 0 then
    return ({ c with s := { s with
        state := if s.curPos = 0 then stateSuccess else stateError } }, .done)
  else
    let rem ← distance s.rem received.toNat
    firstLineReceived { c with s := { s with
      curPos := s.curPos + received.toNat
      rem := rem } }

def prognosisReceived (c : Ctx) : Option (Ctx × After) := do
  let s := c.s
  let last ← distance s.curPos 1
  let ch ← read s.buf last 1
  if ch = [delimiter] then
    let len ← distance astrologBufLen s.rem
    let line ← read s.buf 0 len
    let row ← row c.zodiacPrognosises s.zodiacIx
    let row ← write row 0 line
    let buf ← write s.buf last [0]
    let buf ← write buf 0 starReplySuccess
    return ({
        s := { s with
          rem := starReplySuccess.length
          buf := buf
          curPos := 0
          zodiacIx := zodiacUnknown
          state := stateSendThanks
          op := opWrite }
        zodiacPrognosises := Function.update c.zodiacPrognosises s.zodiacIx row
        io := c.io.log (.prognosis s.zodiacIx line) }, .updateTs)
  else if s.rem = 0 then
    return ({ c with s := { s with state := stateError } }, .done)
  else
    return (c, .done)

def handleRecvH (c : Ctx) : Option (Ctx × After) := do
  let s := c.s
  let r ← bufferedRecvUntilDelim s.intermBuf s.buf s.curPos s.rem delimiter c.io
  let received := r.1.1
  let s := { s with intermBuf := r.1.2.1, buf := r.1.2.2 }
  let c := { c with s := s, io := r.2 }
  if received < 0 then
    return ({ c with s := { s with state := stateError } }, .done)
  else if received = 0 then
    return ({ c with s := { s with state := stateError } }, .done)
  else
    let rem ← distance s.rem received.toNat
    prognosisReceived { c with s := { s with
      curPos := s.curPos + received.toNat
      rem := rem } }

def handleSendReply (c : Ctx) : Option (Ctx × After) := do
  let s := c.s
  let src ← read s.buf s.curPos s.rem
  match c.io.send src with
  | (.error, io) => return ({ c with s := { s with state := stateError }, io := io }, .done)
  | (.count bytes, io) =>
    let rem ← distance s.rem bytes
    let s := { s with curPos := s.curPos + bytes, rem := rem }
    let c := { c with s := s, io := io }
    if s.rem = 0 then
      let last ← distance s.curPos 1
      let buf ← write s.buf last [0]
      return ({ c with s := { s with
          buf := buf
          curPos := 0
          rem := astrologBufLen
          state := stateRecvFirstLine
          op := opRead } }, .updateTs)
    else
      return (c, .done)

def handleState (c : Ctx) : Option (Ctx × After) :=
  match c.s.state with
  | stateRecvFirstLine => handleFirstLine c
  | stateRecvH => handleRecvH c
  | stateSendThanks => handleSendReply c
  | stateSendH => handleSendReply c
  | stateError => some (c, .done)
  | stateSuccess => some (c, .done)

/-! ## No check fails

One lemma for each access under the bounds it needs, and one for each handler under what holds
when it is called.  The bounds are those of `ConnInv`; that a delimiter is found comes from the
receive, which stops at one. -/

theorem read_of_le {a : CharArray} {off n : ℕ} (h : off + n ≤ astrologBufLen + 1) :
    read a off n = some (a.slice off n) := if_pos h

theorem write_of_le {a : CharArray} {off : ℕ} {src : List Byte}
    (h : off + src.length ≤ astrologBufLen + 1) : write a off src = some (a.memcpy off src) :=
  if_pos h

theorem row_of_lt {t : Table} {z : ℕ} (h : z < zodiacNum) : row t z = some (t z) := if_pos h

theorem distance_of_le {a b : ℕ} (h : b ≤ a) : distance a b = some (a - b) := if_pos h

theorem copyUntilDelim_eq {buf : Buffer} {dst : CharArray} {off n : ℕ} {delim : Byte}
    (hpos : buf.pos ≤ buf.len) (hlen : buf.len ≤ astrologBufLen)
    (hroom : off + n ≤ astrologBufLen) :
    copyUntilDelim buf dst off n delim =
      some (Astrologer.copyUntilDelim buf dst off n delim) := by
  unfold copyUntilDelim Astrologer.copyUntilDelim
  rw [distance_of_le hpos]
  obtain ⟨size, hsize⟩ : ∃ size, size =
    if n < buf.len - buf.pos then n else buf.len - buf.pos := ⟨_, rfl⟩
  have hn : size ≤ n ∧ size ≤ buf.len - buf.pos := by
    rw [hsize]
    split <;> omega
  have htaken : ∀ taken, taken ≤ size →
      ((read buf.data buf.pos taken).bind fun bytes => (write dst off bytes).bind fun dst =>
        some ((taken : ℤ), { buf with pos := buf.pos + taken }, dst)) =
      some ((taken : ℤ), { buf with pos := buf.pos + taken },
        dst.memcpy off (buf.data.slice buf.pos taken)) := by
    intro taken hle
    have hfits : off + (buf.data.slice buf.pos taken).length ≤ astrologBufLen + 1 := by
      rw [CArray.length_slice]
      omega
    rw [read_of_le (by omega), Option.bind_some, write_of_le hfits]
    rfl
  simp only [Option.bind_eq_bind, Option.bind_some, ← hsize]
  rw [read_of_le (by omega), Option.bind_some]
  cases memchr (buf.data.slice buf.pos size) delim with
  | none => exact htaken size (Nat.le_refl _)
  | some del =>
    by_cases hdel : del + 1 < size
    · simp only [if_pos hdel]
      exact htaken (del + 1) (Nat.le_of_lt hdel)
    · simp only [if_neg hdel]
      exact htaken size (Nat.le_refl _)

theorem bufferedRecvUntilDelim_eq {buf : Buffer} {dst : CharArray} {off n : ℕ} {delim : Byte}
    {io : Io} (hpos : buf.pos ≤ buf.len) (hlen : buf.len ≤ astrologBufLen)
    (hroom : off + n ≤ astrologBufLen) (hn : 0 < n) :
    bufferedRecvUntilDelim buf dst off n delim io =
      some (Astrologer.bufferedRecvUntilDelim buf dst off n delim io) := by
  unfold bufferedRecvUntilDelim Astrologer.bufferedRecvUntilDelim
  rw [if_neg (Nat.ne_of_gt hn)]
  by_cases hempty : buf.pos = buf.len
  · rw [if_pos hempty, if_pos hempty]
    unfold Io.recv
    cases io.recvs.head with
    | error => rfl
    | bytes bs =>
      have hle : (bs.take astrologBufLen).length ≤ astrologBufLen := List.length_take_le _ _
      simp only
      cases htake : bs.take astrologBufLen with
      | nil => rfl
      | cons b tl =>
        rw [htake] at hle
        simp only [Option.bind_eq_bind]
        rw [write_of_le (by omega), Option.bind_some,
          copyUntilDelim_eq (Nat.zero_le _) hle hroom]
        rfl
  · rw [if_neg hempty, if_neg hempty, copyUntilDelim_eq hpos hlen hroom]
    rfl

/-- A complete line stands in the buffer: its last byte is the delimiter. -/
structure Complete (s : ConnState) : Prop where
  pos : 0 < s.curPos
  room : s.curPos + s.rem = astrologBufLen
  last : s.buf.slice (s.curPos - 1) 1 = [delimiter]

/-- **The delimiter that the parse functions search for is there**, behind the request
type. -/
theorem Complete.parseZodiac_eq {s : ConnState} (h : Complete s) {ptr : ℕ}
    (hptr : ptr < s.curPos) :
    parseZodiac s ptr = some (ptr + delIx s ptr,
        findZodiac (s.buf.slice ptr (ptr + delIx s ptr - ptr))) ∧
      ptr + delIx s ptr < astrologBufLen := by
  have hroom := h.room
  have hmem : delimiter ∈ s.buf.slice ptr (s.curPos - ptr) := by
    have hsplit := s.buf.slice_append ptr (s.curPos - 1 - ptr) 1
    have hlast : ptr + (s.curPos - 1 - ptr) = s.curPos - 1 := by omega
    have hall : s.curPos - 1 - ptr + 1 = s.curPos - ptr := by omega
    rw [hlast, hall, h.last] at hsplit
    rw [← hsplit]
    exact List.mem_append_right _ List.mem_cons_self
  have hfind := findIdx_eq_length hmem
  have hdel : memchr (s.buf.slice ptr (s.curPos - ptr)) delimiter = some (delIx s ptr) := by
    rw [delIx, memchr, hfind]
    rfl
  have hline := length_takeLine_le delimiter (s.buf.slice ptr (s.curPos - ptr))
  have hlt : ptr + delIx s ptr < astrologBufLen := by
    have hpos : 0 < (takeLine delimiter (s.buf.slice ptr (s.curPos - ptr))).length :=
      List.length_pos_iff.mpr (takeLine_ne_nil (List.ne_nil_of_mem hmem))
    rw [delIx, memchr, hfind, Option.getD_some]
    rw [CArray.length_slice] at hline
    omega
  refine ⟨?_, hlt⟩
  unfold parseZodiac
  simp only [Option.bind_eq_bind]
  rw [distance_of_le (Nat.le_of_lt hptr), Option.bind_some, read_of_le (by omega),
    Option.bind_some, hdel, Option.bind_some, read_of_le (by omega)]
  rfl

theorem cutRemainder_eq {buf : CharArray} {ptr delPtr : ℕ} (h : delPtr < astrologBufLen) :
    cutRemainder buf ptr delPtr = some (if ptr ≠ delPtr then buf.poke delPtr 0 else buf) := by
  unfold cutRemainder
  by_cases hpad : ptr ≠ delPtr
  · rw [if_pos hpad, if_pos hpad]
    exact write_of_le (Nat.le_succ_of_le h)
  · rw [if_neg hpad, if_neg hpad]

theorem parseStarFirstLine_eq {c : Ctx} (h : Complete c.s)
    (hlong : starRequestType.length < c.s.curPos) :
    parseStarFirstLine c = some (Astrologer.parseStarFirstLine c) := by
  obtain ⟨hparse, hlt⟩ := h.parseZodiac_eq hlong
  unfold parseStarFirstLine Astrologer.parseStarFirstLine
  simp only [Option.bind_eq_bind, hparse, Option.bind_some]
  split
  · rw [write_of_le (Nat.le_succ_of_le hlt)]
    rfl
  · rw [cutRemainder_eq hlt]
    rfl

/-- The reply to a client is a stretch of its row, or the failure text, and fits. -/
theorem clientReply_eq (row : CharArray) :
    clientReply row = some (Astrologer.clientReply row) ∧
      (Astrologer.clientReply row).length ≤ astrologBufLen := by
  obtain ⟨-, -, hle⟩ := exists_replyTo_rowLine row
  rw [← replyTo_rowLine] at hle
  refine ⟨?_, hle⟩
  unfold clientReply Astrologer.clientReply
  simp only [Option.bind_eq_bind]
  rw [read_of_le (by omega), Option.bind_some]
  cases hdel : memchr (row.slice 0 astrologBufLen) delimiter with
  | none => rfl
  | some del =>
    have hlt : del < (row.slice 0 astrologBufLen).length :=
      (List.findIdx?_eq_some_iff_getElem.mp hdel).1
    rw [CArray.length_slice] at hlt
    exact read_of_le (by omega)

theorem parseClientFirstLine_eq {c : Ctx} (h : Complete c.s)
    (hlong : clientRequestType.length < c.s.curPos) :
    parseClientFirstLine c = some (Astrologer.parseClientFirstLine c) := by
  obtain ⟨hparse, hlt⟩ := h.parseZodiac_eq hlong
  obtain ⟨z, hz⟩ : ∃ z, z = findZodiac (c.s.buf.slice clientRequestType.length
    (clientRequestType.length + delIx c.s clientRequestType.length -
      clientRequestType.length)) := ⟨_, rfl⟩
  have hrow : z < zodiacNum := hz ▸ findZodiac_lt _
  unfold parseClientFirstLine Astrologer.parseClientFirstLine
  simp only [Option.bind_eq_bind, hparse, Option.bind_some, ← hz]
  by_cases hneg : z < 0
  · rw [if_pos hneg, if_pos hneg, write_of_le (Nat.le_succ_of_le hlt)]
    rfl
  · obtain ⟨hreply, hle⟩ := clientReply_eq (c.zodiacPrognosises z.toNat)
    have hindex : z.toNat < zodiacNum := by
      rw [zodiacNum] at hrow ⊢
      omega
    rw [if_neg hneg, if_neg hneg, cutRemainder_eq hlt, Option.bind_some, row_of_lt hindex,
      Option.bind_some, hreply, Option.bind_some, write_of_le (by omega)]
    rfl

theorem firstLineReceived_eq {c : Ctx} (hpos : 0 < c.s.curPos)
    (hroom : c.s.curPos + c.s.rem = astrologBufLen) :
    firstLineReceived c = some (Astrologer.firstLineReceived c) := by
  have hstar : 0 + starRequestType.length ≤ astrologBufLen + 1 := by decide
  have hclient : 0 + clientRequestType.length ≤ astrologBufLen + 1 := by decide
  have hlen : astrologBufLen - c.s.rem = c.s.curPos := by omega
  unfold firstLineReceived Astrologer.firstLineReceived
  simp only [Option.bind_eq_bind]
  rw [distance_of_le (by omega), Option.bind_some, distance_of_le hpos, Option.bind_some,
    read_of_le (by omega), Option.bind_some, hlen]
  by_cases hlast : c.s.buf.slice (c.s.curPos - 1) 1 = [delimiter]
  · have hline : Complete c.s := ⟨hpos, hroom, hlast⟩
    rw [if_pos hlast, if_pos hlast, read_of_le hstar, Option.bind_some, read_of_le hclient,
      Option.bind_some]
    split
    next htype => exact parseStarFirstLine_eq hline htype.1
    next =>
      split
      next htype => exact parseClientFirstLine_eq hline htype.1
      next =>
        rw [write_of_le (by rw [List.length_singleton]; omega)]
        rfl
  · rw [if_neg hlast, if_neg hlast]
    split <;> rfl

theorem prognosisReceived_eq {c : Ctx} (hpos : 0 < c.s.curPos)
    (hroom : c.s.curPos + c.s.rem = astrologBufLen) (hz : c.s.zodiacIx < zodiacNum) :
    prognosisReceived c = some (Astrologer.prognosisReceived c) := by
  have hreply : 0 + starReplySuccess.length ≤ astrologBufLen + 1 := by decide
  have hline : 0 + (c.s.buf.slice 0 (astrologBufLen - c.s.rem)).length ≤
      astrologBufLen + 1 := by
    rw [CArray.length_slice]
    omega
  unfold prognosisReceived Astrologer.prognosisReceived
  simp only [Option.bind_eq_bind]
  rw [distance_of_le hpos, Option.bind_some, read_of_le (by omega), Option.bind_some]
  by_cases hlast : c.s.buf.slice (c.s.curPos - 1) 1 = [delimiter]
  · rw [if_pos hlast, if_pos hlast, distance_of_le (by omega), Option.bind_some,
      read_of_le (by omega), Option.bind_some, row_of_lt hz, Option.bind_some,
      write_of_le hline, Option.bind_some,
      write_of_le (by rw [List.length_singleton]; omega), Option.bind_some,
      write_of_le hreply]
    rfl
  · rw [if_neg hlast, if_neg hlast]
    split <;> rfl

/-- What is received is not more than was asked for. -/
theorem received_le {buf : Buffer} (hlen : buf.len ≤ astrologBufLen) (dst : CharArray)
    (off n : ℕ) (delim : Byte) (io : Io) :
    (Astrologer.bufferedRecvUntilDelim buf dst off n delim io).1.1 ≤ n := by
  have hcopy : ∀ buf : Buffer, buf.len ≤ astrologBufLen →
      (Astrologer.copyUntilDelim buf dst off n delim).1 ≤ n := by
    intro buf hlen
    have hline := length_takeLine_le delim (buf.unread.take n)
    have htake := List.length_take_le n buf.unread
    rw [Astrologer.copyUntilDelim_eq _ _ _ _ _ hlen]
    exact Int.ofNat_le.mpr (hline.trans htake)
  unfold Astrologer.bufferedRecvUntilDelim
  by_cases hempty : buf.pos = buf.len
  · rw [if_pos hempty]
    unfold Io.recv
    cases io.recvs.head with
    | error => exact (by decide : (-1 : ℤ) ≤ 0).trans (Int.natCast_nonneg n)
    | bytes bs =>
      simp only
      cases htake : bs.take astrologBufLen with
      | nil => exact Int.natCast_nonneg n
      | cons b tl =>
        have hle : (bs.take astrologBufLen).length ≤ astrologBufLen := List.length_take_le _ _
        rw [htake] at hle
        exact hcopy _ hle
  · rw [if_neg hempty]
    exact hcopy buf hlen

theorem handleFirstLine_eq {c : Ctx} (hc : ConnInv c.s) (hs : c.s.state.receiving) :
    handleFirstLine c = some (Astrologer.handleFirstLine c) := by
  obtain ⟨hroom, hrem⟩ := hc.recv_room hs
  have hle := received_le hc.len_le c.s.buf c.s.curPos c.s.rem delimiter c.io
  unfold handleFirstLine Astrologer.handleFirstLine
  simp only [Option.bind_eq_bind]
  rw [bufferedRecvUntilDelim_eq hc.pos_le hc.len_le (Nat.le_of_eq hroom) hrem,
    Option.bind_some]
  split
  · rfl
  · split
    · rfl
    · rw [distance_of_le (by omega), Option.bind_some]
      refine firstLineReceived_eq ?_ ?_
      · show 0 < c.s.curPos + _
        omega
      · show c.s.curPos + _ + (c.s.rem - _) = _
        omega

theorem handleRecvH_eq {c : Ctx} (hc : ConnInv c.s) (hs : c.s.state = stateRecvH) :
    handleRecvH c = some (Astrologer.handleRecvH c) := by
  obtain ⟨hroom, hrem⟩ := hc.recv_room (Or.inr hs)
  have hle := received_le hc.len_le c.s.buf c.s.curPos c.s.rem delimiter c.io
  unfold handleRecvH Astrologer.handleRecvH
  simp only [Option.bind_eq_bind]
  rw [bufferedRecvUntilDelim_eq hc.pos_le hc.len_le (Nat.le_of_eq hroom) hrem,
    Option.bind_some]
  split
  · rfl
  · split
    · rfl
    · rw [distance_of_le (by omega), Option.bind_some]
      refine prognosisReceived_eq ?_ ?_ (hc.recv_zodiac hs)
      · show 0 < c.s.curPos + _
        omega
      · show c.s.curPos + _ + (c.s.rem - _) = _
        omega

theorem handleSendReply_eq {c : Ctx} (hc : ConnInv c.s) (hs : c.s.state.sending) :
    handleSendReply c = some (Astrologer.handleSendReply c) := by
  obtain ⟨hroom, hrem⟩ := hc.send_room hs
  have hlen : (c.s.buf.slice c.s.curPos c.s.rem).length = c.s.rem := by
    rw [CArray.length_slice]
    omega
  unfold handleSendReply Astrologer.handleSendReply
  simp only [Option.bind_eq_bind]
  rw [read_of_le (by omega), Option.bind_some]
  unfold Io.send
  cases c.io.sends.head with
  | error => rfl
  | count k =>
    simp only [hlen]
    rw [distance_of_le (Nat.min_le_right _ _), Option.bind_some]
    split
    next hdone =>
      rw [distance_of_le (by omega), Option.bind_some,
        write_of_le (by rw [List.length_singleton]; omega)]
      rfl
    next => rfl

/-- **The checked handlers** do what the handlers do, under the invariant that every round keeps:
no check fails, and the result is the same. -/
theorem handleState_eq {c : Ctx} (hc : ConnInv c.s) :
    handleState c = some (Astrologer.handleState c) := by
  unfold handleState Astrologer.handleState
  cases hs : c.s.state with
  | stateRecvFirstLine => exact handleFirstLine_eq hc (Or.inl hs)
  | stateRecvH => exact handleRecvH_eq hc hs
  | stateSendThanks => exact handleSendReply_eq hc (Or.inl hs)
  | stateSendH => exact handleSendReply_eq hc (Or.inr hs)
  | stateError => rfl
  | stateSuccess => rfl

end Checked

/-! ## Every state

The states before the rounds of a call, the first one and the later ones, in every run. -/

/-- **What holds of a connection** whenever a handler is called: a bound for every index that the
handlers use, and the place of the delimiter. -/
structure ConnState.Safe (s : ConnState) : Prop where
  receiving : s.state.receiving → 1 ≤ s.rem ∧ s.rem ≤ astrologBufLen ∧
    s.curPos = astrologBufLen - s.rem ∧ delimiter ∉ s.buf.slice 0 s.curPos
  /-- The bytes to send lie in the buffer, and the last of them is the delimiter. -/
  sending : s.state.sending → 1 ≤ s.rem ∧ s.curPos + s.rem ≤ astrologBufLen ∧
    s.buf.slice (s.curPos + s.rem - 1) 1 = [delimiter]
  intermBuf : s.intermBuf.pos ≤ s.intermBuf.len ∧ s.intermBuf.len ≤ astrologBufLen
  zodiacIx : s.state = stateRecvH → s.zodiacIx < zodiacNum

theorem ConnInv.safe {s : ConnState} (h : ConnInv s) : s.Safe := by
  refine ⟨fun hs => ?_, fun hs => ?_, ⟨h.pos_le, h.len_le⟩, h.recv_zodiac⟩
  · obtain ⟨hroom, hrem⟩ := h.recv_room hs
    exact ⟨hrem, by omega, by omega, h.recv_line hs⟩
  · obtain ⟨hroom, hrem⟩ := h.send_room hs
    obtain ⟨text, htext⟩ := h.send_line hs
    refine ⟨hrem, hroom, ?_⟩
    have hsplit := s.buf.slice_append s.curPos (s.rem - 1) 1
    have hall : s.rem - 1 + 1 = s.rem := by omega
    have hlast : s.curPos + s.rem - 1 = s.curPos + (s.rem - 1) := by omega
    rw [hall, htext] at hsplit
    rw [hlast]
    refine (List.append_inj' hsplit ?_).2
    rw [CArray.length_slice, List.length_singleton]
    omega

/-- Bytes in the buffer are received. -/
theorem copyUntilDelim_pos {buf : Buffer} (hlen : buf.len ≤ astrologBufLen)
    (hne : buf.unread ≠ []) (dst : CharArray) (off : ℕ) {n : ℕ} (hn : 0 < n) :
    (copyUntilDelim buf dst off n delimiter).1 ≠ 0 := by
  have htake : buf.unread.take n ≠ [] := by
    rw [Ne, List.take_eq_nil_iff]
    exact not_or.mpr ⟨Nat.ne_of_gt hn, hne⟩
  have hpos := List.length_pos_iff.mpr (takeLine_ne_nil (d := delimiter) htake)
  rw [copyUntilDelim_eq _ _ _ _ _ hlen]
  exact Int.natCast_ne_zero.mpr (Nat.ne_of_gt hpos)

/-- **A result of `0`** is the end of the stream, since bytes that are there are handed on and the
caller wants at least one. -/
theorem received_eq_zero_iff {buf : Buffer} (hpos : buf.pos ≤ buf.len)
    (hlen : buf.len ≤ astrologBufLen) (dst : CharArray) (off : ℕ) {n : ℕ} (hn : 0 < n)
    (io : Io) : (bufferedRecvUntilDelim buf dst off n delimiter io).1.1 = 0 ↔
      buf.pos = buf.len ∧ io.recvs.head = .bytes [] := by
  unfold bufferedRecvUntilDelim
  by_cases hempty : buf.pos = buf.len
  · rw [if_pos hempty, and_iff_right hempty]
    unfold Io.recv
    cases io.recvs.head with
    | error => exact iff_of_false (by decide : ¬ (-1 : ℤ) = 0) fun h => by cases h
    | bytes bs =>
      have hle : (bs.take astrologBufLen).length ≤ astrologBufLen := List.length_take_le _ _
      simp only [RecvResult.bytes.injEq]
      cases htake : bs.take astrologBufLen with
      | nil =>
        have hbs : bs = [] := (List.take_eq_nil_iff.mp htake).resolve_left (by decide)
        exact iff_of_true rfl hbs
      | cons b tl =>
        rw [htake] at hle
        refine iff_of_false ?_ fun hbs => ?_
        · refine copyUntilDelim_pos hle ?_ dst off hn
          show (buf.data.memcpy 0 (b :: tl)).slice 0 (b :: tl).length ≠ []
          rw [CArray.slice_memcpy_zero _ _ (Nat.le_succ_of_le hle)]
          exact List.cons_ne_nil b tl
        · rw [hbs, List.take_nil] at htake
          cases htake
  · rw [if_neg hempty]
    refine iff_of_false ?_ fun h => hempty h.1
    exact copyUntilDelim_pos hlen (mt (Buffer.unread_eq_nil hpos hlen).mp hempty) dst off hn

/-- The rounds of a call of `update_state`. -/
theorem InLoop.iterate {srv : Server} {p : Ptr} (h : InLoop p srv srv)
    (hp : p ∈ srv.allocated) (n : ℕ) : InLoop p srv ((Astrologer.runHandler p)^[n] srv) := by
  induction n with
  | zero => exact h
  | succ n ih =>
    rw [Function.iterate_succ_apply']
    exact ih.runHandler hp

/-- **Buffer safety.**  In every state of every run, whatever the sockets answer, before
each round of a call of `update_state`: every live connection is as `ConnState.Safe` says;
the checked handler of the connection does what the handler does, so that no access is
outside its array, every delimiter searched for is there, every index into the table is in
range, and the receive is for at least one byte; and a result `0` of
`buffered_recv_until_delim` is the end of the stream. -/
theorem reachable_safe {c : Config} (h : Reachable c) (k : Kernel) {p : Ptr}
    (hp : p ∈ c.srv.allocated) (n : ℕ) :
    let srv := (runHandler p)^[n] (c.srv.withKernel k)
    (∀ q ∈ c.srv.allocated, (srv.mem q).Safe) ∧
    Checked.handleState (srv.ctx p) = some (handleState (srv.ctx p)) ∧
    ((srv.mem p).state.receiving →
      ((bufferedRecvUntilDelim (srv.mem p).intermBuf (srv.mem p).buf (srv.mem p).curPos
        (srv.mem p).rem delimiter (srv.ctx p).io).1.1 = 0 ↔
      (srv.mem p).intermBuf.pos = (srv.mem p).intermBuf.len ∧
        srv.kernel.recvs.head = .bytes [])) := by
  have hidle := h.idle.withKernel k
  have hstart : InLoop p (c.srv.withKernel k) (c.srv.withKernel k) :=
    ⟨h.inv.srv.withKernel k, fun _ _ => ⟨rfl, rfl⟩, rfl, (hidle p hp).conn⟩
  have hloop := hstart.iterate hp n
  have hconn := hloop.conn
  refine ⟨fun q hq => ?_, Checked.handleState_eq hconn, fun hs => ?_⟩
  · by_cases hqp : q = p
    · rw [hqp]
      exact hconn.safe
    · rw [(hloop.others q hqp).1]
      exact (hidle q hq).conn.safe
  · exact received_eq_zero_iff hconn.pos_le hconn.len_le _ _ (hconn.recv_room hs).2 _

/-- The second round of a call: the prognosis of a star has come with its request line, and is
in `interm_buf`. -/
theorem sampleStarSays_safe :
    let srv := runHandler 1 (sampleTwo.withKernel sampleStarSays)
    (srv.mem 1).state = stateRecvH ∧ (srv.mem 1).intermBuf.pos < (srv.mem 1).intermBuf.len ∧
      (srv.mem 1).Safe ∧ Checked.handleState (srv.ctx 1) = some (handleState (srv.ctx 1)) := by
  have hmem : 1 ∈ sampleTwo.allocated := by decide
  obtain ⟨hsafe, hchecked, -⟩ := reachable_safe sampleTwo_reachable sampleStarSays hmem 1
  exact ⟨by decide, by decide, hsafe 1 hmem, hchecked⟩

end Astrologer
