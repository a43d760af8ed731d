import Astrologer.Generic
import Astrologer.Library.Halting
import Astrologer.Library.Segmentation

/-!
# A connection of the Boost server

`Connection` of `server.cpp` is a chain of asynchronous operations: a handler ends by
starting the next one.  So a connection is always at one operation (`Operation`), and
a step completes it and calls its handler (`Connection.step`).

All operations work on one `boost::asio::streambuf`, here the list of the bytes that
can be read from it.  `std::getline` takes a line out of it, `os << response` appends
to it, and

* `async_read_until` completes when it contains the delimiter; until then it appends
  what the socket delivers, one read after the other, and what a read brings behind
  the delimiter stays (`readUntil`);
* `async_write` sends all of it.

`reads` are the reads to come and `writes` the writes that were made.  The client
closes its side after the last read, or it stays; deadlines are left out.

A request is looked up through `c_str()`, so a text ends at its first zero byte.
-/

namespace Astrologer.Boost

open Lines Segmentation

/-! ## `common.h` -/

def delim : Byte := 10

def starRequestType : List Byte := str "STARS SAY "
def clientRequestType : List Byte := str "HOROSCOPE "

def starResponseSuccess : List Byte := str "THANKS!"

def unknownPrognosis : List Byte := str "YOU ARE OUT OF LUCK!"

/-- `ZodiacList`. -/
def zodiacList : List (List Byte) :=
  [str "Aries", str "Taurus", str "Gemini", str "Cancer", str "Leo", str "Virgo",
    str "Libra", str "Scorpio", str "Sagittarius", str "Capricorn", str "Aquarius",
    str "Pisces"]

/-- `StartsWith`: `!s.compare(0, prefix.size(), prefix)`. -/
def startsWith (s pre : List Byte) : Bool := s.take pre.length == pre

/-- `FindZodiac`. -/
def findZodiac (zodiacWithRemainder : List Byte) : Option (List Byte) :=
  zodiacList.find? fun z => startsWith zodiacWithRemainder z

/-- The string that `s.c_str() + n` points to. -/
def cStr (s : List Byte) (n : ℕ) : List Byte := (s.drop n).takeWhile (· != 0)

/-! ## `PrognosisManager` -/

/-- The map from zodiacs to prognoses. -/
abbrev PrognosisManager := List Byte → Option (List Byte)

def PrognosisManager.getPrognosis (m : PrognosisManager) (zodiac : List Byte) :
    Option (List Byte) := m zodiac

def PrognosisManager.setPrognosis (m : PrognosisManager) (zodiac prognosis : List Byte) :
    PrognosisManager := Function.update m zodiac (some prognosis)

/-! ## `Connection` -/

/-- The operation under way. -/
inductive Operation
  /-- `async_read_until` with `handleReadRequest`. -/
  | readRequest
  /-- `async_read_until` with `handleReadPrognosis`. -/
  | readPrognosis (zodiac : List Byte)
  /-- `async_write` with `handleWriteResponse`. -/
  | writeResponse
  /-- The socket is closed. -/
  | stopped
  deriving DecidableEq

/-- `boost::system::error_code`. -/
inductive ErrorCode
  | success
  | eof
  deriving DecidableEq

structure Connection where
  buffer : List Byte
  operation : Operation
  prognosisManager : PrognosisManager
  /-- The reads to come. -/
  reads : List (List Byte)
  /-- The client closes its side after the last read. -/
  closes : Bool
  /-- The writes that were made. -/
  writes : List (List Byte)

def Connection.stop (c : Connection) : Connection := { c with operation := .stopped }

def Connection.startReadRequest (c : Connection) : Connection :=
  { c with operation := .readRequest }

/-- `std::getline(is, line, DELIM)`: the line, and what is left in the buffer. -/
def getline (buffer : List Byte) : List Byte × List Byte :=
  (buffer.takeWhile (· != delim), dropLine delim buffer)

/-- `os << response << DELIM`, and `async_write`. -/
def Connection.respond (c : Connection) (response : List Byte) : Connection :=
  { c with
    buffer := c.buffer ++ (response ++ [delim])
    operation := .writeResponse }

def Connection.handleReadRequest (c : Connection) (ec : ErrorCode) : Connection :=
  if ec ≠ .success then c.stop
  else
    let line := getline c.buffer
    let request := line.1
    let c := { c with buffer := line.2 }
    if startsWith request starRequestType then
      match findZodiac (cStr request starRequestType.length) with
      | none => c.stop
      | some zodiac => { c with operation := .readPrognosis zodiac }
    else if startsWith request clientRequestType then
      match findZodiac (cStr request clientRequestType.length) with
      | none => c.stop
      | some zodiac =>
        match c.prognosisManager.getPrognosis zodiac with
        | some response => c.respond response
        | none => c.respond unknownPrognosis
    else c.stop

def Connection.handleReadPrognosis (c : Connection) (ec : ErrorCode)
    (zodiac : List Byte) : Connection :=
  if ec ≠ .success then c.stop
  else
    let line := getline c.buffer
    let prognosis := line.1
    { c with
      buffer := line.2
      prognosisManager := c.prognosisManager.setPrognosis zodiac prognosis }
    |>.respond starResponseSuccess

def Connection.handleWriteResponse (c : Connection) (ec : ErrorCode) : Connection :=
  if ec ≠ .success then c.stop else c.startReadRequest

/-- `async_read_until(mSocket, mBuffer, DELIM)`: the buffer when it completes, and the
reads that are left. -/
def readUntil : List Byte → List (List Byte) → Option (List Byte × List (List Byte))
  | buffer, [] => if delim ∈ buffer then some (buffer, []) else none
  | buffer, s :: reads =>
    if delim ∈ buffer then some (buffer, s :: reads) else readUntil (buffer ++ s) reads

/-- A read completes: with the delimiter, or at the end of the stream. -/
def Connection.completeRead (c : Connection) (handler : Connection → ErrorCode → Connection) :
    Option Connection :=
  match readUntil c.buffer c.reads with
  | some (buffer, reads) => some (handler { c with buffer := buffer, reads := reads } .success)
  | none =>
    if c.closes then
      some (handler { c with buffer := c.buffer ++ c.reads.flatten, reads := [] } .eof)
    else none

/-- The operation under way completes, and its handler is called; there is no step
while the client has nothing to send, and after the end. -/
def Connection.step (c : Connection) : Option Connection :=
  match c.operation with
  | .readRequest => c.completeRead fun c ec => c.handleReadRequest ec
  | .readPrognosis zodiac => c.completeRead fun c ec => c.handleReadPrognosis ec zodiac
  | .writeResponse =>
    some ({ c with writes := c.writes ++ [c.buffer], buffer := [] }
      |>.handleWriteResponse .success)
  | .stopped => none

/-- Between two requests: the buffer is empty, and a read is started. -/
def Connection.waiting (m : PrognosisManager) (reads : List (List Byte)) (closes : Bool)
    (writes : List (List Byte)) : Connection where
  buffer := []
  operation := .readRequest
  prognosisManager := m
  reads := reads
  closes := closes
  writes := writes

/-- `start`. -/
def Connection.start (m : PrognosisManager) (reads : List (List Byte)) (closes : Bool) :
    Connection := .waiting m reads closes []

/-! ## Reads

What a read leaves in the buffer when the bytes come in given pieces: the pieces up to the first
with a delimiter, whole. -/

/-- **What `async_read_until` leaves**: some reads were made, the last of them brought
the first delimiter. -/
theorem readUntil_eq_some {buffer buffer' : List Byte} {reads reads' : List (List Byte)}
    (h : readUntil buffer reads = some (buffer', reads')) :
    delim ∈ buffer' ∧ ∃ made, reads = made ++ reads' ∧ buffer' = buffer ++ made.flatten ∧
      ∀ made' last, made = made' ++ [last] → delim ∉ buffer ++ made'.flatten := by
  induction reads generalizing buffer with
  | nil =>
    rw [readUntil] at h
    by_cases hmem : delim ∈ buffer
    · rw [if_pos hmem] at h
      cases h
      exact ⟨hmem, [], rfl, (List.append_nil _).symm, fun made' last heq =>
        absurd heq.symm (List.append_ne_nil_of_right_ne_nil made' (List.cons_ne_nil last []))⟩
    · rw [if_neg hmem] at h
      cases h
  | cons s reads ih =>
    rw [readUntil] at h
    by_cases hmem : delim ∈ buffer
    · rw [if_pos hmem] at h
      cases h
      exact ⟨hmem, [], rfl, (List.append_nil _).symm, fun made' last heq =>
        absurd heq.symm (List.append_ne_nil_of_right_ne_nil made' (List.cons_ne_nil last []))⟩
    · rw [if_neg hmem] at h
      obtain ⟨hdelim, made, hreads, hbuffer, hlast⟩ := ih h
      refine ⟨hdelim, s :: made, congrArg (s :: ·) hreads, ?_, fun made' last heq => ?_⟩
      · rw [hbuffer, List.flatten_cons, List.append_assoc]
      · cases made' with
        | nil => rwa [List.flatten_nil, List.append_nil]
        | cons s' made' =>
          obtain ⟨hs, hrest⟩ := List.cons.inj heq
          rw [← hs, List.flatten_cons, ← List.append_assoc]
          exact hlast made' last hrest

/-- It completes as soon as a delimiter comes. -/
theorem readUntil_eq_none {buffer : List Byte} {reads : List (List Byte)} :
    readUntil buffer reads = none ↔ delim ∉ buffer ++ reads.flatten := by
  induction reads generalizing buffer with
  | nil =>
    rw [readUntil, List.flatten_nil, List.append_nil]
    by_cases hmem : delim ∈ buffer
    · rw [if_pos hmem]
      exact iff_of_false (fun h => nomatch h) fun h => h hmem
    · rw [if_neg hmem]
      exact iff_of_true rfl hmem
  | cons s reads ih =>
    rw [readUntil]
    by_cases hmem : delim ∈ buffer
    · rw [if_pos hmem]
      exact iff_of_false (fun h => nomatch h) fun h => h (List.mem_append_left _ hmem)
    · rw [if_neg hmem, ih, List.flatten_cons, List.append_assoc]

/-- **A line is read** with what the last read brings behind it, when what is in the buffer and
what is to come begins with a line. -/
theorem readUntil_line {buffer line behind : List Byte} {reads : List (List Byte)}
    (hline : IsLine delim line) (h : buffer ++ reads.flatten = line ++ behind) :
    ∃ left reads', readUntil buffer reads = some (line ++ left, reads') ∧
      Completes buffer reads line left reads' ∧ behind = left ++ reads'.flatten := by
  cases hread : readUntil buffer reads with
  | none =>
    rw [readUntil_eq_none, h] at hread
    exact absurd (List.mem_append_left _ hline.mem) hread
  | some r =>
    obtain ⟨hmem, made, hreads, hbuffer, hlast⟩ := readUntil_eq_some hread
    have hall : r.1 ++ r.2.flatten = line ++ behind := by
      rw [hbuffer, List.append_assoc, ← List.flatten_append, ← hreads, h]
    obtain ⟨left, hleft, hbehind⟩ := hline.exists_left hmem hall
    refine ⟨left, r.2, ?_, ⟨made, hreads, ?_, ?_⟩, hbehind.symm⟩
    · rw [← hleft]
    · rw [← hleft, hbuffer]
    · intro made' last heq
      by_contra hle
      -- otherwise the line would be there before the last read
      have hpre : line <+: buffer ++ made'.flatten := by
        refine List.prefix_of_prefix_length_le (List.prefix_append line behind) ?_
          (Nat.le_of_not_lt hle)
        rw [← h, hreads, heq, List.flatten_append, List.flatten_append, List.append_assoc,
          ← List.append_assoc]
        exact List.prefix_append _ _
      exact hlast made' last heq (hpre.subset hline.mem)

/-- `std::getline` on a buffer with a line at its front. -/
theorem getline_text {text : List Byte} (h : delim ∉ text) (left : List Byte) :
    getline (text ++ [delim] ++ left) = (text, left) := by
  have hne : ∀ b ∈ text, (b != delim) = true := fun b hb =>
    bne_iff_ne.mpr fun heq => h (heq ▸ hb)
  rw [getline, List.append_assoc, List.takeWhile_append_of_pos hne]
  show (text ++ List.takeWhile (· != delim) (delim :: left), _) = _
  rw [List.takeWhile_cons_of_neg (by decide), List.append_nil]
  exact congrArg (Prod.mk text) (dropLine_text h left)

theorem Connection.completeRead_of_some {c : Connection} {buffer : List Byte}
    {reads : List (List Byte)} (h : readUntil c.buffer c.reads = some (buffer, reads))
    (handler : Connection → ErrorCode → Connection) :
    c.completeRead handler = some (handler ⟨buffer, c.operation, c.prognosisManager, reads,
      c.closes, c.writes⟩ .success) := by
  rw [completeRead, h]

theorem Connection.completeRead_of_none {c : Connection}
    (h : readUntil c.buffer c.reads = none)
    (handler : Connection → ErrorCode → Connection) :
    c.completeRead handler =
      if c.closes then
        some (handler ⟨c.buffer ++ c.reads.flatten, c.operation, c.prognosisManager, [],
          c.closes, c.writes⟩ .eof)
      else none := by
  rw [completeRead, h]

/-! ## What was written stays

The list of writes only grows, so what has been written after some steps is the front of what is
written in the end. -/

theorem Connection.handleReadRequest_writes (c : Connection) (ec : ErrorCode) :
    (c.handleReadRequest ec).writes = c.writes := by
  rw [handleReadRequest]
  dsimp only
  split
  · rfl
  · split
    · split <;> rfl
    · split
      · split
        · rfl
        · split <;> rfl
      · rfl

theorem Connection.handleReadPrognosis_writes (c : Connection) (ec : ErrorCode)
    (zodiac : List Byte) : (c.handleReadPrognosis ec zodiac).writes = c.writes := by
  rw [handleReadPrognosis]
  split <;> rfl

theorem Connection.completeRead_writes {c c' : Connection}
    {handler : Connection → ErrorCode → Connection}
    (hhandler : ∀ c ec, (handler c ec).writes = c.writes)
    (h : c.completeRead handler = some c') : c'.writes = c.writes := by
  rw [completeRead] at h
  split at h
  · cases h
    exact hhandler _ _
  · split at h
    · cases h
      exact hhandler _ _
    · cases h

theorem Connection.step_writes (c c' : Connection) (h : c.step = some c') :
    c.writes <+: c'.writes := by
  rw [step] at h
  split at h
  · have heq := completeRead_writes handleReadRequest_writes h
    exact ⟨[], (List.append_nil _).trans heq.symm⟩
  · have heq := completeRead_writes (fun c ec => c.handleReadPrognosis_writes ec _) h
    exact ⟨[], (List.append_nil _).trans heq.symm⟩
  · cases h
    exact List.prefix_append _ _
  · cases h

/-! ## A connection comes to an end

Each step takes a line or a piece, or stops the connection.  So the steps may be taken until there
is none, and the result does not depend on a number of steps. -/

/-- The bytes to read, with more weight than an operation. -/
def Connection.measure (c : Connection) : ℕ :=
  match c.operation with
  | .stopped => 0
  | .writeResponse => 2 * c.reads.flatten.length + 2
  | _ => 2 * (c.buffer ++ c.reads.flatten).length + 1

theorem Connection.measure_handleReadRequest_le (c : Connection) :
    (c.handleReadRequest .success).measure ≤
      2 * ((getline c.buffer).2 ++ c.reads.flatten).length + 2 := by
  have hbuf : c.reads.flatten.length ≤ ((getline c.buffer).2 ++ c.reads.flatten).length := by
    rw [List.length_append]
    exact Nat.le_add_left _ _
  rw [handleReadRequest, if_neg (not_not_intro rfl)]
  dsimp only
  split
  · split
    · exact Nat.zero_le _
    · exact Nat.le_succ _
  · split
    · split
      · exact Nat.zero_le _
      · split <;> exact Nat.add_le_add_right (Nat.mul_le_mul_left 2 hbuf) 2
    · exact Nat.zero_le _

theorem Connection.measure_handleReadPrognosis_le (c : Connection) (zodiac : List Byte) :
    (c.handleReadPrognosis .success zodiac).measure ≤
      2 * ((getline c.buffer).2 ++ c.reads.flatten).length + 2 := by
  rw [handleReadPrognosis, if_neg (not_not_intro rfl), List.length_append]
  exact Nat.add_le_add_right (Nat.mul_le_mul_left 2 (Nat.le_add_left _ _)) 2

/-- A line that is read is taken out of what there is to read. -/
theorem length_getline_lt {buffer buffer' : List Byte} {reads reads' : List (List Byte)}
    (h : readUntil buffer reads = some (buffer', reads')) :
    ((getline buffer').2 ++ reads'.flatten).length < (buffer ++ reads.flatten).length := by
  obtain ⟨hmem, made, hreads, hbuffer, -⟩ := readUntil_eq_some h
  have hflatten : buffer ++ reads.flatten = buffer' ++ reads'.flatten := by
    rw [hreads, hbuffer, List.flatten_append, List.append_assoc]
  have hpos := List.length_pos_iff.mpr
    (takeLine_ne_nil (d := delim) (List.ne_nil_of_mem hmem))
  have hlen := congrArg List.length (takeLine_append_dropLine delim buffer')
  rw [hflatten, List.length_append, List.length_append]
  rw [List.length_append] at hlen
  show (dropLine delim buffer').length + _ < buffer'.length + _
  omega

theorem Connection.measure_completeRead {c c' : Connection}
    {handler : Connection → ErrorCode → Connection}
    (hsuccess : ∀ c, (handler c .success).measure ≤
      2 * ((getline c.buffer).2 ++ c.reads.flatten).length + 2)
    (heof : ∀ c, (handler c .eof).measure = 0) (h : c.completeRead handler = some c') :
    c'.measure < 2 * (c.buffer ++ c.reads.flatten).length + 1 := by
  rw [completeRead] at h
  split at h
  next buffer reads hread =>
    cases h
    have hlt := length_getline_lt hread
    refine Nat.lt_of_le_of_lt (hsuccess _) ?_
    show 2 * ((getline buffer).2 ++ reads.flatten).length + 2 < _
    omega
  next =>
    split at h
    · cases h
      rw [heof]
      exact Nat.succ_pos _
    · cases h

/-- **Every step brings the end nearer**: there is less to read, or an operation that comes later.
-/
theorem Connection.step_decreases (c c' : Connection) (h : c.step = some c') :
    c'.measure < c.measure := by
  rw [step] at h
  cases hop : c.operation with
  | readRequest =>
    have hm : c.measure = 2 * (c.buffer ++ c.reads.flatten).length + 1 := by
      rw [measure, hop]
    rw [hop] at h
    rw [hm]
    exact measure_completeRead measure_handleReadRequest_le (fun c => rfl) h
  | readPrognosis zodiac =>
    have hm : c.measure = 2 * (c.buffer ++ c.reads.flatten).length + 1 := by
      rw [measure, hop]
    rw [hop] at h
    rw [hm]
    exact measure_completeRead (fun c => c.measure_handleReadPrognosis_le zodiac)
      (fun c => rfl) h
  | writeResponse =>
    have hm : c.measure = 2 * c.reads.flatten.length + 2 := by
      rw [measure, hop]
    rw [hop] at h
    rw [hm]
    cases h
    exact Nat.lt_succ_self _
  | stopped =>
    rw [hop] at h
    cases h

/-- The connection when nothing more happens. -/
def Connection.result (c : Connection) : Connection :=
  Halting.result Connection.step Connection.measure c

theorem Connection.step_result (c : Connection) : c.result.step = none :=
  Halting.step_result step_decreases c

theorem Connection.result_eq_of_step {c c' : Connection} (h : c.step = some c') :
    c.result = c'.result :=
  Halting.result_eq_of_step step_decreases h

theorem Connection.result_of_none {c : Connection} (h : c.step = none) : c.result = c :=
  Halting.result_of_none h Connection.measure

theorem Connection.writes_prefix_result (c : Connection) : c.writes <+: c.result.writes :=
  Halting.rel_result (fun c => List.prefix_refl c.writes)
    (fun _ _ _ h h' => h.trans h') step_writes c

end Astrologer.Boost
