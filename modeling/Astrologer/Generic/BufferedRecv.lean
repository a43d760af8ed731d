import Astrologer.Generic

/-!
# `buffered_recv_until_delim`, call after call

The server reads its connections through a `struct buffer`.  What a `recv` brings is put
there, and the calls hand it on piece by piece: up to a delimiter, or as much as the caller
has room for, or what there is.

The calls on one buffer are a list (`runCalls`), with any room and any delimiter each, and
the kernel answers what it likes: bytes, as many as were asked for at most, an end of the
stream, an error.  `RecvDone` records what one call did, and `RecvDone.Sound` is what can be
said of it.  The equation `lossless` of one call adds up over the list (`runCalls_sound`): the
pieces, one behind the other, with what is still in the buffer, are what was received.
-/

namespace Astrologer

open Lines

/-- The arguments of a call; `dst` is the array that the pointer points into, at `off`. -/
structure RecvCall where
  dst : CharArray
  off : ℕ
  n : ℕ
  delim : Byte

/-- The caller wants at least a byte, and there is room behind the pointer. -/
structure RecvCall.Fits (c : RecvCall) : Prop where
  wants : 1 ≤ c.n
  room : c.off + min c.n astrologBufLen ≤ astrologBufLen + 1

/-- What a call has done. -/
structure RecvDone where
  call : RecvCall
  before : Buffer
  ret : ℤ
  after : Buffer
  dst : CharArray
  /-- The call of `recv`, if there was one. -/
  asked : List ConnEvent

def RecvCall.run (c : RecvCall) (buf : Buffer) (io : Io) : RecvDone × Io :=
  let r := bufferedRecvUntilDelim buf c.dst c.off c.n c.delim io
  (⟨c, buf, r.1.1, r.1.2.1, r.1.2.2, r.2.trace.drop io.trace.length⟩, r.2)

/-- Calls on one buffer, and what they leave. -/
def runCalls : List RecvCall → Buffer → Io → List RecvDone × Buffer × Io
  | [], buf, io => ([], buf, io)
  | c :: cs, buf, io =>
    let r := c.run buf io
    let rest := runCalls cs r.1.after r.2
    (r.1 :: rest.1, rest.2)

/-- What a call has handed on. -/
def RecvDone.chunk (d : RecvDone) : List Byte := d.dst.slice d.call.off d.ret.toNat

/-- The bytes of a record. -/
def ConnEvent.received : ConnEvent → List Byte
  | .recv bs => bs
  | .recvError => []
  | .sent _ => []
  | .sendError => []
  | .request _ => []
  | .prognosis _ _ => []

def receivedBytes (es : List ConnEvent) : List Byte := es.flatMap ConnEvent.received

/-- The invariant of `struct buffer`. -/
def Buffer.Wf (buf : Buffer) : Prop := buf.pos ≤ buf.len ∧ buf.len ≤ astrologBufLen

/-- How a call can end: it has met the end of the stream or an error, the buffer is empty and the
caller's array untouched; or it has handed on some bytes, at most as many as were wanted, with the
delimiter only at their end. -/
inductive RecvDone.Outcome (d : RecvDone) : Prop
  /-- There was an end of the stream, or an error. -/
  | failed (asked : (d.asked = [.recv []] ∧ d.ret = 0) ∨ (d.asked = [.recvError] ∧ d.ret = -1))
      (empty : d.after.pos = 0 ∧ d.after.len = 0) (untouched : d.dst = d.call.dst)
  | handed (least : 1 ≤ d.ret) (most : d.ret ≤ d.call.n)
      (last : d.call.delim ∉ d.chunk.dropLast)
      (asked : d.asked = [] ∨ ∃ bs, d.asked = [.recv bs] ∧ bs ≠ [] ∧ bs.length ≤ astrologBufLen)

/-- **What a call does, whatever `recv` answers.**  The bounds of the buffer hold behind it; what
was in the buffer and what was received is what was handed on and what is left; and `recv` is
called only when the buffer is empty. -/
structure RecvDone.Sound (d : RecvDone) : Prop where
  wf : d.after.Wf
  lossless : d.before.unread ++ receivedBytes d.asked = d.chunk ++ d.after.unread
  asks : d.asked ≠ [] → d.before.pos = d.before.len
  outcome : d.Outcome

/-! ## A copy -/

theorem takeLine_dropLast (d : Byte) (l : List Byte) : d ∉ (takeLine d l).dropLast := by
  by_cases hmem : d ∈ l
  · obtain ⟨text, htext, heq⟩ := exists_takeLine_eq_of_mem hmem
    rw [heq, List.dropLast_concat]
    exact htext
  · rw [takeLine_of_notMem hmem]
    exact fun h => hmem (List.dropLast_subset l h)

theorem unread_of_pos_eq_len {buf : Buffer} (h : buf.pos = buf.len) : buf.unread = [] := by
  rw [Buffer.unread, h, Nat.sub_self, CArray.slice_zero]

theorem length_unread {buf : Buffer} (h : buf.Wf) : buf.unread.length = buf.len - buf.pos := by
  obtain ⟨hpos, hlen⟩ := h
  rw [Buffer.unread, CArray.length_slice]
  have hle : buf.len ≤ 80 := hlen
  show min (buf.len - buf.pos) (80 + 1 - buf.pos) = _
  omega

/-- What a copy hands on, and what it leaves: a piece of the buffer that is not empty, not longer
than what was wanted, and has the delimiter at its end if at all. -/
structure Copied (c : RecvCall) (buf : Buffer) (r : ℤ × Buffer × CharArray) : Prop where
  wf : r.2.1.Wf
  least : 1 ≤ r.1
  most : r.1 ≤ c.n
  split : buf.unread = r.2.2.slice c.off r.1.toNat ++ r.2.1.unread
  last : c.delim ∉ (r.2.2.slice c.off r.1.toNat).dropLast

/-- **A copy** takes at least a byte off the front of the unread bytes, up to the delimiter, the
end of the buffer, or what the caller wants. -/
theorem copied {c : RecvCall} (hc : c.Fits) {buf : Buffer} (hwf : buf.Wf)
    (hne : buf.pos ≠ buf.len) : Copied c buf (copyUntilDelim buf c.dst c.off c.n c.delim) := by
  obtain ⟨hpos, hlen⟩ := hwf
  have hunread := length_unread ⟨hpos, hlen⟩
  have hwants := hc.wants
  have hroom := hc.room
  have hle : buf.len ≤ 80 := hlen
  rw [copyUntilDelim_eq buf c.dst c.off c.n c.delim hlen]
  obtain ⟨line, hline⟩ : ∃ line, line = takeLine c.delim (buf.unread.take c.n) := ⟨_, rfl⟩
  have hlineLen : line.length ≤ (buf.unread.take c.n).length := by
    rw [hline]
    exact length_takeLine_le _ _
  rw [List.length_take, hunread] at hlineLen
  have hprefix : buf.unread = line ++ buf.unread.drop line.length := by
    have htake : line = buf.unread.take line.length := by
      have heq : line = (buf.unread.take c.n).take line.length := by
        rw [hline]
        exact takeLine_eq_take _ _
      rw [List.take_take, Nat.min_eq_left (Nat.le_trans hlineLen (Nat.min_le_left _ _))] at heq
      exact heq
    calc buf.unread
        = buf.unread.take line.length ++ buf.unread.drop line.length :=
          (List.take_append_drop _ _).symm
      _ = line ++ buf.unread.drop line.length := by rw [← htake]
  have hnonempty : 0 < line.length := by
    rw [hline]
    refine List.length_pos_iff.mpr (takeLine_ne_nil fun hnil => ?_)
    have hzero := congrArg List.length hnil
    rw [List.length_take, hunread, List.length_nil] at hzero
    omega
  have hslice : (c.dst.memcpy c.off line).slice c.off line.length = line := by
    refine CArray.slice_memcpy_self _ _ _ ?_
    have hroom' : c.off + min c.n 80 ≤ 80 + 1 := hroom
    show c.off + line.length ≤ 80 + 1
    omega
  rw [← hline]
  refine ⟨⟨?_, hlen⟩, ?_, ?_, ?_, ?_⟩
  · show buf.pos + line.length ≤ buf.len
    omega
  · exact Int.ofNat_le.mpr hnonempty
  · exact Int.ofNat_le.mpr (by omega)
  · rw [Int.toNat_natCast, hslice]
    refine hprefix.trans (congrArg (line ++ ·) ?_)
    rw [Buffer.unread, CArray.drop_slice, Nat.sub_sub]
    rfl
  · rw [Int.toNat_natCast, hslice, hline]
    exact takeLine_dropLast _ _

/-! ## A call -/

/-- Bytes have been received into an empty buffer. -/
theorem unread_filled (buf : Buffer) {bs : List Byte} (hlen : bs.length ≤ astrologBufLen) :
    Buffer.unread { buf with pos := 0, data := buf.data.memcpy 0 bs, len := bs.length } = bs :=
  CArray.slice_memcpy_zero _ _ (Nat.le_trans hlen (Nat.le_succ _))

/-- **One call** is sound, whatever the buffer holds and whatever `recv` answers; and the record
is longer by what it has asked. -/
theorem RecvCall.run_sound {c : RecvCall} (hc : c.Fits) {buf : Buffer} (hwf : buf.Wf) (io : Io) :
    (c.run buf io).1.Sound ∧
      (c.run buf io).2.trace = io.trace ++ (c.run buf io).1.asked := by
  have hlog : ∀ (io' : Io) (es : List ConnEvent), io'.trace = io.trace ++ es →
      io'.trace.drop io.trace.length = es := fun io' es h => by rw [h, List.drop_left]
  unfold RecvCall.run bufferedRecvUntilDelim
  dsimp only
  by_cases hempty : buf.pos = buf.len
  · rw [if_pos hempty]
    have hunread := unread_of_pos_eq_len hempty
    have hwf' : ∀ data, Buffer.Wf { buf with pos := 0, data := data, len := 0 } :=
      fun _ => ⟨Nat.le_refl 0, Nat.zero_le _⟩
    unfold Io.recv
    cases hhead : io.recvs.head with
    | error =>
      have hdrop := hlog (Io.log { io with recvs := io.recvs.tail } .recvError) [.recvError] rfl
      dsimp only
      rw [hdrop]
      refine ⟨⟨hwf' _, ?_, fun _ => hempty, .failed (Or.inr ⟨rfl, rfl⟩) ⟨rfl, rfl⟩ rfl⟩, rfl⟩
      rw [hunread]
      rfl
    | bytes all =>
      have hlen : (all.take astrologBufLen).length ≤ astrologBufLen := List.length_take_le _ _
      dsimp only
      generalize all.take astrologBufLen = bs at hlen
      have hdrop := hlog (Io.log { io with recvs := io.recvs.tail } (.recv bs)) [.recv bs] rfl
      cases bs with
      | nil =>
        dsimp only
        rw [hdrop]
        refine ⟨⟨hwf' _, ?_, fun _ => hempty, .failed (Or.inl ⟨rfl, rfl⟩) ⟨rfl, rfl⟩ rfl⟩, rfl⟩
        rw [hunread]
        rfl
      | cons b tl =>
        dsimp only
        rw [hdrop]
        have hfilled := unread_filled buf hlen
        have hfull : Buffer.Wf { buf with
            pos := 0, data := buf.data.memcpy 0 (b :: tl), len := (b :: tl).length } :=
          ⟨Nat.zero_le _, hlen⟩
        obtain ⟨hwf, hleast, hmost, hsplit, hlast⟩ := copied hc hfull (Nat.succ_ne_zero _).symm
        refine ⟨⟨hwf, ?_, fun _ => hempty, .handed hleast hmost hlast
          (Or.inr ⟨_, rfl, List.cons_ne_nil _ _, hlen⟩)⟩, rfl⟩
        rw [hfilled] at hsplit
        rw [hunread, List.nil_append]
        exact (List.append_nil _).trans hsplit
  · rw [if_neg hempty]
    obtain ⟨hwf, hleast, hmost, hsplit, hlast⟩ := copied hc hwf hempty
    have hdrop := hlog io [] (List.append_nil _).symm
    rw [hdrop]
    refine ⟨⟨hwf, ?_, fun h => absurd rfl h, .handed hleast hmost hlast (Or.inl rfl)⟩,
      (List.append_nil _).symm⟩
    exact (List.append_nil _).trans hsplit

/-! ## The calls -/

theorem receivedBytes_append (es fs : List ConnEvent) :
    receivedBytes (es ++ fs) = receivedBytes es ++ receivedBytes fs := List.flatMap_append

/-- **Nothing is lost and nothing changes its place**, over any calls with any answers of the
kernel. -/
theorem runCalls_sound {calls : List RecvCall} (hcalls : ∀ c ∈ calls, c.Fits) {buf : Buffer}
    (hwf : buf.Wf) (io : Io) :
    (∀ d ∈ (runCalls calls buf io).1, d.Sound) ∧ (runCalls calls buf io).2.1.Wf ∧
      ∃ es, (runCalls calls buf io).2.2.trace = io.trace ++ es ∧
        (runCalls calls buf io).1.flatMap RecvDone.chunk ++ (runCalls calls buf io).2.1.unread =
          buf.unread ++ receivedBytes es := by
  induction calls generalizing buf io with
  | nil =>
    refine ⟨fun d hd => absurd hd List.not_mem_nil, hwf, [], (List.append_nil _).symm, ?_⟩
    exact (List.append_nil _).symm
  | cons c cs ih =>
    obtain ⟨hsound, htrace⟩ := RecvCall.run_sound (hcalls c List.mem_cons_self) hwf io
    obtain ⟨hall, hend, es, hes, heq⟩ :=
      ih (fun c' hc' => hcalls c' (List.mem_cons_of_mem _ hc')) hsound.wf (c.run buf io).2
    refine ⟨fun d hd => ?_, hend, (c.run buf io).1.asked ++ es, ?_, ?_⟩
    · rcases List.mem_cons.mp hd with rfl | hd
      · exact hsound
      · exact hall d hd
    · rw [← List.append_assoc, ← htrace]
      exact hes
    · have hfirst : buf.unread ++ receivedBytes (c.run buf io).1.asked =
          (c.run buf io).1.chunk ++ (c.run buf io).1.after.unread := hsound.lossless
      rw [receivedBytes_append, ← List.append_assoc, hfirst, List.append_assoc, ← heq,
        ← List.append_assoc]
      rfl

/-! Two calls: the first hands on a line, the second has the rest of the same `recv`. -/

def samplePieces : Io where
  recvs := Stream'.const (.bytes (str "HOROSCOPE Leo\nSTARS"))
  sends := Stream'.const .error
  trace := []

def sampleCall : RecvCall := ⟨CArray.replicate _ 0, 0, 80, delimiter⟩

def sampleEmpty : Buffer := ⟨0, CArray.replicate _ 0, 0, 0⟩

theorem sampleCalls_sound :
    (∀ d ∈ (runCalls [sampleCall, sampleCall] sampleEmpty samplePieces).1, d.Sound) ∧
      (runCalls [sampleCall, sampleCall] sampleEmpty samplePieces).1.map RecvDone.chunk =
        [str "HOROSCOPE Leo\n", str "STARS"] := by
  have hfits : ∀ c ∈ [sampleCall, sampleCall], c.Fits := by
    intro c hc
    have heq : c = sampleCall := by simpa using hc
    rw [heq]
    exact ⟨by decide, by decide⟩
  exact ⟨(runCalls_sound hfits ⟨Nat.le_refl 0, Nat.zero_le _⟩ samplePieces).1, by decide⟩

end Astrologer
