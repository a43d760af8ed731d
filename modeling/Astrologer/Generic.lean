import Astrologer.Library.CArray
import Astrologer.Library.Lines

/-!
# `generic.h` and `generic.c`

The texts of the protocol, the search for a zodiac name and the buffered receive
shared by the programs of the UNIX half.

## The outside world

A system call asks the kernel, and the kernel may answer anything its
documentation allows.  The answers to come are two streams, `Io.recvs` and
`Io.sends`, one entry for each call that is made; a statement about all runs is a
statement about all streams.  A call for `n` bytes gets at most `n` of the bytes
the kernel has (`Io.recv`), and a call offering `n` bytes is rid of at most `n` of
them (`Io.send`), so no stream has to be excluded.

`Io.trace` records what was done.  Besides the system calls it has two entries
that say what the calls meant to the server, at the places where the source logs
the same: a request of a client was understood, and a prognosis was stored.

## Arrays and pointers

A `char` array is a `CArray` of bytes, and a pointer into it is the distance from
its start.  `ssize_t` results are integers, so that `-1` is one of them.
-/

namespace Astrologer

open Lines

abbrev Byte := UInt8

/-- The bytes of a text. -/
def str (s : String) : List Byte := s.toList.map fun c => c.toNat.toUInt8

/-! ## `generic.h` -/

def secNsFactor : ℤ := 1000000000
def secUsFactor : ℤ := 1000000

/-- `struct timespec`. -/
structure Timespec where
  tvSec : ℤ
  tvNsec : ℤ
  deriving DecidableEq

/-- `ACCUM_TIME_NS`. -/
def accumTimeNs (ts : Timespec) : ℤ := ts.tvSec * secNsFactor + ts.tvNsec

def starRequestType : List Byte := str "STARS SAY "
def clientRequestType : List Byte := str "HOROSCOPE "

def starReplySuccess : List Byte := str "THANKS!\n"
def starReplyFailure : List Byte := str "DENIED!\n"

def clientReplyFailure : List Byte := str "YOU ARE OUT OF LUCK!\n"

def zodiacNum : ℕ := 3

/-- `(size_t) -1`. -/
def zodiacUnknown : ℕ := 2 ^ 64 - 1

def delimiter : Byte := 10

def astrologBufLen : ℕ := 80

/-- `char[ASTROLOG_BUF_LEN + 1]`. -/
abbrev CharArray := CArray Byte (astrologBufLen + 1)

/-! ## System calls -/

/-- What a `recv` call meets: an error, or the bytes the kernel has; none is the
end of the stream. -/
inductive RecvResult
  | error
  | bytes (bs : List Byte)
  deriving DecidableEq

/-- What a `send` call meets: an error, or room for so many bytes. -/
inductive SendResult
  | error
  | count (k : ℕ)
  deriving DecidableEq

/-- What is seen of a connection. -/
inductive ConnEvent
  /-- `recv` returned these bytes; none is the end of the stream. -/
  | recv (bs : List Byte)
  | recvError
  /-- `send` took these bytes. -/
  | sent (bs : List Byte)
  | sendError
  /-- A client's request line was accepted: "Client requests zodiac". -/
  | request (zodiacIx : ℕ)
  /-- A prognosis line was written to its row: "Recv prognosis". -/
  | prognosis (zodiacIx : ℕ) (line : List Byte)
  deriving DecidableEq

/-- The system calls of one connection: the answers that are still to come, and a record of the
calls that were made, with what the server has logged about them. -/
structure Io where
  recvs : Stream' RecvResult
  sends : Stream' SendResult
  trace : List ConnEvent

/-- Add an entry to the record. -/
def Io.log (io : Io) (e : ConnEvent) : Io := { io with trace := io.trace ++ [e] }

/-- `recv(fd, _, n, 0)`. -/
def Io.recv (io : Io) (n : ℕ) : RecvResult × Io :=
  let next := { io with recvs := io.recvs.tail }
  match io.recvs.head with
  | .error => (.error, next.log .recvError)
  | .bytes bs => (.bytes (bs.take n), next.log (.recv (bs.take n)))

/-- `send(fd, src, |src|, 0)`. -/
def Io.send (io : Io) (src : List Byte) : SendResult × Io :=
  let next := { io with sends := io.sends.tail }
  match io.sends.head with
  | .error => (.error, next.log .sendError)
  | .count k => (.count (min k src.length), next.log (.sent (src.take k)))

/-- `memchr(s, c, |s|)`, as the distance from `s`. -/
def memchr (s : List Byte) (c : Byte) : Option ℕ := s.findIdx? (· == c)

/-! ## Zodiacs -/

def zodiacNames : List (List Byte) := [str "Aries", str "Taurus", str "Gemini"]

/-- The test of the loop of `find_zodiac`: `n >= len && !memcmp(zodiac, name, len)`. -/
def startsWithName (zodiac name : List Byte) : Bool :=
  decide (name.length ≤ zodiac.length) && zodiac.take name.length == name

/-- `find_zodiac(zodiac, n)`, on the `n` bytes at `zodiac`. -/
def findZodiac (zodiac : List Byte) : ℤ :=
  match zodiacNames.findIdx? (startsWithName zodiac) with
  | some i => i
  | none => -1

/-- `get_zodiac`; the name as a list of bytes, empty in place of `NULL`. -/
def getZodiac (ix : ℕ) : List Byte := zodiacNames.getD ix []

/-- `find_zodiac` answers with an index of the table or with `-1`. -/
theorem findZodiac_lt (zodiac : List Byte) : findZodiac zodiac < zodiacNum := by
  unfold findZodiac
  split
  next i hi =>
    have hlt : i < zodiacNames.length := (List.findIdx?_eq_some_iff_getElem.mp hi).1
    exact Int.ofNat_lt.mpr hlt
  next => decide

/-! ## The buffered receive -/

/-- `struct buffer`. -/
structure Buffer where
  fd : ℕ
  data : CharArray
  pos : ℕ
  len : ℕ

/-- The bytes received and not yet handed on. -/
def Buffer.unread (buf : Buffer) : List Byte := buf.data.slice buf.pos (buf.len - buf.pos)

/-- The part of `buffered_recv_until_delim` behind the refill.  The bytes go to
`dst + off`. -/
def copyUntilDelim (buf : Buffer) (dst : CharArray) (off n : ℕ) (delim : Byte) :
    ℤ × Buffer × CharArray :=
  let size := buf.len - buf.pos
  let size := if n < size then n else size
  let size : ℕ :=
    match memchr (buf.data.slice buf.pos size) delim with
    | some del => if del + 1 < size then del + 1 else size
    | none => size
  ((size : ℤ), { buf with pos := buf.pos + size },
    dst.memcpy off (buf.data.slice buf.pos size))

def bufferedRecvUntilDelim (buf : Buffer) (dst : CharArray) (off n : ℕ)
    (delim : Byte) (io : Io) : (ℤ × Buffer × CharArray) × Io :=
  if buf.pos = buf.len then
    let buf := { buf with pos := 0, len := 0 }
    match io.recv astrologBufLen with
    | (.error, io) => ((-1, buf, dst), io)
    | (.bytes [], io) => ((0, buf, dst), io)
    | (.bytes bs, io) =>
      let buf := { buf with data := buf.data.memcpy 0 bs, len := bs.length }
      (copyUntilDelim buf dst off n delim, io)
  else
    (copyUntilDelim buf dst off n delim, io)

/-- **What one copy takes**: the first line of the unread bytes, as far as it
has arrived and as far as there is room. -/
theorem copyUntilDelim_eq (buf : Buffer) (dst : CharArray) (off n : ℕ) (delim : Byte)
    (hlen : buf.len ≤ astrologBufLen) :
    copyUntilDelim buf dst off n delim =
      (((takeLine delim (buf.unread.take n)).length : ℤ),
        { buf with pos := buf.pos + (takeLine delim (buf.unread.take n)).length },
        dst.memcpy off (takeLine delim (buf.unread.take n))) := by
  have hunread : (if n < buf.len - buf.pos then n else buf.len - buf.pos) =
      (buf.unread.take n).length := by
    rw [List.length_take, Buffer.unread, CArray.length_slice]
    have hle : buf.len ≤ astrologBufLen := hlen
    split <;> omega
  have hslice : ∀ k, k ≤ (buf.unread.take n).length →
      buf.data.slice buf.pos k = (buf.unread.take n).take k := by
    intro k hk
    rw [← hunread] at hk
    rw [Buffer.unread, CArray.take_slice, CArray.take_slice]
    congr 1
    split at hk <;> omega
  unfold copyUntilDelim
  simp only [hunread]
  rw [hslice _ (Nat.le_refl _), List.take_length]
  generalize hu : buf.unread.take n = u at *
  have hline := length_takeLine_le delim u
  by_cases hmem : delim ∈ u
  · have hpos : 0 < (takeLine delim u).length :=
      List.length_pos_iff.mpr (takeLine_ne_nil (List.ne_nil_of_mem hmem))
    have hsize : (if (takeLine delim u).length - 1 + 1 < u.length then
        (takeLine delim u).length - 1 + 1 else u.length) = (takeLine delim u).length := by
      split <;> omega
    rw [memchr, findIdx_eq_length hmem]
    simp only [hsize]
    rw [hslice _ hline, ← takeLine_eq_take]
  · have hnone : memchr u delim = none := by
      rw [memchr, List.findIdx?_eq_none_iff]
      intro x hx
      simpa using fun h : x = delim => hmem (h ▸ hx)
    rw [hnone, takeLine_of_notMem hmem]
    simp only
    rw [hslice _ (Nat.le_refl _), List.take_length]

end Astrologer
