import Astrologer.Library.Halting
import Astrologer.Library.Segmentation
import Astrologer.Proxy.Children

/-!
# A star client at the proxy

`star_client` of `client.c` sends a request line and a prognosis line one after the other,
and then it waits for one reply.  `star_client_all` does this for each zodiac on one
connection.

The proxy works line by line.  It knows of no prognosis, so it denies the prognosis line
as it denies the request line, and a pair of lines is answered twice.  And `recv_line`
has no buffer behind it: when a `recv` brings the end of a line and something of the next
one, `recv_line` fails and the proxy leaves the client.

So the proxy denies one line after the other, up to the first line whose end is not the
end of a `recv` (`StarVisit.denied`).  Nothing is forwarded, and `star_client_all` reads
no other reply than a denial, but neither is there one denial for each pair nor is the
connection always kept.
-/

namespace Astrologer.Proxy

open Lines ProxyStateType Segmentation StateTransition

/-! ## `star_client`

The client's side, with the sockets as lists of reads that are still to come.  A star sends the
two lines of a pair and reads one reply. -/

/-- `PROGNOSE_LIMIT`. -/
def prognoseLimit : ℕ := 256

/-- `sprintf("%d", n)`. -/
def decimal (n : ℕ) : List Byte := (Nat.toDigits 10 n).map fun c => c.toNat.toUInt8

/-- What `star_client` sends about: a zodiac, and `rand() % PROGNOSE_LIMIT`. -/
structure StarPair where
  zodiacIx : ℕ
  zodiac_lt : zodiacIx < zodiacNum
  number : ℕ
  number_lt : number < prognoseLimit

def StarPair.request (p : StarPair) : List Byte :=
  starRequestType ++ getZodiac p.zodiacIx ++ [delimiter]

def StarPair.prognosis (p : StarPair) : List Byte := decimal p.number ++ [delimiter]

/-- The two lines, one behind the other. -/
def StarPair.lines (p : StarPair) : List (List Byte) := [p.request, p.prognosis]

/-- What stays in the socket when a `recv` of at most `n` bytes has taken of `bs`. -/
def unread (n : ℕ) (bs : List Byte) (reads : List (List Byte)) : List (List Byte) :=
  if bs.length ≤ n then reads else bs.drop n :: reads

/-- `recv_line(fd, buf, ASTROLOG_BUF_LEN, 0)` with what comes in some reads, at the distance
`pos`: the return value, the array, and the reads behind.  A `recv` that has no room for all
of a read fills the array, so it is the last one. -/
def recvLineAll (buf : CharArray) (pos : ℕ) : List (List Byte) → ℤ × CharArray × List (List Byte)
  | [] => (0, buf, [])
  | bs :: reads =>
    let call := recvLine buf pos astrologBufLen (.bytes bs)
    match call.1 with
    | some ret => (ret, call.2.1, unread (astrologBufLen - pos) bs reads)
    | none => recvLineAll call.2.1 call.2.2 reads

/-- `star_client`, behind the sends: the reply, if there is one. -/
def starClient (buf : CharArray) (reads : List (List Byte)) :
    Option (List Byte) × List (List Byte) :=
  let call := recvLineAll buf 0 reads
  (if call.1 ≤ 0 then none else some (call.2.1.slice 0 call.1.toNat), call.2.2)

/-- The loop of `star_client_all`: the replies up to the first failure. -/
def starClientAll (buf : CharArray) : ℕ → List (List Byte) → List (List Byte)
  | 0, _ => []
  | n + 1, reads =>
    match starClient buf reads with
    | (none, _) => []
    | (some reply, reads) => reply :: starClientAll buf n reads

/-! ## What the star client reads

Whatever way the denials are cut, `recv_line` of the client returns one of them, or it fails. -/

section Client

variable {buf : CharArray} {pos : ℕ} {reads : List (List Byte)}

theorem append_unread_flatten (n : ℕ) (bs : List Byte) (reads : List (List Byte)) :
    bs.take n ++ (unread n bs reads).flatten = bs ++ reads.flatten := by
  rw [unread]
  split
  next hle => rw [List.take_of_length_le hle]
  next => rw [List.flatten_cons, ← List.append_assoc, List.take_append_drop]

/-- **What `recv_line` returns** is a line of the stream: its bytes are taken off the front, and
the array has them. -/
theorem recvLineAll_line (h : Receiving buf pos) (hpos : 0 < (recvLineAll buf pos reads).1) :
    ∃ made, IsLine delimiter (buf.slice 0 pos ++ made) ∧
      made ++ (recvLineAll buf pos reads).2.2.flatten = reads.flatten ∧
      (recvLineAll buf pos reads).2.1.slice 0 (recvLineAll buf pos reads).1.toNat =
        buf.slice 0 pos ++ made := by
  induction reads generalizing buf pos with
  | nil => exact absurd hpos (Int.lt_irrefl 0)
  | cons bs reads ih =>
    obtain ⟨cut, hcut⟩ : ∃ cut, cut = bs.take (astrologBufLen - pos) := ⟨_, rfl⟩
    have hsame := recvLine_take buf pos bs
    rw [← hcut] at hsame
    by_cases hnil : cut = []
    · have hcall : recvLine buf pos astrologBufLen (.bytes bs) = (some 0, buf, pos) := by
        rw [← hsame, recvLine, hnil, List.take_nil]
        exact if_pos rfl
      rw [recvLineAll, hcall] at hpos
      exact absurd hpos (Int.lt_irrefl 0)
    · have hlen : pos + cut.length ≤ astrologBufLen := by
        have hroom := h.room
        rw [hcut, List.length_take]
        omega
      obtain ⟨hcall, htext⟩ := h.recvLine_bytes hnil hlen
      rw [hsame] at hcall
      rw [recvLineAll, hcall] at hpos ⊢
      dsimp only at hpos ⊢
      cases hret : lineRet (buf.slice 0 pos ++ cut) with
      | some ret =>
        rw [hret] at hpos
        obtain ⟨hline, hretlen⟩ := isLine_of_lineRet hret hpos
        have hn : ret.toNat = pos + cut.length := by
          rw [hretlen, Int.toNat_natCast, List.length_append, h.length_text]
        refine ⟨cut, hline, ?_, ?_⟩
        · rw [hcut]
          exact append_unread_flatten _ bs reads
        · rw [hn]
          exact htext
      | none =>
        rw [hret] at hpos
        obtain ⟨hmem, hfull⟩ := lineRet_eq_none hret
        rw [List.length_append, h.length_text] at hfull
        have hall : cut = bs := by
          rw [hcut, List.length_take] at hfull
          rw [hcut]
          exact List.take_of_length_le (by omega)
        have hnext : Receiving (buf.memcpy pos cut) (pos + cut.length) :=
          ⟨Nat.lt_of_le_of_ne hlen hfull, htext.symm ▸ hmem⟩
        obtain ⟨made, hline, hmade, hslice⟩ := ih hnext hpos
        rw [htext, List.append_assoc] at hline hslice
        refine ⟨cut ++ made, hline, ?_, hslice⟩
        rw [List.append_assoc, hmade, hall, List.flatten_cons]

theorem starReplyFailure_isLine : IsLine delimiter starReplyFailure :=
  ⟨str "DENIED!", by decide, by decide⟩

/-- **The star client reads denials only**, when nothing else is sent to it. -/
theorem eq_of_mem_starClientAll {n k : ℕ}
    (h : reads.flatten <+: (List.replicate k starReplyFailure).flatten) :
    ∀ reply ∈ starClientAll buf n reads, reply = starReplyFailure := by
  induction n generalizing reads k with
  | zero => exact fun reply hreply => absurd hreply List.not_mem_nil
  | succ n ih =>
    intro reply hreply
    rw [starClientAll, starClient] at hreply
    by_cases hle : (recvLineAll buf 0 reads).1 ≤ 0
    · rw [if_pos hle] at hreply
      exact absurd hreply List.not_mem_nil
    · rw [if_neg hle] at hreply
      obtain ⟨made, hline, hmade, hslice⟩ :=
        recvLineAll_line (receiving_zero buf) (Int.not_le.mp hle)
      rw [CArray.slice_zero, List.nil_append] at hline hslice
      obtain ⟨behind, hbehind⟩ := h
      rw [← hmade, List.append_assoc] at hbehind
      cases k with
      | zero => exact absurd (List.append_eq_nil_iff.mp hbehind).1 hline.ne_nil
      | succ k =>
        rw [List.replicate_succ, List.flatten_cons] at hbehind
        obtain ⟨hdenial, hrest⟩ := hline.append_inj starReplyFailure_isLine hbehind
        rcases List.mem_cons.mp hreply with heq | hmem
        · rw [heq, hslice, hdenial]
        · exact ih ⟨behind, hrest⟩ reply hmem

end Client

/-! ## The child and its client

The child goes on with this client by the calls of `Process`, one result after the other, until it
waits for a line or has left the client.  That it never comes to the server follows at the end,
since every line is denied. -/

/-- A child that serves one client: what has arrived from it, how much the next sends will
take, and what has been sent to the client and to the server. -/
structure Filtering where
  child : Process
  reads : List (List Byte)
  room : Stream' ℕ
  answers : List Byte
  forwarded : List Byte

/-- The next call, when no call fails.  There is none when the child waits for its client
or for the server, or has left its client. -/
def Filtering.step (w : Filtering) : Option Filtering :=
  match w.child with
  | .serving s pos =>
    match s.state, w.reads with
    | stateRecvRequest, bs :: reads =>
      some { w with
        child := .afterRecv handleRecvRequest s pos (.bytes bs)
        reads := unread (astrologBufLen - pos) bs reads }
    | stateSendDenied, _ =>
      some { w with
        child := .afterSend handleSendReply s pos (.count (w.room.head + 1))
        room := w.room.tail
        answers := w.answers ++ (s.rest pos).take (w.room.head + 1) }
    | stateSendRequest, _ =>
      some { w with
        child := .afterSend handleSendRequest s pos (.count (w.room.head + 1))
        room := w.room.tail
        forwarded := w.forwarded ++ (s.rest pos).take (w.room.head + 1) }
    | _, _ => none
  | _ => none

/-- The child waits for the next request line of its client. -/
def Filtering.Usable (w : Filtering) : Prop :=
  w.reads = [] ∧ ∃ buf, w.child = .serving ⟨buf, 0, stateRecvRequest⟩ 0

/-- What is done is a step of the child. -/
theorem Filtering.step_child {w w' : Filtering} (h : w.step = some w') :
    ∃ l, w.child.Step l w'.child := by
  obtain ⟨child, reads, room, answers, forwarded⟩ := w
  cases child with
  | accepting => cases h
  | exited => cases h
  | serving s pos =>
    obtain ⟨buf, len, state⟩ := s
    cases state with
    | stateRecvRequest =>
      cases reads with
      | nil => cases h
      | cons bs reads =>
        cases h
        exact ⟨_, .recvRequest rfl (.bytes bs)⟩
    | stateSendDenied =>
      cases h
      exact ⟨_, .sendDenied rfl _⟩
    | stateSendRequest =>
      cases h
      exact ⟨_, .sendRequest rfl _⟩
    | stateRecvReply => cases h
    | stateSendReply => cases h
    | stateClientError => cases h
    | stateAstrologError => cases h
    | stateSuccess => cases h

/-- What a star client sends to a new child, in some reads. -/
structure StarVisit where
  buf : CharArray
  pairs : List StarPair
  reads : List (List Byte)
  room : Stream' ℕ
  nonempty : [] ∉ reads
  cut : reads.flatten = (pairs.flatMap StarPair.lines).flatten

def StarVisit.lines (v : StarVisit) : List (List Byte) := v.pairs.flatMap StarPair.lines

def StarVisit.start (v : StarVisit) : Filtering := ⟨.connect v.buf, v.reads, v.room, [], []⟩

/-! ## The lines that are filtered

Both lines of a star fit into a buffer and begin otherwise than a request for a horoscope does,
the prognosis line since it is a number. -/

/-- A line that `handle_recv_request` filters. -/
structure Filtered (line : List Byte) : Prop where
  isLine : IsLine delimiter line
  fits : line.length < astrologBufLen
  other : ¬ clientRequestType <+: line

theorem delimiter_notMem_decimal (n : ℕ) : delimiter ∉ decimal n := by
  intro hmem
  obtain ⟨c, hc, heq⟩ := List.mem_map.mp hmem
  have hdigit := Nat.isDigit_of_mem_toDigits (by decide) (by decide) hc
  have hlow : 48 ≤ c.toNat := (Char.isDigit_iff_toNat.mp hdigit).1
  have hhigh : c.toNat ≤ 57 := (Char.isDigit_iff_toNat.mp hdigit).2
  have hten : c.toNat % 2 ^ 8 = 10 := congrArg UInt8.toNat heq
  omega

theorem length_decimal_le {n : ℕ} (h : n < prognoseLimit) : (decimal n).length ≤ 3 := by
  rw [decimal, List.length_map, Nat.length_toDigits_le_iff (by decide) (by decide)]
  exact Nat.lt_trans h (by decide)

theorem StarPair.prognosis_filtered (p : StarPair) : Filtered p.prognosis := by
  have hlen : p.prognosis.length ≤ 4 := by
    rw [prognosis, List.length_append, List.length_singleton]
    exact Nat.succ_le_succ (length_decimal_le p.number_lt)
  refine ⟨⟨_, delimiter_notMem_decimal p.number, rfl⟩,
    Nat.lt_of_le_of_lt hlen (by decide), fun hpre => ?_⟩
  exact absurd (hpre.length_le.trans hlen) (by decide)

theorem StarPair.request_filtered (p : StarPair) : Filtered p.request := by
  have hall : ∀ ix < zodiacNum, delimiter ∉ starRequestType ++ getZodiac ix ∧
      (starRequestType ++ getZodiac ix).length < 20 := by decide
  obtain ⟨hmem, hlen⟩ := hall p.zodiacIx p.zodiac_lt
  refine ⟨⟨_, hmem, rfl⟩, ?_, fun hpre => ?_⟩
  · rw [request, List.length_append, List.length_singleton]
    exact Nat.lt_trans (Nat.succ_lt_succ hlen) (by decide)
  · have hstar : starRequestType <+: p.request := by
      rw [request, List.append_assoc]
      exact List.prefix_append _ _
    exact absurd (List.prefix_of_prefix_length_le hpre hstar (by decide)) (by decide)

theorem StarVisit.lines_filtered (v : StarVisit) : ∀ line ∈ v.lines, Filtered line := by
  intro line hline
  obtain ⟨p, -, hp⟩ := List.mem_flatMap.mp hline
  rcases List.mem_cons.mp hp with rfl | hp
  · exact p.request_filtered
  · exact List.mem_singleton.mp hp ▸ p.prognosis_filtered

/-! ## One line

A line comes in reads and its denial goes out in sends, each in pieces.  A read that brings the
end of the line and more behind it makes `recv_line` fail, and the child leaves its client. -/

section Step

variable {s : ProxyState} {pos : ℕ} {buf : CharArray} {line behind bs : List Byte}
  {reads : List (List Byte)} {room : Stream' ℕ} {answers forwarded : List Byte}

theorem step_recv (pos : ℕ) (hs : s.state = stateRecvRequest) (bs : List Byte)
    (reads : List (List Byte)) (room : Stream' ℕ) (answers forwarded : List Byte) :
    (Filtering.mk (.serving s pos) (bs :: reads) room answers forwarded).step =
      some ⟨.afterRecv handleRecvRequest s pos (.bytes bs),
        unread (astrologBufLen - pos) bs reads, room, answers, forwarded⟩ := by
  rw [Filtering.step]
  simp only [hs]

theorem step_send (pos : ℕ) (hs : s.state = stateSendDenied) (reads : List (List Byte))
    (room : Stream' ℕ) (answers forwarded : List Byte) :
    (Filtering.mk (.serving s pos) reads room answers forwarded).step =
      some ⟨.afterSend handleSendReply s pos (.count (room.head + 1)), reads, room.tail,
        answers ++ (s.rest pos).take (room.head + 1), forwarded⟩ := by
  rw [Filtering.step]
  simp only [hs]

/-- **What `send_all` is given is sent**, in whatever pieces: `w` is the child with the
bytes sent so far, and a `send` adds to them. -/
theorem send_reaches (handler : ℤ → ProxyState → ProxyState)
    (w : Process → Stream' ℕ → List Byte → Filtering)
    (hstep : ∀ pos room out, (w (.serving s pos) room out).step =
      some (w (.afterSend handler s pos (.count (room.head + 1))) room.tail
        (out ++ (s.rest pos).take (room.head + 1))))
    (hpos : pos < s.len) (room : Stream' ℕ) (out : List Byte) :
    ∃ room', Reaches Filtering.step (w (.serving s pos) room out)
      (w (.resume (handler 0 s)) room' (out ++ s.rest pos)) := by
  induction hleft : s.len - pos using Nat.strong_induction_on generalizing pos room out with
  | _ left ih =>
    obtain ⟨m, hm⟩ : ∃ m, m = min (room.head + 1) (s.len - pos) := ⟨_, rfl⟩
    have hone := hstep pos room out
    have htake : (s.rest pos).take (room.head + 1) = s.buf.slice pos m := by
      rw [ProxyState.rest, CArray.take_slice, hm]
    rw [htake] at hone
    by_cases hlt : pos + m < s.len
    · rw [hm] at hlt
      rw [afterSend_more handler hlt, ← hm] at hone
      rw [← hm] at hlt
      obtain ⟨room', hreach⟩ := ih (s.len - (pos + m)) (by omega) hlt room.tail
        (out ++ s.buf.slice pos m) rfl
      have hrest : s.buf.slice pos m ++ s.rest (pos + m) = s.rest pos := by
        rw [ProxyState.rest, CArray.slice_append, ProxyState.rest]
        congr 1
        omega
      rw [List.append_assoc, hrest] at hreach
      exact ⟨room', Relation.ReflTransGen.head hone hreach⟩
    · have hall : m = s.len - pos := by omega
      rw [hm] at hlt
      rw [afterSend_done handler hlt, hall] at hone
      exact ⟨room.tail, Relation.ReflTransGen.single hone⟩

/-- **The denial is sent.** -/
theorem sendDenied_reaches (hs : s.state = stateSendDenied) (hpos : pos < s.len)
    (reads : List (List Byte)) (room : Stream' ℕ) (answers forwarded : List Byte) :
    ∃ room', Reaches Filtering.step ⟨.serving s pos, reads, room, answers, forwarded⟩
      ⟨.resume (handleSendReply 0 s), reads, room', answers ++ s.rest pos, forwarded⟩ :=
  send_reaches handleSendReply (fun p room out => ⟨p, reads, room, out, forwarded⟩)
    (fun pos room out => step_send pos hs reads room out forwarded) hpos room answers

/-- **A piece of a line**, and not its end. -/
theorem step_more (hs : s.state = stateRecvRequest) (hrecv : Receiving s.buf pos)
    (hline : IsLine delimiter line) (hfits : line.length ≤ astrologBufLen) (hbs : bs ≠ [])
    (hmore : pos + bs.length < line.length)
    (hall : s.buf.slice 0 pos ++ bs ++ reads.flatten = line ++ behind) (room : Stream' ℕ)
    (answers forwarded : List Byte) :
    Receiving (s.buf.memcpy pos bs) (pos + bs.length) ∧
      (s.buf.memcpy pos bs).slice 0 (pos + bs.length) = s.buf.slice 0 pos ++ bs ∧
      (Filtering.mk (.serving s pos) (bs :: reads) room answers forwarded).step =
        some ⟨.serving { s with buf := s.buf.memcpy pos bs } (pos + bs.length), reads, room,
          answers, forwarded⟩ := by
  have hpre : s.buf.slice 0 pos ++ bs <+: line := by
    refine List.prefix_of_prefix_length_le ⟨reads.flatten, hall⟩
      (List.prefix_append line behind) ?_
    rw [List.length_append, hrecv.length_text]
    exact Nat.le_of_lt hmore
  have hnot : delimiter ∉ s.buf.slice 0 pos ++ bs := by
    intro hmem
    obtain ⟨rest, hrest⟩ := hpre
    rw [hline.eq_nil_of_mem hrest.symm hmem, List.append_nil] at hrest
    rw [← hrest, List.length_append, hrecv.length_text] at hmore
    exact absurd hmore (Nat.lt_irrefl _)
  have hroom : pos + bs.length < astrologBufLen := Nat.lt_of_lt_of_le hmore hfits
  have htext := (hrecv.recvLine_bytes hbs (Nat.le_of_lt hroom)).2
  refine ⟨⟨hroom, htext.symm ▸ hnot⟩, htext, ?_⟩
  rw [step_recv pos hs, afterRecv_more handleRecvRequest hrecv hbs hroom hnot, unread,
    if_pos (by omega)]

/-- **The last piece of a line**, and nothing behind it. -/
theorem step_line (hs : s.state = stateRecvRequest) (hrecv : Receiving s.buf pos)
    (hline : IsLine delimiter line) (hfits : line.length ≤ astrologBufLen) (hbs : bs ≠ [])
    (hend : s.buf.slice 0 pos ++ bs = line) (reads : List (List Byte)) (room : Stream' ℕ)
    (answers forwarded : List Byte) :
    (s.buf.memcpy pos bs).slice 0 line.length = line ∧
      (Filtering.mk (.serving s pos) (bs :: reads) room answers forwarded).step =
        some ⟨.resume (handleRecvRequest line.length { s with buf := s.buf.memcpy pos bs }),
          reads, room, answers, forwarded⟩ := by
  have hlen : pos + bs.length = line.length := by
    rw [← hend, List.length_append, hrecv.length_text]
  have hroom : pos + bs.length ≤ astrologBufLen := by omega
  have htext := (hrecv.recvLine_bytes hbs hroom).2
  rw [hlen, hend] at htext
  refine ⟨htext, ?_⟩
  rw [step_recv pos hs, afterRecv_line handleRecvRequest hrecv hbs hroom (hend ▸ hline), hlen,
    unread, if_pos (by omega)]

/-- **A `recv` that brings too much** makes `recv_line` fail, as the delimiter is not at the end
of what it has got. -/
theorem afterRecv_merged (handler : ℤ → ProxyState → ProxyState) (h : Receiving s.buf pos)
    (hne : bs ≠ []) (hline : IsLine delimiter line) (hfits : line.length < astrologBufLen)
    {left : List Byte} (heq : s.buf.slice 0 pos ++ bs = line ++ left) (hleft : left ≠ []) :
    ∃ buf, Process.afterRecv handler s pos (.bytes bs) =
      .resume (handler (-1) { s with buf := buf }) := by
  have hroom := h.room
  obtain ⟨cut, hcut⟩ : ∃ cut, cut = bs.take (astrologBufLen - pos) := ⟨_, rfl⟩
  have hcutne : cut ≠ [] := by
    rw [hcut, Ne, List.take_eq_nil_iff, not_or]
    exact ⟨by omega, hne⟩
  have hlen : pos + cut.length ≤ astrologBufLen := by
    rw [hcut, List.length_take]
    omega
  -- the part that there is room for is still too much
  have htext : s.buf.slice 0 pos ++ cut = line ++ left.take (astrologBufLen - line.length) := by
    have htake := congrArg (List.take astrologBufLen) heq
    rwa [List.take_append, List.take_append, List.take_of_length_le (Nat.le_of_lt hfits),
      h.length_text, ← hcut, List.take_of_length_le (by rw [h.length_text]; omega)] at htake
  have hmore : left.take (astrologBufLen - line.length) ≠ [] := by
    rw [Ne, List.take_eq_nil_iff, not_or]
    exact ⟨by omega, hleft⟩
  refine ⟨s.buf.memcpy pos cut, ?_⟩
  rw [Process.afterRecv, ← recvLine_take, ← hcut, (h.recvLine_bytes hcutne hlen).1, htext,
    lineRet_of_append hline hmore]

/-- **A line is received**, in whatever pieces: it is handled when the last of them brings
nothing more, and else the client is left. -/
theorem receives (h : Filtered line) (hs : s.state = stateRecvRequest)
    (hrecv : Receiving s.buf pos) (hlt : pos < line.length) (hne : [] ∉ reads)
    (hall : s.buf.slice 0 pos ++ reads.flatten = line ++ behind) (room : Stream' ℕ)
    (answers forwarded : List Byte) :
    ∃ left reads', Completes (s.buf.slice 0 pos) reads line left reads' ∧
      behind = left ++ reads'.flatten ∧
      (left = [] → ∃ buf : CharArray, buf.slice 0 line.length = line ∧
        Reaches Filtering.step ⟨.serving s pos, reads, room, answers, forwarded⟩
          ⟨.resume (handleRecvRequest line.length { s with buf := buf }), reads', room,
            answers, forwarded⟩) ∧
      (left ≠ [] → ∃ reads'',
        Reaches Filtering.step ⟨.serving s pos, reads, room, answers, forwarded⟩
          ⟨.accepting, reads'', room, answers, forwarded⟩) := by
  induction reads generalizing s pos with
  | nil =>
    have hlen := congrArg List.length hall
    rw [List.flatten_nil, List.append_nil, hrecv.length_text, List.length_append] at hlen
    omega
  | cons bs reads ih =>
    have hbs : bs ≠ [] := fun hnil => hne (hnil ▸ List.mem_cons_self)
    rw [List.flatten_cons, ← List.append_assoc] at hall
    have htextlt : (s.buf.slice 0 pos).length < line.length := by rwa [hrecv.length_text]
    by_cases hmore : pos + bs.length < line.length
    · -- the line goes on
      obtain ⟨hnext, htext, hstep⟩ := step_more hs hrecv h.isLine (Nat.le_of_lt h.fits) hbs
        hmore hall room answers forwarded
      rw [← htext] at hall
      obtain ⟨left, reads', hmade, hbehind, hline, hmerged⟩ :=
        ih (s := { s with buf := s.buf.memcpy pos bs }) hs hnext hmore
          (fun hmem => hne (List.mem_cons_of_mem bs hmem)) hall
      rw [htext] at hmade
      refine ⟨left, reads', hmade.cons htextlt, hbehind, fun hleft => ?_, fun hleft => ?_⟩
      · obtain ⟨buf, hbuf, hreach⟩ := hline hleft
        exact ⟨buf, hbuf, Relation.ReflTransGen.head hstep hreach⟩
      · obtain ⟨reads'', hreach⟩ := hmerged hleft
        exact ⟨reads'', Relation.ReflTransGen.head hstep hreach⟩
    · -- the read brings the end of the line
      obtain ⟨left, hleft⟩ : line <+: s.buf.slice 0 pos ++ bs := by
        refine List.prefix_of_prefix_length_le (List.prefix_append line behind)
          ⟨reads.flatten, hall⟩ ?_
        rw [List.length_append, hrecv.length_text]
        exact Nat.not_lt.mp hmore
      have hbehind : behind = left ++ reads.flatten := by
        rw [← hleft, List.append_assoc] at hall
        exact (List.append_cancel_left hall).symm
      refine ⟨left, reads, .last htextlt hleft.symm, hbehind, ?_, fun hne => ?_⟩
      · rintro rfl
        rw [List.append_nil] at hleft
        obtain ⟨htext, hstep⟩ := step_line hs hrecv h.isLine (Nat.le_of_lt h.fits) hbs
          hleft.symm reads room answers forwarded
        exact ⟨_, htext, Relation.ReflTransGen.single hstep⟩
      · obtain ⟨buf, hmerged⟩ :=
          afterRecv_merged handleRecvRequest hrecv hbs h.isLine h.fits hleft.symm hne
        have hstep := step_recv pos hs bs reads room answers forwarded
        rw [hmerged] at hstep
        exact ⟨_, Relation.ReflTransGen.single hstep⟩

/-- **A line is denied**, or the client is left. -/
theorem answers_line (h : Filtered line) (hne : [] ∉ reads)
    (hall : reads.flatten = line ++ behind) (buf : CharArray) (room : Stream' ℕ)
    (answers forwarded : List Byte) :
    ∃ left reads', Completes [] reads line left reads' ∧ behind = left ++ reads'.flatten ∧
      (left = [] → ∃ buf' room', Reaches Filtering.step
        ⟨.serving ⟨buf, 0, stateRecvRequest⟩ 0, reads, room, answers, forwarded⟩
        ⟨.serving ⟨buf', 0, stateRecvRequest⟩ 0, reads', room', answers ++ starReplyFailure,
          forwarded⟩) ∧
      (left ≠ [] → ∃ reads'', Reaches Filtering.step
        ⟨.serving ⟨buf, 0, stateRecvRequest⟩ 0, reads, room, answers, forwarded⟩
        ⟨.accepting, reads'', room, answers, forwarded⟩) := by
  have hpos : 0 < line.length := List.length_pos_iff.mpr h.isLine.ne_nil
  obtain ⟨left, reads', hmade, hbehind, hline, hmerged⟩ :=
    receives (s := ⟨buf, 0, stateRecvRequest⟩) h rfl (receiving_zero buf) hpos hne hall room
      answers forwarded
  refine ⟨left, reads', hmade, hbehind, fun hleft => ?_, hmerged⟩
  obtain ⟨buf', hbuf', hreach⟩ := hline hleft
  obtain ⟨denial, hdenial, hres⟩ := handleRecvRequest_filtered
    (s := ⟨buf', 0, stateRecvRequest⟩) (Nat.le_of_lt h.fits) (hbuf'.symm ▸ h.isLine)
    (hbuf'.symm ▸ h.other)
  obtain ⟨room', hsend⟩ := sendDenied_reaches
    (s := ⟨denial, starReplyFailure.length, stateSendDenied⟩) rfl
    (show 0 < starReplyFailure.length by decide) reads' room answers forwarded
  have hrest : ProxyState.rest ⟨denial, starReplyFailure.length, stateSendDenied⟩ 0 =
      starReplyFailure := hdenial
  rw [hrest] at hsend
  rw [hres] at hreach
  exact ⟨_, room', hreach.trans hsend⟩

end Step

/-! ## The whole visit

By induction on the lines: each is denied, until one is left. -/

/-- **Filtered lines**, one after the other: each is denied, up to the first one that comes with
bytes behind its end.  By induction on the lines. -/
theorem answers_lines {lines : List (List Byte)} (h : ∀ line ∈ lines, Filtered line)
    {reads : List (List Byte)} (hne : [] ∉ reads) (hall : reads.flatten = lines.flatten)
    (buf : CharArray) (room : Stream' ℕ) (answers forwarded : List Byte) :
    ∃ w ∈ eval Filtering.step
        ⟨.serving ⟨buf, 0, stateRecvRequest⟩ 0, reads, room, answers, forwarded⟩,
      ∃ k, w.forwarded = forwarded ∧
        w.answers = answers ++ (List.replicate k starReplyFailure).flatten ∧
        (∀ i ≤ k, EndsAt lines reads i) ∧
        (k = lines.length ∧ w.Usable ∨ ¬ EndsAt lines reads (k + 1) ∧ w.child = .accepting) := by
  induction lines generalizing reads buf room answers with
  | nil =>
    have hreads : reads = [] := by
      cases reads with
      | nil => rfl
      | cons bs reads =>
        rw [List.flatten_nil, List.flatten_cons] at hall
        exact absurd ((List.append_eq_nil_iff.mp hall).1 ▸ List.mem_cons_self) hne
    subst hreads
    refine ⟨_, mem_eval.mpr ⟨Relation.ReflTransGen.refl, rfl⟩, 0, rfl,
      (List.append_nil answers).symm, fun i hi => ?_, .inl ⟨rfl, rfl, buf, rfl⟩⟩
    exact Nat.le_zero.mp hi ▸ endsAt_zero _ _
  | cons line lines ih =>
    obtain ⟨left, reads', hmade, hbehind, hdenied, hmerged⟩ :=
      answers_line (h line List.mem_cons_self) hne hall buf room answers forwarded
    by_cases hleft : left = []
    · obtain ⟨buf', room', hreach⟩ := hdenied hleft
      subst hleft
      have hne' : [] ∉ reads' := by
        obtain ⟨made, hreads, -⟩ := hmade
        exact fun hmem => hne (hreads ▸ List.mem_append_right made hmem)
      obtain ⟨w, hw, k, hforwarded, hanswers, hends, hlast⟩ :=
        ih (fun l hl => h l (List.mem_cons_of_mem line hl)) hne' hbehind.symm buf' room'
          (answers ++ starReplyFailure)
      refine ⟨w, reaches_eval hreach ▸ hw, k + 1, hforwarded, ?_, fun i hi => ?_, ?_⟩
      · rw [hanswers, List.replicate_succ, List.flatten_cons, List.append_assoc]
      · cases i with
        | zero => exact endsAt_zero _ _
        | succ i => exact (endsAt_succ_iff hmade i).mpr (hends i (Nat.le_of_succ_le_succ hi))
      · rcases hlast with ⟨hk, husable⟩ | ⟨hk, hchild⟩
        · exact .inl ⟨congrArg Nat.succ hk, husable⟩
        · exact .inr ⟨fun hends => hk ((endsAt_succ_iff hmade (k + 1)).mp hends), hchild⟩
    · obtain ⟨reads'', hreach⟩ := hmerged hleft
      refine ⟨_, mem_eval.mpr ⟨hreach, rfl⟩, 0, rfl, (List.append_nil answers).symm,
        fun i hi => ?_, .inr ⟨fun hends => hleft ((endsAt_one_iff hmade).mp hends), rfl⟩⟩
      exact Nat.le_zero.mp hi ▸ endsAt_zero _ _

/-- **What a star client gets from the proxy.**  Each line is denied, up to the first line
whose end is not the end of a `recv`.  If there is none, then the child waits for the next
request line; else it leaves the client.  Nothing is forwarded, and every reply that
`star_client_all` reads is a denial. -/
theorem StarVisit.denied (v : StarVisit) :
    ∃ w ∈ eval Filtering.step v.start, ∃ k,
      w.forwarded = [] ∧ w.answers = (List.replicate k starReplyFailure).flatten ∧
        (∀ i ≤ k, EndsAt v.lines v.reads i) ∧
        (k = v.lines.length ∧ w.Usable ∨
          k + 1 < v.lines.length ∧ ¬ EndsAt v.lines v.reads (k + 1) ∧ w.child = .accepting) ∧
        ∀ (buf : CharArray) (replies : List (List Byte)), replies.flatten <+: w.answers →
          ∀ reply ∈ starClientAll buf zodiacNum replies, reply = starReplyFailure := by
  obtain ⟨w, hw, k, hforwarded, hanswers, hends, hlast⟩ :=
    answers_lines v.lines_filtered v.nonempty v.cut (v.buf.poke astrologBufLen 0) v.room [] []
  rw [List.nil_append] at hanswers
  refine ⟨w, hw, k, hforwarded, hanswers, hends, ?_, fun buf replies hpre => ?_⟩
  · rcases hlast with husable | ⟨hnot, hchild⟩
    · exact .inl husable
    · refine .inr ⟨Nat.lt_of_not_le fun hle => hnot ⟨v.reads.length, ?_⟩, hnot, hchild⟩
      -- the end of the last line is the end of all reads
      rw [List.take_length, List.take_of_length_le hle]
      exact v.cut
  · rw [hanswers] at hpre
    exact eq_of_mem_starClientAll hpre

/-! ## A pair that is denied twice -/

def samplePair : StarPair := ⟨0, by decide, 42, by decide⟩

/-- Each line comes in a `recv` of its own. -/
def sampleVisit : StarVisit where
  buf := .replicate _ 0
  pairs := [samplePair]
  reads := [str "STARS SAY Aries\n", str "42\n"]
  room := fun _ => 79
  nonempty := by decide
  cut := by decide

theorem sampleVisit_denied_twice :
    ∃ w ∈ eval Filtering.step sampleVisit.start,
      w.answers = str "DENIED!\nDENIED!\n" := by
  have hhalted : (Filtering.step (Halting.run Filtering.step 4 sampleVisit.start)).isNone := by
    decide
  exact ⟨_, Halting.run_mem_eval (Option.isNone_iff_eq_none.mp hhalted), by decide⟩

theorem sampleVisit_not_once :
    ¬ ∀ (v : StarVisit) (p : StarPair), v.pairs = [p] →
      ∃ w ∈ eval Filtering.step v.start,
        w.answers = starReplyFailure ∧ w.forwarded = [] ∧ w.Usable := by
  intro h
  obtain ⟨w, hw, honce, -⟩ := h sampleVisit samplePair rfl
  obtain ⟨w', hw', htwice⟩ := sampleVisit_denied_twice
  rw [Part.mem_unique hw hw', htwice] at honce
  exact absurd honce (by decide)

end Astrologer.Proxy
