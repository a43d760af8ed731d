import Astrologer.Generic

/-!
# `recv_line`

The proxy and the clients read a line without a buffer of their own: `recv_line` asks for as
much as there is room for, and looks for the delimiter in what it gets.  A line must not come
together with a part of the next one, because there is no place to keep that.

One round of the loop is `recvLineRound`.  What is in front of the newest chunk holds no
delimiter and does not fill the array, so the chunk alone decides (`lineRetIn`), and the next
`recv` asks for at least one byte.  A round that goes on has received at least one byte, so
there are no more than `n` of them.

`recvLine` keeps a record of what was asked and what came, and `recvLine_iff` reads each return
value off the record.
-/

namespace Astrologer.Generic

open Lines

variable {m : ℕ}

/-- One round of `recv_line(fd, buf, n, flags)`: the return value, if it returns, the array,
and the distance. -/
def recvLineRound (buf : CArray Byte m) (pos n : ℕ) : RecvResult → Option ℤ × CArray Byte m × ℕ
  | .error => (some (-1), buf, pos)
  | .bytes bs =>
    let bytes := bs.take (n - pos)
    if bytes = [] then (some 0, buf, pos)
    else
      let buf := buf.memcpy pos bytes
      let pos := pos + bytes.length
      match memchr (buf.slice (pos - bytes.length) bytes.length) delimiter with
      | some del =>
        if pos - bytes.length + del ≠ pos - 1 then (some (-1), buf, pos)
        else (some pos, buf, pos)
      | none => if pos = n then (some (-1), buf, pos) else (none, buf, pos)

/-- What `recv` returns when it is asked for `n` bytes. -/
def upTo (n : ℕ) : RecvResult → RecvResult
  | .error => .error
  | .bytes bs => .bytes (bs.take n)

/-- A call of `recv`, and its answer. -/
structure RecvAsk where
  asked : ℕ
  got : RecvResult

/-- What `recv_line` leaves: the return value, the array, and the calls it has made. -/
structure LineReceived (m : ℕ) where
  ret : ℤ
  buf : CArray Byte m
  asks : List RecvAsk

/-- The loop of `recv_line`. -/
def recvLineLoop (n : ℕ) : ℕ → Stream' RecvResult → CArray Byte m → ℕ → Option (LineReceived m)
  | 0, _, _, _ => none
  | fuel + 1, recvs, buf, pos =>
    let ask : RecvAsk := ⟨n - pos, upTo (n - pos) recvs.head⟩
    let r := recvLineRound buf pos n recvs.head
    match r.1 with
    | some ret => some ⟨ret, r.2.1, [ask]⟩
    | none =>
      (recvLineLoop n fuel recvs.tail r.2.1 r.2.2).map fun t => { t with asks := ask :: t.asks }

def recvLine (n : ℕ) (recvs : Stream' RecvResult) (buf : CArray Byte m) : Option (LineReceived m) :=
  recvLineLoop n n recvs buf 0

/-- The bytes that came with a call. -/
def RecvAsk.received (a : RecvAsk) : List Byte :=
  match a.got with
  | .error => []
  | .bytes bs => bs

/-- The calls ask for what there is still room for, and the kernel answers. -/
def Answers (n : ℕ) : Stream' RecvResult → ℕ → List RecvAsk → Prop
  | _, _, [] => True
  | recvs, pos, a :: asks =>
    a.asked = n - pos ∧ a.got = upTo (n - pos) recvs.head ∧
      Answers n recvs.tail (pos + a.received.length) asks

/-! ## One round -/

/-- What `recv_line` makes of the bytes in an array of `n`: a line that is all there is, too
much, or a line that does not fit. -/
def lineRetIn (n : ℕ) (text : List Byte) : Option ℤ :=
  if delimiter ∈ text then
    if takeLine delimiter text = text then some text.length else some (-1)
  else if text.length = n then some (-1)
  else none

/-- **The newest chunk decides**, because there is no delimiter in front of it: the round returns
what the text with the chunk is worth, and the array has both. -/
theorem recvLineRound_bytes {buf : CArray Byte m} {pos n : ℕ} {bs : List Byte} (hroom : pos < n)
    (hfit : n ≤ m) (hnot : delimiter ∉ buf.slice 0 pos) (hne : bs ≠ []) (hlen : pos + bs.length ≤ n) :
    recvLineRound buf pos n (.bytes bs) =
        (lineRetIn n (buf.slice 0 pos ++ bs), buf.memcpy pos bs, pos + bs.length) ∧
      (buf.memcpy pos bs).slice 0 (pos + bs.length) = buf.slice 0 pos ++ bs := by
  have hin : pos + bs.length ≤ m := Nat.le_trans hlen hfit
  have htext : (buf.slice 0 pos).length = pos := by
    rw [CArray.length_slice]
    omega
  refine ⟨?_, buf.slice_memcpy pos bs hin⟩
  have htake : bs.take (n - pos) = bs := List.take_of_length_le (by omega)
  have hpos : 0 < bs.length := List.length_pos_iff.mpr hne
  rw [recvLineRound]
  simp only [htake, if_neg hne, Nat.add_sub_cancel, buf.slice_memcpy_self pos bs hin]
  rw [lineRetIn, List.length_append, htext]
  by_cases hmem : delimiter ∈ bs
  · rw [memchr, findIdx_eq_length hmem,
      if_pos (List.mem_append_right (buf.slice 0 pos) hmem),
      takeLine_append_of_notMem hnot]
    have hline := length_takeLine_le delimiter bs
    have hlt : 0 < (takeLine delimiter bs).length :=
      List.length_pos_iff.mpr (takeLine_ne_nil hne)
    by_cases heq : takeLine delimiter bs = bs
    · rw [heq, if_pos rfl]
      exact if_neg (not_not.mpr (by omega))
    · have hshort : (takeLine delimiter bs).length ≠ bs.length := by
        intro hl
        rw [takeLine_eq_take, hl, List.take_length] at heq
        exact heq rfl
      have happ : ¬ buf.slice 0 pos ++ takeLine delimiter bs = buf.slice 0 pos ++ bs :=
        fun happ => heq (List.append_cancel_left happ)
      rw [if_neg happ]
      exact if_pos (by omega)
  · have hnone : memchr bs delimiter = none := by
      rw [memchr, List.findIdx?_eq_none_iff]
      intro x hx
      simpa using fun hxd : x = delimiter => hmem (hxd ▸ hx)
    have hall : delimiter ∉ buf.slice 0 pos ++ bs := by
      rw [List.mem_append, not_or]
      exact ⟨hnot, hmem⟩
    rw [hnone, if_neg hall]
    simp only
    split <;> rfl

/-- A `recv` has room for what does not fill the array. -/
theorem recvLineRound_upTo (buf : CArray Byte m) (pos n : ℕ) (r : RecvResult) :
    recvLineRound buf pos n (upTo (n - pos) r) = recvLineRound buf pos n r := by
  cases r with
  | error => rfl
  | bytes bs => rw [upTo, recvLineRound, recvLineRound, List.take_take, Nat.min_self]

/-! ## The loop -/

/-- How `recv_line` ends, by what it had and what came last: the five ways out of its loop, each
with the value that it returns. -/
inductive LineEnd (n : ℕ) (text : List Byte) : RecvResult → ℤ → Prop
  | failed : LineEnd n text .error (-1)
  | ended : LineEnd n text (.bytes []) 0
  | line {bs : List Byte} (h : IsLine delimiter (text ++ bs)) :
      LineEnd n text (.bytes bs) (text ++ bs).length
  | behind {bs : List Byte} (hmem : delimiter ∈ bs) (hmore : takeLine delimiter bs ≠ bs) :
      LineEnd n text (.bytes bs) (-1)
  | full {bs : List Byte} (hne : bs ≠ []) (hnot : delimiter ∉ bs) (hn : (text ++ bs).length = n) :
      LineEnd n text (.bytes bs) (-1)

/-- The calls of a loop: all but the last have brought something, no delimiter has been received
before the last, and the array has what was received.  This is the loop's invariant, read at its
end. -/
structure Received (n : ℕ) (recvs : Stream' RecvResult) (pos : ℕ) (text : List Byte)
    (r : LineReceived m) : Prop where
  answers : Answers n recvs pos r.asks
  asked : ∀ a ∈ r.asks, 0 < a.asked
  split : ∃ init last, r.asks = init ++ [last] ∧
    (∀ a ∈ init, ∃ bs, a.got = .bytes bs ∧ bs ≠ []) ∧
    delimiter ∉ text ++ init.flatMap RecvAsk.received ∧
    (text ++ init.flatMap RecvAsk.received).length < n ∧
    LineEnd n (text ++ init.flatMap RecvAsk.received) last.got r.ret
  buf : r.buf.slice 0 (text ++ r.asks.flatMap RecvAsk.received).length =
    text ++ r.asks.flatMap RecvAsk.received
  fits : (text ++ r.asks.flatMap RecvAsk.received).length ≤ n

section Rounds

variable {n pos : ℕ} {recvs : Stream' RecvResult} {buf : CArray Byte m} {text bs : List Byte}

/-- The last call. -/
theorem Received.single (hlen : text.length = pos) (hroom : pos < n) (hnot : delimiter ∉ text)
    {ret : ℤ} (hend : LineEnd n text (upTo (n - pos) recvs.head) ret)
    (hbuf : buf.slice 0 (text ++ RecvAsk.received ⟨n - pos, upTo (n - pos) recvs.head⟩).length =
      text ++ RecvAsk.received ⟨n - pos, upTo (n - pos) recvs.head⟩)
    (hfits : (text ++ RecvAsk.received ⟨n - pos, upTo (n - pos) recvs.head⟩).length ≤ n) :
    Received n recvs pos text ⟨ret, buf, [⟨n - pos, upTo (n - pos) recvs.head⟩]⟩ := by
  have hone : ∀ a : RecvAsk, [a].flatMap RecvAsk.received = a.received := fun a => by
    rw [List.flatMap_cons, List.flatMap_nil, List.append_nil]
  have hnil : text ++ ([] : List RecvAsk).flatMap RecvAsk.received = text := List.append_nil text
  refine ⟨⟨rfl, rfl, trivial⟩, fun a ha => ?_, ⟨[], _, rfl, fun _ ha => absurd ha List.not_mem_nil,
    ?_, ?_, ?_⟩, ?_, ?_⟩
  · rw [List.mem_singleton.mp ha]
    exact Nat.sub_pos_of_lt hroom
  · rw [hnil]
    exact hnot
  · rw [hnil, hlen]
    exact hroom
  · rw [hnil]
    exact hend
  · rw [hone]
    exact hbuf
  · rw [hone]
    exact hfits

/-- A call before the others. -/
theorem Received.cons {r : LineReceived m}
    (h : Received n recvs.tail (pos + bs.length) (text ++ bs) r)
    (hgot : upTo (n - pos) recvs.head = .bytes bs) (hroom : pos < n) (hne : bs ≠ []) :
    Received n recvs pos text { r with asks := ⟨n - pos, .bytes bs⟩ :: r.asks } := by
  have hjoin : ∀ asks : List RecvAsk,
      text ++ (⟨n - pos, .bytes bs⟩ :: asks).flatMap RecvAsk.received =
        text ++ bs ++ asks.flatMap RecvAsk.received := by
    intro asks
    rw [List.append_assoc]
    rfl
  obtain ⟨init, last, hasks, hinit, hnot, hlt, hend⟩ := h.split
  refine ⟨⟨rfl, hgot.symm, h.answers⟩, fun a ha => ?_,
    ⟨⟨n - pos, .bytes bs⟩ :: init, last, congrArg (_ :: ·) hasks, fun a ha => ?_, ?_, ?_, ?_⟩,
    ?_, ?_⟩
  · rcases List.mem_cons.mp ha with rfl | ha
    · exact Nat.sub_pos_of_lt hroom
    · exact h.asked a ha
  · rcases List.mem_cons.mp ha with rfl | ha
    · exact ⟨bs, rfl, hne⟩
    · exact hinit a ha
  · rw [hjoin]
    exact hnot
  · rw [hjoin]
    exact hlt
  · rw [hjoin]
    exact hend
  · rw [hjoin]
    exact h.buf
  · rw [hjoin]
    exact h.fits

/-- The value returned for a text says how the text ends. -/
theorem lineEnd_of_lineRetIn (hnot : delimiter ∉ text) (hne : bs ≠ []) {ret : ℤ}
    (hret : lineRetIn n (text ++ bs) = some ret) : LineEnd n text (.bytes bs) ret := by
  rw [lineRetIn] at hret
  split at hret
  next hmem =>
    split at hret
    next htake =>
      cases hret
      exact .line (isLine_iff.mpr ⟨hmem, htake⟩)
    next htake =>
      cases hret
      refine .behind ((List.mem_append.mp hmem).resolve_left hnot) fun heq => htake ?_
      rw [takeLine_append_of_notMem hnot, heq]
  next hmem =>
    split at hret
    next hn =>
      cases hret
      exact .full hne (fun h => hmem (List.mem_append_right _ h)) hn
    next => cases hret

theorem lineRetIn_eq_none {text : List Byte} (h : lineRetIn n text = none) :
    delimiter ∉ text ∧ text.length ≠ n := by
  rw [lineRetIn] at h
  split at h
  next => split at h <;> cases h
  next hmem =>
    split at h
    next => cases h
    next hlen => exact ⟨hmem, hlen⟩

variable (recvs) in
/-- **A round** is the last one, or it has received a part of the line, there is room for more,
and the next round begins with the text behind it. -/
theorem recvLineRound_cases (hfit : n ≤ m) (hroom : pos < n) (hnot : delimiter ∉ buf.slice 0 pos) :
    (∃ ret buf' pos', recvLineRound buf pos n recvs.head = (some ret, buf', pos') ∧
      Received n recvs pos (buf.slice 0 pos)
        ⟨ret, buf', [⟨n - pos, upTo (n - pos) recvs.head⟩]⟩) ∨
    ∃ bs, upTo (n - pos) recvs.head = .bytes bs ∧ bs ≠ [] ∧ pos + bs.length < n ∧
      recvLineRound buf pos n recvs.head = (none, buf.memcpy pos bs, pos + bs.length) ∧
      (buf.memcpy pos bs).slice 0 (pos + bs.length) = buf.slice 0 pos ++ bs ∧
      delimiter ∉ buf.slice 0 pos ++ bs := by
  have htext : (buf.slice 0 pos).length = pos := by
    rw [CArray.length_slice]
    omega
  have hsame : buf.slice 0 (buf.slice 0 pos ++ []).length = buf.slice 0 pos ++ [] ∧
      (buf.slice 0 pos ++ []).length ≤ n := by
    rw [List.append_nil, htext]
    exact ⟨rfl, Nat.le_of_lt hroom⟩
  rw [← recvLineRound_upTo]
  cases hgot : upTo (n - pos) recvs.head with
  | error =>
    refine Or.inl ⟨-1, buf, pos, rfl, ?_⟩
    rw [← hgot]
    refine .single htext hroom hnot ?_ ?_ ?_ <;> rw [hgot]
    · exact .failed
    · exact hsame.1
    · exact hsame.2
  | bytes bs =>
    have hlen : bs.length ≤ n - pos := by
      cases hhead : recvs.head with
      | error =>
        rw [hhead] at hgot
        cases hgot
      | bytes all =>
        rw [hhead] at hgot
        cases hgot
        exact List.length_take_le _ _
    by_cases hnil : bs = []
    · subst hnil
      have hround : recvLineRound buf pos n (.bytes []) = (some 0, buf, pos) := by
        rw [recvLineRound, List.take_nil]
        exact if_pos rfl
      refine Or.inl ⟨0, buf, pos, hround, ?_⟩
      rw [← hgot]
      refine .single htext hroom hnot ?_ ?_ ?_ <;> rw [hgot]
      · exact .ended
      · exact hsame.1
      · exact hsame.2
    · obtain ⟨hround, hslice⟩ := recvLineRound_bytes hroom hfit hnot hnil (by omega)
      have hwhole : (buf.slice 0 pos ++ bs).length = pos + bs.length := by
        rw [List.length_append, htext]
      cases hret : lineRetIn n (buf.slice 0 pos ++ bs) with
      | some ret =>
        rw [hret] at hround
        refine Or.inl ⟨ret, buf.memcpy pos bs, _, hround, ?_⟩
        rw [← hgot]
        refine .single htext hroom hnot ?_ ?_ ?_ <;> rw [hgot]
        · exact lineEnd_of_lineRetIn hnot hnil hret
        · show (buf.memcpy pos bs).slice 0 (buf.slice 0 pos ++ bs).length = buf.slice 0 pos ++ bs
          rw [hwhole, hslice]
        · show (buf.slice 0 pos ++ bs).length ≤ n
          omega
      | none =>
        rw [hret] at hround
        obtain ⟨hmem, hne⟩ := lineRetIn_eq_none hret
        exact Or.inr ⟨bs, rfl, hnil, by omega, hround, hslice, hmem⟩

variable (recvs) in
/-- **The loop ends**, with as many rounds as there is room: each round that is not the last one
has received a byte.  By induction on the fuel. -/
theorem recvLineLoop_received (hfit : n ≤ m) {fuel : ℕ} (hroom : pos < n)
    (hfuel : n ≤ pos + fuel) (hnot : delimiter ∉ buf.slice 0 pos) :
    ∃ r, recvLineLoop n fuel recvs buf pos = some r ∧ Received n recvs pos (buf.slice 0 pos) r := by
  induction fuel generalizing recvs buf pos with
  | zero => omega
  | succ fuel ih =>
    rw [recvLineLoop]
    rcases recvLineRound_cases recvs hfit hroom hnot with
      ⟨ret, buf', pos', hround, hrec⟩ | ⟨bs, hgot, hne, hlt, hround, hslice, hmem⟩
    · rw [hround]
      exact ⟨_, rfl, hrec⟩
    · have hpos := List.length_pos_iff.mpr hne
      rw [← hslice] at hmem
      obtain ⟨r, hr, hrec⟩ := ih recvs.tail hlt (by omega) hmem
      rw [hslice] at hrec
      refine ⟨{ r with asks := ⟨n - pos, .bytes bs⟩ :: r.asks }, ?_, hrec.cons hgot hroom hne⟩
      rw [hround, hgot]
      show (recvLineLoop n fuel recvs.tail (buf.memcpy pos bs) (pos + bs.length)).map _ = _
      rw [hr]
      rfl

end Rounds

/-- The bytes received. -/
def LineReceived.text (r : LineReceived m) : List Byte := r.asks.flatMap RecvAsk.received

/-- A chunk holds bytes behind its first delimiter. -/
def RecvAsk.Overruns (a : RecvAsk) : Prop :=
  delimiter ∈ a.received ∧ takeLine delimiter a.received ≠ a.received

/-- Which calls were made, by the return value: the three results are told apart by what was asked
and received, and each is characterised by an equivalence. -/
structure Verdict (n : ℕ) (asks : List RecvAsk) (text : List Byte) (ret : ℤ) : Prop where
  line : 0 < ret ↔ IsLine delimiter text
  length : 0 < ret → ret = text.length
  ended : ret = 0 ↔ (∃ a ∈ asks, a.got = .bytes []) ∧ delimiter ∉ text ∧ text.length < n
  failed : ret = -1 ↔ (∃ a ∈ asks, a.got = .error) ∨ (text.length = n ∧ delimiter ∉ text) ∨
    ∃ a ∈ asks, a.Overruns
  least : -1 ≤ ret

/-- The last call decides. -/
theorem LineEnd.verdict {n asked : ℕ} {before : List Byte} {got : RecvResult} {ret : ℤ}
    (h : LineEnd n before got ret) (hnot : delimiter ∉ before) (hlt : before.length < n) :
    Verdict n [⟨asked, got⟩] (before ++ RecvAsk.received ⟨asked, got⟩) ret := by
  have hline : ∀ {bs : List Byte}, IsLine delimiter (before ++ bs) →
      delimiter ∈ bs ∧ takeLine delimiter bs = bs := by
    intro bs hline
    obtain ⟨hmem, htake⟩ := isLine_iff.mp hline
    rw [takeLine_append_of_notMem hnot] at htake
    exact ⟨(List.mem_append.mp hmem).resolve_left hnot, List.append_cancel_left htake⟩
  cases h with
  | failed =>
    rw [show RecvAsk.received ⟨asked, .error⟩ = [] from rfl, List.append_nil]
    refine ⟨iff_of_false (by decide) fun h => hnot h.mem, (fun h => absurd h (by decide)),
      iff_of_false (by decide) fun h => ?_, iff_of_true rfl (Or.inl ⟨_, List.mem_singleton_self _, rfl⟩),
      Int.le_refl _⟩
    simp at h
  | ended =>
    rw [show RecvAsk.received ⟨asked, .bytes []⟩ = [] from rfl, List.append_nil]
    refine ⟨iff_of_false (by decide) fun h => hnot h.mem, (fun h => absurd h (by decide)),
      iff_of_true rfl ⟨⟨_, List.mem_singleton_self _, rfl⟩, hnot, hlt⟩,
      iff_of_false (by decide) fun h => ?_, by decide⟩
    rcases h with h | ⟨h, -⟩ | ⟨a, ha, hover⟩
    · simp at h
    · omega
    · rw [List.mem_singleton.mp ha] at hover
      exact absurd hover.1 List.not_mem_nil
  | @line bs hl =>
    obtain ⟨hmem, htake⟩ := hline hl
    have hpos : (0 : ℤ) < (before ++ bs).length :=
      Int.natCast_pos.mpr (List.length_pos_iff.mpr hl.ne_nil)
    refine ⟨iff_of_true hpos hl, fun _ => rfl, iff_of_false (by omega) fun h => h.2.1 hl.mem,
      iff_of_false (by omega) fun h => ?_, by omega⟩
    rcases h with h | ⟨-, h⟩ | ⟨a, ha, hover⟩
    · simp at h
    · exact h hl.mem
    · rw [List.mem_singleton.mp ha] at hover
      exact hover.2 htake
  | @behind bs hmem hmore =>
    refine ⟨iff_of_false (by decide) fun h => hmore (hline h).2, (fun h => absurd h (by decide)),
      iff_of_false (by decide) fun h => h.2.1 (List.mem_append_right _ hmem),
      iff_of_true rfl (Or.inr (Or.inr ⟨_, List.mem_singleton_self _, hmem, hmore⟩)),
      Int.le_refl _⟩
  | @full bs hne hmem hn =>
    have hall : delimiter ∉ before ++ bs := by
      rw [List.mem_append, not_or]
      exact ⟨hnot, hmem⟩
    refine ⟨iff_of_false (by decide) fun h => hall h.mem, (fun h => absurd h (by decide)),
      iff_of_false (by decide) fun h => ?_, iff_of_true rfl (Or.inr (Or.inl ⟨hn, hall⟩)),
      Int.le_refl _⟩
    exact absurd hn (Nat.ne_of_lt h.2.2)

/-- The calls before the last have brought bytes of the line, and decide nothing. -/
theorem Verdict.append {n : ℕ} {init : List RecvAsk} {last : RecvAsk} {text : List Byte} {ret : ℤ}
    (h : Verdict n [last] text ret) (hinit : ∀ a ∈ init, ∃ bs, a.got = .bytes bs ∧ bs ≠ [])
    (hnot : delimiter ∉ init.flatMap RecvAsk.received) : Verdict n (init ++ [last]) text ret := by
  have hquiet : ∀ {P : RecvAsk → Prop}, (∀ a ∈ init, ¬ P a) →
      ((∃ a ∈ init ++ [last], P a) ↔ ∃ a ∈ [last], P a) := by
    intro P hP
    constructor
    · rintro ⟨a, ha, hpa⟩
      exact ⟨a, (List.mem_append.mp ha).resolve_left fun ha => hP a ha hpa, hpa⟩
    · rintro ⟨a, ha, hpa⟩
      exact ⟨a, List.mem_append_right _ ha, hpa⟩
  have hended := hquiet (P := fun a => a.got = .bytes []) fun a ha hnil => by
    obtain ⟨bs, hgot, hne⟩ := hinit a ha
    rw [hgot] at hnil
    exact hne (RecvResult.bytes.inj hnil)
  have herror := hquiet (P := fun a => a.got = .error) fun a ha herr => by
    obtain ⟨bs, hgot, -⟩ := hinit a ha
    rw [hgot] at herr
    cases herr
  have hover := hquiet (P := RecvAsk.Overruns) fun a ha hover =>
    hnot (List.mem_flatMap.mpr ⟨a, ha, hover.1⟩)
  refine ⟨h.line, h.length, ?_, ?_, h.least⟩
  · rw [hended]
    exact h.ended
  · rw [herror, hover]
    exact h.failed

/-- **`recv_line`.**  It returns, after calls that ask for at least one byte each.  What it
returns is a matter of what the calls have brought: the length of a line that is all of it, `0`
at the end of the stream, `-1` in every other case; and the bytes are in the array, in their
order. -/
theorem recvLine_iff {n : ℕ} (hn : 1 ≤ n) (hfit : n ≤ m) (recvs : Stream' RecvResult)
    (buf : CArray Byte m) : ∃ r, recvLine n recvs buf = some r ∧ Answers n recvs 0 r.asks ∧
      (∀ a ∈ r.asks, 0 < a.asked) ∧ Verdict n r.asks r.text r.ret ∧ r.text.length ≤ n ∧
      r.buf.slice 0 r.text.length = r.text := by
  obtain ⟨r, hr, hrec⟩ := recvLineLoop_received recvs hfit hn
    (Nat.le_add_left n 0) (show delimiter ∉ buf.slice 0 0 from List.not_mem_nil)
  obtain ⟨init, last, hasks, hinit, hnot, hlt, hend⟩ := hrec.split
  have htext : r.text = init.flatMap RecvAsk.received ++ last.received := by
    rw [LineReceived.text, hasks, List.flatMap_append, List.flatMap_cons, List.flatMap_nil,
      List.append_nil]
  refine ⟨r, hr, hrec.answers, hrec.asked, ?_, hrec.fits, hrec.buf⟩
  rw [htext, hasks]
  exact (hend.verdict hnot hlt).append hinit hnot

/-! A line in two chunks, the second of which is the delimiter in the last place. -/

def sampleChunks : Stream' RecvResult :=
  Stream'.cons (.bytes (str "ABC")) (Stream'.const (.bytes (str "\n")))

theorem sampleChunks_recvLine : ∃ r, recvLine 4 sampleChunks (CArray.replicate 4 0) = some r ∧
    r.ret = 4 ∧ Verdict 4 r.asks r.text 4 := by
  obtain ⟨r, hr, -, -, hverdict, -⟩ :=
    recvLine_iff (by decide : 1 ≤ 4) (Nat.le_refl 4) sampleChunks (CArray.replicate 4 0)
  have hret : (recvLine 4 sampleChunks (CArray.replicate 4 0)).map LineReceived.ret = some 4 := by
    decide
  rw [hr] at hret
  have hfour : r.ret = 4 := Option.some.inj hret
  exact ⟨r, hr, hfour, hfour ▸ hverdict⟩

end Astrologer.Generic
