import Astrologer.Boost.Pipelining
import Astrologer.Boost.Proxy

/-!
# What the Boost proxy relays

A client sends request lines that are no Star's, and the stream of their bytes is cut
into reads at any places (`Relayed`).  The server answers each line with one line
(`LineServer`).  Nothing fails and no deadline passes.

A proxy passes every request on once and in order, and its client gets the response
lines and nothing else.  This one does not always: bytes that a read brought behind a
request are left in the client's buffer, the response is appended to them, and all of
it is sent (`exchange`).  So they come back to the client in front of the response, and
they are lost as requests.  The proxy relays exactly when no read reaches beyond the end
of a request (`relayed_iff_aligned`).

That a misaligned stream cannot be relayed by chance is a matter of counting.  Whatever
a client sends, the proxy forwards no more bytes than it reads (`forwarded_le`), and
those that come back to the client are missing.
-/

namespace Astrologer.Boost.Proxy

open Lines Segmentation

variable {σ : Type*}

/-- A server that answers each line with exactly one line. -/
structure LineServer (σ : Type*) where
  answer : Answer σ
  isLine : ∀ s line, IsLine delim (answer s line).1.flatten

/-- The response lines to some request lines. -/
def LineServer.replies (srv : LineServer σ) : σ → List (List Byte) → List (List Byte)
  | _, [] => []
  | s, line :: lines => (srv.answer s line).1.flatten :: srv.replies (srv.answer s line).2 lines

/-! ## One exchange

A line with stray bytes behind it.  The connection's buffer is one for both directions, so the
stray bytes stand in front of the response. -/

/-- One line is answered once. -/
theorem all_line (answer : Answer σ) (s : σ) {text : List Byte} (htext : delim ∉ text) :
    answer.all s (splitLines delim (text ++ [delim])).1 = answer s (text ++ [delim]) := by
  have hsplit : splitLines delim (text ++ [delim]) = ([text ++ [delim]], []) := by
    rw [splitLines_of_mem (List.mem_append_right text List.mem_cons_self),
      takeLine_text htext, dropLine_text htext]
    rfl
  rw [hsplit]
  exact Prod.ext (List.append_nil _) rfl

section Exchange

variable {reads reads' responses : List (List Byte)} {closes : Bool} {s : σ}
  {forwarded received : List (List Byte)} {text left : List Byte}

theorem step_forward (answer : Answer σ) (htext : delim ∉ text) :
    (Relay.mk ⟨left, text ++ [delim], .writeRequest⟩ reads closes s responses forwarded
        received).step answer =
      some ⟨⟨left, [], .readResponse⟩, reads, closes, (answer s (text ++ [delim])).2,
        responses ++ (answer s (text ++ [delim])).1, forwarded ++ [text ++ [delim]],
        received⟩ := by
  rw [Relay.step]
  dsimp only
  rw [all_line answer s htext]
  rfl

/-- The response is appended to what was left in the buffer. -/
theorem step_response {answer : Answer σ} {response : List Byte} {responses' : List (List Byte)}
    (hresponse : delim ∉ response)
    (h : readUntil [] responses = some (response ++ [delim], responses')) :
    (Relay.mk ⟨left, [], .readResponse⟩ reads closes s responses forwarded received).step
        answer =
      some ⟨⟨left ++ (response ++ [delim]), [], .writeResponse⟩, reads, closes, s, responses',
        forwarded, received⟩ := by
  have hget := getline_text hresponse []
  rw [List.append_nil] at hget
  rw [Relay.step]
  dsimp only
  rw [h]
  dsimp only
  rw [Connection.handleReadResponse_eq, hget]

theorem step_write (answer : Answer σ) (buffer : List Byte) :
    (Relay.mk ⟨buffer, [], .writeResponse⟩ reads closes s responses forwarded received).step
        answer =
      some (.waiting reads closes s responses forwarded (received ++ [buffer])) := rfl

/-- **One exchange.**  The response is sent behind the stray bytes. -/
theorem exchange (srv : LineServer σ) (closes : Bool) (s : σ)
    (forwarded received : List (List Byte)) {behind : List Byte} (htext : delim ∉ text)
    (hstar : startsWith text starRequestType = false)
    (hresponses : responses.flatten = [])
    (h : reads.flatten = text ++ [delim] ++ behind) :
    ∃ left reads' responses', Completes [] reads (text ++ [delim]) left reads' ∧
      behind = left ++ reads'.flatten ∧ responses'.flatten = [] ∧
      (Relay.waiting reads closes s responses forwarded received).result srv.answer =
        (Relay.waiting reads' closes (srv.answer s (text ++ [delim])).2 responses'
          (forwarded ++ [text ++ [delim]])
          (received ++ [left ++ (srv.answer s (text ++ [delim])).1.flatten])).result
            srv.answer := by
  obtain ⟨left, reads', hread, hmade, hbehind⟩ :=
    readUntil_line ⟨text, htext, rfl⟩ ((List.nil_append _).trans h)
  have hline := srv.isLine s (text ++ [delim])
  obtain ⟨response, hresponse, heq⟩ := hline
  have hall : [] ++ (responses ++ (srv.answer s (text ++ [delim])).1).flatten =
      response ++ [delim] ++ [] := by
    rw [List.nil_append, List.flatten_append, hresponses, List.nil_append, List.append_nil, heq]
  obtain ⟨more, responses', hread', -, hmore⟩ := readUntil_line ⟨response, hresponse, rfl⟩ hall
  -- there is nothing behind the response line
  obtain ⟨rfl, hnil⟩ := List.append_eq_nil_iff.mp hmore.symm
  rw [List.append_nil] at hread'
  refine ⟨left, reads', responses', hmade, hbehind, hnil, ?_⟩
  rw [Relay.result_eq_of_step (step_request htext hstar hread),
    Relay.result_eq_of_step (step_forward srv.answer htext),
    Relay.result_eq_of_step (step_response hresponse hread'),
    Relay.result_eq_of_step (step_write srv.answer _), heq]

/-- **A denied Star.**  What the read brought behind its request line is dropped. -/
theorem denial (answer : Answer σ) (closes : Bool) (s : σ)
    (responses forwarded received : List (List Byte)) {behind : List Byte}
    (htext : delim ∉ text) (hstar : startsWith text starRequestType = true)
    (h : reads.flatten = text ++ [delim] ++ behind) :
    ∃ left reads', Completes [] reads (text ++ [delim]) left reads' ∧
      behind = left ++ reads'.flatten ∧
      (Relay.waiting reads closes s responses forwarded received).result answer =
        (Relay.waiting reads' closes s responses forwarded
          (received ++ [starResponseFailure ++ [delim]])).result answer := by
  obtain ⟨left, reads', hread, hmade, hbehind⟩ :=
    readUntil_line ⟨text, htext, rfl⟩ ((List.nil_append _).trans h)
  refine ⟨left, reads', hmade, hbehind, ?_⟩
  rw [Relay.result_eq_of_step (step_denied htext hstar hread),
    Relay.result_eq_of_step (step_write answer _)]

/-- Without a line to read, nothing is forwarded and nothing is sent. -/
theorem result_waiting (answer : Answer σ) (closes : Bool) (s : σ)
    (responses forwarded received : List (List Byte)) (h : delim ∉ reads.flatten) :
    ((Relay.waiting reads closes s responses forwarded received).result answer).forwarded =
        forwarded ∧
      ((Relay.waiting reads closes s responses forwarded received).result answer).received =
        received := by
  have hnone : readUntil [] reads = none := by
    rw [readUntil_eq_none, List.nil_append]
    exact h
  have hstep : (Relay.waiting reads closes s responses forwarded received).step answer =
      if closes then
        some ⟨⟨[] ++ reads.flatten, [], .stopped⟩, [], closes, s, responses, forwarded, received⟩
      else none := by
    rw [Relay.step, Relay.waiting]
    dsimp only
    rw [hnone]
    rfl
  cases closes with
  | true =>
    rw [Relay.result_eq_of_step hstep, Relay.result_of_none rfl]
    exact ⟨rfl, rfl⟩
  | false =>
    rw [Relay.result_of_none hstep]
    exact ⟨rfl, rfl⟩

end Exchange

/-! ## Counting

The proxy forwards no more bytes than it has read.  So the stray bytes, which come back to the
client, are missing among those that are forwarded. -/

/-- The first line of a stream, taken apart. -/
theorem exists_text {stream : List Byte} (h : delim ∈ stream) :
    ∃ text behind, delim ∉ text ∧ stream = text ++ [delim] ++ behind := by
  obtain ⟨text, htext, heq⟩ := exists_takeLine_eq_of_mem h
  refine ⟨text, dropLine delim stream, htext, ?_⟩
  rw [← heq, takeLine_append_dropLine]

/-- **Nothing is made up**: no more is forwarded than the client sent, whatever it is.  By
induction on what is left to read, one line at a time. -/
theorem forwarded_le (srv : LineServer σ) (closes : Bool) (s : σ)
    (reads responses forwarded received : List (List Byte)) (hresponses : responses.flatten = []) :
    ((Relay.waiting reads closes s responses forwarded received).result
        srv.answer).forwarded.flatten.length ≤
      forwarded.flatten.length + reads.flatten.length := by
  induction hn : reads.flatten.length using Nat.strong_induction_on
    generalizing reads responses s forwarded received with
  | _ n ih =>
    by_cases hmem : delim ∈ reads.flatten
    · obtain ⟨text, behind, htext, hreads⟩ := exists_text hmem
      have hlen := congrArg List.length hreads
      rw [List.length_append, List.length_append, List.length_singleton] at hlen
      cases hstar : startsWith text starRequestType with
      | true =>
        obtain ⟨left, reads', -, rfl, hresult⟩ :=
          denial srv.answer closes s responses forwarded received htext hstar hreads
        rw [List.length_append] at hlen
        have hle := ih reads'.flatten.length (by omega) s reads' responses forwarded
          (received ++ [starResponseFailure ++ [delim]]) hresponses rfl
        rw [hresult]
        omega
      | false =>
        obtain ⟨left, reads', responses', -, rfl, hresponses', hresult⟩ :=
          exchange srv closes s forwarded received htext hstar hresponses hreads
        rw [List.length_append] at hlen
        have hle := ih reads'.flatten.length (by omega) (srv.answer s (text ++ [delim])).2 reads'
          responses' (forwarded ++ [text ++ [delim]])
          (received ++ [left ++ (srv.answer s (text ++ [delim])).1.flatten]) hresponses' rfl
        rw [hresult]
        rw [List.flatten_append, List.length_append, List.flatten_singleton, List.length_append,
          List.length_singleton] at hle
        omega
    · rw [(result_waiting srv.answer closes s responses forwarded received hmem).1]
      exact Nat.le_add_right _ _

/-! ## A client without Stars

Both directions, for the list of the writes and for their bytes. -/

/-- Request lines that are no Star's, in some reads. -/
structure Relayed where
  /-- The texts of the lines. -/
  requests : List (List Byte)
  delim_notMem : ∀ text ∈ requests, delim ∉ text
  not_star : ∀ text ∈ requests, startsWith text starRequestType = false
  reads : List (List Byte)
  closes : Bool
  cut : reads.flatten = (requests.map (· ++ [delim])).flatten

def Relayed.lines (q : Relayed) : List (List Byte) := q.requests.map (· ++ [delim])

def Relayed.run (q : Relayed) (srv : LineServer σ) (s : σ) : Relay σ :=
  (Relay.start q.reads q.closes s).result srv.answer

section Run

variable {reads responses : List (List Byte)} {closes : Bool} {requests : List (List Byte)}

/-- **With aligned reads every request is relayed**, and its response comes back alone.  By
induction on the requests. -/
theorem relayed_of_aligned (srv : LineServer σ) (s : σ) (forwarded received : List (List Byte))
    (hdelim : ∀ text ∈ requests, delim ∉ text)
    (hstar : ∀ text ∈ requests, startsWith text starRequestType = false)
    (hresponses : responses.flatten = [])
    (h : reads.flatten = (requests.map (· ++ [delim])).flatten)
    (ha : Segmentation.Aligned (requests.map (· ++ [delim])) reads) :
    ((Relay.waiting reads closes s responses forwarded received).result srv.answer).forwarded =
        forwarded ++ requests.map (· ++ [delim]) ∧
      ((Relay.waiting reads closes s responses forwarded received).result srv.answer).received =
        received ++ srv.replies s (requests.map (· ++ [delim])) := by
  induction requests generalizing s reads responses forwarded received with
  | nil =>
    have hnil : delim ∉ reads.flatten := by
      rw [h]
      exact List.not_mem_nil
    obtain ⟨hforwarded, hreceived⟩ :=
      result_waiting srv.answer closes s responses forwarded received hnil
    exact ⟨hforwarded.trans (List.append_nil _).symm, hreceived.trans (List.append_nil _).symm⟩
  | cons text requests ih =>
    rw [List.map_cons] at h ha ⊢
    obtain ⟨hd, hds⟩ := List.forall_mem_cons.mp hdelim
    obtain ⟨hs, hss⟩ := List.forall_mem_cons.mp hstar
    obtain ⟨left, reads', responses', hmade, hbehind, hresponses', hresult⟩ :=
      exchange srv closes s forwarded received hd hs hresponses h
    obtain ⟨rfl, ha'⟩ := (Segmentation.aligned_cons_iff hmade).mp ha
    obtain ⟨hforwarded, hreceived⟩ := ih (srv.answer s (text ++ [delim])).2
      (forwarded ++ [text ++ [delim]])
      (received ++ [[] ++ (srv.answer s (text ++ [delim])).1.flatten]) hds hss hresponses'
      hbehind.symm ha'
    rw [hresult]
    refine ⟨hforwarded.trans ?_, hreceived.trans ?_⟩
    · rw [List.append_assoc]
      rfl
    · rw [List.append_assoc]
      rfl

/-- **Otherwise bytes are missing** among those that are forwarded.  Up to the first stray bytes
all is well, and behind them no more can be forwarded than is left to read. -/
theorem lost_of_not_aligned (srv : LineServer σ) (s : σ) (forwarded received : List (List Byte))
    (hdelim : ∀ text ∈ requests, delim ∉ text)
    (hstar : ∀ text ∈ requests, startsWith text starRequestType = false)
    (hresponses : responses.flatten = [])
    (h : reads.flatten = (requests.map (· ++ [delim])).flatten)
    (hna : ¬ Segmentation.Aligned (requests.map (· ++ [delim])) reads) :
    ((Relay.waiting reads closes s responses forwarded received).result
        srv.answer).forwarded.flatten.length <
      forwarded.flatten.length + reads.flatten.length := by
  induction requests generalizing s reads responses forwarded received with
  | nil => exact absurd (Segmentation.aligned_nil reads) hna
  | cons text requests ih =>
    rw [List.map_cons] at h hna
    obtain ⟨hd, hds⟩ := List.forall_mem_cons.mp hdelim
    obtain ⟨hs, hss⟩ := List.forall_mem_cons.mp hstar
    obtain ⟨left, reads', responses', hmade, hbehind, hresponses', hresult⟩ :=
      exchange srv closes s forwarded received hd hs hresponses h
    have hlen : reads.flatten.length =
        (text ++ [delim]).length + (left.length + reads'.flatten.length) := by
      rw [h, List.flatten_cons, hbehind, List.length_append, List.length_append,
        List.length_append]
    have hnew : (forwarded ++ [text ++ [delim]]).flatten.length =
        forwarded.flatten.length + (text ++ [delim]).length := by
      rw [List.flatten_append, List.length_append, List.flatten_singleton]
    rw [Segmentation.aligned_cons_iff hmade, not_and] at hna
    rw [hresult]
    by_cases hleft : left = []
    · rw [hleft, List.length_nil] at hlen
      rw [hleft] at hbehind ⊢
      have hlt := ih (srv.answer s (text ++ [delim])).2 (forwarded ++ [text ++ [delim]])
        (received ++ [[] ++ (srv.answer s (text ++ [delim])).1.flatten]) hds hss hresponses'
        hbehind.symm (hna hleft)
      omega
    · have hpos := List.length_pos_iff.mpr hleft
      have hle := forwarded_le srv closes (srv.answer s (text ++ [delim])).2 reads' responses'
        (forwarded ++ [text ++ [delim]])
        (received ++ [left ++ (srv.answer s (text ++ [delim])).1.flatten]) hresponses'
      omega

end Run

/-- Every request is forwarded once and in order, and the client gets the response lines
in order and nothing else. -/
def Relayed.Relays (q : Relayed) (srv : LineServer σ) (s : σ) : Prop :=
  (q.run srv s).forwarded = q.lines ∧ (q.run srv s).received = srv.replies s q.lines

/-- The same for the bytes, however they are cut into writes. -/
def Relayed.RelaysBytes (q : Relayed) (srv : LineServer σ) (s : σ) : Prop :=
  (q.run srv s).forwarded.flatten = q.lines.flatten ∧
    (q.run srv s).received.flatten = (srv.replies s q.lines).flatten

theorem Relayed.RelaysBytes.of_relays {q : Relayed} {srv : LineServer σ} {s : σ}
    (h : q.Relays srv s) : q.RelaysBytes srv s :=
  ⟨congrArg List.flatten h.1, congrArg List.flatten h.2⟩

/-- **The proxy relays exactly when no read goes beyond a request**: write by write, and
byte by byte. -/
theorem Relayed.relayed_iff_aligned (q : Relayed) (srv : LineServer σ) (s : σ) :
    (q.run srv s).step srv.answer = none ∧
      (q.Relays srv s ↔ Segmentation.Aligned q.lines q.reads) ∧
      (q.RelaysBytes srv s ↔ Segmentation.Aligned q.lines q.reads) := by
  have hof : Segmentation.Aligned q.lines q.reads → q.Relays srv s := fun ha =>
    relayed_of_aligned srv s [] [] q.delim_notMem q.not_star rfl q.cut ha
  have hbytes : q.RelaysBytes srv s → Segmentation.Aligned q.lines q.reads := by
    rintro ⟨hforwarded, -⟩
    by_contra hna
    have hlt : (q.run srv s).forwarded.flatten.length < 0 + q.reads.flatten.length :=
      lost_of_not_aligned srv s [] [] q.delim_notMem q.not_star rfl q.cut hna
    rw [hforwarded, q.cut, Nat.zero_add] at hlt
    exact absurd hlt (Nat.lt_irrefl _)
  exact ⟨Relay.step_result _, ⟨fun h => hbytes (.of_relays h), hof⟩,
    ⟨hbytes, fun ha => .of_relays (hof ha)⟩⟩

/-! ## Two requests in one read -/

/-- A server without prognoses. -/
def sampleServer : LineServer Unit where
  answer s _ := ([unknownPrognosis ++ [delim]], s)
  isLine _ _ := ⟨unknownPrognosis, by decide, rfl⟩

def sampleRelayed : Relayed where
  requests := [str "HOROSCOPE Aries", str "HOROSCOPE Taurus"]
  delim_notMem := by decide
  not_star := by decide
  reads := [str "HOROSCOPE Aries\nHOROSCOPE Taurus\n"]
  closes := true
  cut := by decide

/-- **The second request is sent back to the client**, and it is not forwarded. -/
theorem sampleRelayed_run :
    (sampleRelayed.run sampleServer ()).forwarded = [str "HOROSCOPE Aries\n"] ∧
      (sampleRelayed.run sampleServer ()).received =
        [str "HOROSCOPE Taurus\nYOU ARE OUT OF LUCK!\n"] := by decide

theorem sampleRelayed_not_relayed : ¬ sampleRelayed.RelaysBytes sampleServer () := by
  rintro ⟨hforwarded, -⟩
  rw [sampleRelayed_run.1] at hforwarded
  exact absurd hforwarded (by decide)

end Astrologer.Boost.Proxy
