import Astrologer.Proxy.AccessControl
import Astrologer.Proxy.Denial
import Astrologer.Server.Dispatch

/-!
# The filter of the proxy and the parser of the server

`handle_recv_request` of `proxy.c` and `handle_first_line` of `astrolog.c` both look at the
type of a request line, and they do it in different ways.  The proxy has the line from
`recv_line` and compares behind a write over its last byte; the server has it from
`buffered_recv_until_delim`, looks for its own two types one after the other, and counts
the length from what is left of the array.

Both come to the same (`forwarded_iff_dispatched`).  For a line of at most `ASTROLOG_BUF_LEN`
bytes, cut in any way for the proxy and in any other way for the server, the proxy forwards
the line if and only if the server takes it to `parse_client_first_line`.  What is
forwarded is the line, byte for byte, in whatever pieces `send` takes it; and every other
line is answered with a denial, and nothing is forwarded.

Both `Filtering` and `Dispatches` are deterministic, so there is one result on each side.
-/

namespace Astrologer.Proxy

open Lines ProxyStateType StateTransition

/-! ## What is counted as forwarded -/

/-- **What is forwarded is what the connection to the server sees.** -/
theorem Filtering.step_label {w w' : Filtering} (h : w.step = some w') :
    ∃ l, w.child.Step l w'.child ∧ w'.forwarded = w.forwarded ++ l.bytes := by
  obtain ⟨child, reads, room, answers, forwarded⟩ := w
  have hquiet : forwarded = forwarded ++ Label.quiet.bytes := (List.append_nil _).symm
  cases child with
  | accepting => cases h
  | exited => cases h
  | serving s pos =>
    obtain ⟨buf, len, state⟩ := s
    cases state with
    | stateRecvRequest =>
      cases reads with
      | nil => cases h
      | cons bs reads =>
        cases h
        exact ⟨.quiet, .recvRequest rfl (.bytes bs), hquiet⟩
    | stateSendDenied =>
      cases h
      exact ⟨.quiet, .sendDenied rfl _, hquiet⟩
    | stateSendRequest =>
      cases h
      exact ⟨_, .sendRequest rfl _, rfl⟩
    | stateRecvReply => cases h
    | stateSendReply => cases h
    | stateClientError => cases h
    | stateAstrologError => cases h
    | stateSuccess => cases h

/-! ## A line at the proxy -/

/-- A line of a client that comes to a child in some reads, when the child has begun to
wait for one. -/
structure LineVisit where
  line : List Byte
  isLine : IsLine delimiter line
  fits : line.length ≤ astrologBufLen
  s : ProxyState
  state : s.state = stateRecvRequest
  reads : List (List Byte)
  nonempty : [] ∉ reads
  cut : reads.flatten = line
  room : Stream' ℕ

def LineVisit.start (v : LineVisit) : Filtering := ⟨.serving v.s 0, v.reads, v.room, [], []⟩

section Line

variable {s : ProxyState} {pos : ℕ} {line : List Byte} {reads : List (List Byte)}

/-- **A line is received**, when nothing comes with its end. -/
theorem line_reaches (hline : IsLine delimiter line) (hfits : line.length ≤ astrologBufLen)
    (hs : s.state = stateRecvRequest) (hrecv : Receiving s.buf pos) (hlt : pos < line.length)
    (hne : [] ∉ reads) (hall : s.buf.slice 0 pos ++ reads.flatten = line) (room : Stream' ℕ)
    (answers forwarded : List Byte) :
    ∃ buf : CharArray, buf.slice 0 line.length = line ∧
      Reaches Filtering.step ⟨.serving s pos, reads, room, answers, forwarded⟩
        ⟨.resume (handleRecvRequest line.length { s with buf := buf }), [], room, answers,
          forwarded⟩ := by
  induction reads generalizing s pos with
  | nil =>
    have hlen := congrArg List.length hall
    rw [List.flatten_nil, List.append_nil, hrecv.length_text] at hlen
    omega
  | cons bs reads ih =>
    have hbs : bs ≠ [] := fun hnil => hne (hnil ▸ List.mem_cons_self)
    have hne' : [] ∉ reads := fun hmem => hne (List.mem_cons_of_mem bs hmem)
    rw [List.flatten_cons, ← List.append_assoc] at hall
    by_cases hmore : pos + bs.length < line.length
    · obtain ⟨hnext, htext, hstep⟩ := step_more hs hrecv hline hfits hbs hmore
        (hall.trans (List.append_nil line).symm) room answers forwarded
      rw [← htext] at hall
      obtain ⟨buf, hbuf, hreach⟩ :=
        ih (s := { s with buf := s.buf.memcpy pos bs }) hs hnext hmore hne' hall
      exact ⟨buf, hbuf, Relation.ReflTransGen.head hstep hreach⟩
    · -- no read is left, since no read is empty
      have hreads : reads = [] := by
        have hlen := congrArg List.length hall
        rw [List.length_append, List.length_append, hrecv.length_text] at hlen
        refine List.eq_nil_iff_forall_not_mem.mpr fun l hl => ?_
        have hpos := List.length_pos_iff.mpr fun hnil : l = [] => hne' (hnil ▸ hl)
        have hle := (List.sublist_flatten_of_mem hl).length_le
        omega
      subst hreads
      rw [List.flatten_nil, List.append_nil] at hall
      obtain ⟨htext, hstep⟩ := step_line hs hrecv hline hfits hbs hall [] room answers forwarded
      exact ⟨_, htext, Relation.ReflTransGen.single hstep⟩

theorem step_send_request (pos : ℕ) (hs : s.state = stateSendRequest) (reads : List (List Byte))
    (room : Stream' ℕ) (answers forwarded : List Byte) :
    (Filtering.mk (.serving s pos) reads room answers forwarded).step =
      some ⟨.afterSend handleSendRequest s pos (.count (room.head + 1)), reads, room.tail,
        answers, forwarded ++ (s.rest pos).take (room.head + 1)⟩ := by
  rw [Filtering.step]
  simp only [hs]

/-- **The request is sent.** -/
theorem sendRequest_reaches (hs : s.state = stateSendRequest) (hpos : pos < s.len)
    (reads : List (List Byte)) (room : Stream' ℕ) (answers forwarded : List Byte) :
    ∃ room', Reaches Filtering.step ⟨.serving s pos, reads, room, answers, forwarded⟩
      ⟨.resume (handleSendRequest 0 s), reads, room', answers, forwarded ++ s.rest pos⟩ :=
  send_reaches handleSendRequest (fun p room out => ⟨p, reads, room, answers, out⟩)
    (fun pos room out => step_send_request pos hs reads room answers out) hpos room forwarded

end Line

/-- **A line of the clients' type is forwarded**, and the child waits for the reply.  It is
received in whatever pieces, kept, and sent in whatever pieces. -/
theorem LineVisit.forwards (v : LineVisit) (h : clientRequestType <+: v.line) :
    ∃ w ∈ eval Filtering.step v.start, w.forwarded = v.line ∧ w.answers = [] ∧ w.reads = [] ∧
      ∃ buf, w.child = .serving ⟨buf, 0, stateRecvReply⟩ 0 := by
  have hpos : 0 < v.line.length := List.length_pos_iff.mpr v.isLine.ne_nil
  obtain ⟨buf, hbuf, hreach⟩ := line_reaches v.isLine v.fits v.state (receiving_zero v.s.buf)
    hpos v.nonempty v.cut v.room [] []
  obtain ⟨buf', hbuf', hres⟩ := handleRecvRequest_client (s := { v.s with buf := buf }) v.fits
    (hbuf.symm ▸ v.isLine) (hbuf.symm ▸ h)
  obtain ⟨room, hsend⟩ := sendRequest_reaches (s := ⟨buf', v.line.length, stateSendRequest⟩) rfl
    hpos [] v.room [] []
  have hrest : ProxyState.rest ⟨buf', v.line.length, stateSendRequest⟩ 0 = v.line :=
    hbuf'.trans hbuf
  rw [hrest, resume_handleSendRequest] at hsend
  rw [hres] at hreach
  exact ⟨_, mem_eval.mpr ⟨hreach.trans hsend, rfl⟩, rfl, rfl, rfl, _, rfl⟩

/-- **Any other line is denied**, and the child waits for the next line; nothing of it goes to the
server. -/
theorem LineVisit.denies (v : LineVisit) (h : ¬ clientRequestType <+: v.line) :
    ∃ w ∈ eval Filtering.step v.start, w.forwarded = [] ∧ w.answers = starReplyFailure ∧
      w.Usable := by
  have hpos : 0 < v.line.length := List.length_pos_iff.mpr v.isLine.ne_nil
  obtain ⟨buf, hbuf, hreach⟩ := line_reaches v.isLine v.fits v.state (receiving_zero v.s.buf)
    hpos v.nonempty v.cut v.room [] []
  obtain ⟨denial, hdenial, hres⟩ := handleRecvRequest_filtered (s := { v.s with buf := buf })
    v.fits (hbuf.symm ▸ v.isLine) (hbuf.symm ▸ h)
  obtain ⟨room, hsend⟩ := sendDenied_reaches
    (s := ⟨denial, starReplyFailure.length, stateSendDenied⟩) rfl
    (show 0 < starReplyFailure.length by decide) [] v.room [] []
  have hrest : ProxyState.rest ⟨denial, starReplyFailure.length, stateSendDenied⟩ 0 =
      starReplyFailure := hdenial
  rw [hrest] at hsend
  rw [hres] at hreach
  exact ⟨_, mem_eval.mpr ⟨hreach.trans hsend, rfl⟩, rfl, rfl, rfl, _, rfl⟩

/-! ## Both sides -/

/-- **The filter and the parser agree.**  A line that comes to a child of the proxy in any
pieces, and to the server in any pieces: the child forwards something if and only if the
server takes the line to `parse_client_first_line`; what it forwards is the line, and if
it forwards nothing, it answers with a denial and serves the client on. -/
theorem forwarded_iff_dispatched (v : LineVisit) {c : Ctx} (hc : c.Receives v.line) :
    ∃ w ∈ eval Filtering.step v.start, ∃ d, Dispatches c d ∧
      (w.forwarded ≠ [] ↔ d = .parseClientFirstLine) ∧
      (w.forwarded ≠ [] → w.forwarded = v.line ∧ w.answers = []) ∧
      (w.forwarded = [] → w.answers = starReplyFailure ∧ w.Usable) := by
  have hdispatch := dispatches_line hc v.isLine v.fits
  by_cases h : clientRequestType <+: v.line
  · obtain ⟨w, hw, hforwarded, hanswers, -⟩ := v.forwards h
    have hne : w.forwarded ≠ [] := hforwarded ▸ v.isLine.ne_nil
    refine ⟨w, hw, _, hdispatch, ?_, fun _ => ⟨hforwarded, hanswers⟩, fun hnil => absurd hnil hne⟩
    exact iff_of_true hne (lineDispatch_eq_client.mpr h)
  · obtain ⟨w, hw, hforwarded, hanswers, husable⟩ := v.denies h
    refine ⟨w, hw, _, hdispatch, ?_, fun hne => absurd hforwarded hne,
      fun _ => ⟨hanswers, husable⟩⟩
    exact iff_of_false (fun hne => hne hforwarded) (mt lineDispatch_eq_client.mp h)

/-- A request that comes to the proxy in two pieces, and is sent in pieces of five bytes. -/
def sampleLineVisit : LineVisit where
  line := str "HOROSCOPE Aries\n"
  isLine := ⟨str "HOROSCOPE Aries", by decide, by decide⟩
  fits := by decide
  s := ⟨.replicate _ 0, 0, stateRecvRequest⟩
  state := rfl
  reads := [str "HOROS", str "COPE Aries\n"]
  nonempty := by decide
  cut := by decide
  room := fun _ => 4

/-- The same line at the server, cut at another place. -/
def sampleReceiver : Ctx where
  s := ConnState.create
    ⟨⟨0, .replicate _ 0, 0, 0⟩, .replicate _ 0, 0, 0, 0, .stateSuccess, .opRead⟩ 5
  zodiacPrognosises := fun _ => .replicate _ 0
  io := ⟨[str "HOROSCOPE A", str "ries\n"].map .bytes ++ₛ Stream'.const (.bytes []),
    Stream'.const (.count 80), []⟩

theorem sampleReceiver_receives : sampleReceiver.Receives sampleLineVisit.line where
  inv := connInv_create _ 5
  state := rfl
  start := rfl
  comes := ⟨[str "HOROSCOPE A", str "ries\n"], [], ⟨by decide, _, rfl⟩, by decide⟩

theorem sampleLineVisit_forwarded :
    sampleReceiver.Receives sampleLineVisit.line ∧
      ∃ w ∈ eval Filtering.step sampleLineVisit.start, ∃ d, Dispatches sampleReceiver d ∧
        (w.forwarded ≠ [] ↔ d = .parseClientFirstLine) ∧
        (w.forwarded ≠ [] → w.forwarded = str "HOROSCOPE Aries\n" ∧ w.answers = []) ∧
        (w.forwarded = [] → w.answers = starReplyFailure ∧ w.Usable) :=
  ⟨sampleReceiver_receives, forwarded_iff_dispatched sampleLineVisit sampleReceiver_receives⟩

end Astrologer.Proxy
