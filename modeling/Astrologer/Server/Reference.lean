import Astrologer.Server.Refinement

/-!
# Segmentation independence

`reference` reads a client's stream as a whole: split it at the delimiter, take
the lines one after the other, and say what is stored, what is sent and how it
ends.  It knows nothing of the pieces in which the stream arrives, of the two
buffers, or of the pieces in which replies go out.

`Client` is a client as the server meets it: the stream cut into the results of
`recv`, and room for so many bytes at each `send`.  `Client.run_eq_reference` says
that a run of the handlers ends, and that wherever it ends it has stored and sent
exactly what the reference says.

## How it goes

`Session.predict` is the reference applied half way: what has been stored and sent
so far, followed by the reading of the line begun, the unread bytes and all the
bytes still to come.  A round changes none of it (`predict_round`), whatever it
receives or sends: framing does not depend on the cut (`Lines.frame_append`).  At
the start the prediction is the reference, and at the end it is the record.
-/

namespace Astrologer

open Lines ServerStateType FdOperation

/-! ## The reference

A function of the bytes alone: it takes one line after the other and needs neither a buffer nor a
state.  Its equations are the simp set of this file. -/

/-- What a client or a later client can see. -/
inductive Output
  | store (zodiacIx : ℕ) (line : List Byte)
  | sent (b : Byte)
  deriving DecidableEq

inductive Outcome
  | error
  | success
  /-- Neither; more may come. -/
  | waiting
  deriving DecidableEq

/-- A reading of a stream. -/
@[ext] structure Reading where
  outputs : List Output
  outcome : Outcome
  store : ℕ → Option (List Byte)

/-- A reading with something before it. -/
def Reading.after (before : List Output) (r : Reading) : Reading :=
  { r with outputs := before ++ r.outputs }

@[simp] theorem Reading.after_after (a b : List Output) (r : Reading) :
    (r.after b).after a = r.after (a ++ b) := by
  rw [Reading.after, Reading.after, Reading.after, List.append_assoc]

/-- How a stream ends: in a line that cannot become legal any more, with the end of
the stream, or not yet. -/
def endOutcome (awaited : Option ℕ) (rest : List Byte) (eof : Bool) : Outcome :=
  if astrologBufLen ≤ rest.length then .error
  else if eof then
    if awaited = none ∧ rest = [] then .success else .error
  else .waiting

/-- Read the lines one after the other.  `awaited` is the zodiac whose prognosis
the next line is. -/
def interpret (rest : List Byte) (eof : Bool) :
    List (List Byte) → Option ℕ → (ℕ → Option (List Byte)) → Reading
  | [], awaited, store => ⟨[], endOutcome awaited rest eof, store⟩
  | l :: ls, none, store =>
    if l.length ≤ astrologBufLen then
      match classify l with
      | .star z => interpret rest eof ls (some z) store
      | .client z =>
        (interpret rest eof ls none store).after ((replyTo (store z)).map .sent)
      | .bad => ⟨[], .error, store⟩
    else ⟨[], .error, store⟩
  | l :: ls, some z, store =>
    if l.length ≤ astrologBufLen then
      (interpret rest eof ls none (Function.update store z (some l))).after
        (.store z l :: starReplySuccess.map .sent)
    else ⟨[], .error, store⟩

/-- The reading of a stream from the middle of a conversation. -/
def referenceFrom (awaited : Option ℕ) (store : ℕ → Option (List Byte))
    (stream : List Byte) (eof : Bool) : Reading :=
  interpret (splitLines delimiter stream).2 eof (splitLines delimiter stream).1
    awaited store

/-- **The reference interpretation** of a client's stream. -/
def reference (store : ℕ → Option (List Byte)) (stream : List Byte) (eof : Bool) :
    Reading :=
  referenceFrom none store stream eof

section Reading

variable {awaited : Option ℕ} {store : ℕ → Option (List Byte)} {stream : List Byte}
  {eof : Bool}

theorem referenceFrom_overlong
    (h : frame astrologBufLen delimiter stream = .overlong) :
    referenceFrom awaited store stream eof = ⟨[], .error, store⟩ := by
  obtain ⟨hnot, hlen⟩ := frame_eq_overlong.mp h
  unfold referenceFrom
  by_cases hmem : delimiter ∈ stream
  · have hlong : ¬ (takeLine delimiter stream).length ≤ astrologBufLen :=
      fun hle => hnot (mem_take_iff.mpr ⟨hmem, hle⟩)
    rw [splitLines_of_mem hmem]
    cases awaited with
    | none => exact if_neg hlong
    | some z => exact if_neg hlong
  · rw [splitLines_of_notMem hmem, interpret, endOutcome, if_pos hlen]

/-- A stream that stops inside a line, or between two. -/
theorem referenceFrom_waiting (h : delimiter ∉ stream)
    (hlen : stream.length < astrologBufLen) :
    referenceFrom awaited store stream false = ⟨[], .waiting, store⟩ := by
  rw [referenceFrom, splitLines_of_notMem h, interpret, endOutcome,
    if_neg (Nat.not_le_of_lt hlen)]
  rfl

/-- The end of a stream is legal between requests only. -/
theorem referenceFrom_eof (h : delimiter ∉ stream) :
    referenceFrom awaited store stream true =
      ⟨[], if awaited = none ∧ stream = [] then .success else .error, store⟩ := by
  rw [referenceFrom, splitLines_of_notMem h, interpret, endOutcome]
  by_cases hlen : astrologBufLen ≤ stream.length
  · have hne : ¬ (awaited = none ∧ stream = []) := by
      rintro ⟨-, rfl⟩
      exact absurd hlen (by decide)
    rw [if_pos hlen, if_neg hne]
  · rw [if_neg hlen, if_pos rfl]

variable {l rest : List Byte}

theorem referenceFrom_line (h : frame astrologBufLen delimiter stream = .line l rest) :
    referenceFrom none store stream eof =
      match classify l with
      | .star z => referenceFrom (some z) store rest eof
      | .client z =>
        (referenceFrom none store rest eof).after ((replyTo (store z)).map .sent)
      | .bad => ⟨[], .error, store⟩ := by
  obtain ⟨hmem, rfl, rfl⟩ := frame_eq_line h
  obtain ⟨hmem, hle⟩ := mem_take_iff.mp hmem
  rw [referenceFrom, splitLines_of_mem hmem]
  exact if_pos hle

theorem referenceFrom_prognosis {z : ℕ}
    (h : frame astrologBufLen delimiter stream = .line l rest) :
    referenceFrom (some z) store stream eof =
      (referenceFrom none (Function.update store z (some l)) rest eof).after
        (.store z l :: starReplySuccess.map .sent) := by
  obtain ⟨hmem, rfl, rfl⟩ := frame_eq_line h
  obtain ⟨hmem, hle⟩ := mem_take_iff.mp hmem
  rw [referenceFrom, splitLines_of_mem hmem]
  exact if_pos hle

end Reading

/-! ## The prediction

What a connection will have shown in the end, if its client sends the rest of its bytes: what it
has shown so far, and the reference for what it has in its buffers and what is still to come. -/

/-- What an entry of the record shows. -/
def ConnEvent.outputs : ConnEvent → List Output
  | .sent bs => bs.map .sent
  | .prognosis z l => [.store z l]
  | .recv _ => []
  | .recvError => []
  | .sendError => []
  | .request _ => []

/-- The table updates and the bytes sent, in order. -/
def outputs (trace : List ConnEvent) : List Output := trace.flatMap ConnEvent.outputs

/-- The bytes received. -/
def received (trace : List ConnEvent) : List Byte :=
  trace.flatMap fun
    | .recv bs => bs
    | _ => []

/-- The reading of what a session has and of the bytes to come. -/
def Session.future (s : Session) (more : List Byte) (eof : Bool) : Reading :=
  match s.phase with
  | .firstLine line => referenceFrom none s.store (line ++ (s.unread ++ more)) eof
  | .prognosis z line => referenceFrom (some z) s.store (line ++ (s.unread ++ more)) eof
  | .reply pending =>
    (referenceFrom none s.store (s.unread ++ more) eof).after (pending.map .sent)
  | .failed _ => ⟨[], .error, s.store⟩
  | .finished => ⟨[], .success, s.store⟩

/-- The same, with what has been shown so far. -/
def Session.predict (s : Session) (more : List Byte) (eof : Bool) : Reading :=
  (s.future more eof).after (outputs s.io.trace)

theorem outputs_append (a b : List ConnEvent) :
    outputs (a ++ b) = outputs a ++ outputs b := List.flatMap_append

theorem received_append (a b : List ConnEvent) :
    received (a ++ b) = received a ++ received b := List.flatMap_append

/-! ## A round changes no prediction

The prediction is an invariant of the rounds, however the bytes are cut.  At the same time the
work gets less: every byte received pays for a reply that is longer than nothing. -/

section Predict

variable {s : Session} {line bs : List Byte} {eof : Bool}

theorem predict_readFirstLine (s : Session) (line bs more : List Byte) :
    (s.readFirstLine line bs).1.predict more eof =
      (referenceFrom none s.store (line ++ (bs ++ more)) eof).after
        (outputs s.io.trace) := by
  rw [← List.append_assoc]
  unfold Session.readFirstLine
  cases hf : frame astrologBufLen delimiter (line ++ bs) with
  | line l rest =>
    rw [referenceFrom_line (frame_append_of_line hf more)]
    simp only [Session.obey]
    cases classify l with
    | star z => rfl
    | bad => rfl
    | client z =>
      rw [Reading.after_after]
      simp only [Session.predict, Session.future, Io.log, outputs_append,
        Reading.after_after]
      rw [show outputs [ConnEvent.request z] = [] from rfl, List.append_nil]
  | overlong =>
    rw [referenceFrom_overlong (frame_append_of_overlong hf more)]
    rfl
  | unfinished => rfl

theorem predict_readPrognosis (s : Session) (z : ℕ) (line bs more : List Byte) :
    (s.readPrognosis z line bs).1.predict more eof =
      (referenceFrom (some z) s.store (line ++ (bs ++ more)) eof).after
        (outputs s.io.trace) := by
  rw [← List.append_assoc]
  unfold Session.readPrognosis
  cases hf : frame astrologBufLen delimiter (line ++ bs) with
  | line l rest =>
    rw [referenceFrom_prognosis (frame_append_of_line hf more), Reading.after_after]
    simp only [Session.keep, Session.predict, Session.future, Io.log, outputs_append,
      Reading.after_after, List.append_assoc]
    rfl
  | overlong =>
    rw [referenceFrom_overlong (frame_append_of_overlong hf more)]
    rfl
  | unfinished => rfl

/-- What the kernel holds for a connection: these pieces and then the end of the
stream, and always some room. -/
structure Feed (io : Io) (chunks : List (List Byte)) : Prop where
  recvs : io.recvs = chunks.map .bytes ++ₛ Stream'.const (.bytes [])
  cut : ∀ b ∈ chunks, b ≠ [] ∧ b.length ≤ astrologBufLen
  sends : ∀ i, ∃ k, io.sends.get i = .count (k + 1)

/-- A fetch takes the next piece when nothing is unread. -/
theorem fetch_cases {chunks : List (List Byte)} (h : Feed s.io chunks) :
    (∃ io bs chunks', s.fetch = (.bytes bs, { s with unread := bs, io := io }) ∧
      bs ≠ [] ∧ Feed io chunks' ∧
      bs ++ chunks'.flatten = s.unread ++ chunks.flatten ∧
      received io.trace ++ chunks'.flatten = received s.io.trace ++ chunks.flatten ∧
      outputs io.trace = outputs s.io.trace) ∨
    (∃ io, s.fetch = (.eof, { s with io := io }) ∧ s.unread = [] ∧ chunks = [] ∧
      Feed io [] ∧ received io.trace = received s.io.trace ∧
      outputs io.trace = outputs s.io.trace) := by
  unfold Session.fetch
  by_cases hun : s.unread = []
  · rw [if_pos hun, hun]
    unfold Io.recv
    rw [h.recvs]
    cases chunks with
    | nil =>
      refine Or.inr ⟨_, rfl, rfl, rfl, ⟨rfl, h.cut, h.sends⟩, ?_, ?_⟩
      · exact (received_append _ _).trans (List.append_nil _)
      · exact (outputs_append _ _).trans (List.append_nil _)
    | cons b chunks =>
      obtain ⟨hne, hle⟩ := h.cut b List.mem_cons_self
      have htake : b.take astrologBufLen = b := List.take_of_length_le hle
      cases b with
      | nil => exact absurd rfl hne
      | cons x xs =>
        rw [List.map_cons, Stream'.cons_append_stream, Stream'.head_cons,
          Stream'.tail_cons]
        simp only [htake]
        refine Or.inl ⟨_, _, chunks, rfl, hne,
          ⟨rfl, fun b hb => h.cut b (List.mem_cons_of_mem _ hb), h.sends⟩, rfl, ?_, ?_⟩
        · show received (s.io.trace ++ _) ++ _ = _
          rw [received_append, List.append_assoc, List.flatten_cons]
          exact congrArg (fun l => received s.io.trace ++ (l ++ chunks.flatten))
            (List.append_nil (x :: xs))
        · exact (outputs_append _ _).trans (List.append_nil _)
  · rw [if_neg hun]
    exact Or.inl ⟨s.io, s.unread, chunks, rfl, hun, h, rfl, rfl, rfl⟩

/-- The bytes a session still owes. -/
def Phase.owed : Phase → ℕ
  | .reply pending => pending.length
  | _ => 0

/-- The work left: every byte received pays for one reply. -/
def Session.work (s : Session) (more : List Byte) : ℕ :=
  (astrologBufLen + 1) * (s.unread ++ more).length + s.phase.owed

/-- Bytes that arrive in a receiving phase are used up. -/
theorem length_unread_lt {l rest : List Byte} (hline : delimiter ∉ line) (hne : bs ≠ [])
    (hf : frame astrologBufLen delimiter (line ++ bs) = .line l rest) :
    rest.length < bs.length := by
  obtain ⟨-, -, rfl⟩ := frame_eq_line hf
  have hsplit := congrArg List.length (takeLine_append_dropLine delimiter bs)
  have hpos := List.length_pos_iff.mpr (takeLine_ne_nil (d := delimiter) hne)
  rw [List.length_append] at hsplit
  rw [dropLine_append_of_notMem hline]
  omega

theorem owed_le {p : Phase} (h : p.Legal) : p.owed ≤ astrologBufLen := by
  cases p with
  | reply pending => exact h.2
  | _ => exact Nat.zero_le _

theorem work_lt {t : Session} {more : List Byte} {m : ℕ} (ht : t.phase.Legal)
    (hlt : (t.unread ++ more).length < m) :
    t.work more < (astrologBufLen + 1) * m := by
  have howed := owed_le ht
  unfold Session.work
  calc (astrologBufLen + 1) * (t.unread ++ more).length + t.phase.owed
      < (astrologBufLen + 1) * ((t.unread ++ more).length + 1) := by
        rw [Nat.mul_succ]
        omega
    _ ≤ (astrologBufLen + 1) * m := Nat.mul_le_mul_left _ hlt

/-- Reading a line makes the work less, or ends the session. -/
theorem work_readFirstLine (more : List Byte) (hline : delimiter ∉ line) (hne : bs ≠ [])
    (hlegal : (s.readFirstLine line bs).1.phase.Legal) :
    (s.readFirstLine line bs).1.phase.over ∨
    (s.readFirstLine line bs).1.work more < (astrologBufLen + 1) * (bs ++ more).length := by
  have hpos := List.length_pos_iff.mpr hne
  revert hlegal
  unfold Session.readFirstLine
  cases hf : frame astrologBufLen delimiter (line ++ bs) with
  | line l rest =>
    intro hlegal
    have hlt := length_unread_lt hline hne hf
    have hunread : (s.obey l rest).1.unread = rest := by
      unfold Session.obey
      cases classify l <;> rfl
    refine Or.inr (work_lt hlegal ?_)
    rw [hunread, List.length_append, List.length_append]
    omega
  | overlong => exact fun _ => Or.inl rfl
  | unfinished =>
    intro hlegal
    refine Or.inr (work_lt hlegal ?_)
    rw [List.length_append, List.length_append, List.length_nil]
    omega

theorem work_readPrognosis {z : ℕ} (more : List Byte) (hline : delimiter ∉ line)
    (hne : bs ≠ []) (hlegal : (s.readPrognosis z line bs).1.phase.Legal) :
    (s.readPrognosis z line bs).1.phase.over ∨
    (s.readPrognosis z line bs).1.work more <
      (astrologBufLen + 1) * (bs ++ more).length := by
  have hpos := List.length_pos_iff.mpr hne
  revert hlegal
  unfold Session.readPrognosis
  cases hf : frame astrologBufLen delimiter (line ++ bs) with
  | line l rest =>
    intro hlegal
    have hlt := length_unread_lt hline hne hf
    refine Or.inr (work_lt hlegal ?_)
    show (rest ++ more).length < _
    rw [List.length_append, List.length_append]
    omega
  | overlong => exact fun _ => Or.inl rfl
  | unfinished =>
    intro hlegal
    refine Or.inr (work_lt hlegal ?_)
    rw [List.length_append, List.length_append, List.length_nil]
    omega

/-- The input and output of a round that reads. -/
theorem readFirstLine_io (s : Session) (line bs : List Byte) :
    (s.readFirstLine line bs).1.io.recvs = s.io.recvs ∧
    (s.readFirstLine line bs).1.io.sends = s.io.sends ∧
    received (s.readFirstLine line bs).1.io.trace = received s.io.trace := by
  unfold Session.readFirstLine Session.obey
  cases frame astrologBufLen delimiter (line ++ bs) with
  | line l rest =>
    simp only
    cases classify l with
    | star z => exact ⟨rfl, rfl, rfl⟩
    | client z => exact ⟨rfl, rfl, (received_append _ _).trans (List.append_nil _)⟩
    | bad => exact ⟨rfl, rfl, rfl⟩
  | overlong => exact ⟨rfl, rfl, rfl⟩
  | unfinished => exact ⟨rfl, rfl, rfl⟩

theorem readPrognosis_io (s : Session) (z : ℕ) (line bs : List Byte) :
    (s.readPrognosis z line bs).1.io.recvs = s.io.recvs ∧
    (s.readPrognosis z line bs).1.io.sends = s.io.sends ∧
    received (s.readPrognosis z line bs).1.io.trace = received s.io.trace := by
  unfold Session.readPrognosis Session.keep
  cases frame astrologBufLen delimiter (line ++ bs) with
  | line l rest => exact ⟨rfl, rfl, (received_append _ _).trans (List.append_nil _)⟩
  | overlong => exact ⟨rfl, rfl, rfl⟩
  | unfinished => exact ⟨rfl, rfl, rfl⟩

/-- **A round changes no prediction**, and there is less to do after it. -/
theorem predict_round {chunks : List (List Byte)} (h : Feed s.io chunks)
    (hlegal : s.phase.Legal) (hlegal' : s.round.1.phase.Legal)
    (hmore : s.phase.reads → s.unread = [] → chunks = [] → eof = true) :
    ∃ chunks', Feed s.round.1.io chunks' ∧
      received s.round.1.io.trace ++ chunks'.flatten =
        received s.io.trace ++ chunks.flatten ∧
      s.round.1.predict chunks'.flatten eof = s.predict chunks.flatten eof ∧
      (s.round.1.phase.over ∨
        s.round.1.work chunks'.flatten < s.work chunks.flatten) := by
  have hwork : ∀ {m : ℕ} {bs more : List Byte}, m < (astrologBufLen + 1) * (bs ++ more).length →
      bs ++ more = s.unread ++ chunks.flatten → m < s.work chunks.flatten :=
    fun hlt heq => Nat.lt_of_lt_of_le (heq ▸ hlt) (Nat.le_add_right _ _)
  revert hlegal'
  unfold Session.round
  cases hphase : s.phase with
  | firstLine line =>
    have hline : delimiter ∉ line := by
      rw [hphase] at hlegal
      exact hlegal.1
    rcases fetch_cases h with ⟨io, bs, chunks', hfetch, hne, hfeed, hbytes, hrecv, hout⟩ |
      ⟨io, hfetch, hun, hnil, hfeed, hrecv, hout⟩
    · simp only [hfetch]
      intro hlegal'
      obtain ⟨hrecvs, hsends, htrace⟩ :=
        readFirstLine_io { s with unread := bs, io := io } line bs
      refine ⟨chunks', ⟨hrecvs.trans hfeed.recvs, hfeed.cut, ?_⟩, ?_, ?_, ?_⟩
      · rw [hsends]
        exact hfeed.sends
      · rw [htrace, hrecv]
      · rw [predict_readFirstLine, Session.predict, Session.future, hphase, hbytes]
        exact congrArg (Reading.after · _) hout
      · exact (work_readFirstLine chunks'.flatten hline hne hlegal').imp_right
          fun hlt => hwork hlt hbytes
    · simp only [hfetch]
      intro _
      have heof : eof = true := hmore (by rw [hphase]; rfl) hun hnil
      refine ⟨[], hfeed, by rw [hrecv, hnil], ?_, Or.inl ?_⟩
      · simp only [Session.predict, Session.future, hphase, hun, hnil, heof, hout,
          List.flatten_nil, List.append_nil, referenceFrom_eof hline, true_and]
        by_cases hempty : line = []
        · rw [if_pos hempty, if_pos hempty]
        · rw [if_neg hempty, if_neg hempty]
      · by_cases hempty : line = []
        · rw [if_pos hempty]
          rfl
        · rw [if_neg hempty]
          rfl
  | prognosis z line =>
    have hline : delimiter ∉ line := by
      rw [hphase] at hlegal
      exact hlegal.2.1
    rcases fetch_cases h with ⟨io, bs, chunks', hfetch, hne, hfeed, hbytes, hrecv, hout⟩ |
      ⟨io, hfetch, hun, hnil, hfeed, hrecv, hout⟩
    · simp only [hfetch]
      intro hlegal'
      obtain ⟨hrecvs, hsends, htrace⟩ :=
        readPrognosis_io { s with unread := bs, io := io } z line bs
      refine ⟨chunks', ⟨hrecvs.trans hfeed.recvs, hfeed.cut, ?_⟩, ?_, ?_, ?_⟩
      · rw [hsends]
        exact hfeed.sends
      · rw [htrace, hrecv]
      · rw [predict_readPrognosis, Session.predict, Session.future, hphase, hbytes]
        exact congrArg (Reading.after · _) hout
      · exact (work_readPrognosis chunks'.flatten hline hne hlegal').imp_right
          fun hlt => hwork hlt hbytes
    · simp only [hfetch]
      intro _
      have heof : eof = true := hmore (by rw [hphase]; rfl) hun hnil
      refine ⟨[], hfeed, by rw [hrecv, hnil], ?_, Or.inl rfl⟩
      simp only [Session.predict, Session.future, hphase, hun, hnil, heof, hout,
        List.flatten_nil, List.append_nil, referenceFrom_eof hline, reduceCtorEq,
        false_and, if_false]
  | reply pending =>
    obtain ⟨k, hk⟩ := h.sends 0
    have hne : pending ≠ [] := by
      rw [hphase] at hlegal
      exact hlegal.1
    have hpos := List.length_pos_iff.mpr hne
    have hfeed : ∀ trace, Feed ⟨s.io.recvs, s.io.sends.tail, trace⟩ chunks :=
      fun _ => ⟨h.recvs, h.cut, fun i => h.sends (i + 1)⟩
    have hsend : s.io.send pending = (.count (min (k + 1) pending.length),
        Io.log { s.io with sends := s.io.sends.tail } (.sent (pending.take (k + 1)))) := by
      unfold Io.send
      rw [show s.io.sends.head = .count (k + 1) from hk]
    have hdrop : pending.drop (min (k + 1) pending.length) = pending.drop (k + 1) := by
      rcases Nat.le_total (k + 1) pending.length with hle | hle
      · rw [Nat.min_eq_left hle]
      · rw [Nat.min_eq_right hle, List.drop_length, List.drop_of_length_le hle]
    have hout : outputs (s.io.trace ++ [.sent (pending.take (k + 1))]) ++
        (pending.drop (k + 1)).map .sent = outputs s.io.trace ++ pending.map .sent := by
      have hone : outputs [.sent (pending.take (k + 1))] =
          (pending.take (k + 1)).map .sent := List.append_nil _
      rw [outputs_append, hone, List.append_assoc, ← List.map_append,
        List.take_append_drop]
    have hrecv : received (s.io.trace ++ [.sent (pending.take (k + 1))]) =
        received s.io.trace := (received_append _ _).trans (List.append_nil _)
    simp only [hsend, hdrop]
    by_cases hnil : pending.drop (k + 1) = []
    · rw [if_pos hnil]
      intro _
      rw [hnil, List.map_nil, List.append_nil] at hout
      refine ⟨chunks, hfeed _, ?_, ?_, Or.inr ?_⟩
      · exact congrArg (· ++ chunks.flatten) hrecv
      · simp only [Session.predict, Session.future, hphase, Reading.after_after,
          List.nil_append, Io.log, hout]
      · simp only [Session.work, Phase.owed, hphase]
        omega
    · rw [if_neg hnil]
      intro _
      refine ⟨chunks, hfeed _, ?_, ?_, Or.inr ?_⟩
      · exact congrArg (· ++ chunks.flatten) hrecv
      · simp only [Session.predict, Session.future, hphase, Reading.after_after, Io.log,
          hout]
      · simp only [Session.work, Phase.owed, hphase, List.length_drop]
        omega
  | failed op =>
    exact fun _ => ⟨chunks, h, rfl, rfl, Or.inl (by rw [hphase]; rfl)⟩
  | finished =>
    exact fun _ => ⟨chunks, h, rfl, rfl, Or.inl (by rw [hphase]; rfl)⟩

end Predict

/-! ## Runs

The rounds follow each other until there is nothing to do.  Then nothing is left to come, and the
prediction is what has been shown. -/

/-- A client as the server meets it. -/
structure Client where
  /-- The results of the `recv` calls. -/
  chunks : List (List Byte)
  cut : ∀ b ∈ chunks, b ≠ [] ∧ b.length ≤ astrologBufLen
  /-- The stream ends behind the last piece; otherwise nothing more comes. -/
  eof : Bool
  /-- How many bytes each `send` call is rid of at most, less the one it is rid of
  at least. -/
  room : Stream' ℕ

/-- The bytes the client sends. -/
def Client.stream (client : Client) : List Byte := client.chunks.flatten

/-- The client has connected. -/
def Client.connect (client : Client) (table : Table) (raw : ConnState) (fd : ℕ) : Ctx where
  s := raw.create fd
  zodiacPrognosises := table
  io :=
    { recvs := client.chunks.map .bytes ++ₛ Stream'.const (.bytes [])
      sends := client.room.map fun k => .count (k + 1)
      trace := [] }

/-- The handler would have to ask the kernel for bytes, and there is nothing for it
to answer. -/
def Client.Starved (client : Client) (c : Ctx) : Prop :=
  c.s.op = opRead ∧ c.s.intermBuf.pos = c.s.intermBuf.len ∧
    client.eof = false ∧ received c.io.trace = client.stream

instance (client : Client) (c : Ctx) : Decidable (client.Starved c) :=
  inferInstanceAs (Decidable (_ ∧ _))

/-- One handler call.  `update_state` makes them in a loop and is called for as long
as the descriptor is ready, so a connection meets one after the other. -/
def Client.call (client : Client) (c : Ctx) : Ctx :=
  if client.Starved c then c else (handleState c).1

def Client.run (client : Client) (table : Table) (raw : ConnState) (fd n : ℕ) : Ctx :=
  (client.call^[n]) (client.connect table raw fd)

/-- The input is used up and the replies are flushed, or the connection is over. -/
def Client.Settled (client : Client) (c : Ctx) : Prop :=
  c.s.state = stateError ∨ c.s.state = stateSuccess ∨ client.Starved c

def ServerStateType.outcome : ServerStateType → Outcome
  | stateError => .error
  | stateSuccess => .success
  | _ => .waiting

/-- What can be seen of a run: what was stored and sent, how the connection stands,
and the table. -/
def Ctx.reading (c : Ctx) : Reading where
  outputs := outputs c.io.trace
  outcome := c.s.state.outcome
  store := fun z => rowLine (c.zodiacPrognosises z)

section Run

variable {client : Client} {c : Ctx} {chunks : List (List Byte)} {ref : Reading}

/-- The invariant of a run: these pieces are still to come, and the prediction is
the reference. -/
structure Client.Inv (client : Client) (ref : Reading) (c : Ctx)
    (chunks : List (List Byte)) : Prop where
  conn : ConnInv c.s
  feed : Feed c.io chunks
  bytes : received c.io.trace ++ chunks.flatten = client.stream
  predict : c.session.predict chunks.flatten client.eof = ref

theorem Client.inv_connect (client : Client) (table : Table) (raw : ConnState) (fd : ℕ) :
    client.Inv (reference (fun z => rowLine (table z)) client.stream client.eof)
      (client.connect table raw fd) client.chunks :=
  ⟨connInv_create raw fd, ⟨rfl, client.cut, fun i => ⟨client.room.get i, rfl⟩⟩, rfl, rfl⟩

/-- The whole session of a context moves by `round`. -/
theorem session_handleState (h : ConnInv c.s) :
    (handleState c).1.session = c.session.round.1 :=
  congrArg Prod.fst (handleState_session h).1

/-- **A call keeps the invariant**, and leaves less to do or ends the connection: the pieces to
come are the same or one less, and the prediction is the reference. -/
theorem Client.Inv.call (h : client.Inv ref c chunks) (hs : ¬ client.Starved c) :
    ∃ chunks', client.Inv ref (client.call c) chunks' ∧
      (c.session.round.1.phase.over ∨
        (client.call c).session.work chunks'.flatten < c.session.work chunks.flatten) := by
  have hsess := session_handleState h.conn
  have hconn := (handleState_session h.conn).2
  have hmore : c.session.phase.reads → c.session.unread = [] → chunks = [] →
      client.eof = true := by
    intro hreads hun hnil
    rw [reads_session h.conn, decide_eq_true_iff] at hreads
    have hpos := (Buffer.unread_eq_nil h.conn.pos_le h.conn.len_le).mp hun
    have hbytes := h.bytes
    rw [hnil, List.flatten_nil, List.append_nil] at hbytes
    by_contra heof
    exact hs ⟨hreads, hpos, Bool.eq_false_iff.mpr heof, hbytes⟩
  obtain ⟨chunks', hfeed, hrecv, hpredict, hwork⟩ :=
    predict_round h.feed h.conn.legal (hsess ▸ hconn.legal) hmore
  rw [Client.call, if_neg hs]
  refine ⟨chunks', ⟨hconn, ?_, ?_, ?_⟩, ?_⟩
  · rwa [← hsess] at hfeed
  · rw [show (handleState c).1.io = c.session.round.1.io from congrArg Session.io hsess,
      hrecv]
    exact h.bytes
  · rw [hsess, hpredict]
    exact h.predict
  · rwa [hsess]

/-- Where a run settles, the record is the prediction. -/
theorem Client.Inv.reading_eq (h : client.Inv ref c chunks) (hs : client.Settled c) :
    c.reading = ref := by
  have hlegal := h.conn.legal
  have hphase : c.session.phase = c.s.phase := rfl
  have hstarved : c.s.state ≠ stateError → c.s.state ≠ stateSuccess →
      c.s.op = opRead ∧ c.session.unread = [] ∧ chunks.flatten = [] ∧
        client.eof = false := by
    intro herr hsuc
    obtain ⟨hop, hpos, heof, hrecv⟩ := (hs.resolve_left herr).resolve_left hsuc
    have hbytes := h.bytes
    rw [hrecv] at hbytes
    exact ⟨hop, (Buffer.unread_eq_nil h.conn.pos_le h.conn.len_le).mpr hpos,
      List.append_right_eq_self.mp hbytes, heof⟩
  rw [← h.predict, Session.predict, Session.future]
  cases hst : c.s.state with
  | stateRecvFirstLine =>
    obtain ⟨-, hun, hnil, heof⟩ := hstarved (by simp [hst]) (by simp [hst])
    rw [ConnState.phase, hst] at hphase
    rw [hphase] at hlegal
    simp only [hphase, hun, hnil, heof, List.append_nil,
      referenceFrom_waiting hlegal.1 hlegal.2]
    exact Reading.ext (List.append_nil _).symm (by rw [Ctx.reading, hst]; rfl) rfl
  | stateRecvH =>
    obtain ⟨-, hun, hnil, heof⟩ := hstarved (by simp [hst]) (by simp [hst])
    rw [ConnState.phase, hst] at hphase
    rw [hphase] at hlegal
    simp only [hphase, hun, hnil, heof, List.append_nil,
      referenceFrom_waiting hlegal.2.1 hlegal.2.2]
    exact Reading.ext (List.append_nil _).symm (by rw [Ctx.reading, hst]; rfl) rfl
  | stateSendThanks =>
    obtain ⟨hop, -⟩ := hstarved (by simp [hst]) (by simp [hst])
    exact absurd (hop.symm.trans (h.conn.send_op (Or.inl hst))) (by decide)
  | stateSendH =>
    obtain ⟨hop, -⟩ := hstarved (by simp [hst]) (by simp [hst])
    exact absurd (hop.symm.trans (h.conn.send_op (Or.inr hst))) (by decide)
  | stateError =>
    rw [ConnState.phase, hst] at hphase
    simp only [hphase]
    exact Reading.ext (List.append_nil _).symm (by rw [Ctx.reading, hst]; rfl) rfl
  | stateSuccess =>
    rw [ConnState.phase, hst] at hphase
    simp only [hphase]
    exact Reading.ext (List.append_nil _).symm (by rw [Ctx.reading, hst]; rfl) rfl

/-- A session that is over is settled. -/
theorem settled_of_over (h : c.s.phase.over = true) : client.Settled c := by
  unfold ConnState.phase at h
  cases hs : c.s.state with
  | stateError => exact Or.inl hs
  | stateSuccess => exact Or.inr (Or.inl hs)
  | _ =>
    rw [hs] at h
    cases h

theorem Client.Inv.iterate (h : client.Inv ref c chunks) (n : ℕ) :
    ∃ chunks', client.Inv ref ((client.call^[n]) c) chunks' := by
  induction n generalizing c chunks with
  | zero => exact ⟨chunks, h⟩
  | succ n ih =>
    rw [Function.iterate_succ_apply]
    by_cases hs : client.Starved c
    · have hcall : client.call c = c := if_pos hs
      rw [hcall]
      exact ih h
    · obtain ⟨chunks', hinv, -⟩ := h.call hs
      exact ih hinv

/-- **A run settles**, because the work gets less: as long as it has not settled the handler is
not starved, and a call leaves less to do. -/
theorem Client.Inv.settles (h : client.Inv ref c chunks) :
    ∃ n, client.Settled ((client.call^[n]) c) := by
  induction hm : c.session.work chunks.flatten using Nat.strong_induction_on
    generalizing c chunks with
  | _ m ih =>
    by_cases hs : client.Starved c
    · exact ⟨0, Or.inr (Or.inr hs)⟩
    · have hcall : client.call c = (handleState c).1 := if_neg hs
      obtain ⟨chunks', hinv, hover | hlt⟩ := h.call hs
      · refine ⟨1, settled_of_over ?_⟩
        show (client.call c).session.phase.over = true
        rwa [hcall, session_handleState h.conn]
      · obtain ⟨n, hn⟩ := ih _ (hm ▸ hlt) hinv rfl
        exact ⟨n + 1, by rwa [Function.iterate_succ_apply]⟩

end Run

/-- **Segmentation independence.**  However the client's stream is cut into the
results of `recv`, and the replies into the results of `send`, and whatever the
table holds at first: a run settles, and wherever it has settled, the updates of
the table and the bytes sent, the way the connection ended and the table are those
of the reference. -/
theorem Client.run_eq_reference (client : Client) (table : Table) (raw : ConnState)
    (fd : ℕ) :
    (∀ n, client.Settled (client.run table raw fd n) →
      (client.run table raw fd n).reading =
        reference (fun z => rowLine (table z)) client.stream client.eof) ∧
    ∃ n, client.Settled (client.run table raw fd n) := by
  have h := client.inv_connect table raw fd
  constructor
  · intro n hs
    obtain ⟨chunks', hinv⟩ := h.iterate n
    exact hinv.reading_eq hs
  · exact h.settles

end Astrologer
