import Astrologer.Proxy.Children
import Astrologer.Server.Reference

/-!
# What the server reads behind the proxy

Each child lets request lines of clients pass and no others.  But the server does not
see the lines of the children.  It sees the bytes of one connection, in the order in
which they were sent, and cuts them into lines again.  A request that `send_all` sends
in two pieces is torn when the other child ends a line of its own in between: the rest
of the request stands at the beginning of a line then, and may say what it likes.

`never_recvH`: in a run in which no child goes on with the rest of a request at the
beginning of a line, if this rest begins as a star line does (`System.Guard`), the
server never comes to `STATE_RECV_H`, and its table stays.

## The two sides

`System` is the children and what they have sent.  What they receive from the server
is not limited, so the result holds whatever the server answers.  On the other side
stands `handleState`, fed with the bytes sent, cut in any way (`Feeds`).  What the two
have in common is `Unstarred`: no line of the bytes sent begins with the first letter
of a star line.
-/

namespace Astrologer.Proxy

open Lines

/-! ## The children and their connection

Both children write to one connection, and the server reads one stream.  The guard is about a
child that goes on in the middle of its request, at the beginning of a line of this stream. -/

/-- `CHILD_PROC_NUM`. -/
abbrev childProcNum : ℕ := 2

abbrev Child := Fin childProcNum

instance : NeZero childProcNum := ⟨Nat.succ_ne_zero 1⟩

/-- The bytes of a step on the connection to the server. -/
def Label.bytes : Label → List Byte
  | .sent bs => bs
  | .quiet => []
  | .sendFailed => []
  | .received _ => []

/-- The children, and all bytes that were sent to the server, in the order of the `send` calls:
the connection is one for all children, and this is what the server reads. -/
structure System where
  children : Child → Process
  wire : List Byte

/-- After the two calls of `fork`. -/
def System.init : System := ⟨fun _ => .accepting, []⟩

/-- A child takes a step, in any order with the others, and what it sends to the server is
appended to the wire. -/
inductive System.Step (sys : System) (c : Child) : Label → System → Prop
  | step {l : Label} {p' : Process} (h : (sys.children c).Step l p') :
    Step sys c l ⟨Function.update sys.children c p', sys.wire ++ l.bytes⟩

/-- What a child has still to send of a request. -/
def Process.unsent : Process → List Byte
  | .accepting => []
  | .serving s pos => if s.state = .stateSendRequest then s.rest pos else []
  | .exited => []

/-- The next byte is the first of a line. -/
def AtLineStart (w : List Byte) : Prop := w = [] ∨ ∃ w', w = w' ++ [delimiter]

/-- At the beginning of a line no child goes on with bytes that begin as a star line
does. -/
def System.Guard (sys : System) (c : Child) (l : Label) : Prop :=
  ∀ bs, l = .sent bs → AtLineStart sys.wire →
    (sys.children c).unsent.head? ≠ starRequestType.head?

/-- Every run. -/
def System.Reachable (sys : System) : Prop :=
  Relation.ReflTransGen (fun a b : System => ∃ c l, a.Step c l b) .init sys

/-- The runs whose steps all meet the condition. -/
def System.Guarded (sys : System) : Prop :=
  Relation.ReflTransGen (fun a b : System => ∃ c l, a.Step c l b ∧ a.Guard c l) .init sys

/-! ## What is sent

A request begins with the letter of a client's request, and where a line begins in the middle of a
request the guard forbids the letter of a star.  So no line of the stream begins with it. -/

/-- No line begins with the first letter of a star line. -/
def Unstarred (w : List Byte) : Prop :=
  ∀ pre rest, w = pre ++ rest → AtLineStart pre → rest.head? ≠ starRequestType.head?

theorem head?_ne_of_append {a b : List Byte} (ha : a ≠ [])
    (h : a.head? ≠ starRequestType.head?) : (a ++ b).head? ≠ starRequestType.head? := by
  cases a with
  | nil => exact absurd rfl ha
  | cons x a => exact h

theorem nil_head?_ne : ([] : List Byte).head? ≠ starRequestType.head? := by decide

theorem unstarred_nil : Unstarred [] := by
  intro pre rest h _
  obtain ⟨-, hrest⟩ := List.append_eq_nil_iff.mp h.symm
  rw [hrest]
  exact nil_head?_ne

/-- Bytes that have a delimiter at most at their end make no line start but the one
they are put at. -/
theorem Unstarred.append {w bs : List Byte} (h : Unstarred w)
    (hbs : ∀ a b, bs = a ++ b → delimiter ∈ a → b = [])
    (hhead : AtLineStart w → bs.head? ≠ starRequestType.head?) : Unstarred (w ++ bs) := by
  intro pre rest heq hstart
  rcases List.append_eq_append_iff.mp heq with ⟨mid, hpre, hrest⟩ | ⟨mid, hw, hmid⟩
  · -- the line starts in `bs`
    cases mid with
    | nil =>
      rw [List.append_nil] at hpre
      rw [List.nil_append] at hrest
      rw [hpre] at hstart
      exact hrest ▸ hhead hstart
    | cons x mid =>
      have hmem : delimiter ∈ x :: mid := by
        rcases hstart with hnil | ⟨w', hw'⟩
        · rw [hpre] at hnil
          exact absurd (List.append_eq_nil_iff.mp hnil).2 (List.cons_ne_nil x mid)
        · have hlast := congrArg List.getLast? (hpre.symm.trans hw')
          rw [List.getLast?_append, List.getLast?_append, List.getLast?_singleton,
            Option.some_or, List.getLast?_eq_some_getLast (List.cons_ne_nil x mid),
            Option.some_or, Option.some.injEq] at hlast
          exact hlast ▸ List.getLast_mem _
      rw [hbs _ _ hrest hmem]
      exact nil_head?_ne
  · by_cases hmid' : mid = []
    · rw [hmid', List.append_nil] at hw
      rw [hmid', List.nil_append] at hmid
      rw [hmid]
      exact hhead (hw ▸ hstart)
    · rw [hmid]
      exact head?_ne_of_append hmid' (h pre mid hw hstart)

/-- The invariant of the guarded runs: the children are where they should be, and no line on the
wire begins with the letter of a star's. -/
structure System.Inv (sys : System) : Prop where
  children : ∀ c, (sys.children c).Inv
  wire : Unstarred sys.wire

/-- What a child sends is a piece of its request. -/
theorem Process.Step.sent_eq {p p' : Process} {bs : List Byte} (h : p.Step (.sent bs) p')
    (hinv : p.Inv) :
    (∃ k, bs = p.unsent.take k) ∧ ∀ a b, bs = a ++ b → delimiter ∈ a → b = [] := by
  cases h with
  | @sendRequest s pos hs k =>
    rw [Process.Inv, hs] at hinv
    refine ⟨⟨k, by rw [Process.unsent, if_pos hs]⟩, fun a b heq hmem => ?_⟩
    have hsplit : s.buf.slice 0 s.len =
        (s.buf.slice 0 pos ++ a) ++ (b ++ (s.rest pos).drop k) := by
      have hslice := s.buf.slice_append 0 pos (s.len - pos)
      have hlen : pos + (s.len - pos) = s.len := by
        have hleft := hinv.1.left
        omega
      rw [Nat.zero_add, hlen] at hslice
      have htake := List.take_append_drop k (s.rest pos)
      rw [heq, List.append_assoc] at htake
      rw [← hslice, List.append_assoc, htake]
      rfl
    exact (List.append_eq_nil_iff.mp (hinv.1.line.eq_nil_of_mem hsplit
      (List.mem_append_right _ hmem))).1

/-- **A guarded step keeps the invariant.** -/
theorem System.Inv.step {sys sys' : System} {c : Child} {l : Label} (h : sys.Inv)
    (hs : sys.Step c l sys') (hg : sys.Guard c l) : sys'.Inv := by
  obtain ⟨hstep⟩ := hs
  refine ⟨fun d => ?_, ?_⟩
  · show (Function.update sys.children c _ d).Inv
    by_cases hd : d = c
    · rw [hd, Function.update_self]
      exact hstep.inv (h.children c)
    · rw [Function.update_of_ne hd]
      exact h.children d
  · cases l with
    | sent bs =>
      obtain ⟨⟨k, hk⟩, hbs⟩ := hstep.sent_eq (h.children c)
      refine h.wire.append hbs fun hstart => ?_
      have hhead := hg bs rfl hstart
      show bs.head? ≠ _
      rw [hk]
      cases k with
      | zero =>
        rw [List.take_zero]
        exact nil_head?_ne
      | succ k =>
        rw [List.head?_take, if_neg (Nat.succ_ne_zero k)]
        exact hhead
    | quiet => exact (List.append_nil sys.wire).symm ▸ h.wire
    | sendFailed => exact (List.append_nil sys.wire).symm ▸ h.wire
    | received r => exact (List.append_nil sys.wire).symm ▸ h.wire

theorem System.Guarded.inv {sys : System} (h : sys.Guarded) : sys.Inv := by
  induction h with
  | refl => exact ⟨fun _ => trivial, unstarred_nil⟩
  | tail _ hs ih =>
    obtain ⟨c, l, hstep, hg⟩ := hs
    exact ih.step hstep hg

/-! ## What the server makes of it

The server's connection is fed with the stream in any pieces.  As no line of it is a star line,
the session goes from request lines to replies and back, or fails. -/

/-- The bytes of a `recv` result that the server asks for. -/
def delivered : RecvResult → List Byte
  | .error => []
  | .bytes bs => bs.take astrologBufLen

/-- The results of `recv` are the bytes sent, as far as they come. -/
def Feeds (recvs : Stream' RecvResult) (w : List Byte) : Prop :=
  ∀ n, (recvs.take n).flatMap delivered <+: w

/-- The connection of the proxy at the server, after so many calls of handlers. -/
def serverAt (table : Table) (raw : ConnState) (fd : ℕ) (io : Io) (n : ℕ) : Ctx :=
  ((fun c => (handleState c).1)^[n]) ⟨raw.create fd, table, io⟩

theorem Feeds.next {recvs : Stream' RecvResult} {w : List Byte} (h : Feeds recvs w) :
    ∃ rest, w = delivered recvs.head ++ rest ∧ Feeds recvs.tail rest := by
  have hone := h 1
  rw [Stream'.take_succ, Stream'.take_zero, List.flatMap_singleton] at hone
  obtain ⟨rest, hrest⟩ := hone
  refine ⟨rest, hrest.symm, fun n => ?_⟩
  have hmore := h (n + 1)
  rw [Stream'.take_succ, List.flatMap_cons, ← hrest] at hmore
  exact (List.prefix_append_right_inj _).mp hmore

/-- Where a session stands in the bytes that it has been given. -/
def InLine (done unread : List Byte) : Phase → Prop
  | .firstLine line => ∃ used, done = used ++ (line ++ unread) ∧ AtLineStart used
  | .prognosis _ _ => False
  | .reply _ => ∃ used, done = used ++ unread ∧ AtLineStart used
  | .failed _ => True
  | .finished => True

/-- The session is fed with these bytes. -/
def Fed (w : List Byte) (s : Session) : Prop :=
  ∃ done rest, w = done ++ rest ∧ Feeds s.io.recvs rest ∧ InLine done s.unread s.phase

section Fed

variable {w : List Byte} {s : Session}

/-- A request line among bytes with no star lines. -/
theorem inLine_readFirstLine (hw : Unstarred w) {done rest line bs used : List Byte}
    (heq : w = done ++ rest) (hdone : done = used ++ (line ++ bs))
    (hused : AtLineStart used) :
    InLine done (s.readFirstLine line bs).1.unread (s.readFirstLine line bs).1.phase := by
  unfold Session.readFirstLine
  cases hf : frame astrologBufLen delimiter (line ++ bs) with
  | line l more =>
    obtain ⟨hmem, hl, hmore⟩ := frame_eq_line hf
    have hsplit : line ++ bs = l ++ more := by
      rw [hl, hmore, takeLine_append_dropLine]
    obtain ⟨text, -, htext⟩ := exists_takeLine_eq_of_mem (List.mem_of_mem_take hmem)
    have hline : AtLineStart (used ++ l) :=
      Or.inr ⟨used ++ text, by rw [hl, htext, List.append_assoc]⟩
    have hnext : done = (used ++ l) ++ more := by
      rw [hdone, hsplit, List.append_assoc]
    simp only [Session.obey]
    cases hclass : classify l with
    | star z =>
      -- such a line begins with the first letter of a star line
      have hstar : starRequestType <+: l := by
        by_contra hnot
        rw [classify, if_neg hnot] at hclass
        split at hclass
        · split at hclass <;> cases hclass
        · cases hclass
      obtain ⟨tl, htl⟩ := hstar
      refine absurd ?_ (hw used (l ++ (more ++ rest)) ?_ hused)
      · rw [← htl]
        rfl
      · rw [heq, hdone, hsplit, List.append_assoc, List.append_assoc]
    | client z => exact ⟨used ++ l, hnext, hline⟩
    | bad => trivial
  | overlong => trivial
  | unfinished => exact ⟨used, hdone.trans (by rw [List.append_nil]), hused⟩

/-- **A round of the session** leaves it in the same bytes, a little further: it is in a request
line, which is no star's, or at a reply, or it has failed. -/
theorem Fed.round (h : Fed w s) (hw : Unstarred w) : Fed w s.round.1 := by
  obtain ⟨done, rest, heq, hfeed, hin⟩ := h
  unfold Session.round
  cases hphase : s.phase with
  | firstLine line =>
    rw [hphase] at hin
    obtain ⟨used, hdone, hused⟩ := hin
    unfold Session.fetch
    by_cases hun : s.unread = []
    · rw [if_pos hun]
      rw [hun, List.append_nil] at hdone
      obtain ⟨rest', hrest, hfeed'⟩ := hfeed.next
      unfold Io.recv
      cases hhead : s.io.recvs.head with
      | error =>
        rw [hhead] at hrest
        exact ⟨done, rest', heq.trans (congrArg (done ++ ·) hrest), hfeed', trivial⟩
      | bytes bs =>
        rw [hhead, delivered] at hrest
        have heq' : w = (done ++ bs.take astrologBufLen) ++ rest' := by
          rw [heq, hrest, List.append_assoc]
        cases hcut : bs.take astrologBufLen with
        | nil =>
          rw [hcut] at heq'
          simp only [hcut]
          refine ⟨_, rest', heq', hfeed', ?_⟩
          by_cases hnil : line = []
          · rw [if_pos hnil]
            trivial
          · rw [if_neg hnil]
            trivial
        | cons b tl =>
          rw [hcut] at heq'
          have hdone' : done ++ b :: tl = used ++ (line ++ b :: tl) := by
            rw [hdone, List.append_assoc]
          have hread := fun t : Session =>
            inLine_readFirstLine (s := t) hw heq' hdone' hused
          simp only [hcut]
          refine ⟨_, rest', heq', ?_, hread _⟩
          unfold Session.readFirstLine Session.obey
          split
          · split <;> exact hfeed'
          · exact hfeed'
          · exact hfeed'
    · rw [if_neg hun]
      refine ⟨done, rest, heq, ?_, inLine_readFirstLine hw heq hdone hused⟩
      simp only
      unfold Session.readFirstLine Session.obey
      split
      · split <;> exact hfeed
      · exact hfeed
      · exact hfeed
  | prognosis z line =>
    rw [hphase] at hin
    exact hin.elim
  | reply pending =>
    rw [hphase] at hin
    obtain ⟨used, hdone, hused⟩ := hin
    unfold Io.send
    cases s.io.sends.head with
    | error => exact ⟨done, rest, heq, hfeed, trivial⟩
    | count k =>
      simp only
      by_cases hnil : pending.drop (min k pending.length) = []
      · rw [if_pos hnil]
        exact ⟨done, rest, heq, hfeed, used, hdone, hused⟩
      · rw [if_neg hnil]
        exact ⟨done, rest, heq, hfeed, used, hdone, hused⟩
  | failed op => exact ⟨done, rest, heq, hfeed, by rw [hphase]; trivial⟩
  | finished => exact ⟨done, rest, heq, hfeed, by rw [hphase]; trivial⟩

end Fed

/-- Outside `STATE_RECV_H` no handler writes to the table. -/
theorem handleState_table {c : Ctx} (h : c.s.state ≠ .stateRecvH) :
    (handleState c).1.zodiacPrognosises = c.zodiacPrognosises := by
  have hstar : ∀ c : Ctx, (parseStarFirstLine c).1.zodiacPrognosises =
      c.zodiacPrognosises := by
    intro c
    unfold parseStarFirstLine
    simp only
    split <;> rfl
  have hclient : ∀ c : Ctx, (parseClientFirstLine c).1.zodiacPrognosises =
      c.zodiacPrognosises := by
    intro c
    unfold parseClientFirstLine
    simp only
    split <;> rfl
  have hfirst : ∀ c : Ctx, (firstLineReceived c).1.zodiacPrognosises =
      c.zodiacPrognosises := by
    intro c
    unfold firstLineReceived
    simp only
    split
    · split
      · exact hstar c
      · split
        · exact hclient c
        · rfl
    · split <;> rfl
  have hsend : (Astrologer.handleSendReply c).1.zodiacPrognosises =
      c.zodiacPrognosises := by
    unfold Astrologer.handleSendReply
    simp only
    split
    · rfl
    · split <;> rfl
  unfold handleState
  cases hs : c.s.state with
  | stateRecvFirstLine =>
    show (handleFirstLine c).1.zodiacPrognosises = _
    unfold handleFirstLine
    simp only
    split
    · rfl
    · split
      · rfl
      · exact hfirst _
  | stateRecvH => exact absurd hs h
  | stateSendThanks => exact hsend
  | stateSendH => exact hsend
  | stateError => rfl
  | stateSuccess => rfl

/-- A session that is fed so is not in `STATE_RECV_H`. -/
theorem Fed.state_ne {w : List Byte} {c : Ctx} (h : Fed w c.session) :
    c.s.state ≠ .stateRecvH := by
  intro hs
  obtain ⟨done, rest, -, -, hin⟩ := h
  have hphase : c.session.phase = c.s.phase := rfl
  rw [hphase, ConnState.phase, hs] at hin
  exact hin

/-- **The server keeps to the first line and the replies**, for any number of handler calls and
however the bytes are cut; so it never writes to its table. -/
theorem serverAt_of_unstarred {w : List Byte} (hw : Unstarred w) {io : Io}
    (hfeed : Feeds io.recvs w) (table : Table) (raw : ConnState) (fd n : ℕ) :
    (serverAt table raw fd io n).s.state ≠ .stateRecvH ∧
      (serverAt table raw fd io n).zodiacPrognosises = table := by
  have hall : ConnInv (serverAt table raw fd io n).s ∧
      Fed w (serverAt table raw fd io n).session ∧
      (serverAt table raw fd io n).zodiacPrognosises = table := by
    induction n with
    | zero =>
      refine ⟨connInv_create raw fd, ⟨[], w, rfl, hfeed, [], ?_, Or.inl rfl⟩, rfl⟩
      rfl
    | succ n ih =>
      obtain ⟨hinv, hfed, htable⟩ := ih
      have hstep : serverAt table raw fd io (n + 1) =
          (handleState (serverAt table raw fd io n)).1 :=
        Function.iterate_succ_apply' _ n _
      rw [hstep]
      refine ⟨(handleState_session hinv).2, ?_, ?_⟩
      · rw [session_handleState hinv]
        exact hfed.round hw
      · rw [handleState_table hfed.state_ne, htable]
  exact ⟨hall.2.1.state_ne, hall.2.2⟩

/-- **Access control.**  In every run of the two children in which no child goes on
with a request at the beginning of a line of the connection, if the rest of it begins
as a star line does, the server is never in `STATE_RECV_H`, however the bytes are cut
into results of `recv`, and its table is as it was. -/
theorem never_recvH {sys : System} (h : sys.Guarded) {io : Io}
    (hfeed : Feeds io.recvs sys.wire) (table : Table) (raw : ConnState) (fd n : ℕ) :
    (serverAt table raw fd io n).s.state ≠ .stateRecvH ∧
      (serverAt table raw fd io n).zodiacPrognosises = table :=
  serverAt_of_unstarred h.inv.wire hfeed table raw fd n

/-! Two runs to look at.  The first child sends a request in two pieces.  In the first
run nothing comes in between; in the second run the other child sends a request there,
and the second piece, which begins a line then, is a star line. -/

/-- A child that has just accepted a client. -/
def sampleConnected : ProxyState :=
  ⟨(CArray.replicate _ 0).poke astrologBufLen 0, 0, .stateRecvRequest⟩

/-- A child that has received this request line. -/
def sampleRequest (line : List Byte) : ProxyState :=
  handleRecvRequest line.length
    { sampleConnected with buf := sampleConnected.buf.memcpy 0 line }

def sampleTorn : List Byte := str "HOROSCOPE AriesSTARS SAY Taurus\n"
def sampleOther : List Byte := str "HOROSCOPE Gemini\n"

theorem sampleTorn_received :
    Process.afterRecv handleRecvRequest sampleConnected 0 (.bytes sampleTorn) =
      .serving (sampleRequest sampleTorn) 0 := by decide

theorem sampleOther_received :
    Process.afterRecv handleRecvRequest sampleConnected 0 (.bytes sampleOther) =
      .serving (sampleRequest sampleOther) 0 := by decide

/-- The two children. -/
def sampleChildren (p q : Process) : Child → Process := fun c => if c = 0 then p else q

theorem update_sampleChildren_zero (p q p' : Process) :
    Function.update (sampleChildren p q) 0 p' = sampleChildren p' q := by
  funext c
  by_cases hc : c = 0
  · rw [hc, Function.update_self]
    rfl
  · rw [Function.update_of_ne hc, sampleChildren, sampleChildren, if_neg hc, if_neg hc]

theorem update_sampleChildren_one (p q q' : Process) :
    Function.update (sampleChildren p q) 1 q' = sampleChildren p q' := by
  funext c
  by_cases hc : c = 1
  · rw [hc, Function.update_self]
    rfl
  · have hother : ∀ c : Child, c ≠ 1 → c = 0 := by decide
    rw [Function.update_of_ne hc, hother c hc]
    rfl

section Samples

variable {wire : List Byte} {p p' q q' : Process} {l : Label}

theorem sample_step_zero (h : p.Step l p') :
    System.Step ⟨sampleChildren p q, wire⟩ 0 l
      ⟨sampleChildren p' q, wire ++ l.bytes⟩ := by
  have hstep : System.Step ⟨sampleChildren p q, wire⟩ 0 l _ := .step h
  rwa [update_sampleChildren_zero] at hstep

theorem sample_step_one (h : q.Step l q') :
    System.Step ⟨sampleChildren p q, wire⟩ 1 l
      ⟨sampleChildren p q', wire ++ l.bytes⟩ := by
  have hstep : System.Step ⟨sampleChildren p q, wire⟩ 1 l _ := .step h
  rwa [update_sampleChildren_one] at hstep

end Samples

/-- What the first child is, when it has sent the first piece. -/
def sampleHalf : Process := .serving (sampleRequest sampleTorn) 15

/-- What a child is, when it has sent its request. -/
def sampleSent (line : List Byte) : Process :=
  .resume (handleSendRequest 0 (sampleRequest line))

/-- A child sends up to `k` bytes of its request. -/
theorem sample_sent {line bs : List Byte} {pos k : ℕ} {p : Process}
    (hs : (sampleRequest line).state = .stateSendRequest)
    (hbytes : ((sampleRequest line).rest pos).take k = bs)
    (hnext : Process.afterSend handleSendRequest (sampleRequest line) pos (.count k) = p) :
    (Process.serving (sampleRequest line) pos).Step (.sent bs) p := by
  rw [← hbytes, ← hnext]
  exact .sendRequest hs k

theorem sampleTorn_first : (Process.serving (sampleRequest sampleTorn) 0).Step
    (.sent (str "HOROSCOPE Aries")) sampleHalf :=
  sample_sent (k := 15) (by decide) (by decide) (by decide)

theorem sampleTorn_second :
    sampleHalf.Step (.sent (str "STARS SAY Taurus\n")) (sampleSent sampleTorn) :=
  sample_sent (k := 80) (by decide) (by decide) (by decide)

theorem sampleOther_sent : (Process.serving (sampleRequest sampleOther) 0).Step
    (.sent sampleOther) (sampleSent sampleOther) :=
  sample_sent (k := 80) (by decide) (by decide) (by decide)

/-- A client connects and sends its line. -/
theorem sample_received {line : List Byte}
    (h : Process.afterRecv handleRecvRequest sampleConnected 0 (.bytes line) =
      .serving (sampleRequest line) 0) :
    Process.Step .accepting .quiet (.serving sampleConnected 0) ∧
      Process.Step (.serving sampleConnected 0) .quiet
        (.serving (sampleRequest line) 0) :=
  ⟨.accept (CArray.replicate _ 0), h ▸ .recvRequest rfl (.bytes line)⟩

theorem sample_init : System.init = ⟨sampleChildren .accepting .accepting, []⟩ := by
  refine congrArg (fun f => System.mk f []) (funext fun c => ?_)
  rw [sampleChildren]
  split <;> rfl

/-- The results of `recv` at the server. -/
def sampleIo (w : List Byte) : Io :=
  ⟨Stream'.cons (.bytes w) (Stream'.const .error), Stream'.const (.count 80), []⟩

theorem sampleIo_feeds (w : List Byte) : Feeds (sampleIo w).recvs w := by
  intro n
  cases n with
  | zero => exact List.nil_prefix
  | succ n =>
    have hnone : ∀ m, ((Stream'.const RecvResult.error).take m).flatMap delivered = [] := by
      intro m
      induction m with
      | zero => rfl
      | succ m ih =>
        rw [Stream'.take_succ, List.flatMap_cons]
        exact ih
    have htake : ((sampleIo w).recvs.take (n + 1)).flatMap delivered =
        w.take astrologBufLen ++ [] := by
      rw [Stream'.take_succ, List.flatMap_cons, ← hnone n]
      rfl
    rw [htake, List.append_nil]
    exact List.take_prefix _ _

/-- The memory of a connection at the server. -/
def sampleRaw : ConnState where
  intermBuf := ⟨0, CArray.replicate _ 0, 0, 0⟩
  buf := CArray.replicate _ 0
  curPos := 0
  rem := 0
  zodiacIx := 0
  state := .stateError
  op := .opRead

def sampleTable : Table := fun _ => CArray.replicate _ 0

theorem sampleTorn_guarded :
    System.Guarded ⟨sampleChildren (sampleSent sampleTorn) .accepting, sampleTorn⟩ := by
  have hquiet : ∀ (sys : System) (c : Child), sys.Guard c .quiet :=
    fun _ _ _ h => nomatch h
  have hfirst : System.Guard ⟨sampleChildren (.serving (sampleRequest sampleTorn) 0)
      .accepting, []⟩ 0 (.sent (str "HOROSCOPE Aries")) := fun _ _ _ => by decide
  have hsecond : System.Guard ⟨sampleChildren sampleHalf .accepting,
      str "HOROSCOPE Aries"⟩ 0 (.sent (str "STARS SAY Taurus\n")) := by
    intro _ _ hstart
    rcases hstart with hnil | ⟨w', hw'⟩
    · exact absurd hnil (by decide)
    · have hlast := congrArg List.getLast? hw'
      rw [List.getLast?_append, List.getLast?_singleton, Option.some_or] at hlast
      exact absurd hlast (by decide)
  have hrun : System.Guarded System.init := .refl
  rw [sample_init] at hrun
  obtain ⟨haccept, hrecv⟩ := sample_received sampleTorn_received
  exact (((hrun.tail ⟨0, .quiet, sample_step_zero haccept, hquiet _ _⟩).tail
    ⟨0, .quiet, sample_step_zero hrecv, hquiet _ _⟩).tail
    ⟨0, _, sample_step_zero sampleTorn_first, hfirst⟩).tail
    ⟨0, _, sample_step_zero sampleTorn_second, hsecond⟩

/-- The first run. -/
theorem sampleTorn_never_recvH :
    (serverAt sampleTable sampleRaw 5 (sampleIo sampleTorn) 3).s.state ≠ .stateRecvH ∧
      (serverAt sampleTable sampleRaw 5 (sampleIo sampleTorn) 3).zodiacPrognosises =
        sampleTable :=
  never_recvH sampleTorn_guarded (sampleIo_feeds sampleTorn) sampleTable sampleRaw 5 3

/-- The bytes of the second run. -/
def sampleWire : List Byte :=
  str "HOROSCOPE Aries" ++ sampleOther ++ str "STARS SAY Taurus\n"

theorem sampleWire_reachable : System.Reachable
    ⟨sampleChildren (sampleSent sampleTorn) (sampleSent sampleOther), sampleWire⟩ := by
  have hrun : System.Reachable System.init := .refl
  rw [sample_init] at hrun
  obtain ⟨haccept, hrecv⟩ := sample_received sampleTorn_received
  obtain ⟨haccept', hrecv'⟩ := sample_received sampleOther_received
  exact ((((((hrun.tail ⟨0, _, sample_step_zero haccept⟩).tail
    ⟨0, _, sample_step_zero hrecv⟩).tail
    ⟨1, _, sample_step_one haccept'⟩).tail
    ⟨1, _, sample_step_one hrecv'⟩).tail
    ⟨0, _, sample_step_zero sampleTorn_first⟩).tail
    ⟨1, _, sample_step_one sampleOther_sent⟩).tail
    ⟨0, _, sample_step_zero sampleTorn_second⟩

/-- The second run: the server is in `STATE_RECV_H`, and waits for a prognosis. -/
theorem sampleWire_recvH :
    (∃ sys : System, sys.Reachable ∧ sys.wire = sampleWire) ∧
      Feeds (sampleIo sampleWire).recvs sampleWire ∧
      (serverAt sampleTable sampleRaw 5 (sampleIo sampleWire) 3).s.state =
        .stateRecvH :=
  ⟨⟨_, sampleWire_reachable, rfl⟩, sampleIo_feeds sampleWire, by decide⟩

end Astrologer.Proxy
