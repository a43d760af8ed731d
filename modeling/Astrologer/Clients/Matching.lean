import Astrologer.Clients.System
import Astrologer.Server.Discipline

/-!
# Where client and server are in an exchange

`Matched` puts the phase of a connection of the server beside the client and the pipes.  It
is kept by the rounds of `update_state` (`Matched.round`): what the server asks the kernel
in a round is seen first (`Session.asks`), and behind it there is nothing but the work on
the bytes that are there.

Every byte that moves on makes the exchange cheaper (`cost`): a byte that the server has
received is cheaper than one on the way to it, and a whole reply is cheaper than a byte of
a request.
-/

namespace Astrologer.Clients

open Lines ServerStateType FdOperation
open Proxy (StarPair)

/-! ## What the server asks

Of the entries of a record only the calls of `recv` and `send` move bytes.  A round makes at most
one of them, before it records anything else. -/

/-- What a `recv` of the server shows. -/
def recvEvent : RecvResult → ConnEvent
  | .error => .recvError
  | .bytes bs => .recv (bs.take astrologBufLen)

/-- What a `send` of the server shows. -/
def sendEvent (pending : List Byte) : SendResult → ConnEvent
  | .error => .sendError
  | .count k => .sent (pending.take k)

/-- What `Session.fetch` asks the kernel. -/
def fetched (s : Session) : List ConnEvent :=
  if s.unread = [] then [recvEvent s.io.recvs.head] else []

/-- What a round asks the kernel. -/
def asks (s : Session) : List ConnEvent :=
  match s.phase with
  | .firstLine _ => fetched s
  | .prognosis _ _ => fetched s
  | .reply pending => [sendEvent pending s.io.sends.head]
  | .failed _ => []
  | .finished => []

/-- While there are bytes left, nothing is asked. -/
theorem asks_of_goesOn {s : Session} (h : s.goesOn = true) : asks s = [] := by
  rw [Session.goesOn, Bool.and_eq_true, decide_eq_true_iff] at h
  unfold asks fetched
  rw [if_neg h.2]
  cases hphase : s.phase with
  | firstLine line => rfl
  | prognosis z line => rfl
  | reply pending =>
    rw [hphase] at h
    cases h.1
  | failed op => rfl
  | finished => rfl

theorem fetch_trace_eq (s : Session) : s.fetch.2.io.trace = s.io.trace ++ fetched s := by
  unfold Session.fetch fetched
  by_cases hun : s.unread = []
  · rw [if_pos hun, if_pos hun]
    unfold Io.recv recvEvent
    cases s.io.recvs.head with
    | error => rfl
    | bytes bs =>
      dsimp only
      cases bs.take astrologBufLen with
      | nil => rfl
      | cons b tl => rfl
  · rw [if_neg hun, if_neg hun]
    exact (List.append_nil _).symm

theorem readFirstLine_trace (s : Session) (line bs : List Byte) :
    ∃ es, (s.readFirstLine line bs).1.io.trace = s.io.trace ++ es ∧ ∀ e ∈ es, e.call = none := by
  have hnil : ∃ es, s.io.trace = s.io.trace ++ es ∧ ∀ e ∈ es, ConnEvent.call e = none :=
    ⟨[], (List.append_nil _).symm, fun _ he => absurd he List.not_mem_nil⟩
  unfold Session.readFirstLine
  cases frame astrologBufLen delimiter (line ++ bs) with
  | line l rest =>
    simp only [Session.obey]
    cases classify l with
    | star z => exact hnil
    | client z =>
      exact ⟨[.request z], rfl, fun e he => by rw [List.mem_singleton.mp he]; rfl⟩
    | bad => exact hnil
  | overlong => exact hnil
  | unfinished => exact hnil

theorem readPrognosis_trace (s : Session) (z : ℕ) (line bs : List Byte) :
    ∃ es, (s.readPrognosis z line bs).1.io.trace = s.io.trace ++ es ∧
      ∀ e ∈ es, e.call = none := by
  have hnil : ∃ es, s.io.trace = s.io.trace ++ es ∧ ∀ e ∈ es, ConnEvent.call e = none :=
    ⟨[], (List.append_nil _).symm, fun _ he => absurd he List.not_mem_nil⟩
  unfold Session.readPrognosis
  cases frame astrologBufLen delimiter (line ++ bs) with
  | line l rest =>
    exact ⟨[.prognosis z l], rfl, fun e he => by rw [List.mem_singleton.mp he]; rfl⟩
  | overlong => exact hnil
  | unfinished => exact hnil

/-- **A round asks first**, and then it works on what it has: behind the call of `recv` or `send`
it records nothing that moves bytes. -/
theorem round_trace (s : Session) :
    ∃ es, s.round.1.io.trace = s.io.trace ++ (asks s ++ es) ∧ ∀ e ∈ es, e.call = none := by
  have hnil : ∀ e ∈ ([] : List ConnEvent), e.call = none :=
    fun _ he => absurd he List.not_mem_nil
  have htrace := fetch_trace_eq s
  unfold Session.round asks
  cases s.phase with
  | firstLine line =>
    cases hf : s.fetch with
    | mk f t =>
      rw [hf] at htrace
      cases f with
      | error => exact ⟨[], by rw [List.append_nil]; exact htrace, hnil⟩
      | eof => exact ⟨[], by rw [List.append_nil]; exact htrace, hnil⟩
      | bytes bs =>
        obtain ⟨es, hes, hsilent⟩ := readFirstLine_trace t line bs
        exact ⟨es, by rw [← List.append_assoc, ← htrace]; exact hes, hsilent⟩
  | prognosis z line =>
    cases hf : s.fetch with
    | mk f t =>
      rw [hf] at htrace
      cases f with
      | error => exact ⟨[], by rw [List.append_nil]; exact htrace, hnil⟩
      | eof => exact ⟨[], by rw [List.append_nil]; exact htrace, hnil⟩
      | bytes bs =>
        obtain ⟨es, hes, hsilent⟩ := readPrognosis_trace t z line bs
        exact ⟨es, by rw [← List.append_assoc, ← htrace]; exact hes, hsilent⟩
  | reply pending =>
    refine ⟨[], ?_, hnil⟩
    dsimp only
    unfold Io.send sendEvent
    cases s.io.sends.head with
    | error => rfl
    | count k =>
      dsimp only
      split <;> rfl
  | failed op => exact ⟨[], (List.append_nil _).symm, hnil⟩
  | finished => exact ⟨[], (List.append_nil _).symm, hnil⟩

/-- Entries that ask nothing leave the connection alone. -/
theorem Link.server_silent {es : List ConnEvent} (h : ∀ e ∈ es, e.call = none) (l : Link) :
    es.foldlM Link.server l = some l := by
  induction es with
  | nil => rfl
  | cons e es ih =>
    have hstep : l.server e = some l := by
      have he := h e List.mem_cons_self
      cases e with
      | recv bs => cases he
      | recvError => cases he
      | sent bs => cases he
      | sendError => cases he
      | request z => rfl
      | prognosis z line => rfl
    rw [List.foldlM_cons, hstep]
    exact ih fun e he => h e (List.mem_cons_of_mem _ he)

/-- The server moves bytes, and nothing else changes. -/
theorem Link.server_keeps {es : List ConnEvent} {l l' : Link}
    (h : es.foldlM Link.server l = some l') : l'.stage = l.stage ∧ l'.closed = l.closed := by
  induction es generalizing l with
  | nil =>
    cases h
    exact ⟨rfl, rfl⟩
  | cons e es ih =>
    obtain ⟨m, hm, hrest⟩ := Option.bind_eq_some_iff.mp h
    have hone : m.stage = l.stage ∧ m.closed = l.closed := by
      cases e with
      | recv bs =>
        obtain ⟨up, -, rfl⟩ := Option.map_eq_some_iff.mp hm
        exact ⟨rfl, rfl⟩
      | recvError =>
        rw [Link.server] at hm
        split at hm
        · cases hm
          exact ⟨rfl, rfl⟩
        · cases hm
      | sent bs =>
        rw [Link.server] at hm
        split at hm
        · cases hm
        · cases hm
          exact ⟨rfl, rfl⟩
      | sendError => cases hm
      | request z =>
        cases hm
        exact ⟨rfl, rfl⟩
      | prognosis z line =>
        cases hm
        exact ⟨rfl, rfl⟩
    exact ⟨(ih hrest).1.trans hone.1, (ih hrest).2.trans hone.2⟩

/-! ## The exchange

What is matched, and what the bytes cost.  A byte costs less at each place that it comes to, and a
request so much more than its reply that an answer pays for itself. -/

/-- What client and server are doing, by the phase of the server: nothing; or the request line,
and for a star then the prognosis line, is on its way; or the reply is on its way back, and may
have left the server already.  In each case the bytes of the text that is under way stand in the
pieces between the two, in order, and nothing else does.  `unanswered` is what the record says
before the reply, and `answered` what it says behind it. -/
inductive Matched (unanswered : Prop) (answered : Exchange → List Byte → Prop) :
    Phase → List Byte → Link → Process → Prop
  /-- No exchange. -/
  | rest {l : Link} {c : Process} (job : c.job = none) (up : l.up = []) (down : l.down = []) :
    Matched unanswered answered (.firstLine []) [] l c
  /-- The request line is on its way, and what may come behind it. -/
  | request {line unread : List Byte} {l : Link} {c : Process} {job : Exchange}
      (hjob : c.job = some job) (wait : unanswered)
      (text : line ++ (unread ++ (l.up ++ c.unsent)) = job.text) (down : l.down = [])
      (got : c.got = []) : Matched unanswered answered (.firstLine line) unread l c
  /-- The prognosis line is on its way. -/
  | prognosis {line unread : List Byte} {l : Link} {c : Process} {pair : StarPair}
      (hjob : c.job = some (.star pair)) (wait : unanswered)
      (text : line ++ (unread ++ (l.up ++ c.unsent)) = pair.prognosis) (down : l.down = [])
      (got : c.got = []) : Matched unanswered answered (.prognosis pair.zodiacIx line) unread l c
  /-- The reply is on its way. -/
  | reply {pending : List Byte} {l : Link} {c : Process} {job : Exchange} {reply : List Byte}
      (hjob : c.job = some job) (unsent : c.unsent = []) (up : l.up = [])
      (text : c.got ++ (l.down ++ pending) = reply) (ans : answered job reply) :
      Matched unanswered answered (.reply pending) [] l c
  /-- The reply has been sent. -/
  | replied {l : Link} {c : Process} {job : Exchange} {reply : List Byte}
      (hjob : c.job = some job) (unsent : c.unsent = []) (up : l.up = [])
      (text : c.got ++ l.down = reply) (ans : answered job reply) :
      Matched unanswered answered (.firstLine []) [] l c

/-- What has become of the record changes what is known of the exchange. -/
theorem Matched.imp {u u' : Prop} {a a' : Exchange → List Byte → Prop} {phase : Phase}
    {unread : List Byte} {l : Link} {c : Process} (h : Matched u a phase unread l c)
    (hu : u → u') (ha : ∀ job reply, a job reply → a' job reply) :
    Matched u' a' phase unread l c := by
  cases h with
  | rest job up down => exact .rest job up down
  | request hjob wait text down got => exact .request hjob (hu wait) text down got
  | prognosis hjob wait text down got => exact .prognosis hjob (hu wait) text down got
  | reply hjob unsent up text ans => exact .reply hjob unsent up text (ha _ _ ans)
  | replied hjob unsent up text ans => exact .replied hjob unsent up text (ha _ _ ans)

/-- Between two exchanges nothing is on its way. -/
theorem Matched.resting {u : Prop} {a : Exchange → List Byte → Prop} {phase : Phase}
    {unread : List Byte} {l : Link} {c : Process} (h : Matched u a phase unread l c)
    (hjob : c.job = none) :
    phase = .firstLine [] ∧ unread = [] ∧ l.up = [] ∧ l.down = [] := by
  cases h with
  | rest _ up down => exact ⟨rfl, rfl, up, down⟩
  | request hsome => exact absurd (hjob.symm.trans hsome) (by simp)
  | prognosis hsome => exact absurd (hjob.symm.trans hsome) (by simp)
  | reply hsome => exact absurd (hjob.symm.trans hsome) (by simp)
  | replied hsome => exact absurd (hjob.symm.trans hsome) (by simp)

/-- What the bytes of a connection cost that the server holds for it. -/
def load : Phase → ℕ
  | .firstLine line => 199 * line.length
  | .prognosis _ line => 199 * line.length
  | .reply pending => 2 * pending.length
  | .failed _ => 0
  | .finished => 0

/-- What the bytes of a connection cost, wherever they are. -/
def cost (phase : Phase) (unread : List Byte) (l : Link) : ℕ :=
  load phase + 199 * unread.length + 200 * l.up.length + l.down.length

/-! ## The lines

The texts of an exchange as the server sees them: legal requests, a prognosis that fits its row,
and replies of one line. -/

/-- What the server makes of the requests. -/
theorem classify_request : ∀ z < zodiacNum,
    classify (starRequestType ++ getZodiac z ++ [delimiter]) = .star z ∧
      classify (clientRequestType ++ getZodiac z ++ [delimiter]) = .client z := by decide

theorem delimiter_notMem_request : ∀ z < zodiacNum,
    delimiter ∉ starRequestType ++ getZodiac z ∧ delimiter ∉ clientRequestType ++ getZodiac z := by
  decide

theorem Exchange.request_isLine (job : Exchange) : IsLine delimiter job.request := by
  cases job with
  | star pair => exact ⟨_, (delimiter_notMem_request _ pair.zodiac_lt).1, rfl⟩
  | ordinary z => exact ⟨_, (delimiter_notMem_request _ z.isLt).2, rfl⟩

theorem Exchange.request_length_le (job : Exchange) : job.request.length ≤ astrologBufLen := by
  cases job with
  | star pair =>
    have hfit := (request_fits _ pair.zodiac_lt).1
    show (starRequestType ++ getZodiac pair.zodiacIx ++ [delimiter]).length ≤ _
    rw [List.length_append, List.length_append, List.length_singleton]
    exact hfit
  | ordinary z =>
    have hfit := (request_fits _ z.isLt).2
    show (clientRequestType ++ getZodiac z ++ [delimiter]).length ≤ _
    rw [List.length_append, List.length_append, List.length_singleton]
    exact hfit

theorem prognosis_isLine (pair : StarPair) : IsLine delimiter pair.prognosis :=
  ⟨_, Proxy.delimiter_notMem_decimal pair.number, rfl⟩

theorem prognosis_length_le (pair : StarPair) : pair.prognosis.length ≤ astrologBufLen := by
  have hlen := Proxy.length_decimal_le pair.number_lt
  rw [StarPair.prognosis, List.length_append, List.length_singleton, astrologBufLen]
  omega

theorem thanks_isLine : IsLine delimiter starReplySuccess := ⟨str "THANKS!", by decide, by decide⟩

/-! ## Rounds

For each phase the round that leads out of it.  A request line that is complete is the request of
the exchange, so its reply is the one that the exchange is to have; a part of a line leaves the
phase as it is. -/

section Rounds

variable {p : Ptr} {b : ℕ} {trace : List ServerEvent} {s : Session} {l l' : Link} {c : Process}
  {line bs : List Byte}

/-- What is known of an exchange from the record of `p`. -/
abbrev MatchedAt (p : Ptr) (b : ℕ) (trace : List ServerEvent) :
    Phase → List Byte → Link → Process → Prop :=
  Matched (Unanswered p b trace) (Answered p b trace)

/-- The server has bytes of a request line. -/
theorem matched_readFirstLine {job : Exchange} (hjob : c.job = some job)
    (hwait : Unanswered p b trace) (hb : b ≤ trace.length)
    (htext : line ++ (bs ++ (l.up ++ c.unsent)) = job.text) (hdown : l.down = [])
    (hgot : c.got = []) (hstore : ∀ z, s.store z = lastPrognosis z trace)
    (hlines : ∀ z, IsLine delimiter (replyTo (s.store z)) ∧
      (replyTo (s.store z)).length ≤ astrologBufLen) :
    ∃ es, (s.readFirstLine line bs).1.io.trace = s.io.trace ++ es ∧
      MatchedAt p b (trace ++ es.map (.conn p)) (s.readFirstLine line bs).1.phase
        (s.readFirstLine line bs).1.unread l c ∧
      load (s.readFirstLine line bs).1.phase + 199 * (s.readFirstLine line bs).1.unread.length ≤
        199 * line.length + 199 * bs.length := by
  have hsplit : line ++ bs ++ (l.up ++ c.unsent) = job.request ++ job.prognosis := by
    rw [List.append_assoc]
    exact htext
  rcases job.request_isLine.frame_of_append job.request_length_le hsplit with
    ⟨rest, hrest, hbehind, hframe⟩ | ⟨hframe, -⟩
  · have hcost := congrArg List.length hrest
    have hpos := List.length_pos_iff.mpr job.request_isLine.ne_nil
    rw [List.length_append, List.length_append] at hcost
    rw [Session.readFirstLine, hframe]
    simp only [Session.obey]
    cases job with
    | star pair =>
      have hclass : classify (Exchange.star pair).request = .star pair.zodiacIx :=
        (classify_request _ pair.zodiac_lt).1
      rw [hclass]
      refine ⟨[], (List.append_nil _).symm, ?_, ?_⟩
      · rw [List.map_nil, List.append_nil]
        exact .prognosis hjob hwait hbehind hdown hgot
      · show 199 * 0 + 199 * rest.length ≤ _
        omega
    | ordinary z =>
      have hclass : classify (Exchange.ordinary z).request = .client z :=
        (classify_request _ z.isLt).2
      rw [hclass]
      obtain ⟨hnil, hup⟩ := List.append_eq_nil_iff.mp hbehind
      obtain ⟨hup, hunsent⟩ := List.append_eq_nil_iff.mp hup
      obtain ⟨hline, hfit⟩ := hlines z
      subst hnil
      refine ⟨[.request z], rfl, ?_, ?_⟩
      · refine .reply hjob hunsent hup rfl ?_
        rw [hgot, hdown, List.nil_append, List.nil_append]
        exact hwait.answered hb ⟨rfl, by rw [hstore]⟩ hline hfit
      · show 2 * (replyTo (s.store z)).length + 199 * 0 ≤ _
        have hfit : (replyTo (s.store z)).length ≤ 80 := hfit
        omega
  · rw [Session.readFirstLine, hframe]
    refine ⟨[], (List.append_nil _).symm, ?_, ?_⟩
    · rw [List.map_nil, List.append_nil]
      refine .request hjob hwait ?_ hdown hgot
      rw [List.nil_append, List.append_assoc]
      exact htext
    · show 199 * (line ++ bs).length + 199 * 0 ≤ _
      rw [List.length_append]
      omega

/-- The server has bytes of a prognosis line. -/
theorem matched_readPrognosis {pair : StarPair} (hjob : c.job = some (.star pair))
    (hwait : Unanswered p b trace) (hb : b ≤ trace.length)
    (htext : line ++ (bs ++ (l.up ++ c.unsent)) = pair.prognosis) (hdown : l.down = [])
    (hgot : c.got = []) :
    ∃ es, (s.readPrognosis pair.zodiacIx line bs).1.io.trace = s.io.trace ++ es ∧
      MatchedAt p b (trace ++ es.map (.conn p)) (s.readPrognosis pair.zodiacIx line bs).1.phase
        (s.readPrognosis pair.zodiacIx line bs).1.unread l c ∧
      load (s.readPrognosis pair.zodiacIx line bs).1.phase +
          199 * (s.readPrognosis pair.zodiacIx line bs).1.unread.length ≤
        199 * line.length + 199 * bs.length := by
  have hsplit : line ++ bs ++ (l.up ++ c.unsent) = pair.prognosis ++ [] := by
    rw [List.append_assoc, List.append_nil]
    exact htext
  rcases (prognosis_isLine pair).frame_of_append (prognosis_length_le pair) hsplit with
    ⟨rest, hrest, hbehind, hframe⟩ | ⟨hframe, -⟩
  · have hcost := congrArg List.length hrest
    have hpos := List.length_pos_iff.mpr (prognosis_isLine pair).ne_nil
    rw [List.length_append, List.length_append] at hcost
    rw [Session.readPrognosis, hframe]
    obtain ⟨hnil, hup⟩ := List.append_eq_nil_iff.mp hbehind
    obtain ⟨hup, hunsent⟩ := List.append_eq_nil_iff.mp hup
    subst hnil
    refine ⟨[.prognosis pair.zodiacIx pair.prognosis], rfl, ?_, ?_⟩
    · refine .reply hjob hunsent hup rfl ?_
      rw [hgot, hdown, List.nil_append, List.nil_append]
      exact hwait.answered hb ⟨rfl, rfl⟩ thanks_isLine (by decide)
    · show 2 * starReplySuccess.length + 199 * 0 ≤ _
      have hfit : starReplySuccess.length = 8 := by decide
      omega
  · rw [Session.readPrognosis, hframe]
    refine ⟨[], (List.append_nil _).symm, ?_, ?_⟩
    · rw [List.map_nil, List.append_nil]
      refine .prognosis hjob hwait ?_ hdown hgot
      rw [List.nil_append, List.append_assoc]
      exact htext
    · show 199 * (line ++ bs).length + 199 * 0 ≤ _
      rw [List.length_append]
      omega

/-- What the server asks is neither a request nor a prognosis. -/
theorem asks_silent (p : Ptr) (s : Session) :
    ∀ e ∈ (asks s).map (ServerEvent.conn p), (∀ q, serves q e = false) ∧
      ∀ z, e.prognosisFor z = none := by
  intro e he
  obtain ⟨ce, hce, rfl⟩ := List.mem_map.mp he
  have hcases : (∃ r, ce = recvEvent r) ∨ ∃ pending r, ce = sendEvent pending r := by
    have hfetched : ce ∈ fetched s → ∃ r, ce = recvEvent r := by
      unfold fetched
      split
      · exact fun h => ⟨_, List.mem_singleton.mp h⟩
      · exact fun h => absurd h List.not_mem_nil
    unfold asks at hce
    cases hphase : s.phase with
    | firstLine line =>
      rw [hphase] at hce
      exact Or.inl (hfetched hce)
    | prognosis z line =>
      rw [hphase] at hce
      exact Or.inl (hfetched hce)
    | reply pending =>
      rw [hphase] at hce
      exact Or.inr ⟨pending, _, List.mem_singleton.mp hce⟩
    | failed op =>
      rw [hphase] at hce
      cases hce
    | finished =>
      rw [hphase] at hce
      cases hce
  rcases hcases with ⟨r, rfl⟩ | ⟨pending, r, rfl⟩
  · cases r <;> exact ⟨fun _ => rfl, fun _ => rfl⟩
  · cases r <;> exact ⟨fun _ => rfl, fun _ => rfl⟩

theorem lastPrognosis_append {z : ℕ} {es : List ServerEvent}
    (h : ∀ e ∈ es, e.prognosisFor z = none) :
    lastPrognosis z (trace ++ es) = lastPrognosis z trace := by
  have hnone : es.reverse.findSome? (ServerEvent.prognosisFor z) = none :=
    List.findSome?_eq_none_iff.mpr fun e he => h e (List.mem_reverse.mp he)
  rw [lastPrognosis, List.reverse_append, List.findSome?_append, hnone]
  rfl

/-- **What a fetch does to the pipe**: the stream has ended, or there are bytes, the ones
that the server had or the next ones. -/
theorem fetch_flow (hready : s.unread = [] → l.up ≠ [] ∨ l.closed = true)
    (hl : (fetched s).foldlM Link.server l = some l') :
    (∃ t, s.fetch = (.eof, t) ∧ t.unread = [] ∧ l' = l ∧ l.up = [] ∧ l.closed = true) ∨
    ∃ bs t, s.fetch = (.bytes bs, t) ∧ t.store = s.store ∧ l'.down = l.down ∧
      s.unread ++ l.up = bs ++ l'.up ∧
      199 * bs.length + 200 * l'.up.length ≤ 199 * s.unread.length + 200 * l.up.length ∧
      (s.unread = [] →
        199 * bs.length + 200 * l'.up.length < 199 * s.unread.length + 200 * l.up.length) := by
  unfold fetched at hl
  unfold Session.fetch
  by_cases hun : s.unread = []
  · rw [if_pos hun] at hl ⊢
    have hl : l.server (recvEvent s.io.recvs.head) = some l' :=
      (bind_pure (l.server (recvEvent s.io.recvs.head))).symm.trans hl
    unfold Io.recv
    cases hhead : s.io.recvs.head with
    | error =>
      rw [hhead] at hl
      have hblocked : l.up = [] ∧ l.closed = false := by
        by_contra hnot
        exact absurd ((if_neg hnot).symm.trans hl) (by simp)
      rcases hready hun with hup | hclosed
      · exact absurd hblocked.1 hup
      · rw [hblocked.2] at hclosed
        cases hclosed
    | bytes bs =>
      rw [hhead] at hl
      obtain ⟨up, hreceive, rfl⟩ := Option.map_eq_some_iff.mp hl
      dsimp only
      rcases Pipe.receive_eq_some.mp hreceive with ⟨hne, heq⟩ | ⟨hnil, hup, rfl, hclosed⟩
      · cases hbs : bs.take astrologBufLen with
        | nil => exact absurd hbs hne
        | cons x tl =>
          rw [hbs] at heq
          refine Or.inr ⟨x :: tl, _, rfl, rfl, rfl, by rw [hun]; exact heq, ?_⟩
          have hlen := congrArg List.length heq
          rw [List.length_append] at hlen
          have hpos : 0 < (x :: tl).length := Nat.succ_pos _
          have hless : 199 * (x :: tl).length + 200 * up.length <
              199 * s.unread.length + 200 * l.up.length := by omega
          exact ⟨Nat.le_of_lt hless, fun _ => hless⟩
      · rw [hnil]
        refine Or.inl ⟨_, rfl, hun, ?_, hup, hclosed⟩
        rw [← hup]
  · rw [if_neg hun] at hl ⊢
    cases hl
    exact Or.inr ⟨s.unread, s, rfl, rfl, rfl, rfl, Nat.le_refl _, fun h => absurd h hun⟩

/-- Client and server are still matched behind a round, and the bytes have become cheaper: never
dearer, and strictly cheaper when nothing was left to read before it.  The first round of a call
is such a one, so every call of `update_state` lowers the measure of the world. -/
structure Advances (p : Ptr) (b : ℕ) (trace : List ServerEvent) (s : Session) (l l' : Link)
    (c : Process) : Prop where
  matched : ∃ es, s.round.1.io.trace = s.io.trace ++ (asks s ++ es) ∧
    MatchedAt p b (trace ++ (asks s ++ es).map (.conn p)) s.round.1.phase s.round.1.unread l' c
  cost_le : cost s.round.1.phase s.round.1.unread l' ≤ cost s.phase s.unread l
  cost_lt : s.unread = [] → cost s.round.1.phase s.round.1.unread l' < cost s.phase s.unread l

/-- What has been read off the bytes of a receiving round. -/
theorem Advances.of_fetched {t : Session} (hasks : asks s = fetched s)
    (hf : s.fetch = (.bytes bs, t)) {r : Session × After} (hround : s.round = r)
    (hload : load s.phase = 199 * line.length) (hdown : l'.down = l.down)
    (hle : 199 * bs.length + 200 * l'.up.length ≤ 199 * s.unread.length + 200 * l.up.length)
    (hlt : s.unread = [] →
      199 * bs.length + 200 * l'.up.length < 199 * s.unread.length + 200 * l.up.length)
    (h : ∃ es, r.1.io.trace = t.io.trace ++ es ∧
      MatchedAt p b (trace ++ (asks s).map (.conn p) ++ es.map (.conn p)) r.1.phase
        r.1.unread l' c ∧
      load r.1.phase + 199 * r.1.unread.length ≤ 199 * line.length + 199 * bs.length) :
    Advances p b trace s l l' c := by
  obtain ⟨es, hes, hmatched, hcost⟩ := h
  have htrace := fetch_trace_eq s
  rw [hf] at htrace
  refine ⟨⟨es, ?_, ?_⟩, ?_, fun hun => ?_⟩
  · rw [hround, hes, hasks, ← List.append_assoc, ← htrace]
  · rw [hround, List.map_append, ← List.append_assoc]
    exact hmatched
  · rw [hround, cost, cost, hload, hdown]
    omega
  · have hless := hlt hun
    rw [hround, cost, cost, hload, hdown]
    omega

section Receiving

variable (hwait : Unanswered p b trace) (hb : b ≤ trace.length)
  (hclosed : l.closed = false) (hready : s.unread = [] → l.up ≠ [] ∨ l.closed = true)
  (hdown : l.down = []) (hgot : c.got = [])

include hwait hb hclosed hready hdown hgot

theorem round_request {job : Exchange} (hphase : s.phase = .firstLine line)
    (hjob : c.job = some job) (htext : line ++ (s.unread ++ (l.up ++ c.unsent)) = job.text)
    (hstore : ∀ z, s.store z = lastPrognosis z trace)
    (hlines : ∀ z, IsLine delimiter (replyTo (s.store z)) ∧
      (replyTo (s.store z)).length ≤ astrologBufLen)
    (hl : (asks s).foldlM Link.server l = some l') : Advances p b trace s l l' c := by
  have hsilent := asks_silent p s
  have hasks : asks s = fetched s := by rw [asks, hphase]
  rcases fetch_flow hready (hasks ▸ hl) with ⟨t, -, -, -, -, hcl⟩ |
    ⟨bs, t, hf, hst, hdown', hpipe, hle, hlt⟩
  · rw [hclosed] at hcl
    cases hcl
  · have hround : s.round = t.readFirstLine line bs := by
      unfold Session.round
      rw [hphase]
      simp only [hf]
    rw [← List.append_assoc s.unread, hpipe, List.append_assoc] at htext
    refine .of_fetched hasks hf hround (by rw [hphase]; rfl) hdown' hle hlt ?_
    refine matched_readFirstLine hjob (hwait.append fun e he => (hsilent e he).1 p) ?_ htext
      (hdown'.trans hdown) hgot (fun z => ?_) (fun z => by rw [hst]; exact hlines z)
    · rw [List.length_append]
      exact Nat.le_add_right_of_le hb
    · rw [hst, hstore, lastPrognosis_append fun e he => (hsilent e he).2 z]

theorem round_prognosis {pair : StarPair} (hphase : s.phase = .prognosis pair.zodiacIx line)
    (hjob : c.job = some (.star pair))
    (htext : line ++ (s.unread ++ (l.up ++ c.unsent)) = pair.prognosis)
    (hl : (asks s).foldlM Link.server l = some l') : Advances p b trace s l l' c := by
  have hsilent := asks_silent p s
  have hasks : asks s = fetched s := by rw [asks, hphase]
  rcases fetch_flow hready (hasks ▸ hl) with ⟨t, -, -, -, -, hcl⟩ |
    ⟨bs, t, hf, hst, hdown', hpipe, hle, hlt⟩
  · rw [hclosed] at hcl
    cases hcl
  · have hround : s.round = t.readPrognosis pair.zodiacIx line bs := by
      unfold Session.round
      rw [hphase]
      simp only [hf]
    rw [← List.append_assoc s.unread, hpipe, List.append_assoc] at htext
    refine .of_fetched hasks hf hround (by rw [hphase]; rfl) hdown' hle hlt ?_
    refine matched_readPrognosis hjob (hwait.append fun e he => (hsilent e he).1 p) ?_ htext
      (hdown'.trans hdown) hgot
    rw [List.length_append]
    exact Nat.le_add_right_of_le hb

end Receiving

/-- A part of the reply is sent. -/
theorem round_reply {pending reply : List Byte} {job : Exchange}
    (hphase : s.phase = .reply pending) (hun : s.unread = []) (hjob : c.job = some job)
    (hunsent : c.unsent = []) (hup : l.up = [])
    (htext : c.got ++ (l.down ++ pending) = reply) (hans : Answered p b trace job reply)
    (hl : (asks s).foldlM Link.server l = some l') : Advances p b trace s l l' c := by
  have hsilent := asks_silent p s
  have hans' := hans.append fun e he => (hsilent e he).1 p
  have hasks : asks s = [sendEvent pending s.io.sends.head] := by rw [asks, hphase]
  rw [hasks] at hl
  have hl : l.server (sendEvent pending s.io.sends.head) = some l' :=
    (bind_pure (l.server (sendEvent pending s.io.sends.head))).symm.trans hl
  obtain ⟨es, htrace, hes⟩ := round_trace s
  cases hhead : s.io.sends.head with
  | error =>
    rw [hhead] at hl
    cases hl
  | count k =>
    rw [hhead] at hl
    have hsent : pending.take k ≠ [] := by
      intro hnil
      rw [sendEvent, Link.server, if_pos hnil] at hl
      cases hl
    rw [sendEvent, Link.server, if_neg hsent] at hl
    obtain rfl : _ = l' := Option.some.inj hl
    have hsplit : c.got ++ (l.down ++ pending.take k ++ pending.drop k) = reply := by
      rw [List.append_assoc, List.take_append_drop]
      exact htext
    have hmin : pending.drop (min k pending.length) = pending.drop k := by
      rcases Nat.le_total k pending.length with hle | hle
      · rw [Nat.min_eq_left hle]
      · rw [Nat.min_eq_right hle, List.drop_length, List.drop_of_length_le hle]
    have hlen := congrArg List.length (List.take_append_drop k pending)
    have hpos := List.length_pos_iff.mpr hsent
    rw [List.length_append] at hlen
    by_cases hdrop : pending.drop k = []
    · have hround : s.round.1.phase = .firstLine [] ∧ s.round.1.unread = [] ∧
          s.round.1.io.trace = s.io.trace ++ (asks s ++ []) := by
        rw [hasks, hhead, List.append_nil]
        unfold Session.round
        rw [hphase]
        simp only [Io.send, hhead, hmin, hdrop, if_true]
        exact ⟨trivial, hun, rfl⟩
      rw [hdrop, List.append_nil] at hsplit
      have hless : cost s.round.1.phase s.round.1.unread
          { l with down := l.down ++ pending.take k } < cost s.phase s.unread l := by
        rw [hround.1, hround.2.1, hphase, hun, cost, cost, load, load, List.length_append]
        simp only [List.length_nil]
        omega
      refine ⟨⟨[], hround.2.2, ?_⟩, Nat.le_of_lt hless, fun _ => hless⟩
      rw [hround.1, hround.2.1, List.append_nil]
      exact .replied hjob hunsent hup hsplit hans'
    · have hround : s.round.1.phase = .reply (pending.drop k) ∧ s.round.1.unread = [] ∧
          s.round.1.io.trace = s.io.trace ++ (asks s ++ []) := by
        rw [hasks, hhead, List.append_nil]
        unfold Session.round
        rw [hphase]
        simp only [Io.send, hhead, hmin, hdrop, if_false]
        exact ⟨trivial, hun, rfl⟩
      have hless : cost s.round.1.phase s.round.1.unread
          { l with down := l.down ++ pending.take k } < cost s.phase s.unread l := by
        rw [hround.1, hround.2.1, hphase, hun, cost, cost, load, load, List.length_append]
        dsimp only
        omega
      refine ⟨⟨[], hround.2.2, ?_⟩, Nat.le_of_lt hless, fun _ => hless⟩
      rw [hround.1, hround.2.1, List.append_nil]
      exact .reply hjob hunsent hup hsplit hans'

/-- The client has closed the connection between two exchanges. -/
theorem round_closed (hphase : s.phase = .firstLine []) (hun : s.unread = []) (hup : l.up = [])
    (hready : l.closed = true) (hl : (asks s).foldlM Link.server l = some l') :
    l' = l ∧ s.round.1.phase = .finished ∧ s.round.1.unread = [] := by
  have hasks : asks s = fetched s := by rw [asks, hphase]
  rcases fetch_flow (fun _ => Or.inr hready) (hasks ▸ hl) with ⟨t, hf, ht, rfl, -, -⟩ |
    ⟨bs, t, hf, -, -, hpipe, -, hlt⟩
  · have hround : s.round = ({ t with phase := .finished }, .done) := by
      unfold Session.round
      rw [hphase]
      simp only [hf, if_true]
    rw [hround]
    exact ⟨rfl, rfl, ht⟩
  · have hless := hlt hun
    have hlen := congrArg List.length hpipe
    rw [hun, hup, List.length_append, List.length_append] at hlen
    rw [hun, hup] at hless
    simp only [List.length_nil] at hlen hless
    omega

/-- **A round of the server.**  Client and server are still matched, or the client has closed
the connection between two exchanges. -/
theorem Matched.round (h : MatchedAt p b trace s.phase s.unread l c)
    (hclosed : c.job ≠ none → l.closed = false) (hb : b ≤ trace.length)
    (hstore : ∀ z, s.store z = lastPrognosis z trace)
    (hlines : ∀ z, IsLine delimiter (replyTo (s.store z)) ∧
      (replyTo (s.store z)).length ≤ astrologBufLen)
    (hready : s.phase.reads = true → s.unread = [] → l.up ≠ [] ∨ l.closed = true)
    (hl : (asks s).foldlM Link.server l = some l') :
    Advances p b trace s l l' c ∨
      (c.job = none ∧ l.closed = true ∧ l' = l ∧ s.round.1.phase = .finished ∧
        s.round.1.unread = []) := by
  have hopen : ∀ {job : Exchange}, c.job = some job → l.closed = false :=
    fun {job} hjob => hclosed (by rw [hjob]; simp)
  generalize hphase : s.phase = phase at h
  generalize hun : s.unread = unread at h
  cases h with
  | rest hjob hup hdown =>
    have hcl : l.closed = true :=
      (hready (by rw [hphase]; rfl) hun).resolve_left (not_not_intro hup)
    obtain ⟨hl', hround⟩ := round_closed hphase hun hup hcl hl
    exact Or.inr ⟨hjob, hcl, hl', hround⟩
  | request hjob hwait htext hdown hgot =>
    refine Or.inl (round_request hwait hb (hopen hjob) (hready (by rw [hphase]; rfl)) hdown hgot
      hphase hjob ?_ hstore hlines hl)
    rw [hun]
    exact htext
  | prognosis hjob hwait htext hdown hgot =>
    refine Or.inl (round_prognosis hwait hb (hopen hjob) (hready (by rw [hphase]; rfl)) hdown
      hgot hphase hjob ?_ hl)
    rw [hun]
    exact htext
  | reply hjob hunsent hup htext hans =>
    exact Or.inl (round_reply hphase hun hjob hunsent hup htext hans hl)
  | replied hjob hunsent hup htext hans =>
    rcases hready (by rw [hphase]; rfl) hun with hne | hcl
    · exact absurd hup hne
    · rw [hopen hjob] at hcl
      cases hcl

end Rounds

end Astrologer.Clients
