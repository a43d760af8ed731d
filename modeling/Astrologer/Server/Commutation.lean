import Astrologer.Server.Descriptors
import Astrologer.Server.Store

/-!
# The order of two events

Two connections that are ready are served one after the other.  Their calls of
`update_state` share the heap, the table of prognoses and `epoll`, so the one that comes
second finds another server than if it had come first.

But a handler sees only its own connection, what the kernel answers, and the rows of the
table that it reads, and these it records (`Framed`).  So in two servers that are alike for
a connection (`Alike`), a call does the same: it makes the same rounds, gives the same
deadline, and appends the same entries to the record.  What it changes is said by these
entries and by the new state of the connection (`Effect`); the layout of the heap is the
only thing that depends on more.

`update_comm`: two calls whose records do not conflict may be exchanged.
-/

namespace Astrologer

open ServerStateType FdOperation

/-! ## Rows that are read and written

The record of a connection says which rows its calls have read and written: a request is a read, a
complete prognosis is a write.  Two records are independent when no row that one of them writes is
in the other one, and then their changes of the rows may be made in either order. -/

/-- The row that is read. -/
def ConnEvent.reads : ConnEvent → Option ℕ
  | .request z => some z
  | .recv _ => none
  | .recvError => none
  | .sent _ => none
  | .sendError => none
  | .prognosis _ _ => none

/-- The row that is written. -/
def ConnEvent.writes : ConnEvent → Option ℕ
  | .prognosis z _ => some z
  | .recv _ => none
  | .recvError => none
  | .sent _ => none
  | .sendError => none
  | .request _ => none

def ServerEvent.reads : ServerEvent → Option ℕ
  | .conn _ e => e.reads
  | .connected _ => none
  | .removed _ => none
  | .heapCall _ _ => none
  | .removeFailed _ => none

def ServerEvent.writes : ServerEvent → Option ℕ
  | .conn _ e => e.writes
  | .connected _ => none
  | .removed _ => none
  | .heapCall _ _ => none
  | .removeFailed _ => none

/-- The connection that an entry is about. -/
def ServerEvent.about : ServerEvent → Option Ptr
  | .conn p _ => some p
  | .connected p => some p
  | .removed p => some p
  | .heapCall p _ => some p
  | .removeFailed _ => none

/-- No row is touched by both and written by one of them. -/
def Independent (es fs : List ServerEvent) : Prop :=
  ∀ e ∈ es, ∀ f ∈ fs, ∀ z,
    (e.writes = some z → f.reads ≠ some z ∧ f.writes ≠ some z) ∧
      (f.writes = some z → e.reads ≠ some z ∧ e.writes ≠ some z)

theorem independent_iff {es fs : List ServerEvent} : Independent es fs ↔
    ∀ e ∈ es, ∀ f ∈ fs,
      (∀ z ∈ e.writes, f.reads ≠ some z ∧ f.writes ≠ some z) ∧
        (∀ z ∈ f.writes, e.reads ≠ some z ∧ e.writes ≠ some z) :=
  ⟨fun h e he f hf => ⟨fun z => (h e he f hf z).1, fun z => (h e he f hf z).2⟩,
    fun h e he f hf z => ⟨(h e he f hf).1 z, (h e he f hf).2 z⟩⟩

instance (es fs : List ServerEvent) : Decidable (Independent es fs) :=
  decidable_of_iff' _ independent_iff

theorem Independent.symm {es fs : List ServerEvent} (h : Independent es fs) :
    Independent fs es := fun f hf e he z => (h e he f hf z).symm

/-- An entry changes a row in a way that depends on this row only. -/
theorem ServerEvent.rows_congr (e : ServerEvent) {t t' : Table} {z : ℕ} (h : t z = t' z) :
    e.rows t z = e.rows t' z := by
  cases e with
  | conn p e =>
    cases e with
    | prognosis y l =>
      show Function.update t y _ z = Function.update t' y _ z
      by_cases hz : z = y
      · rw [hz] at h ⊢
        rw [Function.update_self, Function.update_self, h]
      · rw [Function.update_of_ne hz, Function.update_of_ne hz, h]
    | recv bs => exact h
    | recvError => exact h
    | sent bs => exact h
    | sendError => exact h
    | request y => exact h
  | connected p => exact h
  | removed p => exact h
  | heapCall p entry => exact h
  | removeFailed ix => exact h

theorem ServerEvent.rows_of_not_writes (e : ServerEvent) (t : Table) {z : ℕ}
    (h : e.writes ≠ some z) : e.rows t z = t z := by
  cases e with
  | conn p e =>
    cases e with
    | prognosis y l =>
      have hz : z ≠ y := fun heq => h (congrArg some heq.symm)
      exact Function.update_of_ne hz _ _
    | recv bs => rfl
    | recvError => rfl
    | sent bs => rfl
    | sendError => rfl
    | request y => rfl
  | connected p => rfl
  | removed p => rfl
  | heapCall p entry => rfl
  | removeFailed ix => rfl

theorem rows_congr (es : List ServerEvent) {t t' : Table} {z : ℕ} (h : t z = t' z) :
    es.foldl ServerEvent.rows t z = es.foldl ServerEvent.rows t' z := by
  induction es generalizing t t' with
  | nil => exact h
  | cons e es ih => exact ih (e.rows_congr h)

theorem rows_of_not_writes {es : List ServerEvent} (t : Table) {z : ℕ}
    (h : ∀ e ∈ es, e.writes ≠ some z) : es.foldl ServerEvent.rows t z = t z := by
  induction es generalizing t with
  | nil => rfl
  | cons e es ih =>
    rw [List.foldl_cons, ih (e.rows t) fun f hf => h f (List.mem_cons_of_mem _ hf)]
    exact e.rows_of_not_writes t (h e List.mem_cons_self)

/-- **Independent records change the rows in any order.** -/
theorem Independent.rows_comm {es fs : List ServerEvent} (h : Independent es fs) (t : Table) :
    fs.foldl ServerEvent.rows (es.foldl ServerEvent.rows t) =
      es.foldl ServerEvent.rows (fs.foldl ServerEvent.rows t) := by
  funext z
  by_cases hz : ∃ e ∈ es, e.writes = some z
  · obtain ⟨e, he, hwrites⟩ := hz
    have hfs : ∀ f ∈ fs, f.writes ≠ some z := fun f hf => ((h e he f hf z).1 hwrites).2
    rw [rows_of_not_writes _ hfs]
    exact rows_congr es (rows_of_not_writes t hfs).symm
  · have hes : ∀ e ∈ es, e.writes ≠ some z := fun e he heq => hz ⟨e, he, heq⟩
    rw [rows_of_not_writes (fs.foldl ServerEvent.rows t) hes]
    exact rows_congr fs (rows_of_not_writes t hes)

/-! ## Handlers on other rows

A handler gets the whole table and returns the whole table.  `Framed` says that it looks at the
rows in its record only and changes the others in no way, for each function that a handler calls
and then for `handleState`. -/

/-- **What a handler does with other rows.**  It appends the same entries and leaves the
same connection, if the rows that it reads are the same. -/
def Framed (f : Ctx → Ctx × After) (c : Ctx) : Prop :=
  ∃ es, (f c).1.io.trace = c.io.trace ++ es ∧
    (f c).1.zodiacPrognosises = es.foldl ConnEvent.rows c.zodiacPrognosises ∧
    ∀ t, (∀ e ∈ es, ∀ z, e.reads = some z → t z = c.zodiacPrognosises z) →
      f { c with zodiacPrognosises := t } =
        ({ (f c).1 with zodiacPrognosises := es.foldl ConnEvent.rows t }, (f c).2)

/-- A handler that records nothing and does not look at the rows. -/
theorem Framed.of_silent {f : Ctx → Ctx × After} {c : Ctx}
    (hio : (f c).1.io.trace = c.io.trace)
    (ht : (f c).1.zodiacPrognosises = c.zodiacPrognosises)
    (h : ∀ t, f { c with zodiacPrognosises := t } =
      ({ (f c).1 with zodiacPrognosises := t }, (f c).2)) : Framed f c :=
  ⟨[], hio.trans (List.append_nil _).symm, ht, fun t _ => h t⟩

theorem framed_parseStarFirstLine (c : Ctx) : Framed parseStarFirstLine c := by
  refine .of_silent ?_ ?_ fun t => ?_
  all_goals
    unfold parseStarFirstLine
    dsimp only
    split <;> rfl

theorem framed_parseClientFirstLine (c : Ctx) : Framed parseClientFirstLine c := by
  obtain ⟨ix, hix⟩ : ∃ ix, ix = findZodiac (c.s.buf.slice clientRequestType.length
      (clientRequestType.length + delIx c.s clientRequestType.length -
        clientRequestType.length)) := ⟨_, rfl⟩
  by_cases hneg : ix < 0
  · refine .of_silent ?_ ?_ fun t => ?_
    all_goals
      unfold parseClientFirstLine
      dsimp only
      rw [← hix, if_pos hneg]
    rw [if_pos hneg]
  · refine ⟨[.request ix.toNat], ?_, ?_, fun t ht => ?_⟩
    all_goals
      unfold parseClientFirstLine
      dsimp only
      rw [← hix, if_neg hneg]
    · rfl
    · rfl
    · rw [if_neg hneg, ht _ List.mem_cons_self _ rfl]
      rfl

/-- Behind a receive, which records something but does not look at the rows. -/
theorem Framed.of_receive {f g : Ctx → Ctx × After} {c : Ctx} {s : ConnState} {io : Io}
    {es : List ConnEvent} (hio : io.trace = c.io.trace ++ es)
    (hrows : ∀ t, es.foldl ConnEvent.rows t = t)
    (h : ∀ t, f { c with zodiacPrognosises := t } = g ⟨s, t, io⟩)
    (hg : Framed g ⟨s, c.zodiacPrognosises, io⟩) : Framed f c := by
  obtain ⟨fs, htrace, ht, hframe⟩ := hg
  have hself : f c = g ⟨s, c.zodiacPrognosises, io⟩ := h c.zodiacPrognosises
  refine ⟨es ++ fs, ?_, ?_, fun t hread => ?_⟩
  · rw [hself, htrace, hio, List.append_assoc]
  · rw [hself, ht, List.foldl_append, hrows]
  · rw [h t, hself, List.foldl_append, hrows]
    exact hframe t fun e he => hread e (List.mem_append_right _ he)

theorem Framed.of_eq {f g : Ctx → Ctx × After} {c : Ctx}
    (h : ∀ t, f { c with zodiacPrognosises := t } = g { c with zodiacPrognosises := t })
    (hg : Framed g c) : Framed f c :=
  .of_receive (List.append_nil _).symm (fun _ => rfl) h hg

/-- A handler ends without looking at the rows. -/
theorem framed_done (s : ConnState → ConnState) (after : After) (c : Ctx) :
    Framed (fun c => ({ c with s := s c.s }, after)) c :=
  .of_silent rfl rfl fun _ => rfl

theorem framed_firstLineReceived (c : Ctx) : Framed firstLineReceived c := by
  by_cases hdelim : c.s.buf.slice (c.s.curPos - 1) 1 = [delimiter]
  · by_cases hstar : astrologBufLen - c.s.rem > starRequestType.length ∧
        c.s.buf.slice 0 starRequestType.length = starRequestType
    · exact .of_eq (fun t => (if_pos hdelim).trans (if_pos hstar)) (framed_parseStarFirstLine c)
    · by_cases hclient : astrologBufLen - c.s.rem > clientRequestType.length ∧
          c.s.buf.slice 0 clientRequestType.length = clientRequestType
      · exact .of_eq (fun t => ((if_pos hdelim).trans (if_neg hstar)).trans (if_pos hclient))
          (framed_parseClientFirstLine c)
      · exact .of_eq (fun t => ((if_pos hdelim).trans (if_neg hstar)).trans (if_neg hclient))
          (framed_done (fun s => { s with
            state := stateError
            buf := s.buf.poke (s.curPos - 1) 0 }) .done c)
  · by_cases hrem : c.s.rem = 0
    · exact .of_eq (fun t => (if_neg hdelim).trans (if_pos hrem))
        (framed_done (fun s => { s with state := stateError }) .done c)
    · exact .of_eq (fun t => (if_neg hdelim).trans (if_neg hrem)) (framed_done id .done c)

theorem framed_prognosisReceived (c : Ctx) : Framed prognosisReceived c := by
  by_cases hdelim : c.s.buf.slice (c.s.curPos - 1) 1 = [delimiter]
  · have heq : ∀ t, prognosisReceived { c with zodiacPrognosises := t } = _ :=
      fun t => if_pos hdelim
    refine ⟨[.prognosis c.s.zodiacIx (c.s.buf.slice 0 (astrologBufLen - c.s.rem))], ?_, ?_,
      fun t _ => ?_⟩
    · rw [show prognosisReceived c = _ from heq c.zodiacPrognosises]
      rfl
    · rw [show prognosisReceived c = _ from heq c.zodiacPrognosises]
      rfl
    · rw [heq t, show prognosisReceived c = _ from heq c.zodiacPrognosises]
      rfl
  · by_cases hrem : c.s.rem = 0
    · exact .of_eq (fun t => (if_neg hdelim).trans (if_pos hrem))
        (framed_done (fun s => { s with state := stateError }) .done c)
    · exact .of_eq (fun t => (if_neg hdelim).trans (if_neg hrem)) (framed_done id .done c)

theorem framed_handleFirstLine (c : Ctx) : Framed handleFirstLine c := by
  let r := bufferedRecvUntilDelim c.s.intermBuf c.s.buf c.s.curPos c.s.rem delimiter c.io
  obtain ⟨es, hio, hrows⟩ : ∃ es, r.2.trace = c.io.trace ++ es ∧
    ∀ t, es.foldl ConnEvent.rows t = t := bufferedRecvUntilDelim_trace ..
  let s : ConnState := { c.s with intermBuf := r.1.2.1, buf := r.1.2.2 }
  have heq : ∀ t, handleFirstLine { c with zodiacPrognosises := t } =
      if r.1.1 < 0 then (⟨{ s with state := stateError }, t, r.2⟩, .done)
      else if r.1.1 = 0 then
        (⟨{ s with state := if s.curPos = 0 then stateSuccess else stateError }, t, r.2⟩, .done)
      else firstLineReceived ⟨{ s with
        curPos := s.curPos + r.1.1.toNat
        rem := s.rem - r.1.1.toNat }, t, r.2⟩ := fun t => rfl
  by_cases hneg : r.1.1 < 0
  · exact .of_receive hio hrows (fun t => (heq t).trans (if_pos hneg))
      (framed_done (fun s => { s with state := stateError }) .done ⟨s, _, r.2⟩)
  · by_cases hzero : r.1.1 = 0
    · exact .of_receive hio hrows (fun t => ((heq t).trans (if_neg hneg)).trans (if_pos hzero))
        (framed_done (fun s => { s with
          state := if s.curPos = 0 then stateSuccess else stateError }) .done ⟨s, _, r.2⟩)
    · exact .of_receive hio hrows (fun t => ((heq t).trans (if_neg hneg)).trans (if_neg hzero))
        (framed_firstLineReceived _)

theorem framed_handleRecvH (c : Ctx) : Framed handleRecvH c := by
  let r := bufferedRecvUntilDelim c.s.intermBuf c.s.buf c.s.curPos c.s.rem delimiter c.io
  obtain ⟨es, hio, hrows⟩ : ∃ es, r.2.trace = c.io.trace ++ es ∧
    ∀ t, es.foldl ConnEvent.rows t = t := bufferedRecvUntilDelim_trace ..
  let s : ConnState := { c.s with intermBuf := r.1.2.1, buf := r.1.2.2 }
  have heq : ∀ t, handleRecvH { c with zodiacPrognosises := t } =
      if r.1.1 < 0 then (⟨{ s with state := stateError }, t, r.2⟩, .done)
      else if r.1.1 = 0 then (⟨{ s with state := stateError }, t, r.2⟩, .done)
      else prognosisReceived ⟨{ s with
        curPos := s.curPos + r.1.1.toNat
        rem := s.rem - r.1.1.toNat }, t, r.2⟩ := fun t => rfl
  have hfailed : Framed (fun c => ({ c with s := { c.s with state := stateError } }, .done))
      ⟨s, c.zodiacPrognosises, r.2⟩ := framed_done (fun s => { s with state := stateError }) .done _
  by_cases hneg : r.1.1 < 0
  · exact .of_receive hio hrows (fun t => (heq t).trans (if_pos hneg)) hfailed
  · by_cases hzero : r.1.1 = 0
    · exact .of_receive hio hrows (fun t => ((heq t).trans (if_neg hneg)).trans (if_pos hzero))
        hfailed
    · exact .of_receive hio hrows (fun t => ((heq t).trans (if_neg hneg)).trans (if_neg hzero))
        (framed_prognosisReceived _)

theorem framed_handleSendReply (c : Ctx) : Framed handleSendReply c := by
  obtain ⟨es, hio, ht⟩ : ∃ es, (handleSendReply c).1.io.trace = c.io.trace ++ es ∧
      ∀ t, es.foldl ConnEvent.rows t = t := by
    unfold handleSendReply Io.send
    dsimp only
    cases c.io.sends.head with
    | error => exact ⟨[.sendError], rfl, fun _ => rfl⟩
    | count k =>
      dsimp only
      split <;> exact ⟨[.sent _], rfl, fun _ => rfl⟩
  have hframe : ∀ t, handleSendReply { c with zodiacPrognosises := t } =
      ({ (handleSendReply c).1 with zodiacPrognosises := t }, (handleSendReply c).2) := by
    intro t
    unfold handleSendReply Io.send
    dsimp only
    cases c.io.sends.head with
    | error => rfl
    | count k =>
      dsimp only
      split <;> rfl
  refine ⟨es, hio, ?_, fun t _ => ?_⟩
  · rw [ht]
    exact congrArg (fun r : Ctx × After => r.1.zodiacPrognosises) (hframe c.zodiacPrognosises)
  · rw [ht, hframe]

/-- **A handler sees the rows that it reads.** -/
theorem framed_handleState (c : Ctx) : Framed handleState c := by
  cases hs : c.s.state with
  | stateRecvFirstLine =>
    refine .of_eq (fun t => ?_) (framed_handleFirstLine c)
    rw [handleState, hs]
  | stateRecvH =>
    refine .of_eq (fun t => ?_) (framed_handleRecvH c)
    rw [handleState, hs]
  | stateSendThanks =>
    refine .of_eq (fun t => ?_) (framed_handleSendReply c)
    rw [handleState, hs]
  | stateSendH =>
    refine .of_eq (fun t => ?_) (framed_handleSendReply c)
    rw [handleState, hs]
  | stateError =>
    refine .of_eq (fun t => ?_) (framed_done id .done c)
    rw [handleState, hs]
    rfl
  | stateSuccess =>
    refine .of_eq (fun t => ?_) (framed_done id .done c)
    rw [handleState, hs]
    rfl

/-! ## Rounds

The same for a round of `update_state` and for its loop, now in two different processes.  The fuel
of the two loops may differ; the record determines where each of them ends (`Grows.unique`). -/

section Rounds

variable {t t' u u' : Server} {p q : Ptr} {rows : Set ℕ} {es fs : List ServerEvent}

/-- What is recorded from one state to another is about `p` only, and the rows are changed by that
record and by nothing else. -/
structure Grows (p : Ptr) (es : List ServerEvent) (t u : Server) : Prop where
  trace : u.trace = t.trace ++ es
  rows : u.zodiacPrognosises = es.foldl ServerEvent.rows t.zodiacPrognosises
  about : ∀ e ∈ es, e.about = some p

theorem Grows.refl (p : Ptr) (t : Server) : Grows p [] t t :=
  ⟨(List.append_nil _).symm, rfl, fun _ he => absurd he List.not_mem_nil⟩

theorem Grows.trans {v : Server} (h : Grows p es t u) (h' : Grows p fs u v) :
    Grows p (es ++ fs) t v := by
  refine ⟨?_, ?_, fun e he => (List.mem_append.mp he).elim (h.about e) (h'.about e)⟩
  · rw [h'.trace, h.trace, List.append_assoc]
  · rw [h'.rows, h.rows, List.foldl_append]

/-- Two servers in which the connection is the same, and the kernel, and the rows that it reads.
The rounds of a call do the same in both, whatever else is different. -/
structure Alike (p : Ptr) (rows : Set ℕ) (t t' : Server) : Prop where
  ready : Ready p t
  ready' : Ready p t'
  conn : (t'.mem p).toConnState = (t.mem p).toConnState
  ts : (t'.mem p).ts = (t.mem p).ts
  kernel : t'.kernel = t.kernel
  rows : ∀ z ∈ rows, t'.zodiacPrognosises z = t.zodiacPrognosises z

/-- The rows that a record reads are among these. -/
def ReadsIn (rows : Set ℕ) (es : List ServerEvent) : Prop :=
  ∀ e ∈ es, ∀ z, e.reads = some z → z ∈ rows

/-- What a round of `update_state` records. -/
def roundEvents (p : Ptr) (r : Ctx × After) : List ServerEvent :=
  r.1.io.trace.map (.conn p) ++ if r.2 = .done then [] else [.heapCall p (some p)]

theorem HeapInv.trace_runHandler (h : HeapInv t) (hp : p ∈ t.allocated) :
    (runHandler p t).trace = t.trace ++ roundEvents p (handleState (t.ctx p)) := by
  have hinv : HeapInv (t.withCtx p (handleState (t.ctx p)).1) := h.withCtx _
  rw [roundEvents, ← List.append_assoc]
  cases hafter : (handleState (t.ctx p)).2 with
  | done =>
    have hres : runHandler p t = t.withCtx p (handleState (t.ctx p)).1 := by
      simp only [runHandler, hafter]
    rw [hres, if_pos rfl, List.append_nil]
    rfl
  | updateTs =>
    have hres : runHandler p t =
        updateServerStateTs p (t.withCtx p (handleState (t.ctx p)).1) := by
      simp only [runHandler, hafter]
    rw [hres, if_neg (by decide)]
    exact (hinv.retimed (p := p) hp).trace

theorem kernel_runHandler (p : Ptr) (t : Server) :
    (runHandler p t).kernel =
      ⟨(handleState (t.ctx p)).1.io.recvs, (handleState (t.ctx p)).1.io.sends,
        if (handleState (t.ctx p)).2 = .done then t.kernel.clock else t.kernel.clock.tail,
        t.kernel.ctlFails⟩ := by
  rw [runHandler]
  cases hafter : (handleState (t.ctx p)).2 with
  | done => rfl
  | updateTs => rfl

theorem rows_roundEvents (p : Ptr) (r : Ctx × After) (t : Table) :
    (roundEvents p r).foldl ServerEvent.rows t = r.1.io.trace.foldl ConnEvent.rows t := by
  rw [roundEvents, List.foldl_append, List.foldl_map]
  split <;> rfl

theorem about_roundEvents (p : Ptr) (r : Ctx × After) : ∀ e ∈ roundEvents p r,
    e.about = some p := by
  intro e he
  rcases List.mem_append.mp he with he | he
  · obtain ⟨ce, -, rfl⟩ := List.mem_map.mp he
    rfl
  · split at he
    · cases he
    · rw [List.mem_singleton.mp he]
      rfl

/-- A round records something. -/
theorem Ready.grows (h : Ready p t) :
    Grows p (roundEvents p (handleState (t.ctx p))) t (Astrologer.runHandler p t) := by
  refine ⟨h.inv.trace_runHandler h.mem, ?_, about_roundEvents p _⟩
  obtain ⟨es, hio, hrows⟩ := rowsFollow_handleState (t.ctx p)
  rw [(h.inv.handled h.mem).zodiacPrognosises, rows_roundEvents, hrows, hio]
  rfl

/-- **A round does the same in servers that are alike**, if the rows that it reads are among those
that are the same: it records the same, and the servers are alike behind it. -/
theorem Alike.runHandler (h : Alike p rows t t')
    (hreads : ReadsIn rows (roundEvents p (handleState (t.ctx p)))) :
    roundEvents p (handleState (t'.ctx p)) = roundEvents p (handleState (t.ctx p)) ∧
      Alike p rows (Astrologer.runHandler p t) (Astrologer.runHandler p t') := by
  obtain ⟨es, hio, hrows, hframe⟩ := framed_handleState (t.ctx p)
  have hctx : t'.ctx p = { t.ctx p with zodiacPrognosises := t'.zodiacPrognosises } := by
    rw [Server.ctx, h.conn, h.kernel]
    rfl
  have hes : (handleState (t.ctx p)).1.io.trace = es := hio
  have hsame : handleState (t'.ctx p) =
      ({ (handleState (t.ctx p)).1 with
        zodiacPrognosises := es.foldl ConnEvent.rows t'.zodiacPrognosises },
        (handleState (t.ctx p)).2) := by
    rw [hctx]
    refine hframe t'.zodiacPrognosises fun e he z hz => h.rows z (hreads (.conn p e) ?_ z hz)
    exact List.mem_append_left _ (List.mem_map.mpr ⟨e, hes.symm ▸ he, rfl⟩)
  have hevents : roundEvents p (handleState (t'.ctx p)) =
      roundEvents p (handleState (t.ctx p)) := by
    rw [hsame]
    rfl
  have hh := h.ready.inv.handled h.ready.mem
  have hh' := h.ready'.inv.handled h.ready'.mem
  have hconn : ((Astrologer.runHandler p t').mem p).toConnState =
      ((Astrologer.runHandler p t).mem p).toConnState := by
    rw [hh'.conn, hh.conn, hsame]
  refine ⟨hevents, h.ready.runHandler, h.ready'.runHandler, hconn, ?_, ?_, fun z hz => ?_⟩
  · rw [hh'.ts, hh.ts, hconn, hsame, h.ts, h.kernel]
  · rw [kernel_runHandler, kernel_runHandler, hsame, h.kernel]
  · rw [h.ready'.grows.rows, h.ready.grows.rows, hevents]
    exact rows_congr _ (h.rows z hz)

/-- The loop records something. -/
theorem Ready.grows_loop (h : Ready p t) {fuel : ℕ} (hl : updateStateLoop p fuel t = some u) :
    ∃ es, Grows p es t u := by
  have hgrows : Ready p u ∧ ∃ es, Grows p es t u := by
    refine updateStateLoop_preserves (P := fun s => Ready p s ∧ ∃ es, Grows p es t s) ?_ hl
      ⟨h, [], .refl p t⟩
    rintro s ⟨hready, es, hgrows⟩
    exact ⟨hready.runHandler, _, hgrows.trans hready.grows⟩
  exact hgrows.2

/-- The entries between two states are determined by the states. -/
theorem Grows.unique (h : Grows p es t u) (htrace : u.trace = t.trace ++ fs) : fs = es :=
  List.append_cancel_left (htrace.symm.trans h.trace)

theorem ReadsIn.left (h : ReadsIn rows (es ++ fs)) : ReadsIn rows es :=
  fun e he => h e (List.mem_append_left _ he)

theorem ReadsIn.right (h : ReadsIn rows (es ++ fs)) : ReadsIn rows fs :=
  fun e he => h e (List.mem_append_right _ he)

/-- **So does the loop.**  By induction on the fuel; the rows that the rest of the loop reads are
among those that the whole loop reads. -/
theorem Alike.loop (h : Alike p rows t t') {fuel : ℕ}
    (hl : updateStateLoop p fuel t = some u) (hgrows : Grows p es t u)
    (hreads : ReadsIn rows es) :
    ∃ u', updateStateLoop p fuel t' = some u' ∧ Grows p es t' u' ∧ Alike p rows u u' := by
  induction fuel generalizing t t' es with
  | zero => cases hl
  | succ fuel ih =>
    obtain ⟨hround, hround'⟩ := And.intro h.ready.grows h.ready'.grows
    rcases updateStateLoop_cases hl with ⟨n, hn, hgo, hloop⟩ | ⟨hgo, rfl⟩
    · obtain rfl := Nat.succ.inj hn
      obtain ⟨fs, hrest⟩ := h.ready.runHandler.grows_loop hloop
      obtain rfl := hgrows.unique (hround.trans hrest).trace
      obtain ⟨hevents, halike⟩ := h.runHandler hreads.left
      obtain ⟨u', hloop', hrest', hend⟩ := ih halike hloop hrest hreads.right
      refine ⟨u', ?_, ?_, hend⟩
      · rw [updateStateLoop, halike.conn, if_pos hgo]
        exact hloop'
      · rw [hevents] at hround'
        exact hround'.trans hrest'
    · obtain rfl := hgrows.unique hround.trace
      obtain ⟨hevents, halike⟩ := h.runHandler hreads
      refine ⟨_, ?_, hevents ▸ hround', halike⟩
      rw [updateStateLoop, halike.conn, hgo]
      rfl

/-! ## Calls

Behind its loop a call removes the connection or has its descriptor watched as the new state says.
`Effect` is what a call amounts to when it has returned `0`, in terms that do not mention the
heap's layout. -/

/-- The connection is done for. -/
def ConnState.isOver (s : ConnState) : Bool :=
  decide (s.state = stateError ∨ s.state = stateSuccess)

theorem ConnState.isOver_eq_true {s : ConnState} : s.isOver = true ↔ s.over :=
  decide_eq_true_iff

/-- How the descriptor of a connection is watched behind a call. -/
def watchedAs (p : Ptr) (s : ConnState) : Option EpollEvent :=
  if s.isOver then none else some ⟨interest s.op, some p⟩

/-- **What a call that returns `0` does**, by its entries and the new state of the
connection. -/
structure Effect (p : Ptr) (es : List ServerEvent) (t u : Server) : Prop where
  inv : ServerInv u
  grows : Grows p es t u
  others : ∀ r, r ≠ p → (u.mem r).toConnState = (t.mem r).toConnState ∧
    (u.mem r).ts = (t.mem r).ts
  allocated : u.allocated =
    if (u.mem p).isOver then t.allocated.erase p else t.allocated
  epoll : u.epoll = Function.update t.epoll (t.fd p) (watchedAs p (u.mem p).toConnState)
  closed : u.closed = t.closed ++ if (u.mem p).isOver then [t.fd p] else []

/-- The connection is removed behind the loop. -/
theorem Kept.effect_removed (hk : Kept p t u) (hgrows : Grows p es t u) (hp : p ∈ t.allocated)
    (hclosed : u.closed = t.closed) (hover : (u.mem p).over) :
    Effect p (es ++ [.removed p, .heapCall p (some p)]) t (removeServerState p u) ∧
      SameStates u.mem (removeServerState p u).mem := by
  have hp' : p ∈ u.allocated := hk.inLoop.allocated.symm ▸ hp
  have hrem := hk.inLoop.inv.heap.removed hp'
  have hfd : u.fd p = t.fd p := hk.fd
  have hisOver : ((removeServerState p u).mem p).isOver = true := by
    rw [(hrem.same p).1]
    exact ConnState.isOver_eq_true.mpr hover
  refine ⟨⟨hk.inLoop.inv.removed hp', ?_, fun r hr => ?_, ?_, ?_, ?_⟩, hrem.same⟩
  · refine hgrows.trans ⟨hrem.trace, hrem.zodiacPrognosises, fun e he => ?_⟩
    rcases List.mem_cons.mp he with rfl | he
    · rfl
    · rw [List.mem_singleton.mp he]
      rfl
  · exact ⟨(hrem.same r).1.trans (hk.inLoop.others r hr).1,
      (hrem.same r).2.trans (hk.inLoop.others r hr).2⟩
  · rw [hisOver, if_pos rfl, hrem.allocated, hk.inLoop.allocated]
  · rw [watchedAs, hisOver, if_pos rfl, hrem.epoll, hk.epoll]
    exact congrArg (fun fd => Function.update t.epoll fd none) hfd
  · rw [hisOver, if_pos rfl, removeServerState_closed, hclosed, hfd]

/-- The connection stays. -/
theorem Kept.effect_kept (hk : Kept p t u) (hgrows : Grows p es t u) (hreg : t.Registered p)
    (hclosed : u.closed = t.closed) (hover : ¬ (u.mem p).over)
    (hinv : ServerInv (afterLoop (t.mem p).op p u).2)
    (hret : (afterLoop (t.mem p).op p u).1 = 0) :
    Effect p es t (afterLoop (t.mem p).op p u).2 ∧
      SameStates u.mem (afterLoop (t.mem p).op p u).2.mem := by
  have hepoll := hreg.afterLoop hk hover hret
  rcases afterLoop_cases (t.mem p).op p u with ⟨hover', -⟩ | ⟨-, mask, ret, hw⟩
  · exact absurd hover' hover
  · have hmem : (afterLoop (t.mem p).op p u).2.mem = u.mem := congrArg HeapMem.mem hw.toHeapMem
    have hisOver : ((afterLoop (t.mem p).op p u).2.mem p).isOver = false := by
      rw [hmem]
      exact Bool.eq_false_iff.mpr fun h => hover (ConnState.isOver_eq_true.mp h)
    refine ⟨⟨hinv, ?_, fun r hr => ?_, ?_, ?_, ?_⟩, fun r => ?_⟩
    · exact ⟨hw.trace.trans hgrows.trace, hw.zodiacPrognosises.trans hgrows.rows, hgrows.about⟩
    · rw [hmem]
      exact hk.inLoop.others r hr
    · rw [hisOver, if_neg Bool.false_ne_true, hw.allocated, hk.inLoop.allocated]
    · rw [watchedAs, hisOver, if_neg Bool.false_ne_true, hepoll, hmem]
      rfl
    · rw [hisOver, if_neg Bool.false_ne_true, afterLoop_closed hover, hclosed, List.append_nil]
    · rw [hmem]
      exact ⟨rfl, rfl⟩

theorem updateStateLoop_closed {fuel : ℕ} (hl : updateStateLoop p fuel t = some u) :
    u.closed = t.closed :=
  updateStateLoop_preserves (P := fun s => s.closed = t.closed)
    (fun s hs => (runHandler_closed p s).trans hs) hl rfl

/-- Whether `update_state` fails depends on the connection and the kernel. -/
theorem afterLoop_ret (op : FdOperation) (p : Ptr) (t : Server) :
    (afterLoop op p t).1 =
      if (t.mem p).state = stateError ∨ (t.mem p).state = stateSuccess then 0
      else if op ≠ (t.mem p).op ∧ t.kernel.ctlFails.head = true then -1 else 0 := by
  unfold afterLoop configureEpoll
  dsimp only
  by_cases hover : (t.mem p).state = stateError ∨ (t.mem p).state = stateSuccess
  · rw [if_pos hover, if_pos hover]
  · rw [if_neg hover, if_neg hover]
    by_cases hop : op = (t.mem p).op
    · rw [if_neg (not_not_intro hop), if_neg (fun h => h.1 hop)]
    · rw [if_pos hop]
      cases t.kernel.ctlFails.head <;> simp [hop]

/-- Behind the loop of a call that returns `0`. -/
theorem Alike.afterLoop (h : Alike p rows u u') (hk : Kept p t u) (hk' : Kept p t' u')
    (hgrows : Grows p es t u) (hgrows' : Grows p es t' u') (hreg : t.Registered p)
    (hreg' : t'.Registered p) (hp : p ∈ t.allocated) (hp' : p ∈ t'.allocated)
    (hclosed : u.closed = t.closed) (hclosed' : u'.closed = t'.closed)
    (hop : (t'.mem p).op = (t.mem p).op)
    (hinv : ServerInv (Astrologer.afterLoop (t.mem p).op p u).2)
    (hinv' : ServerInv (Astrologer.afterLoop (t'.mem p).op p u').2)
    (hret : (Astrologer.afterLoop (t.mem p).op p u).1 = 0) :
    (Astrologer.afterLoop (t'.mem p).op p u').1 = 0 ∧
      ∃ fs, Effect p fs t (Astrologer.afterLoop (t.mem p).op p u).2 ∧
        Effect p fs t' (Astrologer.afterLoop (t'.mem p).op p u').2 ∧
        SameStates u.mem (Astrologer.afterLoop (t.mem p).op p u).2.mem ∧
        SameStates u'.mem (Astrologer.afterLoop (t'.mem p).op p u').2.mem := by
  have hret' : (Astrologer.afterLoop (t'.mem p).op p u').1 = 0 := by
    rw [afterLoop_ret, h.conn, h.kernel, hop, ← afterLoop_ret]
    exact hret
  refine ⟨hret', ?_⟩
  by_cases hover : (u.mem p).over
  · have hover' : (u'.mem p).over := h.conn.symm ▸ hover
    have heq : Astrologer.afterLoop (t.mem p).op p u = (0, removeServerState p u) :=
      if_pos hover
    have heq' : Astrologer.afterLoop (t'.mem p).op p u' = (0, removeServerState p u') :=
      if_pos hover'
    obtain ⟨heffect, hsame⟩ := hk.effect_removed hgrows hp hclosed hover
    obtain ⟨heffect', hsame'⟩ := hk'.effect_removed hgrows' hp' hclosed' hover'
    rw [heq, heq']
    exact ⟨_, heffect, heffect', hsame, hsame'⟩
  · have hover' : ¬ (u'.mem p).over := h.conn.symm ▸ hover
    obtain ⟨heffect, hsame⟩ := hk.effect_kept hgrows hreg hclosed hover hinv hret
    obtain ⟨heffect', hsame'⟩ := hk'.effect_kept hgrows' hreg' hclosed' hover' hinv' hret'
    exact ⟨es, heffect, heffect', hsame, hsame'⟩

/-- What a call of `update_state` needs to find: a server in order, and a live connection that
`epoll` watches. -/
structure Callable (p : Ptr) (t : Server) : Prop where
  inv : ServerInv t
  mem : p ∈ t.allocated
  conn : ConnInv (t.mem p).toConnState
  registered : t.Registered p

theorem Callable.ready (h : Callable p t) : Ready p t := ⟨h.inv.heap, h.mem, h.conn⟩

/-- **A call does the same in servers that are alike**: it returns too, with the same entries, and
leaves the connection in the same state with the same deadline. -/
theorem Alike.updateState (h : Alike p rows t t') (ht : Callable p t) (ht' : Callable p t')
    {fuel : ℕ} (hu : updateState fuel p t = some (0, u))
    (hreads : ∀ es, u.trace = t.trace ++ es → ReadsIn rows es) :
    ∃ u' es, Astrologer.updateState fuel p t' = some (0, u') ∧ Effect p es t u ∧
      Effect p es t' u' ∧ (u'.mem p).toConnState = (u.mem p).toConnState ∧
      (u'.mem p).ts = (u.mem p).ts := by
  have hinv := (ht.inv.updateState ht.mem hu).1
  obtain ⟨s, hloop, hafter⟩ := Option.map_eq_some_iff.mp hu
  have hu₁ : u = (Astrologer.afterLoop (t.mem p).op p s).2 := congrArg Prod.snd hafter.symm
  have hret : (Astrologer.afterLoop (t.mem p).op p s).1 = 0 := congrArg Prod.fst hafter
  obtain ⟨es, hgrows⟩ := h.ready.grows_loop hloop
  have hk := ht.inv.kept ht.mem ht.conn hloop
  have hclosed := updateStateLoop_closed hloop
  -- the entries of the loop are among those of the call
  have hprefix : ∃ fs, u.trace = s.trace ++ fs := by
    rcases afterLoop_cases (t.mem p).op p s with ⟨-, heq⟩ | ⟨-, mask, ret, hw⟩
    · rw [hu₁, heq]
      exact ⟨_, (hk.inLoop.inv.heap.removed (hk.inLoop.allocated.symm ▸ ht.mem)).trace⟩
    · rw [hu₁]
      exact ⟨[], hw.trace.trans (List.append_nil _).symm⟩
  obtain ⟨fs, hfs⟩ := hprefix
  have hcall : ReadsIn rows (es ++ fs) :=
    hreads _ (by rw [hfs, hgrows.trace, List.append_assoc])
  have hreads' : ReadsIn rows es := hcall.left
  obtain ⟨s', hloop', hgrows', halike⟩ := h.loop hloop hgrows hreads'
  have hk' := ht'.inv.kept ht'.mem ht'.conn hloop'
  have hu' : Astrologer.updateState fuel p t' = some (Astrologer.afterLoop (t'.mem p).op p s') :=
    Option.map_eq_some_iff.mpr ⟨s', hloop', rfl⟩
  have hinv' := (ht'.inv.updateState ht'.mem hu').1
  have hop : (t'.mem p).op = (t.mem p).op := congrArg ConnState.op h.conn
  obtain ⟨hret', gs, heffect, heffect', hsame, hsame'⟩ := halike.afterLoop hk hk' hgrows hgrows'
    ht.registered ht'.registered ht.mem ht'.mem hclosed (updateStateLoop_closed hloop') hop
    (hu₁ ▸ hinv) hinv' hret
  refine ⟨_, gs, ?_, hu₁ ▸ heffect, heffect', ?_, ?_⟩
  · rw [hu', ← hret']
  · rw [hu₁, (hsame' p).1, (hsame p).1, halike.conn]
  · rw [hu₁, (hsame' p).2, (hsame p).2, halike.ts]

theorem Callable.withKernel (h : Callable p t) (k : Kernel) : Callable p (t.withKernel k) :=
  ⟨h.inv.withKernel k, h.mem, h.conn, h.registered⟩

/-- A call leaves the other connections callable. -/
theorem Effect.callable (h : Effect p es t u) (hp : t.Registered p) (hq : Callable q t)
    (hne : q ≠ p) : Callable q u := by
  have hfd : t.fd q ≠ t.fd p := hp.fd_ne hq.registered hne
  have hmem : q ∈ u.allocated := by
    rw [h.allocated]
    split
    · exact Finset.mem_erase.mpr ⟨hne, hq.mem⟩
    · exact hq.mem
  have hepoll : u.epoll (t.fd q) = t.epoll (t.fd q) := by
    rw [h.epoll, Function.update_of_ne hfd]
  refine ⟨h.inv, hmem, ?_, hq.registered.of_eq (h.others q hne).1 hepoll⟩
  rw [(h.others q hne).1]
  exact hq.conn

end Rounds

/-! ## Two calls

The effect of the first call is one that the second one does not notice, and the other way round.
So the two exchanged calls exist, have the same effects, and end in servers with the same outcome.
-/

/-- What was recorded since. -/
def Server.since (srv srv' : Server) : List ServerEvent := srv'.trace.drop srv.trace.length

theorem Grows.since {p : Ptr} {es : List ServerEvent} {t u : Server} (h : Grows p es t u) :
    t.since u = es := by
  rw [Server.since, h.trace, List.drop_left]

/-- The entries about one connection. -/
def recordOf (p : Ptr) (trace : List ServerEvent) : List ServerEvent :=
  trace.filter fun e => e.about = some p

/-- The two servers differ in the layout of the heap, and in how the records of the
connections are interleaved. -/
structure SameOutcome (u u' : Server) : Prop where
  conns : ∀ r, (u'.mem r).toConnState = (u.mem r).toConnState ∧ (u'.mem r).ts = (u.mem r).ts
  allocated : u'.allocated = u.allocated
  closed : u'.closed.Perm u.closed
  epoll : u'.epoll = u.epoll
  zodiacPrognosises : u'.zodiacPrognosises = u.zodiacPrognosises
  record : ∀ r, recordOf r u'.trace = recordOf r u.trace
  sent : ∀ r, sentTo r u'.trace = sentTo r u.trace
  elems : u'.elems = u.elems
  heap : HeapInv u
  heap' : HeapInv u'

theorem recordOf_eq_nil {p q : Ptr} {es : List ServerEvent} (h : ∀ e ∈ es, e.about = some p)
    (hne : q ≠ p) : recordOf q es = [] := by
  refine List.filter_eq_nil_iff.mpr fun e he heq => hne ?_
  rw [h e he] at heq
  exact (Option.some.inj (of_decide_eq_true heq)).symm

/-- What is sent is seen in the record of the connection. -/
theorem sentTo_recordOf (p : Ptr) (trace : List ServerEvent) :
    sentTo p (recordOf p trace) = sentTo p trace := by
  induction trace with
  | nil => rfl
  | cons e trace ih =>
    by_cases habout : e.about = some p
    · have hcons : recordOf p (e :: trace) = e :: recordOf p trace :=
        List.filter_cons_of_pos (decide_eq_true habout)
      rw [hcons]
      show _ ++ sentTo p (recordOf p trace) = _ ++ sentTo p trace
      rw [ih]
    · have hcons : recordOf p (e :: trace) = recordOf p trace :=
        List.filter_cons_of_neg fun h => habout (of_decide_eq_true h)
      rw [hcons, ih]
      show sentTo p trace = _ ++ sentTo p trace
      cases e with
      | conn q ce =>
        have hqp : q ≠ p := fun heq => habout (congrArg some heq)
        cases ce with
        | sent bs =>
          show sentTo p trace = (if q = p then bs else []) ++ sentTo p trace
          rw [if_neg hqp]
          rfl
        | recv bs => rfl
        | recvError => rfl
        | sendError => rfl
        | request z => rfl
        | prognosis z l => rfl
      | connected q => rfl
      | removed q => rfl
      | heapCall q entry => rfl
      | removeFailed ix => rfl

theorem Effect.of_withKernel {p : Ptr} {es : List ServerEvent} {t u : Server} {k : Kernel}
    (h : Effect p es (t.withKernel k) u) : Effect p es t u :=
  ⟨h.inv, ⟨h.grows.trace, h.grows.rows, h.grows.about⟩, h.others, h.allocated, h.epoll, h.closed⟩

/-- **Two calls in both orders.**  Each does in the one order what it does in the other. -/
theorem SameOutcome.of_effects {p q : Ptr} {es fs : List ServerEvent} {t s₁ s₂ u u' : Server}
    (hp : Effect p es t s₁) (hq : Effect q fs s₁ u) (hq' : Effect q fs t s₂)
    (hp' : Effect p es s₂ u') (hne : q ≠ p) (hfd : t.fd q ≠ t.fd p)
    (hind : Independent es fs)
    (hpconn : (u'.mem p).toConnState = (s₁.mem p).toConnState ∧ (u'.mem p).ts = (s₁.mem p).ts)
    (hqconn : (s₂.mem q).toConnState = (u.mem q).toConnState ∧ (s₂.mem q).ts = (u.mem q).ts) :
    SameOutcome u u' := by
  have hfdq : s₁.fd q = t.fd q := congrArg (fun s : ConnState => s.intermBuf.fd) (hp.others q hne).1
  have hfdp : s₂.fd p = t.fd p :=
    congrArg (fun s : ConnState => s.intermBuf.fd) (hq'.others p hne.symm).1
  have halloc : u'.allocated = u.allocated := by
    rw [hp'.allocated, hq'.allocated, hq.allocated, hp.allocated, hpconn.1, hqconn.1]
    split <;> split <;> first | rfl | exact Finset.erase_right_comm
  have hrecord : ∀ r, recordOf r u'.trace = recordOf r u.trace := by
    intro r
    have happend : ∀ a b, recordOf r (a ++ b) = recordOf r a ++ recordOf r b :=
      fun a b => List.filter_append a b
    rw [hp'.grows.trace, hq'.grows.trace, hq.grows.trace, hp.grows.trace, happend, happend,
      happend, happend]
    by_cases hr : r = p
    · rw [hr, recordOf_eq_nil hq.grows.about hne.symm, List.append_nil, List.append_nil]
    · rw [recordOf_eq_nil hp.grows.about hr, List.append_nil, List.append_nil]
  refine ⟨fun r => ?_, halloc, ?_, ?_, ?_, hrecord, fun r => ?_, ?_, hq.inv.heap, hp'.inv.heap⟩
  · by_cases hrp : r = p
    · rw [hrp]
      exact ⟨hpconn.1.trans (hq.others p hne.symm).1.symm,
        hpconn.2.trans (hq.others p hne.symm).2.symm⟩
    · by_cases hrq : r = q
      · rw [hrq]
        exact ⟨(hp'.others q hne).1.trans hqconn.1, (hp'.others q hne).2.trans hqconn.2⟩
      · obtain ⟨hc₁, ht₁⟩ := hp.others r hrp
        obtain ⟨hc₂, ht₂⟩ := hq.others r hrq
        obtain ⟨hc₃, ht₃⟩ := hq'.others r hrq
        obtain ⟨hc₄, ht₄⟩ := hp'.others r hrp
        exact ⟨(hc₄.trans hc₃).trans (hc₂.trans hc₁).symm,
          (ht₄.trans ht₃).trans (ht₂.trans ht₁).symm⟩
  · rw [hp'.closed, hq'.closed, hq.closed, hp.closed, hpconn.1, hqconn.1, hfdq, hfdp,
      List.append_assoc, List.append_assoc]
    exact List.perm_append_comm.append_left _
  · rw [hp'.epoll, hq'.epoll, hq.epoll, hp.epoll, hpconn.1, hqconn.1, hfdq, hfdp]
    exact Function.update_comm hfd ..
  · rw [hp'.grows.rows, hq'.grows.rows, hq.grows.rows, hp.grows.rows]
    exact (hind.rows_comm t.zodiacPrognosises).symm
  · rw [← sentTo_recordOf, hrecord, sentTo_recordOf]
  · rw [hp'.inv.heap.elems, hq.inv.heap.elems, halloc]

/-- The rows that a record does not write. -/
def unwritten (es : List ServerEvent) : Set ℕ := {z | ∀ e ∈ es, e.writes ≠ some z}

theorem Independent.readsIn {es fs : List ServerEvent} (h : Independent es fs) :
    ReadsIn (unwritten es) fs :=
  fun f hf z hreads e he hwrites => ((h e he f hf z).1 hwrites).1 hreads

theorem Grows.rows_unwritten {p : Ptr} {es : List ServerEvent} {t u : Server}
    (h : Grows p es t u) {z : ℕ} (hz : z ∈ unwritten es) :
    u.zodiacPrognosises z = t.zodiacPrognosises z := by
  rw [h.rows, rows_of_not_writes _ hz]

/-- What a call of another connection leaves as it was. -/
theorem Effect.alike {p q : Ptr} {es : List ServerEvent} {t u : Server} (h : Effect p es t u)
    (hq : Callable q t) (hq' : Callable q u) (hne : q ≠ p) (k : Kernel) :
    Alike q (unwritten es) (t.withKernel k) (u.withKernel k) :=
  ⟨(hq.withKernel k).ready, (hq'.withKernel k).ready, (h.others q hne).1, (h.others q hne).2,
    rfl, fun _ hz => h.grows.rows_unwritten hz⟩

theorem Alike.symm {p : Ptr} {rows : Set ℕ} {t t' : Server} (h : Alike p rows t t') :
    Alike p rows t' t :=
  ⟨h.ready', h.ready, h.conn.symm, h.ts.symm, h.kernel.symm, fun z hz => (h.rows z hz).symm⟩

theorem Callable.effect {p : Ptr} {t u : Server} (h : Callable p t) {fuel : ℕ}
    (hu : updateState fuel p t = some (0, u)) : ∃ es, Effect p es t u := by
  have hself : Alike p Set.univ t t := ⟨h.ready, h.ready, rfl, rfl, rfl, fun _ _ => rfl⟩
  obtain ⟨-, es, -, heffect, -⟩ := hself.updateState h h hu fun _ _ _ _ z _ => Set.mem_univ z
  exact ⟨es, heffect⟩

theorem Reachable.callable {c : Config} (h : Reachable c) (hpc : c.pc.looping = true) {p : Ptr}
    (hp : p ∈ c.srv.allocated) : Callable p c.srv :=
  ⟨h.inv.srv, hp, (h.idle p hp).conn, h.registered hpc p hp⟩

/-- **The order of two events does not matter**, if the two calls return `0` and do not
touch the same row of the table with one of them writing it.  The clock and the answers to
`recv` and `send` are given to each connection. -/
theorem update_comm {c : Config} (h : Reachable c) (hpc : c.pc.looping = true) {p q : Ptr}
    (hp : p ∈ c.srv.allocated) (hq : q ∈ c.srv.allocated) (hne : q ≠ p) (kp kq : Kernel)
    {f g : ℕ} {s₁ u : Server}
    (h₁ : updateState f p (c.srv.withKernel kp) = some (0, s₁))
    (h₂ : updateState g q (s₁.withKernel kq) = some (0, u))
    (hind : Independent (c.srv.since s₁) (s₁.since u)) :
    ∃ s₂ u', updateState g q (c.srv.withKernel kq) = some (0, s₂) ∧
      updateState f p (s₂.withKernel kp) = some (0, u') ∧ SameOutcome u u' := by
  have hcp : Callable p c.srv := h.callable hpc hp
  have hcq : Callable q c.srv := h.callable hpc hq
  obtain ⟨es, hes⟩ := (hcp.withKernel kp).effect h₁
  have hpe : Effect p es c.srv s₁ := hes.of_withKernel
  have hcq₁ : Callable q s₁ := hpe.callable hcp.registered hcq hne
  -- the call of `q` goes to the front
  obtain ⟨s₂, fs, hrun₂, hqe₁, hqe, hqconn, hqts⟩ :=
    (hpe.alike hcq hcq₁ hne kq).symm.updateState (hcq₁.withKernel kq) (hcq.withKernel kq) h₂
      fun fs hfs => by
        have hsince : c.srv.since s₁ = es := hpe.grows.since
        have hfs' : s₁.since u = fs := by
          rw [Server.since, hfs]
          exact List.drop_left
        rw [hsince, hfs'] at hind
        exact hind.readsIn
  have hqe₁ : Effect q fs s₁ u := hqe₁.of_withKernel
  have hqe : Effect q fs c.srv s₂ := hqe.of_withKernel
  rw [hpe.grows.since, hqe₁.grows.since] at hind
  have hcp₂ : Callable p s₂ := hqe.callable hcq.registered hcp hne.symm
  -- the call of `p` goes to the back
  obtain ⟨u', es', hrun, hpe', hpe₂, hpconn, hpts⟩ :=
    (hqe.alike hcp hcp₂ hne.symm kp).updateState (hcp.withKernel kp) (hcp₂.withKernel kp) h₁
      fun es' hes' => by
        rw [hes.grows.unique hes']
        exact hind.symm.readsIn
  obtain rfl : es' = es := hes.grows.unique hpe'.grows.trace
  refine ⟨s₂, u', hrun₂, hrun, ?_⟩
  exact .of_effects hpe hqe₁ hqe hpe₂.of_withKernel hne (hcp.registered.fd_ne hcq.registered hne)
    hind ⟨hpconn, hpts⟩ ⟨hqconn, hqts⟩

/-! A Star sends its two lines on the first connection, while a client asks on the second
for a sign that has no row yet. -/

def sampleAsks : Kernel :=
  { sampleKernel 0 with recvs := Stream'.const (.bytes (str "HOROSCOPE Taurus\n")) }

def sampleStarFirst : Option (ℤ × Server) := updateState 8 1 (sampleTwo.withKernel sampleStarSays)

def sampleBoth : Option (ℤ × Server) :=
  sampleStarFirst.bind fun r => updateState 8 2 (r.2.withKernel sampleAsks)

theorem sampleBoth_comm :
    ∃ r₁ r s₂ u', sampleStarFirst = some r₁ ∧ sampleBoth = some r ∧ r.2.allocated = {1, 2} ∧
      updateState 8 2 (sampleTwo.withKernel sampleAsks) = some (0, s₂) ∧
      updateState 8 1 (s₂.withKernel sampleStarSays) = some (0, u') ∧ SameOutcome r.2 u' := by
  have hfirst : (sampleStarFirst.map fun r => r.1) = some 0 := by decide
  have hboth : (sampleBoth.map fun r => (r.1, r.2.allocated)) = some (0, {1, 2}) := by decide
  have hind : ∀ r₁ ∈ sampleStarFirst, ∀ r ∈ sampleBoth,
      Independent (sampleTwo.since r₁.2) (r₁.2.since r.2) := by decide
  obtain ⟨r₁, h₁, hret₁⟩ := Option.map_eq_some_iff.mp hfirst
  obtain ⟨r, h₂, heq⟩ := Option.map_eq_some_iff.mp hboth
  obtain ⟨hret₂, halloc⟩ := Prod.mk.inj heq
  have hrun₁ : updateState 8 1 (sampleTwo.withKernel sampleStarSays) = some (0, r₁.2) := by
    rw [← hret₁]
    exact h₁
  have hrun₂ : updateState 8 2 (r₁.2.withKernel sampleAsks) = some (0, r.2) := by
    have hbind := h₂
    rw [sampleBoth, h₁, Option.bind_some] at hbind
    rw [← hret₂]
    exact hbind
  obtain ⟨s₂, u', hs₂, hu', hsame⟩ := update_comm sampleTwo_reachable rfl (p := 1) (q := 2)
    (by decide) (by decide) (by decide) sampleStarSays sampleAsks hrun₁ hrun₂
    (hind r₁ h₁ r h₂)
  exact ⟨r₁, r, s₂, u', h₁, h₂, halloc, hs₂, hu', hsame⟩

end Astrologer
