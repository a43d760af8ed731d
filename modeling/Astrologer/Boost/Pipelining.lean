import Astrologer.Boost.Connection

/-!
# Pipelined requests

A client may send its next request before it has the response to the last one.  Here
it sends any valid requests (`Request`: what makes one valid is part of it), and the
stream of their bytes is cut into reads at any places (`Pipelined`).  Nothing fails and
no deadline passes.

One response line for each request, and the map as after the requests one by one, is
`serveAll`.  A connection does not always get there.  A response is appended to what is
left in the buffer, and all of that is sent: bytes that a read brought behind a request
are sent back in front of its response, and they are lost as a request (`exchange`).
So the connection serves the requests exactly when no read reaches beyond the end of
the exchange it completes (`Pipelined.Aligned`), which is `served_iff_aligned`; otherwise
there is a first exchange with stray bytes (`stray_of_not_aligned`).
-/

namespace Astrologer.Boost

open Lines Segmentation

/-! ## Requests and responses

The requests as values, with their bytes and what a server that takes them one by one would
answer. -/

/-- The text behind a request's type: a zodiac and any remainder. -/
structure Named where
  zodiac : List Byte
  remainder : List Byte
  listed : zodiac ∈ zodiacList
  delim_notMem : delim ∉ remainder

/-- A valid request: `HOROSCOPE` with a name, or `STARS SAY` with a name and a
prognosis on a line of its own. -/
inductive Request
  | client (name : Named)
  | star (name : Named) (prognosis : List Byte) (delim_notMem : delim ∉ prognosis)

def Named.line (name : Named) (type : List Byte) : List Byte :=
  type ++ (name.zodiac ++ name.remainder) ++ [delim]

def Request.bytes : Request → List Byte
  | .client name => name.line clientRequestType
  | .star name prognosis _ => name.line starRequestType ++ (prognosis ++ [delim])

/-- The response line to a request, and the prognoses after it. -/
def Request.serve : Request → PrognosisManager → List Byte × PrognosisManager
  | .client name, m => ((m name.zodiac).getD unknownPrognosis ++ [delim], m)
  | .star name prognosis _, m =>
    (starResponseSuccess ++ [delim], m.setPrognosis name.zodiac prognosis)

/-- The requests one by one: a response line for each, and the prognoses at the end. -/
def serveAll : List Request → PrognosisManager → List (List Byte) × PrognosisManager
  | [], m => ([], m)
  | r :: requests, m =>
    let rest := serveAll requests (r.serve m).2
    ((r.serve m).1 :: rest.1, rest.2)

/-- The bytes of requests in order. -/
def stream (requests : List Request) : List Byte := (requests.map Request.bytes).flatten

theorem serveAll_append (requests : List Request) (r : Request) (rest : List Request)
    (m : PrognosisManager) :
    (serveAll (requests ++ r :: rest) m).1 =
      (serveAll requests m).1 ++ (r.serve (serveAll requests m).2).1 ::
        (serveAll rest (r.serve (serveAll requests m).2).2).1 := by
  induction requests generalizing m with
  | nil => rfl
  | cons r' requests ih => exact congrArg ((r'.serve m).1 :: ·) (ih (r'.serve m).2)

theorem Named.text_notMem (name : Named) {type : List Byte} (htype : delim ∉ type) :
    delim ∉ type ++ (name.zodiac ++ name.remainder) := by
  have hzodiac : ∀ z ∈ zodiacList, delim ∉ z := by decide
  rw [List.mem_append, List.mem_append, not_or, not_or]
  exact ⟨htype, hzodiac _ name.listed, name.delim_notMem⟩

theorem Named.isLine (name : Named) {type : List Byte} (htype : delim ∉ type) :
    IsLine delim (name.line type) := ⟨_, name.text_notMem htype, rfl⟩

theorem client_isLine (name : Named) : IsLine delim (name.line clientRequestType) :=
  name.isLine (by decide)

theorem star_isLine (name : Named) : IsLine delim (name.line starRequestType) :=
  name.isLine (by decide)

/-! ## How a request is read

`parseZodiac` finds a name at the front of the text, whatever follows it.  As no name is the front
of another one the search finds the right one. -/

theorem startsWith_iff {s pre : List Byte} : startsWith s pre = true ↔ pre <+: s := by
  rw [startsWith, beq_iff_eq, List.prefix_iff_eq_take, eq_comm]

/-- No zodiac is a prefix of another one. -/
theorem zodiac_eq_of_le :
    ∀ z ∈ zodiacList, ∀ z' ∈ zodiacList, z <+: z' → z = z' := by decide

/-- **The zodiac is found whatever follows it**, since no name of the list is the front of another
one. -/
theorem findZodiac_append {z : List Byte} (hz : z ∈ zodiacList) (remainder : List Byte) :
    findZodiac (z ++ remainder) = some z := by
  cases h : findZodiac (z ++ remainder) with
  | none =>
    refine absurd (startsWith_iff.mpr (List.prefix_append z remainder)) ?_
    exact List.find?_eq_none.mp h z hz
  | some z' =>
    have hmem : z' ∈ zodiacList := List.mem_of_find?_eq_some h
    have hpre : z' <+: z ++ remainder := startsWith_iff.mp (List.find?_some h)
    have heq : z' = z := by
      rcases List.prefix_or_prefix_of_prefix hpre (List.prefix_append z remainder) with hle | hle
      · exact zodiac_eq_of_le z' hmem z hz hle
      · exact (zodiac_eq_of_le z hz z' hmem hle).symm
    rw [heq]

/-- A zero byte ends the text that is looked up, but it is behind the zodiac. -/
theorem cStr_name (name : Named) (type : List Byte) :
    ∃ remainder, cStr (type ++ (name.zodiac ++ name.remainder)) type.length =
      name.zodiac ++ remainder := by
  have hzero : ∀ z ∈ zodiacList, 0 ∉ z := by decide
  have hne : ∀ b ∈ name.zodiac, (b != 0) = true := fun b hb =>
    bne_iff_ne.mpr fun heq => hzero _ name.listed (heq ▸ hb)
  rw [cStr, List.drop_left, List.takeWhile_append_of_pos hne]
  exact ⟨_, rfl⟩

theorem findZodiac_name (name : Named) (type : List Byte) :
    findZodiac (cStr (type ++ (name.zodiac ++ name.remainder)) type.length) =
      some name.zodiac := by
  obtain ⟨remainder, h⟩ := cStr_name name type
  rw [h]
  exact findZodiac_append name.listed remainder

/-! ## The handlers

What the three handlers do with a buffer that begins with their line and has any bytes behind it.
-/

section Handlers

variable {c : Connection} {left : List Byte}

/-- A request for a prognosis. -/
theorem handleReadRequest_client {name : Named}
    (h : c.buffer = name.line clientRequestType ++ left) :
    c.handleReadRequest .success = { c with
      buffer := left ++ ((c.prognosisManager name.zodiac).getD unknownPrognosis ++ [delim])
      operation := .writeResponse } := by
  have hget := getline_text (name.text_notMem (by decide : delim ∉ clientRequestType)) left
  have hstar : startsWith (clientRequestType ++ (name.zodiac ++ name.remainder))
      starRequestType = false := rfl
  have hclient : startsWith (clientRequestType ++ (name.zodiac ++ name.remainder))
      clientRequestType = true := rfl
  rw [Connection.handleReadRequest, if_neg (not_not_intro rfl)]
  dsimp only
  rw [h, Named.line, hget]
  dsimp only
  rw [hstar, if_neg Bool.false_ne_true, hclient, if_pos rfl, findZodiac_name]
  dsimp only [PrognosisManager.getPrognosis]
  cases c.prognosisManager name.zodiac with
  | none => rfl
  | some response => rfl

/-- The first line of a star. -/
theorem handleReadRequest_star {name : Named}
    (h : c.buffer = name.line starRequestType ++ left) :
    c.handleReadRequest .success = { c with
      buffer := left
      operation := .readPrognosis name.zodiac } := by
  have hget := getline_text (name.text_notMem (by decide : delim ∉ starRequestType)) left
  have hstar : startsWith (starRequestType ++ (name.zodiac ++ name.remainder))
      starRequestType = true := rfl
  rw [Connection.handleReadRequest, if_neg (not_not_intro rfl)]
  dsimp only
  rw [h, Named.line, hget]
  dsimp only
  rw [hstar, if_pos rfl, findZodiac_name]

/-- Its second line. -/
theorem handleReadPrognosis_text {zodiac prognosis : List Byte} (hprognosis : delim ∉ prognosis)
    (h : c.buffer = prognosis ++ [delim] ++ left) :
    c.handleReadPrognosis .success zodiac = { c with
      buffer := left ++ (starResponseSuccess ++ [delim])
      operation := .writeResponse
      prognosisManager := c.prognosisManager.setPrognosis zodiac prognosis } := by
  rw [Connection.handleReadPrognosis, if_neg (not_not_intro rfl)]
  dsimp only
  rw [h, getline_text hprognosis]
  rfl

end Handlers

/-! ## One exchange

From a request to the write of its response.  What the last read has brought behind the request is
still in the buffer when the response is put there, and it is sent first. -/

section Exchange

variable {m : PrognosisManager} {reads reads' : List (List Byte)} {closes : Bool}
  {writes : List (List Byte)} {left : List Byte}

theorem step_client {name : Named}
    (h : readUntil [] reads = some (name.line clientRequestType ++ left, reads')) :
    (Connection.waiting m reads closes writes).step =
      some ⟨left ++ ((m name.zodiac).getD unknownPrognosis ++ [delim]), .writeResponse, m,
        reads', closes, writes⟩ :=
  (Connection.completeRead_of_some h _).trans (congrArg some (handleReadRequest_client rfl))

theorem step_star {name : Named}
    (h : readUntil [] reads = some (name.line starRequestType ++ left, reads')) :
    (Connection.waiting m reads closes writes).step =
      some ⟨left, .readPrognosis name.zodiac, m, reads', closes, writes⟩ :=
  (Connection.completeRead_of_some h _).trans (congrArg some (handleReadRequest_star rfl))

theorem step_prognosis {zodiac prognosis buffer : List Byte} (hprognosis : delim ∉ prognosis)
    (h : readUntil buffer reads = some (prognosis ++ [delim] ++ left, reads')) :
    (Connection.mk buffer (.readPrognosis zodiac) m reads closes writes).step =
      some ⟨left ++ (starResponseSuccess ++ [delim]), .writeResponse,
        m.setPrognosis zodiac prognosis, reads', closes, writes⟩ :=
  (Connection.completeRead_of_some
    (c := .mk buffer (.readPrognosis zodiac) m reads closes writes) h
    fun c ec => c.handleReadPrognosis ec zodiac).trans
      (congrArg some (handleReadPrognosis_text hprognosis rfl))

theorem step_write (buffer : List Byte) :
    (Connection.mk buffer .writeResponse m reads closes writes).step =
      some (.waiting m reads closes (writes ++ [buffer])) := rfl

/-- **One exchange.**  The response is sent behind the stray bytes. -/
theorem exchange (m : PrognosisManager) (closes : Bool) (writes : List (List Byte))
    (r : Request) {behind : List Byte} (h : reads.flatten = r.bytes ++ behind) :
    ∃ left reads', Completes [] reads r.bytes left reads' ∧ behind = left ++ reads'.flatten ∧
      (Connection.waiting m reads closes writes).result =
        (Connection.waiting (r.serve m).2 reads' closes
          (writes ++ [left ++ (r.serve m).1])).result := by
  cases r with
  | client name =>
    obtain ⟨left, reads', hread, hmade, hbehind⟩ :=
      readUntil_line (client_isLine name) ((List.nil_append _).trans h)
    refine ⟨left, reads', hmade, hbehind, ?_⟩
    rw [Connection.result_eq_of_step (step_client hread),
      Connection.result_eq_of_step (step_write _)]
    rfl
  | star name prognosis hprognosis =>
    have hassoc : [] ++ reads.flatten =
        name.line starRequestType ++ (prognosis ++ [delim] ++ behind) := by
      rw [List.nil_append, h, Request.bytes, List.append_assoc]
    obtain ⟨left, reads₁, hread, hmade, hbehind⟩ :=
      readUntil_line (star_isLine name) hassoc
    obtain ⟨left', reads', hread', hmade', hbehind'⟩ :=
      readUntil_line ⟨prognosis, hprognosis, rfl⟩ hbehind.symm
    refine ⟨left', reads', hmade.append hmade', hbehind', ?_⟩
    rw [Connection.result_eq_of_step (step_star hread),
      Connection.result_eq_of_step (step_prognosis hprognosis hread'),
      Connection.result_eq_of_step (step_write _)]
    rfl

/-- Without a request to read, nothing is written. -/
theorem result_waiting (m : PrognosisManager) (closes : Bool) (writes : List (List Byte))
    (h : reads.flatten = []) :
    (Connection.waiting m reads closes writes).result.writes = writes ∧
      (Connection.waiting m reads closes writes).result.prognosisManager = m := by
  have hnone : readUntil [] reads = none := by
    rw [readUntil_eq_none, h]
    exact List.not_mem_nil
  have hstep : (Connection.waiting m reads closes writes).step =
      if closes then some ⟨[] ++ reads.flatten, .stopped, m, [], closes, writes⟩ else none :=
    Connection.completeRead_of_none hnone _
  cases closes with
  | true =>
    rw [Connection.result_eq_of_step hstep, Connection.result_of_none rfl]
    exact ⟨rfl, rfl⟩
  | false =>
    rw [Connection.result_of_none hstep]
    exact ⟨rfl, rfl⟩

end Exchange

/-! ## Aligned reads

The reads of an exchange bring bytes until its last line is there.  They are aligned when they
bring no more than that, for each of the exchanges. -/

/-- **Every exchange ends where a read ends**, so that nothing is left in the buffer when its
response is put there. -/
def Aligned (requests : List Request) (reads : List (List Byte)) : Prop :=
  ∀ k, ∃ j, (reads.take j).flatten = stream (requests.take k)

theorem aligned_iff {requests : List Request} {reads : List (List Byte)} :
    Aligned requests reads ↔
      Segmentation.Aligned (requests.map Request.bytes) reads := by
  refine forall_congr' fun k => ?_
  rw [stream, List.map_take]

theorem aligned_cons_iff {r : Request} {requests : List Request} {left : List Byte}
    {reads reads' : List (List Byte)} (h : Completes [] reads r.bytes left reads') :
    Aligned (r :: requests) reads ↔ left = [] ∧ Aligned requests reads' := by
  rw [aligned_iff, aligned_iff, List.map_cons]
  exact Segmentation.aligned_cons_iff h

section Run

variable {reads : List (List Byte)} {closes : Bool}

/-- **With aligned reads every request is served**, one after the other.  By induction on the
requests, with one exchange in the step. -/
theorem served_of_aligned {requests : List Request} (m : PrognosisManager)
    (writes : List (List Byte)) (h : reads.flatten = stream requests)
    (ha : Aligned requests reads) :
    (Connection.waiting m reads closes writes).result.writes =
        writes ++ (serveAll requests m).1 ∧
      (Connection.waiting m reads closes writes).result.prognosisManager =
        (serveAll requests m).2 := by
  induction requests generalizing m reads writes with
  | nil =>
    obtain ⟨hwrites, hm⟩ := result_waiting m closes writes h
    exact ⟨hwrites.trans (List.append_nil writes).symm, hm⟩
  | cons r requests ih =>
    obtain ⟨left, reads', hmade, hbehind, hresult⟩ := exchange m closes writes r h
    obtain ⟨rfl, ha'⟩ := (aligned_cons_iff hmade).mp ha
    obtain ⟨hwrites, hm⟩ := ih (r.serve m).2 (writes ++ [[] ++ (r.serve m).1]) hbehind.symm ha'
    rw [hresult]
    refine ⟨hwrites.trans ?_, hm⟩
    rw [List.append_assoc]
    rfl

/-- **Otherwise there is a first exchange with stray bytes.**  They are the beginning of
the next requests, and they are sent in front of its response. -/
theorem stray_of_not_aligned {requests : List Request} (m : PrognosisManager)
    (writes : List (List Byte)) (h : reads.flatten = stream requests)
    (hna : ¬ Aligned requests reads) :
    ∃ served r rest left, requests = served ++ r :: rest ∧ left ≠ [] ∧
      left <+: stream rest ∧
      writes ++ (serveAll served m).1 ++ [left ++ (r.serve (serveAll served m).2).1] <+:
        (Connection.waiting m reads closes writes).result.writes := by
  induction requests generalizing m reads writes with
  | nil =>
    have hnil : Aligned [] reads := aligned_iff.mpr (Segmentation.aligned_nil reads)
    exact absurd hnil hna
  | cons r requests ih =>
    obtain ⟨left, reads', hmade, hbehind, hresult⟩ := exchange m closes writes r h
    rw [aligned_cons_iff hmade, not_and] at hna
    by_cases hleft : left = []
    · have htail : reads'.flatten = stream requests := by
        rw [hleft] at hbehind
        exact hbehind.symm
      obtain ⟨served, r', rest, left', hrequests, hne, hpre, hwrites⟩ :=
        ih (r.serve m).2 (writes ++ [left ++ (r.serve m).1]) htail (hna hleft)
      refine ⟨r :: served, r', rest, left', congrArg (r :: ·) hrequests, hne, hpre, ?_⟩
      rw [hresult]
      rw [hleft, List.append_assoc writes, List.append_assoc] at hwrites
      rw [hleft, List.append_assoc]
      exact hwrites
    · refine ⟨[], r, requests, left, rfl, hleft, ⟨reads'.flatten, hbehind.symm⟩, ?_⟩
      rw [hresult]
      show writes ++ [] ++ [left ++ (r.serve m).1] <+: _
      rw [List.append_nil]
      exact Connection.writes_prefix_result
        (.waiting (r.serve m).2 reads' closes (writes ++ [left ++ (r.serve m).1]))

end Run

/-! ## Plain texts

A stray byte may happen to look like a response.  It does not if the prognoses cannot be taken for
requests, since stray bytes are the front of one. -/

/-- The text does not begin as a request does. -/
def Plain (text : List Byte) : Prop :=
  text.head? ≠ clientRequestType.head? ∧ text.head? ≠ starRequestType.head?

instance (text : List Byte) : Decidable (Plain text) := inferInstanceAs (Decidable (_ ∧ _))

/-- No prognosis begins as a request does, neither those stored nor those to come. -/
structure PlainPrognoses (requests : List Request) (m : PrognosisManager) : Prop where
  stored : ∀ zodiac prognosis, m zodiac = some prognosis → Plain prognosis
  coming : ∀ name prognosis h, Request.star name prognosis h ∈ requests → Plain prognosis

theorem Plain.line {text : List Byte} (h : Plain text) : Plain (text ++ [delim]) := by
  cases text with
  | nil => decide
  | cons b text => exact h

theorem PlainPrognoses.serve {r : Request} {requests : List Request} {m : PrognosisManager}
    (h : PlainPrognoses (r :: requests) m) :
    Plain (r.serve m).1 ∧ PlainPrognoses requests (r.serve m).2 := by
  have hcoming : ∀ name prognosis h, Request.star name prognosis h ∈ requests →
      Plain prognosis := fun name prognosis hd hmem =>
    h.coming name prognosis hd (List.mem_cons_of_mem r hmem)
  cases r with
  | client name =>
    refine ⟨Plain.line ?_, h.stored, hcoming⟩
    cases hm : m name.zodiac with
    | none => decide
    | some prognosis => exact h.stored name.zodiac prognosis hm
  | star name prognosis hprognosis =>
    refine ⟨(by decide : Plain (starResponseSuccess ++ [delim])), ?_, hcoming⟩
    intro zodiac prognosis' hm
    by_cases heq : zodiac = name.zodiac
    · have hset : (m.setPrognosis name.zodiac prognosis) zodiac = some prognosis := by
        rw [heq]
        exact Function.update_self _ _ _
      cases hset.symm.trans hm
      exact h.coming name prognosis hprognosis List.mem_cons_self
    · have hset : (m.setPrognosis name.zodiac prognosis) zodiac = m zodiac :=
        Function.update_of_ne heq _ _
      exact h.stored zodiac prognosis' (hset.symm.trans hm)

theorem PlainPrognoses.responses {requests : List Request} {m : PrognosisManager}
    (h : PlainPrognoses requests m) : ∀ response ∈ (serveAll requests m).1, Plain response := by
  induction requests generalizing m with
  | nil => exact fun response hmem => absurd hmem List.not_mem_nil
  | cons r requests ih =>
    intro response hmem
    rcases List.mem_cons.mp hmem with rfl | hrest
    · exact h.serve.1
    · exact ih h.serve.2 response hrest

theorem Request.serve_ne_nil (r : Request) (m : PrognosisManager) : (r.serve m).1 ≠ [] := by
  cases r with
  | client name => exact List.append_ne_nil_of_right_ne_nil _ (List.cons_ne_nil _ _)
  | star name prognosis h => exact List.cons_ne_nil _ _

/-- Stray bytes begin as a request does. -/
theorem not_plain_of_stray {left : List Byte} {requests : List Request} (hne : left ≠ [])
    (h : left <+: stream requests) : ¬ Plain left := by
  cases requests with
  | nil => exact absurd (List.prefix_nil.mp h) hne
  | cons r requests =>
    obtain ⟨behind, heq⟩ := h
    have hbytes : r.bytes ≠ [] := by
      cases r with
      | client name => exact List.cons_ne_nil _ _
      | star name prognosis _ => exact List.cons_ne_nil _ _
    have hhead : left.head? = r.bytes.head? :=
      calc left.head? = (left ++ behind).head? := (List.head?_append_of_ne_nil _ hne).symm
        _ = (r.bytes ++ stream requests).head? := congrArg List.head? heq
        _ = r.bytes.head? := List.head?_append_of_ne_nil _ hbytes
    rintro ⟨hclient, hstar⟩
    cases r with
    | client name => exact hclient hhead
    | star name prognosis _ => exact hstar hhead

/-! ## Pipelined requests

Both directions, for the list of the writes and for their bytes. -/

/-- Requests, and the reads that bring their bytes. -/
structure Pipelined where
  requests : List Request
  reads : List (List Byte)
  /-- The client closes its side behind the last request. -/
  closes : Bool
  cut : reads.flatten = stream requests

namespace Pipelined

variable (p : Pipelined) (m : PrognosisManager)

/-- The connection at its end. -/
def run : Connection := (Connection.start m p.reads p.closes).result

/-- The writes are the response lines, and the prognoses are as after the requests one
by one. -/
def Served : Prop :=
  (p.run m).writes = (serveAll p.requests m).1 ∧
    (p.run m).prognosisManager = (serveAll p.requests m).2

/-- The same of the bytes that were written. -/
def ServedBytes : Prop :=
  (p.run m).writes.flatten = (serveAll p.requests m).1.flatten ∧
    (p.run m).prognosisManager = (serveAll p.requests m).2

variable {p m}

theorem served_of_aligned (h : Aligned p.requests p.reads) : p.Served m :=
  Boost.served_of_aligned m [] p.cut h

theorem Served.bytes (h : p.Served m) : p.ServedBytes m :=
  ⟨congrArg List.flatten h.1, h.2⟩

/-- Stray bytes make a write that is not the response. -/
theorem Served.aligned (h : p.Served m) : Aligned p.requests p.reads := by
  by_contra hna
  obtain ⟨served, r, rest, left, hrequests, hne, -, hpre⟩ := stray_of_not_aligned m [] p.cut hna
  obtain ⟨behind, hwrites⟩ := hpre
  have hall : (serveAll served m).1 ++ [left ++ (r.serve (serveAll served m).2).1] ++ behind =
      (serveAll (served ++ r :: rest) m).1 := by
    rw [← hrequests, ← h.1]
    exact hwrites
  rw [serveAll_append, List.append_assoc] at hall
  have hhead := (List.cons.inj (List.append_cancel_left hall)).1
  exact hne (List.append_left_eq_self.mp hhead)

/-- When no prognosis begins as a request does, the bytes tell the stray ones. -/
theorem ServedBytes.aligned (hplain : PlainPrognoses p.requests m) (h : p.ServedBytes m) :
    Aligned p.requests p.reads := by
  by_contra hna
  obtain ⟨served, r, rest, left, hrequests, hne, hstray, hpre⟩ :=
    stray_of_not_aligned m [] p.cut hna
  obtain ⟨behind, hwrites⟩ := hpre
  have hall := h.1
  rw [run, Connection.start, ← hwrites, hrequests, serveAll_append] at hall
  simp only [List.nil_append, List.flatten_append, List.flatten_cons, List.flatten_nil,
    List.append_nil, List.append_assoc] at hall
  have hhead := congrArg List.head? (List.append_cancel_left hall)
  rw [List.head?_append_of_ne_nil _ hne,
    List.head?_append_of_ne_nil _ (r.serve_ne_nil _)] at hhead
  have hresponse : Plain (r.serve (serveAll served m).2).1 := by
    refine hplain.responses _ ?_
    rw [hrequests, serveAll_append]
    exact List.mem_append_right _ List.mem_cons_self
  refine not_plain_of_stray hne hstray ?_
  rw [Plain, hhead]
  exact hresponse

variable (p m)

/-- **When pipelined requests are served.**  A connection always comes to its end.  Its
writes are the response lines exactly when the reads are aligned, and then so are the
bytes.  The bytes alone tell this too, unless a prognosis begins as a request does and
the stray bytes may pass for it. -/
theorem served_iff_aligned :
    (p.run m).step = none ∧
      (p.Served m ↔ Aligned p.requests p.reads) ∧
      (Aligned p.requests p.reads → p.ServedBytes m) ∧
      (PlainPrognoses p.requests m → (p.ServedBytes m ↔ Aligned p.requests p.reads)) :=
  ⟨Connection.step_result _, ⟨Served.aligned, served_of_aligned⟩,
    fun h => (served_of_aligned h).bytes,
    fun hplain => ⟨ServedBytes.aligned hplain, fun h => (served_of_aligned h).bytes⟩⟩

end Pipelined

/-! ## Two requests, in two reads and in one -/

def sampleAries : Named := ⟨str "Aries", [], by decide, by decide⟩
def sampleTaurus : Named := ⟨str "Taurus", [], by decide, by decide⟩

def sampleAligned : Pipelined where
  requests := [.client sampleAries, .client sampleTaurus]
  reads := [str "HOROSCOPE Aries\n", str "HOROSCOPE Taurus\n"]
  closes := true
  cut := by decide

theorem sampleAligned_served :
    sampleAligned.Served (fun _ => none) ∧ sampleAligned.ServedBytes fun _ => none := by
  have ha : Aligned sampleAligned.requests sampleAligned.reads := fun k =>
    match k with
    | 0 => ⟨0, rfl⟩
    | 1 => ⟨1, by decide⟩
    | k + 2 => by
      have htake : sampleAligned.requests.take (k + 2) = sampleAligned.requests :=
        List.take_of_length_le (Nat.le_add_left 2 k)
      exact ⟨2, by rw [htake]; exact sampleAligned.cut⟩
  have hplain : PlainPrognoses sampleAligned.requests fun _ => none :=
    ⟨fun _ _ h => (nomatch h), fun _ _ _ h => by
      simp only [sampleAligned, List.mem_cons, reduceCtorEq, List.not_mem_nil, or_self] at h⟩
  obtain ⟨-, hserved, -, hbytes⟩ := Pipelined.served_iff_aligned sampleAligned fun _ => none
  exact ⟨hserved.mpr ha, (hbytes hplain).mpr ha⟩

def samplePipelined : Pipelined where
  requests := [.client sampleAries, .client sampleTaurus]
  reads := [str "HOROSCOPE Aries\nHOROSCOPE Taurus\n"]
  closes := true
  cut := by decide

/-- **The second request is sent back**, and there is no second response. -/
theorem samplePipelined_writes :
    (samplePipelined.run fun _ => none).writes =
      [str "HOROSCOPE Taurus\nYOU ARE OUT OF LUCK!\n"] := by decide

theorem samplePipelined_not_served :
    ¬ samplePipelined.ServedBytes fun _ => none := by
  rintro ⟨hbytes, -⟩
  rw [samplePipelined_writes] at hbytes
  exact absurd hbytes (by decide)

end Astrologer.Boost
