import Astrologer.Boost.Clients

/-!
# What any client can do to the Boost server

Nothing is known about the clients here.  They send any bytes, in any pieces, they may stop in
the middle of a line or never read, and any operation may fail or run out of time.  All
connections of the server run at once and share one map (`Host`).

Even so everything that a connection does follows from the requests that it has completed.
`Deed` is what a request does: it stores a prognosis, or it asks for one.  The deeds of all
connections are done one after the other, in the order of the trace, and the map is what they
leave (`replay`).  A connection has received its requests, one after the other, with the bytes
of the one that it is reading; and it has sent its responses, as the map was at the time of each
(`responses`).  Only the bytes that a read brought behind a request are not where they belong:
they are sent in front of its response (`Exchange.stray`).

`Host.Reachable.confined` says all of this.  In particular a prognosis that is in the map came
from one connection, as one line directly behind the request of a star for this zodiac
(`Host.Reachable.provenance`).
-/

namespace Astrologer.Boost

open Lines

/-! ## What a request does

The map and the responses as functions of the trace, without any connection.  They are stated for
one deed more at the end, since this is how a trace grows. -/

inductive Deed
  /-- `setPrognosis`. -/
  | stored (zodiac prognosis : List Byte)
  /-- `getPrognosis`. -/
  | asked (zodiac : List Byte)
  deriving DecidableEq

def Deed.apply : Deed → PrognosisManager → PrognosisManager
  | .stored zodiac prognosis, m => m.setPrognosis zodiac prognosis
  | .asked _, m => m

/-- The response, without its delimiter. -/
def Deed.response : Deed → PrognosisManager → List Byte
  | .stored _ _, _ => starResponseSuccess
  | .asked zodiac, m => (m zodiac).getD unknownPrognosis

/-- A zodiac of the list, and one line. -/
def Deed.Lawful : Deed → Prop
  | .stored zodiac prognosis => zodiac ∈ zodiacList ∧ delim ∉ prognosis
  | .asked zodiac => zodiac ∈ zodiacList

section Trace

variable {ι : Type*} [DecidableEq ι]

/-- The map after some deeds, one after the other. -/
def replay (trace : List (ι × Deed)) : PrognosisManager :=
  trace.foldl (fun m x => x.2.apply m) fun _ => none

/-- The deeds of one connection. -/
def deeds (i : ι) (trace : List (ι × Deed)) : List Deed :=
  (trace.filter fun x => x.1 = i).map Prod.snd

/-- What one connection is told, beginning with the map `m`. -/
def responsesFrom (i : ι) : PrognosisManager → List (ι × Deed) → List (List Byte)
  | _, [] => []
  | m, (j, d) :: trace =>
    if j = i then d.response m :: responsesFrom i (d.apply m) trace
    else responsesFrom i (d.apply m) trace

def responses (i : ι) (trace : List (ι × Deed)) : List (List Byte) :=
  responsesFrom i (fun _ => none) trace

variable {i j : ι} {d : Deed} {trace : List (ι × Deed)}

omit [DecidableEq ι] in
theorem replay_concat (trace : List (ι × Deed)) (x : ι × Deed) :
    replay (trace ++ [x]) = x.2.apply (replay trace) := by
  rw [replay, List.foldl_append]
  rfl

theorem responsesFrom_concat (m : PrognosisManager) (trace : List (ι × Deed)) :
    responsesFrom i m (trace ++ [(j, d)]) = responsesFrom i m trace ++
      if j = i then [d.response (trace.foldl (fun m x => x.2.apply m) m)] else [] := by
  induction trace generalizing m with
  | nil => simp [responsesFrom]
  | cons x trace ih =>
    obtain ⟨k, e⟩ := x
    by_cases hk : k = i
    · simp [responsesFrom, hk, ih]
    · simp [responsesFrom, hk, ih]

@[simp] theorem responses_concat_self (trace : List (ι × Deed)) :
    responses i (trace ++ [(i, d)]) = responses i trace ++ [d.response (replay trace)] := by
  rw [responses, responsesFrom_concat, if_pos rfl]
  rfl

@[simp] theorem responses_concat_of_ne (h : j ≠ i) (trace : List (ι × Deed)) :
    responses i (trace ++ [(j, d)]) = responses i trace := by
  rw [responses, responsesFrom_concat, if_neg h, List.append_nil]
  rfl

@[simp] theorem deeds_concat_self (trace : List (ι × Deed)) :
    deeds i (trace ++ [(i, d)]) = deeds i trace ++ [d] := by
  simp [deeds]

@[simp] theorem deeds_concat_of_ne (h : j ≠ i) (trace : List (ι × Deed)) :
    deeds i (trace ++ [(j, d)]) = deeds i trace := by
  simp [deeds, h]

theorem length_responses (i : ι) (trace : List (ι × Deed)) :
    (responses i trace).length = (deeds i trace).length := by
  induction trace using List.reverseRecOn with
  | nil => rfl
  | append_singleton trace x ih =>
    obtain ⟨j, d⟩ := x
    by_cases hj : j = i
    · rw [hj, responses_concat_self, deeds_concat_self, List.length_append, List.length_append, ih]
      rfl
    · rw [responses_concat_of_ne hj, deeds_concat_of_ne hj, ih]

end Trace

/-! ## A connection

A connection with its socket, and the handler of the operation that is under way.  The operation
is complete when its buffer has a line, for a read, or is empty, for a write; in any other state
an error is possible. -/

/-- A connection of the server, with all that went over its socket in either direction.  What is
at the other end is not modelled: it may send anything. -/
structure Peer where
  buffer : List Byte
  operation : Operation
  received : List Byte
  sent : List Byte

/-- `start`. -/
def Peer.start : Peer := ⟨[], .readRequest, [], []⟩

/-- The connection, with the prognoses that it shares. -/
def Peer.connection (s : Peer) (m : PrognosisManager) : Connection where
  buffer := s.buffer
  operation := s.operation
  prognosisManager := m
  reads := []
  closes := false
  writes := []

/-- The handler of the operation under way. -/
def Peer.handle (s : Peer) (m : PrognosisManager) (ec : ErrorCode) : Peer :=
  let c := (s.connection m).handle ec
  { s with buffer := c.buffer, operation := c.operation }

/-- The prognoses after it. -/
def Peer.prognoses (s : Peer) (m : PrognosisManager) (ec : ErrorCode) : PrognosisManager :=
  ((s.connection m).handle ec).prognosisManager

/-- What the handler of a successful operation does to the prognoses, if it comes to a response: it
has answered a request for this zodiac, or it has stored this line for it. -/
def Peer.deed (s : Peer) (m : PrognosisManager) : Option Deed :=
  match s.operation with
  | .readRequest =>
    if (s.handle m .success).operation = .writeResponse then
      (findZodiac (cStr (getline s.buffer).1 clientRequestType.length)).map .asked
    else none
  | .readPrognosis zodiac => some (.stored zodiac (getline s.buffer).1)
  | .writeResponse => none
  | .stopped => none

/-- `async_read_until` is under way. -/
def Peer.Reads (s : Peer) : Prop :=
  s.operation = .readRequest ∨ ∃ zodiac, s.operation = .readPrognosis zodiac

/-- The operation is complete. -/
def Peer.Ready (s : Peer) : Prop :=
  s.Reads ∧ delim ∈ s.buffer ∨ s.operation = .writeResponse ∧ s.buffer = []

/-- The steps of a connection, from the prognoses `m`.  It receives any bytes, in pieces of any
size, until there is a delimiter; it sends in pieces; its operation completes, fails, or is
stopped by the deadline. -/
inductive Peer.Step (m : PrognosisManager) (s : Peer) :
    Option Deed → PrognosisManager → Peer → Prop
  | receives {bs : List Byte} (hop : s.Reads) (hbuffer : delim ∉ s.buffer) (hne : bs ≠ []) :
      Step m s none m { s with buffer := s.buffer ++ bs, received := s.received ++ bs }
  | sends {bs rest : List Byte} (hop : s.operation = .writeResponse) (hne : bs ≠ [])
      (h : s.buffer = bs ++ rest) :
      Step m s none m { s with buffer := rest, sent := s.sent ++ bs }
  | completes (h : s.Ready) : Step m s (s.deed m) (s.prognoses m .success) (s.handle m .success)
  /-- The other side has closed, or something else is wrong: the handlers ask only whether
  there is an error. -/
  | fails (h : s.operation ≠ .stopped) : Step m s none (s.prognoses m .eof) (s.handle m .eof)
  /-- `handleDeadline`. -/
  | expires : Step m s none m { s with operation := .stopped }

/-! ## All connections

The handlers of all connections run one after the other on the same map. -/

/-- The server: its connections, by any index, the map that they share, and what was done to the
map by whom. -/
structure Host (ι : Type*) where
  peer : ι → Peer
  prognosisManager : PrognosisManager
  trace : List (ι × Deed)

def Host.start {ι : Type*} : Host ι := ⟨fun _ => .start, fun _ => none, []⟩

/-- Some connection takes a step, and what it does to the map is recorded under its index. -/
inductive Host.Step {ι : Type*} [DecidableEq ι] (w : Host ι) : Host ι → Prop
  | peer {i : ι} {d : Option Deed} {m : PrognosisManager} {s : Peer}
      (h : (w.peer i).Step w.prognosisManager d m s) :
      Step w {
        peer := Function.update w.peer i s
        prognosisManager := m
        trace := w.trace ++ (d.map (Prod.mk i)).toList }

/-- The hosts of every run. -/
def Host.Reachable {ι : Type*} [DecidableEq ι] (w : Host ι) : Prop :=
  Relation.ReflTransGen Host.Step .start w

/-! ## Where the bytes are

What was received and sent, cut at the requests that were completed.  What a read has brought
behind a request stays in the buffer, and it goes back in front of the response; so it is a part
of the input and of the output of the exchange. -/

/-- A request that was completed, as it stands in the bytes that were received: its lines, and
what the last read has brought behind them, which goes back in front of the response. -/
structure Exchange where
  deed : Deed
  /-- Its first line, without the delimiter. -/
  request : List Byte
  /-- What the last read brought behind it. -/
  stray : List Byte

/-- The line is a request for a prognosis. -/
def Asks (request zodiac : List Byte) : Prop :=
  startsWith request starRequestType = false ∧ startsWith request clientRequestType = true ∧
    findZodiac (cStr request clientRequestType.length) = some zodiac

/-- The line is the request of a star. -/
def Offers (request zodiac : List Byte) : Prop :=
  startsWith request starRequestType = true ∧
    findZodiac (cStr request starRequestType.length) = some zodiac

/-- The request is what the deed says. -/
def Exchange.Valid (x : Exchange) : Prop :=
  delim ∉ x.request ∧
    match x.deed with
    | .stored zodiac prognosis => Offers x.request zodiac ∧ delim ∉ prognosis
    | .asked zodiac => Asks x.request zodiac

/-- What was received. -/
def Exchange.input (x : Exchange) : List Byte :=
  match x.deed with
  | .stored _ prognosis => x.request ++ [delim] ++ (prognosis ++ [delim]) ++ x.stray
  | .asked _ => x.request ++ [delim] ++ x.stray

/-- What is sent. -/
def Exchange.output (x : Exchange) (response : List Byte) : List Byte :=
  x.stray ++ (response ++ [delim])

def inputs (xs : List Exchange) : List Byte := (xs.map Exchange.input).flatten

def outputs (xs : List Exchange) (responses : List (List Byte)) : List Byte :=
  (List.zipWith Exchange.output xs responses).flatten

/-- **What a connection has received and sent**, when it has completed these exchanges with these
responses: all of them, and the beginning of the one that is under way. -/
def Peer.Accounts (s : Peer) (xs : List Exchange) (responses : List (List Byte)) : Prop :=
  match s.operation with
  | .readRequest => s.received = inputs xs ++ s.buffer ∧ s.sent = outputs xs responses
  | .readPrognosis zodiac => ∃ request, delim ∉ request ∧ Offers request zodiac ∧
      s.received = inputs xs ++ (request ++ [delim] ++ s.buffer) ∧ s.sent = outputs xs responses
  | .writeResponse => s.received = inputs xs ∧ s.sent ++ s.buffer = outputs xs responses
  | .stopped => inputs xs <+: s.received ∧ s.sent <+: outputs xs responses

theorem inputs_concat (xs : List Exchange) (x : Exchange) :
    inputs (xs ++ [x]) = inputs xs ++ x.input := by
  simp [inputs]

theorem outputs_concat {xs : List Exchange} {rs : List (List Byte)} (h : xs.length = rs.length)
    (x : Exchange) (r : List Byte) : outputs (xs ++ [x]) (rs ++ [r]) =
      outputs xs rs ++ x.output r := by
  rw [outputs, List.zipWith_append h, List.flatten_append]
  simp [outputs]

theorem findZodiac_mem {text zodiac : List Byte} (h : findZodiac text = some zodiac) :
    zodiac ∈ zodiacList := List.mem_of_find?_eq_some h

theorem Exchange.Valid.lawful {x : Exchange} (h : x.Valid) : x.deed.Lawful := by
  obtain ⟨-, hdeed⟩ := h
  cases hd : x.deed with
  | stored zodiac prognosis =>
    rw [hd] at hdeed
    exact ⟨findZodiac_mem hdeed.1.2, hdeed.2⟩
  | asked zodiac =>
    rw [hd] at hdeed
    exact findZodiac_mem hdeed.2.2

/-! ## The handlers

Each handler is read once, with the line that it takes from the buffer, and every step of a
connection then keeps its accounts.  A step that completes a request adds one exchange and one
deed; no other step adds anything. -/

section Handlers

variable {s s' : Peer} {m m' : PrognosisManager} {text left : List Byte} {d : Option Deed}
  {xs : List Exchange} {rs : List (List Byte)}

theorem exists_line {buffer : List Byte} (h : delim ∈ buffer) :
    ∃ text left, delim ∉ text ∧ buffer = text ++ [delim] ++ left := by
  obtain ⟨text, htext, htake⟩ := exists_takeLine_eq_of_mem h
  refine ⟨text, dropLine delim buffer, htext, ?_⟩
  rw [← htake, takeLine_append_dropLine]

/-- **A request line is read**: the connection stops, or it goes on to the prognosis, or it
answers. -/
theorem Peer.handle_request (hop : s.operation = .readRequest) (htext : delim ∉ text)
    (hbuffer : s.buffer = text ++ [delim] ++ left) :
    s.prognoses m .success = m ∧
    ((s.handle m .success = { s with buffer := left, operation := .stopped } ∧ s.deed m = none) ∨
    (∃ zodiac, Offers text zodiac ∧ s.deed m = none ∧
      s.handle m .success = { s with buffer := left, operation := .readPrognosis zodiac }) ∨
    ∃ zodiac, Asks text zodiac ∧ s.deed m = some (.asked zodiac) ∧
      s.handle m .success = { s with
        buffer := left ++ ((Deed.asked zodiac).response m ++ [delim])
        operation := .writeResponse }) := by
  have hget := getline_text htext left
  rw [← hbuffer] at hget
  have hc : (s.connection m).handle .success = (s.connection m).handleReadRequest .success := by
    simp only [Connection.handle, connection, hop]
  have hdeed : ∀ op, (s.handle m .success).operation = op → s.deed m =
      if op = .writeResponse then (findZodiac (cStr text clientRequestType.length)).map .asked
      else none := by
    intro op hop'
    simp only [deed, hop, hop', hget]
  rw [Connection.handleReadRequest, if_neg (not_not_intro rfl)] at hc
  have hbuf : (s.connection m).buffer = s.buffer := rfl
  simp only [hbuf, hget] at hc
  by_cases hstar : startsWith text starRequestType = true
  · rw [if_pos hstar] at hc
    cases hz : findZodiac (cStr text starRequestType.length) with
    | none =>
      simp only [hz] at hc
      have hhandle : s.handle m .success = { s with buffer := left, operation := .stopped } := by
        rw [handle, hc]
        rfl
      refine ⟨?_, Or.inl ⟨hhandle, ?_⟩⟩
      · rw [prognoses, hc]
        rfl
      · exact hdeed .stopped (by rw [hhandle])
    | some zodiac =>
      simp only [hz] at hc
      have hhandle : s.handle m .success =
          { s with buffer := left, operation := .readPrognosis zodiac } := by
        rw [handle, hc]
      refine ⟨?_, Or.inr (Or.inl ⟨zodiac, ⟨hstar, hz⟩, ?_, hhandle⟩)⟩
      · rw [prognoses, hc]
        rfl
      · exact hdeed (.readPrognosis zodiac) (by rw [hhandle])
  · rw [if_neg hstar] at hc
    by_cases hclient : startsWith text clientRequestType = true
    · rw [if_pos hclient] at hc
      cases hz : findZodiac (cStr text clientRequestType.length) with
      | none =>
        simp only [hz] at hc
        have hhandle : s.handle m .success = { s with buffer := left, operation := .stopped } := by
          rw [handle, hc]
          rfl
        refine ⟨?_, Or.inl ⟨hhandle, ?_⟩⟩
        · rw [prognoses, hc]
          rfl
        · exact hdeed .stopped (by rw [hhandle])
      | some zodiac =>
        simp only [hz] at hc
        have hget' : (s.connection m).prognosisManager.getPrognosis zodiac = m zodiac := rfl
        rw [hget'] at hc
        have hhandle : s.handle m .success = { s with
            buffer := left ++ ((Deed.asked zodiac).response m ++ [delim])
            operation := .writeResponse } := by
          rw [handle, hc]
          cases hm : m zodiac <;> simp [Connection.respond, Deed.response, hm]
        refine ⟨?_, Or.inr (Or.inr ⟨zodiac, ⟨Bool.eq_false_iff.mpr hstar, hclient, hz⟩, ?_,
          hhandle⟩)⟩
        · rw [prognoses, hc]
          cases hm : m zodiac <;> rfl
        · rw [hdeed .writeResponse (by rw [hhandle]), if_pos rfl, hz]
          rfl
    · rw [if_neg hclient] at hc
      have hhandle : s.handle m .success = { s with buffer := left, operation := .stopped } := by
        rw [handle, hc]
        rfl
      refine ⟨?_, Or.inl ⟨hhandle, ?_⟩⟩
      · rw [prognoses, hc]
        rfl
      · exact hdeed .stopped (by rw [hhandle])

/-- A prognosis is stored. -/
theorem Peer.handle_prognosis {zodiac : List Byte} (hop : s.operation = .readPrognosis zodiac)
    (htext : delim ∉ text) (hbuffer : s.buffer = text ++ [delim] ++ left) :
    s.deed m = some (.stored zodiac text) ∧
      s.prognoses m .success = (Deed.stored zodiac text).apply m ∧
      s.handle m .success = { s with
        buffer := left ++ (starResponseSuccess ++ [delim])
        operation := .writeResponse } := by
  have hget := getline_text htext left
  rw [← hbuffer] at hget
  have hc : (s.connection m).handle .success = { s.connection m with
      buffer := left ++ (starResponseSuccess ++ [delim])
      operation := .writeResponse
      prognosisManager := m.setPrognosis zodiac text } := by
    have hbuf : (s.connection m).buffer = s.buffer := rfl
    simp only [Connection.handle, connection, hop, Connection.handleReadPrognosis, hget]
    rfl
  refine ⟨?_, ?_, ?_⟩
  · simp only [deed, hop, hget]
  · rw [prognoses, hc]
    rfl
  · rw [handle, hc]

/-- A response is sent. -/
theorem Peer.handle_write (hop : s.operation = .writeResponse) :
    s.deed m = none ∧ s.prognoses m .success = m ∧
      s.handle m .success = { s with operation := .readRequest } := by
  have hc : (s.connection m).handle .success =
      { s.connection m with operation := .readRequest } := by
    simp only [Connection.handle, connection, hop]
    rfl
  refine ⟨?_, ?_, ?_⟩
  · simp only [deed, hop]
  · rw [prognoses, hc]
    rfl
  · rw [handle, hc]
    rfl

/-- An error ends the connection, and changes nothing else. -/
theorem Peer.handle_error (s : Peer) (m : PrognosisManager) :
    s.prognoses m .eof = m ∧ s.handle m .eof = { s with operation := .stopped } := by
  have hc : (s.connection m).handle .eof = { s.connection m with operation := .stopped } := by
    rw [Connection.handle]
    cases hop : s.operation <;> simp only [connection, hop] <;> rfl
  constructor
  · rw [prognoses, hc]
    rfl
  · rw [handle, hc]
    rfl

/-- A connection may stop at any time. -/
theorem Peer.Accounts.stop (h : s.Accounts xs rs) :
    ({ s with operation := .stopped } : Peer).Accounts xs rs := by
  show inputs xs <+: s.received ∧ s.sent <+: outputs xs rs
  rw [Accounts] at h
  cases hop : s.operation with
  | readRequest =>
    rw [hop] at h
    rw [h.1, h.2]
    exact ⟨List.prefix_append _ _, List.prefix_refl _⟩
  | readPrognosis zodiac =>
    rw [hop] at h
    obtain ⟨request, -, -, hreceived, hsent⟩ := h
    rw [hreceived, hsent]
    exact ⟨List.prefix_append _ _, List.prefix_refl _⟩
  | writeResponse =>
    rw [hop] at h
    rw [h.1, ← h.2]
    exact ⟨List.prefix_refl _, List.prefix_append _ _⟩
  | stopped =>
    rw [hop] at h
    exact h

/-- **What a step of a connection does.**  Either it does nothing that another one could notice,
or it completes a request. -/
theorem Peer.Accounts.step (h : s.Accounts xs rs) (hlength : xs.length = rs.length)
    (hs : s.Step m d m' s') :
    (d = none ∧ m' = m ∧ s'.Accounts xs rs) ∨
    ∃ x : Exchange, d = some x.deed ∧ m' = x.deed.apply m ∧ x.Valid ∧
      s'.Accounts (xs ++ [x]) (rs ++ [x.deed.response m]) := by
  cases hs with
  | @receives bs hop hbuffer hne =>
    refine Or.inl ⟨rfl, rfl, ?_⟩
    rcases hop with hop | ⟨zodiac, hop⟩
    · simp only [Accounts, hop] at h ⊢
      refine ⟨?_, h.2⟩
      rw [h.1, List.append_assoc]
    · simp only [Accounts, hop] at h ⊢
      obtain ⟨request, hrequest, hoffers, hreceived, hsent⟩ := h
      refine ⟨request, hrequest, hoffers, ?_, hsent⟩
      rw [hreceived]
      simp only [List.append_assoc]
  | @sends bs rest hop hne hsplit =>
    refine Or.inl ⟨rfl, rfl, ?_⟩
    simp only [Accounts, hop] at h ⊢
    refine ⟨h.1, ?_⟩
    rw [List.append_assoc, ← hsplit]
    exact h.2
  | completes hready =>
    rcases hready with ⟨hop | ⟨zodiac, hop⟩, hmem⟩ | ⟨hop, hbuffer⟩
    · obtain ⟨text, left, htext, hbuffer⟩ := exists_line hmem
      obtain ⟨hprognoses, hcases⟩ := Peer.handle_request (m := m) hop htext hbuffer
      simp only [Accounts, hop] at h
      obtain ⟨hreceived, hsent⟩ := h
      rw [hbuffer] at hreceived
      rcases hcases with ⟨hhandle, hdeed⟩ | ⟨zodiac, hoffers, hdeed, hhandle⟩ |
        ⟨zodiac, hasks, hdeed, hhandle⟩
      · refine Or.inl ⟨hdeed, hprognoses, ?_⟩
        rw [hhandle]
        exact ⟨hreceived ▸ List.prefix_append _ _, hsent ▸ List.prefix_refl _⟩
      · refine Or.inl ⟨hdeed, hprognoses, ?_⟩
        rw [hhandle]
        exact ⟨text, htext, hoffers, hreceived, hsent⟩
      · refine Or.inr ⟨⟨.asked zodiac, text, left⟩, hdeed, hprognoses, ⟨htext, hasks⟩, ?_⟩
        rw [hhandle]
        refine ⟨?_, ?_⟩
        · rw [inputs_concat]
          exact hreceived
        · rw [outputs_concat hlength]
          exact congrArg (· ++ _) hsent
    · obtain ⟨text, left, htext, hbuffer⟩ := exists_line hmem
      obtain ⟨hdeed, hprognoses, hhandle⟩ := Peer.handle_prognosis (m := m) hop htext hbuffer
      simp only [Accounts, hop] at h
      obtain ⟨request, hrequest, hoffers, hreceived, hsent⟩ := h
      refine Or.inr ⟨⟨.stored zodiac text, request, left⟩, hdeed, hprognoses,
        ⟨hrequest, hoffers, htext⟩, ?_⟩
      rw [hhandle]
      refine ⟨?_, ?_⟩
      · rw [inputs_concat]
        dsimp only
        rw [hreceived, hbuffer]
        simp only [Exchange.input, List.append_assoc]
      · rw [outputs_concat hlength]
        exact congrArg (· ++ _) hsent
    · obtain ⟨hdeed, hprognoses, hhandle⟩ := Peer.handle_write (m := m) hop
      refine Or.inl ⟨hdeed, hprognoses, ?_⟩
      simp only [Accounts, hop, hbuffer, List.append_nil] at h
      rw [hhandle]
      refine ⟨?_, h.2⟩
      rw [hbuffer, List.append_nil]
      exact h.1
  | fails hop =>
    obtain ⟨hprognoses, hhandle⟩ := s.handle_error m
    rw [hhandle]
    exact Or.inl ⟨rfl, hprognoses, h.stop⟩
  | expires => exact Or.inl ⟨rfl, rfl, h.stop⟩

end Handlers

/-! ## Every run

The accounts of a connection speak about its own deeds, and the deeds of others go in between.  So
the step of one connection is put into the trace of all, and the rest follows by induction on the
run. -/

section Host

variable {ι : Type*} [DecidableEq ι] {w w' : Host ι}

/-- The map is what the deeds have left, every deed is lawful, and every connection has received
its requests and sent its responses. -/
structure Host.Confined (w : Host ι) : Prop where
  prognosisManager : w.prognosisManager = replay w.trace
  lawful : ∀ x ∈ w.trace, x.2.Lawful
  peer : ∀ i, ∃ xs : List Exchange, xs.map Exchange.deed = deeds i w.trace ∧
    (∀ x ∈ xs, x.Valid) ∧ (w.peer i).Accounts xs (responses i w.trace)

theorem Host.start_confined : (Host.start : Host ι).Confined where
  prognosisManager := rfl
  lawful _ hx := absurd hx List.not_mem_nil
  peer _ := ⟨[], rfl, fun _ hx => absurd hx List.not_mem_nil, rfl, rfl⟩

/-- **What a step keeps.** -/
theorem Host.Confined.step (h : w.Confined) (hs : w.Step w') : w'.Confined := by
  cases hs with
  | @peer i d m s hstep =>
    obtain ⟨xs, hdeeds, hvalid, haccounts⟩ := h.peer i
    have hlength : xs.length = (responses i w.trace).length := by
      rw [length_responses, ← hdeeds, List.length_map]
    rcases haccounts.step hlength hstep with ⟨rfl, rfl, haccounts'⟩ | ⟨x, rfl, rfl, hx, haccounts'⟩
    · have htrace : w.trace ++ (Option.map (Prod.mk i) (none : Option Deed)).toList = w.trace :=
        List.append_nil w.trace
      rw [htrace]
      refine ⟨h.prognosisManager, h.lawful, fun j => ?_⟩
      by_cases hji : j = i
      · subst hji
        exact ⟨xs, hdeeds, hvalid, by simpa using haccounts'⟩
      · simpa [Function.update_of_ne hji] using h.peer j
    · dsimp only [Option.map_some, Option.toList_some]
      refine ⟨?_, fun y hy => ?_, fun j => ?_⟩
      · dsimp only
        rw [replay_concat, ← h.prognosisManager]
      · rcases List.mem_append.mp hy with hy | hy
        · exact h.lawful y hy
        · rw [List.mem_singleton.mp hy]
          exact hx.lawful
      · by_cases hji : j = i
        · subst hji
          refine ⟨xs ++ [x], ?_, fun y hy => ?_, ?_⟩
          · rw [deeds_concat_self, List.map_append, hdeeds]
            rfl
          · rcases List.mem_append.mp hy with hy | hy
            · exact hvalid y hy
            · rw [List.mem_singleton.mp hy]
              exact hx
          · rw [responses_concat_self, ← h.prognosisManager]
            simpa using haccounts'
        · obtain ⟨ys, hys, hvalid', haccounts''⟩ := h.peer j
          refine ⟨ys, ?_, hvalid', ?_⟩
          · rw [deeds_concat_of_ne (Ne.symm hji)]
            exact hys
          · rw [responses_concat_of_ne (Ne.symm hji)]
            simpa [Function.update_of_ne hji] using haccounts''

/-- **What a run keeps.** -/
theorem Host.Confined.run (h : w.Confined) (hrun : Relation.ReflTransGen Host.Step w w') :
    w'.Confined := by
  induction hrun with
  | refl => exact h
  | tail _ hs ih => exact ih.step hs

/-- **Whatever the clients do**, the map and all that the server sends follow from the requests
that were completed. -/
theorem Host.Reachable.confined (h : w.Reachable) : w.Confined := Host.start_confined.run h

/-! ## Where a prognosis comes from

What the map holds was stored by some deed of the trace, the deed is one of a connection, and the
accounts of this connection show its two lines among the bytes received. -/

omit [DecidableEq ι] in
/-- What is in the map was stored. -/
theorem exists_of_replay {trace : List (ι × Deed)} {zodiac prognosis : List Byte}
    (h : replay trace zodiac = some prognosis) : ∃ i, (i, .stored zodiac prognosis) ∈ trace := by
  induction trace using List.reverseRecOn with
  | nil => cases h
  | append_singleton trace x ih =>
    obtain ⟨i, d⟩ := x
    rw [replay_concat] at h
    have hlater : replay trace zodiac = some prognosis →
        ∃ i', (i', .stored zodiac prognosis) ∈ trace ++ [(i, d)] := by
      intro h
      obtain ⟨i', hi'⟩ := ih h
      exact ⟨i', List.mem_append_left _ hi'⟩
    cases d with
    | asked zodiac' => exact hlater h
    | stored zodiac' prognosis' =>
      have h : Function.update (replay trace) zodiac' (some prognosis') zodiac = some prognosis := h
      by_cases hz : zodiac = zodiac'
      · rw [hz, Function.update_self, Option.some.injEq] at h
        rw [hz, ← h]
        exact ⟨i, List.mem_append_right _ List.mem_cons_self⟩
      · rw [Function.update_of_ne hz] at h
        exact hlater h

/-- What was completed was received. -/
theorem Peer.Accounts.inputs_isPrefix {s : Peer} {xs : List Exchange} {rs : List (List Byte)}
    (h : s.Accounts xs rs) : inputs xs <+: s.received := by
  rw [Accounts] at h
  cases hop : s.operation with
  | readRequest =>
    rw [hop] at h
    rw [h.1]
    exact List.prefix_append _ _
  | readPrognosis zodiac =>
    rw [hop] at h
    obtain ⟨request, -, -, hreceived, -⟩ := h
    rw [hreceived]
    exact List.prefix_append _ _
  | writeResponse =>
    rw [hop] at h
    rw [h.1]
  | stopped =>
    rw [hop] at h
    exact h.1

theorem mem_deeds {i : ι} {d : Deed} {trace : List (ι × Deed)} (h : (i, d) ∈ trace) :
    d ∈ deeds i trace :=
  List.mem_map.mpr ⟨(i, d), List.mem_filter.mpr ⟨h, by simp⟩, rfl⟩

/-- **Where a prognosis comes from.**  It is one line for a zodiac of the list, and some
connection has received it directly behind the request of a star for this zodiac. -/
theorem Host.Reachable.provenance (h : w.Reachable) {zodiac prognosis : List Byte}
    (hp : w.prognosisManager zodiac = some prognosis) :
    zodiac ∈ zodiacList ∧ delim ∉ prognosis ∧ ∃ i request, delim ∉ request ∧
      Offers request zodiac ∧
      request ++ [delim] ++ (prognosis ++ [delim]) <:+: (w.peer i).received := by
  have hconfined := Host.start_confined.run h
  rw [hconfined.prognosisManager] at hp
  obtain ⟨i, hi⟩ := exists_of_replay hp
  obtain ⟨hzodiac, hprognosis⟩ := hconfined.lawful _ hi
  obtain ⟨xs, hdeeds, hvalid, haccounts⟩ := hconfined.peer i
  have hmem := mem_deeds hi
  rw [← hdeeds] at hmem
  obtain ⟨x, hx, hdeed⟩ := List.mem_map.mp hmem
  obtain ⟨hrequest, hoffers⟩ := hvalid x hx
  rw [hdeed] at hoffers
  refine ⟨hzodiac, hprognosis, i, x.request, hrequest, hoffers.1, ?_⟩
  have hinput : x.input = x.request ++ [delim] ++ (prognosis ++ [delim]) ++ x.stray := by
    simp only [Exchange.input, hdeed]
  have hinfix : x.input <:+: inputs xs := by
    obtain ⟨before, after, hsplit⟩ := List.append_of_mem hx
    refine ⟨inputs before, inputs after, ?_⟩
    simp [inputs, hsplit]
  rw [hinput] at hinfix
  exact ((List.prefix_append _ _).isInfix.trans hinfix).trans
    haccounts.inputs_isPrefix.isInfix

end Host

/-! ## A star in two reads -/

def sampleReads : List Byte × List Byte := (str "STARS SAY Aries\nGood ", str "day\nxx")

/-- After the first read. -/
def sampleStar : Peer :=
  { Peer.start with buffer := sampleReads.1, received := sampleReads.1 }

/-- After the second one. -/
def sampleProphet : Peer :=
  let s := sampleStar.handle (fun _ => none) .success
  { s with buffer := s.buffer ++ sampleReads.2, received := s.received ++ sampleReads.2 }

/-- The only connection takes a step. -/
theorem Host.step_unit {s s' : Peer} {m m' : PrognosisManager} {d : Option Deed}
    {trace : List (Unit × Deed)} (h : s.Step m d m' s') :
    Host.Step ⟨fun _ => s, m, trace⟩ ⟨fun _ => s', m', trace ++ (d.map (Prod.mk ())).toList⟩ := by
  have hstep := Host.Step.peer (w := ⟨fun _ => s, m, trace⟩) (i := ()) h
  have hupdate : Function.update (fun _ : Unit => s) () s' = fun _ => s' :=
    funext fun _ => Function.update_self _ _ _
  rwa [hupdate] at hstep

theorem sampleProphet_reachable : ∃ w : Host Unit, w.Reachable ∧
    w.prognosisManager (str "Aries") = some (str "Good day") := by
  have h₁ : Peer.start.Step (fun _ => none) none (fun _ => none) sampleStar :=
    .receives (Or.inl rfl) List.not_mem_nil (by decide)
  have h₂ := Peer.Step.completes (m := fun _ => none) (s := sampleStar)
    (Or.inl ⟨Or.inl rfl, by decide⟩)
  have h₃ : (sampleStar.handle (fun _ => none) .success).Step
      (sampleStar.prognoses (fun _ => none) .success) none _ sampleProphet :=
    .receives (Or.inr ⟨str "Aries", by decide⟩) (by decide) (by decide)
  have h₄ := Peer.Step.completes (m := sampleStar.prognoses (fun _ => none) .success)
    (s := sampleProphet) (Or.inl ⟨Or.inr ⟨str "Aries", by decide⟩, by decide⟩)
  refine ⟨_, (((Relation.ReflTransGen.single (Host.step_unit h₁)).tail
    (Host.step_unit h₂)).tail (Host.step_unit h₃)).tail (Host.step_unit h₄), ?_⟩
  decide

theorem sampleProphet_provenance : ∃ (w : Host Unit) (request : List Byte),
    Offers request (str "Aries") ∧
      request ++ [delim] ++ (str "Good day" ++ [delim]) <:+: (w.peer ()).received := by
  obtain ⟨w, hw, hp⟩ := sampleProphet_reachable
  obtain ⟨-, -, ⟨⟩, request, -, hoffers, hinfix⟩ := hw.provenance hp
  exact ⟨w, request, hoffers, hinfix⟩

theorem sampleProphet_confined : ∃ w : Host Unit, w.trace ≠ [] ∧ w.Confined := by
  obtain ⟨w, hw, hp⟩ := sampleProphet_reachable
  have hconfined := Host.Reachable.confined hw
  refine ⟨w, fun hnil => ?_, hconfined⟩
  rw [hconfined.prognosisManager, hnil] at hp
  cases hp

end Astrologer.Boost
