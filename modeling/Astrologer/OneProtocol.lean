import Astrologer.Server.Conversation
import Astrologer.Boost.Pipelining

/-!
# Two servers, one protocol

`astrolog.c` and `server.cpp` are written without each other, and with different limits.  The
one knows three zodiacs and keeps its lines in buffers of 80 bytes; it stores a prognosis with
its delimiter, in a table.  The other one knows twelve, has no limit, and stores a prognosis
without its delimiter, in a map.

On the requests that are within the limits of both (`Common`) nobody can tell them apart.  The
reference of `Server.Reference`, which says what `astrolog.c` does with a stream of bytes, and
`serveAll`, which says what `server.cpp` does with a list of requests, give the same bytes, and
they leave a table and a map that agree (`reference_stream`).  So the one and the other answer the
same requests with the same bytes (`servers_agree`), in whatever pieces the requests reach the one,
and when no read of the other one goes beyond the end of a request.  The one is its whole event
loop, which calls `update_state` for the connection of the client whenever there is something to
report (`Client.Conversation`); the other one is its chain of completions.
-/

namespace Astrologer

open Lines
open Boost (PrognosisManager serveAll stream Named)

/-! ## What both know -/

/-- A name for both servers, behind this request type. -/
structure FitsBoth (name : Named) (type : List Byte) : Prop where
  known : name.zodiac ∈ zodiacNames
  short : (name.line type).length ≤ astrologBufLen

/-- A request for both servers. -/
def Common : Boost.Request → Prop
  | .client name => FitsBoth name clientRequestType
  | .star name prognosis _ =>
    FitsBoth name starRequestType ∧ (prognosis ++ [delimiter]).length ≤ astrologBufLen

/-- The table and the map have the same prognoses. -/
def Agree (store : ℕ → Option (List Byte)) (m : PrognosisManager) : Prop :=
  ∀ z < zodiacNum, store z = (m (getZodiac z)).map (· ++ [delimiter])

/-- The bytes that are sent. -/
def sentBytes (outputs : List Output) : List Byte :=
  outputs.filterMap fun
    | .sent b => some b
    | .store _ _ => none

theorem sentBytes_append (a b : List Output) : sentBytes (a ++ b) = sentBytes a ++ sentBytes b :=
  List.filterMap_append

@[simp] theorem sentBytes_sent (bs : List Byte) : sentBytes (bs.map .sent) = bs := by
  induction bs with
  | nil => rfl
  | cons b bs ih => exact congrArg (b :: ·) ih

@[simp] theorem sentBytes_store (z : ℕ) (line : List Byte) (outputs : List Output) :
    sentBytes (.store z line :: outputs) = sentBytes outputs := rfl

/-- The outcome of a stream that ends between two requests. -/
def between (eof : Bool) : Outcome := if eof then .success else .waiting

/-! ## One request -/

theorem zodiac_unique :
    ∀ z < zodiacNum, ∀ z' < zodiacNum, getZodiac z <+: getZodiac z' → z = z' := by decide

theorem exists_getZodiac {zodiac : List Byte} (h : zodiac ∈ zodiacNames) :
    ∃ z < zodiacNum, getZodiac z = zodiac := by
  revert zodiac
  decide

/-- The index of a zodiac is found whatever follows the name. -/
theorem zodiacAt_append {z : ℕ} (hz : z < zodiacNum) (behind : List Byte) :
    zodiacAt (getZodiac z ++ behind) = some z := by
  have hget : ∀ k (hk : k < zodiacNames.length), zodiacNames[k] = getZodiac k := by
    intro k hk
    rw [getZodiac, List.getD_eq_getElem _ _ hk]
  have hlt : z < zodiacNames.length := hz
  refine List.findIdx?_eq_some_iff_getElem.mpr ⟨hlt, ?_, fun k hk => ?_⟩
  · rw [hget z hlt, decide_eq_true_eq]
    exact List.prefix_append _ _
  · have hk' : k < zodiacNum := Nat.lt_trans hk hz
    rw [hget k (Nat.lt_trans hk hlt), decide_eq_true_eq]
    intro hpre
    rcases List.prefix_or_prefix_of_prefix hpre (List.prefix_append _ behind) with hle | hle
    · exact absurd (zodiac_unique k hk' z hz hle) (Nat.ne_of_lt hk)
    · exact absurd (zodiac_unique z hz k hk' hle).symm (Nat.ne_of_lt hk)

section Request

variable {name : Named} {store : ℕ → Option (List Byte)} {m : PrognosisManager} {eof : Bool}

theorem Named.line_eq (name : Named) (type : List Byte) :
    name.line type = type ++ (name.zodiac ++ (name.remainder ++ [delimiter])) := by
  rw [Boost.Named.line, List.append_assoc, List.append_assoc]
  rfl

/-- **Both servers read a request line alike**, when the name fits both: one of them counts the
zodiacs, and the other one has them as texts. -/
theorem FitsBoth.classify {type : List Byte} (h : FitsBoth name type)
    (htype : type = starRequestType ∨ type = clientRequestType) :
    ∃ z < zodiacNum, getZodiac z = name.zodiac ∧
      Astrologer.classify (name.line type) =
        if type = starRequestType then .star z else .client z := by
  obtain ⟨z, hz, hname⟩ := exists_getZodiac h.known
  refine ⟨z, hz, hname, ?_⟩
  have hat : zodiacAt ((name.line type).drop type.length) = some z := by
    rw [Named.line_eq, List.drop_left, ← hname]
    exact zodiacAt_append hz _
  have hpre : type <+: name.line type := by
    rw [Named.line_eq]
    exact List.prefix_append _ _
  rcases htype with rfl | rfl
  · rw [if_pos rfl, Astrologer.classify, if_pos hpre, hat]
  · have hstar : ¬ starRequestType <+: name.line clientRequestType := by
      intro hstar
      have hle := List.prefix_of_prefix_length_le hstar hpre
        (by decide : starRequestType.length ≤ clientRequestType.length)
      exact absurd hle (by decide)
    rw [if_neg (by decide), Astrologer.classify, if_neg hstar, if_pos hpre, hat]

/-- The reply to a request for a prognosis. -/
theorem Agree.replyTo (h : Agree store m) {z : ℕ} (hz : z < zodiacNum) :
    Astrologer.replyTo (store z) =
      (m (getZodiac z)).getD Boost.unknownPrognosis ++ [delimiter] := by
  rw [Astrologer.replyTo, h z hz]
  cases m (getZodiac z) with
  | none => decide
  | some prognosis => rfl

/-- A prognosis is stored in both. -/
theorem Agree.set (h : Agree store m) {z : ℕ} (hz : z < zodiacNum) (prognosis : List Byte) :
    Agree (Function.update store z (some (prognosis ++ [delimiter])))
      (m.setPrognosis (getZodiac z) prognosis) := by
  intro k hk
  rw [PrognosisManager.setPrognosis]
  by_cases hkz : k = z
  · rw [hkz, Function.update_self, Function.update_self]
    rfl
  · have hne : getZodiac k ≠ getZodiac z := fun heq =>
      hkz (zodiac_unique k hk z hz (heq ▸ List.prefix_refl _))
    rw [Function.update_of_ne hkz, Function.update_of_ne hne]
    exact h k hk

/-- **A request**: the reference and `serve` give the same bytes, and behind it the two stores
agree again. -/
theorem reference_request {r : Boost.Request} (hr : Common r) (h : Agree store m)
    (rest : List Byte) : ∃ outputs store',
      referenceFrom none store (r.bytes ++ rest) eof =
        (referenceFrom none store' rest eof).after outputs ∧
      sentBytes outputs = (r.serve m).1 ∧ Agree store' (r.serve m).2 := by
  cases r with
  | client name =>
    have hfits : FitsBoth name clientRequestType := hr
    obtain ⟨z, hz, hname, hclass⟩ := hfits.classify (Or.inr rfl)
    rw [if_neg (by decide)] at hclass
    have hframe := (Boost.client_isLine name).frame_append hfits.short rest
    refine ⟨(Astrologer.replyTo (store z)).map .sent, store, ?_, ?_, h⟩
    · refine (referenceFrom_line hframe).trans ?_
      rw [show Astrologer.classify (name.line Boost.clientRequestType) = .client z from hclass]
    · rw [sentBytes_sent, h.replyTo hz, hname]
      rfl
  | star name prognosis hprognosis =>
    obtain ⟨hfits, hshort⟩ : FitsBoth name starRequestType ∧ _ := hr
    obtain ⟨z, hz, hname, hclass⟩ := hfits.classify (Or.inl rfl)
    rw [if_pos rfl] at hclass
    have hframe := (Boost.star_isLine name).frame_append hfits.short
      (prognosis ++ [delimiter] ++ rest)
    have hline : IsLine delimiter (prognosis ++ [delimiter]) := ⟨prognosis, hprognosis, rfl⟩
    have hframe' := hline.frame_append hshort rest
    refine ⟨.store z (prognosis ++ [delimiter]) :: starReplySuccess.map .sent,
      Function.update store z (some (prognosis ++ [delimiter])), ?_, ?_, ?_⟩
    · rw [Boost.Request.bytes, List.append_assoc]
      refine (referenceFrom_line hframe).trans ?_
      rw [show Astrologer.classify (name.line Boost.starRequestType) = .star z from hclass]
      exact referenceFrom_prognosis hframe'
    · rw [sentBytes_store, sentBytes_sent]
      exact (by decide : starReplySuccess = Boost.starResponseSuccess ++ [Boost.delim])
    · have hset := h.set hz prognosis
      rw [hname] at hset
      exact hset

/-! ## All of them -/

/-- **The reference and `serveAll`** give the same bytes, and leave what agrees.  By induction on
the requests. -/
theorem reference_stream {requests : List Boost.Request} (hr : ∀ r ∈ requests, Common r)
    (h : Agree store m) : ∃ outputs store',
      reference store (stream requests) eof = ⟨outputs, between eof, store'⟩ ∧
      sentBytes outputs = (serveAll requests m).1.flatten ∧
      Agree store' (serveAll requests m).2 := by
  induction requests generalizing store m with
  | nil =>
    refine ⟨[], store, ?_, rfl, h⟩
    cases eof with
    | false => exact referenceFrom_waiting List.not_mem_nil (by decide)
    | true => exact referenceFrom_eof List.not_mem_nil
  | cons r requests ih =>
    obtain ⟨outputs, store₁, hreq, hsent, hagree⟩ :=
      reference_request (hr r List.mem_cons_self) h (stream requests)
    obtain ⟨outputs', store', href, hsent', hagree'⟩ :=
      ih (fun r hr' => hr r (List.mem_cons_of_mem _ hr')) hagree
    refine ⟨outputs ++ outputs', store', ?_, ?_, hagree'⟩
    · have hstream : stream (r :: requests) = r.bytes ++ stream requests := rfl
      rw [reference, hstream, hreq]
      exact congrArg (Reading.after outputs) href
    · rw [sentBytes_append, hsent, hsent']
      rfl

end Request

/-- The table of a process. -/
def rows (table : Table) (z : ℕ) : Option (List Byte) := rowLine (table z)

/-- **Nobody can tell the servers apart.**  A client of `astrolog.c`, whose connection has been
accepted in some state of some run of `main`, and a client of `server.cpp` with the same requests
come to the end of their conversations; where the first one has settled, the one server has sent
what the other one has written, and what they have stored agrees. -/
theorem servers_agree {requests : List Boost.Request} (hr : ∀ r ∈ requests, Common r)
    {table : Table} {m : PrognosisManager} (hagree : Agree (rows table) m)
    (client : Client) (hstream : client.stream = stream requests) {pc : Pc} {srv : Server}
    (h : Reachable ⟨pc, srv⟩) {p : Ptr} (hp : p ∈ srv.allocated) {raw : ConnState} {fd : Fd}
    (hconn : (srv.mem p).toConnState = raw.create fd)
    {reads : List (List Byte)} (hreads : reads.flatten = stream requests)
    (haligned : Boost.Aligned requests reads) (closes : Bool) :
    let c := (Boost.Connection.start m reads closes).result
    let start : Config := ⟨pc, { srv with zodiacPrognosises := table }⟩
    client.Ends p start ∧
    ∀ srv', client.Moment p start srv' → client.Settled (srv'.view srv.trace.length p) →
      (srv'.mem p).state.outcome = between client.eof ∧
      sentBytes (outputs (srv'.view srv.trace.length p).io.trace) = c.writes.flatten ∧
      Agree (rows srv'.zodiacPrognosises) c.prognosisManager := by
  have ha := h.accepted hp hconn table
  obtain ⟨hwrites, hm⟩ := Boost.served_of_aligned m [] hreads haligned
  obtain ⟨outputs', store', hreference, hsent, hagree'⟩ :=
    reference_stream hr hagree
  refine ⟨ha.ends client, fun srv' hmoment hsettled => ?_⟩
  have hreading := hmoment.reading_eq ha hsettled
  rw [hstream] at hreading
  have heq := hreading.trans hreference
  have houtputs := congrArg Reading.outputs heq
  have houtcome := congrArg Reading.outcome heq
  have hstore := congrArg Reading.store heq
  refine ⟨houtcome, ?_, ?_⟩
  · rw [show outputs (srv'.view srv.trace.length p).io.trace = outputs' from houtputs, hsent]
    exact congrArg List.flatten hwrites.symm
  · rw [show rows srv'.zodiacPrognosises = store' from hstore]
    rw [show (Boost.Connection.start m reads closes).result.prognosisManager = _ from hm]
    exact hagree'

/-- Two requests that both servers answer alike, and which reach the first one in one piece. -/
def sampleRequests : List Boost.Request :=
  [.client Boost.sampleAries, .client Boost.sampleAries]

theorem sampleReplied_agree :
    let c := (Boost.Connection.start (fun _ => some (str "hi"))
      (sampleRequests.map (·.bytes)) true).result
    ∃ r, sampleReplied = some r ∧
      sentBytes (outputs (r.2.sampleView r.2.kernel.recvs r.2.kernel.sends).io.trace) =
        c.writes.flatten ∧ c.writes = [str "hi\n", str "hi\n"] := by
  have hcommon : ∀ r ∈ sampleRequests, Common r := by
    have hfits : FitsBoth Boost.sampleAries clientRequestType := ⟨by decide, by decide⟩
    intro r hr
    rcases List.mem_pair.mp hr with rfl | rfl
    · exact hfits
    · exact hfits
  have hagree : Agree (rows sampleTold.zodiacPrognosises) fun _ => some (str "hi") :=
    fun z _ => rowLine_sampleTold z
  have haligned : Boost.Aligned sampleRequests (sampleRequests.map (·.bytes)) := by
    intro k
    refine ⟨k, ?_⟩
    rw [stream, List.map_take]
  have hmem : 1 ∈ sampleTwo.allocated := by decide
  have hconn : (sampleTwo.mem 1).toConnState = sampleBlock.toConnState.create 5 := rfl
  obtain ⟨r, hr, hmoment, hsettled⟩ := sampleReplied_settled
  obtain ⟨-, hall⟩ := servers_agree hcommon hagree sampleEager (by decide) sampleTwo_reachable hmem
    hconn rfl haligned true
  exact ⟨r, hr, (hall _ hmoment hsettled).2.1, by decide⟩

end Astrologer
