import Astrologer.Boost.Pipelining
import Astrologer.Boost.Proxy

/-!
# What the server reads behind the Boost proxy

A connection of the proxy and the connection of the server behind it, joined by two
streams of bytes (`Chain`).  The client may send anything.  Every read takes as much of
a stream as it likes, every write may be made in pieces, and an operation may fail at
any time.  Other connections may change the prognoses (`Chain.Elsewhere`).

The two stream buffers that this chain has between the proxy and the server are used in
both directions, so what one side leaves in a buffer would be sent by the next write.
But the two sides go in lock-step: on the way between them is one request line, or one
response line, or nothing (`Transit`).  So a reader that gets a line gets all there is,
and nothing is left in a buffer.  For this a response has to be one line, and it is,
since a prognosis is what `std::getline` has read (`PrognosisManager.Stored`).

It follows that the server reads the lines that the proxy passed on, one after the
other, and never a Star's (`reachable_unstarred`).
-/

namespace Astrologer.Boost

open Lines

/-! ## The prognoses of the server

The map is changed by `handleReadPrognosis` only, and what that stores is one line without the
delimiter; so whatever stars have told the server, the response to a request is one line. -/

/-- What the map of the server can be: empty at first, and then changed by
`handleReadPrognosis` of some connection. -/
inductive PrognosisManager.Stored : PrognosisManager → Prop
  | empty : Stored fun _ => none
  | set (c : Connection) (zodiac : List Byte) (h : Stored c.prognosisManager) :
    Stored (c.handleReadPrognosis .success zodiac).prognosisManager

theorem delim_notMem_getline (buffer : List Byte) : delim ∉ (getline buffer).1 := by
  intro h
  have hne := List.mem_takeWhile_imp h
  exact bne_iff_ne.mp hne rfl

/-- **A stored prognosis is one line.**  `std::getline` has cut it, so a response made of it is
one line too. -/
theorem PrognosisManager.Stored.delim_notMem {m : PrognosisManager} (h : m.Stored)
    {zodiac prognosis : List Byte} (hm : m zodiac = some prognosis) : delim ∉ prognosis := by
  induction h with
  | empty => cases hm
  | set c z h ih =>
    have heq : (c.handleReadPrognosis .success z).prognosisManager =
        c.prognosisManager.setPrognosis z (getline c.buffer).1 := rfl
    rw [heq, PrognosisManager.setPrognosis, Function.update_apply] at hm
    split at hm
    · rw [← Option.some.inj hm]
      exact delim_notMem_getline c.buffer
    · exact ih hm

/-! ## The chain

The two connections with the bytes between them.  The client of the proxy is not modelled: what
the proxy reads from it is anything. -/

/-- A connection of the proxy and the one of the server behind it, with the bytes between them.
The two lists at the end record the lines that each of them has read. -/
structure Chain where
  proxy : Proxy.Connection
  /-- It reads from `toServer` and writes to `toProxy`, so its own lists of reads and
  writes are not used. -/
  server : Connection
  /-- What the proxy has sent and the server has not read. -/
  toServer : List Byte
  /-- What the server has sent and the proxy has not read. -/
  toProxy : List Byte
  /-- The lines that the proxy has read from its client. -/
  requests : List (List Byte)
  /-- The lines that the server has read. -/
  lines : List (List Byte)

/-- `start` on both sides. -/
def Chain.start (m : PrognosisManager) : Chain where
  proxy := ⟨[], [], .readRequest⟩
  server := .start m [] false
  toServer := []
  toProxy := []
  requests := []
  lines := []

/-- What the proxy does.  The client sends it anything, in pieces of any size; a read ends when
there is a delimiter in the buffer; a write goes out in pieces.  It may stop at any time, which is
a handler with an error or `handleDeadline`: `stop` is all that they do to the connection. -/
inductive Chain.ProxyStep (c : Chain) : Chain → Prop
  | clientSends (bytes : List Byte) (hop : c.proxy.operation = .readRequest)
    (h : delim ∉ c.proxy.clientBuffer) :
    ProxyStep c { c with
      proxy := { c.proxy with clientBuffer := c.proxy.clientBuffer ++ bytes } }
  | readsRequest (hop : c.proxy.operation = .readRequest)
    (h : delim ∈ c.proxy.clientBuffer) :
    ProxyStep c { c with
      proxy := c.proxy.handleReadRequest .success
      requests := c.requests ++ [(getline c.proxy.clientBuffer).1] }
  | sends (n : ℕ) (hop : c.proxy.operation = .writeRequest) :
    ProxyStep c { c with
      proxy := { c.proxy with connectionBuffer := c.proxy.connectionBuffer.drop n }
      toServer := c.toServer ++ c.proxy.connectionBuffer.take n }
  | hasSent (hop : c.proxy.operation = .writeRequest)
    (h : c.proxy.connectionBuffer = []) :
    ProxyStep c { c with proxy := c.proxy.handleWriteRequest .success }
  | receives (n : ℕ) (hop : c.proxy.operation = .readResponse)
    (h : delim ∉ c.proxy.connectionBuffer) :
    ProxyStep c { c with
      proxy := { c.proxy with connectionBuffer := c.proxy.connectionBuffer ++ c.toProxy.take n }
      toProxy := c.toProxy.drop n }
  | readsResponse (hop : c.proxy.operation = .readResponse)
    (h : delim ∈ c.proxy.connectionBuffer) :
    ProxyStep c { c with proxy := c.proxy.handleReadResponse .success }
  | answers (hop : c.proxy.operation = .writeResponse) :
    ProxyStep c { c with proxy := { c.proxy with clientBuffer := [] }.handleWriteResponse .success }
  -- a handler with an error, or the deadline
  | stops : ProxyStep c { c with proxy := c.proxy.stop }

/-- What the connection of the server does.  It reads what the proxy has sent and nothing else, in
pieces of any size; its two kinds of reads record their line.  It may stop at any time too. -/
inductive Chain.ServerStep (c : Chain) : Chain → Prop
  | receives (n : ℕ)
    (hop : c.server.operation = .readRequest ∨
      ∃ zodiac, c.server.operation = .readPrognosis zodiac)
    (h : delim ∉ c.server.buffer) :
    ServerStep c { c with
      server := { c.server with buffer := c.server.buffer ++ c.toServer.take n }
      toServer := c.toServer.drop n }
  | readsRequest (hop : c.server.operation = .readRequest)
    (h : delim ∈ c.server.buffer) :
    ServerStep c { c with
      server := c.server.handleReadRequest .success
      lines := c.lines ++ [(getline c.server.buffer).1] }
  | readsPrognosis (zodiac : List Byte)
    (hop : c.server.operation = .readPrognosis zodiac) (h : delim ∈ c.server.buffer) :
    ServerStep c { c with
      server := c.server.handleReadPrognosis .success zodiac
      lines := c.lines ++ [(getline c.server.buffer).1] }
  | sends (n : ℕ) (hop : c.server.operation = .writeResponse) :
    ServerStep c { c with
      server := { c.server with buffer := c.server.buffer.drop n }
      toProxy := c.toProxy ++ c.server.buffer.take n }
  | hasSent (hop : c.server.operation = .writeResponse) (h : c.server.buffer = []) :
    ServerStep c { c with server := c.server.handleWriteResponse .success }
  | stops : ServerStep c { c with server := c.server.stop }

/-- What the proxied connection does: its two sides go on, in any order. -/
def Chain.Step (c c' : Chain) : Prop := c.ProxyStep c' ∨ c.ServerStep c'

/-- Another connection of the server reads a prognosis.  It may be a star's that has connected
directly, so its buffer, and with it the prognosis, is arbitrary. -/
inductive Chain.Elsewhere (c : Chain) : Chain → Prop
  | set (other : Connection) (zodiac : List Byte)
    (h : other.prognosisManager = c.server.prognosisManager) :
    Elsewhere c { c with
      server := { c.server with
        prognosisManager := (other.handleReadPrognosis .success zodiac).prognosisManager } }

/-- Every state of every run. -/
def Chain.Reachable (m : PrognosisManager) : Chain → Prop :=
  Relation.ReflTransGen (fun c c' => c.Step c' ∨ c.Elsewhere c') (.start m)

/-! ## Lock-step

At every time there is at most one line under way between the two: a request to the server, or a
response to the proxy (`Transit`).  What is under way is spread over the buffer of the one that
writes, the bytes on the way, and the buffer of the one that reads; `Joined` says how the proxy
takes part in it. -/

/-- The lines that the proxy passes on. -/
def Chain.passed (c : Chain) : List (List Byte) :=
  c.requests.filter fun line => !startsWith line starRequestType

/-- **One line at a time**, and which lines have been read: `inbound` is on the way to
the server, `outbound` to the proxy. -/
inductive Transit (passed lines : List (List Byte)) (inbound outbound : List Byte) : Prop
  | idle (h : passed = lines) (hin : inbound = []) (hout : outbound = [])
  | request (text : List Byte) (h : passed = lines ++ [text]) (htext : delim ∉ text)
    (hin : inbound = text ++ [delim]) (hout : outbound = [])
  | response (text : List Byte) (h : passed = lines) (htext : delim ∉ text)
    (hin : inbound = []) (hout : outbound = text ++ [delim])

/-- What the proxy has still to send to the server. -/
def Proxy.Connection.unsent (p : Proxy.Connection) : List Byte :=
  if p.operation = .writeRequest then p.connectionBuffer else []

/-- What the proxy has of a response. -/
def Proxy.Connection.unread (p : Proxy.Connection) : List Byte :=
  if p.operation = .readResponse then p.connectionBuffer else []

/-- What the server has still to send. -/
def Connection.unsent (c : Connection) : List Byte :=
  if c.operation = .writeResponse then c.buffer else []

/-- What the server has of a request. -/
def Connection.unread (c : Connection) : List Byte :=
  if c.operation = .readRequest then c.buffer else []

def Chain.inbound (c : Chain) : List Byte := c.server.unread ++ (c.toServer ++ c.proxy.unsent)

def Chain.outbound (c : Chain) : List Byte := c.proxy.unread ++ (c.toProxy ++ c.server.unsent)

/-- How the proxy takes part.  When it has stopped, the server may still read a part of
a request. -/
inductive Chain.Joined (c : Chain) (inbound outbound : List Byte) : Prop
  | serving (hop : c.proxy.operation = .readRequest ∨ c.proxy.operation = .writeResponse)
    (hbuffer : c.proxy.connectionBuffer = []) (hin : c.inbound = []) (hout : c.outbound = [])
    (hin' : inbound = []) (hout' : outbound = [])
  | asking (hop : c.proxy.operation = .writeRequest ∨ c.proxy.operation = .readResponse)
    (hin : c.inbound = inbound) (hout : c.outbound = outbound)
  | stopped (hop : c.proxy.operation = .stopped) (hin : c.inbound <+: inbound)
    (hout : c.server.unsent <:+ outbound)

/-- The invariant while the server works: it is at a request or at a response, never at a
prognosis, and the lines that are on the way to it are lines that the proxy has let pass. -/
structure Chain.Working (c : Chain) : Prop where
  server : c.server.operation = .readRequest ∨ c.server.operation = .writeResponse
  transit : ∃ inbound outbound, Transit c.passed c.lines inbound outbound ∧
    c.Joined inbound outbound

/-- **The invariant.**  What is stored was left by `setPrognosis`; the server has read no line but
such as the proxy has let pass, in their order; and it works on, or it has stopped for good. -/
structure Chain.Inv (c : Chain) : Prop where
  stored : c.server.prognosisManager.Stored
  passed : c.lines <+: c.passed
  working : c.server.operation = .stopped ∨ c.Working

/-! ### What is on the way

A line that is alone on its way has no bytes behind it.  So a reader that finds a delimiter has
the whole line and nothing more, and its `getline` leaves an empty buffer. -/

section Transit

variable {passed lines : List (List Byte)} {outbound : List Byte}

theorem Transit.of_idle (h : Transit passed lines [] []) : passed = lines := by
  cases h with
  | idle h => exact h
  | request text _ _ hin =>
    exact absurd hin.symm (List.append_ne_nil_of_right_ne_nil text (List.cons_ne_nil _ _))
  | response text _ _ _ hout =>
    exact absurd hout.symm (List.append_ne_nil_of_right_ne_nil text (List.cons_ne_nil _ _))

/-- The lines that have been read are the first ones that were passed on. -/
theorem Transit.lines_prefix {inbound : List Byte}
    (h : Transit passed lines inbound outbound) : lines <+: passed := by
  cases h with
  | idle hpassed => rw [hpassed]
  | request text hpassed => exact ⟨[text], hpassed.symm⟩
  | response text hpassed => rw [hpassed]

/-- **A reader that has a line has all there is**, if what it reads is the front of one line: the
delimiter is at the end of it. -/
theorem line_of_append {buffer rest text : List Byte} (hmem : delim ∈ buffer)
    (htext : delim ∉ text) (h : buffer ++ rest <+: text ++ [delim]) :
    buffer = text ++ [delim] ∧ rest = [] := by
  obtain ⟨more, hmore⟩ := h
  rw [List.append_assoc] at hmore
  have hnil : rest ++ more = [] := IsLine.eq_nil_of_mem ⟨text, htext, rfl⟩ hmore.symm hmem
  rw [hnil, List.append_nil] at hmore
  exact ⟨hmore, (List.append_eq_nil_iff.mp hnil).1⟩

/-- The server has the line that was passed on last. -/
theorem Transit.line_to_server {buffer rest inbound : List Byte}
    (h : Transit passed lines inbound outbound) (hmem : delim ∈ buffer)
    (hbuffer : buffer ++ rest <+: inbound) :
    ∃ text, passed = lines ++ [text] ∧ delim ∉ text ∧ buffer = text ++ [delim] ∧ rest = [] ∧
      outbound = [] := by
  have hne : inbound ≠ [] := by
    rintro rfl
    rw [(List.append_eq_nil_iff.mp (List.prefix_nil.mp hbuffer)).1] at hmem
    exact absurd hmem List.not_mem_nil
  cases h with
  | idle _ hin => exact absurd hin hne
  | request text hpassed htext hin hout =>
    rw [hin] at hbuffer
    obtain ⟨hline, hrest⟩ := line_of_append hmem htext hbuffer
    exact ⟨text, hpassed, htext, hline, hrest, hout⟩
  | response text _ _ hin => exact absurd hin hne

/-- The proxy has the response to it. -/
theorem Transit.line_to_proxy {buffer rest inbound : List Byte}
    (h : Transit passed lines inbound (buffer ++ rest)) (hmem : delim ∈ buffer) :
    ∃ text, passed = lines ∧ delim ∉ text ∧ buffer = text ++ [delim] ∧ rest = [] ∧
      inbound = [] := by
  have hne : buffer ++ rest ≠ [] := List.append_ne_nil_of_left_ne_nil (List.ne_nil_of_mem hmem) _
  cases h with
  | idle _ _ hout => exact absurd hout hne
  | request text _ _ _ hout => exact absurd hout hne
  | response text hpassed htext hin hout =>
    obtain ⟨hline, hrest⟩ := line_of_append hmem htext (by rw [hout])
    exact ⟨text, hpassed, htext, hline, hrest, hin⟩

end Transit

/-! ### The proxy takes a step

The proxy moves bytes within the two lists, or it reads one of the two lines.  A request of its
client begins the next exchange, if it passes the filter; a response ends it. -/

/-- The server is not touched, and what was passed on stays. -/
theorem Chain.ProxyStep.frame {c c' : Chain} (h : c.ProxyStep c') :
    c'.server = c.server ∧ c'.lines = c.lines ∧ c.passed <+: c'.passed := by
  cases h with
  | readsRequest hop h =>
    refine ⟨rfl, rfl, ?_⟩
    rw [passed, passed, List.filter_append]
    exact List.prefix_append _ _
  | clientSends bytes hop h => exact ⟨rfl, rfl, List.prefix_refl _⟩
  | sends n hop => exact ⟨rfl, rfl, List.prefix_refl _⟩
  | hasSent hop h => exact ⟨rfl, rfl, List.prefix_refl _⟩
  | receives n hop h => exact ⟨rfl, rfl, List.prefix_refl _⟩
  | readsResponse hop h => exact ⟨rfl, rfl, List.prefix_refl _⟩
  | answers hop => exact ⟨rfl, rfl, List.prefix_refl _⟩
  | stops => exact ⟨rfl, rfl, List.prefix_refl _⟩

section Proxy

variable {c : Chain} {inbound outbound : List Byte}

/-- Between two requests of its client. -/
theorem Chain.Joined.of_serving (h : c.Joined inbound outbound)
    (hop : c.proxy.operation = .readRequest ∨ c.proxy.operation = .writeResponse) :
    c.proxy.connectionBuffer = [] ∧ c.inbound = [] ∧ c.outbound = [] ∧
      inbound = [] ∧ outbound = [] := by
  cases h with
  | serving _ hbuffer hin hout hin' hout' => exact ⟨hbuffer, hin, hout, hin', hout'⟩
  | asking hop' =>
    rcases hop with hop | hop <;> rw [hop] at hop' <;> rcases hop' with h | h <;> cases h
  | stopped hop' =>
    rcases hop with hop | hop <;> rw [hop] at hop' <;> cases hop'

/-- Between a request to the server and its response. -/
theorem Chain.Joined.of_asking (h : c.Joined inbound outbound)
    (hop : c.proxy.operation = .writeRequest ∨ c.proxy.operation = .readResponse) :
    c.inbound = inbound ∧ c.outbound = outbound := by
  cases h with
  | serving hop' =>
    rcases hop with hop | hop <;> rw [hop] at hop' <;> rcases hop' with h | h <;> cases h
  | asking _ hin hout => exact ⟨hin, hout⟩
  | stopped hop' =>
    rcases hop with hop | hop <;> rw [hop] at hop' <;> cases hop'

/-- What there is in front of the server is on the way to it. -/
theorem Chain.Joined.inbound_prefix (h : c.Joined inbound outbound) : c.inbound <+: inbound := by
  cases h with
  | serving _ _ hin _ hi => rw [hin, hi]
  | asking _ hin => rw [hin]
  | stopped _ hin => exact hin

/-- What the server has still to send is on the way to the proxy. -/
theorem Chain.Joined.unsent_suffix (h : c.Joined inbound outbound) :
    c.server.unsent <:+ outbound := by
  have hsuf : c.server.unsent <:+ c.outbound := by
    rw [Chain.outbound, ← List.append_assoc]
    exact List.suffix_append _ _
  cases h with
  | serving _ _ _ hout _ ho => exact ho ▸ hout ▸ hsuf
  | asking _ _ hout => exact hout ▸ hsuf
  | stopped _ _ hout => exact hout

theorem Proxy.Connection.unsent_of {p : Proxy.Connection} (h : p.operation = .writeRequest) :
    p.unsent = p.connectionBuffer := if_pos h

theorem Proxy.Connection.unsent_of_ne {p : Proxy.Connection}
    (h : p.operation ≠ .writeRequest) : p.unsent = [] := if_neg h

theorem Proxy.Connection.unread_of {p : Proxy.Connection} (h : p.operation = .readResponse) :
    p.unread = p.connectionBuffer := if_pos h

theorem Proxy.Connection.unread_of_ne {p : Proxy.Connection}
    (h : p.operation ≠ .readResponse) : p.unread = [] := if_neg h

/-- The proxy reads a request of its client. -/
theorem Chain.Working.readsRequest (h : c.Working) (hop : c.proxy.operation = .readRequest) :
    Chain.Working { c with
      proxy := c.proxy.handleReadRequest .success
      requests := c.requests ++ [(getline c.proxy.clientBuffer).1] } := by
  obtain ⟨hserver, i, o, htransit, hjoined⟩ := h
  obtain ⟨hbuffer, hin, hout, rfl, rfl⟩ := hjoined.of_serving (.inl hop)
  have hpassed := htransit.of_idle
  obtain ⟨hunread, hrest⟩ := List.append_eq_nil_iff.mp hin
  obtain ⟨htoServer, -⟩ := List.append_eq_nil_iff.mp hrest
  obtain ⟨-, hback⟩ := List.append_eq_nil_iff.mp hout
  refine ⟨hserver, ?_⟩
  cases hstar : startsWith (getline c.proxy.clientBuffer).1 starRequestType with
  | true =>
    -- the line is not passed on
    refine ⟨[], [], .idle ?_ rfl rfl, ?_⟩
    · rw [Chain.passed, List.filter_append, List.filter_cons_of_neg (by rw [hstar]; decide)]
      exact (List.append_nil _).trans hpassed
    · rw [Proxy.Connection.handleReadRequest_of_star hstar]
      refine .serving (.inr rfl) hbuffer ?_ hback rfl rfl
      rw [inbound, hunread, htoServer]
      rfl
  | false =>
    refine ⟨(getline c.proxy.clientBuffer).1 ++ [delim], [],
      .request (getline c.proxy.clientBuffer).1 ?_ (delim_notMem_getline _) rfl rfl, ?_⟩
    · rw [Chain.passed, List.filter_append, List.filter_cons_of_pos (by rw [hstar]; rfl)]
      exact congrArg (· ++ [(getline c.proxy.clientBuffer).1]) hpassed
    · rw [Proxy.Connection.handleReadRequest_of_not_star hstar]
      refine .asking (.inl rfl) ?_ hback
      rw [inbound, hunread, htoServer, hbuffer]
      rfl

/-- The proxy reads the response: nothing is left of it. -/
theorem Chain.Working.readsResponse (h : c.Working) (hop : c.proxy.operation = .readResponse)
    (hmem : delim ∈ c.proxy.connectionBuffer) :
    Chain.Working { c with proxy := c.proxy.handleReadResponse .success } := by
  obtain ⟨hserver, i, o, htransit, hjoined⟩ := h
  obtain ⟨hin, hout⟩ := hjoined.of_asking (.inr hop)
  rw [← hout, outbound, Proxy.Connection.unread_of hop] at htransit
  obtain ⟨text, hpassed, htext, hbuffer, hrest, hnil⟩ := htransit.line_to_proxy hmem
  have hget := getline_text htext []
  rw [List.append_nil, ← hbuffer] at hget
  rw [hnil, inbound, Proxy.Connection.unsent_of_ne (by rw [hop]; decide)] at hin
  refine ⟨hserver, [], [], .idle hpassed rfl rfl, ?_⟩
  rw [Proxy.Connection.handleReadResponse_eq, hget]
  exact .serving (.inr rfl) rfl hin hrest rfl rfl

/-- **The proxy keeps the lock-step.**  By the cases of its steps: most of them move bytes along,
and two read a line. -/
theorem Chain.Working.proxyStep {c' : Chain} (h : c.Working) (hstep : c.ProxyStep c') :
    c'.Working := by
  cases hstep with
  | readsRequest hop hmem => exact h.readsRequest hop
  | readsResponse hop hmem => exact h.readsResponse hop hmem
  | clientSends bytes hop hmem =>
    obtain ⟨hserver, i, o, htransit, hjoined⟩ := h
    obtain ⟨hbuffer, hin, hout, hi, ho⟩ := hjoined.of_serving (.inl hop)
    exact ⟨hserver, i, o, htransit, .serving (.inl hop) hbuffer hin hout hi ho⟩
  | answers hop =>
    obtain ⟨hserver, i, o, htransit, hjoined⟩ := h
    obtain ⟨hbuffer, hin, hout, hi, ho⟩ := hjoined.of_serving (.inr hop)
    refine ⟨hserver, i, o, htransit, .serving (.inl rfl) hbuffer ?_ ?_ hi ho⟩
    · rw [inbound, Proxy.Connection.unsent_of_ne (by rw [hop]; decide)] at hin
      exact hin
    · rw [outbound, Proxy.Connection.unread_of_ne (by rw [hop]; decide)] at hout
      exact hout
  | sends n hop =>
    obtain ⟨hserver, i, o, htransit, hjoined⟩ := h
    obtain ⟨hin, hout⟩ := hjoined.of_asking (.inl hop)
    refine ⟨hserver, i, o, htransit, .asking (.inl hop) ?_ ?_⟩
    · have hrest : Proxy.Connection.unsent { c.proxy with
          connectionBuffer := c.proxy.connectionBuffer.drop n } =
          c.proxy.connectionBuffer.drop n := if_pos hop
      rw [← hin, inbound, inbound, Proxy.Connection.unsent_of hop, hrest, List.append_assoc,
        List.take_append_drop]
    · have hnone : Proxy.Connection.unread { c.proxy with
          connectionBuffer := c.proxy.connectionBuffer.drop n } = [] :=
        if_neg (by rw [hop]; decide)
      rw [← hout, outbound, outbound, hnone, Proxy.Connection.unread_of_ne (by rw [hop]; decide)]
  | hasSent hop hnil =>
    obtain ⟨hserver, i, o, htransit, hjoined⟩ := h
    obtain ⟨hin, hout⟩ := hjoined.of_asking (.inl hop)
    refine ⟨hserver, i, o, htransit, .asking (.inr rfl) ?_ ?_⟩
    · rw [inbound, Proxy.Connection.unsent_of hop, hnil] at hin
      exact hin
    · rw [outbound, Proxy.Connection.unread_of_ne (by rw [hop]; decide)] at hout
      rw [outbound, Proxy.Connection.unread_of rfl]
      exact (congrArg (· ++ _) hnil).trans hout
  | receives n hop hmem =>
    obtain ⟨hserver, i, o, htransit, hjoined⟩ := h
    obtain ⟨hin, hout⟩ := hjoined.of_asking (.inr hop)
    refine ⟨hserver, i, o, htransit, .asking (.inr hop) ?_ ?_⟩
    · have hnone : Proxy.Connection.unsent { c.proxy with
          connectionBuffer := c.proxy.connectionBuffer ++ c.toProxy.take n } = [] :=
        if_neg (by rw [hop]; decide)
      rw [← hin, inbound, inbound, hnone, Proxy.Connection.unsent_of_ne (by rw [hop]; decide)]
    · have hmore : Proxy.Connection.unread { c.proxy with
          connectionBuffer := c.proxy.connectionBuffer ++ c.toProxy.take n } =
          c.proxy.connectionBuffer ++ c.toProxy.take n := if_pos hop
      rw [← hout, outbound, outbound, Proxy.Connection.unread_of hop, hmore, List.append_assoc,
        ← List.append_assoc (c.toProxy.take n), List.take_append_drop]
  | stops =>
    obtain ⟨hserver, i, o, htransit, hjoined⟩ := h
    have hpre : c.server.unread ++ (c.toServer ++ []) <+: c.inbound := by
      rw [List.append_nil, inbound, ← List.append_assoc]
      exact List.prefix_append _ _
    exact ⟨hserver, i, o, htransit,
      .stopped rfl (hpre.trans hjoined.inbound_prefix) hjoined.unsent_suffix⟩

end Proxy

/-! ### The server takes a step

The server reads a line that the proxy has passed on, so it is no star's: it stops, or it answers
with one line and never comes to wait for a prognosis. -/

section Server

variable {c : Chain} {inbound outbound : List Byte}

theorem Connection.unsent_of {s : Connection} (h : s.operation = .writeResponse) :
    s.unsent = s.buffer := if_pos h

theorem Connection.unsent_of_ne {s : Connection} (h : s.operation ≠ .writeResponse) :
    s.unsent = [] := if_neg h

theorem Connection.unread_of {s : Connection} (h : s.operation = .readRequest) :
    s.unread = s.buffer := if_pos h

theorem Connection.unread_of_ne {s : Connection} (h : s.operation ≠ .readRequest) :
    s.unread = [] := if_neg h

/-- A request that is no Star's, with nothing behind it: the server stops, or it answers
with one line. -/
theorem Connection.handleReadRequest_line {s : Connection} (hm : s.prognosisManager.Stored)
    {text : List Byte} (htext : delim ∉ text) (hstar : startsWith text starRequestType = false)
    (hbuffer : s.buffer = text ++ [delim]) :
    (s.handleReadRequest .success).operation = .stopped ∨
      ∃ response, delim ∉ response ∧ s.handleReadRequest .success =
        { s with buffer := response ++ [delim], operation := .writeResponse } := by
  have hget := getline_text htext []
  rw [List.append_nil, ← hbuffer] at hget
  rw [handleReadRequest, if_neg (not_not_intro rfl)]
  dsimp only
  rw [hget]
  dsimp only
  rw [hstar, if_neg Bool.false_ne_true]
  split
  · cases hzodiac : findZodiac (cStr text clientRequestType.length) with
    | none => exact .inl rfl
    | some zodiac =>
      dsimp only
      cases hresponse : s.prognosisManager.getPrognosis zodiac with
      | none => exact .inr ⟨unknownPrognosis, by decide, rfl⟩
      | some response => exact .inr ⟨response, hm.delim_notMem hresponse, rfl⟩
  · exact .inl rfl

/-- Steps of the server that only move bytes. -/
theorem Chain.Joined.of_eq {c' : Chain} (h : c.Joined inbound outbound)
    (hproxy : c'.proxy = c.proxy) (hin : c'.inbound = c.inbound) (hout : c'.outbound = c.outbound)
    (hunsent : c'.server.unsent <:+ c.server.unsent) : c'.Joined inbound outbound := by
  cases h with
  | serving hop hbuffer hin' hout' hi ho =>
    exact .serving (hproxy ▸ hop) (hproxy ▸ hbuffer) (hin.trans hin') (hout.trans hout') hi ho
  | asking hop hin' hout' => exact .asking (hproxy ▸ hop) (hin.trans hin') (hout.trans hout')
  | stopped hop hin' hout' => exact .stopped (hproxy ▸ hop) (hin ▸ hin') (hunsent.trans hout')

/-- **The server reads the line that was passed on last**, and answers it or stops.  It is no
star's line, and there is nothing behind it. -/
theorem Chain.Working.serverReadsRequest (h : c.Working)
    (hm : c.server.prognosisManager.Stored) (hop : c.server.operation = .readRequest)
    (hmem : delim ∈ c.server.buffer) :
    c.passed = c.lines ++ [(getline c.server.buffer).1] ∧
      ((c.server.handleReadRequest .success).operation = .stopped ∨
        Chain.Working { c with
          server := c.server.handleReadRequest .success
          lines := c.lines ++ [(getline c.server.buffer).1] }) := by
  obtain ⟨-, i, o, htransit, hjoined⟩ := h
  have hpre := hjoined.inbound_prefix
  rw [inbound, Connection.unread_of hop] at hpre
  obtain ⟨text, hpassed, htext, hbuffer, hrest, rfl⟩ := htransit.line_to_server hmem hpre
  obtain ⟨htoServer, hunsent⟩ := List.append_eq_nil_iff.mp hrest
  have hstar : startsWith text starRequestType = false := by
    have hmem' : text ∈ c.passed := hpassed ▸ List.mem_append_right _ List.mem_cons_self
    have hnot := (List.mem_filter.mp hmem').2
    rwa [Bool.not_eq_true'] at hnot
  have hget := getline_text htext []
  rw [List.append_nil, ← hbuffer] at hget
  rw [hget]
  refine ⟨hpassed, ?_⟩
  rcases Connection.handleReadRequest_line hm htext hstar hbuffer with hstop | ⟨response, hr, heq⟩
  · exact .inl hstop
  · right
    rw [heq]
    refine ⟨.inr rfl, [], response ++ [delim], .response response hpassed hr rfl rfl, ?_⟩
    have hin : c.toServer ++ c.proxy.unsent = [] := hrest
    cases hjoined with
    | serving _ _ hin' _ hi =>
      rw [inbound, Connection.unread_of hop] at hin'
      have hnil := (List.append_eq_nil_iff.mp hin').1
      rw [hnil] at hmem
      exact absurd hmem List.not_mem_nil
    | asking hop' _ hout =>
      obtain ⟨hunread, htail⟩ := List.append_eq_nil_iff.mp hout
      refine .asking hop' hin ?_
      rw [outbound, hunread, (List.append_eq_nil_iff.mp htail).1]
      rfl
    | stopped hop' _ _ =>
      refine .stopped hop' ?_ (List.suffix_refl _)
      exact List.prefix_nil.mpr hin

/-- **The server keeps the lock-step**, until it stops. -/
theorem Chain.Working.serverStep {c' : Chain} (h : c.Working)
    (hm : c.server.prognosisManager.Stored) (hstep : c.ServerStep c') :
    c'.lines <+: c'.passed ∧ (c'.server.operation = .stopped ∨ c'.Working) := by
  have hle : c.lines <+: c.passed := by
    obtain ⟨-, i, o, htransit, -⟩ := h
    exact htransit.lines_prefix
  cases hstep with
  | readsRequest hop hmem =>
    obtain ⟨hpassed, hworking⟩ := h.serverReadsRequest hm hop hmem
    refine ⟨?_, hworking⟩
    show c.lines ++ [(getline c.server.buffer).1] <+: c.passed
    rw [hpassed]
  | readsPrognosis zodiac hop hmem =>
    rcases h.server with hop' | hop' <;> rw [hop] at hop' <;> cases hop'
  | receives n hop hmem =>
    have hop' : c.server.operation = .readRequest := by
      rcases hop with hop | ⟨zodiac, hop⟩
      · exact hop
      · rcases h.server with hop' | hop' <;> rw [hop] at hop' <;> cases hop'
    obtain ⟨-, i, o, htransit, hjoined⟩ := h
    refine ⟨hle, .inr ⟨.inl hop', i, o, htransit, hjoined.of_eq rfl ?_ ?_ ?_⟩⟩
    · have hmore : Connection.unread { c.server with
          buffer := c.server.buffer ++ c.toServer.take n } =
          c.server.buffer ++ c.toServer.take n := if_pos hop'
      rw [inbound, inbound, hmore, Connection.unread_of hop', List.append_assoc,
        ← List.append_assoc (c.toServer.take n), List.take_append_drop]
    · have hnone : Connection.unsent { c.server with
          buffer := c.server.buffer ++ c.toServer.take n } = [] := if_neg (by rw [hop']; decide)
      rw [outbound, outbound, hnone, Connection.unsent_of_ne (by rw [hop']; decide)]
    · have hnone : Connection.unsent { c.server with
          buffer := c.server.buffer ++ c.toServer.take n } = [] := if_neg (by rw [hop']; decide)
      rw [hnone]
      exact List.nil_suffix
  | sends n hop =>
    obtain ⟨-, i, o, htransit, hjoined⟩ := h
    have hrest : Connection.unsent { c.server with buffer := c.server.buffer.drop n } =
        c.server.buffer.drop n := if_pos hop
    refine ⟨hle, .inr ⟨.inr hop, i, o, htransit, hjoined.of_eq rfl ?_ ?_ ?_⟩⟩
    · have hnone : Connection.unread { c.server with buffer := c.server.buffer.drop n } = [] :=
        if_neg (by rw [hop]; decide)
      rw [inbound, inbound, hnone, Connection.unread_of_ne (by rw [hop]; decide)]
    · rw [outbound, outbound, hrest, Connection.unsent_of hop, List.append_assoc,
        List.take_append_drop]
    · rw [hrest, Connection.unsent_of hop]
      exact List.drop_suffix _ _
  | hasSent hop hnil =>
    obtain ⟨-, i, o, htransit, hjoined⟩ := h
    refine ⟨hle, .inr ⟨.inl rfl, i, o, htransit, hjoined.of_eq rfl ?_ ?_ List.nil_suffix⟩⟩
    · have hnone : (c.server.handleWriteResponse .success).unread = [] := hnil
      have hnone' : c.server.unread = [] := Connection.unread_of_ne (by rw [hop]; decide)
      rw [inbound, inbound, hnone, hnone']
    · rw [outbound, outbound, Connection.unsent_of hop, hnil]
      rfl
  | stops => exact ⟨hle, .inl rfl⟩

end Server

/-! ## Every run

Both sides keep the lock-step, and other connections change nothing but the map. -/

/-- A server that has stopped does nothing more. -/
theorem Chain.ServerStep.of_stopped {c c' : Chain} (h : c.ServerStep c')
    (hstopped : c.server.operation = .stopped) :
    c'.server.operation = .stopped ∧ c'.server.prognosisManager = c.server.prognosisManager ∧
      c'.lines = c.lines ∧ c'.passed = c.passed := by
  cases h with
  | stops => exact ⟨rfl, rfl, rfl, rfl⟩
  | readsRequest hop => rw [hop] at hstopped; cases hstopped
  | readsPrognosis zodiac hop => rw [hop] at hstopped; cases hstopped
  | receives n hop =>
    rcases hop with hop | ⟨zodiac, hop⟩ <;> rw [hop] at hstopped <;> cases hstopped
  | sends n hop => rw [hop] at hstopped; cases hstopped
  | hasSent hop => rw [hop] at hstopped; cases hstopped

theorem Connection.handleReadRequest_prognosisManager (s : Connection) (ec : ErrorCode) :
    (s.handleReadRequest ec).prognosisManager = s.prognosisManager := by
  rw [handleReadRequest]
  dsimp only
  split
  · rfl
  · split
    · split <;> rfl
    · split
      · split
        · rfl
        · split <;> rfl
      · rfl

/-- Only `handleReadPrognosis` changes the prognoses. -/
theorem Chain.ServerStep.prognosisManager {c c' : Chain} (h : c.ServerStep c')
    (hop : ∀ zodiac, c.server.operation ≠ .readPrognosis zodiac) :
    c'.server.prognosisManager = c.server.prognosisManager := by
  cases h with
  | readsPrognosis zodiac hop' => exact absurd hop' (hop zodiac)
  | readsRequest => exact Connection.handleReadRequest_prognosisManager _ _
  | receives => rfl
  | sends => rfl
  | hasSent => rfl
  | stops => rfl

theorem Chain.Inv.operation {c : Chain} (h : c.Inv) (zodiac : List Byte) :
    c.server.operation ≠ .readPrognosis zodiac := by
  intro hop
  rcases h.working with hstopped | hworking
  · rw [hop] at hstopped
    cases hstopped
  · rcases hworking.server with hop' | hop' <;> rw [hop] at hop' <;> cases hop'

theorem Chain.Inv.start {m : PrognosisManager} (hm : m.Stored) : (Chain.start m).Inv where
  stored := hm
  passed := List.prefix_refl _
  working := .inr ⟨.inl rfl, [], [], .idle rfl rfl rfl, .serving (.inl rfl) rfl rfl rfl rfl rfl⟩

/-- **Every step keeps the invariant.** -/
theorem Chain.Inv.step {c c' : Chain} (h : c.Inv) (hstep : c.Step c') :
    c'.Inv ∧ c'.server.prognosisManager = c.server.prognosisManager := by
  rcases hstep with hproxy | hserver
  · obtain ⟨heq, hlines, hpassed⟩ := hproxy.frame
    refine ⟨⟨heq ▸ h.stored, hlines ▸ h.passed.trans hpassed, ?_⟩, by rw [heq]⟩
    rcases h.working with hstopped | hworking
    · exact .inl (heq ▸ hstopped)
    · exact .inr (hworking.proxyStep hproxy)
  · have hm := hserver.prognosisManager h.operation
    refine ⟨⟨hm ▸ h.stored, ?_, ?_⟩, hm⟩
    · rcases h.working with hstopped | hworking
      · obtain ⟨-, -, hlines, hpassed⟩ := hserver.of_stopped hstopped
        rw [hlines, hpassed]
        exact h.passed
      · exact (hworking.serverStep h.stored hserver).1
    · rcases h.working with hstopped | hworking
      · exact .inl (hserver.of_stopped hstopped).1
      · exact (hworking.serverStep h.stored hserver).2

theorem Chain.Inv.elsewhere {c c' : Chain} (h : c.Inv) (hstep : c.Elsewhere c') : c'.Inv := by
  obtain ⟨other, zodiac, hother⟩ := hstep
  refine ⟨.set other zodiac (hother ▸ h.stored), h.passed, ?_⟩
  rcases h.working with hstopped | hworking
  · exact .inl hstopped
  · obtain ⟨hserver, i, o, htransit, hjoined⟩ := hworking
    exact .inr ⟨hserver, i, o, htransit, hjoined.of_eq rfl rfl rfl (List.suffix_refl _)⟩

theorem Chain.Reachable.inv {m : PrognosisManager} (hm : m.Stored) {c : Chain}
    (h : Chain.Reachable m c) : c.Inv := by
  induction h with
  | refl => exact .start hm
  | tail _ hstep ih =>
    rcases hstep with hstep | hstep
    · exact (ih.step hstep).1
    · exact ih.elsewhere hstep

/-- **Access control.**  Behind the proxy the server never waits for a prognosis, the
proxied connection never changes the prognoses, and the lines that the server reads are
lines that the proxy read and no Star's: the first ones of these, in order. -/
theorem Chain.reachable_unstarred {m : PrognosisManager} (hm : m.Stored) {c : Chain}
    (h : Chain.Reachable m c) :
    (∀ zodiac, c.server.operation ≠ .readPrognosis zodiac) ∧
      (∀ c', c.Step c' → c'.server.prognosisManager = c.server.prognosisManager) ∧
      (∀ line ∈ c.lines, line ∈ c.requests ∧ startsWith line starRequestType = false) ∧
      c.lines <+: c.requests.filter fun line => !startsWith line starRequestType := by
  have hinv := h.inv hm
  refine ⟨hinv.operation, fun c' hstep => (hinv.step hstep).2, fun line hline => ?_,
    hinv.passed⟩
  obtain ⟨hmem, hnot⟩ := List.mem_filter.mp (hinv.passed.subset hline)
  rw [Bool.not_eq_true'] at hnot
  exact ⟨hmem, hnot⟩

/-! ## A Star and a request -/

/-- A server connection without prognoses. -/
def sampleConnection (buffer : List Byte) (operation : Operation) : Connection :=
  ⟨buffer, operation, fun _ => none, [], false, []⟩

/-- A Star was denied, and the request behind it has come to the server. -/
def sampleChain : Chain where
  proxy := ⟨[], [], .writeRequest⟩
  server := sampleConnection (str "YOU ARE OUT OF LUCK!\n") .writeResponse
  toServer := []
  toProxy := []
  requests := [str "STARS SAY Leo", str "HOROSCOPE Leo"]
  lines := [str "HOROSCOPE Leo"]

theorem sampleChain_reachable : Chain.Reachable (fun _ => none) sampleChain := by
  have hstart : Chain.Reachable (fun _ => none) ⟨⟨[], [], .readRequest⟩,
      sampleConnection [] .readRequest, [], [], [], []⟩ := .refl
  have hstar : Chain.Reachable (fun _ => none) ⟨⟨str "STARS SAY Leo\n", [], .readRequest⟩,
      sampleConnection [] .readRequest, [], [], [], []⟩ :=
    hstart.tail (.inl (.inl (.clientSends (str "STARS SAY Leo\n") rfl (by decide))))
  have hdenied : Chain.Reachable (fun _ => none) ⟨⟨str "DENIED!\n", [], .writeResponse⟩,
      sampleConnection [] .readRequest, [], [], [str "STARS SAY Leo"], []⟩ :=
    hstar.tail (.inl (.inl (.readsRequest rfl (by decide))))
  have hanswered : Chain.Reachable (fun _ => none) ⟨⟨[], [], .readRequest⟩,
      sampleConnection [] .readRequest, [], [], [str "STARS SAY Leo"], []⟩ :=
    hdenied.tail (.inl (.inl (.answers rfl)))
  have hclient : Chain.Reachable (fun _ => none) ⟨⟨str "HOROSCOPE Leo\n", [], .readRequest⟩,
      sampleConnection [] .readRequest, [], [], [str "STARS SAY Leo"], []⟩ :=
    hanswered.tail (.inl (.inl (.clientSends (str "HOROSCOPE Leo\n") rfl (by decide))))
  have hpassed : Chain.Reachable (fun _ => none)
      ⟨⟨[], str "HOROSCOPE Leo\n", .writeRequest⟩, sampleConnection [] .readRequest, [], [],
        [str "STARS SAY Leo", str "HOROSCOPE Leo"], []⟩ :=
    hclient.tail (.inl (.inl (.readsRequest rfl (by decide))))
  have hsent : Chain.Reachable (fun _ => none) ⟨⟨[], [], .writeRequest⟩,
      sampleConnection [] .readRequest, str "HOROSCOPE Leo\n", [],
        [str "STARS SAY Leo", str "HOROSCOPE Leo"], []⟩ :=
    hpassed.tail (.inl (.inl (.sends 14 rfl)))
  have hread : Chain.Reachable (fun _ => none) ⟨⟨[], [], .writeRequest⟩,
      sampleConnection (str "HOROSCOPE Leo\n") .readRequest, [], [],
        [str "STARS SAY Leo", str "HOROSCOPE Leo"], []⟩ :=
    hsent.tail (.inl (.inr (.receives 14 (.inl rfl) (by decide))))
  exact hread.tail (.inl (.inr (.readsRequest rfl (by decide))))

theorem sampleChain_unstarred :
    (∀ zodiac, sampleChain.server.operation ≠ .readPrognosis zodiac) ∧
      (∀ c', sampleChain.Step c' →
        c'.server.prognosisManager = sampleChain.server.prognosisManager) ∧
      (∀ line ∈ sampleChain.lines,
        line ∈ sampleChain.requests ∧ startsWith line starRequestType = false) ∧
      sampleChain.lines <+:
        sampleChain.requests.filter fun line => !startsWith line starRequestType :=
  Chain.reachable_unstarred .empty sampleChain_reachable

end Astrologer.Boost
