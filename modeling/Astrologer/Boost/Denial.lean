import Astrologer.Boost.Relaying

/-!
# A Star at the Boost proxy

A Star sends its request line and its prognosis line one after the other, and then it
waits for a response.  The proxy denies the request.  With it, it drops what has arrived
(`consume`), and then it reads the next request.

So the prognosis is dropped as far as it is there.  What comes later (`StarVisit.late`)
is a line of its own, and it is forwarded to the server unless it begins as a Star's
request does (`unforwarded_iff`).
-/

namespace Astrologer.Boost.Proxy

open Lines Segmentation

variable {σ : Type*}

/-- What a Star sends, in some reads. -/
structure StarVisit where
  zodiac : List Byte
  remainder : List Byte
  prognosis : List Byte
  zodiac_notMem : delim ∉ zodiac
  remainder_notMem : delim ∉ remainder
  prognosis_notMem : delim ∉ prognosis
  reads : List (List Byte)
  closes : Bool
  cut : reads.flatten =
    starRequestType ++ (zodiac ++ remainder) ++ [delim] ++ (prognosis ++ [delim])

def StarVisit.request (v : StarVisit) : List Byte :=
  starRequestType ++ (v.zodiac ++ v.remainder)

/-- What comes after the read that brings the end of the request line. -/
def StarVisit.late (v : StarVisit) : List Byte :=
  Segmentation.late (v.request ++ [delim]).length v.reads

def StarVisit.run (v : StarVisit) (answer : Answer σ) (s : σ) : Relay σ :=
  (Relay.start v.reads v.closes s).result answer

theorem StarVisit.request_notMem (v : StarVisit) : delim ∉ v.request := by
  have htype : delim ∉ starRequestType := by decide
  rw [request, List.mem_append, List.mem_append, not_or, not_or]
  exact ⟨htype, v.zodiac_notMem, v.remainder_notMem⟩

theorem StarVisit.request_isStar (v : StarVisit) :
    startsWith v.request starRequestType = true :=
  startsWith_iff.mpr (List.prefix_append _ _)

/-- The delimiter behind a text does not change how it begins. -/
theorem startsWith_delim {text pre : List Byte} (hpre : delim ∉ pre) :
    startsWith (text ++ [delim]) pre = startsWith text pre := by
  rw [Bool.eq_iff_iff, startsWith_iff, startsWith_iff, List.prefix_concat_iff]
  refine or_iff_right fun heq => hpre ?_
  rw [heq]
  exact List.mem_append_right text List.mem_cons_self

/-- **The denial**, and what is left of the visit: what the read of the request line has brought
behind it is dropped, and what comes later is read as a request. -/
theorem StarVisit.run_eq (v : StarVisit) (answer : Answer σ) (s : σ) :
    ∃ reads', reads'.flatten = v.late ∧ v.late <:+ v.prognosis ++ [delim] ∧
      v.run answer s =
        (Relay.waiting reads' v.closes s [] [] [starResponseFailure ++ [delim]]).result
          answer := by
  obtain ⟨left, reads', hmade, hbehind, hresult⟩ :=
    denial answer v.closes s [] [] [] v.request_notMem v.request_isStar v.cut
  have hlate := hmade.late_eq
    (List.append_ne_nil_of_right_ne_nil v.request (List.cons_ne_nil delim []))
  refine ⟨reads', hlate.symm, ⟨left, ?_⟩, hresult⟩
  rw [late, hlate]
  exact hbehind.symm

/-- An end of the prognosis line is empty, or a line of its own. -/
theorem suffix_line {text rest : List Byte} (htext : delim ∉ text)
    (h : rest <:+ text ++ [delim]) :
    rest = [] ∨ ∃ text', delim ∉ text' ∧ rest = text' ++ [delim] := by
  obtain ⟨left, heq⟩ := h
  rcases List.eq_nil_or_concat rest with hnil | ⟨text', b, rfl⟩
  · exact .inl hnil
  · rw [List.concat_eq_append, ← List.append_assoc] at heq
    obtain ⟨hfront, hlast⟩ := List.append_inj' heq rfl
    refine .inr ⟨text', fun hmem => htext ?_, ?_⟩
    · rw [← hfront]
      exact List.mem_append_right left hmem
    · rw [List.concat_eq_append, hlast]

section Visit

variable {reads : List (List Byte)} {text : List Byte} {closes : Bool} {s : σ}
  {received : List (List Byte)}

/-- A late line that begins as a Star's request is denied as well. -/
theorem unforwarded_of_star (answer : Answer σ) (htext : delim ∉ text)
    (hstar : startsWith text starRequestType = true) (h : reads.flatten = text ++ [delim]) :
    ((Relay.waiting reads closes s [] [] received).result answer).forwarded = [] := by
  obtain ⟨left, reads', -, hbehind, hresult⟩ :=
    denial answer closes s [] [] received htext hstar (h.trans (List.append_nil _).symm)
  have hnil := (List.append_eq_nil_iff.mp hbehind.symm).2
  rw [hresult]
  refine (result_waiting answer closes s [] [] _ ?_).1
  rw [hnil]
  exact List.not_mem_nil

/-- **Another late line is forwarded.** -/
theorem forwarded_of_not_star (answer : Answer σ) (htext : delim ∉ text)
    (hstar : startsWith text starRequestType = false) (h : reads.flatten = text ++ [delim]) :
    [text ++ [delim]] <+:
      ((Relay.waiting reads closes s [] [] received).result answer).forwarded := by
  have hall : [] ++ reads.flatten = text ++ [delim] ++ [] := by
    rw [List.nil_append, h, List.append_nil]
  obtain ⟨left, reads', hread, -, -⟩ := readUntil_line ⟨text, htext, rfl⟩ hall
  rw [Relay.result_eq_of_step (step_request htext hstar hread),
    Relay.result_eq_of_step (step_forward answer htext)]
  exact Relay.forwarded_prefix_result
    (.mk ⟨left, [], .readResponse⟩ reads' closes (answer s (text ++ [delim])).2
      ([] ++ (answer s (text ++ [delim])).1) [text ++ [delim]] received)

end Visit

/-- **When a denied Star reaches the server.**  Its request line never does.  Its prognosis
line does when an end of it comes late, and that end does not begin as a Star's request. -/
theorem StarVisit.unforwarded_iff (v : StarVisit) (answer : Answer σ) (s : σ) :
    (v.run answer s).step answer = none ∧
      ((v.run answer s).forwarded = [] ↔
        v.late = [] ∨ startsWith v.late starRequestType = true) := by
  refine ⟨Relay.step_result _, ?_⟩
  obtain ⟨reads', hflatten, hsuffix, hrun⟩ := v.run_eq answer s
  rw [hrun]
  rcases suffix_line v.prognosis_notMem hsuffix with hnil | ⟨text, htext, hline⟩
  · refine iff_of_true (result_waiting answer v.closes s [] [] _ ?_).1 (.inl hnil)
    rw [hflatten, hnil]
    exact List.not_mem_nil
  · have hne : v.late ≠ [] := by
      rw [hline]
      exact List.append_ne_nil_of_right_ne_nil text (List.cons_ne_nil delim [])
    rw [or_iff_right hne, hline, startsWith_delim (by decide)]
    rw [hline] at hflatten
    cases hstar : startsWith text starRequestType with
    | true => exact iff_of_true (unforwarded_of_star answer htext hstar hflatten) rfl
    | false =>
      refine iff_of_false (fun hforwarded => ?_) Bool.false_ne_true
      have hpre : [text ++ [delim]] <+:
          ((Relay.waiting reads' v.closes s [] [] [starResponseFailure ++ [delim]]).result
            answer).forwarded := forwarded_of_not_star answer htext hstar hflatten
      rw [hforwarded] at hpre
      exact absurd (List.prefix_nil.mp hpre) (List.cons_ne_nil _ _)

/-! ## A prognosis that comes later -/

def sampleStar : StarVisit where
  zodiac := str "Aries"
  remainder := []
  prognosis := str "Good luck"
  zodiac_notMem := by decide
  remainder_notMem := List.not_mem_nil
  prognosis_notMem := by decide
  reads := [str "STARS SAY Aries\n", str "Good luck\n"]
  closes := true
  cut := by decide

/-- **The prognosis is forwarded as a request.** -/
theorem sampleStar_forwarded :
    (sampleStar.run (fun (s : Unit) _ => ([], s)) ()).forwarded = [str "Good luck\n"] := by
  decide

theorem sampleStar_reaches :
    ¬ (sampleStar.run (fun (s : Unit) _ => ([], s)) ()).forwarded = [] := by
  rw [sampleStar_forwarded]
  exact List.cons_ne_nil _ _

end Astrologer.Boost.Proxy
