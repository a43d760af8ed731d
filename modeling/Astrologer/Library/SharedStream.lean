import Astrologer.Library.Lines

/-!
# A stream with several writers

When several parties write to one stream, each entry has an owner, though a reader
does not see it.  A shared stream is a list of entries with their owners: `tag i l`
are the entries `l` of `i`, and `share i s` is what of `s` belongs to `i`.

`merged` is a stream of whole lines, each with one owner.  The first line that a reader
cuts off such a stream is the first line written, and its owner is one (`first_line`).
-/

namespace SharedStream

open Lines

variable {ι α : Type*}

/-- Entries of one owner. -/
def tag (i : ι) (l : List α) : List (ι × α) := l.map (Prod.mk i)

theorem tag_append (i : ι) (l m : List α) : tag i (l ++ m) = tag i l ++ tag i m :=
  List.map_append

theorem map_snd_tag (i : ι) (l : List α) : (tag i l).map Prod.snd = l := by
  rw [tag, List.map_map]
  exact List.map_id l

theorem length_tag (i : ι) (l : List α) : (tag i l).length = l.length := List.length_map _

theorem owner_tag (i : ι) (l : List α) : ∀ x ∈ tag i l, x.1 = i := by
  intro x hx
  obtain ⟨a, -, rfl⟩ := List.mem_map.mp hx
  rfl

/-- Lines, each with its owner, one after the other. -/
def merged (ls : List (ι × List α)) : List (ι × α) := ls.flatMap fun x => tag x.1 x.2

theorem merged_cons (x : ι × List α) (ls : List (ι × List α)) :
    merged (x :: ls) = tag x.1 x.2 ++ merged ls := List.flatMap_cons

theorem merged_concat (ls : List (ι × List α)) (i : ι) (l : List α) :
    merged (ls ++ [(i, l)]) = merged ls ++ tag i l := by
  rw [merged, merged, List.flatMap_append, List.flatMap_singleton]

section First

variable [DecidableEq α] {d : α} {i : ι} {l : List α}

/-- **The first line of a stream of lines** is the first one, and has one owner. -/
theorem first_line (hl : IsLine d l) {ls : List (ι × List α)}
    {tail line rest : List (ι × α)} (hline : IsLine d (line.map Prod.snd))
    (h : merged ((i, l) :: ls) ++ tail = line ++ rest) :
    line = tag i l ∧ rest = merged ls ++ tail := by
  rw [merged_cons, List.append_assoc] at h
  have hsnd := congrArg (List.map Prod.snd) h
  rw [List.map_append, List.map_append, List.map_append, map_snd_tag] at hsnd
  have heq : l = line.map Prod.snd := (hl.append_inj hline hsnd).1
  have hlen : (tag i l).length = line.length := by
    rw [length_tag, heq, List.length_map]
  obtain ⟨hfst, hrest⟩ := List.append_inj h hlen
  exact ⟨hfst.symm, hrest.symm⟩

end First

section Share

variable [DecidableEq ι] {i j : ι}

/-- What belongs to one owner. -/
def share (i : ι) (s : List (ι × α)) : List α := (s.filter fun x => x.1 = i).map Prod.snd

theorem share_append (i : ι) (s t : List (ι × α)) :
    share i (s ++ t) = share i s ++ share i t := by
  rw [share, share, share, List.filter_append, List.map_append]

/-- A stream with one owner. -/
theorem share_of_owner {s : List (ι × α)} (h : ∀ x ∈ s, x.1 = i) :
    share i s = s.map Prod.snd := by
  rw [share, List.filter_eq_self.mpr fun x hx => decide_eq_true (h x hx)]

theorem share_of_other {s : List (ι × α)} (h : ∀ x ∈ s, x.1 = i) (hij : j ≠ i) :
    share j s = [] := by
  rw [share, List.map_eq_nil_iff, List.filter_eq_nil_iff]
  intro x hx hj
  exact hij ((of_decide_eq_true hj).symm.trans (h x hx))

theorem share_tag_self (i : ι) (l : List α) : share i (tag i l) = l := by
  rw [share_of_owner (owner_tag i l), map_snd_tag]

theorem share_tag_of_ne (hij : j ≠ i) (l : List α) : share j (tag i l) = [] :=
  share_of_other (owner_tag i l) hij

end Share

end SharedStream
