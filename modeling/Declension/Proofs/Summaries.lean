import Declension.Proofs.Outcome
import Declension.Run.Reader

/-!
# What the words of a run have in common

A summary adds words, parts of a run and branches of an alternant one at a time. What it tells of
them is told by the words alone, in the order in which they stand, however they are put together.
-/
namespace Declension
namespace Summary
variable {a b c : Summary} {words more : List Segment} {groups others : List (List Segment)}

/-- What a summary tells of words in a row. -/
structure Describes (a : Summary) (words : List Segment) : Prop where
  loc : a.loc = words.any (·.loc)
  gender : a.gender = words.findSome? (·.gender)
  isAdj : a.isAdj = if words = [] then none else some (words.all (·.isAdj))

/-- What a summary tells of words in groups; groups without words are left out. -/
structure Tells (a : Summary) (groups : List (List Segment)) : Prop
    extends a.Describes groups.flatten where
  propses : a.propses = (groups.filter (· ≠ [])).map (List.map Segment.prop)

namespace Describes

theorem nil : Describes {} [] := ⟨rfl, rfl, rfl⟩

theorem addSegment (h : a.Describes words) (s : Segment) :
    (a.addSegment s).Describes (words ++ [s]) where
  loc := by simp [Summary.addSegment, h.loc]
  gender := by simp [Summary.addSegment, h.gender, List.findSome?_append]
  isAdj := by
    unfold Summary.addSegment
    rw [h.isAdj]
    by_cases hwords : words = [] <;> simp [hwords]

theorem foldl_addSegment (h : a.Describes words) (more : List Segment) :
    (more.foldl Summary.addSegment a).Describes (words ++ more) := by
  induction more generalizing a words with
  | nil => rwa [List.append_nil]
  | cons s more ih => simpa using ih (h.addSegment s)

theorem addPart (ha : a.Describes words) (hb : b.Describes more) :
    (a.addPart b).Describes (words ++ more) where
  loc := by simp [Summary.addPart, ha.loc, hb.loc]
  gender := by simp [Summary.addPart, ha.gender, hb.gender, List.findSome?_append]
  isAdj := by
    unfold Summary.addPart
    rw [ha.isAdj, hb.isAdj]
    by_cases hwords : words = [] <;> by_cases hmore : more = [] <;> simp [hwords, hmore]

end Describes

namespace Tells

theorem nil : Tells {} [] := ⟨.nil, rfl⟩

theorem addPart (ha : a.Tells groups) (hb : b.Tells others) :
    (a.addPart b).Tells (groups ++ others) where
  toDescribes := by
    rw [List.flatten_append]
    exact ha.toDescribes.addPart hb.toDescribes
  propses := by simp [Summary.addPart, ha.propses, hb.propses]

theorem flatten_propses (h : a.Tells groups) :
    a.propses.flatten = groups.flatten.map Segment.prop := by
  rw [h.propses, ← List.map_flatten, List.flatten_filter_ne_nil]

end Tells

/-- Whether one of the summaries is of adjectives only, and another one is not. -/
def AreMixed (summaries : List Summary) : Prop :=
  (∃ a ∈ summaries, a.isAdj = some true) ∧ ∃ a ∈ summaries, a.isAdj = some false

/-- A branch is added as a part is, but for the number. -/
theorem addBranch_eq_ok (h : a.addBranch b = .ok c) :
    c = { a.addPart b with num := if a.num = b.num then a.num else some .both } := by
  unfold addBranch at h
  split at h
  · rename_i k l ha hb
    split at h
    · rename_i hkind
      cases h
      simp [join, addPart, ha, hb, hkind]
    · cases h
  · rename_i ha
    cases h
    simp [join, addPart, ha]
  · rename_i ha hb
    cases h
    simp [join, addPart, ha, hb]

/-- A branch is refused just if its kind is not that of the branches before it. -/
theorem addBranch_eq_error {f : Fault} :
    a.addBranch b = .error f ↔
      f = .mixedAlternant ∧ ∃ k, a.isAdj = some k ∧ b.isAdj = some (!k) := by
  unfold addBranch
  split
  · rename_i k l ha hb
    rw [ha, hb]
    by_cases hkind : k = l
    · simp [hkind]
    · have hother : l = !k := (Bool.eq_not_of_ne (Ne.symm hkind))
      rw [if_neg hkind, hother]
      exact ⟨fun h => ⟨(Except.error.inj h).symm, k, rfl, rfl⟩, fun h => h.1 ▸ rfl⟩
  · rename_i ha
    simp [ha]
  · rename_i ha hb
    simp [ha, hb]

theorem isAdj_of_addBranch (h : a.addBranch b = .ok c) (k : Bool) :
    c.isAdj = some k ↔ a.isAdj = some k ∨ b.isAdj = some k := by
  unfold addBranch at h
  split at h
  · rename_i ha hb
    split at h
    · cases h
      simp [join, ha, hb, ‹_ = _›]
    · cases h
  · rename_i ha
    cases h
    simp [join, ha]
  · rename_i ha hb
    cases h
    simp [join, ha, hb]

theorem areMixed_of_addBranch (h : a.addBranch b = .ok c) (rest : List Summary) :
    AreMixed (c :: rest) ↔ AreMixed (a :: b :: rest) := by
  simp only [AreMixed, List.exists_mem_cons_iff, isAdj_of_addBranch h, or_assoc]

/-- Branches are refused just if they are mixed. -/
theorem foldlM_addBranch_eq_error {rest : List Summary} {f : Fault} :
    rest.foldlM addBranch a = .error f ↔ f = .mixedAlternant ∧ AreMixed (a :: rest) := by
  induction rest generalizing a with
  | nil =>
    have hsingle : ¬ AreMixed [a] := by
      rintro ⟨⟨b, hb, htrue⟩, c, hc, hfalse⟩
      rw [List.mem_singleton.mp hb] at htrue
      rw [List.mem_singleton.mp hc, htrue] at hfalse
      cases hfalse
    refine iff_of_false (fun h => ?_) fun h => hsingle h.2
    cases h
  | cons b rest ih =>
    rw [List.foldlM_cons]
    cases hadd : a.addBranch b with
    | error g =>
      obtain ⟨rfl, k, ha, hb⟩ := addBranch_eq_error.mp hadd
      have hmixed : AreMixed (a :: b :: rest) := by
        cases k
        · exact ⟨⟨b, by simp, hb⟩, a, by simp, ha⟩
        · exact ⟨⟨a, by simp, ha⟩, b, by simp, hb⟩
      exact ⟨fun h => ⟨(Except.error.inj h).symm, hmixed⟩, fun h => h.1 ▸ rfl⟩
    | ok c =>
      rw [← areMixed_of_addBranch hadd rest]
      exact ih

/-- Branches have their common number, or both numbers if two of them differ. -/
theorem num_of_foldlM_addBranch {rest : List Summary} (h : rest.foldlM addBranch a = .ok c) :
    c.num = if ∀ b ∈ rest, b.num = a.num then a.num else some .both := by
  induction rest generalizing a with
  | nil =>
    cases h
    simp
  | cons b rest ih =>
    rw [List.foldlM_cons] at h
    obtain ⟨d, hd, h⟩ := bind_eq_ok.mp h
    rw [ih h, addBranch_eq_ok hd]
    dsimp only
    by_cases hnum : a.num = b.num
    · simp [hnum]
    · simp [hnum, Ne.symm hnum]

/-- Branches tell of the words of all of them. -/
theorem Tells.foldlM_addBranch (ha : a.Tells groups) {rest : List Summary}
    (hrest : List.Forall₂ (fun b words => b.Tells [words]) rest others)
    (h : rest.foldlM addBranch a = .ok c) : c.Tells (groups ++ others) := by
  induction hrest generalizing a groups with
  | nil =>
    cases h
    rwa [List.append_nil]
  | @cons b words _ _ hb _ ih =>
    rw [List.foldlM_cons] at h
    obtain ⟨d, hd, h⟩ := bind_eq_ok.mp h
    have hpart := ha.addPart hb
    have hadd : d.Tells (groups ++ [words]) := by
      rw [addBranch_eq_ok hd]
      exact ⟨⟨hpart.loc, hpart.gender, hpart.isAdj⟩, hpart.propses⟩
    simpa using ih hadd h

end Summary

namespace PlainRun
variable {t : Tables} {text : List Char} {r : PlainRun}

/-- The summary of a plain run is that of its words, in one group. -/
theorem tells_of_read (h : read t text = .ok r) : r.summary.Tells [r.segments] := by
  obtain ⟨words, _, h⟩ := bind_eq_ok.mp h
  have hwords : (words.map Piece.word).filterMap Piece.segment? = words := by
    simp [List.filterMap_map, Function.comp_def, Piece.segment?]
  have hread : r.segments = words ∧ r.summary =
      { words.foldl Summary.addSegment {} with
        propses := if (words.map Segment.prop).isEmpty then [] else [words.map Segment.prop] } := by
    split at h
    · cases h
      exact ⟨hwords, rfl⟩
    · obtain ⟨l, _, h⟩ := bind_eq_ok.mp h
      cases h
      refine ⟨?_, rfl⟩
      rw [segments, List.filterMap_append, hwords]
      exact List.append_nil words
  rw [hread.1, hread.2]
  have hdescribes := Summary.Describes.nil.foldl_addSegment words
  refine ⟨⟨?_, ?_, ?_⟩, ?_⟩
  · simpa using hdescribes.loc
  · simpa using hdescribes.gender
  · simpa using hdescribes.isAdj
  · cases words <;> rfl

theorem isAdj_of_read (h : read t text = .ok r) (k : Bool) :
    r.summary.isAdj = some k ↔ r.segments ≠ [] ∧ r.segments.all (·.isAdj) = k := by
  rw [(tells_of_read h).isAdj, List.flatten_singleton]
  by_cases hempty : r.segments = [] <;> simp [hempty]

end PlainRun
end Declension
