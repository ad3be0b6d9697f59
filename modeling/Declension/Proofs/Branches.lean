import Declension.Proofs.Parentheses
import Declension.Proofs.Reading
import Declension.Proofs.Summaries

/-!
# The branches of an alternant

An alternant is read branch by branch, and refused if its branches are of two kinds. Every comma
between its parentheses divides branches, one inside a link too. Main statement: `branches_of_join`,
with `[[aqua, vīta]]` for the link that is cut in two.
-/
namespace Declension
open Text

namespace PlainRun

/-- Whether the words of a branch are all adjectives, and some word of the other is none. -/
def Mixes (b c : PlainRun) : Prop :=
  (b.segments ≠ [] ∧ ∀ s ∈ b.segments, s.isAdj) ∧ ∃ s ∈ c.segments, ¬ s.isAdj

instance (b c : PlainRun) : Decidable (b.Mixes c) := inferInstanceAs (Decidable (_ ∧ _))

variable {t : Tables} {texts : List (List Char)} {branches : List PlainRun}

/-- The summaries of branches are mixed just if their words are. -/
theorem areMixed_summaries (h : ReadEach t texts branches) :
    Summary.AreMixed (branches.map summary) ↔ ∃ b ∈ branches, ∃ c ∈ branches, b.Mixes c := by
  have hkind : ∀ b ∈ branches, ∀ k, b.summary.isAdj = some k ↔
      b.segments ≠ [] ∧ b.segments.all (·.isAdj) = k :=
    forall_mem_of_forall₂ h fun _ _ => isAdj_of_read
  have hadjectives : ∀ b ∈ branches, b.summary.isAdj = some true ↔
      b.segments ≠ [] ∧ ∀ s ∈ b.segments, s.isAdj := by
    intro b hb
    rw [hkind b hb, List.all_eq_true]
  have hnoun : ∀ b ∈ branches, b.summary.isAdj = some false ↔ ∃ s ∈ b.segments, ¬ s.isAdj := by
    intro b hb
    rw [hkind b hb, List.all_eq_false]
    refine and_iff_right_of_imp ?_
    rintro ⟨s, hs, -⟩
    exact List.ne_nil_of_mem hs
  simp only [Summary.AreMixed, List.mem_map, exists_exists_and_eq_and]
  constructor
  · rintro ⟨⟨b, hb, hadj⟩, c, hc, hnot⟩
    exact ⟨b, hb, c, hc, (hadjectives b hb).mp hadj, (hnoun c hc).mp hnot⟩
  · rintro ⟨b, hb, c, hc, hadj, hnot⟩
    exact ⟨⟨b, hb, (hadjectives b hb).mpr hadj⟩, c, hc, (hnoun c hc).mpr hnot⟩

end PlainRun

namespace Alternant
variable {t : Tables} {text inside : List Char} {branches : List PlainRun} {a : Alternant}

theorem read_eq_error (hinside : alternantInside? text = some inside)
    (h : PlainRun.ReadEach t (fieldsChars ',' inside) branches) {f : Fault} :
    read t text = .error f ↔ f = .mixedAlternant ∧ ∃ b ∈ branches, ∃ c ∈ branches, b.Mixes c := by
  have hne : branches ≠ [] := by
    rintro rfl
    simpa [length_fieldsChars] using h.length_eq
  obtain ⟨b, rest, rfl⟩ := List.exists_cons_of_ne_nil hne
  rw [read_eq hinside h, map_eq_error, Summary.foldlM_addBranch_eq_error, ← List.map_cons,
    PlainRun.areMixed_summaries h]

/-- An alternant with readable branches of one kind is read, with just these branches. -/
theorem exists_read (hinside : alternantInside? text = some inside)
    (h : PlainRun.ReadEach t (fieldsChars ',' inside) branches)
    (hkind : ∀ b ∈ branches, ∀ c ∈ branches, ¬ b.Mixes c) :
    ∃ a, read t text = .ok a ∧ a.branches = branches := by
  cases hread : read t text with
  | error f =>
    obtain ⟨-, b, hb, c, hc, hmixes⟩ := (read_eq_error hinside h).mp hread
    exact absurd hmixes (hkind b hb c hc)
  | ok a =>
    obtain ⟨inside', b, rest, s, hinside', hall, -, rfl⟩ := exists_of_read hread
    cases hinside.symm.trans hinside'
    exact ⟨_, rfl, Except.ok.inj ((mapM_eq_ok.mpr hall).symm.trans (mapM_eq_ok.mpr h))⟩

theorem length_flatMap_fieldsChars (texts : List String) :
    (texts.flatMap (fieldsChars ',' ·.toList)).length =
      texts.length + (texts.flatMap String.toList).count ',' := by
  induction texts with
  | nil => rfl
  | cons text texts ih =>
    simp only [List.flatMap_cons, List.length_append, List.length_cons, List.count_append,
      length_fieldsChars, ih]
    omega

theorem length_branches_of_join {texts : List String} (hne : texts ≠ [])
    (h : read t (writtenAlternant (join "," texts).toList) = .ok a) :
    a.branches.length = texts.length + (texts.flatMap String.toList).count ',' := by
  obtain ⟨inside, b, branches, s, hinside, hall, -, rfl⟩ := exists_of_read h
  cases (alternantInside?_written _).symm.trans hinside
  rw [← hall.length_eq, fieldsChars_join_eq_flatMap rfl hne, length_flatMap_fieldsChars]

/-- Texts that are read on their own, of one kind, are the branches of the alternant they are
joined to just if no comma stands in any of them: each comma divides branches. -/
theorem branches_of_join {texts : List String} {branches : List PlainRun} (hne : texts ≠ [])
    (h : PlainRun.ReadEach t (texts.map String.toList) branches)
    (hkind : ∀ b ∈ branches, ∀ c ∈ branches, ¬ b.Mixes c) :
    (∀ a, read t (writtenAlternant (join "," texts).toList) = .ok a →
      a.branches.length = texts.length + (texts.flatMap String.toList).count ',') ∧
    ((∃ a, read t (writtenAlternant (join "," texts).toList) = .ok a ∧ a.branches = branches) ↔
      ∀ text ∈ texts, ',' ∉ text.toList) := by
  refine ⟨fun a => length_branches_of_join hne, ?_, fun hcomma => ?_⟩
  · rintro ⟨a, ha, rfl⟩
    have hlength := length_branches_of_join hne ha
    rw [← h.length_eq, List.length_map] at hlength
    have hcomma : ',' ∉ texts.flatMap String.toList :=
      List.count_eq_zero.mp (Nat.left_eq_add.mp hlength)
    exact fun text htext hmem => hcomma (List.mem_flatMap.mpr ⟨text, htext, hmem⟩)
  · have hfields : fieldsChars ',' (join "," texts).toList = texts.map String.toList :=
      fieldsChars_join rfl hne hcomma
    exact exists_read (alternantInside?_written _) (hfields ▸ h) hkind

/-- Three branches, of a noun with a linked one beside it, of a noun, and without words. -/
theorem branches_of_join_of_three :
    ∃ branches, PlainRun.ReadEach .latin
        (["[[aqua vīta]]<1> [[rēs]]<5>", "puella<1.sg>", "xyz"].map String.toList) branches ∧
      (∀ b ∈ branches, ∀ c ∈ branches, ¬ b.Mixes c) ∧
      ∃ a, read .latin (writtenAlternant
          (join "," ["[[aqua vīta]]<1> [[rēs]]<5>", "puella<1.sg>", "xyz"]).toList) = .ok a ∧
        a.branches = branches := by
  obtain ⟨branches, h, hkind⟩ : ∃ branches, PlainRun.ReadEach .latin
        (["[[aqua vīta]]<1> [[rēs]]<5>", "puella<1.sg>", "xyz"].map String.toList) branches ∧
      ∀ b ∈ branches, ∀ c ∈ branches, ¬ b.Mixes c :=
    ⟨_, .cons rfl (.cons rfl (.cons rfl .nil)), by decide +kernel⟩
  exact ⟨branches, h, hkind, (branches_of_join (by decide) h hkind).2.mpr (by decide)⟩

/-- A comma inside a link divides branches, and cuts the link in two. -/
theorem not_branches_of_join_of_aqua_vita :
    ∃ branches, PlainRun.ReadEach .latin
        (["[[aqua, vīta]]<1>", "puella<1>"].map String.toList) branches ∧
      (∀ b ∈ branches, ∀ c ∈ branches, ¬ b.Mixes c) ∧
      read .latin (writtenAlternant (join "," ["[[aqua, vīta]]<1>", "puella<1>"]).toList) =
        .error (.nounEnding "1" "vīta]]") :=
  ⟨_, .cons rfl (.cons rfl .nil), by decide +kernel, rfl⟩

end Alternant
end Declension
