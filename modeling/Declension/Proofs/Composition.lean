import Declension.Composition
import Declension.Proofs.Cell
import Declension.Proofs.Distinct
import Declension.Proofs.Outcome

/-!
# Stringing compositions together

Compositions form a monoid on those that runs yield: what a run yields is told by its parts in
order, however they are grouped. Main statement: `compose_append`, by which a run may be cut at
any node.
-/
namespace Declension

namespace Composition

/-- A composition as runs yield it: normal cells, and nothing listed twice. -/
structure IsNormal (c : Composition) : Prop where
  cell : ∀ slot, (c.cell slot).IsNormal
  categories : c.categories.Nodup
  footnotes : c.footnotes.Nodup

theorem isNormal_unit : unit.IsNormal :=
  ⟨fun _ => Cell.isNormal_unit, List.nodup_nil, List.nodup_nil⟩

theorem IsNormal.append {a : Composition} (h : a.IsNormal) (b : Composition) :
    (a.append b).IsNormal where
  cell _ := Cell.isNormal_append _ _
  categories := nodup_addNew h.categories _
  footnotes := nodup_addNew h.footnotes _

theorem append_assoc (a b c : Composition) : (a.append b).append c = a.append (b.append c) := by
  simp only [append, Cell.append_assoc, List.append_assoc, addNew_assoc, Bool.and_assoc,
    Bool.or_assoc]

theorem IsNormal.append_unit {c : Composition} (h : c.IsNormal) : c.append unit = c := by
  have hcell : ∀ slot, (c.cell slot).append Cell.unit = c.cell slot := fun slot =>
    (h.cell slot).append_unit
  simp only [Composition.append, unit, hcell, List.append_nil, addNew_nil, Bool.and_true,
    Bool.or_false]

theorem IsNormal.append_unit_append {a : Composition} (h : a.IsNormal) (b : Composition) :
    a.append (unit.append b) = a.append b := by
  rw [← append_assoc, h.append_unit]

theorem isNormal_foldl {a : Composition} (h : a.IsNormal) (parts : List Composition) :
    (parts.foldl append a).IsNormal := by
  induction parts generalizing a with
  | nil => exact h
  | cons b parts ih => exact ih (h.append b)

theorem isNormal_concat (parts : List Composition) : (concat parts).IsNormal :=
  isNormal_foldl isNormal_unit parts

/-- Parts strung one by one onto a composition are the parts strung together, then strung on. -/
theorem IsNormal.foldl_append {a : Composition} (h : a.IsNormal) (parts : List Composition) :
    parts.foldl Composition.append a = a.append (concat parts) := by
  induction parts generalizing a with
  | nil => exact h.append_unit.symm
  | cons b parts ih =>
    have hconcat : concat (b :: parts) = (unit.append b).append (concat parts) :=
      ih (isNormal_unit.append b)
    calc (b :: parts).foldl Composition.append a
        = (a.append b).append (concat parts) := ih (h.append b)
      _ = a.append (b.append (concat parts)) := append_assoc _ _ _
      _ = a.append (unit.append (b.append (concat parts))) := (h.append_unit_append _).symm
      _ = a.append (concat (b :: parts)) := by rw [hconcat, append_assoc unit]

theorem concat_append (as bs : List Composition) :
    concat (as ++ bs) = (concat as).append (concat bs) := by
  rw [concat, List.foldl_append]
  exact (isNormal_concat as).foldl_append bs

/-- Strings normal compositions together: categories and footnotes of the second follow those of
the first, less what is there already. -/
theorem append_eq {b : Composition} (a : Composition) (h : b.IsNormal) :
    a.append b =
      { cell := fun slot => (a.cell slot).append (b.cell slot)
        titles := a.titles ++ b.titles
        subtitles := a.subtitles ++ b.subtitles
        wordTitles := a.wordTitles ++ b.wordTitles
        categories := a.categories ++ b.categories.filter (· ∉ a.categories)
        footnotes := a.footnotes ++ b.footnotes.filter (· ∉ a.footnotes)
        voc := a.voc && b.voc
        noneut := a.noneut || b.noneut } := by
  rw [append, addNew_of_nodup _ h.categories, addNew_of_nodup _ h.footnotes]

end Composition

namespace Run
variable (e : Engine) (pos : String) (isAdj : Bool)

theorem compose_eq_ok {r : Run} {c : Composition} :
    r.compose e pos isAdj = .ok c ↔
      ∃ parts, List.Forall₂ (fun node part => node.compose e pos isAdj r.summary = .ok part)
        r.nodes parts ∧ Composition.concat parts = c := by
  rw [compose, bind_eq_ok]
  constructor
  · rintro ⟨parts, hparts, h⟩
    exact ⟨parts, mapM_eq_ok.mp hparts, Except.ok.inj h⟩
  · rintro ⟨parts, hparts, rfl⟩
    exact ⟨parts, mapM_eq_ok.mpr hparts, rfl⟩

theorem isNormal_of_compose {r : Run} {c : Composition} (h : r.compose e pos isAdj = .ok c) :
    c.IsNormal := by
  obtain ⟨parts, _, rfl⟩ := (compose_eq_ok e pos isAdj).mp h
  exact Composition.isNormal_concat parts

/-- A run may be cut at any node: it is declined by declining its two ends in turn, and fails as
the first of them that fails. Forms pair up slot by slot with their notes, categories and
footnotes of the second end are added where new, the vocative is in use if it is in both ends,
and a neuter is lacking if it is in one. -/
theorem compose_append (front back : List Node) (s : Summary) :
    compose e pos isAdj ⟨front ++ back, s⟩ = (do
      let a ← compose e pos isAdj ⟨front, s⟩
      let b ← compose e pos isAdj ⟨back, s⟩
      return {
        cell := fun slot => (a.cell slot).append (b.cell slot)
        titles := a.titles ++ b.titles
        subtitles := a.subtitles ++ b.subtitles
        wordTitles := a.wordTitles ++ b.wordTitles
        categories := a.categories ++ b.categories.filter (· ∉ a.categories)
        footnotes := a.footnotes ++ b.footnotes.filter (· ∉ a.footnotes)
        voc := a.voc && b.voc
        noneut := a.noneut || b.noneut }) := by
  simp only [compose, List.mapM_append, bind_assoc, pure_bind]
  congr 1
  funext as
  congr 1
  funext bs
  rw [Composition.concat_append, Composition.append_eq _ (Composition.isNormal_concat bs)]

end Run
end Declension
