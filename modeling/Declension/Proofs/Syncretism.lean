import Declension.Proofs.Blocks
import Declension.Proofs.RunLaws
import Declension.Run.Reader
import Declension.Tables.Latin

/-!
# Cases that share their forms

In the plural every regular word has one form for dative and ablative, and a regular noun one for
nominative and vocative. The endings come in blocks that set both slots of such a pair alike, and a
run that is not restricted to the singular keeps what its words agree in. Main statement:
`Run.forms_eq_of_isRegular`.
-/
namespace Declension

theorem Noun.find_dative_plural : ∀ b ∈ blocks,
    OrderedMap.find (.pl .dat) b.reverse = OrderedMap.find (.pl .abl) b.reverse := by
  decide

theorem Noun.find_nominative_plural : ∀ b ∈ blocks,
    OrderedMap.find (.pl .nom) b.reverse = OrderedMap.find (.pl .voc) b.reverse := by
  decide

theorem Adjective.find_dative_plural (g : Gender) : ∀ b ∈ blocks,
    OrderedMap.find (.cell .dat .pl (some g)) b.reverse =
      OrderedMap.find (.cell .abl .pl (some g)) b.reverse := by
  cases g <;> decide

namespace Segment
variable {s : Segment} {e : Engine} {w : Lexeme} {p : Paradigm}

theorem get?_eq_of_noun (h : s.paradigm e w = .ok p) (hs : s.IsRegular) (hadj : s.isAdj = false)
    {x y : Slot} (hx : x ∉ [.sg .loc, .pl .loc]) (hy : y ∉ [.sg .loc, .pl .loc])
    (hblocks : ∀ b ∈ Noun.blocks,
      OrderedMap.find x b.reverse = OrderedMap.find y b.reverse) :
    p.forms.get? x = p.forms.get? y := by
  obtain ⟨c, q, hc, hq, hforms⟩ := exists_class_of_noun h hadj
  obtain ⟨hindeclinable, hirregular⟩ := hs.noun_class hadj hc
  obtain ⟨rows, hrows⟩ := Noun.exists_isMadeOf hq hindeclinable hirregular
  rw [hforms, hrows.locative.get? hx, hrows.locative.get? hy, hrows.builtFrom.find_eq hblocks]

theorem get?_eq_of_adjective (h : s.paradigm e w = .ok p) (hs : s.IsRegular)
    (hadj : s.isAdj = true) {x y : Slot} (hblocks : ∀ b ∈ Adjective.blocks,
      OrderedMap.find x b.reverse = OrderedMap.find y b.reverse) :
    p.forms.get? x = p.forms.get? y := by
  obtain ⟨c, q, hc, hq, hforms⟩ := exists_class_of_adjective h hadj
  obtain ⟨rows, hrows, hofList⟩ := Adjective.exists_isMadeOf hq (hs.adjective_class hadj hc)
  rw [hforms, hofList, OrderedMap.get?_ofList, OrderedMap.get?_ofList,
    hrows.builtFrom.find_eq hblocks]

/-- Dative and ablative plural are read alike, in the cells of the word's gender and in the
masculine ones that stand in for them. -/
theorem read_dative_plural (h : s.paradigm e w = .ok p) (hs : s.IsRegular) {g : Option Gender}
    (hg : g.isSome = s.isAdj) :
    p.forms.read (.cell .dat .pl g) = p.forms.read (.cell .abl .pl g) := by
  cases g with
  | none =>
    have hget := get?_eq_of_noun h hs hg.symm (by decide) (by decide) Noun.find_dative_plural
    simp [FormMap.read, Slot.masculine?, hget]
  | some g =>
    have hget : ∀ g, p.forms.get? (.cell .dat .pl (some g)) =
        p.forms.get? (.cell .abl .pl (some g)) := fun g =>
      get?_eq_of_adjective h hs hg.symm (Adjective.find_dative_plural g)
    cases g <;> simp [FormMap.read, Slot.masculine?, hget]

theorem read_nominative_plural (h : s.paradigm e w = .ok p) (hs : s.IsRegular)
    (hadj : s.isAdj = false) :
    p.forms.read (.cell .nom .pl none) = p.forms.read (.cell .voc .pl none) := by
  have hget := get?_eq_of_noun h hs hadj (by decide) (by decide) Noun.find_nominative_plural
  simp [FormMap.read, Slot.masculine?, hget]

end Segment

namespace Run
variable {e : Engine} {pos : String} {isAdj : Bool} {r : Run} {comp : Composition}

/-- If nothing in a run of regular words is restricted to the singular, its dative plural is its
ablative plural, in every gender, and its nominative plural is its vocative plural if all its
words are nouns. -/
theorem forms_eq_of_isRegular (h : r.compose e pos isAdj = .ok comp)
    (hregular : ∀ s ∈ r.declined, s.IsRegular) (hnumber : .sg ∉ r.onlyNumbers) :
    (∀ g, .cell .dat .pl g ∈ Slot.run isAdj →
      (comp.cell (.cell .dat .pl g)).forms = (comp.cell (.cell .abl .pl g)).forms) ∧
    ((∀ s ∈ r.declined, s.isAdj = false) → ∀ g, .cell .nom .pl g ∈ Slot.run isAdj →
      (comp.cell (.cell .nom .pl g)).forms = (comp.cell (.cell .voc .pl g)).forms) := by
  have hcells : ∀ isAdj, ∀ slot ∈ Slot.run isAdj, slot.isLinked = false → ∀ c ∈ Case.all,
      .cell c slot.number slot.gender? ∈ Slot.run isAdj := by
    decide
  have hdeclined : ∀ s run, (s, run) ∈ r.uses → s ∈ r.declined := fun s run huse =>
    List.mem_map_of_mem huse
  constructor
  · intro g hg
    refine forms_eq_of_read_eq h hnumber hg (hcells isAdj _ hg rfl .abl (by decide)) ?_
    intro s run huse p hp _ k hk _
    exact Segment.read_dative_plural hp (hregular s (hdeclined s run huse)) hk
  · intro hnouns g hg
    refine forms_eq_of_read_eq h hnumber hg (hcells isAdj _ hg rfl .voc (by decide)) ?_
    intro s run huse p hp _ k hk _
    have hnoun := hnouns s (hdeclined s run huse)
    rw [hnoun, Option.isSome_eq_false_iff, Option.isNone_iff_eq_none] at hk
    subst hk
    exact Segment.read_nominative_plural hp (hregular s (hdeclined s run huse)) hnoun

/-- Two nouns as alternatives, one of them used in the plural only, before a third one. -/
theorem forms_eq_of_filia_and_liberi :
    ∃ r comp, Run.read .latin "((fīlia<1.abus>,līberī<2.pl>)) et puella<1>" = .ok r ∧
      r.compose ⟨.latin, {}⟩ "nouns" false = .ok comp ∧ (∀ s ∈ r.declined, s.IsRegular) ∧
      .sg ∉ r.onlyNumbers ∧ (∀ s ∈ r.declined, s.isAdj = false) ∧
      .pl .dat ∈ Slot.run false ∧ .pl .nom ∈ Slot.run false ∧
      (comp.cell (.pl .dat)).forms = ["fīliābus et puellīs", "līberīs et puellīs"] ∧
      (comp.cell (.pl .dat)).forms = (comp.cell (.pl .abl)).forms ∧
      (comp.cell (.pl .nom)).forms = (comp.cell (.pl .voc)).forms := by
  obtain ⟨r, comp, hr, hcomp, hregular, hnumber, hnouns, hforms⟩ :
      ∃ r comp, Run.read .latin "((fīlia<1.abus>,līberī<2.pl>)) et puella<1>" = .ok r ∧
        r.compose ⟨.latin, {}⟩ "nouns" false = .ok comp ∧ (∀ s ∈ r.declined, s.IsRegular) ∧
        .sg ∉ r.onlyNumbers ∧ (∀ s ∈ r.declined, s.isAdj = false) ∧
        (comp.cell (.pl .dat)).forms = ["fīliābus et puellīs", "līberīs et puellīs"] :=
    ⟨_, _, rfl, rfl, by decide, by decide, by decide, by decide +kernel⟩
  have hdative : .pl .dat ∈ Slot.run false := by decide
  have hnominative : .pl .nom ∈ Slot.run false := by decide
  obtain ⟨hsame, hcalled⟩ := forms_eq_of_isRegular hcomp hregular hnumber
  exact ⟨r, comp, hr, hcomp, hregular, hnumber, hnouns, hdative, hnominative, hforms,
    hsame none hdative, hcalled hnouns none hnominative⟩

end Run
end Declension
