import Declension.Proofs.Blocks
import Declension.Proofs.RunLaws
import Declension.Run.Reader
import Declension.Tables.Latin

/-!
# Slots that have forms

A word without a form for a slot empties that slot for its whole run. A word of a regular class has
forms for all cases in its own gender, an adjective in the masculine that stands in for the others,
and the passes over its forms empty nothing. So every slot of a run of such words has forms, a
locative if it is in use. Main statement: `Run.forms_ne_nil_of_isRegular`.
-/
namespace Declension

namespace Slot

def isLocative : Slot → Bool
  | cell .loc _ _ => true
  | _ => false

/-- The slot in a gender, or without one. -/
def inGender (g : Option Gender) : Slot → Slot
  | cell c n _ => cell c n g
  | linked n _ => linked n g

theorem agreeing_eq_inGender (g : Gender) (s : Slot) : s.agreeing g = s.inGender (some g) := by
  cases s <;> rfl

theorem inGender_none_of_mem_run {s : Slot} (h : s ∈ run false) : s.inGender none = s := by
  revert s
  decide

theorem masculine?_getD {s : Slot} (h : s ∈ run true) :
    s.masculine?.getD s = s.inGender (some .m) := by
  revert s
  decide

end Slot

namespace FormMap
variable {m : FormMap} {slot : Slot} {forms : List String} {rows : Rows}

/-- Whether every slot that is filled has a form. -/
def NoneEmpty (m : FormMap) : Prop := ∀ slot, m.get? slot ≠ some []

theorem NoneEmpty.forms_ne_nil (h : m.NoneEmpty) (hslot : m.contains slot) :
    m.forms slot ≠ [] := by
  obtain ⟨forms, hforms⟩ := Option.isSome_iff_exists.mp hslot
  have hne := h slot
  rw [FormMap.forms, hforms]
  rw [hforms] at hne
  exact fun hnil => hne (congrArg some hnil)

theorem NoneEmpty.insert (h : m.NoneEmpty) (hforms : forms ≠ []) :
    NoneEmpty (OrderedMap.insert m slot forms) := by
  intro other
  rw [OrderedMap.get?_insert]
  split
  · exact fun hnil => hforms (Option.some.inj hnil)
  · exact h other

theorem noneEmpty_ofList (h : ∀ row ∈ rows, row.2 ≠ []) : NoneEmpty (.ofList rows) := by
  intro slot hnil
  rw [OrderedMap.get?_ofList] at hnil
  exact h _ (List.mem_reverse.mp (OrderedMap.mem_of_find hnil)) rfl

end FormMap

namespace Noun
variable {w : Lexeme} {rows : Rows} {m : FormMap}

theorem forms_ne_nil_of_mem_blocks : ∀ b ∈ blocks, ∀ row ∈ b, row.2 ≠ [] := by
  decide

/-- A noun has all cases in both numbers, the locative if it is in use. -/
theorem IsMadeOf.contains (h : IsMadeOf w rows m) {c : Case} (n : Number)
    (hloc : c = .loc → w.loc) : m.contains (.cell c n none) := by
  by_cases hc : c = .loc
  · subst hc
    have hmem : Slot.cell .loc n none ∈ [Slot.sg .loc, .pl .loc] := by cases n <;> decide
    cases h.locative with
    | as_set hset => exact OrderedMap.contains_ofList.mpr (hset (hloc rfl) _ hmem)
    | third | fourth =>
      cases n
      all_goals
        refine (OrderedMap.contains_insert _ _ _ _).mpr ?_
        first
          | exact .inl rfl
          | exact .inr ((OrderedMap.contains_insert _ _ _ _).mpr (.inl rfl))
  · have hcell : ∀ c n, c ≠ .loc → .cell c n none ∈ cells ∧
        .cell c n none ∉ [Slot.sg .loc, .pl .loc] := by
      intro c n
      cases c <;> cases n <;> decide
    obtain ⟨hmem, hnot⟩ := hcell c n hc
    rw [OrderedMap.contains, h.locative.get? hnot]
    exact OrderedMap.isSome_find_iff.mpr (h.keys _ hmem)

theorem IsMadeOf.noneEmpty (h : IsMadeOf w rows m) : m.NoneEmpty := by
  have hrows : FormMap.NoneEmpty (.ofList rows) :=
    FormMap.noneEmpty_ofList (h.builtFrom.forms_ne_nil forms_ne_nil_of_mem_blocks)
  have hcells : ∀ slot ∈ cells, FormMap.forms (.ofList rows) slot ≠ [] := fun slot hslot =>
    hrows.forms_ne_nil (OrderedMap.contains_ofList.mpr (h.keys slot hslot))
  have hsg : FormMap.forms (.ofList rows) (.sg .abl) ≠ [] := hcells _ (by decide)
  have hpl : FormMap.forms (.ofList rows) (.pl .abl) ≠ [] := hcells _ (by decide)
  cases h.locative with
  | as_set _ => exact hrows
  | third =>
    refine (hrows.insert ?_).insert hpl
    obtain ⟨form, hform⟩ := List.exists_mem_of_ne_nil _ hsg
    exact List.ne_nil_of_mem ((mem_addNew _ _).mpr (.inr hform))
  | fourth => exact (hrows.insert hsg).insert hpl

end Noun

namespace Adjective
variable {rows : Rows}

theorem forms_ne_nil_of_mem_blocks : ∀ b ∈ blocks, ∀ row ∈ b, row.2 ≠ [] := by
  decide

theorem IsMadeOf.contains (h : IsMadeOf rows) (c : Case) (n : Number) :
    (OrderedMap.ofList rows).contains (.cell c n (some .m)) := by
  have hcell : ∀ c n, .cell c n (some .m) ∈ cells := by
    intro c n
    cases c <;> cases n <;> decide
  exact OrderedMap.contains_ofList.mpr (h.keys _ (hcell c n))

theorem IsMadeOf.noneEmpty (h : IsMadeOf rows) : FormMap.NoneEmpty (.ofList rows) :=
  FormMap.noneEmpty_ofList (h.builtFrom.forms_ne_nil forms_ne_nil_of_mem_blocks)

end Adjective

namespace Segment
variable {s : Segment} {e : Engine} {w : Lexeme} {p : Paradigm} {m : FormMap} {slot : Slot}

/-- The gender that a word always has forms in: none for a noun, the masculine for an adjective. -/
def baseGender (s : Segment) : Option Gender := if s.isAdj then some .m else none

/-- What a word of a regular class is declined to has no empty slot, and all cases in the base
gender. -/
theorem complete_paradigm (h : s.paradigm e w = .ok p) (hs : s.IsRegular) :
    p.forms.NoneEmpty ∧
      ∀ c n, (c = .loc → w.loc) → p.forms.contains (.cell c n s.baseGender) := by
  unfold baseGender
  cases hadj : s.isAdj with
  | true =>
    obtain ⟨c, q, hc, hq, hforms⟩ := exists_class_of_adjective h hadj
    obtain ⟨rows, hrows, hofList⟩ := Adjective.exists_isMadeOf hq (hs.adjective_class hadj hc)
    rw [hforms, hofList]
    exact ⟨hrows.noneEmpty, fun c n _ => hrows.contains c n⟩
  | false =>
    obtain ⟨c, q, hc, hq, hforms⟩ := exists_class_of_noun h hadj
    obtain ⟨hindeclinable, hirregular⟩ := hs.noun_class hadj hc
    obtain ⟨rows, hrows⟩ := Noun.exists_isMadeOf hq hindeclinable hirregular
    rw [hforms]
    exact ⟨hrows.noneEmpty, fun c n hloc => hrows.contains n hloc⟩

theorem contains_rework (s : Segment) (m : FormMap) (slot : Slot) :
    (s.rework m).contains slot = (s.addLinked m).contains slot := by
  unfold OrderedMap.contains
  by_cases h : slot ∈ Slot.run s.isAdj
  · rw [get?_rework h, Option.isSome_map]
  · rw [get?_rework_of_not_mem h]

theorem noneEmpty_addLinked (h : m.NoneEmpty) : (s.addLinked m).NoneEmpty := by
  intro slot
  cases slot with
  | cell c n g =>
    rw [get?_addLinked_cell]
    exact h _
  | linked n g =>
    refine ((get?_foldl_relink s (Slot.lemmaSlots s.isAdj) m).2 n g).trans_ne ?_
    split
    · intro hnil
      obtain ⟨forms, hforms, hmap⟩ := Option.map_eq_some_iff.mp hnil
      exact h _ (List.map_eq_nil_iff.mp hmap ▸ hforms)
    · exact h _

theorem noneEmpty_rework (h : m.NoneEmpty) : (s.rework m).NoneEmpty := by
  intro slot
  by_cases hslot : slot ∈ Slot.run s.isAdj
  · rw [get?_rework hslot]
    intro hnil
    obtain ⟨forms, hforms, hmap⟩ := Option.map_eq_some_iff.mp hnil
    cases forms with
    | nil => exact noneEmpty_addLinked h slot hforms
    | cons form forms =>
      rw [List.flatMap_cons, List.append_eq_nil_iff] at hmap
      exact s.variants_ne_nil form hmap.1
  · rw [get?_rework_of_not_mem hslot]
    exact noneEmpty_addLinked h slot

/-- The nominatives of the base gender are given links. -/
theorem contains_addLinked_base (n : Number) (h : m.contains (.cell .nom n s.baseGender)) :
    (s.addLinked m).contains (.linked n s.baseGender) := by
  have hlemma : ∀ isAdj n, (n, if isAdj then some .m else none) ∈ Slot.lemmaSlots isAdj := by
    intro isAdj n
    cases isAdj <;> cases n <;> decide
  have hget := (get?_foldl_relink s (Slot.lemmaSlots s.isAdj) m).2 n s.baseGender
  rw [if_pos ⟨hlemma s.isAdj n, h⟩] at hget
  refine (congrArg Option.isSome hget).trans ?_
  rw [Option.isSome_map]
  exact h

/-- A word is read in a slot that it has, if it has the slot of its base gender. -/
theorem contains_source {isAdj : Bool} {gender : Option Gender}
    (hfit : s.misfit? isAdj gender = none) (hslot : slot ∈ Slot.run isAdj)
    (h : m.contains (slot.inGender s.baseGender)) :
    m.contains (s.source isAdj gender m slot) := by
  have hchoice : ∀ t t' : Slot, m.contains t' → m.contains (if m.contains t then t else t') := by
    intro t t' ht'
    split
    · assumption
    · exact ht'
  unfold misfit? at hfit
  unfold baseGender at h
  unfold source
  cases isAdj with
  | true =>
    have hadj : s.isAdj = true := by
      by_contra hnoun
      simp [hnoun] at hfit
    rw [hadj, if_pos rfl, ← Slot.masculine?_getD hslot] at h
    cases ht : slot.masculine? with
    | none => simpa [ht] using h
    | some t =>
      rw [ht, Option.getD_some] at h
      exact hchoice slot t h
  | false =>
    simp only [Bool.false_eq_true, if_false]
    cases hadj : s.isAdj with
    | false =>
      rw [hadj, if_neg Bool.false_ne_true, Slot.inGender_none_of_mem_run hslot] at h
      exact h
    | true =>
      rw [hadj, if_pos rfl, ← Slot.agreeing_eq_inGender] at h
      cases gender with
      | none => simp [hadj] at hfit
      | some g => exact hchoice _ _ h

/-- A word of a regular class gives forms to every slot of a run that is used in both numbers, to a
locative if that is in use. -/
theorem forms_ne_nil_of_compose {pos : String} {isAdj : Bool} {run : Summary} {part : Composition}
    (h : s.compose e pos isAdj run = .ok part) (hs : s.IsRegular)
    (hnumber : (s.numberIn run).bind NumberUse.only? = none) (hslot : slot ∈ Slot.run isAdj)
    (hloc : slot.isLocative → run.loc) : (part.cell slot).forms ≠ [] := by
  obtain ⟨p, hp, hfit, rfl, -⟩ := exists_forms_of_compose h
  obtain ⟨hnone, hcases⟩ := complete_paradigm hp hs
  have hfinish : s.finish (s.numberIn run) p.forms = s.rework p.forms := by
    rw [finish_eq, mirrorOnly, hnumber]
  have hbase : (s.rework p.forms).contains (slot.inGender s.baseGender) := by
    rw [contains_rework]
    cases slot with
    | cell c n g =>
      rw [contains_addLinked s p.forms rfl]
      refine hcases c n ?_
      rintro rfl
      exact hloc rfl
    | linked n g =>
      have hnominative : Case.nom ≠ .loc := by decide
      exact contains_addLinked_base n (hcases .nom n (absurd · hnominative))
  have hread := contains_source hfit hslot hbase
  rw [forms_contribution, readAt, hfinish, Ne, List.map_eq_nil_iff]
  exact (noneEmpty_rework hnone).forms_ne_nil hread

end Segment

/-- Cells with forms for a choice of slots stay so when they are strung together and merged. -/
theorem isLaw_forms_ne_nil (slots : Slot → Prop) :
    IsLaw [] fun cells => ∀ slot, slots slot → (cells slot).forms ≠ [] where
  text shown linked slot hslot := List.cons_ne_nil _ _
  append ha hb slot hslot := by
    obtain ⟨front, hfront⟩ := List.exists_mem_of_ne_nil _ (ha slot hslot)
    obtain ⟨back, hback⟩ := List.exists_mem_of_ne_nil _ (hb slot hslot)
    exact List.ne_nil_of_mem (List.mem_flatMap.mpr ⟨front, hfront, List.mem_map_of_mem hback⟩)
  merge ha _ slot hslot := by
    obtain ⟨form, hform⟩ := List.exists_mem_of_ne_nil _ (ha slot hslot)
    exact List.ne_nil_of_mem ((mem_addNew _ _).mpr (.inl hform))
  blank := nofun
  mirror := nofun

/-- In a run of regular words that nothing restricts to one number, every slot has forms, a locative
if it is in use in the run. -/
theorem Run.forms_ne_nil_of_isRegular {e : Engine} {pos : String} {isAdj : Bool} {r : Run}
    {comp : Composition} (h : r.compose e pos isAdj = .ok comp)
    (hregular : ∀ s ∈ r.declined, s.IsRegular) (hnumber : r.onlyNumbers = []) :
    ∀ slot ∈ Slot.run isAdj, (slot.isLocative → r.summary.loc) → (comp.cell slot).forms ≠ [] := by
  have hlaw := isLaw_forms_ne_nil fun slot =>
    slot ∈ Slot.run isAdj ∧ (slot.isLocative → r.summary.loc)
  rw [← hnumber] at hlaw
  have hforms := law_of_compose hlaw h fun s run huse part hpart => ?_
  · exact fun slot hslot hloc => hforms slot ⟨hslot, hloc⟩
  · rintro slot ⟨hslot, hloc⟩
    refine Segment.forms_ne_nil_of_compose hpart (hregular s (List.mem_map_of_mem huse)) ?_ hslot
      fun hlocative => loc_of_mem_uses huse (hloc hlocative)
    rw [Option.eq_none_iff_forall_not_mem]
    intro n hn
    have hmem := mem_onlyNumbers_of_use huse hn
    rw [hnumber] at hmem
    cases hmem

/-- Two nouns as alternatives, of which one brings the locative into use, before an adjective. -/
theorem Run.forms_ne_nil_of_urbs_and_civitas :
    ∃ r comp, Run.read .latin "((urbs<3.loc>,cīvitās<3>)) magna<1&2+>" = .ok r ∧
      r.compose ⟨.latin, {}⟩ "nouns" false = .ok comp ∧ (∀ s ∈ r.declined, s.IsRegular) ∧
      r.onlyNumbers = [] ∧ r.summary.loc ∧
      (comp.cell (.pl .loc)).forms = ["urbibus magnīs", "cīvitātibus magnīs"] ∧
      ∀ slot ∈ Slot.run false, (comp.cell slot).forms ≠ [] := by
  obtain ⟨r, comp, hr, hcomp, hregular, hnumber, hloc, hforms⟩ :
      ∃ r comp, Run.read .latin "((urbs<3.loc>,cīvitās<3>)) magna<1&2+>" = .ok r ∧
        r.compose ⟨.latin, {}⟩ "nouns" false = .ok comp ∧ (∀ s ∈ r.declined, s.IsRegular) ∧
        r.onlyNumbers = [] ∧ r.summary.loc ∧
        (comp.cell (.pl .loc)).forms = ["urbibus magnīs", "cīvitātibus magnīs"] :=
    ⟨_, _, rfl, rfl, by decide, by decide, rfl, by decide +kernel⟩
  exact ⟨r, comp, hr, hcomp, hregular, hnumber, hloc, hforms, fun slot hslot =>
    forms_ne_nil_of_isRegular hcomp hregular hnumber slot hslot fun _ => hloc⟩

end Declension
