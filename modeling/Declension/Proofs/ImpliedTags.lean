import Declension.Proofs.NounCitation

/-!
# What the ending of a noun implies

A table gives no trait that goes against what is written of a noun. Plural nouns of the third
declension and Greek nouns in -ō are read without a table, and their traits are not held against
what is written. Main statement: `Tables.contradicts_iff_of_classifyNoun`, which says when a trait
goes against what is written.
-/
namespace Declension

/-- A trait goes against what is written of a noun: its veto is written, another gender beside
which a noun is not neuter or not living, or the other number. -/
inductive Contradicts (written : TagSet) : Tag → Prop
  | vetoed {u : Tag} (h : .veto u ∈ written) : Contradicts written u
  | neuter (h : .has .M ∈ written ∨ .has .F ∈ written) : Contradicts written (.has .N)
  | masculine (h : .has .N ∈ written) : Contradicts written (.has .M)
  | feminine (h : .has .N ∈ written) : Contradicts written (.has .F)
  | singular (h : .has .pl ∈ written) : Contradicts written (.has .sg)
  | plural (h : .has .sg ∈ written) : Contradicts written (.has .pl)

theorem nounClash_iff {written : TagSet} {u : Tag} :
    EndingEntry.nounClash written u ↔ Contradicts written u := by
  have hclash : EndingEntry.nounClash written u ↔
      ((((.veto u ∈ written ∨ u = .has .N ∧ (.has .M ∈ written ∨ .has .F ∈ written)) ∨
        (u = .has .M ∨ u = .has .F) ∧ .has .N ∈ written) ∨ u = .has .sg ∧ .has .pl ∈ written) ∨
        u = .has .pl ∧ .has .sg ∈ written) := by
    simp [EndingEntry.nounClash, TagSet.has]
  rw [hclash]
  constructor
  · rintro ((((h | ⟨rfl, h⟩) | ⟨rfl | rfl, h⟩) | ⟨rfl, h⟩) | ⟨rfl, h⟩)
    · exact .vetoed h
    · exact .neuter h
    · exact .masculine h
    · exact .feminine h
    · exact .singular h
    · exact .plural h
  · rintro (h | h | h | h | h | h)
    · exact .inl (.inl (.inl (.inl h)))
    · exact .inl (.inl (.inl (.inr ⟨rfl, h⟩)))
    · exact .inl (.inl (.inr ⟨.inl rfl, h⟩))
    · exact .inl (.inl (.inr ⟨.inr rfl, h⟩))
    · exact .inl (.inr ⟨rfl, h⟩)
    · exact .inr ⟨rfl, h⟩

section Traits
variable {written : TagSet}

theorem contradicts_neuter_iff : Contradicts written (.has .N) ↔
    .veto (.has .N) ∈ written ∨ .has .M ∈ written ∨ .has .F ∈ written := by
  constructor
  · intro h
    cases h with
    | vetoed h => exact .inl h
    | neuter h => exact .inr h
  · exact fun h => h.elim .vetoed .neuter

theorem contradicts_feminine_iff : Contradicts written (.has .F) ↔
    .veto (.has .F) ∈ written ∨ .has .N ∈ written := by
  constructor
  · intro h
    cases h with
    | vetoed h => exact .inl h
    | feminine h => exact .inr h
  · exact fun h => h.elim .vetoed .feminine

theorem contradicts_singular_iff : Contradicts written (.has .sg) ↔
    .veto (.has .sg) ∈ written ∨ .has .pl ∈ written := by
  constructor
  · intro h
    cases h with
    | vetoed h => exact .inl h
    | singular h => exact .inr h
  · exact fun h => h.elim .vetoed .singular

theorem contradicts_iff_of_isKind {x : Trait} (hx : x.isKind) (hN : x ≠ .N) :
    Contradicts written (.has x) ↔ .veto (.has x) ∈ written := by
  constructor
  · intro h
    cases h with
    | vetoed h => exact h
    | neuter => exact absurd rfl hN
    | masculine | feminine | singular | plural => cases hx
  · exact .vetoed

end Traits

theorem Admits.not_contradicts {written : TagSet} {tags : List Tag} (h : Admits written tags) :
    ∀ u ∈ tags, ¬ Contradicts written u := by
  intro u hu hcontra
  have hclash := nounClash_iff.mpr hcontra
  rw [h.clash u hu] at hclash
  cases hclash

theorem admits_nil {written : TagSet} (hpl : written.has .pl = false) : Admits written [] :=
  ⟨fun h => absurd h (by simp [hpl]), fun _ hu => absurd hu List.not_mem_nil⟩

namespace Tables
variable {t : Tables} {word decl : String} {oblique : Option String} {written : TagSet}
  {found : Classification}

theorem admits_traitsFrom (hpl : written.has .pl = false) (table : EndingTable) (stem : String) :
    Admits written (traitsFrom table word stem written) := by
  unfold traitsFrom
  cases hmatch : matchNoun table.entries word (some stem) written with
  | none => exact admits_nil hpl
  | some pair =>
    obtain ⟨_, _, _, _, hadmits⟩ := mem_of_matchNoun hmatch
    exact hadmits

theorem admits_of_classifyThird (hpl : written.has .pl = false)
    (h : t.classifyThird word oblique written = .ok found) : Admits written found.tags := by
  rw [classifyThird, hpl] at h
  simp only [Bool.false_eq_true, if_false] at h
  split at h
  · obtain ⟨table, _, h⟩ := bind_eq_ok.mp h
    cases h
    exact admits_traitsFrom hpl table _
  split at h
  · obtain ⟨table, _, h⟩ := bind_eq_ok.mp h
    split at h
    · rename_i hmatch
      cases h
      obtain ⟨_, _, _, _, hadmits⟩ := mem_of_matchNoun hmatch
      exact hadmits
    · obtain ⟨table, _, h⟩ := bind_eq_ok.mp h
      cases h
      exact admits_traitsFrom hpl table _
  · obtain ⟨table, _, h⟩ := bind_eq_ok.mp h
    cases h
    exact admits_traitsFrom hpl table _

theorem admits_of_classifyByTable {base : String} {tags : List Tag}
    (h : t.classifyByTable word oblique decl written = .ok (base, tags)) : Admits written tags := by
  obtain ⟨table, htable, _⟩ := bind_eq_ok.mp h
  obtain ⟨_, _, _, _, hadmits⟩ := mem_of_classifyByTable htable h
  exact hadmits

/-- The endings of Greek plurals, with the types they tell. -/
def greekPlurals : List (String × Trait) := [("erēs", .er), ("ontēs", .on)]

/-- What is written of a plural noun of the third declension goes against a trait that its ending
gives it all the same. -/
inductive OverlooksPlural (word : String) (written : TagSet) : Prop
  /-- Plurals in -a are neuter. -/
  | neuter (hgreek : .has .Greek ∉ written)
    (hending : ∃ ending ∈ ["ia", "a"], (Text.before ending word).isSome)
    (h : .veto (.has .N) ∈ written ∨ .has .M ∈ written ∨ .has .F ∈ written)
  /-- Plurals in -ia are pure i-stems. -/
  | pureIStem (hgreek : .has .Greek ∉ written) (hending : (Text.before "ia" word).isSome)
    {x : Trait} (hx : x ∈ [Trait.I, .pure]) (h : .veto (.has x) ∈ written)
  | greek (hgreek : .has .Greek ∈ written) {ending : String} {x : Trait}
    (hx : (ending, x) ∈ greekPlurals) (hending : (Text.before ending word).isSome)
    (h : .veto (.has x) ∈ written)

/-- What is written of a noun in -ō goes against a trait that it is given all the same. -/
inductive OverlooksLongO (written : TagSet) : Prop
  /-- Nouns in -ō are feminine. -/
  | feminine (h : .veto (.has .F) ∈ written ∨ .has .N ∈ written)
  /-- Names like Callistō are singular. -/
  | singular (htype : .has .Callisto ∈ written)
    (h : .veto (.has .sg) ∈ written ∨ .has .pl ∈ written)

theorem mem_tags_of_classifyGreekPlural (h : classifyGreekPlural word oblique = .ok found)
    {u : Tag} : u ∈ found.tags ↔
      ∃ p ∈ greekPlurals, (Text.before p.1 word).isSome ∧ u = .has p.2 := by
  simp only [greekPlurals, List.exists_mem_cons_iff, List.not_mem_nil, false_and, exists_false,
    or_false]
  unfold classifyGreekPlural at h
  split at h
  · rename_i base her
    have hon : Text.before "ontēs" word = none :=
      Text.before_eq_none her (by decide) (by decide)
    cases h
    simp [her, hon]
  · rename_i base her hon
    cases h
    simp [her, hon]
  · rename_i her hon hstem
    cases h
    obtain ⟨base, _, rfl⟩ := Option.map_eq_some_iff.mp hstem
    simp [her, hon]
  · cases h

theorem mem_tags_of_classifyThirdPlural (hgreek : written.has .Greek = false)
    (h : classifyThirdPlural word oblique written = .ok found) {u : Tag} : u ∈ found.tags ↔
      u = .has .N ∧ (∃ ending ∈ ["ia", "a"], (Text.before ending word).isSome) ∨
      (u = .has .I ∨ u = .has .pure) ∧ (Text.before "ia" word).isSome := by
  have hstem : ∀ ending tags, pluralStem word oblique ending tags =
      (Text.before ending word).map fun base =>
        ⟨(given oblique).getD base, some ((given oblique).getD base), "3", tags⟩ :=
    fun _ _ => rfl
  rw [classifyThirdPlural, hgreek] at h
  simp only [Bool.false_eq_true, if_false, hstem] at h
  simp only [List.exists_mem_cons_iff, List.not_mem_nil, false_and, exists_false, or_false]
  cases hia : Text.before "ia" word with
  | some base =>
    rw [hia] at h
    cases h
    simp
  | none =>
    cases ha : Text.before "a" word with
    | some base =>
      rw [hia, ha] at h
      cases h
      simp
    | none =>
      rw [hia, ha] at h
      cases hes : Text.before "ēs" word with
      | some base =>
        rw [hes] at h
        cases h
        simp
      | none =>
        rw [hes] at h
        cases h

theorem mem_tags_of_classifyLongO (h : classifyLongO word written = .ok found) {u : Tag} :
    u ∈ found.tags ↔ u = .has .F ∨ u = .has .sg ∧ .has .Callisto ∈ written := by
  unfold classifyLongO at h
  split at h
  · cases h
    by_cases hcallisto : .has .Callisto ∈ written <;> simp [TagSet.has, hcallisto]
  · cases h

theorem contradicts_iff_of_classifyThirdPlural
    (h : classifyThirdPlural word oblique written = .ok found) :
    (∃ u ∈ found.tags, Contradicts written u) ↔ OverlooksPlural word written := by
  cases hgreek : written.has .Greek with
  | true =>
    have hmem : .has .Greek ∈ written := TagSet.has_iff.mp hgreek
    have hkind : ∀ p ∈ greekPlurals, p.2.isKind ∧ p.2 ≠ .N := by decide
    rw [classifyThirdPlural, if_pos hgreek] at h
    constructor
    · rintro ⟨u, hu, hcontra⟩
      obtain ⟨p, hp, hending, rfl⟩ := (mem_tags_of_classifyGreekPlural h).mp hu
      obtain ⟨hx, hN⟩ := hkind p hp
      exact .greek hmem hp hending ((contradicts_iff_of_isKind hx hN).mp hcontra)
    · intro hover
      cases hover with
      | neuter hnot | pureIStem hnot => exact absurd hmem hnot
      | @greek _ ending x hx hending hveto =>
        exact ⟨.has x, (mem_tags_of_classifyGreekPlural h).mpr ⟨_, hx, hending, rfl⟩,
          .vetoed hveto⟩
  | false =>
    have hnot : .has .Greek ∉ written := by
      rw [← TagSet.has_iff, hgreek]
      exact Bool.false_ne_true
    have hmem : ∀ u, u ∈ found.tags ↔ _ := fun u =>
      mem_tags_of_classifyThirdPlural hgreek h (u := u)
    constructor
    · rintro ⟨u, hu, hcontra⟩
      rcases (hmem u).mp hu with ⟨rfl, hending⟩ | ⟨rfl | rfl, hending⟩
      · exact .neuter hnot hending (contradicts_neuter_iff.mp hcontra)
      · exact .pureIStem hnot hending (by decide : Trait.I ∈ [Trait.I, .pure])
          ((contradicts_iff_of_isKind rfl (by decide)).mp hcontra)
      · exact .pureIStem hnot hending (by decide : Trait.pure ∈ [Trait.I, .pure])
          ((contradicts_iff_of_isKind rfl (by decide)).mp hcontra)
    · intro hover
      cases hover with
      | neuter _ hending hagainst =>
        exact ⟨.has .N, (hmem _).mpr (.inl ⟨rfl, hending⟩), contradicts_neuter_iff.mpr hagainst⟩
      | @pureIStem _ hending x hx hveto =>
        have hx : Tag.has x = .has .I ∨ Tag.has x = .has .pure := by
          simpa using hx
        exact ⟨.has x, (hmem _).mpr (.inr ⟨hx, hending⟩), .vetoed hveto⟩
      | greek hgreek => exact absurd hgreek hnot

theorem contradicts_iff_of_classifyLongO (h : classifyLongO word written = .ok found) :
    (∃ u ∈ found.tags, Contradicts written u) ↔ OverlooksLongO written := by
  have hmem : ∀ u, u ∈ found.tags ↔ _ := fun u => mem_tags_of_classifyLongO h (u := u)
  constructor
  · rintro ⟨u, hu, hcontra⟩
    rcases (hmem u).mp hu with rfl | ⟨rfl, htype⟩
    · exact .feminine (contradicts_feminine_iff.mp hcontra)
    · exact .singular htype (contradicts_singular_iff.mp hcontra)
  · intro hover
    cases hover with
    | feminine hagainst =>
      exact ⟨.has .F, (hmem _).mpr (.inl rfl), contradicts_feminine_iff.mpr hagainst⟩
    | singular htype hagainst =>
      exact ⟨.has .sg, (hmem _).mpr (.inr ⟨rfl, htype⟩), contradicts_singular_iff.mpr hagainst⟩

/-- The Greek types in -ō of the fourth declension. -/
def longOTypes : List Trait := [.echo, .argo, .Callisto]

theorem isLongO_iff :
    (written.has .echo || written.has .argo || written.has .Callisto) = true ↔
      ∃ x ∈ longOTypes, .has x ∈ written := by
  simp [longOTypes, TagSet.has, or_assoc]

theorem not_exists_contradicts (h : Admits written found.tags) :
    ¬ ∃ u ∈ found.tags, Contradicts written u := by
  rintro ⟨u, hu, hcontra⟩
  exact h.not_contradicts u hu hcontra

/-- The classes but the third are read by their tables, the fourth if the noun is none in -ō. -/
theorem classifyByTable_of_classifyNoun (hdecl : decl ∈ ["1", "2", "4", "5"])
    (hlong : decl = "4" → ¬ ∃ x ∈ longOTypes, .has x ∈ written)
    (h : t.classifyNoun word oblique decl written = .ok found) :
    t.classifyByTable word oblique decl written = .ok (found.stem, found.tags) := by
  by_cases hfourth : decl = "4"
  · subst hfourth
    rw [classifyNoun, Bool.eq_false_iff.mpr (mt isLongO_iff.mp (hlong rfl))] at h
    obtain ⟨⟨base, tags⟩, htable, h⟩ := bind_eq_ok.mp h
    cases h
    exact htable
  · have hother : decl ∈ ["1", "2", "5"] := by
      simpa [hfourth] using hdecl
    simp only [List.mem_cons, List.not_mem_nil, or_false] at hother
    rcases hother with rfl | rfl | rfl
    all_goals
      obtain ⟨⟨base, tags⟩, htable, h⟩ := bind_eq_ok.mp h
      cases h
      exact htable

/-- A trait that the ending of a noun of the five declensions implies goes against what is written
only in two cases: with plurals of the third declension, and with the Greek types in -ō of the
fourth. What is written is overlooked there. -/
theorem contradicts_iff_of_classifyNoun (hdecl : decl ∈ ["1", "2", "3", "4", "5"])
    (h : t.classifyNoun word oblique decl written = .ok found) :
    (∃ u ∈ found.tags, Contradicts written u) ↔
      decl = "3" ∧ .has .pl ∈ written ∧ OverlooksPlural word written ∨
      decl = "4" ∧ (∃ x ∈ longOTypes, .has x ∈ written) ∧ OverlooksLongO written := by
  by_cases hthird : decl = "3"
  · subst hthird
    rw [classifyNoun, if_neg (by decide), if_pos rfl] at h
    by_cases hpl : written.has .pl
    · rw [classifyThird, if_pos hpl] at h
      simp [contradicts_iff_of_classifyThirdPlural h, TagSet.has_iff.mp hpl]
    · have hadmits := admits_of_classifyThird (Bool.eq_false_iff.mpr hpl) h
      rw [TagSet.has_iff] at hpl
      simp [not_exists_contradicts hadmits, hpl]
  by_cases hfourth : decl = "4" ∧ ∃ x ∈ longOTypes, .has x ∈ written
  · obtain ⟨rfl, hlong⟩ := hfourth
    rw [classifyNoun, isLongO_iff.mpr hlong] at h
    simp [contradicts_iff_of_classifyLongO h, hlong]
  · have hlong : decl = "4" → ¬ ∃ x ∈ longOTypes, .has x ∈ written := not_and.mp hfourth
    have hother : decl ∈ ["1", "2", "4", "5"] := by
      simpa [hthird] using hdecl
    have hadmits :=
      admits_of_classifyByTable (classifyByTable_of_classifyNoun hother hlong h)
    simp only [not_exists_contradicts hadmits, hthird, false_and, false_or, false_iff]
    rintro ⟨hdecl, htype, _⟩
    exact hlong hdecl htype

/-- A neuter in -us, which the table knows as a masculine too. -/
theorem contradicts_iff_of_vulgus :
    ∃ found, latin.classifyNoun "vulgus" none "2" [.has .N, .veto (.has .ius)] = .ok found ∧
      "2" ∈ ["1", "2", "3", "4", "5"] ∧ found.tags = [.has .N, .has .us] ∧
      ¬ ∃ u ∈ found.tags, Contradicts [.has .N, .veto (.has .ius)] u := by
  obtain ⟨found, h, htags⟩ : ∃ found,
      latin.classifyNoun "vulgus" none "2" [.has .N, .veto (.has .ius)] = .ok found ∧
      found.tags = [.has .N, .has .us] := ⟨_, rfl, rfl⟩
  refine ⟨found, h, by decide, htags, ?_⟩
  rw [contradicts_iff_of_classifyNoun (by decide) h]
  rintro (⟨hdecl, _⟩ | ⟨hdecl, _⟩)
  · exact absurd hdecl (by decide)
  · exact absurd hdecl (by decide)

/-- A plural that is barred from being neuter is made one by its ending. -/
theorem contradicts_of_maria :
    ∃ found, latin.classifyNoun "maria" none "3" [.has .pl, .veto (.has .N)] = .ok found ∧
      ∃ u ∈ found.tags, Contradicts [.has .pl, .veto (.has .N)] u :=
  ⟨_, rfl, .has .N, by decide, .vetoed (by decide)⟩

end Tables
end Declension
