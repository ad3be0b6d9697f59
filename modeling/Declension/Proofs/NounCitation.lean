import Declension.Proofs.Reading
import Declension.Proofs.Validation
import Declension.Tables.Latin

/-!
# The citation form of nouns

The ending of a noun tells its stem and traits, and declining puts an ending back that depends on
all traits of the word. Main statement: `Segment.citation_of_noun`, by which the lemma comes back as
the only nominative in the number the word was read in.
-/
namespace Declension

/-- What may be written of a noun: gender, number, and vetoes. -/
def IsNounTag (u : Tag) : Prop := isGenderTag u ∨ isNumberTag u ∨ ∃ v, u = .veto v

def Tag.isPositive : Tag → Bool
  | has _ => true
  | _ => false

/-- Tags that may come with an ending: they give traits, and at most one gender and one number. -/
structure IsCoherent (tags : List Tag) : Prop where
  positive : ∀ t ∈ tags, t.isPositive
  gender : ∀ t ∈ tags, ∀ u ∈ tags, isGenderTag t → isGenderTag u → t = u
  number : ∀ t ∈ tags, ∀ u ∈ tags, isNumberTag t → isNumberTag u → t = u

/-- The written tags let an entry with these tags apply. -/
structure Admits (written : TagSet) (tags : List Tag) : Prop where
  plural : written.has .pl → .has .pl ∈ tags
  clash : ∀ t ∈ tags, EndingEntry.nounClash written t = false

theorem admits_of_nounExcluded {e : EndingEntry} {written : TagSet}
    (h : e.nounExcluded written = false) : Admits written e.tags := by
  rw [EndingEntry.nounExcluded, Bool.or_eq_false_iff, EndingEntry.missesPlural,
    List.any_eq_false] at h
  refine ⟨fun hpl => ?_, fun t ht => by simpa using h.2 t ht⟩
  simpa [hpl] using h.1

/-- Whether a tag of some kind is there. -/
def Given (written : TagSet) (kind : Tag → Bool) : Prop := ∃ u ∈ written, kind u

theorem mem_implyNoun {written : TagSet} {t u : Tag} (hveto : .veto t ∉ written) :
    u ∈ implyNoun written t ↔ u ∈ written ∨ u = t ∧
      (isGenderTag t → ¬ Given written isGenderTag) ∧
      (isNumberTag t → ¬ Given written isNumberTag) := by
  have hany : ∀ kind : Tag → Bool, written.any kind = true ↔ Given written kind := fun kind => by
    simp [Given]
  have hnot : ¬ written.contains (.veto t) = true := by
    simpa using hveto
  unfold implyNoun
  rw [if_neg hnot]
  split_ifs with hgender hnumber
  · rw [Bool.and_eq_true, hany] at hgender
    tauto
  · rw [Bool.and_eq_true, hany] at hnumber
    tauto
  · rw [Bool.and_eq_true, hany] at hgender hnumber
    rw [TagSet.mem_add]
    tauto

/-- The traits of an ending come to those that are written, save that a written gender or number
stays alone. -/
theorem mem_foldl_implyNoun {tags : List Tag} {written : TagSet} (htags : IsCoherent tags)
    (hveto : ∀ t ∈ tags, .veto t ∉ written) {u : Tag} :
    u ∈ tags.foldl implyNoun written ↔ u ∈ written ∨ u ∈ tags ∧
      (isGenderTag u → ¬ Given written isGenderTag) ∧
      (isNumberTag u → ¬ Given written isNumberTag) := by
  induction tags generalizing written with
  | nil => simp
  | cons t tags ih =>
    have hcoherent : IsCoherent tags :=
      ⟨fun s hs => htags.positive s (List.mem_cons_of_mem t hs),
        fun s hs v hv => htags.gender s (List.mem_cons_of_mem t hs) v (List.mem_cons_of_mem t hv),
        fun s hs v hv => htags.number s (List.mem_cons_of_mem t hs) v (List.mem_cons_of_mem t hv)⟩
    have hstep : ∀ v, v ∈ implyNoun written t ↔ _ := fun v =>
      mem_implyNoun (u := v) (hveto t List.mem_cons_self)
    have hrest : ∀ s ∈ tags, .veto s ∉ implyNoun written t := by
      intro s hs hmem
      rcases (hstep _).mp hmem with hwritten | ⟨rfl, _⟩
      · exact hveto s (List.mem_cons_of_mem t hs) hwritten
      · cases htags.positive _ List.mem_cons_self
    have hgiven : ∀ kind : Tag → Bool, Given (implyNoun written t) kind →
        Given written kind ∨ kind t := by
      rintro kind ⟨v, hv, hkind⟩
      rcases (hstep v).mp hv with hwritten | ⟨rfl, _⟩
      · exact .inl ⟨v, hwritten, hkind⟩
      · exact .inr hkind
    have hkept : ∀ kind : Tag → Bool, Given written kind → Given (implyNoun written t) kind :=
      fun kind ⟨v, hv, hkind⟩ => ⟨v, (hstep v).mpr (.inl hv), hkind⟩
    rw [List.foldl_cons, ih hcoherent hrest, hstep, List.mem_cons]
    constructor
    · rintro ((hwritten | ⟨rfl, hnew⟩) | ⟨hmem, hgender, hnumber⟩)
      · exact .inl hwritten
      · exact .inr ⟨.inl rfl, hnew⟩
      · exact .inr ⟨.inr hmem, fun h hw => hgender h (hkept _ hw),
          fun h hw => hnumber h (hkept _ hw)⟩
    · rintro (hwritten | ⟨hmem, hgender, hnumber⟩)
      · exact .inl (.inl hwritten)
      · by_cases hut : u = t
        · subst hut
          exact .inl (.inr ⟨rfl, hgender, hnumber⟩)
        · have hu : u ∈ tags := hmem.resolve_left hut
          refine .inr ⟨hu, fun h hw => ?_, fun h hw => ?_⟩
          · rcases hgiven _ hw with hw | ht
            · exact hgender h hw
            · exact hut (htags.gender u (List.mem_cons_of_mem t hu) t List.mem_cons_self h ht)
          · rcases hgiven _ hw with hw | ht
            · exact hnumber h hw
            · exact hut (htags.number u (List.mem_cons_of_mem t hu) t List.mem_cons_self h ht)

/-- A noun as it is read: its stems, the traits that its ending and its fields come to, and the
number they tell. -/
structure Segment.IsNoun (s : Segment) (decl : String) (found : Classification) (traits : TagSet) :
    Prop where
  isAdj : s.isAdj = false
  decl : s.decl = decl
  stem : s.stem = found.stem
  oblique : s.oblique = found.oblique
  has : ∀ x : Trait, x.isKind → s.tags.has x = traits.has x
  plural : s.num = some .pl ↔ traits.has .pl
  singular : s.num = some .sg → traits.has .sg ∨ ¬ traits.has .both

theorem has_ite_add_sg (isSingular : Bool) (traits : TagSet) {x : Trait} (hx : x ≠ .sg) :
    TagSet.has (if isSingular then traits.add (.has .sg) else traits) x = traits.has x := by
  split
  · rw [Bool.eq_iff_iff, TagSet.has_iff, TagSet.has_iff, TagSet.mem_add]
    simp [hx]
  · rfl

theorem isNoun_settle (decl : String) (headword : HeadwordClass) (found : Classification)
    (word linkedWord : String) (traits : TagSet) :
    (settle decl headword false found word linkedWord
      (if !traits.has .pl && !traits.has .both && isProperName word then traits.add (.has .sg)
        else traits)).IsNoun decl found traits := by
  refine ⟨rfl, rfl, rfl, rfl, fun x hx => ?_, ?_, ?_⟩
  · obtain ⟨hloc, hsg, hpl⟩ := not_told_of_isKind hx
    rw [has_settle hloc hsg hpl, has_ite_add_sg _ _ hsg]
  · rw [num_settle, has_ite_add_sg _ _ (by decide : Trait.pl ≠ .sg)]
    cases traits.has .pl
    · simp
    · simp
  · rw [num_settle, has_ite_add_sg _ _ (by decide : Trait.pl ≠ .sg)]
    intro hnum
    cases hboth : traits.has .both with
    | false => exact .inr (by simp)
    | true =>
      left
      cases hsg : traits.has .sg with
      | true => rfl
      | false => cases hpl : traits.has .pl <;> simp [hpl, hsg, hboth] at hnum

theorem exists_classification_of_nounSegment {t : Tables} {word linkedWord decl : String}
    {oblique : Option String} {written : TagSet} {s : Segment}
    (h : nounSegment t word linkedWord oblique decl written = .ok s) :
    ∃ found, t.classifyNoun word oblique decl written = .ok found ∧
      s.IsNoun decl found (found.tags.foldl implyNoun written) := by
  obtain ⟨found, hfound, h⟩ := bind_eq_ok.mp h
  refine ⟨found, hfound, ?_⟩
  rw [← Except.ok.inj h]
  exact isNoun_settle _ _ _ _ _ _

/-- The number that tags of an ending are for. -/
def endingNumber (tags : List Tag) : Number := if .has .pl ∈ tags then .pl else .sg

theorem isGenderTag_of_isKind {x : Trait} (hx : x.isKind) (hN : x ≠ .N) :
    isGenderTag (.has x) = false := by
  cases x <;> first | exact absurd rfl hN | rfl | cases hx

theorem not_mem_of_isKind {written : TagSet} (hwritten : ∀ u ∈ written, IsNounTag u) {x : Trait}
    (hx : x.isKind) (hN : x ≠ .N) : .has x ∉ written := by
  intro hmem
  rcases hwritten _ hmem with h | h | ⟨v, h⟩
  · rw [isGenderTag_of_isKind hx hN] at h
    cases h
  · rw [isNumberTag_of_isKind hx] at h
    cases h
  · cases h

theorem not_has_of_isKind {written : TagSet} (hwritten : ∀ u ∈ written, IsNounTag u) {x : Trait}
    (hx : x.isKind) (hN : x ≠ .N) : written.has x = false := by
  rw [Bool.eq_false_iff, ne_eq, TagSet.has_iff]
  exact not_mem_of_isKind hwritten hx hN

section Kind
variable {written : TagSet} {tags : List Tag} (hwritten : ∀ u ∈ written, IsNounTag u)
  (htags : IsCoherent tags) (hadmits : Admits written tags)

include htags hadmits in
theorem mem_traits {u : Tag} : u ∈ tags.foldl implyNoun written ↔ u ∈ written ∨ u ∈ tags ∧
    (isGenderTag u → ¬ Given written isGenderTag) ∧
    (isNumberTag u → ¬ Given written isNumberTag) := by
  apply mem_foldl_implyNoun htags
  intro t ht hveto
  have hclash := hadmits.clash t ht
  simp [EndingEntry.nounClash, hveto] at hclash

include hwritten htags hadmits in
theorem has_traits {x : Trait} (hx : x.isKind) (hneuter : x ≠ .N) :
    TagSet.has (tags.foldl implyNoun written) x = TagSet.has tags x := by
  rw [Bool.eq_iff_iff, TagSet.has_iff, TagSet.has_iff, mem_traits htags hadmits]
  simp [not_mem_of_isKind hwritten hx hneuter, isGenderTag_of_isKind hx hneuter,
    isNumberTag_of_isKind hx]

include htags hadmits in
/-- An ending that tells a gender tells whether the noun is neuter. -/
theorem has_N_traits (hgender : Given tags isGenderTag) :
    TagSet.has (tags.foldl implyNoun written) .N = TagSet.has tags .N := by
  rw [Bool.eq_iff_iff, TagSet.has_iff, TagSet.has_iff, mem_traits htags hadmits]
  constructor
  · rintro (hN | ⟨hN, _⟩)
    · obtain ⟨u, hu, hkind⟩ := hgender
      have hclash := hadmits.clash u hu
      simp only [isGenderTag, Bool.or_eq_true, decide_eq_true_eq] at hkind
      rcases hkind with (rfl | rfl) | rfl
      · simp [EndingEntry.nounClash, TagSet.has, hN] at hclash
      · simp [EndingEntry.nounClash, TagSet.has, hN] at hclash
      · exact hu
    · exact hN
  · intro hN
    by_cases hgiven : Given written isGenderTag
    · obtain ⟨u, hu, hkind⟩ := hgiven
      have hclash := hadmits.clash _ hN
      simp only [isGenderTag, Bool.or_eq_true, decide_eq_true_eq] at hkind
      rcases hkind with (rfl | rfl) | rfl
      · simp [EndingEntry.nounClash, TagSet.has, hu] at hclash
      · simp [EndingEntry.nounClash, TagSet.has, hu] at hclash
      · exact .inl hu
    · exact .inr ⟨hN, fun _ => hgiven, fun h => by cases h⟩

include htags hadmits in
/-- A noun is read in the number of its ending, or in none. -/
theorem num_eq_endingNumber {s : Segment} {decl : String} {found : Classification}
    (hs : s.IsNoun decl found (tags.foldl implyNoun written)) {n : Number} (hn : s.num = some n) :
    n = endingNumber tags := by
  have hmem : ∀ u, u ∈ tags.foldl implyNoun written ↔ _ := fun u =>
    mem_traits htags hadmits (u := u)
  unfold endingNumber
  split_ifs with hpl
  · cases n with
    | pl => rfl
    | sg =>
      have hclash := hadmits.clash _ hpl
      have hsg : .has .sg ∉ written := by
        intro h
        simp [EndingEntry.nounClash, TagSet.has, h] at hclash
      have hnot : .has .pl ∉ tags.foldl implyNoun written := by
        intro h
        have := hs.plural.mpr (TagSet.has_iff.mpr h)
        rw [hn] at this
        cases this
      rw [hmem] at hnot
      have hgiven : Given written isNumberTag := by
        by_contra hnone
        exact hnot (.inr ⟨hpl, fun h => (by cases h), fun _ => hnone⟩)
      have hboth : .has .both ∈ written := by
        obtain ⟨u, hu, hkind⟩ := hgiven
        simp only [isNumberTag, Bool.or_eq_true, decide_eq_true_eq] at hkind
        rcases hkind with (rfl | rfl) | rfl
        · exact absurd hu hsg
        · exact absurd (.inl hu) hnot
        · exact hu
      rcases hs.singular hn with h | h
      · rw [TagSet.has_iff, hmem] at h
        rcases h with h | ⟨_, _, h⟩
        · exact absurd h hsg
        · exact absurd hgiven (h rfl)
      · rw [TagSet.has_iff, hmem] at h
        exact absurd (.inl hboth) h
  · cases n with
    | sg => rfl
    | pl =>
      have h := hs.plural.mp hn
      rw [TagSet.has_iff, hmem] at h
      rcases h with h | ⟨h, _⟩
      · exact absurd (hadmits.plural (TagSet.has_iff.mpr h)) hpl
      · exact absurd h hpl

end Kind

theorem mem_of_matchNoun {entries : List EndingEntry} {word : String} {oblique : Option String}
    {written : TagSet} {base : String} {tags : List Tag}
    (h : matchNoun entries word oblique written = some (base, tags)) :
    ∃ e ∈ entries, e.tags = tags ∧ e.ending.base? word = some base ∧ Admits written tags := by
  obtain ⟨⟨e, found⟩, hfirst, hpair⟩ := Option.map_eq_some_iff.mp h
  cases hpair
  obtain ⟨hmem, hbase⟩ := mem_of_firstWithBase hfirst
  unfold EndingEntry.nounBase? at hbase
  split at hbase
  · cases hbase
  · rename_i hexcluded
    obtain ⟨hbase, _⟩ := Option.filter_eq_some_iff.mp hbase
    obtain ⟨hbase, _⟩ := Option.filter_eq_some_iff.mp hbase
    exact ⟨e, hmem, rfl, hbase, admits_of_nounExcluded (by simpa using hexcluded)⟩

theorem mem_of_classifyByTable {t : Tables} {table : EndingTable} {word decl : String}
    {oblique : Option String} {written : TagSet} {base : String} {tags : List Tag}
    (htable : t.nounTable decl = .ok table)
    (h : t.classifyByTable word oblique decl written = .ok (base, tags)) :
    ∃ e ∈ table.entries, e.tags = tags ∧ e.ending.base? word = some base ∧
      Admits written tags := by
  rw [Tables.classifyByTable, htable] at h
  obtain ⟨found, hfound, h⟩ := bind_eq_ok.mp h
  cases hfound
  split at h
  · rename_i hmatch
    cases h
    exact mem_of_matchNoun hmatch
  · cases h

namespace Noun
open OrderedMap FormMap

/-- A paradigm cites a word in a number: the word is its only nominative. -/
def Cites (p : Paradigm) (word : String) (n : Number) : Prop :=
  p.forms.get? (.cell .nom n none) = some [word]

theorem get?_inflect_of_find {stem tail : String} {ending : Ending} {rows : Rows} {slot : Slot}
    (h : find slot rows.reverse = ending.tail?.map fun tail => [tail])
    (htail : ending.tail? = some tail) : (ofList (inflect stem rows)).get? slot =
      some [stem ++ tail] := by
  rw [get?_inflect, h, htail]
  rfl

theorem endings_first {w v : Lexeme} (h : w.SameKind v) : First.endings w = First.endings v := by
  unfold First.endings
  rw [h.has .abus rfl, h.has .am rfl, h.has .Greek rfl, h.has .Ma rfl, h.has .Me rfl, h.loc]

theorem onStem_second (o : Options) {w v : Lexeme} (h : w.SameKind v) :
    Second.onStem o w = Second.onStem o v := by
  unfold Second.onStem Second.neuterType Second.hasOldGenitive
  rw [h.has .N rfl, h.has .ium rfl, h.has .a rfl, h.has .vom rfl, h.has .Greek rfl, h.has .us rfl,
    h.has .er rfl, h.has .ius rfl, h.has .voci rfl, h.has .vos rfl]

theorem onOblique_second {w v : Lexeme} (h : w.SameKind v) :
    Second.onOblique w = Second.onOblique v := by
  unfold Second.onOblique Second.isIStem
  rw [h.has .N rfl, h.has .er rfl, h.has .genplum rfl, h.has .ius rfl, h.has .ium rfl, h.loc]

theorem endings_fourth {w v : Lexeme} (h : w.SameKind v) :
    Fourth.endings w = Fourth.endings v := by
  unfold Fourth.endings
  rw [h.has .echo rfl, h.has .argo rfl, h.has .Callisto rfl, h.has .N rfl, h.has .ubus rfl]

theorem endings_fifth {w v : Lexeme} (h : w.SameKind v) : Fifth.endings w = Fifth.endings v := by
  unfold Fifth.endings
  rw [h.has .i rfl, h.loc]

section Tables
variable {w : Lexeme} {e : EndingEntry} {tail : String} (htail : e.ending.tail? = some tail)
  (hw : w.SameKind (.ofTags e.tags w.loc))
include htail hw

theorem first_cites (he : e ∈ Latin.nounFirst.entries) :
    Cites (first w) (w.stem ++ tail) (endingNumber e.tags) := by
  have htable : ∀ e ∈ Latin.nounFirst.entries, ∀ loc,
      find (.cell .nom (endingNumber e.tags) none) (First.endings (.ofTags e.tags loc)).reverse =
        e.ending.tail?.map fun tail => [tail] := by
    decide
  have hforms : (first w).forms = ofList (inflect w.stem (First.endings w)) := by
    rw [first]
  rw [Cites, hforms, endings_first hw]
  exact get?_inflect_of_find (htable e he w.loc) htail

theorem second_cites (o : Options) (he : e ∈ Latin.nounSecond.entries)
    (hoblique : w.obliqueStem = w.stem) :
    Cites (second o w) (w.stem ++ tail) (endingNumber e.tags) := by
  have htable : ∀ e ∈ Latin.nounSecond.entries, ∀ loc suppress,
      find (.cell .nom (endingNumber e.tags) none)
        (Second.onStem { suppressOldGenitive := suppress } (.ofTags e.tags loc) ++
          Second.onOblique (.ofTags e.tags loc)).reverse =
        e.ending.tail?.map fun tail => [tail] := by
    decide +kernel
  have hforms : (second o w).forms =
      ofList (inflect w.stem (Second.onStem o w ++ Second.onOblique w)) := by
    rw [second, hoblique, inflect, inflect, inflect, List.map_append]
  rw [Cites, hforms, onStem_second o hw, onOblique_second hw]
  exact get?_inflect_of_find (htable e he w.loc o.suppressOldGenitive) htail

theorem fourth_cites (he : e ∈ Latin.nounFourth.entries) :
    Cites (fourth w) (w.stem ++ tail) (endingNumber e.tags) := by
  have htable : ∀ e ∈ Latin.nounFourth.entries, ∀ loc,
      find (.cell .nom (endingNumber e.tags) none) (Fourth.endings (.ofTags e.tags loc)).reverse =
        e.ending.tail?.map fun tail => [tail] := by
    decide
  have hforms : (fourth w).forms.get? (.cell .nom (endingNumber e.tags) none) =
      (ofList (inflect w.stem (Fourth.endings w))).get?
        (.cell .nom (endingNumber e.tags) none) := by
    rw [fourth]
    split <;> simp [Fourth.addLocative]
  rw [Cites, hforms, endings_fourth hw]
  exact get?_inflect_of_find (htable e he w.loc) htail

theorem fifth_cites (he : e ∈ Latin.nounFifth.entries) :
    Cites (fifth w) (w.stem ++ tail) (endingNumber e.tags) := by
  have hstem : Fifth.stem w = w.stem ++ if TagSet.has e.tags .i then "i" else "" := by
    rw [Fifth.stem, hw.has .i rfl]
    split <;> simp_all [Lexeme.has, Lexeme.ofTags]
  have htable : ∀ e ∈ Latin.nounFifth.entries, ∀ loc,
      find (.cell .nom (endingNumber e.tags) none) (Fifth.endings (.ofTags e.tags loc)).reverse =
        some ["ēs"] ∧
      e.ending.tail? = some ((if TagSet.has e.tags .i then "i" else "") ++ "ēs") := by
    decide
  obtain ⟨hfind, hspelling⟩ := htable e he w.loc
  rw [Cites, fifth, get?_inflect, endings_fifth hw, hfind, hstem,
    Option.some.inj (htail.symm.trans hspelling), ← String.append_assoc]
  rfl

end Tables

/-! The third declension leaves the stem of the singular as it is. -/

theorem find_reverse_eq_none {rows : Rows} {slot : Slot} (h : ∀ row ∈ rows, row.1 ≠ slot) :
    find slot rows.reverse = none := by
  rw [find_eq_none, List.map_reverse, List.mem_reverse, List.mem_map]
  rintro ⟨row, hrow, rfl⟩
  exact h row hrow rfl

namespace Third
open Slot

variable {o : Options} {w : Lexeme} {p : Paradigm}

theorem fst_ne_of_mem_inflect {stem : String} {rows : Rows} {slot : Slot}
    (h : ∀ row ∈ rows, row.1 ≠ slot) : ∀ row ∈ inflect stem rows, row.1 ≠ slot := by
  intro row hrow
  obtain ⟨row', hrow', rfl⟩ := List.mem_map.mp hrow
  exact h row' hrow'

theorem kindForms_no_nominative (bareStem : String) :
    ∀ row ∈ kindForms o w bareStem, row.1 ≠ sg .nom := by
  unfold kindForms
  split_ifs
  · exact List.forall_mem_cons.mpr ⟨by simp, fst_ne_of_mem_inflect (by decide)⟩
  · exact List.forall_mem_cons.mpr ⟨by simp, fst_ne_of_mem_inflect (by decide)⟩
  · exact List.forall_mem_cons.mpr ⟨by simp, fst_ne_of_mem_inflect (by decide)⟩
  · apply fst_ne_of_mem_inflect
    unfold iStem
    cases accusative? w <;> cases ablative? w <;> simp
  · simp

/-- The rows of a word that is of no Greek type, without the locative. -/
theorem get?_forms_third (hgreek : w.has .Greek = false) (h : third o w = .ok p) :
    ∃ bare, bareStem w w.stem = .ok bare ∧ ∀ n, p.forms.get? (.cell .nom n none) =
      (find (.cell .nom n none) (kindForms o w bare).reverse).or
        ((find (.cell .nom n none)
          (if w.has .polis then inflect bare inPolis else []).reverse).or
          ((find (.cell .nom n none) (inflect w.obliqueStem oblique).reverse).or
            (find (.cell .nom n none) [(sg .nom, [w.stem]), (sg .voc, [w.stem])].reverse))) := by
  have hnone : greek? w = none := by
    rw [greek?, hgreek]
    rfl
  obtain ⟨stem, hstem, h⟩ := bind_eq_ok.mp h
  obtain ⟨bare, hbare, h⟩ := bind_eq_ok.mp h
  rw [greekStem, hnone] at hstem
  cases hstem
  refine ⟨bare, hbare, fun n => ?_⟩
  rw [← Except.ok.inj h]
  have hforms : (forms o w w.stem bare).get? (.cell .nom n none) = (ofList
      ([(sg .nom, [w.stem]), (sg .voc, [w.stem])] ++ inflect w.obliqueStem oblique ++ [] ++
        (if w.has .polis then inflect bare inPolis else []) ++ kindForms o w bare)).get?
          (.cell .nom n none) := by
    rw [forms, greekForms, hnone]
    split <;> simp [addLocative]
  rw [hforms, get?_ofList, List.append_nil, List.reverse_append, List.reverse_append,
    List.reverse_append, find_append, find_append, find_append]

/-- The stem of the third declension is the nominative singular; in -polis it is put together
again. -/
theorem third_cites_singular (hgreek : w.has .Greek = false) (hline : '\n' ∉ w.stem.toList)
    (h : third o w = .ok p) : Cites p w.stem .sg := by
  obtain ⟨bare, hbare, hforms⟩ := get?_forms_third hgreek h
  have hoblique : find (sg .nom) (inflect w.obliqueStem oblique).reverse = none :=
    find_reverse_eq_none (fst_ne_of_mem_inflect (by decide))
  rw [Cites, hforms, find_reverse_eq_none (kindForms_no_nominative bare), hoblique]
  unfold bareStem at hbare
  split at hbare
  · rename_i hpolis
    have hstem : w.stem = bare ++ "polis" := by
      unfold stemBefore at hbare
      split at hbare
      · rename_i found hfound
        cases hbare
        exact Text.eq_append_of_before hline hfound
      · cases hbare
    have hrow : find (sg .nom) inPolis.reverse = some ["polis"] := by decide
    rw [if_pos hpolis, find_inflect, hrow, hstem]
    rfl
  · rename_i hpolis
    rw [if_neg hpolis]
    rfl

/-- The plurals that are told by their ending alone. -/
def pluralEndings : List (String × List Tag) :=
  [("ia", [.has .N, .has .I, .has .pure]), ("a", [.has .N]), ("ēs", [])]

theorem find_kindForms_neuter (hN : w.has .N) (bare : String) {rows : Rows}
    (hrows : (if !w.has .I then neuter else if w.has .pure then neuterPure else neuterIStem) =
      rows) {tails : List String} (hfind : find (pl .nom) rows.reverse = some tails) :
    find (pl .nom) (kindForms o w bare).reverse = some (tails.map (w.obliqueStem ++ ·)) := by
  rw [kindForms, if_pos hN, hrows, List.reverse_cons, find_append, find_inflect, hfind]
  rfl

theorem kindForms_of_no_traits (hw : ∀ x : Trait, x.isKind → w.has x = false) (bare : String) :
    kindForms o w bare = [] := by
  have hkinds : ∀ c ∈ accusatives ++ ablatives, c.trait.isKind := by decide
  have hcase : ∀ c ∈ accusatives ++ ablatives, ¬ w.has c.trait := by
    intro c hc
    simp [hw _ (hkinds c hc)]
  have haccusative : accusative? w = none :=
    List.find?_eq_none.mpr fun c hc => hcase c (List.mem_append_left _ hc)
  have hablative : ablative? w = none :=
    List.find?_eq_none.mpr fun c hc => hcase c (List.mem_append_right _ hc)
  simp [kindForms, isIStem, hw .N rfl, hw .I rfl, haccusative, hablative]

theorem third_cites_plural {tail : String} {tags : List Tag} (hmem : (tail, tags) ∈ pluralEndings)
    (hw : w.SameKind (.ofTags tags w.loc)) (h : third o w = .ok p) :
    Cites p (w.obliqueStem ++ tail) .pl := by
  have hhas : ∀ x : Trait, x.isKind → w.has x = TagSet.has tags x := hw.has
  have htable : ∀ entry ∈ pluralEndings,
      TagSet.has entry.2 .Greek = false ∧ TagSet.has entry.2 .polis = false := by
    decide
  obtain ⟨hgreek, hpolis⟩ := htable _ hmem
  rw [← hhas .Greek rfl] at hgreek
  rw [← hhas .polis rfl] at hpolis
  obtain ⟨bare, _, hforms⟩ := get?_forms_third hgreek h
  rw [Cites, hforms, hpolis]
  simp only [pluralEndings, List.mem_cons, List.not_mem_nil, or_false, Prod.mk.injEq] at hmem
  rcases hmem with ⟨rfl, rfl⟩ | ⟨rfl, rfl⟩ | ⟨rfl, rfl⟩
  · have hkind : (if !w.has .I then neuter else if w.has .pure then neuterPure else neuterIStem) =
        neuterPure := by
      rw [hhas .I rfl, hhas .pure rfl]
      rfl
    rw [find_kindForms_neuter (hhas .N rfl) bare hkind rfl]
    rfl
  · have hkind : (if !w.has .I then neuter else if w.has .pure then neuterPure else neuterIStem) =
        neuter := by
      rw [hhas .I rfl]
      rfl
    rw [find_kindForms_neuter (hhas .N rfl) bare hkind rfl]
    rfl
  · have hrow : find (pl .nom) oblique.reverse = some ["ēs"] := by decide
    rw [kindForms_of_no_traits hhas bare, find_inflect, hrow]
    rfl

end Third

theorem invariable_cites (w : Lexeme) (n : Number) : Cites (invariable w) w.stem n := by
  rw [Cites, invariable, get?_ofList]
  cases n <;> cases w.loc <;> rfl

end Noun

instance (tags : List Tag) : Decidable (IsCoherent tags) :=
  decidable_of_iff ((∀ t ∈ tags, t.isPositive) ∧
      (∀ t ∈ tags, ∀ u ∈ tags, isGenderTag t → isGenderTag u → t = u) ∧
      ∀ t ∈ tags, ∀ u ∈ tags, isNumberTag t → isNumberTag u → t = u)
    ⟨fun h => ⟨h.1, h.2.1, h.2.2⟩, fun h => ⟨h.positive, h.gender, h.number⟩⟩

instance (written : TagSet) (kind : Tag → Bool) : Decidable (Given written kind) :=
  inferInstanceAs (Decidable (∃ u ∈ written, kind u))

namespace Segment
open Noun

/-- A paradigm cites a word, and in the number of the word if it has one. -/
def IsCitedBy (word : String) (s : Segment) (p : Paradigm) : Prop :=
  (∃ n, Cites p word n) ∧ ∀ n, s.num = some n → Cites p word n

variable {s : Segment} {word : String} {written : TagSet} {o : Options} {pos : String}
  {isAdj : Bool} {num : Option NumberUse} {gender : Option Gender} {loc : Bool} {p : Paradigm}

section Classes
variable {found : Classification} (hwritten : ∀ u ∈ written, IsNounTag u)
include hwritten

/-- A noun whose class goes by a table is cited if each entry that may have told its tags is. -/
theorem isCitedBy_of_table {decl : String} {table : EndingTable}
    (htable : Tables.latin.nounTable decl = .ok table)
    (hentries : ∀ e ∈ table.entries,
      IsCoherent e.tags ∧ Given e.tags isGenderTag ∧ e.ending.tail?.isSome)
    (hline : '\n' ∉ word.toList)
    (h : Tables.latin.classifyByTable word none decl written = .ok (found.stem, found.tags))
    (hs : s.IsNoun decl found (found.tags.foldl implyNoun written))
    (hcites : ∀ e ∈ table.entries, ∀ tail, e.ending.tail? = some tail →
      (s.lexeme pos isAdj num gender loc).SameKind (.ofTags e.tags loc) →
      Cites p ((s.lexeme pos isAdj num gender loc).stem ++ tail) (endingNumber e.tags)) :
    s.IsCitedBy word p := by
  obtain ⟨e, he, htags, hbase, hadmits⟩ := mem_of_classifyByTable htable h
  obtain ⟨hcoherent, hgender, htail⟩ := hentries e he
  obtain ⟨tail, htail⟩ := Option.isSome_iff_exists.mp htail
  rw [← htags] at hs hadmits
  have hkind : (s.lexeme pos isAdj num gender loc).SameKind (.ofTags e.tags loc) := by
    refine ⟨fun x hx => (hs.has x hx).trans ?_, rfl⟩
    by_cases hN : x = .N
    · rw [hN]
      exact has_N_traits hcoherent hadmits hgender
    · exact has_traits hwritten hcoherent hadmits hx hN
  have hword : word = (s.lexeme pos isAdj num gender loc).stem ++ tail :=
    (Ending.eq_append_of_base? hline htail hbase).trans (congrArg (· ++ tail) hs.stem.symm)
  have hcited := hcites e he tail htail hkind
  rw [← hword] at hcited
  exact ⟨⟨_, hcited⟩, fun n hn => num_eq_endingNumber hcoherent hadmits hs hn ▸ hcited⟩

/-- The entries that a noun of the third declension is read by, if it is not Greek. -/
def thirdEntries : List EndingEntry :=
  Latin.nounThirdNonNeuter.entries ++ Latin.nounThirdNeuter.entries

omit hwritten in
theorem exists_entry_of_matchNoun {entries : List EndingEntry} (hentries : entries ⊆ thirdEntries)
    {oblique : Option String} {base : String} {tags : List Tag}
    (h : matchNoun entries word oblique written = some (base, tags)) :
    Admits written tags ∧
      (tags = [] ∨ ∃ e ∈ thirdEntries, e.tags = tags ∧ (e.ending.base? word).isSome) := by
  obtain ⟨e, he, htags, hbase, hadmits⟩ := mem_of_matchNoun h
  exact ⟨hadmits, .inr ⟨e, hentries he, htags, hbase ▸ rfl⟩⟩

omit hwritten in
/-- In the singular, the third declension keeps the whole word as its stem. -/
theorem tags_of_classifyThird {oblique : Option String} (hgreek : written.has .Greek = false)
    (hpl : written.has .pl = false)
    (h : Tables.latin.classifyThird word oblique written = .ok found) :
    found.stem = word ∧ Admits written found.tags ∧
      (found.tags = [] ∨
        ∃ e ∈ thirdEntries, e.tags = found.tags ∧ (e.ending.base? word).isSome) := by
  have hnone : Admits written [] :=
    ⟨fun hp => (by rw [hpl] at hp; cases hp), fun _ ht => by cases ht⟩
  have hnonNeuter : Tables.latin.nounTable "3-non-neuter" = .ok Latin.nounThirdNonNeuter := rfl
  have hneuter : Tables.latin.nounTable "3-neuter" = .ok Latin.nounThirdNeuter := rfl
  have hfront : Latin.nounThirdNonNeuter.entries ⊆ thirdEntries := List.subset_append_left _ _
  have hback : Latin.nounThirdNeuter.entries ⊆ thirdEntries := List.subset_append_right _ _
  simp only [Tables.classifyThird, hpl, hgreek, hnonNeuter, hneuter, Bool.false_eq_true, if_false,
    bind, Except.bind, pure, Except.pure] at h
  have htraits : ∀ stem2,
      Admits written (Tables.traitsFrom Latin.nounThirdNeuter word stem2 written) ∧
      (Tables.traitsFrom Latin.nounThirdNeuter word stem2 written = [] ∨ ∃ e ∈ thirdEntries,
        e.tags = Tables.traitsFrom Latin.nounThirdNeuter word stem2 written ∧
          (e.ending.base? word).isSome) := by
    intro stem2
    unfold Tables.traitsFrom
    cases hmatch : matchNoun Latin.nounThirdNeuter.entries word (some stem2) written with
    | none => exact ⟨hnone, .inl rfl⟩
    | some match_ => exact exists_entry_of_matchNoun hback hmatch
  split at h
  · split at h
    · rename_i hmatch
      cases h
      exact ⟨rfl, exists_entry_of_matchNoun hfront hmatch⟩
    · cases h
      exact ⟨rfl, htraits _⟩
  · cases h
    exact ⟨rfl, htraits _⟩

omit hwritten in
theorem exists_ending_of_classifyThird (hline : '\n' ∉ word.toList)
    (hgreek : written.has .Greek = false) (hpl : written.has .pl)
    (h : Tables.latin.classifyThird word none written = .ok found) :
    ∃ base tail, (tail, found.tags) ∈ Noun.Third.pluralEndings ∧ word = base ++ tail ∧
      found.stem = base ∧ found.oblique = some base := by
  have hstem : ∀ tail tags, (tail, tags) ∈ Noun.Third.pluralEndings →
      Tables.pluralStem word none tail tags = some found →
      ∃ base tail, (tail, found.tags) ∈ Noun.Third.pluralEndings ∧ word = base ++ tail ∧
        found.stem = base ∧ found.oblique = some base := by
    intro tail tags hmem hstem
    obtain ⟨base, hbase, rfl⟩ := Option.map_eq_some_iff.mp hstem
    exact ⟨base, tail, hmem, Text.eq_append_of_before hline hbase, rfl, rfl⟩
  rw [Tables.classifyThird, if_pos hpl, Tables.classifyThirdPlural, hgreek] at h
  simp only [Bool.false_eq_true, if_false] at h
  split at h
  · rename_i hfound
    cases h
    cases hia : Tables.pluralStem word none "ia" [.has .N, .has .I, .has .pure] with
    | some c =>
      rw [hia] at hfound
      exact hstem _ _ (by decide) (hia.trans hfound)
    | none =>
      cases ha : Tables.pluralStem word none "a" [.has .N] with
      | some c =>
        rw [hia, ha] at hfound
        exact hstem _ _ (by decide) (ha.trans hfound)
      | none =>
        rw [hia, ha] at hfound
        exact hstem _ _ (by decide) hfound
  · cases h

theorem isCitedBy_of_third (hline : '\n' ∉ word.toList)
    (hplural : written.has .pl → ∀ u ∈ written, isNumberTag u)
    (hfound : Tables.latin.classifyThird word none written = .ok found)
    (hs : s.IsNoun "3" found (found.tags.foldl implyNoun written))
    (hp : third o (s.lexeme pos isAdj num gender loc) = .ok p) : s.IsCitedBy word p := by
  have hgreek : written.has .Greek = false := not_has_of_isKind hwritten rfl (by decide)
  cases hpl : written.has .pl with
  | false =>
    obtain ⟨hstem, hadmits, htags⟩ := tags_of_classifyThird hgreek hpl hfound
    have htable : ∀ e ∈ thirdEntries, IsCoherent e.tags ∧ TagSet.has e.tags .Greek = false ∧
        endingNumber e.tags = .sg := by
      decide
    have hcoherent : IsCoherent found.tags ∧ TagSet.has found.tags .Greek = false ∧
        endingNumber found.tags = .sg := by
      rcases htags with htags | ⟨e, he, htags, _⟩
      · rw [htags]
        decide
      · rw [← htags]
        exact htable e he
    obtain ⟨hcoherent, hnotGreek, hsingular⟩ := hcoherent
    have hw : (s.lexeme pos isAdj num gender loc).has .Greek = false := by
      refine (hs.has .Greek rfl).trans ?_
      rw [has_traits hwritten hcoherent hadmits rfl (by decide), hnotGreek]
    have hword : (s.lexeme pos isAdj num gender loc).stem = word := hs.stem.trans hstem
    have hcites := Third.third_cites_singular hw (by rwa [hword]) hp
    rw [hword] at hcites
    refine ⟨⟨.sg, hcites⟩, fun n hn => ?_⟩
    rw [num_eq_endingNumber hcoherent hadmits hs hn, hsingular]
    exact hcites
  | true =>
    have hnumber := hplural hpl
    obtain ⟨base, tail, hmem, rfl, hstem, hoblique⟩ :=
      exists_ending_of_classifyThird hline hgreek hpl hfound
    have hcoherent : ∀ entry ∈ Noun.Third.pluralEndings, IsCoherent entry.2 := by decide
    have hveto : ∀ t ∈ found.tags, .veto t ∉ written := by
      intro t _ hveto
      cases hnumber _ hveto
    have htraits : ∀ u, u ∈ found.tags.foldl implyNoun written ↔ _ := fun u =>
      mem_foldl_implyNoun (hcoherent _ hmem) hveto (u := u)
    have hnone : ¬ Given written isGenderTag := by
      rintro ⟨u, hu, hkind⟩
      have hnumber := hnumber u hu
      simp only [isGenderTag, Bool.or_eq_true, decide_eq_true_eq] at hkind
      rcases hkind with (rfl | rfl) | rfl <;> cases hnumber
    have hkind : (s.lexeme pos isAdj num gender loc).SameKind (.ofTags found.tags loc) := by
      refine ⟨fun x hx => (hs.has x hx).trans ?_, rfl⟩
      have hnot : .has x ∉ written := by
        intro hu
        have hnumber := hnumber _ hu
        rw [isNumberTag_of_isKind hx] at hnumber
        cases hnumber
      rw [Bool.eq_iff_iff, TagSet.has_iff, htraits]
      simp [hnot, hnone, isNumberTag_of_isKind hx, Lexeme.has, Lexeme.ofTags, TagSet.has]
    have hpaired : (s.lexeme pos isAdj num gender loc).obliqueStem = base := by
      rw [obliqueStem_lexeme, hs.oblique, hs.stem, hoblique, hstem, getD_given]
    have hcites := Third.third_cites_plural hmem hkind hp
    rw [hpaired] at hcites
    refine ⟨⟨.pl, hcites⟩, fun n hn => ?_⟩
    have hread : s.num = some .pl := hs.plural.mpr (TagSet.has_iff.mpr ((htraits _).mpr
      (.inl (TagSet.has_iff.mp hpl))))
    rw [hread] at hn
    cases hn
    exact hcites

/-- The classes of nouns that have a lemma in every number. -/
def regularClasses : List String := ["0", "1", "2", "3", "4", "5"]

/-- What a noun is declined to cites the word that its class and tags were read from. -/
theorem isCitedBy_of_classifyNoun {decl : String} (hline : '\n' ∉ word.toList)
    (hdecl : decl ∈ regularClasses)
    (hplural : decl = "3" → written.has .pl → ∀ u ∈ written, isNumberTag u)
    (hfound : Tables.latin.classifyNoun word none decl written = .ok found)
    (hs : s.IsNoun decl found (found.tags.foldl implyNoun written))
    (hp : s.decline ⟨.latin, o⟩ (s.lexeme pos isAdj num gender loc) = .ok p) :
    s.IsCitedBy word p := by
  have hclass : ∀ c, Noun.Class.ofName? decl = some c →
      Noun.decline ⟨.latin, o⟩ (s.lexeme pos isAdj num gender loc) c = .ok p := by
    intro c hc
    rw [decline, hs.isAdj, hs.decl, hc] at hp
    exact hp
  have hstem : (s.lexeme pos isAdj num gender loc).stem = found.stem := hs.stem
  simp only [regularClasses, List.mem_cons, List.not_mem_nil, or_false] at hdecl
  rcases hdecl with rfl | rfl | rfl | rfl | rfl | rfl
  · cases hfound
    cases hclass .invariable rfl
    have hcites := invariable_cites (s.lexeme pos isAdj num gender loc)
    rw [hstem] at hcites
    exact ⟨⟨.sg, hcites .sg⟩, fun n _ => hcites n⟩
  · obtain ⟨⟨base, tags⟩, htable, h⟩ := bind_eq_ok.mp hfound
    cases h
    cases hclass .first rfl
    have hkey : Tables.latin.nounTable "1" = .ok Latin.nounFirst := rfl
    exact isCitedBy_of_table hwritten hkey (by decide) hline htable hs
      fun e he tail htail hkind => first_cites htail hkind he
  · obtain ⟨⟨base, tags⟩, htable, h⟩ := bind_eq_ok.mp hfound
    cases h
    cases hclass .second rfl
    have hoblique : (s.lexeme pos isAdj num gender loc).obliqueStem =
        (s.lexeme pos isAdj num gender loc).stem := by
      rw [obliqueStem_lexeme, hs.oblique, hs.stem, hstem]
      exact getD_given base
    have hkey : Tables.latin.nounTable "2" = .ok Latin.nounSecond := rfl
    exact isCitedBy_of_table hwritten hkey (by decide) hline htable hs
      fun e he tail htail hkind => second_cites htail hkind o he hoblique
  · exact isCitedBy_of_third hwritten hline (hplural rfl) hfound hs (hclass .third rfl)
  · have hgreek : (written.has .echo || written.has .argo || written.has .Callisto) = false := by
      rw [not_has_of_isKind hwritten (rfl : Trait.echo.isKind) (by decide),
        not_has_of_isKind hwritten (rfl : Trait.argo.isKind) (by decide),
        not_has_of_isKind hwritten (rfl : Trait.Callisto.isKind) (by decide)]
      rfl
    rw [Tables.classifyNoun, hgreek] at hfound
    obtain ⟨⟨base, tags⟩, htable, h⟩ := bind_eq_ok.mp hfound
    cases h
    cases hclass .fourth rfl
    have hkey : Tables.latin.nounTable "4" = .ok Latin.nounFourth := rfl
    exact isCitedBy_of_table hwritten hkey (by decide) hline htable hs
      fun e he tail htail hkind => fourth_cites htail hkind he
  · obtain ⟨⟨base, tags⟩, htable, h⟩ := bind_eq_ok.mp hfound
    cases h
    cases hclass .fifth rfl
    have hkey : Tables.latin.nounTable "5" = .ok Latin.nounFifth := rfl
    exact isCitedBy_of_table hwritten hkey (by decide) hline htable hs
      fun e he tail htail hkind => fifth_cites htail hkind he

end Classes

/-- What may be written of a noun in its specification. -/
def IsNounField (f : String) : Prop :=
  f ∈ genderFields ∨ f ∈ numberFields ∨ isVetoField f ∧ IsField f

theorem isField_of_isNounField {f : String} (h : IsNounField f) : IsField f := by
  have hfixed : ∀ f ∈ genderFields ++ numberFields, IsField f := by decide
  rcases h with h | h | ⟨_, h⟩
  · exact hfixed f (List.mem_append_left _ h)
  · exact hfixed f (List.mem_append_right _ h)
  · exact h

theorem isNounTag_of_readTag {f : String} {u : Tag} (hf : IsNounField f) (h : readTag f = .ok u) :
    IsNounTag u := by
  rcases hf with hf | hf | ⟨hf, _⟩
  · exact .inl (readTag_of_mem_genderFields hf h)
  · exact .inr (.inl (readTag_of_mem_numberFields hf h).1)
  · exact .inr (.inr (exists_veto_of_readTag hf h))

/-- A noun that is read from a lemma with its class, and with gender, number and vetoes alone, is
declined to a paradigm that has the lemma for its only nominative: in the number the noun is read
in, if there is one, else in one of the two. In the third declension plural lemmas may have their
number written alone. -/
theorem citation_of_noun {decl : String} {tags : List String} (hword : IsPlainLemma word)
    (hdecl : decl ∈ regularClasses) (htags : ∀ f ∈ tags, IsNounField f)
    (hplural : decl = "3" → "pl" ∈ tags → ∀ f ∈ tags, f ∈ numberFields)
    (hread : Segment.read .latin (wordText word none (decl :: tags)) = .ok s)
    (hp : s.paradigm ⟨.latin, o⟩ (s.lexeme pos isAdj num gender loc) = .ok p) :
    (∃ n, Cites p word n) ∧ ∀ n, s.num = some n → Cites p word n := by
  have hfields : ∀ f ∈ decl :: tags, IsField f := by
    have hclasses : ∀ c ∈ regularClasses, IsField c := by decide
    exact List.forall_mem_cons.mpr
      ⟨hclasses decl hdecl, fun f hf => isField_of_isNounField (htags f hf)⟩
  obtain ⟨_, written, hwritten, hseg⟩ := read_wordText hword.slash (by simp) hfields hread
  have hplus : ∀ c ∈ regularClasses, '+' ∉ c.toList := by decide
  rw [if_neg (hplus decl hdecl), hword.link] at hseg
  have hmem : ∀ u ∈ TagSet.ofList written, ∃ f ∈ tags, readTag f = .ok u :=
    fun u hu => exists_field_of_mem_ofList hwritten hu
  obtain ⟨found, hfound, hs⟩ := exists_classification_of_nounSegment hseg
  obtain ⟨q, hq, hforms⟩ := exists_decline_of_paradigm hp
  have hcited : s.IsCitedBy word q := by
    refine isCitedBy_of_classifyNoun ?_ hword.line hdecl ?_ hfound hs hq
    · intro u hu
      obtain ⟨f, hf, hread⟩ := hmem u hu
      exact isNounTag_of_readTag (htags f hf) hread
    · intro hthird hpl u hu
      have hfield : "pl" ∈ tags := by
        obtain ⟨f, hf, hread⟩ := hmem _ (TagSet.has_iff.mp hpl)
        rcases htags f hf with hgender | hnumber | ⟨hveto, _⟩
        · cases readTag_of_mem_genderFields hgender hread
        · rwa [← (readTag_of_mem_numberFields hnumber hread).2 rfl]
        · obtain ⟨v, hv⟩ := exists_veto_of_readTag hveto hread
          cases hv
      obtain ⟨f, hf, hread⟩ := hmem u hu
      exact (readTag_of_mem_numberFields (hplural hthird hfield f hf) hread).1
  unfold IsCitedBy Cites at hcited
  unfold Cites
  rw [hforms]
  exact hcited

/-- A plural that is barred from being masculine. -/
theorem citation_of_noun_aquae :
    ∃ s p, Segment.read .latin (wordText "aquae" none ["1", "-M", "pl"]) = .ok s ∧
      s.paradigm ⟨.latin, {}⟩ (s.lexeme "nouns" false none none true) = .ok p ∧
      s.num = some .pl ∧ IsPlainLemma "aquae" ∧ "1" ∈ regularClasses ∧
      (∀ f ∈ ["-M", "pl"], IsNounField f) ∧
      ("1" = "3" → "pl" ∈ ["-M", "pl"] → ∀ f ∈ ["-M", "pl"], f ∈ numberFields) ∧
      (∃ n, Cites p "aquae" n) ∧ ∀ n, s.num = some n → Cites p "aquae" n := by
  obtain ⟨s, hread, hnum, p, hp⟩ : ∃ s,
      Segment.read .latin (wordText "aquae" none ["1", "-M", "pl"]) = .ok s ∧
      s.num = some .pl ∧
      ∃ p, s.paradigm ⟨.latin, {}⟩ (s.lexeme "nouns" false none none true) = .ok p :=
    ⟨_, rfl, rfl, _, rfl⟩
  have hword : IsPlainLemma "aquae" := ⟨by decide, by decide, by decide⟩
  have htags : ∀ f ∈ ["-M", "pl"], IsNounField f := by
    simp only [List.forall_mem_cons]
    exact ⟨.inr (.inr (by decide)), .inr (.inl (by decide)), by simp⟩
  have hplural : "1" = "3" → "pl" ∈ ["-M", "pl"] → ∀ f ∈ ["-M", "pl"], f ∈ numberFields :=
    fun h => absurd h (by decide)
  exact ⟨s, p, hread, hp, hnum, hword, by decide, htags, hplural,
    citation_of_noun hword (by decide) htags hplural hread hp⟩

end Segment
end Declension
