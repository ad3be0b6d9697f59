import Mathlib.Data.Option.Basic
import Declension.Proofs.Hint
import Declension.Proofs.NounTitles

/-!
# Vetoes

A word is read from the tags that are written of it and those that its ending implies; place, number
and gender are told by fields of the segment. A tag that is written with a hyphen is a veto, which
the ending gives way to. Main statement: `Segment.shows_vetoed_iff`, which says when a word shows a
tag that its text vetoes.
-/
namespace Declension

/-- What the text of a word says: its lemma with links, its second stem, its class and tags. -/
structure WordSpec where
  linkedWord : String
  oblique : Option String
  isAdj : Bool
  decl : String
  tags : TagSet

namespace WordSpec

def read (text : String) : Except Fault WordSpec := do
  let (stems, spec) ← match splitSpec? text.toList with
    | some parts => pure parts
    | none => throw (.missingSpec text)
  let (linkedWord, oblique) ← splitStems stems text
  let (decl, specs) := match Text.fieldsChars '.' spec with
    | decl :: specs => (decl, specs)
    | [] => ([], [])
  let tags := TagSet.ofList (← specs.mapM fun s => readTag (String.ofList s))
  if '+' ∈ decl then
    return ⟨linkedWord, oblique, true, String.ofList (decl.filter (· ≠ '+')), tags⟩
  else if decl.isEmpty then throw (.missingClass text)
  else return ⟨linkedWord, oblique, false, String.ofList decl, tags⟩

def word (w : WordSpec) : String := Text.unlink w.linkedWord

def classify (w : WordSpec) (t : Tables) : Except Fault Classification :=
  if w.isAdj then t.classifyAdjective w.word w.oblique w.decl w.tags
  else t.classifyNoun w.word w.oblique w.decl w.tags

/-- The tags of a noun before it is looked at whether it is a proper name. -/
def nounTags (w : WordSpec) (found : Classification) : TagSet := found.tags.foldl implyNoun w.tags

/-- The tags of a word, with those that fields of the segment will tell. -/
def merged (w : WordSpec) (found : Classification) : TagSet :=
  if w.isAdj then found.tags.foldl implyAdjective w.tags
  else if !(w.nounTags found).has .pl && !(w.nounTags found).has .both && isProperName w.word then
    (w.nounTags found).add (.has .sg)
  else w.nounTags found

def segment (w : WordSpec) (t : Tables) (found : Classification) : Segment :=
  if w.isAdj then
    settle found.decl (headwordClass (t.irregularAdjectiveClasses.get? w.word) (found.decl ++ "+"))
      true found w.word w.linkedWord (w.merged found)
  else
    settle w.decl (headwordClass (t.irregularNounClasses.get? w.word) w.decl)
      false found w.word w.linkedWord (w.merged found)

end WordSpec

/-- A word is read by what its text says, by the traits of its ending, and by both together. -/
theorem Segment.read_eq (t : Tables) (text : String) :
    Segment.read t text = WordSpec.read text >>= fun w => w.classify t >>= fun found =>
      .ok (w.segment t found) := by
  unfold Segment.read WordSpec.read
  cases splitSpec? text.toList with
  | none => rfl
  | some parts =>
    obtain ⟨stems, spec⟩ := parts
    simp only [pure_bind, bind_assoc]
    congr 1
    funext lemmas
    obtain ⟨linkedWord, oblique⟩ := lemmas
    generalize Text.fieldsChars '.' spec = fields
    cases fields with
    | nil => rfl
    | cons decl specs =>
      dsimp only
      congr 1
      funext tags
      by_cases hplus : '+' ∈ decl
      · simp only [if_pos hplus]
        rfl
      · simp only [if_neg hplus]
        split
        · rfl
        · rfl

theorem exists_of_read {t : Tables} {text : String} {s : Segment}
    (h : Segment.read t text = .ok s) : ∃ w found, WordSpec.read text = .ok w ∧
      w.classify t = .ok found ∧ s = w.segment t found := by
  rw [Segment.read_eq] at h
  obtain ⟨w, hw, h⟩ := bind_eq_ok.mp h
  obtain ⟨found, hfound, h⟩ := bind_eq_ok.mp h
  exact ⟨w, found, hw, hfound, (Except.ok.inj h).symm⟩

namespace Gender

def trait : Gender → Trait
  | m => .M | f => .F | n => .N

theorem mem_all (g : Gender) : g ∈ all := by
  cases g <;> decide

theorem trait_injective : Function.Injective trait := by
  intro g g' h
  cases g <;> cases g' <;> first | rfl | cases h

theorem isGenderTag_trait (g : Gender) : isGenderTag (.has g.trait) := by
  cases g <;> rfl

end Gender

namespace Number

def trait : Number → Trait
  | sg => .sg | pl => .pl

end Number

/-- A segment shows a tag: it is among its tags, or its gender, its number or its place. -/
inductive Segment.Shows (s : Segment) : Tag → Prop
  | tag {u : Tag} (h : u ∈ s.tags) : s.Shows u
  | gender {g : Gender} (h : s.gender = some g) : s.Shows (.has g.trait)
  | number {n : Number} (h : s.num = some n) : s.Shows (.has n.trait)
  | place (h : s.loc) : s.Shows (.has .loc)

section Settle
variable {decl : String} {headword : HeadwordClass} {isAdj : Bool} {found : Classification}
  {word linkedWord : String} {tags : TagSet}

theorem gender_settle : (settle decl headword isAdj found word linkedWord tags).gender =
    Gender.all.find? fun g => tags.has g.trait := by
  have hdrop : ∀ g : Gender, (tags.drop (.has .loc)).has g.trait = tags.has g.trait := by
    intro g
    rw [Bool.eq_iff_iff, TagSet.has_iff, TagSet.has_iff, TagSet.mem_drop]
    cases g <;> simp [Gender.trait]
  have hM := hdrop .m
  have hF := hdrop .f
  have hN := hdrop .n
  dsimp only [Gender.trait] at hM hF hN
  simp only [settle, hM, hF, hN, Gender.all, List.find?_cons, Gender.trait]
  cases tags.has .M <;> cases tags.has .F <;> cases tags.has .N <;> rfl

theorem mem_of_num_settle {n : Number}
    (h : (settle decl headword isAdj found word linkedWord tags).num = some n) :
    .has n.trait ∈ tags := by
  rw [num_settle] at h
  rw [← TagSet.has_iff]
  split_ifs at h with hpl hsg
  · cases h
    exact hpl
  · cases h
    exact hsg

/-- What is shown are the tags that a segment is settled from. -/
theorem shows_settle {u : Tag} :
    (settle decl headword isAdj found word linkedWord tags).Shows u ↔ u ∈ tags := by
  constructor
  · intro h
    cases h with
    | tag h => exact (mem_tags_settle.mp h).1
    | gender h =>
      rw [gender_settle] at h
      have hg := List.find?_some h
      exact TagSet.has_iff.mp hg
    | number h => exact mem_of_num_settle h
    | place h => exact TagSet.has_iff.mp h
  · intro h
    rcases Segment.mem_allTags.mp (mem_allTags_settle.mpr h) with
      h | ⟨h, rfl⟩ | ⟨h, rfl⟩ | ⟨h, rfl⟩
    · exact .tag h
    · exact .place h
    · exact .number h
    · exact .number h

end Settle

namespace WordSpec
variable {t : Tables} {w : WordSpec} {found : Classification} {u : Tag}

theorem mem_merged_noun (hnoun : w.isAdj = false) : u ∈ w.merged found ↔
    u ∈ w.nounTags found ∨ u = .has .sg ∧ .has .pl ∉ w.nounTags found ∧
      .has .both ∉ w.nounTags found ∧ isProperName w.word := by
  have hdefault : (!(w.nounTags found).has .pl && !(w.nounTags found).has .both &&
      isProperName w.word) = true ↔ .has .pl ∉ w.nounTags found ∧
        .has .both ∉ w.nounTags found ∧ isProperName w.word := by
    simp [TagSet.has, and_assoc]
  rw [merged, if_neg (by simp [hnoun])]
  split
  · rename_i h
    rw [TagSet.mem_add, and_iff_left (hdefault.mp h)]
  · rename_i h
    rw [hdefault] at h
    rw [or_iff_left fun hu => h hu.2]

theorem not_veto_of_classifyAdjective {decl word : String} {oblique : Option String}
    {written : TagSet} (h : t.classifyAdjective word oblique decl written = .ok found) :
    ∀ v ∈ found.tags, (∀ x, v ≠ .veto x) ∧ .veto v ∉ written := by
  unfold Tables.classifyAdjective at h
  split at h
  · exact not_veto_of_guessAdjective h
  split at h
  · cases hname : Tag.ofName? decl with
    | none =>
      rw [hname] at h
      exact not_veto_of_guessAdjective h
    | some hint =>
      rw [hname] at h
      intro v hv
      obtain ⟨hpositive, hveto⟩ := not_veto_of_guessAdjective h v hv
      exact ⟨hpositive, fun hmem => hveto (TagSet.mem_add.mpr (.inl hmem))⟩
  split at h
  · cases h
    simp
  · obtain ⟨table, _, h⟩ := bind_eq_ok.mp h
    split at h
    · rename_i hmatch
      cases h
      exact not_veto_of_matchAdjective hmatch
    · cases h

theorem mem_merged_adjective (hadj : w.isAdj = true) (h : w.classify t = .ok found) :
    u ∈ w.merged found ↔ u ∈ w.tags ∨ u ∈ found.tags := by
  rw [classify, if_pos hadj] at h
  have hveto := not_veto_of_classifyAdjective h
  rw [merged, if_pos hadj]
  exact mem_foldl_implyAdjective (fun v hv => (hveto v hv).1) fun v hv => (hveto v hv).2

end WordSpec

/-- The tags that tables list of an irregular noun come once each. -/
def Tables.GivesOnce (t : Tables) : Prop := ∀ p ∈ t.irregularNounTags.entries, p.2.Nodup

theorem Tables.givesOnce_latin : latin.GivesOnce := by
  unfold GivesOnce
  decide +kernel

theorem mem_implyNoun_of_mem {written : TagSet} {t u : Tag} (hne : u ≠ .veto t)
    (h : u ∈ written) : u ∈ implyNoun written t := by
  unfold implyNoun
  split_ifs
  · exact TagSet.mem_drop.mpr ⟨h, hne⟩
  · exact h
  · exact h
  · exact TagSet.mem_add.mpr (.inl h)

/-- A noun takes back a veto against a trait that comes once, and does not take the trait. -/
theorem not_mem_foldl_implyNoun {tags : List Tag} {written : TagSet} {u : Tag}
    (hveto : .veto u ∈ written) (hu : u ∉ written) (honce : tags.count u ≤ 1) :
    u ∉ tags.foldl implyNoun written := by
  induction tags generalizing written with
  | nil => exact hu
  | cons t tags ih =>
    rw [List.foldl_cons]
    by_cases htu : t = u
    · subst htu
      rw [List.count_cons_self] at honce
      have hrest : t ∉ tags := List.count_eq_zero.mp (by omega)
      have hstep : implyNoun written t = written.drop (.veto t) := by
        rw [implyNoun, if_pos (by simpa using hveto)]
      intro hmem
      rcases mem_of_mem_foldl_implyNoun hmem with hmem | hmem
      · rw [hstep] at hmem
        exact hu (TagSet.mem_drop.mp hmem).1
      · exact hrest hmem
    · rw [List.count_cons_of_ne htu] at honce
      have hkept : .veto u ∈ implyNoun written t :=
        mem_implyNoun_of_mem (fun h => htu (Tag.veto.inj h).symm) hveto
      have hnot : u ∉ implyNoun written t := fun hmem =>
        (mem_of_mem_implyNoun hmem).elim hu fun he => htu he.symm
      exact ih hkept hnot honce

theorem nodup_of_pluralStem {word ending : String} {oblique : Option String} {tags : List Tag}
    {found : Classification} (h : Tables.pluralStem word oblique ending tags = some found)
    (htags : tags.Nodup) : found.tags.Nodup := by
  obtain ⟨base, _, rfl⟩ := Option.map_eq_some_iff.mp h
  exact htags

section Veto
variable {t : Tables} {word decl : String} {oblique : Option String} {written : TagSet}
  {found : Classification} {u : Tag}

theorem nodup_of_classifyThirdPlural
    (h : Tables.classifyThirdPlural word oblique written = .ok found) : found.tags.Nodup := by
  unfold Tables.classifyThirdPlural at h
  split at h
  · unfold Tables.classifyGreekPlural at h
    split at h
    · cases h
      exact List.nodup_singleton _
    · cases h
      exact List.nodup_singleton _
    · rename_i hes
      cases h
      exact nodup_of_pluralStem hes List.nodup_nil
    · cases h
  · split at h
    · rename_i hfound
      cases h
      rcases (Option.orElse_eq_some _ _ _).mp hfound with hia | ⟨_, hfound⟩
      · exact nodup_of_pluralStem hia (by decide)
      rcases (Option.orElse_eq_some _ _ _).mp hfound with ha | ⟨_, hes⟩
      · exact nodup_of_pluralStem ha (by decide)
      · exact nodup_of_pluralStem hes List.nodup_nil
    · cases h

theorem nodup_of_classifyLongO (h : Tables.classifyLongO word written = .ok found) :
    found.tags.Nodup := by
  unfold Tables.classifyLongO at h
  split at h
  · cases h
    dsimp only
    split_ifs <;> decide
  · cases h

/-- No table gives a trait against its veto, and elsewhere a noun gets each trait once. -/
theorem count_le_one_of_classifyNoun (ht : t.GivesOnce)
    (h : t.classifyNoun word oblique decl written = .ok found) (hveto : .veto u ∈ written) :
    found.tags.count u ≤ 1 := by
  have hadmits : ∀ tags, Admits written tags → tags.count u ≤ 1 := by
    intro tags hadmits
    have hnot : u ∉ tags := fun hu => hadmits.not_contradicts u hu (.vetoed hveto)
    rw [List.count_eq_zero.mpr hnot]
    omega
  have hnodup : ∀ tags : List Tag, tags.Nodup → tags.count u ≤ 1 := fun _ htags =>
    List.nodup_iff_count_le_one.mp htags u
  unfold Tables.classifyNoun at h
  split at h
  · obtain ⟨_, htable, h⟩ := bind_eq_ok.mp h
    cases h
    exact hadmits _ (Tables.admits_of_classifyByTable htable)
  split at h
  · by_cases hpl : written.has .pl
    · rw [Tables.classifyThird, if_pos hpl] at h
      exact hnodup _ (nodup_of_classifyThirdPlural h)
    · exact hadmits _ (Tables.admits_of_classifyThird (Bool.eq_false_iff.mpr hpl) h)
  split at h
  · exact hnodup _ (nodup_of_classifyLongO h)
  split at h
  · obtain ⟨_, htable, h⟩ := bind_eq_ok.mp h
    cases h
    exact hadmits _ (Tables.admits_of_classifyByTable htable)
  split at h
  · cases h
    exact hnodup _ (List.nodup_singleton _)
  split at h
  · cases h
    cases htags : t.irregularNounTags.get? word with
    | none => exact hnodup _ List.nodup_nil
    | some tags => exact hnodup _ (ht _ (OrderedMap.mem_of_find htags))
  · cases h
    exact hnodup _ List.nodup_nil

end Veto

namespace WordSpec
variable {t : Tables} {w : WordSpec} {found : Classification} {u : Tag}

theorem not_mem_merged_adjective (hadj : w.isAdj = true) (h : w.classify t = .ok found)
    (hveto : .veto u ∈ w.tags) (hu : u ∉ w.tags) : u ∉ w.merged found := by
  rw [mem_merged_adjective hadj h]
  rw [classify, if_pos hadj] at h
  rintro (hmem | hmem)
  · exact hu hmem
  · exact (not_veto_of_classifyAdjective h u hmem).2 hveto

theorem not_mem_nounTags (ht : t.GivesOnce) (hnoun : w.isAdj = false)
    (h : w.classify t = .ok found) (hveto : .veto u ∈ w.tags) (hu : u ∉ w.tags) :
    u ∉ w.nounTags found := by
  rw [classify, if_neg (by simp [hnoun])] at h
  exact not_mem_foldl_implyNoun hveto hu (count_le_one_of_classifyNoun ht h hveto)

end WordSpec

namespace Segment
variable {t : Tables} {text : String} {s : Segment} {w : WordSpec} {found : Classification}
  {u : Tag}

theorem shows_segment : (w.segment t found).Shows u ↔ u ∈ w.merged found := by
  unfold WordSpec.segment
  split
  · exact shows_settle
  · exact shows_settle

theorem num_segment_eq_pl : (w.segment t found).num = some .pl ↔ .has .pl ∈ w.merged found := by
  unfold WordSpec.segment
  split
  all_goals
    rw [num_settle, ← TagSet.has_iff]
    split_ifs <;> simp_all

theorem mem_tags_segment : u ∈ (w.segment t found).tags ↔ u ∈ w.merged found ∧
    (.has .pl ∈ w.merged found → u ≠ .has .pl) ∧
    (.has .pl ∉ w.merged found → .has .sg ∈ w.merged found → u ≠ .has .sg) ∧ u ≠ .has .loc := by
  unfold WordSpec.segment
  split
  · exact mem_tags_settle
  · exact mem_tags_settle

/-- A word shows a tag that its text vetoes in one case alone: a proper name that is no plural and
has not both numbers is in the singular, even where it is barred from it. -/
theorem shows_vetoed_iff (ht : t.GivesOnce) (hw : WordSpec.read text = .ok w)
    (hs : Segment.read t text = .ok s) (hveto : .veto u ∈ w.tags) (hu : u ∉ w.tags) :
    s.Shows u ↔ u = .has .sg ∧ w.isAdj = false ∧ isProperName w.word ∧ s.num ≠ some .pl ∧
      .has .both ∉ s.tags := by
  obtain ⟨w', found, hw', hfound, rfl⟩ := exists_of_read hs
  obtain rfl := Except.ok.inj (hw.symm.trans hw')
  rw [shows_segment]
  cases hadj : w.isAdj with
  | true =>
    have hnot := WordSpec.not_mem_merged_adjective hadj hfound hveto hu
    simp [hnot]
  | false =>
    have hnot := WordSpec.not_mem_nounTags ht hadj hfound hveto hu
    have hmerged : ∀ v, v ≠ .has .sg → (v ∈ w.merged found ↔ v ∈ w.nounTags found) := by
      intro v hv
      rw [WordSpec.mem_merged_noun hadj, or_iff_left fun h => hv h.1]
    have hpl : (w.segment t found).num ≠ some .pl ↔ .has .pl ∉ w.nounTags found := by
      rw [ne_eq, num_segment_eq_pl, hmerged _ (by decide)]
    have hboth : .has .both ∉ (w.segment t found).tags ↔ .has .both ∉ w.nounTags found := by
      rw [mem_tags_segment, hmerged _ (by decide)]
      simp
    rw [WordSpec.mem_merged_noun hadj, or_iff_right hnot, hpl, hboth]
    constructor
    · rintro ⟨rfl, hpl, hboth, hproper⟩
      exact ⟨rfl, rfl, hproper, hpl, hboth⟩
    · rintro ⟨rfl, -, hproper, hpl, hboth⟩
      exact ⟨rfl, hpl, hboth, hproper⟩

/-- The son is read without the type that is vetoed. -/
theorem shows_vetoed_iff_of_filius :
    ∃ w s, WordSpec.read "fīlius<2.-ius>" = .ok w ∧
      Segment.read .latin "fīlius<2.-ius>" = .ok s ∧ .veto (.has .ius) ∈ w.tags ∧
      .has .ius ∉ w.tags ∧ ¬ s.Shows (.has .ius) := by
  obtain ⟨w, hw, hveto, hnot⟩ : ∃ w, WordSpec.read "fīlius<2.-ius>" = .ok w ∧
      .veto (.has .ius) ∈ w.tags ∧ .has .ius ∉ w.tags := ⟨_, rfl, by decide, by decide⟩
  obtain ⟨s, hs⟩ : ∃ s, Segment.read .latin "fīlius<2.-ius>" = .ok s := ⟨_, rfl⟩
  refine ⟨w, s, hw, hs, hveto, hnot, ?_⟩
  rw [shows_vetoed_iff Tables.givesOnce_latin hw hs hveto hnot]
  rintro ⟨h, -⟩
  cases h

/-- Rome is singular even where it is barred from the singular. -/
theorem shows_vetoed_of_roma :
    ∃ w s, WordSpec.read "Rōma<1.-sg>" = .ok w ∧ Segment.read .latin "Rōma<1.-sg>" = .ok s ∧
      .veto (.has .sg) ∈ w.tags ∧ .has .sg ∉ w.tags ∧ s.Shows (.has .sg) := by
  obtain ⟨s, hs, hnum⟩ : ∃ s, Segment.read .latin "Rōma<1.-sg>" = .ok s ∧ s.num = some .sg :=
    ⟨_, rfl, rfl⟩
  have hshows : s.Shows (.has Number.sg.trait) := .number hnum
  exact ⟨_, s, rfl, hs, by decide, by decide, hshows⟩

end Segment

end Declension
