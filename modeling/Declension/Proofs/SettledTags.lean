import Declension.Proofs.Vetoes

/-!
# Tags that are left to the fields

Place and number of a word are taken out of its tags and told by fields of the segment, and a gender
that is among them is told by a field too. Main statement: `Segment.isSettled_iff`, which says when
the tags that are left tell no number and one gender at most.
-/
namespace Declension

/-- Two tags that a noun does not take both from its ending: genders or numbers. -/
inductive Exclusive : Tag → Tag → Prop
  | gender {u v : Tag} (hne : u ≠ v) (hu : isGenderTag u) (hv : isGenderTag v) : Exclusive u v
  | number {u v : Tag} (hne : u ≠ v) (hu : isNumberTag u) (hv : isNumberTag v) : Exclusive u v

namespace Exclusive
variable {u v : Tag}

theorem symm (h : Exclusive u v) : Exclusive v u := by
  cases h with
  | gender hne hu hv => exact .gender hne.symm hv hu
  | number hne hu hv => exact .number hne.symm hv hu

theorem ne (h : Exclusive u v) : u ≠ v := by
  cases h with
  | gender hne | number hne => exact hne

theorem ne_veto (h : Exclusive u v) (t : Tag) : u ≠ .veto t := by
  rintro rfl
  cases h with
  | gender _ hu | number _ hu => cases hu

end Exclusive

section Merge
variable {written : TagSet} {t u v : Tag}

/-- What a noun takes from its ending excludes none of what it had. -/
theorem not_exclusive_of_mem_implyNoun (hnew : t ∉ written) (hmem : t ∈ implyNoun written t)
    (hv : v ∈ written) : ¬ Exclusive t v := by
  intro hexclusive
  unfold implyNoun at hmem
  split_ifs at hmem with hveto hgender hnumber
  · exact hnew (TagSet.mem_drop.mp hmem).1
  · exact hnew hmem
  · exact hnew hmem
  · cases hexclusive with
    | gender _ ht hkind =>
      exact hgender (Bool.and_eq_true_iff.mpr ⟨ht, List.any_eq_true.mpr ⟨v, hv, hkind⟩⟩)
    | number _ ht hkind =>
      exact hnumber (Bool.and_eq_true_iff.mpr ⟨ht, List.any_eq_true.mpr ⟨v, hv, hkind⟩⟩)

theorem both_mem_implyNoun_iff (h : Exclusive u v) :
    u ∈ implyNoun written t ∧ v ∈ implyNoun written t ↔ u ∈ written ∧ v ∈ written := by
  constructor
  · rintro ⟨hu, hv⟩
    by_cases hwu : u ∈ written
    · by_cases hwv : v ∈ written
      · exact ⟨hwu, hwv⟩
      · obtain rfl := (mem_of_mem_implyNoun hv).resolve_left hwv
        exact absurd h.symm (not_exclusive_of_mem_implyNoun hwv hv hwu)
    · obtain rfl := (mem_of_mem_implyNoun hu).resolve_left hwu
      rcases mem_of_mem_implyNoun hv with hwv | hvu
      · exact absurd h (not_exclusive_of_mem_implyNoun hwu hu hwv)
      · exact absurd hvu.symm h.ne
  · rintro ⟨hu, hv⟩
    exact ⟨mem_implyNoun_of_mem (h.ne_veto t) hu, mem_implyNoun_of_mem (h.symm.ne_veto t) hv⟩

theorem both_mem_foldl_implyNoun_iff {tags : List Tag} (h : Exclusive u v) :
    u ∈ tags.foldl implyNoun written ∧ v ∈ tags.foldl implyNoun written ↔
      u ∈ written ∧ v ∈ written := by
  induction tags generalizing written with
  | nil => exact Iff.rfl
  | cons t tags ih => rw [List.foldl_cons, ih, both_mem_implyNoun_iff h]

end Merge

/-- The tags of a segment leave number and place to its fields, and its gender is the only one
among them. -/
structure Segment.IsSettled (s : Segment) : Prop where
  sg : .has .sg ∉ s.tags
  pl : .has .pl ∉ s.tags
  loc : .has .loc ∉ s.tags
  oneGender : ∀ g g' : Gender, .has g.trait ∈ s.tags → .has g'.trait ∈ s.tags → g = g'
  gender : ∀ g : Gender, s.gender = some g ↔ .has g.trait ∈ s.tags

/-- Tags that tell no two numbers and no two genders. -/
structure IsConcordant (tags : List Tag) : Prop where
  number : ¬ (.has .sg ∈ tags ∧ .has .pl ∈ tags)
  gender : ∀ g g' : Gender, g ≠ g' → ¬ (.has g.trait ∈ tags ∧ .has g'.trait ∈ tags)

theorem exclusive_gender {g g' : Gender} (h : g ≠ g') :
    Exclusive (.has g.trait) (.has g'.trait) := by
  refine .gender (fun he => h ?_) g.isGenderTag_trait g'.isGenderTag_trait
  exact Gender.trait_injective (Tag.has.inj he)

theorem isConcordant_congr {tags more : List Tag}
    (h : ∀ u v, Exclusive u v → (u ∈ tags ∧ v ∈ tags ↔ u ∈ more ∧ v ∈ more)) :
    IsConcordant tags ↔ IsConcordant more := by
  have hnumber := h _ _ (.number (by decide : Tag.has .sg ≠ .has .pl) rfl rfl)
  have hgender : ∀ g g' : Gender, g ≠ g' → _ := fun g g' hne => h _ _ (exclusive_gender hne)
  constructor
  · intro htags
    exact ⟨mt hnumber.mpr htags.number, fun g g' hne =>
      mt (hgender g g' hne).mpr (htags.gender g g' hne)⟩
  · intro hmore
    exact ⟨mt hnumber.mp hmore.number, fun g g' hne =>
      mt (hgender g g' hne).mp (hmore.gender g g' hne)⟩

namespace WordSpec
variable {t : Tables} {w : WordSpec} {found : Classification} {u v : Tag}

/-- What decides the number and gender of a word: of a noun what is written, of an adjective what
its ending implies too. -/
def told (w : WordSpec) (found : Classification) : List Tag :=
  if w.isAdj then w.tags ++ found.tags else w.tags

/-- A proper name is singular by default only if it has no other number. -/
theorem both_mem_merged_iff (hnoun : w.isAdj = false) (h : Exclusive u v) :
    u ∈ w.merged found ∧ v ∈ w.merged found ↔ u ∈ w.tags ∧ v ∈ w.tags := by
  have hdefault : ∀ {v : Tag}, Exclusive (.has .sg) v → v ∈ w.merged found →
      .has .pl ∉ w.nounTags found → .has .both ∉ w.nounTags found → False := by
    intro v hexclusive hv hpl hboth
    cases hexclusive with
    | gender _ hsg => cases hsg
    | number hne _ hkind =>
      have hv : v ∈ w.nounTags found := by
        rcases (mem_merged_noun hnoun).mp hv with hv | ⟨rfl, _⟩
        · exact hv
        · exact absurd rfl hne
      simp only [isNumberTag, Bool.or_eq_true, decide_eq_true_eq] at hkind
      rcases hkind with (rfl | rfl) | rfl
      · exact hne rfl
      · exact hpl hv
      · exact hboth hv
  have hfold : u ∈ w.nounTags found ∧ v ∈ w.nounTags found ↔ u ∈ w.tags ∧ v ∈ w.tags :=
    both_mem_foldl_implyNoun_iff h
  rw [← hfold]
  constructor
  · rintro ⟨hu, hv⟩
    rcases (mem_merged_noun hnoun).mp hu with hu' | ⟨rfl, hpl, hboth, _⟩
    · rcases (mem_merged_noun hnoun).mp hv with hv' | ⟨rfl, hpl, hboth, _⟩
      · exact ⟨hu', hv'⟩
      · exact (hdefault h.symm hu hpl hboth).elim
    · exact (hdefault h hv hpl hboth).elim
  · rintro ⟨hu, hv⟩
    exact ⟨(mem_merged_noun hnoun).mpr (.inl hu), (mem_merged_noun hnoun).mpr (.inl hv)⟩

theorem isConcordant_merged_iff (h : w.classify t = .ok found) :
    IsConcordant (w.merged found) ↔ IsConcordant (w.told found) := by
  apply isConcordant_congr
  intro u v hexclusive
  cases hadj : w.isAdj with
  | true =>
    rw [mem_merged_adjective hadj h, mem_merged_adjective hadj h, told, if_pos hadj,
      List.mem_append, List.mem_append]
  | false =>
    rw [both_mem_merged_iff hadj hexclusive, told, if_neg (by simp [hadj])]

end WordSpec

namespace Segment
variable {t : Tables} {text : String} {s : Segment} {w : WordSpec} {found : Classification}

theorem pl_not_mem_segment : .has .pl ∉ (w.segment t found).tags := by
  intro hpl
  obtain ⟨hmem, hnot, _⟩ := mem_tags_segment.mp hpl
  exact hnot hmem rfl

theorem loc_not_mem_segment : .has .loc ∉ (w.segment t found).tags :=
  fun hloc => (mem_tags_segment.mp hloc).2.2.2 rfl

theorem mem_gender_segment (g : Gender) :
    .has g.trait ∈ (w.segment t found).tags ↔ .has g.trait ∈ w.merged found := by
  rw [mem_tags_segment]
  cases g <;> simp [Gender.trait]

theorem gender_segment : (w.segment t found).gender =
    Gender.all.find? fun g => (w.segment t found).tags.has g.trait := by
  have htags : (fun g : Gender => (w.segment t found).tags.has g.trait) =
      fun g => (w.merged found).has g.trait := by
    funext g
    rw [Bool.eq_iff_iff, TagSet.has_iff, TagSet.has_iff, mem_gender_segment]
  rw [htags]
  unfold WordSpec.segment
  split
  · exact gender_settle
  · exact gender_settle

theorem isSettled_segment_iff :
    (w.segment t found).IsSettled ↔ IsConcordant (w.merged found) := by
  have hsg : .has .sg ∈ (w.segment t found).tags ↔
      .has .sg ∈ w.merged found ∧ .has .pl ∈ w.merged found := by
    rw [mem_tags_segment]
    by_cases hpl : .has .pl ∈ w.merged found
    · simp [hpl]
    · simp [hpl]
  constructor
  · intro h
    refine ⟨mt hsg.mpr h.sg, fun g g' hne hboth => hne (h.oneGender g g' ?_ ?_)⟩
    · exact (mem_gender_segment g).mpr hboth.1
    · exact (mem_gender_segment g').mpr hboth.2
  · intro h
    have hone : ∀ g g' : Gender, .has g.trait ∈ (w.segment t found).tags →
        .has g'.trait ∈ (w.segment t found).tags → g = g' := by
      intro g g' hg hg'
      by_contra hne
      exact h.gender g g' hne ⟨(mem_gender_segment g).mp hg, (mem_gender_segment g').mp hg'⟩
    refine ⟨mt hsg.mp h.number, pl_not_mem_segment, loc_not_mem_segment, hone, fun g => ?_⟩
    · rw [gender_segment]
      constructor
      · intro hg
        have hhas := List.find?_some hg
        exact TagSet.has_iff.mp hhas
      · intro hg
        have hfind : (Gender.all.find? fun g => (w.segment t found).tags.has g.trait).isSome :=
          List.find?_isSome.mpr ⟨g, g.mem_all, TagSet.has_iff.mpr hg⟩
        obtain ⟨g', hg'⟩ := Option.isSome_iff_exists.mp hfind
        have hhas := List.find?_some hg'
        rw [hg', hone g' g (TagSet.has_iff.mp hhas) hg]

/-- A segment never has the plural or the locative among its tags, and its gender is the first of
masculine, feminine and neuter that is. It is settled just if no two numbers and no two genders are
told: by the text of a noun, whose ending gives way to it, and by the text and the ending of an
adjective together. -/
theorem isSettled_iff (hs : Segment.read t text = .ok s) :
    ∃ w found, WordSpec.read text = .ok w ∧ w.classify t = .ok found ∧
      .has .pl ∉ s.tags ∧ .has .loc ∉ s.tags ∧
      s.gender = (Gender.all.find? fun g => s.tags.has g.trait) ∧
      (s.IsSettled ↔ IsConcordant (w.told found)) := by
  obtain ⟨w, found, hw, hfound, rfl⟩ := exists_of_read hs
  refine ⟨w, found, hw, hfound, pl_not_mem_segment, loc_not_mem_segment, gender_segment, ?_⟩
  rw [isSettled_segment_iff, WordSpec.isConcordant_merged_iff hfound]

/-- Good men, of whom the ending tells the number and the text the gender. -/
theorem isSettled_of_boni :
    ∃ s, Segment.read .latin "bonī<+.M>" = .ok s ∧ s.num = some .pl ∧ s.IsSettled := by
  obtain ⟨s, hs, hnum⟩ : ∃ s, Segment.read .latin "bonī<+.M>" = .ok s ∧ s.num = some .pl :=
    ⟨_, rfl, by decide⟩
  obtain ⟨w, found, hw, hfound, -, -, -, hiff⟩ := isSettled_iff hs
  have hwritten : WordSpec.read "bonī<+.M>" = .ok ⟨"bonī", none, true, "", [.has .M]⟩ := rfl
  obtain rfl := Except.ok.inj (hw.symm.trans hwritten)
  have hending : WordSpec.classify ⟨"bonī", none, true, "", [.has .M]⟩ .latin =
      .ok ⟨"bon", some "bon", "1&2", [.has .pl]⟩ := rfl
  obtain rfl := Except.ok.inj (hfound.symm.trans hending)
  refine ⟨s, hs, hnum, hiff.mpr ⟨by decide, fun g g' hne => ?_⟩⟩
  cases g <;> cases g' <;> revert hne <;> decide

/-- Good men that are called singular are plural, and the singular stays among their tags. -/
theorem not_isSettled_of_boni :
    ∃ s, Segment.read .latin "bonī<+.sg>" = .ok s ∧ s.num = some .pl ∧ ¬ s.IsSettled := by
  obtain ⟨s, hs, hnum, hsg⟩ : ∃ s, Segment.read .latin "bonī<+.sg>" = .ok s ∧
      s.num = some .pl ∧ .has .sg ∈ s.tags := ⟨_, rfl, by decide, by decide⟩
  exact ⟨s, hs, hnum, fun h => h.sg hsg⟩

end Segment

end Declension
