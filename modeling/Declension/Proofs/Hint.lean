import Declension.Proofs.GuessedClass

/-!
# Traits in the place of a class

A trait may be written before the plus sign of an adjective, where its class would stand. It is
looked at while the class is guessed and then forgotten; among the tags it stays with the word.
Main statement: `Segment.read_hint`.
-/
namespace Declension

namespace Tag

theorem name_of_ofChars? {s : List Char} {u : Tag} (h : ofChars? s = some u) :
    u.name.toList = s := by
  fun_induction ofChars? s generalizing u with
  | case1 r ih =>
    obtain ⟨v, hv, rfl⟩ := Option.map_eq_some_iff.mp h
    simp [name, ih hv]
  | case2 r ih =>
    obtain ⟨v, hv, rfl⟩ := Option.map_eq_some_iff.mp h
    simp [name, ih hv]
  | case3 s =>
    obtain ⟨x, hx, rfl⟩ := Option.map_eq_some_iff.mp h
    simpa [name] using List.find?_some hx

theorem plus_not_mem_name (u : Tag) : '+' ∉ u.name.toList := by
  induction u with
  | has x => cases x <;> decide
  | veto u ih => simpa [name] using ih
  | lacks u ih => simpa [name] using ih

theorem plus_not_mem_of_ofName? {s : String} {u : Tag} (h : ofName? s = some u) :
    '+' ∉ s.toList := by
  rw [← name_of_ofChars? h]
  exact plus_not_mem_name u

end Tag

namespace Segment

/-- The tags of a word, with those that its fields of place and number stand for. -/
def allTags (s : Segment) : TagSet :=
  s.tags ++ (if s.loc then [.has .loc] else []) ++
    match s.num with
    | some .pl => [.has .pl]
    | some .sg => [.has .sg]
    | none => []

theorem mem_allTags {s : Segment} {u : Tag} : u ∈ s.allTags ↔
    u ∈ s.tags ∨ s.loc ∧ u = .has .loc ∨ s.num = some .pl ∧ u = .has .pl ∨
      s.num = some .sg ∧ u = .has .sg := by
  cases hnum : s.num with
  | none => simp [allTags, hnum]
  | some n => cases n <;> simp [allTags, hnum]

/-- A segment without its tags. -/
def untagged (s : Segment) : Segment := { s with tags := [] }

/-- A segment without anything it says of traits. -/
def bare (s : Segment) : Segment := { s with gender := none, num := none, loc := false, tags := [] }

/-- Two segments that differ at most in the order of their tags. -/
structure SameAs (s s' : Segment) : Prop where
  mem : ∀ u, u ∈ s.tags ↔ u ∈ s'.tags
  rest : s.untagged = s'.untagged

/-- One segment has the tags of another and a further one. -/
structure Gains (s s' : Segment) (u : Tag) : Prop where
  mem : ∀ v, v ∈ s'.allTags ↔ v ∈ s.allTags ∨ v = u
  rest : s.bare = s'.bare

theorem SameAs.mem_allTags {s s' : Segment} (h : s.SameAs s') (u : Tag) :
    u ∈ s.allTags ↔ u ∈ s'.allTags := by
  have hloc : s.untagged.loc = s'.untagged.loc := congrArg Segment.loc h.rest
  have hnum : s.untagged.num = s'.untagged.num := congrArg Segment.num h.rest
  dsimp only [untagged] at hloc hnum
  rw [Segment.mem_allTags, Segment.mem_allTags, h.mem, hloc, hnum]

end Segment

section Settle
variable {decl : String} {headword : HeadwordClass} {isAdj : Bool} {found : Classification}
  {word linkedWord : String} {tags more : TagSet}

/-- Every tag is kept, be it by a field. -/
theorem mem_allTags_settle {u : Tag} :
    u ∈ (settle decl headword isAdj found word linkedWord tags).allTags ↔ u ∈ tags := by
  have hloc : (settle decl headword isAdj found word linkedWord tags).loc ↔ .has .loc ∈ tags :=
    TagSet.has_iff
  have hpl : (settle decl headword isAdj found word linkedWord tags).num = some .pl ↔
      .has .pl ∈ tags := by
    rw [num_settle, ← TagSet.has_iff]
    cases tags.has .pl <;> cases tags.has .sg <;> simp
  have hsg : (settle decl headword isAdj found word linkedWord tags).num = some .sg ↔
      .has .pl ∉ tags ∧ .has .sg ∈ tags := by
    rw [num_settle, ← TagSet.has_iff, ← TagSet.has_iff]
    cases tags.has .pl <;> cases tags.has .sg <;> simp
  rw [Segment.mem_allTags, mem_tags_settle, hloc, hpl, hsg]
  constructor
  · rintro (⟨h, _⟩ | ⟨h, rfl⟩ | ⟨h, rfl⟩ | ⟨⟨_, h⟩, rfl⟩)
    all_goals exact h
  · intro h
    by_cases hloc : u = .has .loc
    · exact .inr (.inl ⟨hloc ▸ h, hloc⟩)
    by_cases hpl : u = .has .pl
    · exact .inr (.inr (.inl ⟨hpl ▸ h, hpl⟩))
    by_cases hsg : .has .pl ∉ tags ∧ u = .has .sg
    · exact .inr (.inr (.inr ⟨⟨hsg.1, hsg.2 ▸ h⟩, hsg.2⟩))
    · exact .inl ⟨h, fun _ => hpl, fun hnot _ hu => hsg ⟨hnot, hu⟩, hloc⟩

/-- Only the order of the tags comes from theirs. -/
theorem settle_sameAs (h : ∀ u, u ∈ tags ↔ u ∈ more) :
    (settle decl headword isAdj found word linkedWord tags).SameAs
      (settle decl headword isAdj found word linkedWord more) := by
  have hhas : ∀ x, tags.has x = more.has x := fun x => by
    rw [Bool.eq_iff_iff, TagSet.has_iff, TagSet.has_iff, h]
  have hdrop : ∀ u x, (tags.drop u).has x = (more.drop u).has x := fun u x => by
    rw [Bool.eq_iff_iff, TagSet.has_iff, TagSet.has_iff, TagSet.mem_drop, TagSet.mem_drop, h]
  refine ⟨fun u => ?_, ?_⟩
  · simp only [mem_tags_settle, h]
  · rw [Segment.untagged, Segment.untagged, Segment.mk.injEq]
    refine ⟨rfl, rfl, rfl, rfl, rfl, rfl, rfl, ?_, ?_, hhas .loc, rfl, rfl, rfl⟩
    · simp only [settle, hdrop]
    · simp only [num_settle, hhas]

end Settle

section Guess
variable {t : Tables} {word linkedWord hint : String} {oblique : Option String}
  {written more : TagSet} {found : Classification} {u : Tag}

theorem adjectiveExcluded_congr (h : ∀ v, v ∈ written ↔ v ∈ more) (e : EndingEntry) :
    e.adjectiveExcluded written = e.adjectiveExcluded more := by
  have hcontains : ∀ v, written.contains v = more.contains v := fun v => by
    rw [Bool.eq_iff_iff, List.contains_iff_mem, List.contains_iff_mem, h]
  have hclash : EndingEntry.adjectiveClash written = EndingEntry.adjectiveClash more := by
    funext v
    simp only [EndingEntry.adjectiveClash, hcontains]
  simp only [EndingEntry.adjectiveExcluded, EndingEntry.missesPlural, TagSet.has, hcontains, hclash]

theorem guessAdjective_congr (h : ∀ v, v ∈ written ↔ v ∈ more) :
    t.guessAdjective word oblique written = t.guessAdjective word oblique more := by
  have hbase : ∀ e : EndingEntry, e.adjectiveBase? word oblique written =
      e.adjectiveBase? word oblique more := fun e => by
    rw [EndingEntry.adjectiveBase?, EndingEntry.adjectiveBase?, adjectiveExcluded_congr h]
  have hmatch : ∀ table, matchAdjective t table word oblique "" written =
      matchAdjective t table word oblique "" more := fun table => by
    simp only [matchAdjective, hbase]
  simp only [Tables.guessAdjective, hmatch]

/-- No tag that a walk finds is a veto or vetoed. -/
theorem not_veto_of_matchAdjective {table : EndingTable} {fallback : String}
    (h : matchAdjective t table word oblique fallback written = some found) :
    ∀ v ∈ found.tags, (∀ x, v ≠ .veto x) ∧ .veto v ∉ written := by
  obtain ⟨⟨e, base⟩, hfirst, _⟩ := Option.map_eq_some_iff.mp h
  rw [matchAdjective_of_first hfirst] at h
  obtain rfl := Option.some.inj h
  obtain ⟨_, hbase⟩ := mem_of_firstWithBase hfirst
  obtain ⟨hopen, _⟩ := EndingEntry.adjectiveBase?_eq_some_iff.mp hbase
  intro v hv
  obtain ⟨hmem, hpositive⟩ := List.mem_filter.mp hv
  refine ⟨?_, EndingEntry.veto_not_mem hopen v hmem⟩
  rintro x rfl
  cases hpositive

theorem not_veto_of_guessAdjective (h : t.guessAdjective word oblique written = .ok found) :
    ∀ v ∈ found.tags, (∀ x, v ≠ .veto x) ∧ .veto v ∉ written := by
  obtain ⟨_, _, table, _, hmatch⟩ := Tables.exists_table_of_guessAdjective h
  exact not_veto_of_matchAdjective hmatch

theorem classifyAdjective_of_hint (hhint : Tables.namesClass hint = false) (hne : hint ≠ "") :
    t.classifyAdjective word oblique hint written =
      t.guessAdjective word oblique ((Tag.ofName? hint).elim written written.add) := by
  rw [Tables.classifyAdjective, if_neg hne, if_pos (by simp [hhint])]
  cases Tag.ofName? hint <;> rfl

theorem adjectiveSegment_of_unknown (hhint : Tables.namesClass hint = false)
    (hname : Tag.ofName? hint = none) :
    adjectiveSegment t word linkedWord oblique hint written =
      adjectiveSegment t word linkedWord oblique "" written := by
  by_cases hne : hint = ""
  · rw [hne]
  · rw [adjectiveSegment, classifyAdjective_of_hint hhint hne, hname]
    rfl

/-- A trait that is given as a hint decides the same as one among the tags, but is not kept. -/
theorem agree_adjectiveSegment (hhint : Tables.namesClass hint = false)
    (hname : Tag.ofName? hint = some u) (hmore : ∀ v, v ∈ more ↔ v ∈ written ∨ v = u) :
    Agree (fun s s' => s.Gains s' u ∧ (s.SameAs s' ↔ u ∈ s.allTags))
      (adjectiveSegment t word linkedWord oblique hint written)
      (adjectiveSegment t word linkedWord oblique "" more) := by
  have hne : hint ≠ "" := by
    rintro rfl
    cases hname
  have hguess : t.classifyAdjective word oblique hint written =
      t.classifyAdjective word oblique "" more := by
    rw [classifyAdjective_of_hint hhint hne, hname]
    exact guessAdjective_congr fun v => TagSet.mem_add.trans (hmore v).symm
  rw [adjectiveSegment, adjectiveSegment, hguess]
  cases hfound : t.classifyAdjective word oblique "" more with
  | error f => exact .error f
  | ok found =>
    have hveto := not_veto_of_guessAdjective hfound
    have htags : ∀ v, v ∈ found.tags.foldl implyAdjective written ↔
        v ∈ written ∨ v ∈ found.tags := fun v =>
      mem_foldl_implyAdjective (fun w hw => (hveto w hw).1) fun w hw hmem =>
        (hveto w hw).2 ((hmore _).mpr (.inl hmem))
    have htags' : ∀ v, v ∈ found.tags.foldl implyAdjective more ↔
        v ∈ more ∨ v ∈ found.tags := fun v =>
      mem_foldl_implyAdjective (fun w hw => (hveto w hw).1) fun w hw => (hveto w hw).2
    have hgains : ∀ v, v ∈ found.tags.foldl implyAdjective more ↔
        v ∈ found.tags.foldl implyAdjective written ∨ v = u := fun v => by
      rw [htags, htags', hmore, or_right_comm]
    refine .ok ⟨⟨fun v => ?_, rfl⟩, fun hsame => ?_, fun hu => settle_sameAs fun v => ?_⟩
    · rw [mem_allTags_settle, mem_allTags_settle, hgains]
    · rw [hsame.mem_allTags, mem_allTags_settle, hgains]
      exact .inr rfl
    · rw [mem_allTags_settle] at hu
      rw [hgains]
      exact ⟨.inl, fun hv => hv.elim id fun he => he ▸ hu⟩

end Guess

theorem splitStems_text (stems : List Char) (a b : String) :
    (splitStems stems a).toOption = (splitStems stems b).toOption := by
  unfold splitStems
  split <;> rfl

namespace Segment
variable {t : Tables} {word hint : String} {oblique : Option String} {tags : List String}

/-- An adjective is read if its stems and its tags are and the class is told by its ending. -/
theorem toOption_read_adjective (hint : String) (hplus : '+' ∉ hint.toList)
    (hfields : ∀ f ∈ hint :: tags, IsField f) :
    (read t (wordText word oblique ((hint ++ "+") :: tags))).toOption =
      (splitStems (word ++ oblique.elim "" ("/" ++ ·)).toList "").toOption.bind
        fun (linkedWord, stem) => (tags.mapM readTag).toOption.bind fun written =>
          (adjectiveSegment t (Text.unlink linkedWord) linkedWord stem hint
            (.ofList written)).toOption := by
  have hfields : ∀ f ∈ (hint ++ "+") :: tags, IsField f := by
    obtain ⟨hhint, htags⟩ := List.forall_mem_cons.mp hfields
    refine List.forall_mem_cons.mpr ⟨?_, htags⟩
    simpa [IsField] using hhint
  have hmem : '+' ∈ (hint ++ "+").toList := by simp
  have hfilter : (hint ++ "+").toList.filter (· ≠ '+') = hint.toList := by
    rw [String.toList_append, List.filter_append, List.filter_eq_self.mpr]
    · simp
    · intro c hc
      rw [decide_eq_true_eq]
      rintro rfl
      exact hplus hc
  rw [read_wordText_eq hfields]
  simp only [toOption_bind, if_pos hmem, hfilter, String.ofList_toList]
  rw [splitStems_text _ _ ""]

/-- A trait that stands in the place of the class, and not among the tags, tells the class and the
stems as well, but it is lost: the two segments are the same just if the ending or a further tag
gives it again. What is no tag is refused among the tags, and overlooked in the place of the
class. -/
theorem read_hint (hhint : Tables.namesClass hint = false)
    (hfields : ∀ f ∈ hint :: tags, IsField f) :
    (∀ u, readTag hint = .ok u → Tag.ofName? hint = some u →
      Option.Rel (fun s s' => s.Gains s' u ∧ (s.SameAs s' ↔ u ∈ s.allTags))
        (read t (wordText word oblique ((hint ++ "+") :: tags))).toOption
        (read t (wordText word oblique ("+" :: hint :: tags))).toOption) ∧
    ((∀ u, readTag hint ≠ .ok u) →
      (read t (wordText word oblique ("+" :: hint :: tags))).toOption = none) ∧
    (Tag.ofName? hint = none → '+' ∉ hint.toList →
      (read t (wordText word oblique ((hint ++ "+") :: tags))).toOption =
        (read t (wordText word oblique ("+" :: tags))).toOption) := by
  have hopen : ∀ fields, (∀ f ∈ fields, IsField f) →
      (read t (wordText word oblique ("+" :: fields))).toOption = _ := fun fields h =>
    toOption_read_adjective "" (by decide) (List.forall_mem_cons.mpr ⟨by decide, h⟩)
  obtain ⟨_, htags⟩ := List.forall_mem_cons.mp hfields
  rw [hopen (hint :: tags) hfields, hopen tags htags]
  refine ⟨fun u hread hname => ?_, fun hread => ?_, fun hname hplus => ?_⟩
  · rw [toOption_read_adjective hint (Tag.plus_not_mem_of_ofName? hname) hfields]
    cases (splitStems (word ++ oblique.elim "" ("/" ++ ·)).toList "").toOption with
    | none => exact .none
    | some stems =>
      rw [Option.bind_some, Option.bind_some, List.mapM_cons, hread]
      cases tags.mapM readTag with
      | error f => exact .none
      | ok written =>
        refine (agree_adjectiveSegment hhint hname fun v => ?_).toOption
        simp [TagSet.mem_ofList, or_comm]
  · cases (splitStems (word ++ oblique.elim "" ("/" ++ ·)).toList "").toOption with
    | none => rfl
    | some stems =>
      rw [Option.bind_some, List.mapM_cons]
      cases hresult : readTag hint with
      | error f => rfl
      | ok u => exact absurd hresult (hread u)
  · rw [toOption_read_adjective hint hplus hfields]
    simp only [adjectiveSegment_of_unknown hhint hname]

/-- The ending of pulcher gives its type again. -/
theorem read_hint_of_pulcher :
    Tables.namesClass "er" = false ∧ (∀ f ∈ ["er"], IsField f) ∧
      ∃ s s', read .latin (wordText "pulcher" none ["er+"]) = .ok s ∧
        read .latin (wordText "pulcher" none ["+", "er"]) = .ok s' ∧ .has .er ∈ s.allTags ∧
        s.Gains s' (.has .er) ∧ s.SameAs s' := by
  have hhint : Tables.namesClass "er" = false := by decide
  have hfields : ∀ f ∈ ["er"], IsField f := by decide
  obtain ⟨s, hs, hmem⟩ : ∃ s, read .latin (wordText "pulcher" none ["er+"]) = .ok s ∧
      .has .er ∈ s.allTags := ⟨_, rfl, by decide⟩
  obtain ⟨s', hs'⟩ : ∃ s', read .latin (wordText "pulcher" none ["+", "er"]) = .ok s' := ⟨_, rfl⟩
  have hrel : Option.Rel (fun s s' => s.Gains s' (.has .er) ∧ (s.SameAs s' ↔ .has .er ∈ s.allTags))
      (read .latin (wordText "pulcher" none ["er+"])).toOption
      (read .latin (wordText "pulcher" none ["+", "er"])).toOption :=
    (read_hint hhint hfields).1 (.has .er) rfl rfl
  rw [hs, hs'] at hrel
  obtain ⟨hgains, hsame⟩ := Option.rel_some_some.mp hrel
  exact ⟨hhint, hfields, s, s', hs, hs', hmem, hgains, hsame.mpr hmem⟩

/-- The ligatures that are asked for in the place of the class are lost. -/
theorem not_sameAs_of_bonus :
    ∃ s s', read .latin (wordText "bonus" none ["lig+"]) = .ok s ∧
      read .latin (wordText "bonus" none ["+", "lig"]) = .ok s' ∧ ¬ s.SameAs s' := by
  refine ⟨_, _, rfl, rfl, fun hsame => ?_⟩
  exact absurd ((hsame.mem (.has .lig)).mpr (by decide)) (by decide)

end Segment
end Declension
