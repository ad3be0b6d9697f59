import Declension.Proofs.ImpliedTags

/-!
# Titles of regular nouns

A noun that is read in a regular class, with gender, number and vetoes alone, is always declined.
Its title does not come from that class alone: the classes that irregular nouns come nearest to are
looked up by the word, whatever class it is read in. Main statement: `Segment.paradigm_of_regular`,
which says what each such noun comes to.
-/
namespace Declension
open OrderedMap

theorem mem_of_mem_implyNoun {written : TagSet} {t u : Tag} (h : u ∈ implyNoun written t) :
    u ∈ written ∨ u = t := by
  unfold implyNoun at h
  split_ifs at h
  · exact .inl (TagSet.mem_drop.mp h).1
  · exact .inl h
  · exact .inl h
  · exact TagSet.mem_add.mp h

/-- The traits of an ending are only added to those that are written. -/
theorem mem_of_mem_foldl_implyNoun {tags : List Tag} {written : TagSet} {u : Tag}
    (h : u ∈ tags.foldl implyNoun written) : u ∈ written ∨ u ∈ tags := by
  induction tags generalizing written with
  | nil => exact .inl h
  | cons t tags ih =>
    rcases ih h with hmem | hmem
    · rcases mem_of_mem_implyNoun hmem with hwritten | rfl
      · exact .inl hwritten
      · exact .inr List.mem_cons_self
    · exact .inr (List.mem_cons_of_mem t hmem)

/-- A noun shows its own class if its word is not listed as irregular. Its tags are written or come
with the ending, but for the singular of a proper name. -/
theorem shown_of_nounSegment {t : Tables} {word linkedWord decl : String} {oblique : Option String}
    {written : TagSet} {s : Segment}
    (h : nounSegment t word linkedWord oblique decl written = .ok s) :
    s.word = word ∧ s.headword = headwordClass (t.irregularNounClasses.get? word) decl ∧
      ∃ found, t.classifyNoun word oblique decl written = .ok found ∧
        ∀ u ∈ s.tags, u ∈ written ∨ u ∈ found.tags ∨ u = .has .sg := by
  obtain ⟨found, hfound, h⟩ := bind_eq_ok.mp h
  obtain rfl := Except.ok.inj h
  refine ⟨rfl, rfl, found, hfound, fun u hu => ?_⟩
  have hmem := (mem_tags_settle.mp hu).1
  split at hmem
  · rcases TagSet.mem_add.mp hmem with hmem | hmem
    · exact (mem_of_mem_foldl_implyNoun hmem).imp_right .inl
    · exact .inr (.inr hmem)
  · exact (mem_of_mem_foldl_implyNoun hmem).imp_right .inl

namespace Noun
open Third

/-- Of the third declension, only a Greek type or one in -polis asks for an ending. -/
theorem exists_third {w : Lexeme} (o : Options) (hgreek : w.has .Greek = false)
    (hpolis : w.has .polis → (Text.before "polis" w.stem).isSome) : ∃ p, third o w = .ok p := by
  have hstem : greekStem w = .ok w.stem := by
    rw [greekStem, greek?, hgreek]
    rfl
  obtain ⟨bare, hbare⟩ : ∃ bare, bareStem w w.stem = .ok bare := by
    unfold bareStem
    split
    · rename_i hhas
      obtain ⟨bare, hbare⟩ := Option.isSome_iff_exists.mp (hpolis hhas)
      exact ⟨bare, by rw [stemBefore, hbare]⟩
    · exact ⟨_, rfl⟩
  exact ⟨_, bind_eq_ok.mpr ⟨w.stem, hstem, bind_eq_ok.mpr ⟨bare, hbare, rfl⟩⟩⟩

/-- No declension titles a noun. -/
theorem title_eq_none {e : Engine} {w : Lexeme} {c : Class} {p : Paradigm}
    (hindeclinable : c ≠ .indeclinable) (hirregular : c ≠ .irregular)
    (h : decline e w c = .ok p) : p.title = none := by
  cases c with
  | third =>
    obtain ⟨greek, _, h⟩ := bind_eq_ok.mp h
    obtain ⟨bare, _, h⟩ := bind_eq_ok.mp h
    rw [← Except.ok.inj h]
  | indeclinable => exact absurd rfl hindeclinable
  | irregular => exact absurd rfl hirregular
  | _ => rw [← Except.ok.inj h]; rfl

end Noun

/-- A name that ends in -polis is what the entry of that type takes. -/
theorem isSome_before_polis {e : EndingEntry} {word : String} (he : e ∈ Segment.thirdEntries)
    (hpolis : .has .polis ∈ e.tags) (h : (e.ending.base? word).isSome) :
    (Text.before "polis" word).isSome := by
  have hentry : ∀ e ∈ Segment.thirdEntries, .has .polis ∈ e.tags → e.ending.agrees
      (.shaped [Latin.capital, .span, .one 'p', .one 'o', .one 'l'] [.one 'i', .one 's']) := by
    decide
  obtain ⟨base, hbase⟩ := Option.isSome_iff_exists.mp h
  rw [Ending.eq_of_agrees (hentry e he hpolis)] at hbase
  obtain ⟨back, hline, hfront, hback⟩ := Ending.exists_of_base?_shaped hbase
  rw [Atom.fits_iff_eq (rfl : [Atom.one 'i', .one 's'].mapM Atom.char? = some ['i', 's'])] at hback
  cases hchars : base.toList with
  | nil =>
    rw [hchars] at hfront
    cases hfront
  | cons c chars =>
    rw [hchars, Latin.capital, Atom.fits_oneOf, Atom.fits_span] at hfront
    obtain ⟨hcapital, front, tail, rfl, hbreak, htail⟩ := hfront
    rw [Atom.fits_iff_eq
      (rfl : [Atom.one 'p', .one 'o', .one 'l'].mapM Atom.char? = some ['p', 'o', 'l'])] at htail
    have hc : c ≠ '\n' := by
      rintro rfl
      revert hcapital
      decide
    have hbefore : Text.before "polis" word = some (String.ofList (c :: front)) := by
      refine Text.before_eq_some_iff.mpr ⟨?_, ?_⟩
      · rw [hline, hchars, htail, hback]
        simp
      · simpa [hbreak] using hc.symm
    rw [hbefore]
    rfl

namespace Tables
variable {word decl : String} {oblique : Option String} {written : TagSet}
  {found : Classification}

/-- A tag that may come with the ending of a noun: it gives a trait, and none of spelling. -/
def IsEndingTag (u : Tag) : Prop := u.isPositive ∧ u ≠ .has .sufn

instance (u : Tag) : Decidable (IsEndingTag u) := inferInstanceAs (Decidable (_ ∧ _))

theorem isEndingTag_of_classifyByTable {base : String} {tags : List Tag}
    (h : latin.classifyByTable word oblique decl written = .ok (base, tags)) :
    ∀ u ∈ tags, IsEndingTag u := by
  have htables : ∀ p ∈ Latin.nounEndings.entries, ∀ e ∈ p.2.entries, ∀ u ∈ e.tags,
      IsEndingTag u := by
    decide
  obtain ⟨table, htable, _⟩ := bind_eq_ok.mp h
  obtain ⟨e, he, rfl, _⟩ := mem_of_classifyByTable htable h
  unfold nounTable at htable
  split at htable
  · rename_i hget
    cases htable
    exact htables (decl, table) (mem_of_find hget) e he
  · cases htable

/-- What tells a noun of the third declension apart: it is not Greek, and a type in -polis comes
with that ending. -/
theorem third_of_classifyThird (hgreek : written.has .Greek = false)
    (h : latin.classifyThird word oblique written = .ok found) :
    (∀ u ∈ found.tags, IsEndingTag u ∧ u ≠ .has .Greek) ∧
      (.has .polis ∈ found.tags → (Text.before "polis" found.stem).isSome) := by
  cases hpl : written.has .pl with
  | false =>
    have htable : ∀ e ∈ Segment.thirdEntries, ∀ u ∈ e.tags,
        IsEndingTag u ∧ u ≠ .has .Greek := by
      decide
    obtain ⟨hstem, _, htags⟩ := Segment.tags_of_classifyThird hgreek hpl h
    rcases htags with htags | ⟨e, he, htags, hbase⟩
    · rw [htags]
      simp
    · rw [← htags, hstem]
      exact ⟨htable e he, fun hpolis => isSome_before_polis he hpolis hbase⟩
  | true =>
    rw [classifyThird, if_pos hpl] at h
    have hmem : ∀ u, u ∈ found.tags ↔ _ := fun u =>
      mem_tags_of_classifyThirdPlural hgreek h (u := u)
    refine ⟨fun u hu => ?_, fun hpolis => ?_⟩
    · rcases (hmem u).mp hu with ⟨rfl, _⟩ | ⟨rfl | rfl, _⟩
      all_goals decide
    · simp [hmem] at hpolis

theorem isEndingTag_of_classifyNoun (hwritten : ∀ u ∈ written, IsNounTag u)
    (hdecl : decl ∈ "indecl" :: Segment.regularClasses)
    (h : latin.classifyNoun word oblique decl written = .ok found) :
    ∀ u ∈ found.tags, IsEndingTag u := by
  by_cases htable : decl ∈ ["1", "2", "4", "5"]
  · have hlong : decl = "4" → ¬ ∃ x ∈ longOTypes, .has x ∈ written := by
      have hkind : ∀ x ∈ longOTypes, x.isKind ∧ x ≠ .N := by decide
      rintro - ⟨x, hx, hmem⟩
      exact not_mem_of_isKind hwritten (hkind x hx).1 (hkind x hx).2 hmem
    exact isEndingTag_of_classifyByTable (classifyByTable_of_classifyNoun htable hlong h)
  · have hother : decl = "indecl" ∨ decl = "0" ∨ decl = "3" := by
      simp only [Segment.regularClasses, List.mem_cons, List.not_mem_nil, or_false] at hdecl htable
      tauto
    rcases hother with rfl | rfl | rfl
    · cases h
      change ∀ u ∈ [Tag.has .sg], IsEndingTag u
      decide
    · cases h
      exact fun u hu => absurd hu List.not_mem_nil
    · have hgreek : written.has .Greek = false := not_has_of_isKind hwritten rfl (by decide)
      exact fun u hu => ((third_of_classifyThird hgreek h).1 u hu).1

end Tables

/-- The titles of nouns by the class that they show. -/
def classTitles : List (String × String) := [
  ("1", "first-declension noun"), ("2", "second-declension noun"),
  ("3", "third-declension noun"), ("4", "fourth-declension noun"),
  ("5", "fifth-declension noun"), ("irreg", "irregular noun"),
  ("indecl", "indeclinable noun"), ("0", "indeclinable noun")]

namespace Segment
open Noun

variable {s : Segment} {o : Options} {pos : String} {isAdj : Bool} {num : Option NumberUse}
  {gender : Option Gender} {loc : Bool}

theorem nounTitle_latin (s : Segment) : s.nounTitle .latin =
    (classTitles.lookup s.apparentClass).elim (.error (.untitledClass s.apparentClass)) .ok := by
  unfold nounTitle
  generalize s.apparentClass = a
  by_cases hmem : a ∈ classTitles.map Prod.fst
  · simp only [classTitles, List.map_cons, List.map_nil, List.mem_cons, List.not_mem_nil,
      or_false] at hmem
    rcases hmem with rfl | rfl | rfl | rfl | rfl | rfl | rfl | rfl
    all_goals rfl
  · have hkeys : a ∉ Latin.classNames.entries.map Prod.fst := by
      intro h
      have hsubset : Latin.classNames.entries.map Prod.fst ⊆ classTitles.map Prod.fst := by
        decide
      exact hmem (hsubset h)
    have hname : Tables.latin.classNames.get? a = none := find_eq_none.mpr hkeys
    have hlookup : classTitles.lookup a = none :=
      List.lookup_eq_none_iff.mpr fun p hp => by
        rw [bne_iff_ne]
        rintro rfl
        exact hmem (List.mem_map_of_mem hp)
    have hother : ∀ b ∈ ["irreg", "indecl", "0"], a ≠ b := by
      rintro b hb rfl
      have hsubset : ["irreg", "indecl", "0"] ⊆ classTitles.map Prod.fst := by decide
      exact hmem (hsubset hb)
    simp only [List.forall_mem_cons] at hother
    obtain ⟨hirregular, hindeclinable, hinvariable, _⟩ := hother
    rw [hname, hlookup]
    simp [given, hirregular, hindeclinable, hinvariable]

/-- A noun that is not irregular is declined. -/
theorem exists_decline_of_classifyNoun (o : Options) (pos : String) (isAdj : Bool)
    (num : Option NumberUse) (gender : Option Gender) (loc : Bool) {word decl : String}
    {oblique : Option String} {written : TagSet} {found : Classification}
    (hwritten : ∀ u ∈ written, IsNounTag u)
    (hdecl : decl ∈ "indecl" :: regularClasses)
    (hfound : Tables.latin.classifyNoun word oblique decl written = .ok found)
    (hs : s.IsNoun decl found (found.tags.foldl implyNoun written)) :
    ∃ c q, Noun.Class.ofName? decl = some c ∧ c ≠ .irregular ∧
      (c = .indeclinable ↔ decl = "indecl") ∧
      Noun.decline ⟨.latin, o⟩ (s.lexeme pos isAdj num gender loc) c = .ok q := by
  by_cases hthird : decl = "3"
  · subst hthird
    have hgreek : written.has .Greek = false := not_has_of_isKind hwritten rfl (by decide)
    obtain ⟨htags, hpolis⟩ := Tables.third_of_classifyThird hgreek hfound
    have hending : ∀ x : Trait, x.isKind → x ≠ .N →
        (s.lexeme pos isAdj num gender loc).has x → .has x ∈ found.tags := by
      intro x hx hN hhas
      have hmem := TagSet.has_iff.mp ((hs.has x hx).symm.trans hhas)
      exact (mem_of_mem_foldl_implyNoun hmem).resolve_left (not_mem_of_isKind hwritten hx hN)
    have hstem : (s.lexeme pos isAdj num gender loc).stem = found.stem := hs.stem
    obtain ⟨q, hq⟩ : ∃ q, third o (s.lexeme pos isAdj num gender loc) = .ok q := by
      refine exists_third o (Bool.eq_false_iff.mpr fun h => ?_) fun h => ?_
      · exact (htags _ (hending .Greek rfl (by decide) h)).2 rfl
      · rw [hstem]
        exact hpolis (hending .polis rfl (by decide) h)
    exact ⟨.third, q, rfl, by decide, by decide, hq⟩
  · have hother : decl ∈ ["indecl", "0", "1", "2", "4", "5"] := by
      simpa [regularClasses, hthird] using hdecl
    simp only [List.mem_cons, List.not_mem_nil, or_false] at hother
    rcases hother with rfl | rfl | rfl | rfl | rfl | rfl
    all_goals exact ⟨_, _, rfl, by decide, by decide, rfl⟩

theorem withTitle_of_isSome {q : Paradigm} {t : Tables} (htitle : q.title.isSome) :
    s.withTitle t q = .ok q := by
  rw [withTitle, htitle, Bool.or_true]
  rfl

theorem withTitle_eq {q : Paradigm} (hadj : s.isAdj = false) (htitle : q.title = none) :
    s.withTitle .latin q = (classTitles.lookup s.apparentClass).elim
      (.error (.untitledClass s.apparentClass)) fun title =>
        .ok { q with
          title := some title
          subtitles := if s.headword.nearest?.isSome && q.subtitles.isEmpty
            then [.phrase "irregular"] else q.subtitles } := by
  rw [withTitle, hadj, htitle, nounTitle_latin]
  cases classTitles.lookup s.apparentClass <;> rfl

/-- A word that is not used in compounds has no further remark. -/
theorem paradigm_of_decline {q : Paradigm} {t : Tables} {w : Lexeme} (hw : w.tags = s.tags)
    (hsufn : ∀ u ∈ s.tags, u ≠ .has .sufn ∧ u ≠ .lacks (.has .sufn))
    (h : s.decline ⟨t, o⟩ w = .ok q) : s.paradigm ⟨t, o⟩ w = s.withTitle t q := by
  have hhas : w.has .sufn = false := by
    rw [Lexeme.has, hw, Bool.eq_false_iff, ne_eq, TagSet.has_iff]
    exact fun hmem => (hsufn _ hmem).1 rfl
  have hlacks : w.lacks .sufn = false := by
    rw [Lexeme.lacks, hw, TagSet.lacks, Bool.eq_false_iff, ne_eq, List.contains_iff_mem]
    exact fun hmem => (hsufn _ hmem).2 rfl
  have hremark : ∀ having lacking, remark w .sufn having lacking = [] := fun _ _ => by
    rw [remark, hhas, hlacks]
    rfl
  rw [paradigm, h]
  simp only [hremark, List.append_nil]
  change s.withTitle t q >>= pure = _
  rw [bind_pure]

/-- The class that a word listed as irregular shows is the one that it comes nearest to. -/
theorem shown_of_listed {a : String} (h : Latin.irregularNounClasses.get? s.word = some a)
    (hheadword : s.headword = headwordClass (Latin.irregularNounClasses.get? s.word) s.decl) :
    s.apparentClass = a ∧ s.headword.nearest?.isSome := by
  have hlisted : ∀ p ∈ Latin.irregularNounClasses.entries,
      (headwordClass (some p.2) "").nearest? = some p.2 ∧ given (some p.2) = some p.2 := by
    decide
  obtain ⟨hnearest, hgiven⟩ := hlisted _ (mem_of_find h)
  have hnearest : s.headword.nearest? = some a := by
    rw [hheadword, h, headwordClass, hgiven]
    rw [headwordClass, hgiven] at hnearest
    exact hnearest
  rw [apparentClass, hnearest]
  exact ⟨rfl, rfl⟩

theorem classTitles_of_regular {c : String} (hclass : c ∈ "indecl" :: regularClasses) :
    ∃ title, classTitles.lookup c = some title ∧ (c, title) ∈ classTitles := by
  have hall : ∀ c ∈ "indecl" :: regularClasses, (classTitles.lookup c).isSome := by decide
  obtain ⟨title, hlookup⟩ := Option.isSome_iff_exists.mp (hall c hclass)
  obtain ⟨front, back, hsplit, _⟩ := List.lookup_eq_some_iff.mp hlookup
  exact ⟨title, hlookup, by simp [hsplit]⟩

section Written
variable {c word : String} {oblique : Option String} {tags : List String}
  (hclass : c ∈ "indecl" :: regularClasses) (htags : ∀ f ∈ tags, IsNounField f)
  (hread : read .latin (wordText word oblique (c :: tags)) = .ok s)
variable (o pos isAdj num gender loc)
include hclass htags hread

/-- What is read of a regular noun. Nothing that is written or comes with its ending is about its
spelling. -/
theorem exists_classification_of_read : ∃ stem written found,
    (∀ u ∈ written, IsNounTag u) ∧
    Tables.latin.classifyNoun s.word stem c written = .ok found ∧
    s.IsNoun c found (found.tags.foldl implyNoun written) ∧
    s.headword = headwordClass (Latin.irregularNounClasses.get? s.word) c ∧
    ∀ u ∈ s.tags, u ≠ .has .sufn ∧ u ≠ .lacks (.has .sufn) := by
  have hclasses : ∀ c ∈ "indecl" :: regularClasses, IsField c ∧ '+' ∉ c.toList ∧ c ≠ "" := by
    decide
  obtain ⟨hfield, hplus, hne⟩ := hclasses c hclass
  have hfields : ∀ f ∈ c :: tags, IsField f :=
    List.forall_mem_cons.mpr ⟨hfield, fun f hf => isField_of_isNounField (htags f hf)⟩
  rw [read_wordText_eq hfields] at hread
  obtain ⟨⟨linkedWord, stem⟩, _, hread⟩ := bind_eq_ok.mp hread
  obtain ⟨written, hwritten, hread⟩ := bind_eq_ok.mp hread
  rw [if_neg hplus, if_neg (by simpa using hne)] at hread
  have hnoun : ∀ u ∈ TagSet.ofList written, IsNounTag u := by
    intro u hu
    obtain ⟨f, hf, htag⟩ := exists_field_of_mem_ofList (mapM_eq_ok.mp hwritten) hu
    exact isNounTag_of_readTag (htags f hf) htag
  obtain ⟨found, hfound, hs⟩ := exists_classification_of_nounSegment hread
  obtain ⟨hword, hheadword, found', hfound', hmem⟩ := shown_of_nounSegment hread
  obtain rfl := Except.ok.inj (hfound.symm.trans hfound')
  rw [← hword] at hfound hheadword
  refine ⟨stem, _, found, hnoun, hfound, hs, hheadword, fun u hu => ?_⟩
  rcases hmem u hu with hu | hu | rfl
  · have hnot := hnoun u hu
    constructor
    · rintro rfl
      simp [IsNounTag, isGenderTag, isNumberTag] at hnot
    · rintro rfl
      simp [IsNounTag, isGenderTag, isNumberTag] at hnot
  · obtain ⟨hpositive, hspelling⟩ := Tables.isEndingTag_of_classifyNoun hnoun hclass hfound u hu
    refine ⟨hspelling, ?_⟩
    rintro rfl
    cases hpositive
  · decide

/-- A noun that is read in a regular class, with gender, number and vetoes alone, is declined by
that class. An indeclinable one has a title of its own. Any other is titled by its class, unless its
word is listed as irregular: then the class that it is listed under titles it, and it has no title
where that is no class of its own. -/
theorem paradigm_of_regular :
    ∃ k q, Noun.Class.ofName? c = some k ∧
      Noun.decline ⟨.latin, o⟩ (s.lexeme pos isAdj num gender loc) k = .ok q ∧
      (c = "indecl" →
        s.paradigm ⟨.latin, o⟩ (s.lexeme pos isAdj num gender loc) = .ok q ∧
          q.title = some "Not declined; used only in the nominative and accusative singular.") ∧
      (c ≠ "indecl" → Latin.irregularNounClasses.get? s.word = none →
        ∃ title, (c, title) ∈ classTitles ∧
          s.paradigm ⟨.latin, o⟩ (s.lexeme pos isAdj num gender loc) =
            .ok { q with title := some title }) ∧
      (c ≠ "indecl" → ∀ a, Latin.irregularNounClasses.get? s.word = some a →
        s.paradigm ⟨.latin, o⟩ (s.lexeme pos isAdj num gender loc) =
          (classTitles.lookup a).elim (.error (.untitledClass a)) fun title =>
            .ok { q with
              title := some title
              subtitles := if q.subtitles.isEmpty then [.phrase "irregular"]
                else q.subtitles }) := by
  obtain ⟨stem, written, found, hwritten, hfound, hs, hshown, hsufn⟩ :=
    exists_classification_of_read hclass htags hread
  obtain ⟨k, q, hk, hirregular, hindeclinable, hq⟩ :=
    exists_decline_of_classifyNoun o pos isAdj num gender loc hwritten hclass hfound hs
  have hdecline : s.decline ⟨.latin, o⟩ (s.lexeme pos isAdj num gender loc) = .ok q := by
    rw [decline, hs.isAdj, hs.decl, hk]
    exact hq
  have hparadigm := paradigm_of_decline rfl hsufn hdecline
  have htitle : c ≠ "indecl" → q.title = none := fun hc =>
    title_eq_none (mt hindeclinable.mp hc) hirregular hq
  refine ⟨k, q, hk, hq, fun hc => ?_, fun hc hnone => ?_, fun hc a ha => ?_⟩
  · obtain rfl := hindeclinable.mpr hc
    cases hq
    rw [hparadigm]
    exact ⟨withTitle_of_isSome rfl, rfl⟩
  · have hown : s.headword = .regular c := by
      rw [hshown, hnone]
      rfl
    have happarent : s.apparentClass = c := by
      rw [apparentClass, hown]
      rfl
    obtain ⟨title, hlookup, hmem⟩ := classTitles_of_regular hclass
    refine ⟨title, hmem, ?_⟩
    rw [hparadigm, withTitle_eq hs.isAdj (htitle hc), happarent, hlookup, hown]
    rfl
  · obtain ⟨happarent, hnearest⟩ := shown_of_listed ha (hs.decl ▸ hshown)
    rw [hparadigm, withTitle_eq hs.isAdj (htitle hc), happarent, hnearest]
    rfl

end Written

/-- A city in -polis, which asks for that ending when it is declined. -/
theorem paradigm_of_regular_neapolis :
    ∃ s p, read .latin (wordText "Neāpolis" none ["3", "-M"]) = .ok s ∧
      "3" ∈ "indecl" :: regularClasses ∧ (∀ f ∈ ["-M"], IsNounField f) ∧ s.tags.has .polis ∧
      Latin.irregularNounClasses.get? s.word = none ∧
      s.paradigm ⟨.latin, {}⟩ (s.lexeme "nouns" false none none false) = .ok p ∧
      p.title = some "third-declension noun" := by
  obtain ⟨s, hread, hpolis, hnone⟩ : ∃ s,
      read .latin (wordText "Neāpolis" none ["3", "-M"]) = .ok s ∧ s.tags.has .polis ∧
      Latin.irregularNounClasses.get? s.word = none := ⟨_, rfl, rfl, rfl⟩
  have hclass : "3" ∈ "indecl" :: regularClasses := by decide
  have htags : ∀ f ∈ ["-M"], IsNounField f := by
    simp only [List.forall_mem_cons]
    exact ⟨.inr (.inr (by decide)), by simp⟩
  obtain ⟨_, q, _, _, _, htitled, _⟩ :=
    paradigm_of_regular {} "nouns" false none none false hclass htags hread
  obtain ⟨title, hmem, hparadigm⟩ := htitled (by decide) hnone
  have htitle : title = "third-declension noun" := by
    simpa [classTitles] using hmem
  exact ⟨s, _, hread, hclass, htags, hpolis, hnone, hparadigm, congrArg some htitle⟩

/-- The house has no title as a noun of the fourth declension, since it is listed under two. -/
theorem not_titled_of_domus :
    ∃ s, read .latin (wordText "domus" none ["4"]) = .ok s ∧
      s.paradigm ⟨.latin, {}⟩ (s.lexeme "nouns" false none none false) =
        .error (.untitledClass "4,2") :=
  ⟨_, rfl, rfl⟩

end Segment
end Declension
