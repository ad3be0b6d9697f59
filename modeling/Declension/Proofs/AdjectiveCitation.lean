import Declension.Proofs.Reading
import Declension.Proofs.Validation
import Declension.Tables.Latin

/-!
# The citation form of adjectives

The ending of an adjective tells its class and stems, and declining by that class puts an ending
back. Main statement: `Segment.citation_of_adjective`, by which the lemma comes back among the
nominatives. What the tables have to hold for that is checked entry by entry.
-/
namespace Declension
open OrderedMap FormMap

/-- What may be written of an adjective: numbers and vetoes. -/
def IsAdjectiveTag (u : Tag) : Prop := isNumberTag u ∨ ∃ v, u = .veto v

theorem not_mem_of_isAdjectiveTag {written : TagSet} (hwritten : ∀ u ∈ written, IsAdjectiveTag u)
    {x : Trait} (hx : x.isKind) : .has x ∉ written := by
  intro hmem
  rcases hwritten _ hmem with h | ⟨v, h⟩
  · rw [isNumberTag_of_isKind hx] at h
    cases h
  · cases h

/-- The tags of an entry without what it bars. -/
def EndingEntry.positiveTags (e : EndingEntry) : List Tag :=
  e.tags.filter fun
    | .veto _ => false
    | _ => true

theorem mem_positiveTags {e : EndingEntry} {x : Trait} :
    .has x ∈ e.positiveTags ↔ .has x ∈ e.tags := by
  simp [EndingEntry.positiveTags]

theorem mem_foldl_implyAdjective {tags : List Tag} {written : TagSet}
    (htags : ∀ t ∈ tags, ∀ v, t ≠ .veto v) (hveto : ∀ t ∈ tags, .veto t ∉ written) {u : Tag} :
    u ∈ tags.foldl implyAdjective written ↔ u ∈ written ∨ u ∈ tags := by
  induction tags generalizing written with
  | nil => simp
  | cons t tags ih =>
    obtain ⟨ht, htags⟩ := List.forall_mem_cons.mp htags
    obtain ⟨hnot, hveto⟩ := List.forall_mem_cons.mp hveto
    have hstep : implyAdjective written t = written.add t := by
      rw [implyAdjective, if_neg (by simpa using hnot)]
    have hrest : ∀ s ∈ tags, .veto s ∉ written.add t := by
      intro s hs hmem
      rcases TagSet.mem_add.mp hmem with hmem | hmem
      · exact hveto s hs hmem
      · exact ht s hmem.symm
    rw [List.foldl_cons, hstep, ih htags hrest, TagSet.mem_add, List.mem_cons, or_assoc]

namespace FormMap

/-- The nominatives of an adjective. -/
def nominatives (m : FormMap) : List String :=
  Number.all.flatMap fun n => Gender.all.flatMap fun g => m.forms (.cell .nom n (some g))

theorem mem_nominatives {m : FormMap} {word : String} :
    word ∈ m.nominatives ↔ ∃ n g, word ∈ m.forms (.cell .nom n (some g)) := by
  have hnumber : ∀ n : Number, n ∈ Number.all := fun n => by cases n <;> decide
  have hgender : ∀ g : Gender, g ∈ Gender.all := fun g => by cases g <;> decide
  simp [nominatives, hnumber, hgender]

theorem mem_nominatives_of_get? {m : FormMap} {word : String} {n : Number} {g : Gender}
    {forms : List String} (hforms : m.get? (.cell .nom n (some g)) = some forms)
    (hmem : word ∈ forms) : word ∈ m.nominatives :=
  mem_nominatives.mpr ⟨n, g, by simpa [FormMap.forms, hforms] using hmem⟩

theorem mem_nominatives_inflect {rows : Rows} {tail : String} (stem : String)
    (h : tail ∈ nominatives (ofList rows)) :
    stem ++ tail ∈ nominatives (ofList (inflect stem rows)) := by
  obtain ⟨n, g, hmem⟩ := mem_nominatives.mp h
  refine mem_nominatives.mpr ⟨n, g, ?_⟩
  rw [FormMap.forms, get?_ofList] at hmem
  rw [FormMap.forms, get?_inflect]
  cases hfind : find (.cell .nom n (some g)) rows.reverse with
  | none => simp [hfind] at hmem
  | some tails =>
    rw [hfind] at hmem
    exact List.mem_map_of_mem hmem

end FormMap

namespace Adjective
open Slot

/-- The endings that the class puts on the stem in the nominative. -/
def Class.tails (w : Lexeme) : Class → List String
  | .indeclinable | .thirdOne | .participle | .thirdThree => [""]
  | .firstSecond =>
    match w.has .er, w.has .ic with
    | false, false => nominatives (ofList (FirstSecond.rows (FirstSecond.endings w)))
    | false, true => ["ic"]
    | true, false => [""]
    | true, true => []
  | .firstFirst => nominatives (ofList FirstFirst.endings)
  | .secondSecond => nominatives (ofList (SecondSecond.endings (w.has .greek)))
  | .comparative => ["or", "ōrēs"]
  | .thirdTwo => nominatives (ofList ThirdTwo.endings)
  | .irregular => []

/-- The endings that the class puts on the oblique stem in the nominative. -/
def Class.obliqueTails (w : Lexeme) : Class → List String
  | .thirdOne | .participle => ["ēs", if w.has .par then "a" else "ia"]
  | .thirdThree => ["ēs", "ia"]
  | _ => []

theorem Class.tails_congr {w v : Lexeme} (h : ∀ x : Trait, x.isKind → w.has x = v.has x)
    (c : Class) : c.tails w = c.tails v := by
  unfold Class.tails FirstSecond.endings
  rw [h .er rfl, h .ic rfl, h .greek rfl, h .greekA rfl, h .greekE rfl]

theorem Class.obliqueTails_congr {w v : Lexeme} (h : ∀ x : Trait, x.isKind → w.has x = v.has x)
    (c : Class) : c.obliqueTails w = c.obliqueTails v := by
  unfold Class.obliqueTails
  rw [h .par rfl]

namespace FirstSecond

variable {w : Lexeme}

/-- Only the type of hic and words in -r have nominatives of their own. -/
theorem get?_forms (n : Number) (g : Gender) :
    (forms w).get? (.cell .nom n (some g)) =
      (find (.cell .nom n (some g))
        (if w.has .ic then inflect (stem w) (hicType (stem w)) else []).reverse).or
        ((find (.cell .nom n (some g))
          (if w.has .er then [(sgm .nom, [w.stem]), (sgm .voc, [w.stem])] else []).reverse).or
          ((ofList (inflect (stem w) (rows (endings w)))).get? (.cell .nom n (some g)))) := by
  have hpronominal : find (.cell .nom n (some g))
      (if w.has .ius then inflect (stem w) pronominal else []).reverse = none := by
    split
    · rw [find_inflect]
      cases n <;> cases g <;> rfl
    · rfl
  have hvocative : find (.cell .nom n (some g))
      (if stem w = "me" then [(sgm .voc, ["mī"])] else []).reverse = none := by
    split <;> rfl
  rw [forms, get?_ofList, get?_ofList]
  simp only [List.reverse_append, find_append, hpronominal, hvocative, Option.none_or]

theorem mem_nominatives_forms {tail : String} (h : tail ∈ Class.tails w .firstSecond) :
    w.stem ++ tail ∈ nominatives (forms w) := by
  rw [Class.tails] at h
  split at h
  · rename_i her hic
    obtain ⟨n, g, hmem⟩ := mem_nominatives.mp (mem_nominatives_inflect w.stem h)
    refine mem_nominatives.mpr ⟨n, g, ?_⟩
    have hstem : stem w = w.stem := if_neg (by simp [her])
    have hforms : (forms w).get? (.cell .nom n (some g)) =
        (ofList (inflect w.stem (rows (endings w)))).get? (.cell .nom n (some g)) := by
      rw [get?_forms, her, hic, hstem]
      simp [find]
    rwa [FormMap.forms, hforms]
  · rename_i her hic
    have hstem : stem w = w.stem := if_neg (by simp [her])
    have hforms : (forms w).get? (sgm .nom) = some [w.stem ++ "ic"] := by
      rw [get?_forms, if_pos hic, find_inflect, hstem]
      rfl
    exact mem_nominatives_of_get? hforms (by simpa using h)
  · rename_i her hic
    have hforms : (forms w).get? (sgm .nom) = some [w.stem] := by
      rw [get?_forms, if_pos her, hic]
      rfl
    exact mem_nominatives_of_get? hforms (by simpa using h)
  · cases h

end FirstSecond

namespace ThirdOne

variable {w : Lexeme} {more : Rows}

theorem get?_append (slot : Slot) : (ofList (forms w ++ more)).get? slot =
    (find slot more.reverse).or
      ((find slot (if isInEs w && w.has .greek then
          inflect w.obliqueStem (greekCells.map fun s => (s, ["es", "ēs"])) else []).reverse).or
        ((find slot (if w.has .par then inflect w.obliqueStem parisyllabic else []).reverse).or
          ((find slot (inflect w.obliqueStem oblique).reverse).or
            (find slot (direct.map fun s => (s, [w.stem])).reverse)))) := by
  rw [get?_ofList, forms]
  simp only [List.reverse_append, find_append]

theorem find_greekCells (stem : String) (g : Gender) (isGreek : Bool) :
    find (.cell .nom .pl (some g)) (if isGreek then
      inflect stem (greekCells.map fun s => (s, ["es", "ēs"])) else []).reverse = none := by
  cases isGreek <;> cases g <;> rfl

theorem stem_mem_nominatives (hmore : find (sgm .nom) more.reverse = none) :
    w.stem ∈ nominatives (ofList (forms w ++ more)) := by
  have hforms : (ofList (forms w ++ more)).get? (sgm .nom) = some [w.stem] := by
    rw [get?_append, hmore]
    cases isInEs w && w.has .greek <;> cases w.has .par <;> rfl
  exact mem_nominatives_of_get? hforms (by simp)

theorem obliqueStem_mem_nominatives {tail : String}
    (hmore : ∀ g, find (.cell .nom .pl (some g)) more.reverse = none)
    (h : tail ∈ Class.obliqueTails w .thirdOne) :
    w.obliqueStem ++ tail ∈ nominatives (ofList (forms w ++ more)) := by
  simp only [Class.obliqueTails, List.mem_cons, List.not_mem_nil, or_false] at h
  rcases h with rfl | rfl
  · have hforms : (ofList (forms w ++ more)).get? (plm .nom) = some [w.obliqueStem ++ "ēs"] := by
      rw [get?_append, hmore, find_greekCells]
      cases w.has .par <;> rfl
    exact mem_nominatives_of_get? hforms (by simp)
  · have hforms : (ofList (forms w ++ more)).get? (pln .nom) =
        some [w.obliqueStem ++ if w.has .par then "a" else "ia"] := by
      rw [get?_append, hmore, find_greekCells]
      cases w.has .par <;> rfl
    exact mem_nominatives_of_get? hforms (by simp)

end ThirdOne

variable {e : Engine} {w : Lexeme} {p : Paradigm} {c : Class} {tail : String}

theorem forms_thirdOne (w : Lexeme) : (thirdOne w).forms = ofList (ThirdOne.forms w ++ []) := by
  rw [thirdOne, List.append_nil]

theorem forms_participle (o : Options) (w : Lexeme) : (participle o w).forms =
    ofList (ThirdOne.forms w ++ inflect w.obliqueStem (Participle.endings o w)) := by
  rw [participle]

theorem find_participle (o : Options) (w : Lexeme) (n : Number) (g : Gender) :
    find (.cell .nom n (some g))
      (inflect w.obliqueStem (Participle.endings o w)).reverse = none := by
  rw [find_inflect]
  cases n <;> cases g <;> rfl

theorem mem_nominatives_comparative (h : tail ∈ ["or", "ōrēs"]) :
    w.stem ++ tail ∈ (comparative w).forms.nominatives := by
  have hforms : (comparative w).forms =
      ofList (ThirdOne.forms (Comparative.asThirdOne w) ++ Comparative.neuter w.stem) := by
    rw [comparative]
  simp only [List.mem_cons, List.not_mem_nil, or_false] at h
  rw [hforms]
  rcases h with rfl | rfl
  · exact ThirdOne.stem_mem_nominatives rfl
  · have hne : w.stem ++ "ōr" ≠ "" := by simp
    have hoblique : (Comparative.asThirdOne w).obliqueStem = w.stem ++ "ōr" := by
      simp [Lexeme.obliqueStem, Comparative.asThirdOne, given, hne, Option.filter]
    have hplural : w.stem ++ "ōrēs" = (Comparative.asThirdOne w).obliqueStem ++ "ēs" := by
      rw [hoblique, String.append_assoc]
      rfl
    rw [hplural]
    exact ThirdOne.obliqueStem_mem_nominatives (fun g => by cases g <;> rfl) List.mem_cons_self

/-- Declining by a class puts its endings on the stem. -/
theorem stem_mem_nominatives (h : tail ∈ c.tails w) (hp : decline e w c = .ok p) :
    w.stem ++ tail ∈ p.forms.nominatives := by
  cases c with
  | indeclinable =>
    have hforms : (indeclinable w).forms.get? (sgm .nom) = some [w.stem] := by
      rw [indeclinable, get?_ofList]
      rfl
    obtain rfl : indeclinable w = p := Except.ok.inj hp
    exact mem_nominatives_of_get? hforms (by simpa [Class.tails] using h)
  | firstSecond =>
    obtain ⟨r, _, hp⟩ := bind_eq_ok.mp hp
    have hforms : p.forms = FirstSecond.forms w := by rw [← Except.ok.inj hp]
    rw [hforms]
    exact FirstSecond.mem_nominatives_forms h
  | firstFirst =>
    have hforms : (firstFirst w).forms = ofList (inflect w.stem FirstFirst.endings) := by
      rw [firstFirst]
    obtain rfl : firstFirst w = p := Except.ok.inj hp
    rw [hforms]
    exact mem_nominatives_inflect w.stem h
  | secondSecond =>
    have hforms : (secondSecond w).forms =
        ofList (inflect w.stem (SecondSecond.endings (w.has .greek))) := by
      rw [secondSecond]
    obtain rfl : secondSecond w = p := Except.ok.inj hp
    rw [hforms]
    exact mem_nominatives_inflect w.stem h
  | thirdOne =>
    obtain rfl : thirdOne w = p := Except.ok.inj hp
    rw [forms_thirdOne, List.mem_singleton.mp h, String.append_empty]
    exact ThirdOne.stem_mem_nominatives rfl
  | comparative =>
    obtain rfl : comparative w = p := Except.ok.inj hp
    exact mem_nominatives_comparative h
  | participle =>
    obtain rfl : participle e.options w = p := Except.ok.inj hp
    rw [forms_participle, List.mem_singleton.mp h, String.append_empty]
    exact ThirdOne.stem_mem_nominatives (find_participle _ _ _ _)
  | thirdTwo =>
    have hforms : (thirdTwo w).forms = ofList (inflect w.stem ThirdTwo.endings) := by
      rw [thirdTwo]
    obtain rfl : thirdTwo w = p := Except.ok.inj hp
    rw [hforms]
    exact mem_nominatives_inflect w.stem h
  | thirdThree =>
    have hforms : (thirdThree w).forms.get? (sgm .nom) = some [w.stem] := by
      rw [thirdThree, get?_ofList]
      rfl
    obtain rfl : thirdThree w = p := Except.ok.inj hp
    exact mem_nominatives_of_get? hforms (by simpa [Class.tails] using h)
  | irregular => cases h

/-- Declining by a class puts its further endings on the oblique stem. -/
theorem obliqueStem_mem_nominatives (h : tail ∈ c.obliqueTails w) (hp : decline e w c = .ok p) :
    w.obliqueStem ++ tail ∈ p.forms.nominatives := by
  cases c with
  | thirdOne =>
    obtain rfl : thirdOne w = p := Except.ok.inj hp
    rw [forms_thirdOne]
    exact ThirdOne.obliqueStem_mem_nominatives (fun _ => rfl) h
  | participle =>
    obtain rfl : participle e.options w = p := Except.ok.inj hp
    rw [forms_participle]
    exact ThirdOne.obliqueStem_mem_nominatives (fun _ => find_participle _ _ _ _) h
  | thirdThree =>
    have hforms : ∀ slot, (thirdThree w).forms.get? slot =
        find slot ([(sgm .nom, [w.stem]), (sgm .voc, [w.stem])] ++ inflect w.obliqueStem
          (ThirdThree.nominatives ++ ThirdThree.common ++ ThirdThree.accusatives)).reverse := by
      intro slot
      rw [thirdThree, get?_ofList]
    obtain rfl : thirdThree w = p := Except.ok.inj hp
    simp only [Class.obliqueTails, List.mem_cons, List.not_mem_nil, or_false] at h
    rcases h with rfl | rfl
    · exact mem_nominatives_of_get? (hforms (plm .nom)) (by simp)
    · exact mem_nominatives_of_get? (hforms (pln .nom)) (by simp)
  | indeclinable => cases h
  | firstSecond => cases h
  | firstFirst => cases h
  | secondSecond => cases h
  | comparative => cases h
  | thirdTwo => cases h
  | irregular => cases h

/-- The forms of an irregular adjective, which only its stem decides. -/
def irregularForms (stem : String) : Option FormMap :=
  match demonstratives.lookup stem with
  | some (pronominal, neuter) =>
    some ((FirstSecond.forms { stem := pronominal, tags := [.has .ius], pos := "" }).insertMany
      [(sgm .nom, [stem]), (sgn .nom, [neuter]), (sgn .acc, [neuter])])
  | none => (Latin.irregularAdjectives.find? (stem ∈ ·.words)).map (·.formsFor stem)

/-- Words of first and second declension, neither Greek nor in -r nor of the type of hic. -/
structure IsPlain (w : Lexeme) : Prop where
  er : w.has .er = false
  ic : w.has .ic = false
  greekA : w.has .greekA = false
  greekE : w.has .greekE = false

theorem forms_asPronominal (hw : IsPlain w) (stem : String) :
    FirstSecond.forms (asPronominal w stem) =
      FirstSecond.forms { stem, tags := [.has .ius], pos := "" } := by
  have hadd : ∀ x : Trait, x ≠ .ius → (asPronominal w stem).has x = w.has x := by
    intro x hx
    rw [Bool.eq_iff_iff]
    exact TagSet.has_iff.trans (TagSet.mem_add.trans (by simp [hx, Lexeme.has, TagSet.has]))
  have hius : (asPronominal w stem).has .ius = true :=
    TagSet.has_iff.mpr (TagSet.mem_add.mpr (.inr rfl))
  have hendings : FirstSecond.endings (asPronominal w stem) = {} := by
    rw [FirstSecond.endings, hadd .greekA (by decide), hadd .greekE (by decide), hw.greekA,
      hw.greekE]
    rfl
  have hstem : FirstSecond.stem (asPronominal w stem) = stem := by
    rw [FirstSecond.stem, hadd .er (by decide), hw.er]
    rfl
  rw [FirstSecond.forms, FirstSecond.forms, hendings, hstem, hius, hadd .er (by decide), hw.er,
    hadd .ic (by decide), hw.ic]
  rfl

theorem irregularForms_of_decline (hw : IsPlain w) (h : irregular .latin w = .ok p) :
    irregularForms w.stem = some p.forms := by
  unfold irregular at h
  unfold irregularForms
  cases hlookup : demonstratives.lookup w.stem with
  | some found =>
    obtain ⟨stem, neuter⟩ := found
    rw [hlookup] at h
    obtain ⟨q, hq, hp⟩ := bind_eq_ok.mp h
    obtain ⟨r, _, hq⟩ := bind_eq_ok.mp hq
    have hforms : q.forms = FirstSecond.forms (asPronominal w stem) := by rw [← Except.ok.inj hq]
    rw [← Except.ok.inj hp]
    simp only [hforms, forms_asPronominal hw]
  | none =>
    rw [hlookup] at h
    obtain ⟨q, hq, hp⟩ := bind_eq_ok.mp h
    rw [← Except.ok.inj hp]
    have hfind : Latin.irregularAdjectives.find? (w.stem ∈ ·.words) = some q :=
      Tables.irregularAdjective_eq_ok.mp hq
    simp only [hfind, Option.map_some]

/-- All words that have an irregular paradigm. -/
def irregularWords : List String :=
  demonstratives.map (·.1) ++ Latin.irregularAdjectives.flatMap (·.words)

theorem mem_irregularWords {stem : String} {m : FormMap} (h : irregularForms stem = some m) :
    stem ∈ irregularWords := by
  unfold irregularForms at h
  split at h
  · rename_i hlookup
    obtain ⟨front, back, hsplit, _⟩ := List.lookup_eq_some_iff.mp hlookup
    apply List.mem_append_left
    simp [hsplit]
  · obtain ⟨q, hq, _⟩ := Option.map_eq_some_iff.mp h
    have hmem : stem ∈ q.words := by simpa using List.find?_some hq
    exact List.mem_append_right _ (List.mem_flatMap.mpr ⟨q, List.mem_of_find?_eq_some hq, hmem⟩)

end Adjective

open Adjective

namespace EndingEntry
variable {e : EndingEntry} {word base : String} {oblique : Option String} {written : TagSet}

theorem adjectiveBase?_eq_some_iff : e.adjectiveBase? word oblique written = some base ↔
    e.adjectiveExcluded written = false ∧ e.ending.base? word = some base ∧
      (base = "" ∨ e.wantsOblique base oblique) := by
  rw [adjectiveBase?]
  cases e.adjectiveExcluded written <;> simp [Option.filter_eq_some_iff]

/-- Whether an entry reads plurals. -/
def isPlural (e : EndingEntry) : Bool := .has .pl ∈ e.tags

theorem adjectiveExcluded_eq_false_iff : e.adjectiveExcluded written = false ↔
    (.has .pl ∈ written → e.isPlural) ∧ ∀ u ∈ e.tags, adjectiveClash written u = false := by
  simp [adjectiveExcluded, missesPlural, TagSet.has, isPlural]

theorem veto_not_mem (h : e.adjectiveExcluded written = false) :
    ∀ u ∈ e.tags, .veto u ∉ written := by
  obtain ⟨_, hclash⟩ := adjectiveExcluded_eq_false_iff.mp h
  intro u hu hveto
  have hnone := hclash u hu
  simp [adjectiveClash, hveto] at hnone

end EndingEntry

/-- The stem that an entry makes of a base. -/
def EndingEntry.stemOf (e : EndingEntry) (base : String) : String :=
  e.deriver.elim base fun d => (d.derive base none).1

/-- The class that an entry or its table names. -/
def EndingTable.named (table : EndingTable) (e : EndingEntry) : Option String :=
  given e.decl <|> given table.decl

/-- The stems that come of a base: a deriver finds them, and a table has a rule for an oblique stem
that is not given. -/
def stemsBy (t : Tables) (rule : Option ObliqueRule) (deriver : Option StemDeriver) (base : String)
    (oblique : Option String) : String × Option String :=
  let (stem, found) := deriver.elim (base, oblique) (·.derive base oblique)
  (stem, match rule with
    | some .base => some ((given found).getD stem)
    | some .guess => some ((given found).getD (t.guessOblique stem))
    | none => found)

theorem matchAdjective_of_first {t : Tables} {table : EndingTable} {e : EndingEntry}
    {word fallback base : String} {oblique : Option String} {written : TagSet}
    (h : firstWithBase (·.adjectiveBase? word oblique written) table.entries = some (e, base)) :
    matchAdjective t table word oblique fallback written =
      some ⟨(stemsBy t table.obliqueRule e.deriver base oblique).1,
        (stemsBy t table.obliqueRule e.deriver base oblique).2,
        (table.named e).getD fallback, e.positiveTags⟩ := by
  rw [matchAdjective, h, Option.map_some]
  cases hderiver : e.deriver <;> simp only [hderiver] <;> rfl

/-- What an entry makes of a base. -/
structure Classification.IsReadBy (found : Classification) (e : EndingEntry) (base : String) :
    Prop where
  stem : found.stem = e.stemOf base
  oblique : e.deriver = some .baseAsOblique → (given found.oblique).getD found.stem = base
  tags : found.tags = e.positiveTags

/-- A word on the stems that an entry makes of a base, with the traits of the entry. -/
structure Lexeme.IsReadBy (w : Lexeme) (e : EndingEntry) (base : String) : Prop where
  stem : w.stem = e.stemOf base
  oblique : e.deriver = some .baseAsOblique → w.obliqueStem = base
  has : ∀ x : Trait, x.isKind → w.has x = TagSet.has e.tags x

theorem exists_entry_of_matchAdjective {table : EndingTable} {word fallback : String}
    {oblique : Option String} {written : TagSet} {found : Classification}
    (h : matchAdjective .latin table word oblique fallback written = some found) :
    ∃ e ∈ table.entries, ∃ base, e.ending.base? word = some base ∧
      (∀ t ∈ e.tags, .veto t ∉ written) ∧ found.decl = (table.named e).getD fallback ∧
      found.IsReadBy e base := by
  obtain ⟨⟨e, base⟩, hfirst, _⟩ := Option.map_eq_some_iff.mp h
  rw [matchAdjective_of_first hfirst] at h
  obtain rfl := Option.some.inj h
  obtain ⟨hmem, hbase⟩ := mem_of_firstWithBase hfirst
  obtain ⟨hopen, hbase, _⟩ := EndingEntry.adjectiveBase?_eq_some_iff.mp hbase
  refine ⟨e, hmem, base, hbase, EndingEntry.veto_not_mem hopen, rfl, ?_, ?_, rfl⟩
  · cases hd : e.deriver with
    | none => simp [EndingEntry.stemOf, stemsBy, hd]
    | some d => cases d <;> simp [EndingEntry.stemOf, stemsBy, hd, StemDeriver.derive]
  · intro hd
    have hguess : (given (some base)).getD (Tables.latin.guessOblique base) = base := by
      by_cases hempty : base = ""
      · rw [hempty]
        rfl
      · simp [given, hempty, Option.filter]
    simp only [stemsBy, hd, Option.elim_some, StemDeriver.derive]
    split
    · rw [getD_given, getD_given]
    · rw [hguess, getD_given]
    · exact getD_given base

/-- An adjective whose class is open is read by one of the two tables of guesses. -/
theorem Tables.exists_table_of_guessAdjective {t : Tables} {word : String}
    {oblique : Option String} {written : TagSet} {found : Classification}
    (h : t.guessAdjective word oblique written = .ok found) :
    ∃ key ∈ ["1&2", "3"], ∃ table, t.adjectiveTable key = .ok table ∧
      matchAdjective t table word oblique "" written = some found := by
  obtain ⟨first, hfirst, h⟩ := bind_eq_ok.mp h
  dsimp only at h
  split at h
  · rename_i c hmatch
    cases h
    obtain ⟨hmatch, _⟩ := Option.filter_eq_some_iff.mp hmatch
    exact ⟨"1&2", by decide, first, hfirst, hmatch⟩
  · obtain ⟨third, hthird, h⟩ := bind_eq_ok.mp h
    split at h
    · rename_i c hmatch
      cases h
      exact ⟨"3", by decide, third, hthird, hmatch⟩
    · cases h

namespace Segment

variable {s : Segment} {word linkedWord decl : String} {oblique : Option String}
  {written : TagSet} {found : Classification} {o : Options} {pos : String} {isAdj : Bool}
  {num : Option NumberUse} {gender : Option Gender} {loc : Bool} {p : Paradigm}

/-- An adjective as it is read: its class, its stems, and the traits that its ending and its fields
come to. -/
structure IsAdjective (s : Segment) (found : Classification) (written : TagSet) : Prop where
  isAdj : s.isAdj = true
  decl : s.decl = found.decl
  stem : s.stem = found.stem
  oblique : s.oblique = found.oblique
  has : ∀ x : Trait, x.isKind →
    s.tags.has x = TagSet.has (found.tags.foldl implyAdjective written) x

theorem exists_classification_of_adjectiveSegment {t : Tables}
    (h : adjectiveSegment t word linkedWord oblique decl written = .ok s) :
    ∃ found, t.classifyAdjective word oblique decl written = .ok found ∧
      s.IsAdjective found written := by
  obtain ⟨found, hfound, h⟩ := bind_eq_ok.mp h
  refine ⟨found, hfound, ?_⟩
  rw [← Except.ok.inj h]
  refine ⟨rfl, rfl, rfl, rfl, fun x hx => ?_⟩
  obtain ⟨hloc, hsg, hpl⟩ := not_told_of_isKind hx
  exact has_settle hloc hsg hpl

/-- As its kind cannot be written, an adjective is of the kind that its entry says. -/
theorem isReadBy_lexeme {e : EndingEntry} {base : String}
    (hwritten : ∀ u ∈ written, IsAdjectiveTag u) (hveto : ∀ t ∈ e.tags, .veto t ∉ written)
    (hfound : found.IsReadBy e base) (hs : s.IsAdjective found written) :
    (s.lexeme pos isAdj num gender loc).IsReadBy e base := by
  refine ⟨hs.stem.trans hfound.stem, fun hd => ?_, fun x hx => (hs.has x hx).trans ?_⟩
  · rw [obliqueStem_lexeme, hs.oblique, hs.stem]
    exact hfound.oblique hd
  · have hpositive : ∀ t ∈ e.positiveTags, t ∈ e.tags ∧ ∀ v, t ≠ .veto v := by
      intro t ht
      obtain ⟨hmem, ht⟩ := List.mem_filter.mp ht
      refine ⟨hmem, ?_⟩
      rintro v rfl
      cases ht
    have hfold := mem_foldl_implyAdjective (u := .has x) (fun t ht => (hpositive t ht).2)
      fun t ht => hveto t (hpositive t ht).1
    rw [Bool.eq_iff_iff, TagSet.has_iff, TagSet.has_iff, hfound.tags, hfold, mem_positiveTags]
    simp [not_mem_of_isAdjectiveTag hwritten hx]

end Segment

namespace Adjective

variable {w : Lexeme} {e : EndingEntry} {base word : String} {c : Class} {o : Options}
  {p : Paradigm}

/-- A word of that class with the ending and the traits of an entry has the ending in a
nominative. -/
def Class.cites (c : Class) (e : EndingEntry) : Bool :=
  match e.deriver with
  | none => e.ending.tail?.any (· ∈ c.tails (.ofTags e.tags false))
  | some .baseAsOblique => e.ending.tail?.any (· ∈ c.obliqueTails (.ofTags e.tags false))
  | some _ => false

theorem mem_nominatives_of_cites {engine : Engine} (hcites : c.cites e) (hw : w.IsReadBy e base)
    (hline : '\n' ∉ word.toList) (hbase : e.ending.base? word = some base)
    (hp : decline engine w c = .ok p) : word ∈ p.forms.nominatives := by
  have hhas : ∀ x : Trait, x.isKind → w.has x = (Lexeme.ofTags e.tags false).has x := hw.has
  unfold Class.cites at hcites
  split at hcites
  · rename_i hderiver
    obtain ⟨tail, htail, hmem⟩ := (Option.any_eq_true _ _).mp hcites
    have hstem : w.stem = base := by rw [hw.stem, EndingEntry.stemOf, hderiver]; rfl
    rw [Ending.eq_append_of_base? hline htail hbase, ← hstem]
    refine stem_mem_nominatives ?_ hp
    rw [Class.tails_congr hhas]
    simpa using hmem
  · rename_i hderiver
    obtain ⟨tail, htail, hmem⟩ := (Option.any_eq_true _ _).mp hcites
    rw [Ending.eq_append_of_base? hline htail hbase, ← hw.oblique hderiver]
    refine obliqueStem_mem_nominatives ?_ hp
    rw [Class.obliqueTails_congr hhas]
    simpa using hmem
  · cases hcites

/-- Each word that an entry reads is a nominative of the paradigm of its stem. -/
def citesIrregular (e : EndingEntry) : Bool :=
  e.words.any (·.all fun (base, word) =>
    (irregularForms (e.stemOf base)).all (word ∈ ·.nominatives))

theorem mem_nominatives_of_irregular (he : e ∈ Latin.adjectiveIrregular.entries)
    (hw : w.IsReadBy e base) (hline : '\n' ∉ word.toList)
    (hbase : e.ending.base? word = some base) (hp : irregular .latin w = .ok p) :
    word ∈ p.forms.nominatives := by
  have htable : ∀ e ∈ Latin.adjectiveIrregular.entries,
      citesIrregular e ∨ e.ending.tail? = some "" ∧ e.deriver = none := by
    decide +kernel
  have hkinds : ∀ e ∈ Latin.adjectiveIrregular.entries,
      ∀ x ∈ [Trait.er, .ic, .greekA, .greekE], TagSet.has e.tags x = false := by
    decide
  have hplain : IsPlain w := by
    refine ⟨?_, ?_, ?_, ?_⟩
    · rw [hw.has .er rfl, hkinds e he .er (by decide)]
    · rw [hw.has .ic rfl, hkinds e he .ic (by decide)]
    · rw [hw.has .greekA rfl, hkinds e he .greekA (by decide)]
    · rw [hw.has .greekE rfl, hkinds e he .greekE (by decide)]
  have hforms := irregularForms_of_decline hplain hp
  rw [hw.stem] at hforms
  rcases htable e he with hcites | ⟨htail, hderiver⟩
  · obtain ⟨ws, hws, hall⟩ := (Option.any_eq_true _ _).mp hcites
    have hmem := List.all_eq_true.mp hall _ (EndingEntry.mem_words hws hline hbase)
    simpa [hforms] using hmem
  · have hwords : ∀ stem ∈ irregularWords, (irregularForms stem).all (stem ∈ ·.nominatives) := by
      decide +kernel
    have hword : word = base := by simpa using Ending.eq_append_of_base? hline htail hbase
    have hforms : irregularForms base = some p.forms := by
      simpa [EndingEntry.stemOf, hderiver] using hforms
    have hmem := hwords base (mem_irregularWords hforms)
    simpa [hword, hforms] using hmem

end Adjective

namespace Segment

section Classes
variable {s : Segment} {word fallback decl : String} {oblique : Option String}
  {written told : TagSet} {found : Classification} {o : Options} {pos : String} {isAdj : Bool}
  {num : Option NumberUse} {gender : Option Gender} {loc : Bool} {p : Paradigm}
  {table : EndingTable}
  (hline : '\n' ∉ word.toList) (hwritten : ∀ u ∈ written, IsAdjectiveTag u)
  (hs : s.IsAdjective found written)
  (hp : s.decline ⟨.latin, o⟩ (s.lexeme pos isAdj num gender loc) = .ok p)
include hline hwritten hs hp

omit hline hwritten in
theorem exists_class_of_decline : ∃ c, Class.ofName? found.decl = some c ∧
    Adjective.decline ⟨.latin, o⟩ (s.lexeme pos isAdj num gender loc) c = .ok p := by
  rw [decline, if_pos hs.isAdj, hs.decl] at hp
  split at hp
  · rename_i c hc
    exact ⟨c, hc, hp⟩
  · cases hp

/-- A table reads nothing that the class of the entry does not put together again. A hint may tell
more than what is written. -/
theorem mem_nominatives_of_table
    (htable : ∀ e ∈ table.entries, ∀ c, Class.ofName? ((table.named e).getD fallback) = some c →
      c.cites e ∨ c = .irregular ∧ e ∈ Latin.adjectiveIrregular.entries)
    (htold : written ⊆ told)
    (h : matchAdjective .latin table word oblique fallback told = some found) :
    word ∈ p.forms.nominatives := by
  obtain ⟨e, he, base, hbase, hveto, hdecl, hread⟩ := exists_entry_of_matchAdjective h
  have hw : (s.lexeme pos isAdj num gender loc).IsReadBy e base :=
    isReadBy_lexeme hwritten (fun t ht hmem => hveto t ht (htold hmem)) hread hs
  obtain ⟨c, hc, hp⟩ := exists_class_of_decline hs hp
  rw [hdecl] at hc
  rcases htable e he c hc with hcites | ⟨rfl, hirregular⟩
  · exact mem_nominatives_of_cites hcites hw hline hbase hp
  · exact mem_nominatives_of_irregular hirregular hw hline hbase hp

/-- All but two tables name the class of each entry. -/
theorem mem_nominatives_of_named (key : String)
    (htable : (key, table) ∈ Latin.adjectiveEndings.entries) (hkey : key ∉ ["irreg", "default"])
    (htold : written ⊆ told)
    (h : matchAdjective .latin table word oblique fallback told = some found) :
    word ∈ p.forms.nominatives := by
  have hnamed : ∀ kt ∈ Latin.adjectiveEndings.entries, kt.1 ∉ ["irreg", "default"] →
      ∀ e ∈ kt.2.entries, (kt.2.named e).any
        fun name => (Class.ofName? name).all fun c => c.cites e := by
    decide +kernel
  refine mem_nominatives_of_table hline hwritten hs hp (fun e he c hc => ?_) htold h
  obtain ⟨name, hname, hall⟩ := (Option.any_eq_true _ _).mp (hnamed _ htable hkey e he)
  rw [hname] at hc
  have hc : Class.ofName? name = some c := hc
  rw [hc] at hall
  exact .inl hall

omit hline hwritten hs hp in
theorem get?_of_adjectiveTable {key : String}
    (h : Tables.latin.adjectiveTable key = .ok table) :
    Latin.adjectiveEndings.get? key = some table := by
  unfold Tables.adjectiveTable at h
  split at h
  · rename_i hget
    cases h
    exact hget
  · cases h

theorem mem_nominatives_of_guess (htold : written ⊆ told)
    (h : Tables.latin.guessAdjective word oblique told = .ok found) :
    word ∈ p.forms.nominatives := by
  obtain ⟨key, hkey, table, htable, hmatch⟩ := Tables.exists_table_of_guessAdjective h
  simp only [List.mem_cons, List.not_mem_nil, or_false] at hkey
  refine mem_nominatives_of_named hline hwritten hs hp key
    (mem_of_find (get?_of_adjectiveTable htable)) ?_ htold hmatch
  rcases hkey with rfl | rfl <;> decide

omit hline hwritten hs hp in
/-- Two declined classes have no table of their own. -/
theorem mem_of_ofName? {c : Adjective.Class} (hc : Class.ofName? decl = some c) (hzero : decl ≠ "0")
    (hkey : Latin.adjectiveEndings.contains decl = false) :
    c ∈ [Adjective.Class.participle, .thirdThree] := by
  unfold Class.ofName? at hc
  split at hc
  all_goals first
    | exact absurd rfl hzero
    | exact absurd hkey (by decide)
    | cases hc
  · decide
  · decide

theorem mem_nominatives_of_class (hzero : decl ≠ "0") (hdefault : decl ≠ "default")
    (htable : Tables.latin.adjectiveTable
      (if Latin.adjectiveEndings.contains decl then decl else "default") = .ok table)
    (h : matchAdjective .latin table word oblique decl written = some found) :
    word ∈ p.forms.nominatives := by
  split at htable
  · have hget := get?_of_adjectiveTable htable
    by_cases hirregular : decl = "irreg"
    · subst hirregular
      obtain rfl : Latin.adjectiveIrregular = table := Option.some.inj hget
      have hnamed : ∀ e ∈ Latin.adjectiveIrregular.entries,
          Latin.adjectiveIrregular.named e = none := by
        decide
      refine mem_nominatives_of_table hline hwritten hs hp (fun e he c hc => ?_) (fun _ hu => hu) h
      rw [hnamed e he] at hc
      cases hc
      exact .inr ⟨rfl, he⟩
    · exact mem_nominatives_of_named hline hwritten hs hp decl (mem_of_find hget)
        (by simp [hirregular, hdefault]) (fun _ hu => hu) h
  · rename_i hnone
    obtain rfl : Latin.adjectiveOtherClass = table :=
      Option.some.inj (get?_of_adjectiveTable htable)
    have hcites : ∀ e ∈ Latin.adjectiveOtherClass.entries,
        Latin.adjectiveOtherClass.named e = none ∧
          ∀ c ∈ [Adjective.Class.participle, .thirdThree], c.cites e := by
      decide
    refine mem_nominatives_of_table hline hwritten hs hp (fun e he c hc => ?_) (fun _ hu => hu) h
    obtain ⟨hnamed, hcites⟩ := hcites e he
    rw [hnamed] at hc
    exact .inl (hcites c (mem_of_ofName? hc hzero (by simpa using hnone)))

theorem mem_nominatives_of_classifyAdjective
    (h : Tables.latin.classifyAdjective word oblique decl written = .ok found) :
    word ∈ p.forms.nominatives := by
  unfold Tables.classifyAdjective at h
  split at h
  · exact mem_nominatives_of_guess hline hwritten hs hp (fun _ hu => hu) h
  split at h
  · -- a hint is told besides what is written, so it can only bar entries
    split at h
    · exact mem_nominatives_of_guess hline hwritten hs hp
        (fun _ hu => TagSet.mem_add.mpr (.inl hu)) h
    · exact mem_nominatives_of_guess hline hwritten hs hp (fun _ hu => hu) h
  rename_i hname
  split at h
  · cases h
    obtain ⟨c, hc, hp⟩ := exists_class_of_decline hs hp
    cases hc
    have hmem : (s.lexeme pos isAdj num gender loc).stem ++ "" ∈ p.forms.nominatives :=
      stem_mem_nominatives List.mem_cons_self hp
    have hstem : (s.lexeme pos isAdj num gender loc).stem = word := hs.stem
    rwa [String.append_empty, hstem] at hmem
  rename_i hzero
  have hdefault : decl ≠ "default" := by
    rintro rfl
    exact hname (by decide)
  obtain ⟨table, htable, h⟩ := bind_eq_ok.mp h
  split at h
  · rename_i hmatch
    cases h
    exact mem_nominatives_of_class hline hwritten hs hp hzero hdefault htable hmatch
  · cases h

end Classes

/-- What may be written of an adjective in its specification. -/
def IsAdjectiveField (f : String) : Prop := f ∈ numberFields ∨ isVetoField f ∧ IsField f

theorem isField_of_isAdjectiveField {f : String} (h : IsAdjectiveField f) : IsField f := by
  have hfixed : ∀ f ∈ numberFields, IsField f := by decide
  rcases h with h | ⟨_, h⟩
  · exact hfixed f h
  · exact h

theorem isAdjectiveTag_of_readTag {f : String} {u : Tag} (hf : IsAdjectiveField f)
    (h : readTag f = .ok u) : IsAdjectiveTag u := by
  rcases hf with hf | ⟨hf, _⟩
  · exact .inl (readTag_of_mem_numberFields hf h).1
  · exact .inr (exists_veto_of_readTag hf h)

/-- An adjective that is read from a lemma with a class or a hint, or with neither, and with numbers
and vetoes alone, is declined to a paradigm that has the lemma among its nominatives. -/
theorem citation_of_adjective {s : Segment} {word cls : String} {oblique : Option String}
    {tags : List String} {o : Options} {pos : String} {isAdj : Bool} {num : Option NumberUse}
    {gender : Option Gender} {loc : Bool} {p : Paradigm} (hword : IsPlainLemma word)
    (hoblique : ∀ stem ∈ oblique, '/' ∉ stem.toList) (hplus : '+' ∈ cls.toList)
    (hcls : IsField cls) (htags : ∀ f ∈ tags, IsAdjectiveField f)
    (hread : Segment.read .latin (wordText word oblique (cls :: tags)) = .ok s)
    (hp : s.paradigm ⟨.latin, o⟩ (s.lexeme pos isAdj num gender loc) = .ok p) :
    ∃ n g, word ∈ p.forms.forms (.cell .nom n (some g)) := by
  have hfields : ∀ f ∈ cls :: tags, IsField f :=
    List.forall_mem_cons.mpr ⟨hcls, fun f hf => isField_of_isAdjectiveField (htags f hf)⟩
  obtain ⟨_, written, hwritten, hseg⟩ := read_wordText hword.slash hoblique hfields hread
  rw [if_pos hplus, hword.link] at hseg
  have hadjective : ∀ u ∈ TagSet.ofList written, IsAdjectiveTag u := by
    intro u hu
    obtain ⟨f, hf, hread⟩ := exists_field_of_mem_ofList hwritten hu
    exact isAdjectiveTag_of_readTag (htags f hf) hread
  obtain ⟨found, hfound, hs⟩ := exists_classification_of_adjectiveSegment hseg
  obtain ⟨q, hq, hforms⟩ := exists_decline_of_paradigm hp
  rw [hforms]
  exact mem_nominatives.mp
    (mem_nominatives_of_classifyAdjective hword.line hadjective hs hq hfound)

/-- An adjective with a second stem that is barred from being an i-stem. -/
theorem citation_of_adjective_vetus :
    ∃ s p, Segment.read .latin (wordText "vetus" (some "veter") ["3-1+", "-I", "sg"]) = .ok s ∧
      s.paradigm ⟨.latin, {}⟩ (s.lexeme "adjectives" true none none true) = .ok p ∧
      IsPlainLemma "vetus" ∧ (∀ stem ∈ some "veter", '/' ∉ stem.toList) ∧
      '+' ∈ "3-1+".toList ∧ IsField "3-1+" ∧ (∀ f ∈ ["-I", "sg"], IsAdjectiveField f) ∧
      ∃ n g, "vetus" ∈ p.forms.forms (.cell .nom n (some g)) := by
  obtain ⟨s, hread, p, hp⟩ : ∃ s,
      Segment.read .latin (wordText "vetus" (some "veter") ["3-1+", "-I", "sg"]) = .ok s ∧
      ∃ p, s.paradigm ⟨.latin, {}⟩ (s.lexeme "adjectives" true none none true) = .ok p :=
    ⟨_, rfl, _, rfl⟩
  have hword : IsPlainLemma "vetus" := ⟨by decide, by decide, by decide⟩
  have hoblique : ∀ stem ∈ some "veter", '/' ∉ stem.toList := by decide
  have htags : ∀ f ∈ ["-I", "sg"], IsAdjectiveField f := by
    simp only [List.forall_mem_cons]
    exact ⟨.inr (by decide), .inl (by decide), by simp⟩
  exact ⟨s, p, hread, hp, hword, hoblique, by decide, by decide, htags,
    citation_of_adjective hword hoblique (by decide) (by decide) htags hread hp⟩

end Segment

end Declension
