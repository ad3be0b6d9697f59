import Declension.Inflection
import Declension.Proofs.Ending
import Declension.Proofs.Scan
import Declension.Run.Reader

/-!
# How one word is read

A word is written as its stems with a class and tags in angle brackets. Main statement:
`read_wordText`, which takes such a text apart. Then what the tags are that the fields write, and
what a segment keeps of the traits that were written and found.
-/
namespace Declension

namespace TagSet

theorem mem_add {s : TagSet} {t u : Tag} : u ∈ s.add t ↔ u ∈ s ∨ u = t := by
  unfold add
  split
  · rename_i h
    have ht : t ∈ s := by simpa using h
    exact ⟨.inl, fun hu => hu.elim id fun he => he ▸ ht⟩
  · simp

theorem mem_foldl_add {l : List Tag} {s : TagSet} {u : Tag} :
    u ∈ l.foldl add s ↔ u ∈ s ∨ u ∈ l := by
  induction l generalizing s with
  | nil => simp
  | cons t l ih => rw [List.foldl_cons, ih, mem_add, List.mem_cons, or_assoc]

theorem mem_ofList {l : List Tag} {u : Tag} : u ∈ ofList l ↔ u ∈ l := by
  rw [ofList, mem_foldl_add]
  simp

theorem mem_drop {s : TagSet} {t u : Tag} : u ∈ s.drop t ↔ u ∈ s ∧ u ≠ t := by
  simp [drop]

theorem has_iff {s : TagSet} {x : Trait} : s.has x ↔ .has x ∈ s := by
  simp [has]

end TagSet

namespace Text

section Join
variable {sep : Char} {mark : String} {fields : List String}

/-- Of texts that are joined, the fields of each are found. -/
theorem fieldsChars_join_eq_flatMap (hmark : mark.toList = [sep]) (hne : fields ≠ []) :
    fieldsChars sep (join mark fields).toList = fields.flatMap (fieldsChars sep ·.toList) := by
  induction fields with
  | nil => exact absurd rfl hne
  | cons f fields ih =>
    cases fields with
    | nil => simp [join]
    | cons g fields =>
      have hjoin : (join mark (f :: g :: fields)).toList =
          f.toList ++ sep :: (join mark (g :: fields)).toList := by
        simp [join, hmark]
      rw [hjoin, fieldsChars_append_sep, ih (by simp)]
      rfl

theorem fieldsChars_join (hmark : mark.toList = [sep]) (hne : fields ≠ [])
    (h : ∀ f ∈ fields, sep ∉ f.toList) :
    fieldsChars sep (join mark fields).toList = fields.map String.toList := by
  have hfield : ∀ f ∈ fields, fieldsChars sep f.toList = [f.toList] := fun f hf =>
    fieldsChars_of_not_mem (h f hf)
  rw [fieldsChars_join_eq_flatMap hmark hne, List.flatMap_congr hfield, List.map_eq_flatMap]

theorem mem_join (hmark : mark.toList = [sep]) {c : Char} (h : c ∈ (join mark fields).toList) :
    c = sep ∨ ∃ f ∈ fields, c ∈ f.toList := by
  induction fields with
  | nil => cases h
  | cons f fields ih =>
    cases fields with
    | nil => exact .inr ⟨f, by simp, h⟩
    | cons g fields =>
      simp only [join, String.toList_append, List.mem_append, hmark, List.mem_singleton] at h
      rcases h with (hc | hc) | hc
      · exact .inr ⟨f, by simp, hc⟩
      · exact .inl hc
      · rcases ih hc with hc | ⟨g', hg', hc⟩
        · exact .inl hc
        · exact .inr ⟨g', List.mem_cons_of_mem f hg', hc⟩

end Join

end Text

/-- A word as it is written: the lemma, an oblique stem behind a slash, and the class and tags in
angle brackets, divided by stops. -/
def wordText (word : String) (oblique : Option String) (fields : List String) : String :=
  word ++ oblique.elim "" ("/" ++ ·) ++ "<" ++ Text.join "." fields ++ ">"

/-- A field of a specification has no stop and opens no bracket. -/
def IsField (f : String) : Prop := '.' ∉ f.toList ∧ '<' ∉ f.toList

instance (f : String) : Decidable (IsField f) := inferInstanceAs (Decidable (_ ∧ _))

section Read
variable {word decl : String} {oblique : Option String} {tags : List String}

/-- A specification without opening bracket is told from what stands before it. -/
theorem splitSpec?_append {stems spec : List Char} (h : '<' ∉ spec) :
    splitSpec? (stems ++ '<' :: (spec ++ ['>'])) = some (stems, spec) := by
  have hlast : (stems ++ '<' :: (spec ++ ['>'])).getLast? ≠ some '\n' := by
    rw [← List.cons_append, ← List.append_assoc, List.getLast?_concat]
    decide
  have hreverse : (stems ++ '<' :: (spec ++ ['>'])).reverse =
      '>' :: (spec.reverse ++ (['<'] ++ stems.reverse)) := by
    simp
  have hup : Text.upTo ['<'] (fun _ => true) (spec.reverse ++ (['<'] ++ stems.reverse)) =
      some spec.reverse :=
    Text.upTo_eq_some (by rwa [List.mem_reverse]) fun _ _ => rfl
  have hrest : (spec.reverse ++ (['<'] ++ stems.reverse)).drop (spec.reverse.length + 1) =
      stems.reverse := by
    rw [← List.append_assoc]
    exact List.drop_left' (by simp)
  rw [splitSpec?, Text.line, if_neg hlast, hreverse]
  simp only [hup, hrest, List.reverse_reverse]

theorem splitSpec?_wordText (h : ∀ f ∈ tags, '<' ∉ f.toList) :
    splitSpec? (wordText word oblique tags).toList =
      some ((word ++ oblique.elim "" ("/" ++ ·)).toList, (Text.join "." tags).toList) := by
  have htext : (wordText word oblique tags).toList =
      (word ++ oblique.elim "" ("/" ++ ·)).toList ++
        '<' :: ((Text.join "." tags).toList ++ ['>']) := by
    simp [wordText]
  have hopen : '<' ∉ (Text.join "." tags).toList := by
    intro hmem
    rcases Text.mem_join (rfl : ".".toList = ['.']) hmem with hc | ⟨f, hf, hc⟩
    · cases hc
    · exact h f hf hc
  rw [htext, splitSpec?_append hopen]

theorem splitStems_eq_ok {text : String} {stems : String × Option String}
    (hword : '/' ∉ word.toList) (hoblique : ∀ o ∈ oblique, '/' ∉ o.toList)
    (h : splitStems (word ++ oblique.elim "" ("/" ++ ·)).toList text = .ok stems) :
    stems = (word, given oblique) ∧ word ≠ "" := by
  cases oblique with
  | none =>
    have hfields : Text.fieldsChars '/' (word ++ (none : Option String).elim "" ("/" ++ ·)).toList =
        [word.toList] := by
      simpa using Text.fieldsChars_of_not_mem hword
    rw [splitStems, hfields] at h
    cases hchars : word.toList with
    | nil => rw [hchars] at h; cases h
    | cons c r =>
      rw [hchars] at h
      cases h
      rw [← hchars]
      refine ⟨by simp [given], ?_⟩
      rintro rfl
      cases hchars
  | some o =>
    have hfields : Text.fieldsChars '/' (word ++ (some o).elim "" ("/" ++ ·)).toList =
        [word.toList, o.toList] := by
      have happend := Text.fieldsChars_append hword o.toList
      rw [Text.fieldsChars_of_not_mem (hoblique o rfl)] at happend
      simpa using happend
    rw [splitStems, hfields] at h
    cases hchars : word.toList with
    | nil => rw [hchars] at h; cases h
    | cons c r =>
      rw [hchars] at h
      cases h
      rw [← hchars]
      refine ⟨by simp, ?_⟩
      rintro rfl
      cases hchars

/-- A word that is written out is read by its stems, its tags and its class in turn: as an adjective
if the class has a plus sign, else as a noun. -/
theorem read_wordText_eq {t : Tables} (hfields : ∀ f ∈ decl :: tags, IsField f) :
    Segment.read t (wordText word oblique (decl :: tags)) =
      splitStems (word ++ oblique.elim "" ("/" ++ ·)).toList
        (wordText word oblique (decl :: tags)) >>= fun (linkedWord, stem) =>
      tags.mapM readTag >>= fun written =>
      if '+' ∈ decl.toList then
        adjectiveSegment t (Text.unlink linkedWord) linkedWord stem
          (String.ofList (decl.toList.filter (· ≠ '+'))) (.ofList written)
      else if decl.toList.isEmpty then
        .error (.missingClass (wordText word oblique (decl :: tags)))
      else nounSegment t (Text.unlink linkedWord) linkedWord stem decl (.ofList written) := by
  have hspec : Text.fieldsChars '.' (Text.join "." (decl :: tags)).toList =
      decl.toList :: tags.map String.toList :=
    Text.fieldsChars_join rfl (List.cons_ne_nil _ _) fun f hf => (hfields f hf).1
  have htags : (tags.map String.toList).mapM (fun s => readTag (String.ofList s)) =
      tags.mapM readTag := by
    simp [List.mapM_map, Function.comp_def]
  rw [Segment.read, splitSpec?_wordText fun f hf => (hfields f hf).2]
  simp only [pure_bind, hspec, htags, String.ofList_toList]
  rfl

/-- What is read of a word comes from its class and tags: an adjective if the class has a plus sign,
else a noun. -/
theorem read_wordText {t : Tables} {s : Segment} (hword : '/' ∉ word.toList)
    (hoblique : ∀ o ∈ oblique, '/' ∉ o.toList) (hfields : ∀ f ∈ decl :: tags, IsField f)
    (h : Segment.read t (wordText word oblique (decl :: tags)) = .ok s) :
    word ≠ "" ∧ ∃ written, List.Forall₂ (fun f u => readTag f = .ok u) tags written ∧
      (if '+' ∈ decl.toList then
        adjectiveSegment t (Text.unlink word) word (given oblique)
          (String.ofList (decl.toList.filter (· ≠ '+'))) (.ofList written)
      else
        nounSegment t (Text.unlink word) word (given oblique) decl (.ofList written)) = .ok s := by
  rw [read_wordText_eq hfields] at h
  obtain ⟨stems, hstems, h⟩ := bind_eq_ok.mp h
  obtain ⟨written, hwritten, h⟩ := bind_eq_ok.mp h
  obtain ⟨rfl, hne⟩ := splitStems_eq_ok hword hoblique hstems
  refine ⟨hne, written, mapM_eq_ok.mp hwritten, ?_⟩
  split at h
  · rename_i hplus
    rwa [if_pos hplus]
  · rename_i hplus
    rw [if_neg hplus]
    split at h
    · cases h
    · exact h

end Read

/-- A lemma on one line that is not linked and has no second stem behind it. -/
structure IsPlainLemma (word : String) : Prop where
  line : '\n' ∉ word.toList
  slash : '/' ∉ word.toList
  link : Text.unlink word = word

/-- The fields that tell a gender. -/
def genderFields : List String := ["M", "F", "N"]

/-- The fields that tell a number. -/
def numberFields : List String := ["sg", "pl", "both"]

/-- A field that starts with a hyphen is a veto. -/
def isVetoField (f : String) : Bool := Text.startsWith "-" f

theorem exists_field_of_mem_ofList {fields : List String} {written : List Tag} {u : Tag}
    (h : List.Forall₂ (fun f u => readTag f = .ok u) fields written)
    (hu : u ∈ TagSet.ofList written) : ∃ f ∈ fields, readTag f = .ok u := by
  obtain ⟨f, hf, hread⟩ := exists_mem_of_forall₂ h (TagSet.mem_ofList.mp hu)
  exact ⟨f, hf, hread⟩

theorem exists_veto_of_readTag {f : String} {u : Tag} (hf : isVetoField f) (h : readTag f = .ok u) :
    ∃ v, u = .veto v := by
  obtain ⟨r, hr⟩ : ∃ r, f.toList = '-' :: r := by
    have hprefix : ['-'] <+: f.toList := List.isPrefixOf_iff_prefix.mp hf
    obtain ⟨r, hr⟩ := hprefix
    exact ⟨r, hr.symm⟩
  unfold readTag at h
  dsimp only at h
  split at h
  · rename_i found hfound
    cases h
    obtain ⟨hname, _⟩ := Option.filter_eq_some_iff.mp hfound
    simp only [Tag.ofName?, Tag.spelling, hr, String.toList_ofList, Tag.ofChars?] at hname
    obtain ⟨v, _, rfl⟩ := Option.map_eq_some_iff.mp hname
    exact ⟨v, rfl⟩
  · cases h

theorem readTag_of_mem_numberFields {f : String} {u : Tag} (hf : f ∈ numberFields)
    (h : readTag f = .ok u) : isNumberTag u ∧ (u = .has .pl → f = "pl") := by
  simp only [numberFields, List.mem_cons, List.not_mem_nil, or_false] at hf
  rcases hf with rfl | rfl | rfl
  all_goals
    cases h
    decide

theorem readTag_of_mem_genderFields {f : String} {u : Tag} (hf : f ∈ genderFields)
    (h : readTag f = .ok u) : isGenderTag u := by
  simp only [genderFields, List.mem_cons, List.not_mem_nil, or_false] at hf
  rcases hf with rfl | rfl | rfl
  all_goals
    cases h
    rfl

theorem isNumberTag_of_isKind {x : Trait} (hx : x.isKind) : isNumberTag (.has x) = false := by
  cases x <;> first | rfl | cases hx

theorem not_told_of_isKind {x : Trait} (hx : x.isKind) : x ≠ .loc ∧ x ≠ .sg ∧ x ≠ .pl := by
  refine ⟨?_, ?_, ?_⟩
  all_goals
    rintro rfl
    cases hx

theorem obliqueStem_lexeme (s : Segment) (pos : String) (isAdj : Bool) (num : Option NumberUse)
    (gender : Option Gender) (loc : Bool) :
    (s.lexeme pos isAdj num gender loc).obliqueStem = (given s.oblique).getD s.stem := rfl

theorem getD_given (s : String) : (given (some s)).getD s = s := by
  by_cases h : s = "" <;> simp [given, h, Option.filter]

section Settle
variable {decl : String} {headword : HeadwordClass} {isAdj : Bool} {found : Classification}
  {word linkedWord : String} {tags : TagSet}

theorem mem_tags_settle {u : Tag} :
    u ∈ (settle decl headword isAdj found word linkedWord tags).tags ↔ u ∈ tags ∧
      (.has .pl ∈ tags → u ≠ .has .pl) ∧ (.has .pl ∉ tags → .has .sg ∈ tags → u ≠ .has .sg) ∧
      u ≠ .has .loc := by
  by_cases hpl : .has .pl ∈ tags
  · simp [settle, TagSet.has, TagSet.drop, hpl]
  · by_cases hsg : .has .sg ∈ tags
    · simp [settle, TagSet.has, TagSet.drop, hpl, hsg]
    · simp [settle, TagSet.has, TagSet.drop, hpl, hsg]

theorem has_settle {x : Trait} (hloc : x ≠ .loc) (hsg : x ≠ .sg) (hpl : x ≠ .pl) :
    (settle decl headword isAdj found word linkedWord tags).tags.has x = tags.has x := by
  rw [Bool.eq_iff_iff, TagSet.has_iff, TagSet.has_iff, mem_tags_settle]
  simp [hloc, hsg, hpl]

theorem num_settle : (settle decl headword isAdj found word linkedWord tags).num =
    if tags.has .pl then some .pl else if tags.has .sg then some .sg else none := by
  have hdrop : ∀ x, x ≠ .loc → (tags.drop (.has .loc)).has x = tags.has x := by
    intro x hx
    rw [Bool.eq_iff_iff, TagSet.has_iff, TagSet.has_iff]
    simp [TagSet.mem_drop, hx]
  simp only [settle, hdrop _ (by decide : Trait.pl ≠ .loc), hdrop _ (by decide : Trait.sg ≠ .loc)]
  split_ifs <;> rfl

end Settle

end Declension
