import Declension.Proofs.Validation
import Mathlib.Data.List.Pairwise

/-!
# Sections of tables in files

Files are read one after the other, and a section may stand in one file only. So which sections
there are, and what they hold, decides what is loaded: neither the way the sections are divided
among files counts nor how these are named, as long as their names make them files that are read.
What is loaded was checked: tags are known, and forms are given by the names of slots. Main
statement: `load_sections`.
-/
namespace Declension

namespace Json

theorem lookup_eq_some_of_nodup {members : List (String × Json)}
    (h : (members.map Prod.fst).Nodup) {key : String} {v : Json} :
    members.lookup key = some v ↔ (key, v) ∈ members := by
  induction members with
  | nil => simp
  | cons e members ih =>
    obtain ⟨a, w⟩ := e
    obtain ⟨hnot, hrest⟩ := List.nodup_cons.mp h
    by_cases hkey : key = a
    · subst hkey
      have hout : (key, v) ∉ members := fun hmem => hnot (List.mem_map.mpr ⟨_, hmem, rfl⟩)
      simp [hout, eq_comm]
    · have hbeq : (key == a) = false := by simpa using hkey
      rw [List.lookup_cons, hbeq, List.mem_cons]
      simp [hkey, ih hrest]

theorem member?_perm {members members' : List (String × Json)} (hperm : members.Perm members')
    (h : (members.map Prod.fst).Nodup) (key : String) :
    member? key (obj members) = member? key (obj members') := by
  have h' : (members'.map Prod.fst).Nodup := (hperm.map Prod.fst).nodup_iff.mp h
  refine Option.ext fun v => ?_
  exact (lookup_eq_some_of_nodup h).trans (hperm.mem_iff.trans (lookup_eq_some_of_nodup h').symm)

end Json

namespace Tables

theorem ofSections?_congr [Expressions] {v w : Json} (h : ∀ key, v.member? key = w.member? key) :
    ofSections? v = ofSections? w := by
  simp only [ofSections?, Json.required?, Json.optional?, h]

/-- What the sections are validated to. -/
def validated [Expressions] (sections : List (String × Json)) : Except LoadFault Tables :=
  match ofSections? (.obj sections) with
  | some t => .ok t
  | none => .error .invalid

theorem validated_perm [Expressions] {sections sections' : List (String × Json)}
    (hperm : sections.Perm sections') (h : (sections.map Prod.fst).Nodup) :
    validated sections = validated sections' := by
  unfold validated
  rw [ofSections?_congr (Json.member?_perm hperm h)]

/-- The sections in a document, none in one that is no object. -/
def sectionsOf (doc : Json) : List (String × Json) := doc.obj?.getD []

def sectionNames (doc : Json) : List String := (sectionsOf doc).map Prod.fst

/-- Whether a document is absent, or holds sections under distinct names. -/
structure HoldsSections (doc : Json) : Prop where
  shape : doc.isVoid ∨ ∃ members, doc = .obj members
  nodup : (sectionNames doc).Nodup

/-- The files that are read, each once, with the document it has last. -/
def tableFiles (files : List (String × Json)) : List (String × Json) :=
  (OrderedMap.ofList files).entries.filter fun (name, _) => isTableFile name

/-- The sections of all files that are read. -/
def allSections (files : List (String × Json)) : List (String × Json) :=
  (tableFiles files).flatMap fun file => sectionsOf file.2

/-- Whether two files that are read have a section of the same name. -/
def RepeatsSection (files : List (String × Json)) : Prop :=
  ∃ file ∈ tableFiles files, ∃ file' ∈ tableFiles files, file.1 ≠ file'.1 ∧
    ∃ name ∈ sectionNames file.2, name ∈ sectionNames file'.2

/-- What adding sections comes to: all of them if their names are distinct, else an error that
names one of them. -/
structure Adds (sections : OrderedMap String Json) (members : List (String × Json))
    (outcome : Except LoadFault (OrderedMap String Json)) : Prop where
  ok : ((sections.entries ++ members).map Prod.fst).Nodup →
    outcome = .ok ⟨sections.entries ++ members⟩
  error : ¬ ((sections.entries ++ members).map Prod.fst).Nodup →
    ∃ name file, outcome = .error (.repeatedSection name file)

theorem Adds.bind {sections : OrderedMap String Json} {members more : List (String × Json)}
    {outcome : Except LoadFault (OrderedMap String Json)}
    {next : OrderedMap String Json → Except LoadFault (OrderedMap String Json)}
    (h : Adds sections members outcome)
    (hnext : ((sections.entries ++ members).map Prod.fst).Nodup →
      Adds ⟨sections.entries ++ members⟩ more (next ⟨sections.entries ++ members⟩)) :
    Adds sections (members ++ more) (outcome >>= next) := by
  by_cases hnodup : ((sections.entries ++ members).map Prod.fst).Nodup
  · rw [h.ok hnodup]
    obtain ⟨hok, herror⟩ := hnext hnodup
    rw [List.append_assoc] at hok herror
    exact ⟨hok, herror⟩
  · obtain ⟨name, file, rfl⟩ := h.error hnodup
    refine ⟨fun hall => absurd ?_ hnodup, fun _ => ⟨name, file, rfl⟩⟩
    rw [← List.append_assoc, List.map_append] at hall
    exact hall.of_append_left

theorem adds_nil {sections : OrderedMap String Json} (h : sections.keys.Nodup) :
    Adds sections [] (.ok sections) := by
  constructor
  · intro _
    rw [List.append_nil]
  · intro hnot
    rw [List.append_nil] at hnot
    exact absurd h hnot

theorem adds_insert (file : String) {sections : OrderedMap String Json}
    (h : sections.keys.Nodup) (name : String) (content : Json) :
    Adds sections [(name, content)] (if sections.contains name
      then .error (.repeatedSection name file) else .ok (sections.insert name content)) := by
  have hnodup : ((sections.entries ++ [(name, content)]).map Prod.fst).Nodup ↔
      name ∉ sections.keys := by
    rw [List.map_append, List.nodup_append_comm]
    exact List.nodup_cons.trans (and_iff_left h)
  constructor
  · intro hall
    rw [if_neg (mt OrderedMap.contains_iff_mem_keys.mp (hnodup.mp hall)), OrderedMap.insert,
      OrderedMap.put_of_not_mem content (hnodup.mp hall)]
  · intro hall
    rw [hnodup, not_not, ← OrderedMap.contains_iff_mem_keys] at hall
    rw [if_pos hall]
    exact ⟨name, file, rfl⟩

theorem addSections_cons (file : String) (sections : OrderedMap String Json) (name : String)
    (content : Json) (rest : List (String × Json)) :
    addSections file sections ((name, content) :: rest) =
      (if sections.contains name then .error (.repeatedSection name file)
        else .ok (sections.insert name content)) >>= fun more => addSections file more rest := by
  rw [addSections]
  split <;> rfl

theorem adds_addSections (file : String) {sections : OrderedMap String Json}
    (h : sections.keys.Nodup) (members : List (String × Json)) :
    Adds sections members (addSections file sections members) := by
  induction members generalizing sections with
  | nil => exact adds_nil h
  | cons e members ih =>
    rw [addSections_cons]
    exact (adds_insert file h e.1 e.2).bind fun hnodup => ih hnodup

theorem adds_addFile {sections : OrderedMap String Json} (h : sections.keys.Nodup)
    {file : String × Json} (hfile : HoldsSections file.2) :
    Adds sections (sectionsOf file.2) (addFile sections file) := by
  obtain ⟨name, doc⟩ := file
  rcases hfile.shape with hvoid | ⟨members, rfl⟩
  · have hnone : sectionsOf doc = [] := by
      cases doc with
      | obj members => exact List.isEmpty_iff.mp hvoid
      | _ => rfl
    rw [hnone, addFile, if_pos hvoid]
    exact adds_nil h
  · unfold addFile
    split
    next hvoid =>
      have hnone : sectionsOf (.obj members) = [] := List.isEmpty_iff.mp hvoid
      rw [hnone]
      exact adds_nil h
    next => exact adds_addSections name h members

theorem adds_foldlM {files : List (String × Json)} (hfiles : ∀ file ∈ files, HoldsSections file.2)
    {sections : OrderedMap String Json} (h : sections.keys.Nodup) :
    Adds sections (files.flatMap fun file => sectionsOf file.2)
      (files.foldlM addFile sections) := by
  induction files generalizing sections with
  | nil => exact adds_nil h
  | cons file files ih =>
    obtain ⟨hfile, hrest⟩ := List.forall_mem_cons.mp hfiles
    rw [List.flatMap_cons, List.foldlM_cons]
    exact (adds_addFile h hfile).bind fun hnodup => ih hrest hnodup

theorem nodup_tableFiles (files : List (String × Json)) :
    ((tableFiles files).map Prod.fst).Nodup :=
  (OrderedMap.nodup_keys_ofList files).sublist (List.filter_sublist.map Prod.fst)

/-- The sections of all files have distinct names just if no two files share one. -/
theorem nodup_allSections_iff {files : List (String × Json)}
    (hfiles : ∀ file ∈ tableFiles files, HoldsSections file.2) :
    ((allSections files).map Prod.fst).Nodup ↔ ¬ RepeatsSection files := by
  have hnames : (allSections files).map Prod.fst =
      (tableFiles files).flatMap fun file => sectionNames file.2 := List.map_flatMap
  rw [hnames, List.nodup_flatMap, and_iff_right fun file hfile => (hfiles file hfile).nodup]
  constructor
  · rintro hpairwise ⟨file, hfile, file', hfile', hne, name, hname, hname'⟩
    have : Std.Symm (Function.onFun List.Disjoint fun file : String × Json =>
        sectionNames file.2) := ⟨fun _ _ h _ hmem hmem' => h hmem' hmem⟩
    exact hpairwise.forall hfile hfile' (fun heq => hne (congrArg Prod.fst heq)) hname hname'
  · intro hnot
    have hnodup := (nodup_tableFiles files).of_map
    refine hnodup.pairwise_of_forall_ne fun file hfile file' hfile' hne name hname hname' => ?_
    refine hnot ⟨file, hfile, file', hfile', fun heq => hne ?_, name, hname, hname'⟩
    exact List.inj_on_of_nodup_map (nodup_tableFiles files) hfile hfile' heq

theorem repeatsSection_congr {files files' : List (String × Json)}
    (hfiles : ∀ file ∈ tableFiles files, HoldsSections file.2)
    (hfiles' : ∀ file ∈ tableFiles files', HoldsSections file.2)
    (hperm : (allSections files').Perm (allSections files)) :
    RepeatsSection files' ↔ RepeatsSection files := by
  rw [← not_iff_not, ← nodup_allSections_iff hfiles, ← nodup_allSections_iff hfiles']
  exact (hperm.map Prod.fst).nodup_iff

theorem load_eq_bind [Expressions] (files : List (String × Json)) : load files =
    ((tableFiles files).mergeSort fun a b => a.1 ≤ b.1).foldlM addFile ∅ >>=
      fun sections => validated sections.entries := rfl

theorem exists_adds_sorted {files : List (String × Json)}
    (hfiles : ∀ file ∈ tableFiles files, HoldsSections file.2) :
    ∃ sections, sections.Perm (allSections files) ∧ Adds ∅ sections
      (((tableFiles files).mergeSort fun a b => a.1 ≤ b.1).foldlM addFile ∅) := by
  have hsorted := (tableFiles files).mergeSort_perm fun a b => a.1 ≤ b.1
  exact ⟨_, hsorted.flatMap_right _,
    adds_foldlM (fun file hfile => hfiles file (hsorted.mem_iff.mp hfile)) List.nodup_nil⟩

theorem load_of_not_repeatsSection [Expressions] {files : List (String × Json)}
    (hfiles : ∀ file ∈ tableFiles files, HoldsSections file.2) (h : ¬ RepeatsSection files)
    {sections : List (String × Json)} (hperm : sections.Perm (allSections files)) :
    load files = validated sections := by
  rw [← nodup_allSections_iff hfiles] at h
  obtain ⟨sorted, hsorted, hadds⟩ := exists_adds_sorted hfiles
  have hnodup : (sorted.map Prod.fst).Nodup := (hsorted.map Prod.fst).nodup_iff.mpr h
  rw [load_eq_bind, hadds.ok hnodup]
  exact validated_perm (hsorted.trans hperm.symm) hnodup

theorem load_of_repeatsSection [Expressions] {files : List (String × Json)}
    (hfiles : ∀ file ∈ tableFiles files, HoldsSections file.2) (h : RepeatsSection files) :
    ∃ name file, load files = .error (.repeatedSection name file) := by
  rw [← not_not (a := RepeatsSection files), ← nodup_allSections_iff hfiles] at h
  obtain ⟨sorted, hsorted, hadds⟩ := exists_adds_sorted hfiles
  obtain ⟨name, file, herror⟩ := hadds.error (mt (hsorted.map Prod.fst).nodup_iff.mp h)
  rw [load_eq_bind, herror]
  exact ⟨name, file, rfl⟩

/-- Whether the forms of a paradigm are written under the names of slots. -/
def NamesSlots (doc : Json) (p : IrregularParadigm) : Prop :=
  ∃ forms, doc.member? "forms" = some (.obj forms) ∧
    ∀ name ∈ forms.map Prod.fst, ∃ slot ∈ p.forms.keys, slot.name = name

/-- Whether all tags of the tables are known, and all forms of irregular paradigms in the sections
are written under the names of slots. A section that is missing counts as an empty list. -/
structure IsChecked (sections : List (String × Json)) (t : Tables) : Prop where
  nounEndings : ∀ table ∈ t.nounEndings.entries, ∀ entry ∈ table.2.entries,
    ∀ tag ∈ entry.tags, tag.isKnown
  adjectiveEndings : ∀ table ∈ t.adjectiveEndings.entries, ∀ entry ∈ table.2.entries,
    ∀ tag ∈ entry.tags, tag.isKnown
  irregularNounTags : ∀ tags ∈ t.irregularNounTags.entries, ∀ tag ∈ tags.2, tag.isKnown
  irregularNouns : ∃ docs, (sections.lookup "irregular_nouns").getD (.arr []) = .arr docs ∧
    List.Forall₂ NamesSlots docs t.irregularNouns
  irregularAdjectives :
    ∃ docs, (sections.lookup "irregular_adjectives").getD (.arr []) = .arr docs ∧
      List.Forall₂ NamesSlots docs t.irregularAdjectives

theorem namesSlots_of_irregularParadigm? {doc : Json} {p : IrregularParadigm}
    (h : irregularParadigm? doc = some p) : NamesSlots doc p := by
  obtain ⟨forms, hmember, hforms⟩ := Option.bind_eq_some_iff.mp (forms_of_irregularParadigm? h)
  cases forms with
  | obj members => exact ⟨members, hmember, name_of_slotForms? hforms⟩
  | _ => cases hforms

theorem forall₂_namesSlots {key : String} {sections : List (String × Json)}
    {paradigms : List IrregularParadigm}
    (h : Json.optional? key [] (Json.list? irregularParadigm?) (.obj sections) =
      some paradigms) :
    ∃ docs, (sections.lookup key).getD (.arr []) = .arr docs ∧
      List.Forall₂ NamesSlots docs paradigms := by
  have hmember : Json.member? key (.obj sections) = sections.lookup key := rfl
  rw [Json.optional?, hmember] at h
  cases hlookup : sections.lookup key with
  | none =>
    rw [hlookup] at h
    cases h
    exact ⟨[], rfl, .nil⟩
  | some doc =>
    rw [hlookup] at h
    cases doc with
    | arr docs =>
      exact ⟨docs, rfl, (mapM_eq_some.mp h).imp fun _ _ => namesSlots_of_irregularParadigm?⟩
    | _ => cases h

theorem isChecked_of_validated [Expressions] {sections : List (String × Json)} {t : Tables}
    (h : validated sections = .ok t) : IsChecked sections t := by
  have hread : ofSections? (.obj sections) = some t := by
    unfold validated at h
    split at h
    next t' ht' => rw [ht', Except.ok.inj h]
    next => cases h
  have hsections := readsSections_of_ofSections? hread
  obtain ⟨_, _, hnouns⟩ := Option.bind_eq_some_iff.mp hsections.nounEndings
  obtain ⟨_, _, hadjectives⟩ := Option.bind_eq_some_iff.mp hsections.adjectiveEndings
  refine ⟨?_, ?_, ?_, forall₂_namesSlots hsections.irregularNouns,
    forall₂_namesSlots hsections.irregularAdjectives⟩
  · intro table htable
    obtain ⟨_, htable⟩ := byName?_eq_some hnouns table htable
    exact isKnown_of_endingTable? htable
  · intro table htable
    obtain ⟨_, htable⟩ := byName?_eq_some hadjectives table htable
    exact isKnown_of_endingTable? htable
  · intro tags htags tag htag
    have hoptional := hsections.irregularNounTags
    unfold Json.optional? at hoptional
    split at hoptional
    · obtain ⟨_, hlist⟩ := byName?_eq_some hoptional tags htags
      obtain ⟨_, htag⟩ := list?_eq_some hlist tag htag
      exact isKnown_of_tag? htag
    · rw [← Option.some.inj hoptional] at htags
      cases htags

/-- What is loaded depends on the sections alone. It fails with a repeated section just if two
files share one; else it is what all the sections together are validated to, so files in which the
same sections are divided otherwise, under whatever names, load alike. Tables that are loaded have
known tags alone, and their irregular paradigms slots of the vocabulary. -/
theorem load_sections [Expressions] {files : List (String × Json)}
    (hfiles : ∀ file ∈ tableFiles files, HoldsSections file.2) :
    ((∃ name file, load files = .error (.repeatedSection name file)) ↔ RepeatsSection files) ∧
    (¬ RepeatsSection files → ∀ sections, sections.Perm (allSections files) →
      load files = validated sections) ∧
    (∀ files', (∀ file ∈ tableFiles files', HoldsSections file.2) →
      (allSections files').Perm (allSections files) →
        (RepeatsSection files' ↔ RepeatsSection files) ∧
        (¬ RepeatsSection files → load files' = load files)) ∧
    ∀ t, load files = .ok t → IsChecked (allSections files) t := by
  have hvalidated : ¬ RepeatsSection files → load files = validated (allSections files) :=
    fun hnot => load_of_not_repeatsSection hfiles hnot (.refl _)
  refine ⟨⟨?_, load_of_repeatsSection hfiles⟩, fun hnot sections =>
    load_of_not_repeatsSection hfiles hnot, ?_, ?_⟩
  · rintro ⟨name, file, herror⟩
    by_contra hnot
    rw [hvalidated hnot, validated] at herror
    split at herror <;> cases herror
  · intro files' hfiles' hperm
    have hrepeats := repeatsSection_congr hfiles hfiles' hperm
    refine ⟨hrepeats, fun hnot => ?_⟩
    rw [hvalidated hnot]
    exact load_of_not_repeatsSection hfiles' (mt hrepeats.mp hnot) hperm.symm
  · intro t ht
    have hnot : ¬ RepeatsSection files := by
      intro h
      obtain ⟨name, file, herror⟩ := load_of_repeatsSection hfiles h
      rw [ht] at herror
      cases herror
    exact isChecked_of_validated ((hvalidated hnot).symm.trans ht)

/-- The sections that tables cannot do without, all of them empty. -/
def bareSections : List (String × Json) :=
  [("stem2_patterns", .arr []), ("noun_endings", .obj []), ("adjective_endings", .obj []),
    ("declension_names", .obj [])]

/-- The tag of an irregular noun in a file of its own, or in one file with the other sections. -/
theorem load_sections_of_callisto :
    letI : Expressions := .blank
    ∃ t, load [("tags.yaml", .obj [("irregular_noun_tags",
          .obj [("Callistō", .arr [.str "Callisto"])])]), ("endings.yaml", .obj bareSections)] =
        .ok t ∧
      load [("tables.yaml", .obj (("irregular_noun_tags",
        .obj [("Callistō", .arr [.str "Callisto"])]) :: bareSections))] = .ok t ∧
      t.irregularNounTags.get? "Callistō" = some [.has .Callisto] := by
  let _ : Expressions := .blank
  have htwo : ∀ file ∈ tableFiles [("tags.yaml", .obj [("irregular_noun_tags",
      .obj [("Callistō", .arr [.str "Callisto"])])]), ("endings.yaml", .obj bareSections)],
      HoldsSections file.2 := by
    intro file hfile
    rcases List.mem_pair.mp (List.mem_of_mem_filter hfile) with rfl | rfl <;>
      exact ⟨.inr ⟨_, rfl⟩, by decide⟩
  have hone : ∀ file ∈ tableFiles [("tables.yaml", .obj (("irregular_noun_tags",
      .obj [("Callistō", .arr [.str "Callisto"])]) :: bareSections))], HoldsSections file.2 := by
    intro file hfile
    obtain rfl := List.mem_singleton.mp (List.mem_of_mem_filter hfile)
    exact ⟨.inr ⟨_, rfl⟩, by decide⟩
  obtain ⟨-, hvalidated, hfiles, -⟩ := load_sections htwo
  have hnot := (nodup_allSections_iff htwo).mp (by decide +kernel)
  have hload := hvalidated hnot _ (.refl _)
  obtain ⟨t, ht, htags⟩ : ∃ t, validated (("irregular_noun_tags",
      .obj [("Callistō", .arr [.str "Callisto"])]) :: bareSections) = .ok t ∧
      t.irregularNounTags.get? "Callistō" = some [.has .Callisto] := ⟨_, rfl, by decide +kernel⟩
  have hok := hload.trans ht
  exact ⟨t, hok, ((hfiles _ hone (.refl _)).2 hnot).trans hok, htags⟩

/-- A file whose name begins with a dot is not read, so a section that it shares with another file
is not noticed until it is renamed. -/
theorem not_load_sections_of_hidden_file :
    letI : Expressions := .blank
    (∃ t, load [("a.yaml", .obj bareSections),
      (".b.yaml", .obj [("declension_names", .obj [])])] = .ok t) ∧
    ∃ name file, load [("a.yaml", .obj bareSections),
      ("b.yaml", .obj [("declension_names", .obj [])])] =
        .error (.repeatedSection name file) := by
  let _ : Expressions := .blank
  have hbare : HoldsSections (.obj bareSections) := ⟨.inr ⟨_, rfl⟩, by decide⟩
  constructor
  · have hread : tableFiles [("a.yaml", .obj bareSections),
        (".b.yaml", .obj [("declension_names", .obj [])])] = [("a.yaml", .obj bareSections)] :=
      rfl
    have hfiles : ∀ file ∈ tableFiles [("a.yaml", .obj bareSections),
        (".b.yaml", .obj [("declension_names", .obj [])])], HoldsSections file.2 := by
      simpa [hread] using hbare
    have hnot := (nodup_allSections_iff hfiles).mp (by decide +kernel)
    obtain ⟨t, ht⟩ : ∃ t, validated bareSections = .ok t := ⟨_, rfl⟩
    refine ⟨t, (load_of_not_repeatsSection hfiles hnot ?_).trans ht⟩
    simp [allSections, hread, sectionsOf, Json.obj?]
  · have hread : tableFiles [("a.yaml", .obj bareSections),
        ("b.yaml", .obj [("declension_names", .obj [])])] =
          [("a.yaml", .obj bareSections), ("b.yaml", .obj [("declension_names", .obj [])])] :=
      rfl
    have hfiles : ∀ file ∈ tableFiles [("a.yaml", .obj bareSections),
        ("b.yaml", .obj [("declension_names", .obj [])])], HoldsSections file.2 := by
      rw [hread]
      intro file hfile
      rcases List.mem_pair.mp hfile with rfl | rfl
      · exact hbare
      · exact ⟨.inr ⟨_, rfl⟩, by decide⟩
    refine load_of_repeatsSection hfiles ?_
    by_contra hnot
    exact absurd ((nodup_allSections_iff hfiles).mpr hnot) (by decide +kernel)

end Tables
end Declension
