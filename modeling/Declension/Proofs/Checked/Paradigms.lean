import Declension.Proofs.Checked.Access
import Declension.Proofs.Validation
import Declension.Tables.Latin

/-!
# Irregular paradigms under names

A document gives the forms of an irregular paradigm under names. They are looked at once, when the
tables are validated; when a word is declined they are written as they stand in the document. Main
statements: `Engine.exists_of_ofSections?`, by which validated tables come from such paradigms, and
`Engine.irregularNoun_refines` with its like for adjectives.
-/
namespace Declension.Checked

/-- An irregular paradigm as a document gives it. -/
structure NamedParadigm where
  /-- The paradigm without its forms. -/
  paradigm : IrregularParadigm
  forms : List (String × List String)

namespace NamedParadigm
open Json Tables

/-- The paradigm, if every name is that of a slot. -/
def validate (p : NamedParadigm) : Option IrregularParadigm := do
  let slots ← p.forms.mapM fun (name, forms) => (Slot.ofName? name).map (·, forms)
  return { p.paradigm with forms := .ofList slots }

/-- The forms for a word, under their names; of two under one name the later holds. -/
def formsFor (p : NamedParadigm) (word : String) : List (String × List String) :=
  ((OrderedMap.ofList p.forms).mapValues fun forms =>
    forms.map (IrregularParadigm.fill word)).entries

/-- Reads a paradigm without a look at its names. -/
def read? (v : Json) : Option NamedParadigm := do
  return {
    paradigm := {
      words := ← required? "lemmas" texts? v
      title := ← optional? "title" none (nullable? str?) v
      subtitles := ← optional? "subtitles" [] (list? subtitle?) v
      forms := ∅
      notes := ← optional? "notes" ∅ notes? v
      voc := ← optional? "voc" true Options.switch? v
      footnote := ← optional? "footnote" "" str? v
      categories := ← optional? "categories" [] texts? v }
    forms := ← required? "forms" (map? texts?) v }

/-- The paradigm with its slots under their names. -/
def ofParadigm (p : IrregularParadigm) : NamedParadigm := ⟨p, names p.forms.entries⟩

theorem names_of_mapM {forms : List (String × List String)} {slots : List (Slot × List String)}
    (h : forms.mapM (fun (name, forms) => (Slot.ofName? name).map (·, forms)) = some slots) :
    names slots = forms := by
  have hread := mapM_eq_some.mp h
  have hnames := map_eq_of_forall₂ (f := id) (g := fun e : Slot × List String => (e.1.name, e.2))
    hread (by
      intro form entry hentry
      obtain ⟨slot, hslot, rfl⟩ := Option.map_eq_some_iff.mp hentry
      exact Prod.ext (Slot.name_of_ofName? hslot).symm rfl)
  rw [List.map_id] at hnames
  exact hnames.symm

theorem names_insertMany (m : OrderedMap Slot (List String)) (slots : List (Slot × List String)) :
    names (m.insertMany slots).entries =
      (OrderedMap.insertMany ⟨names m.entries⟩ (names slots)).entries := by
  induction slots generalizing m with
  | nil => rfl
  | cons row slots ih =>
    have hrow := congrArg OrderedMap.entries
      (OrderedMap.mapKeys_insert Slot.name_injective m row.1 row.2)
    have hnames : names (m.insert row.1 row.2).entries =
        (OrderedMap.insert ⟨names m.entries⟩ row.1.name row.2).entries := hrow
    have hrest := ih (m.insert row.1 row.2)
    rw [hnames] at hrest
    exact hrest

/-- A validated paradigm has the forms of its document, slot by slot under their names. -/
theorem names_of_validate {p : NamedParadigm} {q : IrregularParadigm}
    (h : p.validate = some q) (word : String) :
    names (q.formsFor word).entries = p.formsFor word := by
  obtain ⟨slots, hslots, h⟩ := Option.bind_eq_some_iff.mp h
  cases h
  have hforms : names (OrderedMap.ofList slots).entries = (OrderedMap.ofList p.forms).entries := by
    rw [← names_of_mapM hslots]
    exact names_insertMany ∅ slots
  rw [formsFor, OrderedMap.mapValues, ← hforms]
  simp [names, IrregularParadigm.formsFor]

theorem words_of_validate {p : NamedParadigm} {q : IrregularParadigm}
    (h : p.validate = some q) : q.words = p.paradigm.words := by
  obtain ⟨slots, _, h⟩ := Option.bind_eq_some_iff.mp h
  cases h
  rfl

theorem nodup_of_validate {p : NamedParadigm} {q : IrregularParadigm}
    (h : p.validate = some q) : q.forms.keys.Nodup := by
  obtain ⟨slots, _, h⟩ := Option.bind_eq_some_iff.mp h
  cases h
  exact OrderedMap.nodup_keys_ofList slots

/-- What is read with a look at its names is read without one and then validated. -/
theorem exists_of_irregularParadigm? {v : Json} {q : IrregularParadigm}
    (h : irregularParadigm? v = some q) : ∃ p, read? v = some p ∧ p.validate = some q := by
  simp only [irregularParadigm?, Option.bind_eq_bind, Option.bind_eq_some_iff] at h
  obtain ⟨words, hwords, title, htitle, subtitles, hsubtitles, forms, hforms, notes, hnotes, voc,
    hvoc, footnote, hfootnote, categories, hcategories, h⟩ := h
  cases h
  obtain ⟨w, hw, hforms⟩ := Option.bind_eq_some_iff.mp hforms
  obtain ⟨named, hnamed, hforms⟩ := Option.bind_eq_some_iff.mp hforms
  obtain ⟨slots, hslots, hforms⟩ := Option.bind_eq_some_iff.mp hforms
  cases hforms
  have hrequired : required? "forms" (map? texts?) v = some named :=
    Option.bind_eq_some_iff.mpr ⟨w, hw, hnamed⟩
  refine ⟨⟨⟨words, title, subtitles, ∅, notes, voc, footnote, categories⟩, named⟩, ?_, ?_⟩
  · simp only [read?, hwords, htitle, hsubtitles, hnotes, hvoc, hfootnote, hcategories, hrequired]
    rfl
  · simp only [validate, hslots]
    rfl

theorem validate_ofParadigm {p : IrregularParadigm} (h : p.forms.keys.Nodup) :
    (ofParadigm p).validate = some p := by
  have hslots : (names p.forms.entries).mapM
      (fun (name, forms) => (Slot.ofName? name).map (·, forms)) = some p.forms.entries := by
    refine mapM_eq_some.mpr (List.forall₂_map_left_iff.mpr (List.forall₂_same.mpr ?_))
    intro row _
    simp only [Slot.ofName?_name, Option.map_some]
  have hforms : OrderedMap.ofList p.forms.entries = p.forms := OrderedMap.ofList_of_nodup h
  simp only [ofParadigm, validate, hslots]
  exact congrArg (fun forms => some { p with forms }) hforms

end NamedParadigm

/-- An engine whose irregular paradigms stand as in their document; those in its tables are not
used. -/
structure Engine extends Declension.Engine where
  nouns : List NamedParadigm
  adjectives : List NamedParadigm

namespace Engine

/-- The tables are what validation makes of the paradigms. -/
structure Accepted (e : Engine) : Prop where
  nouns : List.Forall₂ (fun p q => p.validate = some q) e.nouns e.tables.irregularNouns
  adjectives :
    List.Forall₂ (fun p q => p.validate = some q) e.adjectives e.tables.irregularAdjectives

/-- The engine of tables that are read from a document. -/
def ofDocument? (v : Json) (t : Tables) (o : Options) : Option Engine := do
  return {
    tables := t
    options := o
    nouns := ← Json.optional? "irregular_nouns" [] (Json.list? NamedParadigm.read?) v
    adjectives := ← Json.optional? "irregular_adjectives" [] (Json.list? NamedParadigm.read?) v }

/-- The engine whose paradigms have their slots under their names. -/
def ofTables (t : Tables) (o : Options) : Engine where
  tables := t
  options := o
  nouns := t.irregularNouns.map .ofParadigm
  adjectives := t.irregularAdjectives.map .ofParadigm

theorem exists_of_list? {v : Json} {ps : List IrregularParadigm}
    (h : Json.list? Tables.irregularParadigm? v = some ps) :
    ∃ qs, Json.list? NamedParadigm.read? v = some qs ∧
      List.Forall₂ (fun p q => p.validate = some q) qs ps := by
  cases v with
  | arr items =>
    have hitems : List.Forall₂ (fun v p => Tables.irregularParadigm? v = some p) items ps :=
      mapM_eq_some.mp h
    clear h
    induction hitems with
    | nil => exact ⟨[], rfl, .nil⟩
    | @cons v p items ps hv _ ih =>
      obtain ⟨q, hq, hvalid⟩ := NamedParadigm.exists_of_irregularParadigm? hv
      obtain ⟨qs, hqs, hvalids⟩ := ih
      have hread : List.Forall₂ (fun v q => NamedParadigm.read? v = some q) (v :: items) (q :: qs) :=
        .cons hq (mapM_eq_some.mp hqs)
      exact ⟨q :: qs, mapM_eq_some.mpr hread, .cons hvalid hvalids⟩
  | _ => cases h

theorem exists_of_optional? {key : String} {v : Json} {ps : List IrregularParadigm}
    (h : Json.optional? key [] (Json.list? Tables.irregularParadigm?) v = some ps) :
    ∃ qs, Json.optional? key [] (Json.list? NamedParadigm.read?) v = some qs ∧
      List.Forall₂ (fun p q => p.validate = some q) qs ps := by
  unfold Json.optional? at h ⊢
  split at h
  · exact exists_of_list? h
  · cases h
    exact ⟨[], rfl, .nil⟩

/-- Tables that are validated come from a document whose paradigms can be read as they stand. -/
theorem exists_of_ofSections? [Expressions] {v : Json} {t : Tables}
    (h : Tables.ofSections? v = some t) (o : Options) :
    ∃ e, ofDocument? v t o = some e ∧ e.Accepted ∧ e.toEngine = ⟨t, o⟩ := by
  have hread := Tables.readsSections_of_ofSections? h
  obtain ⟨nouns, hnouns, hnounsValid⟩ := exists_of_optional? hread.irregularNouns
  obtain ⟨adjectives, hadjectives, hadjectivesValid⟩ :=
    exists_of_optional? hread.irregularAdjectives
  refine ⟨⟨⟨t, o⟩, nouns, adjectives⟩, ?_, ⟨hnounsValid, hadjectivesValid⟩, rfl⟩
  simp only [ofDocument?, hnouns, hadjectives]
  rfl

theorem accepted_ofTables {t : Tables} (hnouns : ∀ p ∈ t.irregularNouns, p.forms.keys.Nodup)
    (hadjectives : ∀ p ∈ t.irregularAdjectives, p.forms.keys.Nodup) (o : Options) :
    (ofTables t o).Accepted where
  nouns := by
    refine List.forall₂_map_left_iff.mpr (List.forall₂_same.mpr ?_)
    exact fun p hp => NamedParadigm.validate_ofParadigm (hnouns p hp)
  adjectives := by
    refine List.forall₂_map_left_iff.mpr (List.forall₂_same.mpr ?_)
    exact fun p hp => NamedParadigm.validate_ofParadigm (hadjectives p hp)

theorem accepted_latin (o : Options) : (ofTables .latin o).Accepted :=
  accepted_ofTables (by decide +kernel) (by decide +kernel) o

variable {e : Engine}

theorem Accepted.fillsOnce (h : e.Accepted) : e.tables.FillsOnce :=
  forall_mem_of_forall₂ h.adjectives fun _ _ => NamedParadigm.nodup_of_validate

theorem find?_of_forall₂ {ps : List NamedParadigm} {qs : List IrregularParadigm} (word : String)
    (h : List.Forall₂ (fun p q => p.validate = some q) ps qs) :
    Option.Rel (fun p q => p.validate = some q) (ps.find? (word ∈ ·.paradigm.words))
      (qs.find? (word ∈ ·.words)) := by
  induction h with
  | nil => exact .none
  | @cons p q ps qs hpq _ ih =>
    rw [List.find?_cons, List.find?_cons, NamedParadigm.words_of_validate hpq]
    cases decide (word ∈ p.paradigm.words) with
    | true => exact .some hpq
    | false => exact ih

/-- The first paradigm of a word. -/
def lookup (ps : List NamedParadigm) (word : String) (unknown : Fault) :
    Except Crash NamedParadigm :=
  match ps.find? (word ∈ ·.paradigm.words) with
  | some p => .ok p
  | none => .error (.fault unknown)

theorem lookup_refines {ps : List NamedParadigm} {qs : List IrregularParadigm}
    (h : List.Forall₂ (fun p q => p.validate = some q) ps qs) (word : String) (unknown : Fault) :
    Refines (fun p q => p.validate = some q) (lookup ps word unknown)
      (match qs.find? (word ∈ ·.words) with
        | some q => .ok q
        | none => .error unknown) := by
  have hfound := find?_of_forall₂ word h
  unfold lookup
  generalize ps.find? (word ∈ ·.paradigm.words) = p? at hfound ⊢
  generalize qs.find? (word ∈ ·.words) = q? at hfound ⊢
  cases hfound with
  | none => exact .error unknown
  | some hpq => exact .ok hpq

theorem irregularNoun_refines (h : e.Accepted) (word : String) :
    Refines (fun p q => p.validate = some q)
      (lookup e.nouns word (.unknownIrregularNoun word)) (e.tables.irregularNoun word) := by
  exact lookup_refines h.nouns word _

theorem irregularAdjective_refines (h : e.Accepted) (word : String) :
    Refines (fun p q => p.validate = some q)
      (lookup e.adjectives word (.unknownIrregularAdjective word))
      (e.tables.irregularAdjective word) := by
  exact lookup_refines h.adjectives word _

end Engine
end Declension.Checked
