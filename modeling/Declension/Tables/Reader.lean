import Declension.Json.Decode
import Declension.Options
import Declension.Tables

/-!
Tables out of documents. Each document holds sections of the tables; a section may stand in one
document only, and all that is read is checked: tags and the slots of paradigms must be known.
-/
namespace Declension

namespace Tables
open Json

def tag? (v : Json) : Option Tag := v.str?.bind Tag.known?

def subtitle? (v : Json) : Option Subtitle :=
  match v with
  | str s => some (.phrase s)
  | v => (textPair? v).map fun (front, back) => .pair front back

def deriver? (v : Json) : Option StemDeriver := do
  match ← required? "kind" str? v with
  | "base_as_stem2" => some .baseAsOblique
  | "constant" => (required? "value" str? v).map .constant
  | "append" => (required? "value" str? v).map .append
  | _ => none

def obliqueRule? (v : Json) : Option ObliqueRule :=
  match v with
  | str "base" => some .base
  | str "make_stem2" => some .guess
  | _ => none

def entry? [Expressions] (v : Json) : Option EndingEntry := do
  return {
    ending := .ofText (← required? "ending" str? v)
    obliqueTail := ← optional? "stem2_ending" none (nullable? str?) v
    decl := ← optional? "decl" none (nullable? str?) v
    tags := ← optional? "tags" [] (list? tag?) v
    deriver := ← optional? "derive" none (nullable? deriver?) v }

def endingTable? [Expressions] (v : Json) : Option EndingTable := do
  return {
    decl := ← optional? "decl" none (nullable? str?) v
    obliqueRule := ← optional? "stem2_rule" none (nullable? obliqueRule?) v
    entries := ← required? "entries" (list? entry?) v }

/-- Forms by the names of their slots, all of which must be known. -/
def slotForms? (v : Json) : Option FormMap := do
  let forms ← map? texts? v
  let slots ← forms.mapM fun (name, forms) => (Slot.ofName? name).map (·, forms)
  return .ofList slots

def notes? (v : Json) : Option (OrderedMap NoteKey String) :=
  (map? str? v).map fun notes => .ofList (notes.map fun (key, note) => (.ofText key, note))

def irregularParadigm? (v : Json) : Option IrregularParadigm := do
  return {
    words := ← required? "lemmas" texts? v
    title := ← optional? "title" none (nullable? str?) v
    subtitles := ← optional? "subtitles" [] (list? subtitle?) v
    forms := ← required? "forms" slotForms? v
    notes := ← optional? "notes" ∅ notes? v
    voc := ← optional? "voc" true Options.switch? v
    footnote := ← optional? "footnote" "" str? v
    categories := ← optional? "categories" [] texts? v }

def person? (v : Json) : Option Person :=
  match v with
  | num 1 => some .first
  | num 2 => some .second
  | num 3 => some .third
  | _ => none

def pronoun? (v : Json) : Option PronounParadigm := do
  return {
    word := ← required? "lemma" str? v
    aliases := ← optional? "aliases" [] texts? v
    person := ← required? "pers" person? v
    num := (← (← required? "num" str? v) |> NumberUse.ofName?)
    forms := .ofList (← required? "forms" (map? texts?) v) }

def byName? {α : Type} (item : Json → Option α) (v : Json) : Option (OrderedMap String α) :=
  (map? item v).map .ofList

/-- The tables whose sections are the members of an object. -/
def ofSections? [Expressions] (v : Json) : Option Tables := do
  return {
    obliquePatterns := ← required? "stem2_patterns" (list? textPair?) v
    nounEndings := ← required? "noun_endings" (byName? endingTable?) v
    adjectiveEndings := ← required? "adjective_endings" (byName? endingTable?) v
    classNames := ← required? "declension_names" (byName? str?) v
    irregularNounClasses := ← optional? "irregular_noun_declensions" ∅ (byName? str?) v
    irregularNounTags := ← optional? "irregular_noun_tags" ∅ (byName? (list? tag?)) v
    irregularAdjectiveClasses := ← optional? "irregular_adjective_declensions" ∅ (byName? str?) v
    irregularNouns := ← optional? "irregular_nouns" [] (list? irregularParadigm?) v
    irregularAdjectives := ← optional? "irregular_adjectives" [] (list? irregularParadigm?) v
    pronouns := ← optional? "pronouns" [] (list? pronoun?) v }

/-- Why files hold no tables. -/
inductive LoadFault where
  /-- A document is no object. -/
  | notAnObject (file : String)
  | repeatedSection (name file : String)
  | invalid
  deriving DecidableEq, Repr

/-- Whether a file holds tables, told by its name. Hidden files do not. -/
def isTableFile (name : String) : Bool :=
  Text.endsIn ".yaml" name && !Text.startsWith "." name

/-- Adds the sections of a file; every section must be new. -/
def addSections (file : String) (sections : OrderedMap String Json) :
    List (String × Json) → Except LoadFault (OrderedMap String Json)
  | [] => .ok sections
  | (name, content) :: rest =>
    if sections.contains name then .error (.repeatedSection name file)
    else addSections file (sections.insert name content) rest

/-- Adds what a file holds; an absent document holds nothing. -/
def addFile (sections : OrderedMap String Json) (file : String × Json) :
    Except LoadFault (OrderedMap String Json) :=
  if file.2.isVoid then .ok sections
  else match file.2 with
    | .obj members => addSections file.1 sections members
    | _ => .error (.notAnObject file.1)

/-- Loads tables from files, each with its document, in the order of their names. -/
def load [Expressions] (files : List (String × Json)) : Except LoadFault Tables := do
  let files := (OrderedMap.ofList files).entries.filter fun (name, _) => isTableFile name
  let sections ← (files.mergeSort fun a b => a.1 ≤ b.1).foldlM addFile ∅
  match ofSections? (.obj sections.entries) with
  | some t => return t
  | none => throw .invalid

end Tables
end Declension
