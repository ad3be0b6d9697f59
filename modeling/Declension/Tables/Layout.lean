import Declension.Json
import Declension.Tables

/-!
Tables as JSON documents, every default written out.
-/
namespace Declension

def Subtitle.toJson : Subtitle → Json
  | phrase text => .str text
  | pair front back => .ofTexts [front, back]

namespace Tables
open Json

def tagsJson (tags : List Tag) : Json := ofTexts (tags.map Tag.name)

def deriverJson : Option StemDeriver → Json
  | none => null
  | some .baseAsOblique => obj [("kind", str "base_as_stem2")]
  | some (.constant value) => obj [("kind", str "constant"), ("value", str value)]
  | some (.append value) => obj [("kind", str "append"), ("value", str value)]

def entryJson (e : EndingEntry) : Json := obj [
  ("ending", str e.ending.text), ("stem2_ending", ofOption e.obliqueTail),
  ("decl", ofOption e.decl), ("tags", tagsJson e.tags), ("derive", deriverJson e.deriver)]

def obliqueRuleJson : Option ObliqueRule → Json
  | none => null
  | some .base => str "base"
  | some .guess => str "make_stem2"

def endingTableJson (t : EndingTable) : Json := obj [
  ("decl", ofOption t.decl), ("stem2_rule", obliqueRuleJson t.obliqueRule),
  ("entries", arr (t.entries.map entryJson))]

def formsJson (m : FormMap) : Json :=
  obj (m.entries.map fun (slot, forms) => (slot.name, ofTexts forms))

def notesJson (m : OrderedMap NoteKey String) : Json :=
  obj (m.entries.map fun (key, note) => (key.text, str note))

def irregularJson (p : IrregularParadigm) : Json := obj [
  ("lemmas", ofTexts p.words), ("title", ofOption p.title),
  ("subtitles", arr (p.subtitles.map Subtitle.toJson)), ("forms", formsJson p.forms),
  ("notes", notesJson p.notes), ("voc", bool p.voc), ("footnote", str p.footnote),
  ("categories", ofTexts p.categories)]

def pronounJson (p : PronounParadigm) : Json := obj [
  ("lemma", str p.word), ("aliases", ofTexts p.aliases), ("pers", num p.person.number),
  ("num", str p.num.name),
  ("forms", obj (p.forms.entries.map fun (slot, forms) => (slot, ofTexts forms)))]

def byNameJson {α : Type} (item : α → Json) (m : OrderedMap String α) : Json :=
  obj (m.entries.map fun (name, v) => (name, item v))

/-- The sections of the tables. -/
def sections (t : Tables) : List (String × Json) := [
  ("stem2_patterns", arr (t.obliquePatterns.map fun (ending, instead) =>
    ofTexts [ending, instead])),
  ("noun_endings", byNameJson endingTableJson t.nounEndings),
  ("adjective_endings", byNameJson endingTableJson t.adjectiveEndings),
  ("declension_names", byNameJson str t.classNames),
  ("irregular_noun_declensions", byNameJson str t.irregularNounClasses),
  ("irregular_noun_tags", byNameJson tagsJson t.irregularNounTags),
  ("irregular_adjective_declensions", byNameJson str t.irregularAdjectiveClasses),
  ("irregular_nouns", arr (t.irregularNouns.map irregularJson)),
  ("irregular_adjectives", arr (t.irregularAdjectives.map irregularJson)),
  ("pronouns", arr (t.pronouns.map pronounJson))]

def toJson (t : Tables) : Json := obj t.sections

end Tables
end Declension
