import Declension.Json
import Declension.Record

/-!
Records as JSON documents.
-/
namespace Declension

/-- Forms by the names of their slots. -/
def Slot.formsJson (m : FormMap) : Json :=
  .obj (m.entries.map fun (slot, forms) => (slot.name, .ofTexts forms))

def DeclProp.toJson (p : DeclProp) : Json :=
  .obj [("decl", .str p.decl), ("headword_decl", .str p.headword),
    ("types", .ofTexts p.tags.names)]

def NumberUse.toJson (num : Option NumberUse) : Json := .ofOption (num.map NumberUse.name)

def Gender.toJson (gender : Option Gender) : Json := .ofOption (gender.map Gender.letter)

namespace Record

def notesJson (notes : List (NoteKey × List String)) : Json :=
  .obj (notes.map fun (key, notes) => (key.text, .ofTexts notes))

/-- The members that nouns and adjectives share. -/
def members (r : Record) : List (String × Json) := [
  ("template_type", .str "declension"),
  ("title", .str r.title),
  ("num", NumberUse.toJson r.num),
  ("propses", .arr (r.propses.map fun props => .arr (props.map DeclProp.toJson))),
  ("forms", Slot.formsJson r.forms),
  ("notes", notesJson r.notes),
  ("footnotes", .ofTexts r.footnotes),
  ("categories", .ofTexts r.categories),
  ("user_specified", .ofTexts ((r.overridden.map Slot.name).mergeSort (· ≤ ·))),
  ("pos", .str r.pos),
  ("num_type", .ofOption r.numType),
  ("indecl", .bool r.indecl),
  ("overriding_lemma", .ofTexts r.lemmas)]

end Record

def NounRecord.toJson (r : NounRecord) : Json :=
  .obj (r.members ++ [("declension_type", .str "noun"), ("gender", Gender.toJson r.gender)])

def AdjectiveRecord.toJson (r : AdjectiveRecord) : Json :=
  .obj (r.members ++ [("declension_type", .str "adjective"), ("voc", .bool r.voc),
    ("noneut", .bool r.noneut)])

def PronounRecord.toJson (r : PronounRecord) : Json :=
  .obj [("template_type", .str "ppron"),
    ("forms", .obj (r.forms.entries.map fun (slot, forms) => (slot, .ofTexts forms))),
    ("pers", .num r.person.number), ("num", .str r.num.name)]

def Declined.toJson : Declined → Json
  | noun r => r.toJson
  | adjective r => r.toJson
  | pronoun r => r.toJson

end Declension
