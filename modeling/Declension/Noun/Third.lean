import Declension.Distinct
import Declension.Paradigm
import Declension.Text.Marks

/-!
Nouns of the third declension: consonant stems and i-stems, neuters, and the Greek types. The
nominative singular is the stem itself; the other cases inflect the oblique stem. The Greek types
in -ēr, -ōn and -polis inflect what stands before that ending.
-/
namespace Declension.Noun

namespace Third
open Slot FormMap

def isVowel (c : Char) : Bool := c ∈ "AEIOUYaeiouy".toList

/-- How many vowels a text has, long or short. -/
def vowels (s : String) : Nat := ((Text.stripMacrons s).toList.filter isVowel).length

/-- Whether the oblique stem has fewer vowels than the stem. -/
def parity (stem oblique : String) : String :=
  if vowels oblique < vowels stem then "parisyllabic" else "imparisyllabic"

/-- A trait that fixes the endings of one case, those endings, and what a title says of them. -/
structure CaseType where
  trait : Trait
  endings : List String
  subtitle : String

def accusatives : List CaseType := [
  ⟨.accIm, ["im"], "accusative singular in '-im'"⟩,
  ⟨.accImIn, ["im", "in"], "accusative singular in '-im' or '-in'"⟩,
  ⟨.accImInEm, ["im", "in", "em"], "accusative singular in '-im', '-in' or '-em'"⟩,
  ⟨.accImEm, ["im", "em"], "accusative singular in '-im' or '-em'"⟩,
  ⟨.accImOccEm, ["im", "em"], "accusative singular in '-im' or occasionally '-em'"⟩,
  ⟨.accEmIm, ["em", "im"], "accusative singular in '-em' or '-im'"⟩]

def ablatives : List CaseType := [
  ⟨.ablI, ["ī"], "ablative singular in '-ī'"⟩,
  ⟨.ablIE, ["ī", "e"], "ablative singular in '-ī' or '-e'"⟩,
  ⟨.ablEI, ["e", "ī"], "ablative singular in '-e' or '-ī'"⟩,
  ⟨.ablEOccI, ["e", "ī"], "ablative singular in '-e' or occasionally '-ī'"⟩]

def accusative? (w : Lexeme) : Option CaseType := accusatives.find? (w.has ·.trait)

def ablative? (w : Lexeme) : Option CaseType := ablatives.find? (w.has ·.trait)

/-- Whether a word that is no neuter is an i-stem; a trait of its accusative or ablative says so
too. -/
def isIStem (w : Lexeme) : Bool :=
  w.has .I || (accusative? w).isSome || (ablative? w).isSome

/-- The Greek types. -/
inductive Greek where
  | inEr | inOn | iStem | plain
  deriving DecidableEq, Repr

def greek? (w : Lexeme) : Option Greek :=
  if !w.has .Greek then none
  else if w.has .er then some .inEr
  else if w.has .on then some .inOn
  else if w.has .I then some .iStem
  else some .plain

def oblique : Rows := [
  (sg .gen, ["is"]), (sg .dat, ["ī"]), (sg .acc, ["em"]), (sg .abl, ["e"]), (pl .nom, ["ēs"]),
  (pl .gen, ["um"]), (pl .dat, ["ibus"]), (pl .acc, ["ēs"]), (pl .abl, ["ibus"]),
  (pl .voc, ["ēs"])]

def greekInEr : Rows := [
  (sg .nom, ["ēr"]), (sg .gen, ["eris"]), (sg .dat, ["erī"]), (sg .acc, ["era", "erem"]),
  (sg .abl, ["ere"]), (sg .voc, ["ēr"]), (pl .nom, ["erēs"]), (pl .gen, ["erum"]),
  (pl .dat, ["eribus"]), (pl .acc, ["erēs"]), (pl .abl, ["eribus"]), (pl .voc, ["erēs"])]

def greekInOn : Rows := [
  (sg .nom, ["ōn"]), (sg .gen, ["ontis", "ontos"]), (sg .dat, ["ontī"]), (sg .acc, ["onta"]),
  (sg .abl, ["onte"]), (sg .voc, ["ōn"]), (pl .nom, ["ontēs"]), (pl .gen, ["ontum", "ontium"]),
  (pl .dat, ["ontibus"]), (pl .acc, ["ontēs", "ontās"]), (pl .abl, ["ontibus"]),
  (pl .voc, ["ontēs"])]

def greekIStem (poetic : Bool) : Rows := [
  (sg .gen, ["is", "eōs", "ios"]), (sg .acc, ["im", "in", "em"]), (sg .abl, ["ī", "e"]),
  (sg .voc, ["is", "i"]), (pl .nom, ["ēs", "eis"]), (pl .gen, ["ium", "eōn"]),
  (pl .acc, ["ēs", "eis"]), (pl .voc, ["ēs", "eis"])]
  ++ if poetic then [(pl .dat, ["ibus", "esi"]), (pl .abl, ["ibus", "esi"])] else []

def greekPlain (oblique : String) : Rows := [
  (sg .gen, ["os"]), (sg .acc, if Text.endsIn "y" oblique then ["n"] else ["a"]),
  (pl .nom, ["es"]), (pl .acc, ["as"]), (pl .voc, ["es"])]

def inPolis : Rows := [
  (sg .nom, ["polis"]), (sg .gen, ["polis"]), (sg .dat, ["polī"]), (sg .acc, ["polim", "polin"]),
  (sg .abl, ["polī"]), (sg .voc, ["polis", "polī"])]

def neuterPure : Rows := [
  (sg .abl, ["ī"]), (pl .nom, ["ia"]), (pl .gen, ["ium"]), (pl .acc, ["ia"]), (pl .voc, ["ia"])]

def neuterIStem : Rows := [
  (pl .nom, ["a"]), (pl .gen, ["ium", "um"]), (pl .acc, ["a"]), (pl .voc, ["a"])]

def neuter : Rows := [(pl .nom, ["a"]), (pl .acc, ["a"]), (pl .voc, ["a"])]

/-- What an i-stem that is no neuter has of its own. -/
def iStem (o : Options) (w : Lexeme) : Rows :=
  [(pl .gen, ["ium"]),
    (pl .acc, if o.suppressNonNeuterIStemAccIs then ["ēs"] else ["ēs", "īs"])]
  ++ ((accusative? w).map fun a => (sg .acc, a.endings)).toList
  ++ ((ablative? w).map fun a => (sg .abl, a.endings)).toList

/-- The stem of a Greek type, without the ending that gives the type away. -/
def greekStem (w : Lexeme) : Except Fault String :=
  match greek? w with
  | some .inEr => stemBefore w.stem "ēr"
  | some .inOn => stemBefore w.stem "ōn"
  | _ => .ok w.stem

/-- The stem without -polis, if the word is of that type. -/
def bareStem (w : Lexeme) (greekStem : String) : Except Fault String :=
  if w.has .polis then stemBefore greekStem "polis" else .ok greekStem

/-- Whether a Greek stem may drop its -s in the vocative. -/
def dropsS (stem : String) : Bool :=
  match (Text.line stem.toList).reverse with
  | 's' :: c :: _ => c ∈ ['i', 'y', 'ï']
  | _ => false

/-- The forms that a Greek type sets. -/
def greekForms (w : Lexeme) (greekStem : String) : Rows :=
  match greek? w with
  | none => []
  | some .inEr => inflect greekStem greekInEr
  | some .inOn => inflect greekStem greekInOn
  | some .iStem => inflect w.obliqueStem (greekIStem (w.has .poeticEsi))
  | some .plain =>
    inflect w.obliqueStem (greekPlain w.obliqueStem)
      ++ if dropsS w.stem then [(sg .voc, [w.stem, Text.dropEnding "s" w.stem])] else []

/-- The forms that the gender and the kind of stem set. -/
def kindForms (o : Options) (w : Lexeme) (bareStem : String) : Rows :=
  if w.has .N then
    (sg .acc, [bareStem]) :: inflect w.obliqueStem
      (if !w.has .I then neuter else if w.has .pure then neuterPure else neuterIStem)
  else if isIStem w then inflect w.obliqueStem (iStem o w)
  else []

/-- The locative is the dative or ablative. -/
def addLocative (m : FormMap) : FormMap :=
  (m.insert (sg .loc) (addNew (m.forms (sg .dat)) (m.forms (sg .abl)))).insert (pl .loc)
    (m.forms (pl .abl))

def forms (o : Options) (w : Lexeme) (greekStem bareStem : String) : FormMap :=
  let m := .ofList <|
    [(sg .nom, [w.stem]), (sg .voc, [w.stem])]
      ++ inflect w.obliqueStem oblique
      ++ greekForms w greekStem
      ++ (if w.has .polis then inflect bareStem inPolis else [])
      ++ kindForms o w bareStem
  if w.loc then addLocative m else m

def rareNote : String := "Found sometimes in Medieval and New Latin."

def poeticNote : String := "Primarily in poetry."

def notes (w : Lexeme) : List (NoteKey × String) :=
  match greek? w with
  | some .iStem =>
    [(.form (sg .acc) 2, rareNote), (.form (sg .abl) 1, rareNote)]
      ++ if w.has .poeticEsi then
        [(.form (pl .dat) 1, poeticNote), (.form (pl .abl) 1, poeticNote)] else []
  | some .plain => if dropsS w.stem then [(.form (sg .voc) 1, "In poetry.")] else []
  | _ => []

def greekSubtitles : Greek → List Subtitle
  | .inEr => [.phrase "Greek-type", .phrase "variant with nominative singular in '-ēr'"]
  | .inOn => [.phrase "Greek-type", .phrase "variant with nominative singular in '-ōn'"]
  | .iStem => [.phrase "Greek-type", .phrase "i-stem"]
  | .plain => [.phrase "Greek-type", .phrase "normal variant"]

/-- The remarks on cases of their own; a word used in the plural only has no such case. -/
def caseSubtitles (w : Lexeme) : List Subtitle :=
  if w.num = some .pl then []
  else ((accusative? w).toList ++ (ablative? w).toList).map (.phrase ·.subtitle)

def kindSubtitles (w : Lexeme) (bareStem : String) : List Subtitle :=
  let plain := parity bareStem w.obliqueStem ++ " non-i-stem"
  if w.has .N then
    [.phrase "neuter", .phrase (if !w.has .I then plain
      else if w.has .pure then "“pure” i-stem" else "i-stem")]
  else if isIStem w then
    .phrase (if w.lacks .N then "non-neuter i-stem" else "i-stem") :: caseSubtitles w
  else if w.lacks .N && w.lacks .I then [.phrase ("non-neuter " ++ plain)]
  else if w.lacks .N then [.phrase "non-neuter"]
  else if w.lacks .I then [.phrase plain]
  else []

def subtitles (w : Lexeme) (bareStem : String) : List Subtitle :=
  (match greek? w with
    | some g => greekSubtitles g
    | none => if w.lacks .Greek then [.phrase "non-Greek-type"] else [])
    ++ remark w .polis (.phrase "i-stem, partially Greek-type")
      (.phrase (parity bareStem w.obliqueStem ++ " non-i-stem"))
    ++ kindSubtitles w bareStem

end Third

/-- Declines a noun of the third declension. -/
def third (o : Options) (w : Lexeme) : Except Fault Paradigm := do
  let greekStem ← Third.greekStem w
  let bareStem ← Third.bareStem w greekStem
  return {
    forms := Third.forms o w greekStem bareStem
    notes := .ofList (Third.notes w)
    subtitles := Third.subtitles w bareStem }

end Declension.Noun
