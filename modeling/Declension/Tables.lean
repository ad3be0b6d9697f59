import Declension.Ending
import Declension.Fault
import Declension.FormMap
import Declension.Tag

/-!
The tables that the engine works by: endings with what they imply, irregular paradigms and
personal pronouns.
-/
namespace Declension

/-- Which numbers a word or run is used in. -/
inductive NumberUse where
  | sg | pl | both
  deriving DecidableEq, Repr

namespace NumberUse

def all : List NumberUse := [sg, pl, both]

def name : NumberUse → String
  | sg => "sg" | pl => "pl" | both => "both"

def ofName? (s : String) : Option NumberUse := all.find? (·.name = s)

/-- The one number a word is restricted to. -/
def only? : NumberUse → Option Number
  | sg => some .sg | pl => some .pl | both => none

def ofNumber : Number → NumberUse
  | .sg => sg | .pl => pl

end NumberUse

/-- A remark in a title: a phrase, or two parts of which rivals may share one. -/
inductive Subtitle where
  | phrase (text : String)
  | pair (front back : String)
  deriving DecidableEq, Repr

def Subtitle.text : Subtitle → String
  | phrase text => text
  | pair front back => front ++ back

/-- What a note belongs to: the form at a place of a slot, or any other key of a table. -/
inductive NoteKey where
  | form (slot : Slot) (place : Nat)
  | other (key : String)
  deriving DecidableEq, Repr

namespace NoteKey

/-- Places are counted from one where they are written. -/
def text : NoteKey → String
  | form slot place => slot.name ++ toString (place + 1)
  | other key => key

/-- The number that decimal digits write, without a leading zero and not zero itself. -/
def positive? (s : List Char) : Option Nat :=
  match s with
  | [] | '0' :: _ => none
  | _ =>
    if s.all Char.isDigit then some (s.foldl (fun n c => n * 10 + (c.toNat - '0'.toNat)) 0)
    else none

def ofText (s : String) : NoteKey :=
  let found := Slot.all.findSome? fun slot =>
    if Text.startsWith slot.name s then
      (positive? (s.toList.drop slot.name.length)).map fun n => form slot (n - 1)
    else none
  found.getD (other s)

end NoteKey

/-- How an entry turns the base it found into stems. -/
inductive StemDeriver where
  /-- The base is also the oblique stem. -/
  | baseAsOblique
  | constant (value : String)
  | append (value : String)
  deriving DecidableEq, Repr

/-- The stem and oblique stem for a base. -/
def StemDeriver.derive (d : StemDeriver) (base : String) (_oblique : Option String) :
    String × Option String :=
  match d with
  | baseAsOblique => (base, some base)
  | constant value => (value, none)
  | append value => (base ++ value, none)

structure EndingEntry where
  ending : Ending
  /-- What the oblique stem must add to the base. -/
  obliqueTail : Option String := none
  decl : Option String := none
  tags : List Tag := []
  deriver : Option StemDeriver := none

/-- Where an oblique stem comes from that nothing else gives. -/
inductive ObliqueRule where
  | base | guess
  deriving DecidableEq, Repr

structure EndingTable where
  decl : Option String := none
  obliqueRule : Option ObliqueRule := none
  entries : List EndingEntry

/-- A paradigm written out by hand. Forms may use a mark for the word and one for its first
letter, categories a mark for the part of speech. -/
structure IrregularParadigm where
  words : List String
  title : Option String := none
  subtitles : List Subtitle := []
  forms : FormMap
  notes : OrderedMap NoteKey String := ∅
  voc : Bool := true
  footnote : String := ""
  categories : List String := []
  deriving DecidableEq, Repr

namespace IrregularParadigm

/-- A form with the word and its first letter filled in. -/
def fill (word form : String) : String :=
  Text.replace "\x7binitial\x7d" (String.ofList (word.toList.take 1))
    (Text.replace "\x7blemma\x7d" word form)

def formsFor (p : IrregularParadigm) (word : String) : FormMap :=
  ⟨p.forms.entries.map fun (slot, forms) => (slot, forms.map (fill word))⟩

def categoriesFor (p : IrregularParadigm) (pos : String) : List String :=
  p.categories.map (Text.replace "\x7bpos\x7d" pos)

end IrregularParadigm

inductive Person where
  | first | second | third
  deriving DecidableEq, Repr

def Person.number : Person → Nat
  | first => 1 | second => 2 | third => 3

structure PronounParadigm where
  word : String
  aliases : List String := []
  person : Person
  num : NumberUse
  forms : OrderedMap String (List String)
  deriving DecidableEq, Repr

structure Tables where
  /-- Guesses of the oblique stem: an ending and what stands in for it, tried in order. -/
  obliquePatterns : List (String × String)
  nounEndings : OrderedMap String EndingTable
  adjectiveEndings : OrderedMap String EndingTable
  /-- English names of the noun classes. -/
  classNames : OrderedMap String String
  irregularNounClasses : OrderedMap String String := ∅
  irregularNounTags : OrderedMap String (List Tag) := ∅
  irregularAdjectiveClasses : OrderedMap String String := ∅
  irregularNouns : List IrregularParadigm := []
  irregularAdjectives : List IrregularParadigm := []
  pronouns : List PronounParadigm := []

namespace Tables

def irregularNoun (t : Tables) (word : String) : Except Fault IrregularParadigm :=
  match t.irregularNouns.find? (word ∈ ·.words) with
  | some p => .ok p
  | none => .error (.unknownIrregularNoun word)

def irregularAdjective (t : Tables) (word : String) : Except Fault IrregularParadigm :=
  match t.irregularAdjectives.find? (word ∈ ·.words) with
  | some p => .ok p
  | none => .error (.unknownIrregularAdjective word)

/-- The pronoun of that word; a missing word counts as an empty one among the aliases. -/
def pronoun (t : Tables) (word : Option String) : Except Fault PronounParadigm :=
  match t.pronouns.find? fun p => word = some p.word || word.getD "" ∈ p.aliases with
  | some p => .ok p
  | none => .error (.unknownPronoun word)

def nounTable (t : Tables) (key : String) : Except Fault EndingTable :=
  match t.nounEndings.get? key with
  | some table => .ok table
  | none => .error (.missingTable key)

def adjectiveTable (t : Tables) (key : String) : Except Fault EndingTable :=
  match t.adjectiveEndings.get? key with
  | some table => .ok table
  | none => .error (.missingTable key)

end Tables
end Declension
