import Declension.Arguments
import Declension.Composition
import Declension.Text.Links

/-!
Records: what is told of a declined lemma, and how the arguments of a template override it.
-/
namespace Declension

/-- What the records of nouns and adjectives have in common. -/
structure Record where
  title : String
  num : Option NumberUse
  propses : List (List DeclProp)
  forms : FormMap
  notes : List (NoteKey × List String)
  footnotes : List String
  categories : List String
  /-- The slots whose forms the template gives. -/
  overridden : List Slot := []
  pos : String
  numType : Option String
  indecl : Bool
  lemmas : List String
  deriving DecidableEq, Repr

structure NounRecord extends Record where
  gender : Option Gender
  deriving DecidableEq, Repr

structure AdjectiveRecord extends Record where
  voc : Bool
  noneut : Bool
  deriving DecidableEq, Repr

structure PronounRecord where
  forms : OrderedMap String (List String)
  person : Person
  num : NumberUse
  deriving DecidableEq, Repr

/-- The record of a declined template. -/
inductive Declined where
  | noun (r : NounRecord)
  | adjective (r : AdjectiveRecord)
  | pronoun (r : PronounRecord)
  deriving DecidableEq, Repr

/-- Classes in angle brackets and the words that stand for them in a title. -/
def classWords : List (String × String) := [
  ("<1>", "first declension"), ("<1&2>", "first/second declension"), ("<2>", "second declension"),
  ("<3>", "third declension"), ("<4>", "fourth declension"), ("<5>", "fifth declension")]

def dropBlank (s : String) : String :=
  match s.toList with
  | ' ' :: r => String.ofList r
  | _ => s

/-- A title given by the template, the first mark of each class put in words. -/
def titleFromArgument (title : String) : String :=
  Text.capitalize <| dropBlank <|
    classWords.foldl (fun s (mark, words) => Text.replaceFirst mark words s) title

/-- What a title adds on the use of the lemma. -/
def useText (loc : Bool) (num : Option NumberUse) : String :=
  (if loc then ", with locative" else "") ++ match num with
    | some .sg => ", singular only"
    | some .pl => ", plural only"
    | _ => ""

/-- The title of a record: the one given, or that of the run with what its use adds. -/
def recordTitle (argument : Option String) (title : String) (loc : Bool)
    (num : Option NumberUse) : String :=
  match given argument with
  | some argument => titleFromArgument argument
  | none => if title = "" then "" else Text.capitalize title ++ useText loc num ++ "."

/-- What a record shows for an empty cell, and what stands for it in a template. -/
def dash : String := "—"

def emptyMarks : List String := ["", "-", dash]

/-- The forms of an argument: those between slashes. Only linked slots keep links. -/
def formsOfArgument (slot : Slot) (value : String) : List String :=
  Text.fields '/' (if slot.isLinked then value else Text.unlink value)

/-- The plain slot behind a linked one. -/
def plainOf? : Slot → Option Slot
  | .linked n g => some (.cell .nom n g)
  | _ => none

/-- The forms that an argument for the plain slot gives to its linked slot, links kept. -/
def linkedForms? (args : Arguments) (slot : Slot) : Option (List String) :=
  (plainOf? slot).bind fun plain => (args.get? plain.name).map (Text.fields '/')

/-- The forms a template gives to a slot of a noun. -/
def nounForms? (args : Arguments) (slot : Slot) : Option (List String) :=
  (args.get? slot.name).map (formsOfArgument slot) <|> linkedForms? args slot

/-- The forms a template gives to a slot of an adjective; an empty argument gives none. -/
def adjectiveForms? (args : Arguments) (slot : Slot) : Option (List String) :=
  (given (args.get? slot.name)).map (formsOfArgument slot) <|> linkedForms? args slot

/-- Whether a slot lies outside the number of a record. -/
def isExcluded (num : Option NumberUse) (slot : Slot) : Bool :=
  match num.bind NumberUse.only? with
  | some n => slot.number ≠ n
  | none => false

/-- Forms that start with a mark of emptiness become a dash. -/
def shown (forms : List String) : List String :=
  match forms with
  | first :: _ => if first ∈ emptyMarks then [dash] else forms
  | [] => []

/-- The number that the template asks for, else that of the run. -/
def numberUse (args : Arguments) (r : Run) : Option NumberUse :=
  (args.get? "num").bind NumberUse.ofName? <|> r.summary.num

/-- The run in the use that the template makes of it. -/
def settleRun (args : Arguments) (locatives : List Slot) (r : Run) : Run :=
  { r with summary := { r.summary with
      loc := r.summary.loc || args.hasAny (locatives.map Slot.name)
      num := numberUse args r } }

def eraseSlots (slots : List Slot) (m : FormMap) : FormMap := slots.foldl OrderedMap.erase m

/-- The record of a composed run before overrides. -/
def Record.ofComposition (args : Arguments) (pos : String) (isAdj : Bool) (r : Run)
    (c : Composition) (forms : FormMap) : Record where
  title := recordTitle (args.get? "title") c.title r.summary.loc r.summary.num
  num := r.summary.num
  propses := r.summary.propses
  forms := forms
  notes := c.notes isAdj
  footnotes := c.footnotes
  categories := c.categories
  pos := pos
  numType := args.get? "type"
  indecl := args.contains "indecl"
  lemmas := args.list "lemma"

end Declension
