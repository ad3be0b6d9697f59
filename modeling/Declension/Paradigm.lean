import Declension.Classification
import Declension.Options

/-!
What one word is declined from, and what declining it yields.
-/
namespace Declension

/-- A word ready to be declined: its stems and traits, and the use it is put to. -/
structure Lexeme where
  stem : String
  oblique : Option String := none
  tags : TagSet := []
  num : Option NumberUse := none
  gender : Option Gender := none
  loc : Bool := false
  pos : String
  deriving DecidableEq, Repr

namespace Lexeme

/-- The stem of the oblique cases: the one given, else the stem. -/
def obliqueStem (w : Lexeme) : String := (given w.oblique).getD w.stem

/-- Whether the word has a trait. -/
def has (w : Lexeme) (t : Trait) : Bool := w.tags.has t

/-- Whether the word is marked as lacking a trait that a rival has. -/
def lacks (w : Lexeme) (t : Trait) : Bool := w.tags.lacks t

end Lexeme

/-- Slots with endings, or with forms; of two rows for a slot the later one holds. -/
abbrev Rows := List (Slot × List String)

/-- What declining one word yields. -/
structure Paradigm where
  forms : FormMap := ∅
  notes : OrderedMap NoteKey String := ∅
  title : Option String := none
  subtitles : List Subtitle := []
  footnote : String := ""
  categories : List String := []
  /-- Whether the vocative is in use. -/
  voc : Bool := true
  /-- Whether there is no neuter. -/
  noneut : Bool := false
  deriving DecidableEq, Repr

/-- Takes the ending off a form that must have it. -/
def stemBefore (form ending : String) : Except Fault String :=
  match Text.before ending form with
  | some stem => .ok stem
  | none => .error (.formEnding form ending)

/-- A remark on a trait: one wording if the word has it, another if the word is marked as lacking
it. -/
def remark (w : Lexeme) (t : Trait) (having lacking : Subtitle) : List Subtitle :=
  if w.has t then [having] else if w.lacks t then [lacking] else []

/-- The tables and switches that words are declined by. -/
structure Engine where
  tables : Tables
  options : Options := {}

end Declension
