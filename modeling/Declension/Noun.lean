import Declension.Noun.First
import Declension.Noun.Second
import Declension.Noun.Third
import Declension.Noun.Fourth

/-!
Declining nouns: the five declensions, words of one form, and irregular paradigms.
-/
namespace Declension.Noun
open Slot

/-- The cases that every noun has in both numbers. -/
def cells : List Slot := [.nom, .gen, .dat, .acc, .abl, .voc].flatMap fun c => [sg c, pl c]

/-- Every case, except the locative, with one and the same form. -/
def uniform (form : String) : Rows := cells.map fun s => (s, [form])

/-- What stands in a cell without a form. -/
def noForm : String := "-"

/-- Declines a word whose form never changes. -/
def invariable (w : Lexeme) : Paradigm where
  forms := .ofList (uniform w.stem
    ++ if w.loc then [(sg .loc, [w.stem]), (pl .loc, [w.stem])] else [])

/-- Declines a word that has a nominative and accusative singular only. -/
def indeclinable (w : Lexeme) : Paradigm where
  forms := .ofList (uniform noForm ++ [(sg .nom, [w.stem]), (sg .acc, [w.stem])])
  title := some "Not declined; used only in the nominative and accusative singular."

/-- Declines an irregular noun by its paradigm. -/
def irregular (t : Tables) (w : Lexeme) : Except Fault Paradigm := do
  let p ← t.irregularNoun w.stem
  return {
    forms := .ofList (uniform noForm ++ (p.formsFor w.stem).entries)
    notes := p.notes
    title := given p.title
    subtitles := p.subtitles
    footnote := p.footnote
    categories := p.categoriesFor w.pos }

/-- The classes of nouns. -/
inductive Class where
  | first | second | third | fourth | fifth | invariable | indeclinable | irregular
  deriving DecidableEq, Repr

namespace Class

def ofName? : String → Option Class
  | "1" => some first | "2" => some second | "3" => some third | "4" => some fourth
  | "5" => some fifth | "0" => some invariable | "indecl" => some indeclinable
  | "irreg" => some irregular
  | _ => none

end Class

/-- Declines a noun of a class. -/
def decline (e : Engine) (w : Lexeme) : Class → Except Fault Paradigm
  | .first => .ok (first w)
  | .second => .ok (second e.options w)
  | .third => third e.options w
  | .fourth => .ok (fourth w)
  | .fifth => .ok (fifth w)
  | .invariable => .ok (invariable w)
  | .indeclinable => .ok (indeclinable w)
  | .irregular => irregular e.tables w

end Declension.Noun
