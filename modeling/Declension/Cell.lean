import Declension.Distinct
import Declension.OrderedMap

/-!
The forms of one slot with the notes on them. A note belongs to the form at its place, counted
from zero. Cells are strung together form by form, and merged as alternatives.
-/
namespace Declension

structure Cell where
  forms : List String
  /-- The notes on the forms, by place. -/
  notes : OrderedMap Nat (List String) := ∅
  deriving DecidableEq, Repr

namespace Cell

/-- The cell that changes nothing it is strung together with. -/
def unit : Cell := ⟨[""], ∅⟩

/-- The cell without any form. -/
def blank : Cell := ⟨[], ∅⟩

def notesAt (c : Cell) (place : Nat) : List String := (c.notes.get? place).getD []

/-- Every form of the cell after the same text. -/
def withLead (lead : String) (c : Cell) : Cell := { c with forms := c.forms.map (lead ++ ·) }

/-- Every form of the first cell with every form of the second, the second varying faster. The
notes on both parts go with the whole. -/
def append (a b : Cell) : Cell where
  forms := a.forms.flatMap fun form => b.forms.map (form ++ ·)
  notes := ⟨(List.range (a.forms.length * b.forms.length)).filterMap fun place =>
    let notes := a.notesAt (place / b.forms.length) ++ b.notesAt (place % b.forms.length)
    if notes.isEmpty then none else some (place, notes)⟩

/-- Adds notes at a place; one that is there already stays single. -/
def addNotes (notes : OrderedMap Nat (List String)) (place : Nat) (more : List String) :
    OrderedMap Nat (List String) :=
  let present := (notes.get? place).getD []
  notes.insert place (present ++ more.filter (· ∉ present))

/-- The cell with the forms of an alternative behind its own. Notes of the alternative go to the
first place of their form; a note on no form is left out. -/
def merge (a b : Cell) : Cell where
  forms := addNew a.forms b.forms
  notes := b.notes.entries.foldl (fun notes (place, more) =>
    match b.forms[place]? with
    | some form => addNotes notes ((addNew a.forms b.forms).idxOf form) more
    | none => notes) a.notes

end Cell
end Declension
