import Declension.Record
import Declension.Run.Reader
import Declension.Text.Blank

/-!
Records of nouns, and of gerunds, which decline like them.
-/
namespace Declension.NounRecord

def locatives : List Slot := Number.all.map fun n => .cell .loc n none

/-- Fills one slot of a record: from the template, else from what is there. A slot outside the
number of the record is left blank. -/
def overrideSlot (args : Arguments) (r : NounRecord) (slot : Slot) : NounRecord :=
  let argument := nounForms? args slot
  let r := if argument.isSome then { r with overridden := r.overridden ++ [slot] } else r
  match argument <|> r.forms.get? slot with
  | none => r
  | some forms =>
    { r with forms := r.forms.insert slot (if isExcluded r.num slot then [""] else shown forms) }

def applyOverrides (args : Arguments) (r : NounRecord) : NounRecord :=
  (Slot.run false).foldl (overrideSlot args) r

/-- Declines the noun of a template. -/
def ofArguments (e : Engine) (args : Arguments) (pos : String := "nouns") :
    Except Fault NounRecord := do
  let run ← Run.read e.tables (Text.trim (args.getD "1" ""))
  let run := settleRun args locatives run
  let c ← run.compose e pos false
  let forms := c.forms false
  let forms := if run.summary.loc then forms else eraseSlots locatives forms
  return applyOverrides args
    { Record.ofComposition args pos false run c forms with gender := run.summary.gender }

/-- A gerund declines like a neuter of the second declension in the singular, without nominative
and vocative. -/
def gerundArguments (args : Arguments) : Arguments :=
  args.insertMany [
    ("0", "la-ndecl"), ("1", args.getD "1" "" ++ "<2.sg>"), ("nom_sg", "-"), ("voc_sg", "-")]

def ofGerundArguments (e : Engine) (args : Arguments) : Except Fault NounRecord :=
  ofArguments e (gerundArguments args) "gerunds"

end Declension.NounRecord
