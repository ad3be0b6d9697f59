import Declension.Record
import Declension.Run.Reader
import Declension.Text.Blank

/-!
Records of adjectives. A feminine or neuter column that repeats the masculine one is left out.
-/
namespace Declension.AdjectiveRecord

/-- The cells of a case in both numbers and all genders. -/
def cellsOf (c : Case) : List Slot :=
  Number.all.flatMap fun n => Gender.all.map fun g => .cell c n (some g)

/-- The cells of a gender. -/
def column (g : Gender) : List Slot :=
  Case.all.flatMap fun c => Number.all.map fun n => .cell c n (some g)

/-- Fills one slot of a record: from the template, else from what is there. A slot outside the
number of the record is left out, and so is a neuter one of a word without neuter unless the
template gives it. -/
def overrideSlot (args : Arguments) (r : AdjectiveRecord) (slot : Slot) : AdjectiveRecord :=
  let r := if r.noneut && slot.gender? = some .n then { r with forms := r.forms.erase slot } else r
  let argument := adjectiveForms? args slot
  let r := if argument.isSome then { r with overridden := r.overridden ++ [slot] } else r
  match argument <|> r.forms.get? slot with
  | none => r
  | some forms =>
    { r with forms :=
        if isExcluded r.num slot then r.forms.erase slot else r.forms.insert slot (shown forms) }

def applyOverrides (args : Arguments) (r : AdjectiveRecord) : AdjectiveRecord :=
  (Slot.run true).foldl (overrideSlot args) r

/-- Whether every cell of a gender has the forms of the masculine one. -/
def repeatsMasculine (m : FormMap) (g : Gender) : Bool :=
  (column g).all fun s => m.get? s = m.get? (s.agreeing .m)

def dropColumn (m : FormMap) (g : Gender) : FormMap :=
  if repeatsMasculine m g then eraseSlots (column g) m else m

/-- Leaves out the feminine and neuter columns that repeat the masculine one. -/
def dropColumns (m : FormMap) : FormMap := [Gender.f, .n].foldl dropColumn m

/-- The specification of a bare word: an adjective, or one that never changes. -/
def completeSpec (args : Arguments) (spec : String) : String :=
  if '<' ∈ spec.toList ∨ '(' ∈ spec.toList then spec
  else if args.contains "indecl" then spec ++ "<0+>"
  else spec ++ "<+>"

/-- Declines the adjective of a template. -/
def ofArguments (e : Engine) (args : Arguments) (pos : String := "adjectives") :
    Except Fault AdjectiveRecord := do
  let run ← Run.read e.tables (completeSpec args (Text.trim (args.getD "1" "")))
  let run := settleRun args (cellsOf .loc) run
  let c ← run.compose e pos true
  let forms := c.forms true
  let forms := if run.summary.loc then forms else eraseSlots (cellsOf .loc) forms
  let givesVocative := args.hasAny ((cellsOf .voc).map Slot.name)
  let forms := if givesVocative || c.voc then forms else eraseSlots (cellsOf .voc) forms
  let r := applyOverrides args
    { Record.ofComposition args pos true run c forms with
      voc := c.voc, noneut := args.contains "noneut" || c.noneut }
  return if e.options.populateAllTerminations then r
    else { r with forms := dropColumns r.forms }

end Declension.AdjectiveRecord
