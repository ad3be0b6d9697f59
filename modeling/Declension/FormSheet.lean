import Declension.FormMap

/-!
A sheet of forms filled in by slot name, as a table editor does it: a name outside the vocabulary
is refused where it is written, and a slot may be entered without forms.
-/
namespace Declension

/-- Slots with their forms, or with none entered yet. -/
abbrev FormSheet := OrderedMap Slot (Option (List String))

namespace FormSheet

inductive Fault where
  | unknownSlot (name : String)
  /-- A pass met a slot that was entered without forms. -/
  | unfilled (slot : Slot)
  deriving DecidableEq, Repr

def Fault.message : Fault → String
  | unknownSlot name => "Invalid nominal form " ++ name
  | unfilled slot => "No forms entered for " ++ slot.name

/-- One edit of a sheet. -/
inductive Step where
  | set (slot : String) (forms : Option (List String))
  | update (values : List (String × Option (List String)))
  | setDefault (slot : String) (forms : Option (List String))
  | get (slot : String)
  | pop (slot : String)
  | mirror (number : Option Number) (isAdj : Bool)
  | ligate (isAdj : Bool)
  | addNasals (isAdj : Bool)

/-- The sheet after a step, and what the step returned or why it failed. -/
abbrev Outcome := FormSheet × Except Fault (Option (List String))

def lookup (m : FormSheet) (name : String) : Option (Option (List String)) :=
  (Slot.ofName? name).bind m.get?

def set (m : FormSheet) (name : String) (forms : Option (List String)) : Outcome :=
  match Slot.ofName? name with
  | some slot => (m.insert slot forms, .ok none)
  | none => (m, .error (.unknownSlot name))

/-- Writes the values in order and stops at the first unknown name; what was written stays. -/
def setMany (m : FormSheet) : List (String × Option (List String)) → Outcome
  | [] => (m, .ok none)
  | (name, forms) :: rest =>
    match Slot.ofName? name with
    | some slot => setMany (m.insert slot forms) rest
    | none => (m, .error (.unknownSlot name))

/-- Ligatures slot by slot; a slot entered without forms stops the pass. -/
def ligateSlots (m : FormSheet) : List Slot → Outcome
  | [] => (m, .ok none)
  | slot :: rest =>
    match m.get? slot with
    | none => ligateSlots m rest
    | some none => (m, .error (.unfilled slot))
    | some (some forms) => ligateSlots (m.insert slot (some (forms.map Declension.ligate))) rest

def mirrorNumber (n : Number) (isAdj : Bool) (m : FormSheet) : FormSheet :=
  (Slot.run isAdj).foldl
    (fun m s => if s.number = n then m.insert s.mirror (some ((m.get? s).join.getD [])) else m) m

def addNasals (isAdj : Bool) (m : FormSheet) : FormSheet :=
  (Slot.run isAdj).foldl (fun m s => m.modify s (·.map (·.flatMap withNasal))) m

/-- Carries out one edit. Values of an update given twice keep the first place and the last
value. -/
def step (m : FormSheet) : Step → Outcome
  | .set slot forms => m.set slot forms
  | .update values => m.setMany (OrderedMap.ofList values).entries
  | .setDefault slot forms =>
    match m.lookup slot with
    | some present => (m, .ok present)
    | none =>
      match m.set slot forms with
      | (m, .ok _) => (m, .ok forms)
      | failed => failed
  | .get slot => (m, .ok (m.lookup slot).join)
  | .pop slot =>
    match Slot.ofName? slot with
    | some s => (m.erase s, .ok (m.get? s).join)
    | none => (m, .ok none)
  | .mirror (some n) isAdj => (m.mirrorNumber n isAdj, .ok none)
  | .mirror none _ => (m, .ok none)
  | .ligate isAdj => m.ligateSlots (Slot.run isAdj)
  | .addNasals isAdj => (m.addNasals isAdj, .ok none)

/-- Every outcome of a series of edits; a failed one does not end the series. -/
def runSteps (m : FormSheet) : List Step → List Outcome
  | [] => []
  | s :: rest =>
    let outcome := m.step s
    outcome :: runSteps outcome.1 rest

end FormSheet
end Declension
