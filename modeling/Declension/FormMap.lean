import Declension.OrderedMap
import Declension.Slot
import Declension.Text.Scan

/-!
The forms of a paradigm, slot by slot, and the three passes that rework them: copying one number
onto the other, ligatures, and the nasal variants in -n.
-/
namespace Declension

/-- For each slot filled so far, its forms in order. -/
abbrev FormMap := OrderedMap Slot (List String)

/-- The two-letter spellings and their ligatures. -/
def ligatures : List (String × String) :=
  [("Ae", "Æ"), ("Oe", "Œ"), ("ae", "æ"), ("oe", "œ")]

/-- A form spelt with ligatures. -/
def ligate (form : String) : String :=
  ligatures.foldl (fun form (plain, joined) => Text.replace plain joined form) form

/-- A form in -m follows its variant in -n. -/
def withNasal (form : String) : List String :=
  if Text.endsIn "m" form then [Text.dropEnding "m" form ++ "n", form] else [form]

namespace FormMap

/-- The forms of a slot; a slot never filled has none. -/
def forms (m : FormMap) (s : Slot) : List String := (m.get? s).getD []

/-- Sets each slot to the stem with every listed ending. -/
def inflect (stem : String) (endings : List (Slot × List String)) : List (Slot × List String) :=
  endings.map fun (slot, tails) => (slot, tails.map (stem ++ ·))

/-- Copies every slot of number `n` onto its mirror. -/
def mirrorNumber (n : Number) (isAdj : Bool) (m : FormMap) : FormMap :=
  (Slot.run isAdj).foldl (fun m s => if s.number = n then m.insert s.mirror (m.forms s) else m) m

/-- Spells every filled slot with ligatures. -/
def ligate (isAdj : Bool) (m : FormMap) : FormMap :=
  (Slot.run isAdj).foldl (fun m s => m.modify s (·.map Declension.ligate)) m

/-- Gives every form in -m its variant in -n. -/
def addNasals (isAdj : Bool) (m : FormMap) : FormMap :=
  (Slot.run isAdj).foldl (fun m s => m.modify s (·.flatMap withNasal)) m

end FormMap
end Declension
