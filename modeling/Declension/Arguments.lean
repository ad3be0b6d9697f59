import Declension.OrderedMap
import Declension.Text.Scan

/-!
The arguments of a template: names with values, in the order in which the names first appear.
-/
namespace Declension

abbrev Arguments := OrderedMap String String

namespace Arguments

def natOfDigits (s : List Char) : Nat :=
  s.foldl (fun n c => n * 10 + (c.toNat - '0'.toNat)) 0

/-- The place of a name in the numbered list of `base`: the name itself is first, and a number
behind it is the place counted from one. A final line break of the name does not count. -/
def place? (base name : String) : Option Int :=
  if Text.startsWith base name then
    let digits := Text.line (name.toList.drop base.length)
    if digits.isEmpty then some 0
    else if digits.all Char.isDigit then some ((natOfDigits digits : Int) - 1)
    else none
  else none

/-- The values of a numbered list in the order of their places; of two for one place the later
holds. -/
def list (args : Arguments) (base : String) : List String :=
  let placed := args.entries.filterMap fun (name, value) =>
    (place? base name).map fun place => (place, value)
  ((OrderedMap.ofList placed).entries.mergeSort fun a b => a.1 ≤ b.1).map (·.2)

def getD (args : Arguments) (name default : String) : String := (args.get? name).getD default

/-- Whether one of the names is given. -/
def hasAny (args : Arguments) (names : List String) : Bool := names.any args.contains

end Arguments
end Declension
