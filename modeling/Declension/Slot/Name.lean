import Declension.Slot
import Declension.Text.Scan

/-!
Slots told by their names alone, also by names outside the vocabulary: which name stands for the
other number, for the masculine, or for a linked slot.
-/
namespace Declension.SlotName

/-- The first mark of number `num` in a name turned into the other number; none if the name does
not carry that number. Every number but the singular has the singular for its other. -/
def mirror (name num : String) : Option String :=
  let mark := "_" ++ num
  let other := if num = "sg" then "_pl" else "_sg"
  if Text.occurs mark.toList name.toList then some (Text.replaceFirst mark other name) else none

/-- The masculine name for a feminine or neuter one. -/
def masculine? (name : String) : Option String :=
  if Text.endsIn "_f" name then some (Text.dropEnding "_f" name ++ "_m")
  else if Text.endsIn "_n" name then some (Text.dropEnding "_n" name ++ "_m")
  else none

def isLinked (name : String) : Bool := Text.startsWith "linked_" name

/-- The name without its mark of linking. -/
def unlinked (name : String) : String :=
  if isLinked name then String.ofList (name.toList.drop "linked_".length) else name

theorem mirror_name (s : Slot) (n : Number) :
    mirror s.name n.name = if s.number = n then some s.mirror.name else none := by
  rcases s with ⟨c, k, g⟩ | ⟨k, g⟩
  · cases c <;> cases k <;> rcases g with _ | g <;> try cases g
    all_goals cases n <;> decide
  · cases k <;> rcases g with _ | g <;> try cases g
    all_goals cases n <;> decide

theorem masculine?_name (s : Slot) : masculine? s.name = s.masculine?.map Slot.name := by
  rcases s with ⟨c, k, g⟩ | ⟨k, g⟩
  · cases c <;> cases k <;> rcases g with _ | g <;> try cases g
    all_goals decide
  · cases k <;> rcases g with _ | g <;> try cases g
    all_goals decide

theorem isLinked_name (s : Slot) : isLinked s.name = s.isLinked := by
  rcases s with ⟨c, k, g⟩ | ⟨k, g⟩
  · cases c <;> cases k <;> rcases g with _ | g <;> try cases g
    all_goals decide
  · cases k <;> rcases g with _ | g <;> try cases g
    all_goals decide

end Declension.SlotName
