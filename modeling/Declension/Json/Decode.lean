import Declension.Json

/-!
Reading typed values out of JSON documents. A reader gives nothing for a document that does not
have the wanted shape.
-/
namespace Declension.Json

variable {α : Type}

/-- A list, every item read the same way. -/
def list? (item : Json → Option α) : Json → Option (List α)
  | arr items => items.mapM item
  | _ => none

/-- An object as a list of members, every value read the same way. -/
def map? (item : Json → Option α) : Json → Option (List (String × α))
  | obj members => members.mapM fun (key, v) => (item v).map (key, ·)
  | _ => none

/-- A value or null. -/
def nullable? (item : Json → Option α) : Json → Option (Option α)
  | null => some none
  | v => (item v).map some

/-- A member that must be there. -/
def required? (key : String) (item : Json → Option α) (v : Json) : Option α :=
  (v.member? key).bind item

/-- A member that has a default. -/
def optional? (key : String) (default : α) (item : Json → Option α) (v : Json) : Option α :=
  match v.member? key with
  | some w => item w
  | none => some default

def texts? : Json → Option (List String) := list? str?

/-- Two texts. -/
def textPair? : Json → Option (String × String)
  | arr [str a, str b] => some (a, b)
  | _ => none

end Declension.Json
