/-!
Values of the JSON format. Members of an object keep their order.
-/
namespace Declension

inductive Json where
  | null
  | bool (b : Bool)
  | num (n : Int)
  /-- A number that is no integer, as written. -/
  | real (text : String)
  | str (s : String)
  | arr (items : List Json)
  | obj (members : List (String × Json))
  deriving Repr

namespace Json

instance : Inhabited Json := ⟨null⟩

def member? (key : String) : Json → Option Json
  | obj members => members.lookup key
  | _ => none

/-- Whether a document counts as absent: null, false, zero, or empty. -/
def isVoid : Json → Bool
  | null => true
  | bool b => !b
  | num n => n = 0
  | real _ => false
  | str s => s.isEmpty
  | arr items => items.isEmpty
  | obj members => members.isEmpty

def str? : Json → Option String
  | str s => some s
  | _ => none

def arr? : Json → Option (List Json)
  | arr items => some items
  | _ => none

def obj? : Json → Option (List (String × Json))
  | obj members => some members
  | _ => none

/-- A text or null. -/
def ofOption : Option String → Json
  | none => null
  | some s => str s

def ofTexts (texts : List String) : Json := arr (texts.map str)

end Json
end Declension
