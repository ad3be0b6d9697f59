import Declension.Text.Scan

/-!
Links and simple markup in texts. A link shows its display text, or its target if it has none.
-/
namespace Declension.Text

/-- The inside of a link that starts here: everything up to the first closing bracket, which must
be doubled. -/
def linkInside? : List Char → Option (List Char)
  | '[' :: '[' :: r =>
    match upTo [']', ']'] (· ≠ ']') r with
    | some inside => some inside
    | none => none
  | _ => none

/-- The text after the first bar. -/
def afterBar? : List Char → Option (List Char)
  | [] => none
  | c :: r => if c = '|' then some r else afterBar? r

/-- A link with a display text becomes a link of that text alone. -/
def findPiped (s : List Char) : Option (List Char × Nat) :=
  match linkInside? s with
  | some inside =>
    (afterBar? inside).map fun shown =>
      ('[' :: '[' :: shown ++ [']', ']'], inside.length + 4)
  | none => none

/-- A link becomes the text inside it. -/
def findLink (s : List Char) : Option (List Char × Nat) :=
  (linkInside? s).map fun inside => (inside, inside.length + 4)

def unlinkChars (s : List Char) : List Char := substitute findLink (substitute findPiped s)

/-- A text with its links replaced by what they show. -/
def unlink (s : String) : String := String.ofList (unlinkChars s.toList)

/-- An element of markup on one line, with the text between its tags. -/
def findElement : List Char → Option (List Char × Nat)
  | '<' :: r => do
    let opening ← upTo ['>'] (· ≠ '\n') r
    let r₁ := r.drop (opening.length + 1)
    let inside ← upTo ['<', '/'] (· ≠ '\n') r₁
    let r₂ := r₁.drop (inside.length + 2)
    let closing ← upTo ['>'] (· ≠ '\n') r₂
    some (inside, opening.length + inside.length + closing.length + 5)
  | _ => none

/-- A text whose simple elements are replaced by what they hold. -/
def unmark (s : String) : String := String.ofList (substitute findElement s.toList)

end Declension.Text
