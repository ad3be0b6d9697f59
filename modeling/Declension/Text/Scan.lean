/-!
Leftmost scanning of texts: cutting a text where a recogniser fires, replacing what it found, and
the plain searches built on it.
-/
namespace Declension.Text

/-- Reads a text from the left. Where `find` recognises something, together with its length, that
stretch becomes one item; every other character stands for itself. The counter holds the
characters of a recognised stretch that are still to be passed over. -/
def scan {α : Type} (find : List Char → Option (α × Nat)) : Nat → List Char → List (Char ⊕ α)
  | _, [] => []
  | n + 1, _ :: r => scan find n r
  | 0, c :: r =>
    match find (c :: r) with
    | some (a, n) => .inr a :: scan find (n - 1) r
    | none => .inl c :: scan find 0 r

/-- The text before the first item, and each item with the text that follows it. -/
def pieces {α : Type} : List (Char ⊕ α) → List Char × List (α × List Char)
  | [] => ([], [])
  | .inl c :: r => let (head, rest) := pieces r; (c :: head, rest)
  | .inr a :: r => let (head, rest) := pieces r; ([], (a, head) :: rest)

/-- Cuts a text at everything `find` recognises, from the left. -/
def cut {α : Type} (find : List Char → Option (α × Nat)) (s : List Char) :
    List Char × List (α × List Char) :=
  pieces (scan find 0 s)

/-- Puts the found text in place of every recognised stretch. -/
def substitute (find : List Char → Option (List Char × Nat)) (s : List Char) : List Char :=
  (scan find 0 s).flatMap fun
    | .inl c => [c]
    | .inr found => found

/-- What stands before the first `stop`, if every character up to there is admitted. -/
def upTo (stop : List Char) (allowed : Char → Bool) : List Char → Option (List Char)
  | [] => if stop.isPrefixOf [] then some [] else none
  | c :: r =>
    if stop.isPrefixOf (c :: r) then some []
    else if allowed c then (upTo stop allowed r).map (c :: ·)
    else none

/-- Whether `part` occurs in a text. -/
def occurs (part : List Char) : List Char → Bool
  | [] => part.isEmpty
  | c :: r => part.isPrefixOf (c :: r) || occurs part r

/-- Recognises one fixed text, to be replaced by another. -/
def fixed (old new : List Char) (s : List Char) : Option (List Char × Nat) :=
  if old.isPrefixOf s then some (new, old.length) else none

/-- Replaces every occurrence of `old`, from the left. -/
def replace (old new s : String) : String :=
  String.ofList (substitute (fixed old.toList new.toList) s.toList)

/-- Replaces the first occurrence of `old` in a list of characters. -/
def replaceFirstChars (old new : List Char) : List Char → List Char
  | [] => if old.isEmpty then new else []
  | c :: r =>
    if old.isPrefixOf (c :: r) then new ++ (c :: r).drop old.length
    else c :: replaceFirstChars old new r

/-- Replaces the first occurrence of `old`, if there is one. -/
def replaceFirst (old new s : String) : String :=
  String.ofList (replaceFirstChars old.toList new.toList s.toList)

/-- The fields between separators; a text without separator is its own only field. -/
def fieldsChars (sep : Char) : List Char → List (List Char)
  | [] => [[]]
  | c :: r =>
    if c = sep then [] :: fieldsChars sep r
    else match fieldsChars sep r with
      | field :: rest => (c :: field) :: rest
      | [] => [[c]]

/-- The fields of a text between separators. -/
def fields (sep : Char) (s : String) : List String :=
  (fieldsChars sep s.toList).map String.ofList

/-- Joins texts with a separator between neighbours. -/
def join (sep : String) : List String → String
  | [] => ""
  | [s] => s
  | s :: t :: rest => s ++ sep ++ join sep (t :: rest)

/-- Whether a text starts with another. -/
def startsWith (front s : String) : Bool := front.toList.isPrefixOf s.toList

/-- Whether a text ends in another. -/
def endsIn (ending s : String) : Bool := ending.toList.isSuffixOf s.toList

/-- Drops an ending if it is there. -/
def dropEnding (ending s : String) : String :=
  if endsIn ending s then String.ofList (s.toList.take (s.toList.length - ending.toList.length))
  else s

/-- A text without its last line break; only one is dropped, and only at the very end. -/
def line (s : List Char) : List Char :=
  if s.getLast? = some '\n' then s.dropLast else s

/-- What stands before `ending` at the end of a line. A final line break of the text does not
count, and the part before the ending lies on one line. -/
def beforeChars (ending s : List Char) : Option (List Char) :=
  let body := line s
  let front := body.take (body.length - ending.length)
  if ending.isSuffixOf body ∧ '\n' ∉ front then some front else none

/-- What stands before `ending` at the end of a line. -/
def before (ending s : String) : Option String :=
  (beforeChars ending.toList s.toList).map String.ofList

end Declension.Text
