import Declension.Dump

/-!
Pages out of the markup of a dump. A page is an element with a title and a revision, whose text is
the text of the page. Elements of one name do not nest.
-/
namespace Declension.Dump

/-- The text before the first occurrence of `stop`, and the text behind it. -/
def splitAt? (stop : List Char) : List Char → Option (List Char × List Char)
  | [] => none
  | c :: r =>
    if stop.isPrefixOf (c :: r) then some ([], (c :: r).drop stop.length)
    else (splitAt? stop r).map fun (front, rest) => (c :: front, rest)

/-- What the first element of a name holds, and the text behind it. An element closed in its own
tag holds nothing. -/
def element? (name : List Char) : Nat → List Char → Option (List Char × List Char)
  | 0, _ => none
  | fuel + 1, s => do
    let (_, r) ← splitAt? ('<' :: name) s
    match r with
    | '>' :: r => splitAt? ("</".toList ++ name ++ ['>']) r
    | c :: _ =>
      if c = ' ' || c = '/' then
        let (tag, r) ← splitAt? ['>'] r
        if tag.getLast? = some '/' then some ([], r)
        else splitAt? ("</".toList ++ name ++ ['>']) r
      else element? name fuel r
    | [] => none

/-- The characters with a name of their own. -/
def namedCharacters : List (String × Char) :=
  [("lt", '<'), ("gt", '>'), ("amp", '&'), ("quot", '"'), ("apos", '\'')]

def digitValue (c : Char) : Nat :=
  if c.isDigit then c.toNat - '0'.toNat
  else if 'a' ≤ c && c ≤ 'f' then c.toNat - 'a'.toNat + 10
  else c.toNat - 'A'.toNat + 10

/-- The character that stands between an ampersand and a semicolon. -/
def character? (name : List Char) : Option Char :=
  match name with
  | '#' :: 'x' :: digits => some (Char.ofNat (digits.foldl (fun n c => n * 16 + digitValue c) 0))
  | '#' :: digits => some (Char.ofNat (digits.foldl (fun n c => n * 10 + digitValue c) 0))
  | _ => namedCharacters.lookup (String.ofList name)

def findCharacter : List Char → Option (List Char × Nat)
  | '&' :: r => do
    let name ← Text.upTo [';'] (fun c => c ≠ '&' && c ≠ ' ') r
    (character? name).map fun c => ([c], name.length + 2)
  | _ => none

/-- The text that markup stands for. -/
def plainText (s : List Char) : String := String.ofList (Text.substitute findCharacter s)

def pageOf (s : List Char) : Page :=
  let inside (name : String) (s : List Char) : Option (List Char) :=
    (element? name.toList (s.length + 1) s).map (·.1)
  .ofElement ((inside "title" s).map plainText)
    (((inside "revision" s).bind (inside "text")).map plainText)

def pagesFrom : Nat → List Char → List Page
  | 0, _ => []
  | fuel + 1, s =>
    match element? "page".toList (s.length + 1) s with
    | some (page, rest) => pageOf page :: pagesFrom fuel rest
    | none => []

/-- The pages of a dump. -/
def pages (markup : String) : List Page := pagesFrom (markup.length + 1) markup.toList

end Declension.Dump
