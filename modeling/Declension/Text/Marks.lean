import Declension.Text.MarkTable

/-!
Letters and their combining marks: taking letters apart, putting the marks in their standard
order, joining them again, and the two ways of leaving marks out.
-/
namespace Declension.Text

/-- The class that orders a mark among the marks of one letter; letters have class 0. -/
def markClass (c : Char) : Nat :=
  let n := c.toNat
  if n < 0x300 || 0x36F < n || n = 0x34F then 0
  else if n = 0x345 then 240
  else if n = 0x35D || n = 0x35E || n = 0x360 || n = 0x361 then 234
  else if n = 0x35C || n = 0x35F || n = 0x362 then 233
  else if n = 0x315 || n = 0x31A || n = 0x358 then 232
  else if n = 0x31B then 216
  else if n = 0x321 || n = 0x322 || n = 0x327 || n = 0x328 then 202
  else if 0x334 ≤ n && n ≤ 0x338 then 1
  else if (0x316 ≤ n && n ≤ 0x333) || (0x339 ≤ n && n ≤ 0x33C) || (0x347 ≤ n && n ≤ 0x349)
    || n = 0x34D || n = 0x34E || (0x353 ≤ n && n ≤ 0x356) || n = 0x359 || n = 0x35A then 220
  else 230

/-- The letter and mark that a character joins, or what it stands for. -/
def apart? (c : Char) : Option (List Char) :=
  if c.toNat < 0xC0 then none
  else match standIns.lookup c with
    | some s => some s
    | none => markRows.findSome? fun row =>
        (row.joined.toList.zip row.bases.toList).findSome? fun (joined, base) =>
          if joined = c then some [base, row.mark] else none

/-- The character for a letter with a mark, if there is one. -/
def together? (base mark : Char) : Option Char :=
  match markRows.find? fun row => row.mark = mark with
  | some row => (row.bases.toList.zip row.joined.toList).lookup base
  | none => none

/-- Takes each character apart once. -/
def apartOnce (s : List Char) : List Char := s.flatMap fun c => (apart? c).getD [c]

/-- Places a mark among the marks that follow it. -/
def placeMark (c : Char) : List Char → List Char
  | [] => [c]
  | d :: r => if 0 < markClass d && markClass d < markClass c then d :: placeMark c r else c :: d :: r

/-- Letters and marks apart, the marks of each letter in order of class. No character joins more
than three marks or stands for one that does, so four rounds suffice. -/
def decompose (s : List Char) : List Char :=
  (apartOnce (apartOnce (apartOnce (apartOnce s)))).foldr placeMark []

/-- Joins each letter with the marks it can take. `kept` holds, last first, the marks that stay
behind the letter, and `last` the class of the last of them. -/
def joinMarks : Option Char → List Char → Nat → List Char → List Char
  | letter, kept, _, [] => letter.toList ++ kept.reverse
  | letter, kept, last, c :: r =>
    if markClass c = 0 then letter.toList ++ kept.reverse ++ joinMarks (some c) [] 0 r
    else
      match if last < markClass c then letter.bind (together? · c) else none with
      | some joined => joinMarks (some joined) kept last r
      | none => joinMarks letter (c :: kept) (markClass c) r

/-- Letters joined with their marks wherever a character for both exists. -/
def compose (s : List Char) : List Char := joinMarks none [] 0 (decompose s)

/-- A text without some of its marks, the others kept. -/
def dropMarks (drop : Char → Bool) (s : String) : String :=
  String.ofList (compose ((decompose s.toList).filter (!drop ·)))

/-- A text without macrons. -/
def stripMacrons (s : String) : String := dropMarks (· = '\u0304') s

/-- A text whose only marks are macrons. -/
def keepMacrons (s : String) : String :=
  dropMarks (fun c => 0x300 ≤ c.toNat && c.toNat ≤ 0x36F && c ≠ '\u0304') s

end Declension.Text
