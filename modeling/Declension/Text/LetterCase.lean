import Declension.Text.CaseTable

/-!
Upper and lower case of single characters and of the first letter of a text.
-/
namespace Declension.Text

/-- The other case of a character by a table of shifts. -/
def shifted (rows : List CaseRow) (c : Char) : Option Char :=
  let n := c.toNat
  (rows.find? fun row => row.first ≤ n && n ≤ row.last && (n - row.first) % row.step = 0).map
    fun row => Char.ofNat ((n : Int) + row.shift).toNat

/-- A character in upper case; a few need more than one character. -/
def upper (c : Char) : String :=
  (upperTexts.lookup c).getD ((shifted upperRows c).getD c).toString

/-- A character in lower case. -/
def lower (c : Char) : String :=
  (lowerTexts.lookup c).getD ((shifted lowerRows c).getD c).toString

/-- A text whose first letter is in upper case. -/
def capitalize (s : String) : String :=
  match s.toList with
  | [] => ""
  | c :: r => upper c ++ String.ofList r

/-- A text whose first letter is in lower case. -/
def uncapitalize (s : String) : String :=
  match s.toList with
  | [] => ""
  | c :: r => lower c ++ String.ofList r

end Declension.Text
