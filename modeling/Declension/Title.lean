import Declension.Tables
import Declension.Text.LetterCase

/-!
How titles are put together: from the titles of the words of a run, and from what sets the
branches of an alternant apart.
-/
namespace Declension.Title

/-- The first letters that take the article an. -/
def isVowel (c : Char) : Bool := c ∈ "aeiouAEIOUıİ".toList

def withArticle (s : String) : String :=
  if s.toList.head?.any isVowel then "an " ++ s else "a " ++ s

/-- The title of a run out of those of its parts. -/
def joined : List String → String
  | [] => ""
  | first :: rest => Text.join " with " (Text.capitalize first :: rest.map withArticle)

/-- The sentences after the first, no longer sentences of their own. -/
def continued : List String → List String
  | [] => []
  | [last] => [Text.uncapitalize last]
  | s :: rest => Text.uncapitalize (Text.dropEnding "." s) :: continued rest

/-- Makes one sentence out of several. -/
def joinSentences (joiner : String) : List String → String
  | [] => ""
  | [only] => only
  | first :: rest => Text.join joiner (Text.dropEnding "." first :: continued rest)

def rendered (subtitles : List Subtitle) : String :=
  Text.join ", " (subtitles.map Subtitle.text)

/-- How far two lists agree. -/
def agreement {α : Type} [DecidableEq α] : List α → List α → Nat
  | a :: as, b :: bs => if a = b then agreement as bs + 1 else 0
  | _, _ => 0

/-- How many subtitles all the lists start with in common. -/
def common : List (List Subtitle) → Nat
  | [] => 0
  | first :: rest => rest.foldl (fun n other => min n (agreement first other)) first.length

/-- The pair that is all that is left of a list after `n` subtitles. -/
def lonePair? (n : Nat) (subtitles : List Subtitle) : Option (String × String) :=
  match subtitles.drop n with
  | [.pair front back] => some (front, back)
  | _ => none

/-- What the lists have apart, if one pair is left of each of them and the pairs share their
front or back. -/
def factored? (pairs : List (String × String)) : Option String :=
  match pairs with
  | [] => none
  | (front, back) :: rest =>
    if front ≠ "" ∧ rest.all (·.1 = front) then
      some (front ++ Text.join " or " (pairs.map (·.2)))
    else if back ≠ "" ∧ rest.all (·.2 = back) then
      some (Text.join " or " (pairs.map (·.1)) ++ back)
    else none

/-- What the lists have apart after `n` subtitles. -/
def apart (n : Nat) (lists : List (List Subtitle)) : String :=
  match (lists.mapM (lonePair? n)).bind factored? with
  | some text => text
  | none =>
    if lists.all (·.length ≤ n) then ""
    else Text.join " or " (lists.map fun subtitles =>
      if subtitles.length ≤ n then "otherwise" else rendered (subtitles.drop n))

def numberWords : List String := ["zero", "one", "two", "three", "four", "five"]

def numberWord (n : Nat) : String := numberWords[n]?.getD (toString n)

/-- The title of an alternant: what its branches share, then what sets them apart, then how many
stems they have. -/
def ofAlternant (title : String) (lists : List (List Subtitle)) (stems : List String) : String :=
  let n := common lists
  let shared := rendered ((lists.headD []).take n)
  let remarks := [shared, apart n lists].filter (· ≠ "")
    ++ if 1 < stems.length then [numberWord stems.length ++ " different stems"] else []
  if remarks.isEmpty then title
  else title ++ " (" ++ Text.join "; " remarks ++ ")"

end Declension.Title
