import Declension.Text.Scan

/-!
Endings of lemmas. Tables write an ending as plain text or as an expression; it tells the base of a
word that ends that way. Expressions that only describe the base and what follows it are read as
shapes, all others are left to a matcher of expressions.
-/
namespace Declension

/-- One element of a shape. -/
inductive Atom where
  | one (c : Char)
  /-- A character out of ranges, ends included. -/
  | oneOf (ranges : List (Char × Char))
  | maybe (c : Char)
  /-- Any number of characters within a line. -/
  | span
  deriving DecidableEq, Repr

namespace Atom

/-- Whether some end of a text, reached within its first line, satisfies a test. -/
def someEnd (test : List Char → Bool) : List Char → Bool
  | [] => test []
  | c :: r => test (c :: r) || (c ≠ '\n' && someEnd test r)

/-- Whether a text as a whole has the shape of a list of atoms. -/
def fits : List Atom → List Char → Bool
  | [], s => s.isEmpty
  | .one c :: rest, d :: r => c = d && fits rest r
  | .oneOf ranges :: rest, d :: r => ranges.any (fun (a, b) => a ≤ d && d ≤ b) && fits rest r
  | .maybe c :: rest, s =>
    fits rest s || match s with
      | d :: r => c = d && fits rest r
      | [] => false
  | .span :: rest, s => someEnd (fits rest) s
  | _ :: _, [] => false

def text : Atom → String
  | one c => c.toString
  | oneOf ranges =>
    "[" ++ String.join (ranges.map fun (a, b) =>
      if a = b then a.toString else a.toString ++ "-" ++ b.toString) ++ "]"
  | maybe c => c.toString ++ "?"
  | span => ".*"

/-- Whether a character stands for itself in an expression, and not for the end of a line. -/
def isLetter (c : Char) : Bool :=
  c ∉ ['.', '^', '$', '*', '+', '?', '\x7b', '\x7d', '[', ']', '\\', '|', '(', ')', '\n']

/-- Whether the characters from `a` to `b` can stand in brackets and are no line breaks. -/
def isRange (a b : Char) : Bool :=
  isLetter a && isLetter b && a ≠ '-' && b ≠ '-' && a ≤ b && !(a ≤ '\n' && '\n' ≤ b)

/-- Reads atoms; inside brackets the ranges read so far come with it, last first. -/
def read : Option (List (Char × Char)) → List Char → Option (List Atom)
  | none, [] => some []
  | none, '.' :: '*' :: r => (read none r).map (span :: ·)
  | none, '[' :: r => read (some []) r
  | none, c :: '?' :: r => if isLetter c then (read none r).map (maybe c :: ·) else none
  | none, c :: r => if isLetter c then (read none r).map (one c :: ·) else none
  | some _, [] => none
  | some ranges, ']' :: r =>
    if ranges.isEmpty then none else (read none r).map (oneOf ranges.reverse :: ·)
  | some ranges, a :: '-' :: b :: r =>
    if isRange a b then read (some ((a, b) :: ranges)) r else none
  | some ranges, a :: r => if isRange a a then read (some ((a, a) :: ranges)) r else none

end Atom

/-- A matcher of expressions. -/
class Expressions where
  /-- What the first group of an expression takes where the expression first matches in a text, if
  it matches and the group takes part. -/
  firstGroup? (expression text : String) : Option String

/-- A matcher that no expression matches. -/
@[reducible] def Expressions.blank : Expressions := ⟨fun _ _ => none⟩

inductive Ending where
  | plain (tail : String)
  /-- A base of the first shape before an end of the second. -/
  | shaped (base tail : List Atom)
  /-- Any other expression as it is written, with what it finds in a word. -/
  | pattern (text : String) (find : String → Option String)

namespace Ending

/-- The base of a word with this ending: what stands before a plain one, and the longest front
that lets the word fit a shape. A final line break of the word does not count. -/
def base? (e : Ending) (word : String) : Option String :=
  match e with
  | plain tail => Text.before tail word
  | shaped base tail =>
    let body := Text.line word.toList
    let fitting := (List.range (body.length + 1)).reverse.find? fun k =>
      Atom.fits base (body.take k) && Atom.fits tail (body.drop k)
    fitting.map fun k => String.ofList (body.take k)
  | pattern _ find => find word

/-- An ending as tables write it; a shape has its base in parentheses and is anchored at both
ends. -/
def text : Ending → String
  | plain tail => tail
  | shaped base tail =>
    "^(" ++ String.join (base.map Atom.text) ++ ")" ++ String.join (tail.map Atom.text) ++ "$"
  | pattern text _ => text

def shape? (s : List Char) : Option Ending := do
  let inner ← match s with
    | '^' :: '(' :: r => some r
    | _ => none
  let base ← Text.upTo [')'] (fun _ => true) inner
  let after := inner.drop (base.length + 1)
  let tail ← Text.upTo ['$'] (fun _ => true) after
  if after.length = tail.length + 1 then
    some (shaped (← Atom.read none base) (← Atom.read none tail))
  else none

/-- The expression that an ending stands for: it is one as a whole if it holds a parenthesis, and
else what ends a line behind the base. -/
def expression (s : String) : String :=
  if '(' ∈ s.toList then s else "^(.*)" ++ s ++ "$"

/-- The ending a table writes. -/
def ofText [Expressions] (s : String) : Ending :=
  match shape? s.toList with
  | some e => e
  | none =>
    if s.toList.all Atom.isLetter then plain s
    else pattern s (Expressions.firstGroup? (expression s))

end Ending
end Declension
