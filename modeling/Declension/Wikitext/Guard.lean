import Declension.Text.Blank

/-!
The places of wikitext in which items stand, what ends them, and what may stand in them. Names and
titles refuse some characters, and stray braces in a name forbid what would make them ambiguous.
-/
namespace Declension.Wikitext

/-- Where in the text a list of items stands. -/
inductive Place where
  | page | templateName | key | value | argumentName | argumentDefault | linkTitle | linkText
  deriving DecidableEq, Repr

namespace Place

/-- The texts that end a list of items; a page ends with the text only. -/
def closers : Place → List (List Char)
  | page => []
  | templateName => [['|'], ['\x7d', '\x7d']]
  | key => [['|'], ['='], ['\x7d', '\x7d']]
  | value => [['|'], ['\x7d', '\x7d']]
  | argumentName => [['|'], ['\x7d', '\x7d', '\x7d']]
  | argumentDefault => [['\x7d', '\x7d', '\x7d']]
  | linkTitle => [['|'], [']', ']']]
  | linkText => [[']', ']']]

def endsAt (p : Place) (s : List Char) : Bool := p.closers.any (·.isPrefixOf s)

/-- Whether links are recognised. -/
def hasLinks : Place → Bool
  | templateName | argumentName | linkTitle => false
  | _ => true

end Place

/-- What the text read so far in a place says about the character that comes next. A pair of
brackets counts as the character it starts with, whatever stands inside. -/
structure Guard where
  /-- The name of a template has text, or braces. -/
  hasText : Bool := false
  hasBraces : Bool := false
  /-- A line of text has ended in the name of a template. -/
  hasEnded : Bool := false
  /-- Nothing may follow. -/
  isShut : Bool := false
  /-- No equals sign may follow. -/
  barsEquals : Bool := false
  /-- An opening or a closing brace stands directly before. -/
  opened : Bool := false
  closed : Bool := false
  /-- How many plain opening braces stand directly before. -/
  braces : Nat := 0
  deriving DecidableEq, Repr

namespace Guard

/-- The name of a template holds no brackets, and after a line of text only white space. -/
def passName (g : Guard) (c : Char) : Option Guard :=
  if g.isShut || c ∈ ['[', ']', '<', '>'] then none
  else if c = '\x7b' then some { g with isShut := true, hasBraces := true }
  else if c = '\x7d' then some { g with isShut := true }
  else if c = '|' then some g
  else if !g.hasText then some { g with hasText := !Text.isBlank c }
  else if g.hasEnded then if Text.isBlank c then some g else none
  else some { g with hasEnded := c = '\n' }

/-- The title of a link holds no brackets and no line break. -/
def passTitle (g : Guard) (c : Char) : Option Guard :=
  if g.isShut || c ∈ ['\n', '[', '\x7d', '<', '>'] then none
  else some { g with isShut := c = ']' || c = '\x7b' }

/-- In the name of a parameter, no equals sign follows two opening braces that open nothing, or an
opening brace behind what starts with one. In the name of an argument nothing may follow these,
nor two closing braces. -/
def passKey (isKey : Bool) (g : Guard) (c : Char) : Option Guard :=
  if g.isShut || (g.barsEquals && c = '=') then none
  else if g.barsEquals then some g
  else if g.opened then
    if c = '\x7b' || 2 ≤ g.braces then some { g with barsEquals := isKey, isShut := !isKey }
    else some { g with opened := false }
  else if g.closed then
    if c = '\x7d' then some { g with isShut := true } else some { g with closed := false }
  else some { g with opened := c = '\x7b', closed := c = '\x7d' }

/-- Lets a character pass, or refuses it. -/
def pass (p : Place) (g : Guard) (c : Char) : Option Guard :=
  match p with
  | .templateName => g.passName c
  | .linkTitle => g.passTitle c
  | .key => g.passKey true c
  | .argumentName => g.passKey false c
  | _ => some g

/-- The guard behind a plain character. -/
def after (g : Guard) (c : Char) : Guard :=
  { g with braces := if c = '\x7b' then g.braces + 1 else 0 }

/-- The guard behind a link. -/
def afterLink (g : Guard) : Guard := { g with braces := 0 }

/-- The guard behind a run of opening braces of which `plain` open nothing. If every brace opens
something, more may follow. -/
def afterBraces (g : Guard) (plain : Nat) (opensSome : Bool) : Guard :=
  { g with isShut := g.isShut && plain ≠ 0, braces := if opensSome then 0 else plain }

/-- Whether what was read can be the name of a template. -/
def isName (g : Guard) : Bool := g.hasText || g.hasBraces

end Guard
end Declension.Wikitext
