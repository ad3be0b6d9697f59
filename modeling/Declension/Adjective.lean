import Declension.Adjective.FirstSecond
import Declension.Adjective.Third

/-!
Declining adjectives and the pronouns that go like them: the regular classes, words of one form,
demonstratives, and irregular paradigms.
-/
namespace Declension.Adjective
open Slot

/-- Declines an adjective whose form never changes. -/
def indeclinable (w : Lexeme) : Paradigm where
  forms := .ofList ([.nom, .gen, .dat, .acc, .abl, .loc, .voc].flatMap fun c =>
    [(sgm c, [w.stem]), (plm c, [w.stem])])
  title := some ("indeclinable " ++ singular w.pos)
  categories := ["Latin indeclinable " ++ w.pos]

/-- The demonstratives: stem and neuter. -/
def demonstratives : List (String × String × String) := [
  ("ille", "ill", "illud"), ("iste", "ist", "istud"), ("ipse", "ips", "ipsum")]

/-- The demonstrative as a pronominal adjective. -/
def asPronominal (w : Lexeme) (stem : String) : Lexeme :=
  { w with stem, oblique := none, tags := w.tags.add (.has .ius) }

/-- Declines a demonstrative: a pronominal adjective with its own nominative and neuter, and
without vocative. -/
def demonstrative (w : Lexeme) (stem neuter : String) : Except Fault Paradigm := do
  let p ← firstSecond (asPronominal w stem)
  return { p with
    forms := p.forms.insertMany
      [(sgm .nom, [w.stem]), (sgn .nom, [neuter]), (sgn .acc, [neuter])]
    title := some "demonstrative pronoun"
    voc := false
    categories := [] }

/-- Declines an irregular adjective by its paradigm. -/
def irregular (t : Tables) (w : Lexeme) : Except Fault Paradigm :=
  match demonstratives.lookup w.stem with
  | some (stem, neuter) => demonstrative w stem neuter
  | none => do
    let p ← t.irregularAdjective w.stem
    return {
      forms := p.formsFor w.stem
      notes := p.notes
      title := p.title
      subtitles := p.subtitles
      footnote := p.footnote
      categories := p.categoriesFor w.pos
      voc := p.voc }

/-- The classes of adjectives. -/
inductive Class where
  | indeclinable | firstSecond | firstFirst | secondSecond | thirdOne | comparative | participle
  | thirdTwo | thirdThree | irregular
  deriving DecidableEq, Repr

namespace Class

def ofName? : String → Option Class
  | "0" => some indeclinable | "1&2" => some firstSecond | "1-1" => some firstFirst
  | "2-2" => some secondSecond | "3-1" => some thirdOne | "3-C" => some comparative
  | "3-P" => some participle | "3-2" => some thirdTwo | "3-3" => some thirdThree
  | "irreg" => some irregular
  | _ => none

end Class

/-- Declines an adjective of a class. -/
def decline (e : Engine) (w : Lexeme) : Class → Except Fault Paradigm
  | .indeclinable => .ok (indeclinable w)
  | .firstSecond => firstSecond w
  | .firstFirst => .ok (firstFirst w)
  | .secondSecond => .ok (secondSecond w)
  | .thirdOne => .ok (thirdOne w)
  | .comparative => .ok (comparative w)
  | .participle => .ok (participle e.options w)
  | .thirdTwo => .ok (thirdTwo w)
  | .thirdThree => .ok (thirdThree w)
  | .irregular => irregular e.tables w

/-- The traits of a word after declining it: comparatives are parisyllabic, demonstratives
pronominal. -/
def traitsAfter (w : Lexeme) : Class → TagSet
  | .comparative => w.tags.add (.has .par)
  | .irregular => if (demonstratives.lookup w.stem).isSome then w.tags.add (.has .ius) else w.tags
  | _ => w.tags

end Declension.Adjective
