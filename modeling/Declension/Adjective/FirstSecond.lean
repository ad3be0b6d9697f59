import Declension.Adjective.Title

/-!
Adjectives of the first and second declension: bonus, pulcher, the pronominal type ūnus, and the
Greek types; also those that follow one of the two declensions in all genders.
-/
namespace Declension.Adjective

namespace FirstSecond
open Slot FormMap

/-- The endings in which Greek types differ. -/
structure Endings where
  us : String := "us"
  a : String := "a"
  um : String := "um"
  ae : String := "ae"
  am : String := "am"
  longA : String := "ā"

def endings (w : Lexeme) : Endings :=
  if w.has .greekA then { us := "os", um := "on", am := "ān" }
  else if w.has .greekE then
    { us := "os", a := "ē", um := "on", ae := "ēs", am := "ēn", longA := "ē" }
  else {}

def rows (e : Endings) : Rows := [
  (sgm .nom, [e.us]), (sgf .nom, [e.a]), (sgn .nom, [e.um]),
  (plm .nom, ["ī"]), (plf .nom, ["ae"]), (pln .nom, ["a"]),
  (sgm .gen, ["ī"]), (sgf .gen, [e.ae]), (sgn .gen, ["ī"]),
  (plm .gen, ["ōrum"]), (plf .gen, ["ārum"]), (pln .gen, ["ōrum"]),
  (sgm .dat, ["ō"]), (sgf .dat, ["ae"]), (sgn .dat, ["ō"]),
  (plm .dat, ["īs"]), (plf .dat, ["īs"]), (pln .dat, ["īs"]),
  (sgm .acc, [e.um]), (sgf .acc, [e.am]), (sgn .acc, [e.um]),
  (plm .acc, ["ōs"]), (plf .acc, ["ās"]), (pln .acc, ["a"]),
  (sgm .abl, ["ō"]), (sgf .abl, [e.longA]), (sgn .abl, ["ō"]),
  (plm .abl, ["īs"]), (plf .abl, ["īs"]), (pln .abl, ["īs"]),
  (sgm .voc, ["e"]), (sgf .voc, [e.a]), (sgn .voc, [e.um]),
  (plm .voc, ["ī"]), (plf .voc, ["ae"]), (pln .voc, ["a"]),
  (sgm .loc, ["ī"]), (sgf .loc, ["ae"]), (sgn .loc, ["ī"]),
  (plm .loc, ["īs"]), (plf .loc, ["īs"]), (pln .loc, ["īs"])]

/-- An i that is found both long and short. -/
def eitherI : String := "ī\u0306"

/-- The genitive and dative of the pronominal type, the same in all genders. -/
def pronominal : Rows :=
  Gender.all.flatMap fun g =>
    [(cell .gen .sg (some g), [eitherI ++ "us"]), (cell .dat .sg (some g), ["ī"])]

/-- The type of hic; after ill- its neuter has u. -/
def hicType (stem : String) : Rows :=
  let (oc, longOc) := if stem = "ill" then ("uc", "ūc") else ("oc", "ōc")
  [(sgm .nom, ["ic"]), (sgf .nom, ["aec"]), (sgn .nom, [oc]), (pln .nom, ["aec"]),
    (sgm .gen, ["uius"]), (sgf .gen, ["uius"]), (sgn .gen, ["uius"]),
    (sgm .dat, ["uic"]), (sgf .dat, ["uic"]), (sgn .dat, ["uic"]),
    (sgm .acc, ["unc"]), (sgf .acc, ["anc"]), (sgn .acc, [oc]), (pln .acc, ["aec"]),
    (sgm .abl, ["ōc"]), (sgf .abl, ["āc"]), (sgn .abl, [longOc])]

/-- How a word in -r ends. -/
inductive RType where
  | er | ur
  deriving DecidableEq, Repr

def RType.text : RType → String
  | er => "er" | ur => "ur"

/-- The ending of a word in -r, if the word is of that type. -/
def rType? (w : Lexeme) : Except Fault (Option RType) :=
  if !w.has .er then .ok none
  else if Text.endsIn "er" w.stem then .ok (some .er)
  else if Text.endsIn "ur" w.stem then .ok (some .ur)
  else .error (.stemNotInR w.stem)

/-- The stem that takes the endings: the oblique one for words in -r. -/
def stem (w : Lexeme) : String := if w.has .er then w.obliqueStem else w.stem

def forms (w : Lexeme) : FormMap :=
  let stem := stem w
  .ofList <|
    inflect stem (rows (endings w))
      ++ (if w.has .er then [(sgm .nom, [w.stem]), (sgm .voc, [w.stem])] else [])
      ++ (if w.has .ius then inflect stem pronominal else [])
      ++ (if stem = "me" then [(sgm .voc, ["mī"])] else [])
      ++ (if w.has .ic then inflect stem (hicType stem) else [])

def isGreek (w : Lexeme) : Bool := w.has .greekA || w.has .greekE

def subtitles (w : Lexeme) (r : Option RType) : List Subtitle :=
  (r.map fun r => .phrase ("nominative masculine singular in '-" ++ r.text ++ "'")).toList
    ++ (if isGreek w then [.phrase "Greek-type"] else [])
    ++ remark w .ius (.phrase "pronominal") (.phrase "non-pronominal")
    ++ if w.has .ic then [.phrase "'hic'-type"] else []

def categories (w : Lexeme) (r : Option RType) : List String :=
  let main := "Latin first and second declension " ++ w.pos
  (r.map fun r => main ++ " with nominative masculine singular in -" ++ r.text).toList
    ++ (if isGreek w then [main ++ " with Greek declension"] else [])
    ++ (if w.has .ius then [main ++ " with genitive singular in -" ++ eitherI ++ "us"] else [])
    ++ [main]

def title (w : Lexeme) : String :=
  match w.gender with
  | some .f => "first-declension " ++ singular w.pos
  | some _ => "second-declension " ++ singular w.pos
  | none => "first/second-declension " ++ singular w.pos

end FirstSecond

/-- Declines an adjective of the first and second declension. -/
def firstSecond (w : Lexeme) : Except Fault Paradigm := do
  let r ← FirstSecond.rType? w
  return {
    forms := FirstSecond.forms w
    title := some (FirstSecond.title w)
    subtitles := FirstSecond.subtitles w r
    categories := FirstSecond.categories w r
    voc := !w.has .ic }

namespace FirstFirst
open Slot

def endings : Rows := [
  (sgm .nom, ["a"]), (plm .nom, ["ae"]), (sgm .gen, ["ae"]), (plm .gen, ["ārum"]),
  (sgm .dat, ["ae"]), (plm .dat, ["īs"]), (sgm .acc, ["am"]), (sgn .acc, ["a"]),
  (plm .acc, ["ās"]), (pln .acc, ["ae"]), (sgm .abl, ["ā"]), (plm .abl, ["īs"]),
  (sgm .loc, ["ae"]), (plm .loc, ["īs"]), (sgm .voc, ["a"]), (plm .voc, ["ae"])]

end FirstFirst

/-- Declines an adjective that follows the first declension in all genders. -/
def firstFirst (w : Lexeme) : Paradigm where
  forms := .ofList (FormMap.inflect w.stem FirstFirst.endings)
  title := some ("first-declension " ++ singular w.pos)
  subtitles := [.phrase "masculine and neuter forms identical to feminine forms"]
  categories := ["Latin first declension " ++ w.pos]

namespace SecondSecond
open Slot

def endings (greek : Bool) : Rows :=
  let (us, um, plural) := if greek then ("os", "on", "oe") else ("us", "um", "ī")
  [(sgm .nom, [us]), (sgn .nom, [um]), (plm .nom, [plural]), (pln .nom, ["a"]),
    (sgm .gen, ["ī"]), (sgn .gen, ["ī"]), (plm .gen, ["ōrum"]), (pln .gen, ["ōrum"]),
    (sgm .dat, ["ō"]), (sgn .dat, ["ō"]), (plm .dat, ["īs"]), (pln .dat, ["īs"]),
    (sgm .acc, [um]), (sgn .acc, [um]), (plm .acc, ["ōs"]), (pln .acc, ["a"]),
    (sgm .abl, ["ō"]), (sgn .abl, ["ō"]), (plm .abl, ["īs"]), (pln .abl, ["īs"]),
    (sgm .loc, ["ī"]), (sgn .loc, ["ī"]), (plm .loc, ["īs"]), (pln .loc, ["īs"]),
    (sgm .voc, ["e"]), (sgn .voc, [um]), (plm .voc, [plural]), (pln .voc, ["a"])]

end SecondSecond

/-- Declines an adjective that follows the second declension in all genders. -/
def secondSecond (w : Lexeme) : Paradigm where
  forms := .ofList (FormMap.inflect w.stem (SecondSecond.endings (w.has .greek)))
  title := some ("second-declension " ++ singular w.pos)
  subtitles := .phrase "feminine forms identical to masculine forms"
    :: if w.has .greek then [.phrase "Greek-type"] else []
  categories :=
    (if w.has .greek then ["Latin second declension " ++ w.pos ++ " with Greek declension"]
      else [])
    ++ ["Latin second declension " ++ w.pos]

end Declension.Adjective
