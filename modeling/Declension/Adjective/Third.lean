import Declension.Adjective.Title

/-!
Adjectives of the third declension: of one termination (fēlīx), of two (omnis) and of three
(ācer), comparatives and participles.
-/
namespace Declension.Adjective

namespace ThirdOne
open Slot FormMap

/-- The cells of the nominative's form. -/
def direct : List Slot := [sgm .nom, sgm .voc, sgn .nom, sgn .voc, sgn .acc]

def oblique : Rows := [
  (plm .nom, ["ēs"]), (pln .nom, ["ia"]), (sgm .gen, ["is"]), (sgn .gen, ["is"]),
  (plm .gen, ["ium"]), (pln .gen, ["ium"]), (sgm .dat, ["ī"]), (sgn .dat, ["ī"]),
  (plm .dat, ["ibus"]), (pln .dat, ["ibus"]), (sgm .acc, ["em"]), (plm .acc, ["ēs"]),
  (pln .acc, ["ia"]), (sgm .abl, ["ī"]), (sgn .abl, ["ī"]), (plm .abl, ["ibus"]),
  (pln .abl, ["ibus"]), (sgm .loc, ["ī"]), (sgn .loc, ["ī"]), (plm .loc, ["ibus"]),
  (pln .loc, ["ibus"]), (plm .voc, ["ēs"]), (pln .voc, ["ia"])]

def parisyllabic : Rows := [
  (pln .nom, ["a"]), (plm .gen, ["um"]), (pln .gen, ["um"]), (sgm .abl, ["e"]),
  (sgn .abl, ["e"]), (sgm .loc, ["ī", "e"]), (sgn .loc, ["ī", "e"]), (pln .acc, ["a"]),
  (pln .voc, ["a"])]

/-- The cells that keep the short ending of a Greek word in -ēs. -/
def greekCells : List Slot := [sgn .nom, sgn .acc, sgm .voc, sgn .voc]

/-- Whether a word is the oblique stem with -ēs. -/
def isInEs (w : Lexeme) : Bool := Text.before "ēs" w.stem = some w.obliqueStem

def forms (w : Lexeme) : Rows :=
  direct.map (fun s => (s, [w.stem]))
    ++ inflect w.obliqueStem oblique
    ++ (if w.has .par then inflect w.obliqueStem parisyllabic else [])
    ++ if isInEs w && w.has .greek then
        inflect w.obliqueStem (greekCells.map fun s => (s, ["es", "ēs"]))
      else []

def shortEndingNote : String :=
  "It is unknown if Classical Latin preserved (or would have preserved) "
    ++ "the shortness of the original Greek short ending."

def notes (w : Lexeme) : List (NoteKey × String) :=
  if isInEs w && w.has .greek then greekCells.map fun s => (.form s 0, shortEndingNote) else []

def subtitles (w : Lexeme) : List Subtitle :=
  remark w .par (.phrase "non-i-stem") (.phrase "i-stem")
    ++ if isInEs w then remark w .greek (.phrase "Greek-type") (.phrase "non-Greek-type") else []

def categories (pos : String) : List String :=
  ["Latin third declension " ++ pos, "Latin third declension " ++ pos ++ " of one termination"]

end ThirdOne

/-- Declines a third-declension adjective of one termination. -/
def thirdOne (w : Lexeme) : Paradigm where
  forms := .ofList (ThirdOne.forms w)
  notes := .ofList (ThirdOne.notes w)
  title := some (thirdTitle w "one")
  subtitles := ThirdOne.subtitles w
  categories := ThirdOne.categories w.pos

namespace Comparative
open Slot

/-- The comparative as a word of one termination: fortior on the stem fortiōr-. -/
def asThirdOne (w : Lexeme) : Lexeme :=
  { w with stem := w.stem ++ "or", oblique := some (w.stem ++ "ōr"), tags := w.tags.add (.has .par) }

def neuter (stem : String) : Rows := [
  (sgn .nom, [stem ++ "us"]), (sgn .acc, [stem ++ "us"]), (sgn .voc, [stem ++ "us"])]

end Comparative

/-- Declines a comparative. -/
def comparative (w : Lexeme) : Paradigm where
  forms := .ofList (ThirdOne.forms (Comparative.asThirdOne w) ++ Comparative.neuter w.stem)
  notes := .ofList (ThirdOne.notes (Comparative.asThirdOne w))
  title := some ("third-declension comparative " ++ singular w.pos)
  categories := ThirdOne.categories w.pos

namespace Participle
open Slot

/-- The ablative tells participles from adjectives. -/
def ablative (o : Options) (w : Lexeme) : List String :=
  if !o.suppressAdjPtcForms then ["e", "ī"] else if w.has .ptc then ["e"] else ["ī"]

def endings (o : Options) (w : Lexeme) : Rows := [
  (sgm .abl, ablative o w), (sgn .abl, ablative o w), (plm .acc, ["ēs", "īs"])]

def ablativeNote : String := "When used purely as an adjective."

def notes (o : Options) : List (NoteKey × String) :=
  if o.suppressAdjPtcForms then []
  else [(.form (sgm .abl) 1, ablativeNote), (.form (sgn .abl) 1, ablativeNote)]

end Participle

/-- Declines a participle in -ns. -/
def participle (o : Options) (w : Lexeme) : Paradigm where
  forms := .ofList (ThirdOne.forms w ++ FormMap.inflect w.obliqueStem (Participle.endings o w))
  notes := .ofList (ThirdOne.notes w ++ Participle.notes o)
  title := some "third-declension participle"
  subtitles := ThirdOne.subtitles w
  categories := ThirdOne.categories w.pos

namespace ThirdTwo
open Slot

def endings : Rows := [
  (sgm .nom, ["is"]), (sgn .nom, ["e"]), (plm .nom, ["ēs"]), (pln .nom, ["ia"]),
  (sgm .gen, ["is"]), (sgn .gen, ["is"]), (plm .gen, ["ium"]), (pln .gen, ["ium"]),
  (sgm .dat, ["ī"]), (sgn .dat, ["ī"]), (plm .dat, ["ibus"]), (pln .dat, ["ibus"]),
  (sgm .acc, ["em"]), (sgn .acc, ["e"]), (plm .acc, ["ēs", "īs"]), (pln .acc, ["ia"]),
  (sgm .abl, ["ī"]), (sgn .abl, ["ī"]), (plm .abl, ["ibus"]), (pln .abl, ["ibus"]),
  (sgm .loc, ["ī"]), (sgn .loc, ["ī"]), (plm .loc, ["ibus"]), (pln .loc, ["ibus"]),
  (sgm .voc, ["is"]), (sgn .voc, ["e"]), (plm .voc, ["ēs"]), (pln .voc, ["ia"])]

end ThirdTwo

/-- Declines a third-declension adjective of two terminations. -/
def thirdTwo (w : Lexeme) : Paradigm where
  forms := .ofList (FormMap.inflect w.stem ThirdTwo.endings)
  title := some (thirdTitle w "two")
  categories := ["Latin third declension " ++ w.pos,
    "Latin third declension " ++ w.pos ++ " of two terminations"]

namespace ThirdThree
open Slot

def nominatives : Rows := [
  (sgf .nom, ["is"]), (sgn .nom, ["e"]), (plm .nom, ["ēs"]), (plf .nom, ["ēs"]),
  (pln .nom, ["ia"]), (sgf .voc, ["is"]), (sgn .voc, ["e"]), (plm .voc, ["ēs"]),
  (plf .voc, ["ēs"]), (pln .voc, ["ia"])]

/-- The cases in which the genders agree. -/
def common : Rows :=
  Gender.all.flatMap fun g => [
    (cell .gen .sg (some g), ["is"]), (cell .gen .pl (some g), ["ium"]),
    (cell .dat .sg (some g), ["ī"]), (cell .dat .pl (some g), ["ibus"]),
    (cell .abl .sg (some g), ["ī"]), (cell .abl .pl (some g), ["ibus"]),
    (cell .loc .sg (some g), ["ī"]), (cell .loc .pl (some g), ["ibus"])]

def accusatives : Rows := [
  (sgm .acc, ["em"]), (sgf .acc, ["em"]), (sgn .acc, ["e"]), (plm .acc, ["ēs"]),
  (plf .acc, ["ēs"]), (pln .acc, ["ia"])]

end ThirdThree

/-- Declines a third-declension adjective of three terminations. -/
def thirdThree (w : Lexeme) : Paradigm where
  forms := .ofList ([(Slot.sgm .nom, [w.stem]), (Slot.sgm .voc, [w.stem])]
    ++ FormMap.inflect w.obliqueStem
      (ThirdThree.nominatives ++ ThirdThree.common ++ ThirdThree.accusatives))
  title := some (thirdTitle w "three")
  categories := ["Latin third declension " ++ w.pos,
    "Latin third declension " ++ w.pos ++ " of three terminations"]

end Declension.Adjective
