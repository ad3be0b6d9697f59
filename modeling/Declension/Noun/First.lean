import Declension.Paradigm

/-!
Nouns of the first declension: puella, and the Greek types Andromachē, Aenēās and anagnōstēs.
-/
namespace Declension.Noun

namespace First
open Slot FormMap

def basic : Rows := [
  (sg .nom, ["a"]), (sg .gen, ["ae"]), (sg .dat, ["ae"]), (sg .acc, ["am"]), (sg .abl, ["ā"]),
  (sg .voc, ["a"]), (pl .nom, ["ae"]), (pl .gen, ["ārum"]), (pl .dat, ["īs"]),
  (pl .acc, ["ās"]), (pl .abl, ["īs"]), (pl .voc, ["ae"])]

def inAbus : Rows := [(pl .dat, ["ābus"]), (pl .abl, ["ābus"])]

def inAm : Rows := [
  (sg .nom, ["ām"]), (sg .acc, ["ām"]), (sg .voc, ["ām"]), (sg .abl, ["ām", "ā"])]

def greekInAs : Rows := [(sg .nom, ["ās"]), (sg .acc, ["ān"]), (sg .voc, ["ā"])]

def greekInEs : Rows := [
  (sg .nom, ["ēs"]), (sg .acc, ["ēn"]), (sg .abl, ["ē"]), (sg .voc, ["ē"])]

def greekInE : Rows := [
  (sg .nom, ["ē"]), (sg .gen, ["ēs"]), (sg .acc, ["ēn"]), (sg .abl, ["ē"]), (sg .voc, ["ē"])]

def locative : Rows := [(sg .loc, ["ae"]), (pl .loc, ["īs"])]

/-- The endings for a set of traits. -/
def endings (w : Lexeme) : Rows :=
  basic
    ++ (if w.has .abus then inAbus else [])
    ++ (if w.has .am then inAm
      else if !w.has .Greek then []
      else if w.has .Ma then greekInAs
      else if w.has .Me then greekInEs
      else greekInE)
    ++ (if w.loc then locative else [])

def greekSubtitle (w : Lexeme) : Subtitle :=
  if w.has .Ma then .phrase "masculine Greek-type with nominative singular in '-ās'"
  else if w.has .Me then .phrase "masculine Greek-type with nominative singular in '-ēs'"
  else .phrase "Greek-type"

def subtitles (w : Lexeme) : List Subtitle :=
  remark w .abus (.pair "dative/ablative plural in " "'-ābus'")
      (.pair "dative/ablative plural in " "'-īs'")
    ++ if w.has .am then [.pair "nominative/vocative singular in " "'-ām'"]
      else if w.has .Greek then [greekSubtitle w]
      else if w.lacks .Greek then [.phrase "non-Greek-type"]
      else if w.lacks .am then [.pair "nominative/vocative singular in " "'-a'"]
      else []

end First

/-- Declines a noun of the first declension. -/
def first (w : Lexeme) : Paradigm where
  forms := .ofList (FormMap.inflect w.stem (First.endings w))
  subtitles := First.subtitles w

end Declension.Noun
