import Declension.Paradigm

/-!
Nouns of the fourth and fifth declensions: frūctus, cornū, the Greek types in -ō, and rēs.
-/
namespace Declension.Noun

namespace Fourth
open Slot FormMap

def basic : Rows := [
  (sg .nom, ["us"]), (sg .gen, ["ūs"]), (sg .dat, ["uī"]), (sg .acc, ["um"]), (sg .abl, ["ū"]),
  (sg .voc, ["us"]), (pl .nom, ["ūs"]), (pl .gen, ["uum"]), (pl .dat, ["ibus"]),
  (pl .acc, ["ūs"]), (pl .abl, ["ibus"]), (pl .voc, ["ūs"])]

def echo : Rows := [(sg .nom, ["ō"]), (sg .voc, ["ō"])]

def argo : Rows := [(sg .nom, ["ō"]), (sg .acc, ["ō"]), (sg .abl, ["uī"]), (sg .voc, ["ō"])]

def callisto : Rows := [
  (sg .nom, ["ō"]), (sg .dat, ["ō"]), (sg .acc, ["ō"]), (sg .abl, ["ō"]), (sg .voc, ["ō"])]

def neuter : Rows := [
  (sg .nom, ["ū"]), (sg .dat, ["ū"]), (sg .acc, ["ū"]), (sg .voc, ["ū"]), (pl .nom, ["ua"]),
  (pl .acc, ["ua"]), (pl .voc, ["ua"])]

def inUbus : Rows := [(pl .dat, ["ubus"]), (pl .abl, ["ubus"])]

def endings (w : Lexeme) : Rows :=
  basic
    ++ (if w.has .echo then echo
      else if w.has .argo then argo
      else if w.has .Callisto then callisto
      else [])
    ++ (if w.has .N then neuter else [])
    ++ (if w.has .ubus then inUbus else [])

/-- The locative is the ablative. -/
def addLocative (m : FormMap) : FormMap :=
  (m.insert (sg .loc) (m.forms (sg .abl))).insert (pl .loc) (m.forms (pl .abl))

def subtitles (w : Lexeme) : List Subtitle :=
  (if w.has .echo then [.phrase "nominative/vocative singular in '-ō'"]
    else if w.has .argo then
      [.phrase "nominative/accusative/vocative singular in '-ō', ablative singular in '-uī'"]
    else if w.has .Callisto then [.phrase "all cases except the genitive singular in '-ō'"]
    else [])
    ++ (if w.has .N then [.phrase "neuter"] else [])
    ++ remark w .ubus (.pair "dative/ablative plural in " "'-ubus'")
      (.pair "dative/ablative plural in " "'-ibus'")

end Fourth

/-- Declines a noun of the fourth declension. -/
def fourth (w : Lexeme) : Paradigm where
  forms :=
    let m := .ofList (FormMap.inflect w.stem (Fourth.endings w))
    if w.loc then Fourth.addLocative m else m
  subtitles := Fourth.subtitles w

namespace Fifth
open Slot FormMap

def basic : Rows := [
  (sg .nom, ["ēs"]), (sg .gen, ["eī"]), (sg .dat, ["eī"]), (sg .acc, ["em"]), (sg .abl, ["ē"]),
  (sg .voc, ["ēs"]), (pl .nom, ["ēs"]), (pl .gen, ["ērum"]), (pl .dat, ["ēbus"]),
  (pl .acc, ["ēs"]), (pl .abl, ["ēbus"]), (pl .voc, ["ēs"])]

def afterI : Rows := [(sg .gen, ["ēī"]), (sg .dat, ["ēī"])]

def locative : Rows := [(sg .loc, ["ē"]), (pl .loc, ["ēbus"])]

def endings (w : Lexeme) : Rows :=
  basic ++ (if w.has .i then afterI else []) ++ if w.loc then locative else []

def stem (w : Lexeme) : String := if w.has .i then w.stem ++ "i" else w.stem

end Fifth

/-- Declines a noun of the fifth declension. -/
def fifth (w : Lexeme) : Paradigm where
  forms := .ofList (FormMap.inflect (Fifth.stem w) (Fifth.endings w))

end Declension.Noun
