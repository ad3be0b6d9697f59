import Declension.Paradigm

/-!
Nouns of the second declension: amīcus, puer, bellum, their types in -ius and -ium, and the Greek
ones. Stems in -i have two genitives; nouns in -r inflect an oblique stem.
-/
namespace Declension.Noun

namespace Second
open Slot FormMap

def basic : Rows := [
  (sg .nom, ["us"]), (sg .gen, ["ī"]), (sg .dat, ["ō"]), (sg .acc, ["um"]), (sg .abl, ["ō"]),
  (sg .voc, ["e"]), (pl .nom, ["ī"]), (pl .gen, ["ōrum"]), (pl .dat, ["īs"]),
  (pl .acc, ["ōs"]), (pl .abl, ["īs"]), (pl .voc, ["ī"])]

def neuter : Rows := [
  (sg .nom, ["um"]), (sg .voc, ["um"]), (pl .nom, ["a"]), (pl .acc, ["a"]), (pl .voc, ["a"])]

def inIum : Rows := [
  (sg .nom, ["ium"]), (sg .gen, ["iī", "ī"]), (sg .dat, ["iō"]), (sg .acc, ["ium"]),
  (sg .abl, ["iō"]), (sg .voc, ["ium"]), (pl .nom, ["ia"]), (pl .gen, ["iōrum"]),
  (pl .dat, ["iīs"]), (pl .acc, ["ia"]), (pl .abl, ["iīs"]), (pl .voc, ["ia"])]

def neuterInUsA : Rows := [
  (sg .nom, ["us"]), (sg .acc, ["us"]), (sg .voc, ["us"]), (pl .nom, ["a"]), (pl .acc, ["a"]),
  (pl .voc, ["a"])]

def inVom : Rows := [(sg .nom, ["om"]), (sg .acc, ["om"]), (sg .voc, ["om"])]

def greekNeuterInOs : Rows := [
  (sg .nom, ["os"]), (sg .acc, ["os"]), (sg .voc, ["os"]), (pl .nom, ["ē"]), (pl .gen, ["ōn"]),
  (pl .acc, ["ē"]), (pl .voc, ["ē"])]

def greekNeuterInOn : Rows := [(sg .nom, ["on"]), (sg .acc, ["on"]), (sg .voc, ["on"])]

def neuterInUs : Rows := [
  (sg .nom, ["us"]), (sg .acc, ["us"]), (sg .voc, ["us"]), (pl .nom, ["ī"]), (pl .acc, ["ōs"]),
  (pl .voc, ["ī"])]

/-- The endings of neuter types beyond those of bellum. -/
def neuterType (w : Lexeme) : Rows :=
  if w.has .ium then inIum
  else if w.has .a then neuterInUsA
  else if w.has .vom then inVom
  else if w.has .Greek && w.has .us then greekNeuterInOs
  else if w.has .Greek then greekNeuterInOn
  else if w.has .us then neuterInUs
  else []

/-- The oblique cases of nouns in -r. -/
def obliqueOfR : Rows := [
  (sg .gen, ["ī"]), (sg .dat, ["ō"]), (sg .acc, ["um"]), (sg .abl, ["ō"]), (pl .nom, ["ī"]),
  (pl .gen, ["ōrum"]), (pl .dat, ["īs"]), (pl .acc, ["ōs"]), (pl .abl, ["īs"]), (pl .voc, ["ī"])]

def inIus (voci : Bool) : Rows := [
  (sg .nom, ["ius"]), (sg .gen, ["iī", "ī"]), (sg .dat, ["iō"]), (sg .acc, ["ium"]),
  (sg .abl, ["iō"]), (sg .voc, if voci then ["ī"] else ["ie"]), (pl .nom, ["iī"]),
  (pl .gen, ["iōrum"]), (pl .dat, ["iīs"]), (pl .acc, ["iōs"]), (pl .abl, ["iīs"]),
  (pl .voc, ["iī"])]

def inVos : Rows := [(sg .nom, ["os"]), (sg .acc, ["om"])]

def greekInOs : Rows := [(sg .nom, ["os"]), (sg .acc, ["on"])]

/-- Whether the word inflects a stem in -i, told by the trait that goes with its gender. -/
def hasOldGenitive (w : Lexeme) : Bool :=
  if w.has .N then w.has .ium else !w.has .er && w.has .ius

/-- The genitive of a stem in -i where the contracted one is left out. -/
def fullGenitive : Rows := [(sg .gen, ["iī"])]

def isIStem (w : Lexeme) : Bool := w.has .ius || w.has .ium

/-- What a noun inflects on its stem. -/
def onStem (o : Options) (w : Lexeme) : Rows :=
  basic
    ++ (if w.has .N then neuter ++ neuterType w
      else if w.has .er then [(sg .nom, [""]), (sg .voc, [""])]
      else if w.has .ius then inIus (w.has .voci)
      else if w.has .vos then inVos
      else if w.has .Greek then greekInOs
      else [])
    ++ (if hasOldGenitive w && o.suppressOldGenitive then fullGenitive else [])

/-- What a noun inflects on its oblique stem. -/
def onOblique (w : Lexeme) : Rows :=
  (if !w.has .N && w.has .er then obliqueOfR else [])
    ++ (if w.has .genplum then
        [(pl .gen, if isIStem w then ["iōrum", "ium"] else ["ōrum", "um"])]
      else [])
    ++ (if w.loc then
        if isIStem w then [(sg .loc, ["iī"]), (pl .loc, ["iīs"])]
        else [(sg .loc, ["ī"]), (pl .loc, ["īs"])]
      else [])

def oldGenitiveNote : String := "Found in older Latin (until the Augustan Age)."

def contractionNote : String := "Contraction found in poetry."

def notes (o : Options) (w : Lexeme) : List (NoteKey × String) :=
  (if hasOldGenitive w && !o.suppressOldGenitive then [(.form (sg .gen) 1, oldGenitiveNote)]
    else [])
    ++ if w.has .genplum then [(.form (pl .gen) 1, contractionNote)] else []

def neuterSubtitles (w : Lexeme) : List Subtitle :=
  if w.has .ium then []
  else if w.has .a then [.phrase "nominative/accusative/vocative plural in '-a'"]
  else if w.has .vom then [.phrase "nominative singular in '-om' after 'v'"]
  else if w.has .Greek && w.has .us then
    [.phrase "Greek-type", .phrase "nominative/accusative/vocative in '-os'"]
  else if w.has .Greek then [.phrase "Greek-type"]
  else if w.has .us then [.phrase "nominative/accusative/vocative in '-us'"]
  else if w.lacks .Greek || w.lacks .us then
    [.phrase "nominative/accusative/vocative in '-um'"]
  else []

/-- Whether a stem in -r has another vowel than e before it. -/
def lacksE (stem : String) : Bool :=
  match (Text.line stem.toList).reverse with
  | 'r' :: c :: _ => c ∈ ['a', 'i', 'o', 'u', 'y']
  | _ => false

def subtitles (w : Lexeme) : List Subtitle :=
  (if w.has .N then .phrase "neuter" :: neuterSubtitles w
    else if w.has .er then
      if lacksE w.stem then [.phrase "nominative singular in '-r'"]
      else [.phrase "nominative singular in '-er'"]
    else if w.has .ius then []
    else if w.has .vos then [.phrase "nominative singular in '-os' after 'v'"]
    else remark w .Greek (.phrase "Greek-type") (.phrase "non-Greek-type"))
    ++ remark w .genplum (.pair "contracted" " genitive plural") (.pair "normal" " genitive plural")

end Second

/-- Declines a noun of the second declension. -/
def second (o : Options) (w : Lexeme) : Paradigm where
  forms := .ofList (FormMap.inflect w.stem (Second.onStem o w)
    ++ FormMap.inflect w.obliqueStem (Second.onOblique w))
  notes := .ofList (Second.notes o w)
  subtitles := Second.subtitles w

end Declension.Noun
