import Declension.Text.Scan

/-!
Traits of a word and the tags that speak of them. A tag gives a trait, vetoes one (written with a
hyphen) or says that a word lacks what a rival has (written with `not_`).
-/
namespace Declension

/-- What a tag can speak of: number, gender, and the subtypes of the declensions. -/
inductive Trait where
  | sg | pl | both | M | m | F | f | N | n | genplum | accIm | accImEm | accEmIm | accImIn
  | accImInEm | accImOccEm | ablEI | ablI | ablIE | ablEOccI | voci | abus | ubus | ium | ius
  | us | am | vos | vom | er | a | i | I | pure | par | ic | greek | Greek | greekA | greekE
  | echo | argo | Callisto | polis | on | Me | Ma | loc | lig | nocat | sufn | poeticEsi | ptc
  | Gr | gr | navis | second
  deriving DecidableEq, Repr

namespace Trait

def all : List Trait := [
  .sg, .pl, .both, .M, .m, .F, .f, .N, .n, .genplum, .accIm, .accImEm, .accEmIm, .accImIn,
  .accImInEm, .accImOccEm, .ablEI, .ablI, .ablIE, .ablEOccI, .voci, .abus, .ubus, .ium, .ius,
  .us, .am, .vos, .vom, .er, .a, .i, .I, .pure, .par, .ic, .greek, .Greek, .greekA, .greekE,
  .echo, .argo, .Callisto, .polis, .on, .Me, .Ma, .loc, .lig, .nocat, .sufn, .poeticEsi, .ptc,
  .Gr, .gr, .navis, .second]

def name : Trait → String
  | .sg => "sg" | .pl => "pl" | .both => "both" | .M => "M" | .m => "m" | .F => "F" | .f => "f"
  | .N => "N" | .n => "n" | .genplum => "genplum" | .accIm => "acc_im"
  | .accImEm => "acc_im_em" | .accEmIm => "acc_em_im" | .accImIn => "acc_im_in"
  | .accImInEm => "acc_im_in_em" | .accImOccEm => "acc_im_occ_em" | .ablEI => "abl_e_i"
  | .ablI => "abl_i" | .ablIE => "abl_i_e" | .ablEOccI => "abl_e_occ_i" | .voci => "voci"
  | .abus => "abus" | .ubus => "ubus" | .ium => "ium" | .ius => "ius" | .us => "us"
  | .am => "am" | .vos => "vos" | .vom => "vom" | .er => "er" | .a => "a" | .i => "i"
  | .I => "I" | .pure => "pure" | .par => "par" | .ic => "ic" | .greek => "greek"
  | .Greek => "Greek" | .greekA => "greekA" | .greekE => "greekE" | .echo => "echo"
  | .argo => "argo" | .Callisto => "Callisto" | .polis => "polis" | .on => "on" | .Me => "Me"
  | .Ma => "Ma" | .loc => "loc" | .lig => "lig" | .nocat => "nocat" | .sufn => "sufn"
  | .poeticEsi => "poetic_esi" | .ptc => "ptc" | .Gr => "Gr" | .gr => "gr" | .navis => "navis"
  | .second => "2nd"

/-- The traits that a word may be barred from. -/
def vetoable : List Trait := [
  .sg, .pl, .M, .F, .N, .voci, .ium, .ius, .us, .am, .vos, .vom, .er, .i, .I, .pure, .par, .ic,
  .greek, .Greek, .greekA, .greekE, .polis, .on, .Me, .Ma, .loc]

/-- The traits whose lack may be named. -/
def lackable : List Trait := [
  .both, .M, .Me, .F, .N, .genplum, .accIm, .accImEm, .accEmIm, .accImInEm, .accImIn,
  .accImOccEm, .ablEI, .ablI, .ablIE, .ablEOccI, .abus, .ubus, .ius, .us, .am, .I, .pure, .par,
  .greek, .Greek, .polis, .on, .sufn]

end Trait

inductive Tag where
  | has (t : Trait)
  | veto (t : Tag)
  | lacks (t : Tag)
  deriving DecidableEq, Repr

namespace Tag

def name : Tag → String
  | has t => t.name
  | veto t => "-" ++ t.name
  | lacks t => "not_" ++ t.name

/-- The tags that may be written or stand in a table. -/
def isKnown : Tag → Bool
  | has _ => true
  | veto (has t) => t ∈ Trait.vetoable
  | lacks (has t) => t ∈ Trait.lackable
  | lacks (veto (has t)) => t = .er || t = .N
  | _ => false

def ofChars? : List Char → Option Tag
  | '-' :: r => (ofChars? r).map veto
  | 'n' :: 'o' :: 't' :: '_' :: r => (ofChars? r).map lacks
  | s => (Trait.all.find? fun t => t.name.toList = s).map has

/-- The tag of that name, known or not. -/
def ofName? (s : String) : Option Tag := ofChars? s.toList

/-- The known tag of that name. -/
def known? (s : String) : Option Tag := (ofName? s).filter isKnown

/-- A tag as it is written after a class: hyphens within it stand for underscores. -/
def spelling (s : String) : String :=
  match s.toList with
  | '-' :: r => String.ofList ('-' :: r.map fun c => if c = '-' then '_' else c)
  | r => String.ofList (r.map fun c => if c = '-' then '_' else c)

end Tag

/-- The tags of a word; only membership counts. -/
abbrev TagSet := List Tag

namespace TagSet

/-- Whether a word has a trait. -/
def has (s : TagSet) (t : Trait) : Bool := s.contains (.has t)

/-- Whether a word is marked as lacking a trait that a rival has. -/
def lacks (s : TagSet) (t : Trait) : Bool := s.contains (.lacks (.has t))

def add (s : TagSet) (t : Tag) : TagSet := if s.contains t then s else s ++ [t]

def drop (s : TagSet) (t : Tag) : TagSet := s.filter (· ≠ t)

def ofList (l : List Tag) : TagSet := l.foldl add []

/-- The names of the tags by code point. -/
def names (s : TagSet) : List String := (s.map Tag.name).mergeSort (· ≤ ·)

end TagSet
end Declension
