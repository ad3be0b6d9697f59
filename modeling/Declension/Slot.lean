/-!
The cells of a nominal paradigm. A slot is a case in a number, for adjectives also in a gender, or
a nominative written with links. The type holds the whole vocabulary of slots and nothing else.
-/
namespace Declension

inductive Case where
  | nom | gen | dat | acc | abl | voc | loc
  deriving DecidableEq, Repr

inductive Number where
  | sg | pl
  deriving DecidableEq, Repr

inductive Gender where
  | m | f | n
  deriving DecidableEq, Repr

namespace Case

def all : List Case := [nom, gen, dat, acc, abl, voc, loc]

def name : Case → String
  | nom => "nom" | gen => "gen" | dat => "dat" | acc => "acc" | abl => "abl" | voc => "voc"
  | loc => "loc"

end Case

namespace Number

def all : List Number := [sg, pl]

def name : Number → String
  | sg => "sg" | pl => "pl"

def other : Number → Number
  | sg => pl | pl => sg

end Number

namespace Gender

def all : List Gender := [m, f, n]

/-- The gender as it ends the name of a slot. -/
def name : Gender → String
  | m => "m" | f => "f" | n => "n"

/-- The gender as a trait of a word and in records. -/
def letter : Gender → String
  | m => "M" | f => "F" | n => "N"

def ofLetter? (s : String) : Option Gender := all.find? (·.letter = s)

end Gender

/-- A cell of a paradigm. -/
inductive Slot where
  | cell (c : Case) (n : Number) (g : Option Gender)
  /-- The nominative with its words linked. -/
  | linked (n : Number) (g : Option Gender)
  deriving DecidableEq, Repr

namespace Slot

def suffix : Option Gender → String
  | none => ""
  | some g => "_" ++ g.name

def name : Slot → String
  | cell c n g => c.name ++ "_" ++ n.name ++ suffix g
  | linked n g => "linked_nom_" ++ n.name ++ suffix g

def number : Slot → Number
  | cell _ n _ => n
  | linked n _ => n

def gender? : Slot → Option Gender
  | cell _ _ g => g
  | linked _ g => g

def isLinked : Slot → Bool
  | cell .. => false
  | linked .. => true

/-- Short names for the cells: number, then the gender of an adjective. -/
abbrev sg (c : Case) : Slot := cell c .sg none
abbrev pl (c : Case) : Slot := cell c .pl none
abbrev sgm (c : Case) : Slot := cell c .sg (some .m)
abbrev sgf (c : Case) : Slot := cell c .sg (some .f)
abbrev sgn (c : Case) : Slot := cell c .sg (some .n)
abbrev plm (c : Case) : Slot := cell c .pl (some .m)
abbrev plf (c : Case) : Slot := cell c .pl (some .f)
abbrev pln (c : Case) : Slot := cell c .pl (some .n)

/-- The same slot in the other number. -/
def mirror : Slot → Slot
  | cell c n g => cell c n.other g
  | linked n g => linked n.other g

/-- The slot of an agreeing adjective. -/
def agreeing (g : Gender) : Slot → Slot
  | cell c n _ => cell c n (some g)
  | linked n _ => linked n (some g)

/-- The masculine slot that stands in for a feminine or neuter one. -/
def masculine? : Slot → Option Slot
  | cell c n (some .f) | cell c n (some .n) => some (cell c n (some .m))
  | linked n (some .f) | linked n (some .n) => some (linked n (some .m))
  | _ => none

def nounCases : List Slot :=
  Case.all.flatMap fun c => Number.all.map fun n => cell c n none

def adjectiveCases : List Slot :=
  Case.all.flatMap fun c => Number.all.flatMap fun n => Gender.all.map fun g => cell c n (some g)

/-- Places each linked nominative behind the plain one it belongs to. -/
def withLinked (slots : List Slot) : List Slot :=
  slots.flatMap fun
    | cell .nom n none => [cell .nom n none, linked n none]
    | cell .nom n (some .m) => [cell .nom n (some .m), linked n (some .m)]
    | s => [s]

/-- The cells that a record can be given forms for, without the linked ones. -/
def plain (isAdj : Bool) : List Slot := if isAdj then adjectiveCases else nounCases

/-- The slots of a declined run, in order; of an adjective only the masculine nominatives are
linked. -/
def run (isAdj : Bool) : List Slot := withLinked (plain isAdj)

/-- The slots in which a lemma may stand. -/
def lemmaSlots (isAdj : Bool) : List (Number × Option Gender) :=
  if isAdj then Number.all.flatMap fun n => Gender.all.map fun g => (n, some g)
  else Number.all.map fun n => (n, none)

/-- Every slot. -/
def all : List Slot :=
  nounCases ++ Number.all.map (linked · none) ++ adjectiveCases
    ++ Number.all.flatMap fun n => Gender.all.map fun g => linked n (some g)

/-- The slot of that name. -/
def ofName? (s : String) : Option Slot := all.find? (·.name = s)

theorem mem_all (s : Slot) : s ∈ all := by
  rcases s with ⟨c, n, g⟩ | ⟨n, g⟩
  · cases c <;> cases n <;> rcases g with _ | g <;> try cases g
    all_goals decide
  · cases n <;> rcases g with _ | g <;> try cases g
    all_goals decide

@[simp] theorem number_mirror (s : Slot) : s.mirror.number = s.number.other := by
  cases s <;> rfl

@[simp] theorem mirror_mirror (s : Slot) : s.mirror.mirror = s := by
  rcases s with ⟨c, n, g⟩ | ⟨n, g⟩ <;> cases n <;> rfl

end Slot
end Declension
