import Declension.Json

/-!
The switches of the declension engine.
-/
namespace Declension

structure Options where
  /-- Keep feminine and neuter slots that equal the masculine ones. -/
  populateAllTerminations : Bool := false
  /-- Leave out the contracted genitive in -ī of second-declension stems in -i. -/
  suppressOldGenitive : Bool := false
  /-- Leave out the accusative plural in -īs of non-neuter i-stems. -/
  suppressNonNeuterIStemAccIs : Bool := false
  /-- Give participles only -e and adjectives only -ī in the ablative. -/
  suppressAdjPtcForms : Bool := false
  deriving DecidableEq, Repr

namespace Options

def truthWords : List String := ["1", "on", "t", "true", "y", "yes"]

def falsehoodWords : List String := ["0", "off", "f", "false", "n", "no"]

/-- A switch: a truth value, the number 1 or 0, or a word for one of them in any case. -/
def switch? : Json → Option Bool
  | .bool b => some b
  | .num 1 => some true
  | .num 0 => some false
  | .str s =>
    let word := String.ofList (s.toList.map Char.toLower)
    if word ∈ truthWords then some true
    else if word ∈ falsehoodWords then some false
    else none
  | _ => none

/-- Why a document holds no options. -/
inductive Fault where
  | notAnObject
  | invalid
  deriving DecidableEq, Repr

def switchOf (members : List (String × Json)) (name : String) : Except Fault Bool :=
  match members.lookup name with
  | none => .ok false
  | some v =>
    match switch? v with
    | some b => .ok b
    | none => .error .invalid

/-- The options of a document. An absent document gives the defaults, unknown members are passed
over. -/
def ofJson (v : Json) : Except Fault Options :=
  if v.isVoid then .ok {}
  else match v with
    | .obj members => do
      let populate ← switchOf members "populate_all_terminations"
      let oldGenitive ← switchOf members "suppress_old_genitive"
      let accIs ← switchOf members "suppress_non_neuter_i_stem_acc_is"
      let adjPtc ← switchOf members "suppress_adj_ptc_forms"
      .ok ⟨populate, oldGenitive, accIs, adjPtc⟩
    | _ => .error .notAnObject

end Options
end Declension
