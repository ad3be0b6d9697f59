import Declension.Tables

/-!
What the ending of a lemma tells: its stems, its class, and the traits that come with the ending.
A table is walked from the top, and the first entry that the written tags admit and that the word
fits decides.
-/
namespace Declension

structure Classification where
  stem : String
  oblique : Option String
  decl : String
  tags : List Tag
  deriving DecidableEq, Repr

/-- A text that is there and not empty. -/
def given (s : Option String) : Option String := s.filter (· ≠ "")

namespace Tables

/-- A guess of the oblique stem: the first pattern that ends the word decides. -/
def guessOblique (t : Tables) (word : String) : String :=
  match t.obliquePatterns.find? fun (ending, _) => Text.endsIn ending word with
  | some (ending, instead) =>
    String.ofList (word.toList.take (word.toList.length - ending.toList.length)) ++ instead
  | none => word

end Tables

namespace EndingEntry

/-- Plural lemmas are read by plural entries only. -/
def missesPlural (e : EndingEntry) (written : TagSet) : Bool :=
  written.has .pl && !e.tags.contains (.has .pl)

/-- Whether a trait of a noun entry goes against the written tags. -/
def nounClash (written : TagSet) (t : Tag) : Bool :=
  written.contains (.veto t)
    || (t = .has .N && (written.has .M || written.has .F))
    || ((t = .has .M || t = .has .F) && written.has .N)
    || (t = .has .sg && written.has .pl)
    || (t = .has .pl && written.has .sg)

def nounExcluded (e : EndingEntry) (written : TagSet) : Bool :=
  e.missesPlural written || e.tags.any (nounClash written)

/-- Whether a tag of an adjective entry goes against the written tags. An entry may itself bar a
tag from being written. -/
def adjectiveClash (written : TagSet) (t : Tag) : Bool :=
  written.contains (.veto t) || match t with
    | .veto barred => written.contains barred
    | _ => false

def adjectiveExcluded (e : EndingEntry) (written : TagSet) : Bool :=
  e.missesPlural written || e.tags.any (adjectiveClash written)

/-- Whether the oblique stem is what the entry wants beside this base. -/
def wantsOblique (e : EndingEntry) (base : String) (oblique : Option String) : Bool :=
  match e.obliqueTail with
  | none => true
  | some tail => some (base ++ tail) = oblique

/-- The base that a noun entry finds in a word; it is never empty. -/
def nounBase? (e : EndingEntry) (word : String) (oblique : Option String) (written : TagSet) :
    Option String :=
  if e.nounExcluded written then none
  else ((e.ending.base? word).filter (· ≠ "")).filter (e.wantsOblique · oblique)

/-- The base that an adjective entry finds in a word; an empty one asks for no oblique stem. -/
def adjectiveBase? (e : EndingEntry) (word : String) (oblique : Option String)
    (written : TagSet) : Option String :=
  if e.adjectiveExcluded written then none
  else (e.ending.base? word).filter fun base => base = "" || e.wantsOblique base oblique

end EndingEntry

/-- The first entry with a base, and that base. -/
def firstWithBase (base? : EndingEntry → Option String) :
    List EndingEntry → Option (EndingEntry × String)
  | [] => none
  | e :: rest =>
    match base? e with
    | some base => some (e, base)
    | none => firstWithBase base? rest

/-- Walks a noun table. -/
def matchNoun (entries : List EndingEntry) (word : String) (oblique : Option String)
    (written : TagSet) : Option (String × List Tag) :=
  (firstWithBase (·.nounBase? word oblique written) entries).map fun (e, base) => (base, e.tags)

/-- Walks an adjective table; `fallback` is the class if neither entry nor table names one. -/
def matchAdjective (t : Tables) (table : EndingTable) (word : String) (oblique : Option String)
    (fallback : String) (written : TagSet) : Option Classification :=
  (firstWithBase (·.adjectiveBase? word oblique written) table.entries).map fun (e, base) =>
    let (stem, found) := match e.deriver with
      | some d => d.derive base oblique
      | none => (base, oblique)
    let oblique := match table.obliqueRule with
      | some .base => some ((given found).getD stem)
      | some .guess => some ((given found).getD (t.guessOblique stem))
      | none => found
    let decl := (given e.decl <|> given table.decl).getD fallback
    let tags := e.tags.filter fun
      | .veto _ => false
      | _ => true
    ⟨stem, oblique, decl, tags⟩

namespace Tables

/-- The stems of a plural noun of the third declension that is told by its ending alone. Its
oblique stem stands in for the missing nominative singular. -/
def pluralStem (word : String) (oblique : Option String) (ending : String) (tags : List Tag) :
    Option Classification :=
  (Text.before ending word).map fun base =>
    let stem := (given oblique).getD base
    ⟨stem, some stem, "3", tags⟩

def classifyGreekPlural (word : String) (oblique : Option String) :
    Except Fault Classification :=
  match Text.before "erēs" word, Text.before "ontēs" word, pluralStem word oblique "es" [] with
  | some base, _, _ => .ok ⟨base ++ "ēr", some (base ++ "er"), "3", [.has .er]⟩
  | none, some base, _ => .ok ⟨base ++ "ōn", some (base ++ "ont"), "3", [.has .on]⟩
  | none, none, some found => .ok found
  | none, none, none => .error (.endingNotGreekPlural word)

def classifyThirdPlural (word : String) (oblique : Option String) (written : TagSet) :
    Except Fault Classification :=
  if written.has .Greek then classifyGreekPlural word oblique
  else
    match pluralStem word oblique "ia" [.has .N, .has .I, .has .pure]
      <|> pluralStem word oblique "a" [.has .N] <|> pluralStem word oblique "ēs" [] with
    | some found => .ok found
    | none => .error (.endingNotPlural word)

/-- The traits that a noun table gives, none if no entry applies. -/
def traitsFrom (table : EndingTable) (word : String) (oblique : String) (written : TagSet) :
    List Tag :=
  ((matchNoun table.entries word (some oblique) written).map (·.2)).getD []

def classifyThird (t : Tables) (word : String) (oblique : Option String) (written : TagSet) :
    Except Fault Classification :=
  if written.has .pl then classifyThirdPlural word oblique written
  else do
    let stem2 := (given oblique).getD (t.guessOblique word)
    if written.has .Greek then
      let table ← t.nounTable "3-greek"
      return ⟨word, some stem2, "3", traitsFrom table word stem2 written⟩
    if !written.has .N then
      let table ← t.nounTable "3-non-neuter"
      if let some (_, tags) := matchNoun table.entries word (some stem2) written then
        return ⟨word, some stem2, "3", tags⟩
    let table ← t.nounTable "3-neuter"
    return ⟨word, some stem2, "3", traitsFrom table word stem2 written⟩

/-- Reads a word by the noun table of its class. -/
def classifyByTable (t : Tables) (word : String) (oblique : Option String) (decl : String)
    (written : TagSet) : Except Fault (String × List Tag) := do
  let table ← t.nounTable decl
  match matchNoun table.entries word oblique written with
  | some found => .ok found
  | none => .error (.nounEnding decl word)

/-- Greek nouns in -ō that follow the fourth declension. -/
def classifyLongO (word : String) (written : TagSet) : Except Fault Classification :=
  match Text.before "ō" word with
  | some base =>
    let tags := if written.has .Callisto then [.has .F, .has .sg] else [.has .F]
    .ok ⟨base, none, "4", tags⟩
  | none => .error (.endingNotLongO word)

/-- What the ending of a noun tells within its class. -/
def classifyNoun (t : Tables) (word : String) (oblique : Option String) (decl : String)
    (written : TagSet) : Except Fault Classification :=
  if decl = "2" then do
    let (base, tags) ← t.classifyByTable word oblique decl written
    return ⟨base, some ((given oblique).getD base), decl, tags⟩
  else if decl = "3" then t.classifyThird word oblique written
  else if decl = "4" && (written.has .echo || written.has .argo || written.has .Callisto) then
    classifyLongO word written
  else if decl = "1" || decl = "4" || decl = "5" then do
    let (base, tags) ← t.classifyByTable word oblique decl written
    return ⟨base, oblique, decl, tags⟩
  else if decl = "indecl" then .ok ⟨word, none, decl, [.has .sg]⟩
  else if decl = "irreg" then
    .ok ⟨word, none, decl, (t.irregularNounTags.get? word).getD []⟩
  else .ok ⟨word, none, decl, []⟩

/-- Whether a text before the plus sign names a class; any other is a trait given as a hint. -/
def namesClass (decl : String) : Bool :=
  ["0", "1", "2", "3", "irreg"].any (Text.startsWith · decl)

/-- Reads an adjective whose class is still open: by the first and second declension if that
leaves a stem, else by the third. -/
def guessAdjective (t : Tables) (word : String) (oblique : Option String) (written : TagSet) :
    Except Fault Classification := do
  let table ← t.adjectiveTable "1&2"
  let found := matchAdjective t table word oblique "" written
  match found.filter (·.stem ≠ "") with
  | some c => .ok c
  | none =>
    let table ← t.adjectiveTable "3"
    match matchAdjective t table word oblique "" written with
    | some c => .ok c
    | none => .error (.adjectiveEnding word)

/-- What the ending of an adjective tells. The class may be left open, and a trait may stand in
its place as a hint. -/
def classifyAdjective (t : Tables) (word : String) (oblique : Option String) (decl : String)
    (written : TagSet) : Except Fault Classification :=
  if decl = "" then t.guessAdjective word oblique written
  else if !namesClass decl then
    match Tag.ofName? decl with
    | some hint => t.guessAdjective word oblique (written.add hint)
    | none => t.guessAdjective word oblique written
  else if decl = "0" then .ok ⟨word, none, "0", []⟩
  else do
    let key := if t.adjectiveEndings.contains decl then decl else "default"
    let table ← t.adjectiveTable key
    match matchAdjective t table word oblique decl written with
    | some c => .ok c
    | none => .error (.adjectiveEndingIn decl word)

end Tables
end Declension
