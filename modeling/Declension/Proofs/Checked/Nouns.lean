import Declension.Noun
import Declension.Proofs.Checked.Paradigms

/-!
# Nouns written under names

What each class of nouns writes, row by row under the names of slots, on a sheet that could hold any
name. Main statement: `noun_refines`, by which the sheet comes out as the forms of the noun.
-/
namespace Declension.Checked

/-- Names of slots with endings, or with forms, in the order in which they are written. -/
abbrev NamedRows := List (String × List String)

/-- The rows with every ending put on a stem. -/
def inflected (stem : String) (rows : NamedRows) : NamedRows :=
  rows.map fun row => (row.1, row.2.map (stem ++ ·))

@[simp] theorem names_nil : names ([] : List (Slot × List String)) = [] := rfl

@[simp] theorem inflected_nil (stem : String) : inflected stem [] = [] := rfl

theorem names_cons {slot : Slot} {name : String} (h : slot.name = name) (forms : List String)
    (rows : Rows) : names ((slot, forms) :: rows) = (name, forms) :: names rows := by
  rw [names, List.map_cons, h]
  rfl

theorem names_pair {slot slot' : Slot} {name name' : String} (h : slot.name = name)
    (h' : slot'.name = name') (forms forms' : List String) :
    names [(slot, forms), (slot', forms')] = [(name, forms), (name', forms')] := by
  rw [names_cons h, names_cons h']
  rfl

theorem names_const (slots : List Slot) (forms : List String) :
    names (slots.map fun slot => (slot, forms)) =
      (slots.map Slot.name).map fun name => (name, forms) := by
  simp [names]

theorem names_inflect (stem : String) (rows : Rows) :
    names (FormMap.inflect stem rows) = inflected stem (names rows) := by
  simp [names, FormMap.inflect, inflected]

theorem inflected_append (stem : String) (rows more : NamedRows) :
    inflected stem (rows ++ more) = inflected stem rows ++ inflected stem more :=
  List.map_append

/-- The forms entered under a name; a name that is not there has none. -/
def formsOr (m : NamedSheet) (name : String) : Except Crash (List String) :=
  match m.get? name with
  | none => .ok []
  | some forms => present forms

theorem formsOr_sheet (m : FormMap) (slot : Slot) {name : String} (h : slot.name = name) :
    formsOr (sheet m) name = .ok (m.forms slot) := by
  rw [← h, formsOr, get?_sheet, FormMap.forms]
  cases m.get? slot <;> rfl

theorem value_sheet {m : FormMap} {slot : Slot} {forms : List String}
    (hforms : m.get? slot = some forms) {name : String} (h : slot.name = name) :
    value (sheet m) name = .ok (some forms) := by
  rw [← h]
  apply value_eq_ok
  rw [get?_sheet, hforms, Option.map_some]

theorem write_named (m : FormMap) (slot : Slot) {name : String} (h : slot.name = name)
    (forms : List String) : write (sheet m) name forms = .ok (sheet (m.insert slot forms)) :=
  h ▸ write_sheet m slot forms

theorem fill_names {rows : Rows} {named : NamedRows} (h : names rows = named) :
    fill ∅ named = .ok (sheet (.ofList rows)) :=
  h ▸ fill_sheet ∅ rows

namespace First

def basic : NamedRows := [
  ("nom_sg", ["a"]), ("gen_sg", ["ae"]), ("dat_sg", ["ae"]), ("acc_sg", ["am"]),
  ("abl_sg", ["ā"]), ("voc_sg", ["a"]), ("nom_pl", ["ae"]), ("gen_pl", ["ārum"]),
  ("dat_pl", ["īs"]), ("acc_pl", ["ās"]), ("abl_pl", ["īs"]), ("voc_pl", ["ae"])]

def inAbus : NamedRows := [("dat_pl", ["ābus"]), ("abl_pl", ["ābus"])]

def inAm : NamedRows := [
  ("nom_sg", ["ām"]), ("acc_sg", ["ām"]), ("voc_sg", ["ām"]), ("abl_sg", ["ām", "ā"])]

def greekInAs : NamedRows := [("nom_sg", ["ās"]), ("acc_sg", ["ān"]), ("voc_sg", ["ā"])]

def greekInEs : NamedRows := [
  ("nom_sg", ["ēs"]), ("acc_sg", ["ēn"]), ("abl_sg", ["ē"]), ("voc_sg", ["ē"])]

def greekInE : NamedRows := [
  ("nom_sg", ["ē"]), ("gen_sg", ["ēs"]), ("acc_sg", ["ēn"]), ("abl_sg", ["ē"]),
  ("voc_sg", ["ē"])]

def locative : NamedRows := [("loc_sg", ["ae"]), ("loc_pl", ["īs"])]

theorem names_rows :
    names Noun.First.basic = basic ∧ names Noun.First.inAbus = inAbus ∧
      names Noun.First.inAm = inAm ∧ names Noun.First.greekInAs = greekInAs ∧
      names Noun.First.greekInEs = greekInEs ∧ names Noun.First.greekInE = greekInE ∧
      names Noun.First.locative = locative :=
  ⟨rfl, rfl, rfl, rfl, rfl, rfl, rfl⟩

end First

def first (w : Lexeme) : NamedRows :=
  inflected w.stem <|
    First.basic
      ++ (if w.has .abus then First.inAbus else [])
      ++ (if w.has .am then First.inAm
        else if w.has .Greek then
          if w.has .Ma then First.greekInAs
          else if w.has .Me then First.greekInEs
          else First.greekInE
        else [])
      ++ if w.loc then First.locative else []

theorem names_first (w : Lexeme) :
    names (FormMap.inflect w.stem (Noun.First.endings w)) = first w := by
  rw [names_inflect, first, Noun.First.endings]
  cases w.has .Greek <;> simp [names_append, apply_ite names, First.names_rows]

namespace Second

def basic : NamedRows := [
  ("nom_sg", ["us"]), ("gen_sg", ["ī"]), ("dat_sg", ["ō"]), ("acc_sg", ["um"]),
  ("abl_sg", ["ō"]), ("voc_sg", ["e"]), ("nom_pl", ["ī"]), ("gen_pl", ["ōrum"]),
  ("dat_pl", ["īs"]), ("acc_pl", ["ōs"]), ("abl_pl", ["īs"]), ("voc_pl", ["ī"])]

def neuter : NamedRows := [
  ("nom_sg", ["um"]), ("voc_sg", ["um"]), ("nom_pl", ["a"]), ("acc_pl", ["a"]),
  ("voc_pl", ["a"])]

def inIum : NamedRows := [
  ("nom_sg", ["ium"]), ("gen_sg", ["iī", "ī"]), ("dat_sg", ["iō"]), ("acc_sg", ["ium"]),
  ("abl_sg", ["iō"]), ("voc_sg", ["ium"]), ("nom_pl", ["ia"]), ("gen_pl", ["iōrum"]),
  ("dat_pl", ["iīs"]), ("acc_pl", ["ia"]), ("abl_pl", ["iīs"]), ("voc_pl", ["ia"])]

def neuterInUsA : NamedRows := [
  ("nom_sg", ["us"]), ("acc_sg", ["us"]), ("voc_sg", ["us"]), ("nom_pl", ["a"]),
  ("acc_pl", ["a"]), ("voc_pl", ["a"])]

def inVom : NamedRows := [("nom_sg", ["om"]), ("acc_sg", ["om"]), ("voc_sg", ["om"])]

def greekNeuterInOs : NamedRows := [
  ("nom_sg", ["os"]), ("acc_sg", ["os"]), ("voc_sg", ["os"]), ("nom_pl", ["ē"]),
  ("gen_pl", ["ōn"]), ("acc_pl", ["ē"]), ("voc_pl", ["ē"])]

def greekNeuterInOn : NamedRows := [("nom_sg", ["on"]), ("acc_sg", ["on"]), ("voc_sg", ["on"])]

def neuterInUs : NamedRows := [
  ("nom_sg", ["us"]), ("acc_sg", ["us"]), ("voc_sg", ["us"]), ("nom_pl", ["ī"]),
  ("acc_pl", ["ōs"]), ("voc_pl", ["ī"])]

def obliqueOfR : NamedRows := [
  ("gen_sg", ["ī"]), ("dat_sg", ["ō"]), ("acc_sg", ["um"]), ("abl_sg", ["ō"]),
  ("nom_pl", ["ī"]), ("gen_pl", ["ōrum"]), ("dat_pl", ["īs"]), ("acc_pl", ["ōs"]),
  ("abl_pl", ["īs"]), ("voc_pl", ["ī"])]

def inIus (voci : Bool) : NamedRows := [
  ("nom_sg", ["ius"]), ("gen_sg", ["iī", "ī"]), ("dat_sg", ["iō"]), ("acc_sg", ["ium"]),
  ("abl_sg", ["iō"]), ("voc_sg", if voci then ["ī"] else ["ie"]), ("nom_pl", ["iī"]),
  ("gen_pl", ["iōrum"]), ("dat_pl", ["iīs"]), ("acc_pl", ["iōs"]), ("abl_pl", ["iīs"]),
  ("voc_pl", ["iī"])]

def inVos : NamedRows := [("nom_sg", ["os"]), ("acc_sg", ["om"])]

def greekInOs : NamedRows := [("nom_sg", ["os"]), ("acc_sg", ["on"])]

/-- The full genitive alone, where the contracted one is left out. -/
def oldGenitive (o : Options) (stem : String) : NamedRows :=
  if o.suppressOldGenitive then inflected stem [("gen_sg", ["iī"])] else []

def neuterType (o : Options) (w : Lexeme) : NamedRows :=
  if w.has .ium then inflected w.stem inIum ++ oldGenitive o w.stem
  else if w.has .a then inflected w.stem neuterInUsA
  else if w.has .vom then inflected w.stem inVom
  else if w.has .Greek && w.has .us then inflected w.stem greekNeuterInOs
  else if w.has .Greek then inflected w.stem greekNeuterInOn
  else if w.has .us then inflected w.stem neuterInUs
  else []

theorem names_rows :
    names Noun.Second.basic = basic ∧ names Noun.Second.neuter = neuter ∧
      names Noun.Second.inIum = inIum ∧ names Noun.Second.neuterInUsA = neuterInUsA ∧
      names Noun.Second.inVom = inVom ∧ names Noun.Second.greekNeuterInOs = greekNeuterInOs ∧
      names Noun.Second.greekNeuterInOn = greekNeuterInOn ∧
      names Noun.Second.neuterInUs = neuterInUs ∧ names Noun.Second.obliqueOfR = obliqueOfR ∧
      (∀ voci, names (Noun.Second.inIus voci) = inIus voci) ∧
      names Noun.Second.inVos = inVos ∧ names Noun.Second.greekInOs = greekInOs :=
  ⟨rfl, rfl, rfl, rfl, rfl, rfl, rfl, rfl, rfl, fun voci => by cases voci <;> rfl, rfl, rfl⟩

theorem names_single_rows :
    names Noun.Second.fullGenitive = [("gen_sg", ["iī"])] ∧
      names [(Slot.sg .nom, [""]), (Slot.sg .voc, [""])] = [("nom_sg", [""]), ("voc_sg", [""])] ∧
      names [(Slot.sg .loc, ["iī"]), (Slot.pl .loc, ["iīs"])] =
        [("loc_sg", ["iī"]), ("loc_pl", ["iīs"])] ∧
      names [(Slot.sg .loc, ["ī"]), (Slot.pl .loc, ["īs"])] =
        [("loc_sg", ["ī"]), ("loc_pl", ["īs"])] :=
  ⟨rfl, rfl, rfl, rfl⟩

theorem names_genplum (forms : List String) :
    names [(Slot.pl .gen, forms)] = [("gen_pl", forms)] :=
  names_cons (by decide) forms []

end Second

def second (o : Options) (w : Lexeme) : NamedRows :=
  inflected w.stem Second.basic
    ++ (if w.has .N then inflected w.stem Second.neuter ++ Second.neuterType o w
      else if w.has .er then
        [("nom_sg", [w.stem]), ("voc_sg", [w.stem])] ++ inflected w.obliqueStem Second.obliqueOfR
      else if w.has .ius then
        inflected w.stem (Second.inIus (w.has .voci)) ++ Second.oldGenitive o w.stem
      else if w.has .vos then inflected w.stem Second.inVos
      else if w.has .Greek then inflected w.stem Second.greekInOs
      else [])
    ++ (if w.has .genplum then
        inflected w.obliqueStem
          [("gen_pl", if Noun.Second.isIStem w then ["iōrum", "ium"] else ["ōrum", "um"])]
      else [])
    ++ if w.loc then
        if Noun.Second.isIStem w then inflected w.obliqueStem [("loc_sg", ["iī"]), ("loc_pl", ["iīs"])]
        else inflected w.obliqueStem [("loc_sg", ["ī"]), ("loc_pl", ["īs"])]
      else []

theorem names_second (o : Options) (w : Lexeme) :
    names (FormMap.inflect w.stem (Noun.Second.onStem o w)
      ++ FormMap.inflect w.obliqueStem (Noun.Second.onOblique w)) = second o w := by
  rw [names_append, names_inflect, names_inflect, second, Noun.Second.onStem,
    Noun.Second.onOblique]
  simp only [names_append, apply_ite names, apply_ite (inflected _), inflected_append,
    Second.names_rows, Second.names_single_rows, Second.names_genplum, names_nil, inflected_nil]
  cases hN : w.has .N with
  | false =>
    cases her : w.has .er with
    | false =>
      cases hius : w.has .ius <;>
        simp [Noun.Second.hasOldGenitive, Second.oldGenitive, hN, her, hius]
    | true => simp [Noun.Second.hasOldGenitive, inflected, hN, her]
  | true =>
    cases hium : w.has .ium <;>
      simp [Noun.Second.hasOldGenitive, Second.oldGenitive, Noun.Second.neuterType,
        Second.neuterType, apply_ite names, apply_ite (inflected _), Second.names_rows, hN, hium]

namespace Third

def oblique : NamedRows := [
  ("gen_sg", ["is"]), ("dat_sg", ["ī"]), ("acc_sg", ["em"]), ("abl_sg", ["e"]),
  ("nom_pl", ["ēs"]), ("gen_pl", ["um"]), ("dat_pl", ["ibus"]), ("acc_pl", ["ēs"]),
  ("abl_pl", ["ibus"]), ("voc_pl", ["ēs"])]

def greekInEr : NamedRows := [
  ("nom_sg", ["ēr"]), ("gen_sg", ["eris"]), ("dat_sg", ["erī"]), ("acc_sg", ["era", "erem"]),
  ("abl_sg", ["ere"]), ("voc_sg", ["ēr"]), ("nom_pl", ["erēs"]), ("gen_pl", ["erum"]),
  ("dat_pl", ["eribus"]), ("acc_pl", ["erēs"]), ("abl_pl", ["eribus"]), ("voc_pl", ["erēs"])]

def greekInOn : NamedRows := [
  ("nom_sg", ["ōn"]), ("gen_sg", ["ontis", "ontos"]), ("dat_sg", ["ontī"]),
  ("acc_sg", ["onta"]), ("abl_sg", ["onte"]), ("voc_sg", ["ōn"]), ("nom_pl", ["ontēs"]),
  ("gen_pl", ["ontum", "ontium"]), ("dat_pl", ["ontibus"]), ("acc_pl", ["ontēs", "ontās"]),
  ("abl_pl", ["ontibus"]), ("voc_pl", ["ontēs"])]

def greekIStem : NamedRows := [
  ("gen_sg", ["is", "eōs", "ios"]), ("acc_sg", ["im", "in", "em"]), ("abl_sg", ["ī", "e"]),
  ("voc_sg", ["is", "i"]), ("nom_pl", ["ēs", "eis"]), ("gen_pl", ["ium", "eōn"]),
  ("acc_pl", ["ēs", "eis"]), ("voc_pl", ["ēs", "eis"])]

def inEsi : NamedRows := [("dat_pl", ["ibus", "esi"]), ("abl_pl", ["ibus", "esi"])]

def greekPlain (oblique : String) : NamedRows := [
  ("gen_sg", ["os"]), ("acc_sg", if Text.endsIn "y" oblique then ["n"] else ["a"]),
  ("nom_pl", ["es"]), ("acc_pl", ["as"]), ("voc_pl", ["es"])]

def inPolis : NamedRows := [
  ("nom_sg", ["polis"]), ("gen_sg", ["polis"]), ("dat_sg", ["polī"]),
  ("acc_sg", ["polim", "polin"]), ("abl_sg", ["polī"]), ("voc_sg", ["polis", "polī"])]

def neuterPure : NamedRows := [
  ("abl_sg", ["ī"]), ("nom_pl", ["ia"]), ("gen_pl", ["ium"]), ("acc_pl", ["ia"]),
  ("voc_pl", ["ia"])]

def neuterIStem : NamedRows := [
  ("nom_pl", ["a"]), ("gen_pl", ["ium", "um"]), ("acc_pl", ["a"]), ("voc_pl", ["a"])]

def neuter : NamedRows := [("nom_pl", ["a"]), ("acc_pl", ["a"]), ("voc_pl", ["a"])]

/-- The endings that a trait gives the accusative singular. -/
def accusatives : OrderedMap Trait (List String) := ⟨[
  (.accIm, ["im"]), (.accImIn, ["im", "in"]), (.accImInEm, ["im", "in", "em"]),
  (.accImEm, ["im", "em"]), (.accImOccEm, ["im", "em"]), (.accEmIm, ["em", "im"])]⟩

/-- The endings that a trait gives the ablative singular. -/
def ablatives : OrderedMap Trait (List String) := ⟨[
  (.ablI, ["ī"]), (.ablIE, ["ī", "e"]), (.ablEI, ["e", "ī"]), (.ablEOccI, ["e", "ī"])]⟩

/-- The row that the first trait of the word in a table gives its slot. -/
def caseRow (w : Lexeme) (table : OrderedMap Trait (List String)) (slot : String) :
    Except Crash NamedRows :=
  match table.keys.find? w.has with
  | none => .ok []
  | some subtype => do return [(slot, ← value table subtype)]

/-- What a Greek type writes. -/
def greek (w : Lexeme) (greekStem : String) : NamedRows :=
  if w.has .Greek then
    if w.has .er then inflected greekStem greekInEr
    else if w.has .on then inflected greekStem greekInOn
    else if w.has .I then
      inflected w.obliqueStem greekIStem
        ++ if w.has .poeticEsi then inflected w.obliqueStem inEsi else []
    else
      inflected w.obliqueStem (greekPlain w.obliqueStem)
        ++ if Noun.Third.dropsS w.stem then
            [("voc_sg", [w.stem, Text.dropEnding "s" w.stem])]
          else []
  else []

/-- What the gender and the kind of stem write. -/
def kind (o : Options) (w : Lexeme) (bareStem : String) : Except Crash NamedRows :=
  if w.has .N then
    return ("acc_sg", [bareStem]) :: inflected w.obliqueStem
      (if w.has .I then if w.has .pure then neuterPure else neuterIStem else neuter)
  else if w.has .I || (accusatives.keys.find? w.has).isSome
      || (ablatives.keys.find? w.has).isSome then do
    let accusative ← caseRow w accusatives "acc_sg"
    let ablative ← caseRow w ablatives "abl_sg"
    return inflected w.obliqueStem <|
      [("gen_pl", ["ium"]),
        ("acc_pl", if o.suppressNonNeuterIStemAccIs then ["ēs"] else ["ēs", "īs"])]
        ++ accusative ++ ablative
  else return []

def addLocative (m : NamedSheet) : Except Crash NamedSheet := do
  let dative ← formsOr m "dat_sg"
  let ablative ← formsOr m "abl_sg"
  let m ← write m "loc_sg" (addNew dative ablative)
  write m "loc_pl" (← formsOr m "abl_pl")

theorem names_rows :
    names Noun.Third.oblique = oblique ∧ names Noun.Third.greekInEr = greekInEr ∧
      names Noun.Third.greekInOn = greekInOn ∧
      names (Noun.Third.greekIStem false) = greekIStem ∧
      names (Noun.Third.greekIStem true) = greekIStem ++ inEsi ∧
      names Noun.Third.inPolis = inPolis ∧ names Noun.Third.neuterPure = neuterPure ∧
      names Noun.Third.neuterIStem = neuterIStem ∧ names Noun.Third.neuter = neuter :=
  ⟨rfl, rfl, rfl, rfl, rfl, rfl, rfl, rfl, rfl⟩

theorem find_of_find? {w : Lexeme} {c : Noun.Third.CaseType} {types : List Noun.Third.CaseType}
    (h : types.find? (w.has ·.trait) = some c) :
    OrderedMap.find c.trait (types.map fun c => (c.trait, c.endings)) = some c.endings := by
  induction types with
  | nil => cases h
  | cons d types ih =>
    have hhas : w.has c.trait := by simpa using List.find?_some h
    rw [List.find?_cons] at h
    rw [List.map_cons, OrderedMap.find]
    cases hd : w.has d.trait with
    | true =>
      rw [hd] at h
      cases h
      exact if_pos rfl
    | false =>
      have hne : d.trait ≠ c.trait := by
        intro heq
        rw [heq, hhas] at hd
        cases hd
      rw [hd] at h
      rw [if_neg hne]
      exact ih h

theorem find?_keys (w : Lexeme) (types : List Noun.Third.CaseType) :
    (OrderedMap.keys ⟨types.map fun c => (c.trait, c.endings)⟩).find? w.has =
      (types.find? (w.has ·.trait)).map Noun.Third.CaseType.trait := by
  have hkeys : OrderedMap.keys ⟨types.map fun c => (c.trait, c.endings)⟩ =
      types.map Noun.Third.CaseType.trait := by
    simp [OrderedMap.keys]
  rw [hkeys, List.find?_map]
  rfl

/-- The trait that is looked up is one that the table has. -/
theorem caseRow_eq (w : Lexeme) (types : List Noun.Third.CaseType) (slot : String) :
    caseRow w ⟨types.map fun c => (c.trait, c.endings)⟩ slot =
      .ok ((types.find? (w.has ·.trait)).map fun c => (slot, c.endings)).toList := by
  rw [caseRow, find?_keys]
  cases hfound : types.find? (w.has ·.trait) with
  | none => rfl
  | some c =>
    rw [Option.map_some]
    dsimp only
    rw [value_eq_ok (find_of_find? hfound)]
    rfl

theorem accusatives_eq :
    accusatives = ⟨Noun.Third.accusatives.map fun c => (c.trait, c.endings)⟩ := rfl

theorem ablatives_eq :
    ablatives = ⟨Noun.Third.ablatives.map fun c => (c.trait, c.endings)⟩ := rfl

theorem names_greek (w : Lexeme) (greekStem : String) :
    names (Noun.Third.greekForms w greekStem) = greek w greekStem := by
  have hplain : ∀ oblique, names (Noun.Third.greekPlain oblique) = greekPlain oblique := by
    intro oblique
    unfold Noun.Third.greekPlain greekPlain
    split <;> rfl
  have hvocative : ∀ forms : List String, names [(Slot.sg .voc, forms)] = [("voc_sg", forms)] :=
    fun forms => names_cons (by decide) forms []
  unfold Noun.Third.greekForms Noun.Third.greek? greek
  cases w.has .Greek <;> cases w.has .er <;> cases w.has .on <;> cases w.has .I <;>
    cases w.has .poeticEsi <;>
    simp [names_append, names_inflect, apply_ite names, names_rows, inflected_append, hplain,
      hvocative]

theorem kind_eq (o : Options) (w : Lexeme) (bareStem : String) :
    kind o w bareStem = .ok (names (Noun.Third.kindForms o w bareStem)) := by
  have haccusative : (Slot.sg .acc).name = "acc_sg" := by decide
  have hablative : (Slot.sg .abl).name = "abl_sg" := by decide
  have hgenitive : (Slot.pl .gen).name = "gen_pl" := by decide
  have hplural : (Slot.pl .acc).name = "acc_pl" := by decide
  unfold kind Noun.Third.kindForms
  cases hN : w.has .N with
  | true =>
    cases w.has .I <;> cases w.has .pure <;>
      simp [names_cons haccusative, names_inflect, names_rows] <;> rfl
  | false =>
    have hkind : Noun.Third.isIStem w = (w.has .I || (accusatives.keys.find? w.has).isSome
        || (ablatives.keys.find? w.has).isSome) := by
      rw [accusatives_eq, ablatives_eq, find?_keys, find?_keys, Option.isSome_map,
        Option.isSome_map]
      rfl
    have hrow : ∀ {slot : Slot} {name : String}, slot.name = name →
        ∀ c? : Option Noun.Third.CaseType,
          names (c?.map fun c => (slot, c.endings)).toList =
            (c?.map fun c => (name, c.endings)).toList := by
      intro slot name hname c?
      cases c? with
      | none => rfl
      | some c => exact names_cons hname c.endings []
    simp only [hkind, Bool.false_eq_true, if_false]
    split
    · rw [accusatives_eq, ablatives_eq, caseRow_eq, caseRow_eq, names_inflect, Noun.Third.iStem,
        names_append, names_append, names_cons hgenitive, names_cons hplural, hrow haccusative,
        hrow hablative]
      rfl
    · rfl

theorem addLocative_sheet (m : FormMap) :
    addLocative (sheet m) = .ok (sheet (Noun.Third.addLocative m)) := by
  have hdative : formsOr (sheet m) "dat_sg" = .ok (m.forms (.sg .dat)) :=
    formsOr_sheet m _ (by decide)
  have hablative : formsOr (sheet m) "abl_sg" = .ok (m.forms (.sg .abl)) :=
    formsOr_sheet m _ (by decide)
  let filled : FormMap := m.insert (.sg .loc) (addNew (m.forms (.sg .dat)) (m.forms (.sg .abl)))
  have hwrite : write (sheet m) "loc_sg" (addNew (m.forms (.sg .dat)) (m.forms (.sg .abl))) =
      .ok (sheet filled) :=
    write_named m (.sg .loc) (by decide) _
  have hplural : formsOr (sheet filled) "abl_pl" = .ok (filled.forms (.pl .abl)) :=
    formsOr_sheet filled _ (by decide)
  have hkept : filled.forms (.pl .abl) = m.forms (.pl .abl) := by
    simp [filled, FormMap.forms]
  rw [hkept] at hplural
  have hlocative : write (sheet filled) "loc_pl" (m.forms (.pl .abl)) =
      .ok (sheet (filled.insert (.pl .loc) (m.forms (.pl .abl)))) :=
    write_named filled (.pl .loc) (by decide) _
  refine bind_eq_ok.mpr ⟨_, hdative, bind_eq_ok.mpr ⟨_, hablative, ?_⟩⟩
  exact bind_eq_ok.mpr ⟨_, hwrite, bind_eq_ok.mpr ⟨_, hplural, hlocative⟩⟩

end Third

def third (o : Options) (w : Lexeme) : Except Crash NamedSheet := do
  let greekStem ← liftFault (Noun.Third.greekStem w)
  let bareStem ← liftFault (Noun.Third.bareStem w greekStem)
  let kind ← Third.kind o w bareStem
  let m ← fill ∅ <|
    [("nom_sg", [w.stem]), ("voc_sg", [w.stem])]
      ++ inflected w.obliqueStem Third.oblique
      ++ Third.greek w greekStem
      ++ (if w.has .polis then inflected bareStem Third.inPolis else [])
      ++ kind
  if w.loc then Third.addLocative m else return m

theorem third_refines (o : Options) (w : Lexeme) :
    Refines (fun m p => m = sheet p.forms) (third o w) (Noun.third o w) := by
  refine (Refines.lift (fun _ => rfl) (Noun.Third.greekStem w)).bind ?_
  rintro greekStem _ rfl
  refine (Refines.lift (fun _ => rfl) (Noun.Third.bareStem w greekStem)).bind ?_
  rintro bareStem _ rfl
  have hstem : names [(Slot.sg .nom, [w.stem]), (Slot.sg .voc, [w.stem])] =
      [("nom_sg", [w.stem]), ("voc_sg", [w.stem])] :=
    names_pair (by decide) (by decide) _ _
  have hpolis : names (if w.has .polis then FormMap.inflect bareStem Noun.Third.inPolis else []) =
      if w.has .polis then inflected bareStem Third.inPolis else [] := by
    rw [apply_ite names, names_inflect, Third.names_rows.2.2.2.2.2.1]
    rfl
  have hnames : names ([(Slot.sg .nom, [w.stem]), (Slot.sg .voc, [w.stem])]
      ++ FormMap.inflect w.obliqueStem Noun.Third.oblique
      ++ Noun.Third.greekForms w greekStem
      ++ (if w.has .polis then FormMap.inflect bareStem Noun.Third.inPolis else [])
      ++ Noun.Third.kindForms o w bareStem) =
        [("nom_sg", [w.stem]), ("voc_sg", [w.stem])]
          ++ inflected w.obliqueStem Third.oblique ++ Third.greek w greekStem
          ++ (if w.has .polis then inflected bareStem Third.inPolis else [])
          ++ names (Noun.Third.kindForms o w bareStem) := by
    simp only [names_append, hstem, hpolis, names_inflect, Third.names_greek, Third.names_rows]
  rw [Third.kind_eq]
  refine .bind_left (fill_names hnames) ?_
  cases hloc : w.loc with
  | true =>
    rw [if_pos rfl, Third.addLocative_sheet]
    refine .ok ?_
    simp only [Noun.Third.forms, hloc, if_true]
  | false =>
    refine .ok ?_
    simp only [Noun.Third.forms, hloc, Bool.false_eq_true, if_false]

namespace Fourth

def basic : NamedRows := [
  ("nom_sg", ["us"]), ("gen_sg", ["ūs"]), ("dat_sg", ["uī"]), ("acc_sg", ["um"]),
  ("abl_sg", ["ū"]), ("voc_sg", ["us"]), ("nom_pl", ["ūs"]), ("gen_pl", ["uum"]),
  ("dat_pl", ["ibus"]), ("acc_pl", ["ūs"]), ("abl_pl", ["ibus"]), ("voc_pl", ["ūs"])]

def echo : NamedRows := [("nom_sg", ["ō"]), ("voc_sg", ["ō"])]

def argo : NamedRows := [
  ("nom_sg", ["ō"]), ("acc_sg", ["ō"]), ("abl_sg", ["uī"]), ("voc_sg", ["ō"])]

def callisto : NamedRows := [
  ("nom_sg", ["ō"]), ("dat_sg", ["ō"]), ("acc_sg", ["ō"]), ("abl_sg", ["ō"]),
  ("voc_sg", ["ō"])]

def neuter : NamedRows := [
  ("nom_sg", ["ū"]), ("dat_sg", ["ū"]), ("acc_sg", ["ū"]), ("voc_sg", ["ū"]),
  ("nom_pl", ["ua"]), ("acc_pl", ["ua"]), ("voc_pl", ["ua"])]

def inUbus : NamedRows := [("dat_pl", ["ubus"]), ("abl_pl", ["ubus"])]

def addLocative (m : NamedSheet) : Except Crash NamedSheet := do
  let m ← write m "loc_sg" (← present (← value m "abl_sg"))
  write m "loc_pl" (← present (← value m "abl_pl"))

theorem names_rows :
    names Noun.Fourth.basic = basic ∧ names Noun.Fourth.echo = echo ∧
      names Noun.Fourth.argo = argo ∧ names Noun.Fourth.callisto = callisto ∧
      names Noun.Fourth.neuter = neuter ∧ names Noun.Fourth.inUbus = inUbus :=
  ⟨rfl, rfl, rfl, rfl, rfl, rfl⟩

theorem addLocative_sheet {m : FormMap} (hsg : m.contains (.sg .abl)) (hpl : m.contains (.pl .abl)) :
    addLocative (sheet m) = .ok (sheet (Noun.Fourth.addLocative m)) := by
  obtain ⟨singular, hsg⟩ := Option.isSome_iff_exists.mp hsg
  obtain ⟨plural, hpl⟩ := Option.isSome_iff_exists.mp hpl
  have hsingular : value (sheet m) "abl_sg" = .ok (some singular) := value_sheet hsg (by decide)
  let filled : FormMap := m.insert (.sg .loc) singular
  have hwrite : write (sheet m) "loc_sg" singular = .ok (sheet filled) :=
    write_named m (.sg .loc) (by decide) _
  have hkept : filled.get? (.pl .abl) = some plural := by
    simp [filled, hpl]
  have hplural : value (sheet filled) "abl_pl" = .ok (some plural) := value_sheet hkept (by decide)
  have hlocative : write (sheet filled) "loc_pl" plural =
      .ok (sheet (filled.insert (.pl .loc) plural)) :=
    write_named filled (.pl .loc) (by decide) _
  have hfilled : Noun.Fourth.addLocative m = filled.insert (.pl .loc) plural := by
    simp only [Noun.Fourth.addLocative, FormMap.forms, hsg, hpl, Option.getD_some, filled]
  rw [hfilled, addLocative, hsingular]
  refine bind_eq_ok.mpr ⟨_, rfl, bind_eq_ok.mpr ⟨_, rfl, ?_⟩⟩
  refine bind_eq_ok.mpr ⟨_, hwrite, bind_eq_ok.mpr ⟨_, hplural, ?_⟩⟩
  exact bind_eq_ok.mpr ⟨_, rfl, hlocative⟩

end Fourth

def fourth (w : Lexeme) : Except Crash NamedSheet := do
  let m ← fill ∅ <| inflected w.stem <|
    Fourth.basic
      ++ (if w.has .echo then Fourth.echo
        else if w.has .argo then Fourth.argo
        else if w.has .Callisto then Fourth.callisto
        else [])
      ++ (if w.has .N then Fourth.neuter else [])
      ++ if w.has .ubus then Fourth.inUbus else []
  if w.loc then Fourth.addLocative m else return m

theorem names_fourth (w : Lexeme) :
    names (FormMap.inflect w.stem (Noun.Fourth.endings w)) = inflected w.stem
      (Fourth.basic
        ++ (if w.has .echo then Fourth.echo
          else if w.has .argo then Fourth.argo
          else if w.has .Callisto then Fourth.callisto
          else [])
        ++ (if w.has .N then Fourth.neuter else [])
        ++ if w.has .ubus then Fourth.inUbus else []) := by
  rw [names_inflect, Noun.Fourth.endings]
  simp [names_append, apply_ite names, Fourth.names_rows]

theorem fourth_refines (w : Lexeme) :
    Refines (fun m p => m = sheet p.forms) (fourth w) (.ok (Noun.fourth w)) := by
  refine .bind_left (fill_names (names_fourth w)) ?_
  have habl : ∀ n, (OrderedMap.ofList (FormMap.inflect w.stem (Noun.Fourth.endings w))).contains
      (.cell .abl n none) := by
    intro n
    have hbasic : .cell .abl n none ∈ Noun.Fourth.basic.map Prod.fst := by
      cases n <;> decide
    refine OrderedMap.contains_iff_mem_keys.mpr (OrderedMap.mem_keys_insertMany.mpr (.inr ?_))
    rw [FormMap.inflect, List.map_map, Noun.Fourth.endings, List.append_assoc, List.append_assoc,
      List.map_append]
    exact List.mem_append_left _ hbasic
  cases hloc : w.loc with
  | true =>
    rw [if_pos rfl, Fourth.addLocative_sheet (habl .sg) (habl .pl)]
    refine .ok ?_
    simp only [Noun.fourth, hloc, if_true]
  | false =>
    refine .ok ?_
    simp only [Noun.fourth, hloc, Bool.false_eq_true, if_false]

namespace Fifth

def basic : NamedRows := [
  ("nom_sg", ["ēs"]), ("gen_sg", ["eī"]), ("dat_sg", ["eī"]), ("acc_sg", ["em"]),
  ("abl_sg", ["ē"]), ("voc_sg", ["ēs"]), ("nom_pl", ["ēs"]), ("gen_pl", ["ērum"]),
  ("dat_pl", ["ēbus"]), ("acc_pl", ["ēs"]), ("abl_pl", ["ēbus"]), ("voc_pl", ["ēs"])]

def afterI : NamedRows := [("gen_sg", ["ēī"]), ("dat_sg", ["ēī"])]

def locative : NamedRows := [("loc_sg", ["ē"]), ("loc_pl", ["ēbus"])]

theorem names_rows :
    names Noun.Fifth.basic = basic ∧ names Noun.Fifth.afterI = afterI ∧
      names Noun.Fifth.locative = locative :=
  ⟨rfl, rfl, rfl⟩

end Fifth

def fifth (w : Lexeme) : NamedRows :=
  inflected (Noun.Fifth.stem w) <|
    Fifth.basic ++ (if w.has .i then Fifth.afterI else []) ++ if w.loc then Fifth.locative else []

theorem names_fifth (w : Lexeme) :
    names (FormMap.inflect (Noun.Fifth.stem w) (Noun.Fifth.endings w)) = fifth w := by
  rw [names_inflect, fifth, Noun.Fifth.endings]
  simp [names_append, apply_ite names, Fifth.names_rows]

/-- One form under every case in both numbers, except the locative. -/
def uniform (form : String) : NamedRows :=
  (["nom", "gen", "dat", "acc", "abl", "voc"].flatMap fun case =>
    [case ++ "_sg", case ++ "_pl"]).map fun slot => (slot, [form])

theorem names_uniform (form : String) : names (Noun.uniform form) = uniform form := by
  have hcells : Noun.cells.map Slot.name =
      ["nom", "gen", "dat", "acc", "abl", "voc"].flatMap fun case =>
        [case ++ "_sg", case ++ "_pl"] :=
    rfl
  rw [uniform, ← hcells]
  exact names_const Noun.cells [form]

def invariable (w : Lexeme) : NamedRows :=
  uniform w.stem ++ if w.loc then [("loc_sg", [w.stem]), ("loc_pl", [w.stem])] else []

def indeclinable (w : Lexeme) : NamedRows :=
  uniform "-" ++ [("nom_sg", [w.stem]), ("acc_sg", [w.stem])]

theorem names_invariable (w : Lexeme) :
    names (Noun.uniform w.stem
      ++ if w.loc then [(Slot.sg .loc, [w.stem]), (Slot.pl .loc, [w.stem])] else []) =
        invariable w := by
  have hlocative : names [(Slot.sg .loc, [w.stem]), (Slot.pl .loc, [w.stem])] =
      [("loc_sg", [w.stem]), ("loc_pl", [w.stem])] :=
    names_pair (by decide) (by decide) _ _
  rw [names_append, names_uniform, apply_ite names, hlocative]
  rfl

theorem names_indeclinable (w : Lexeme) :
    names (Noun.uniform Noun.noForm ++ [(Slot.sg .nom, [w.stem]), (Slot.sg .acc, [w.stem])]) =
      indeclinable w := by
  have hfilled : names [(Slot.sg .nom, [w.stem]), (Slot.sg .acc, [w.stem])] =
      [("nom_sg", [w.stem]), ("acc_sg", [w.stem])] :=
    names_pair (by decide) (by decide) _ _
  rw [names_append, names_uniform, hfilled]
  rfl

def irregularNoun (e : Engine) (w : Lexeme) : Except Crash NamedSheet := do
  let p ← Engine.lookup e.nouns w.stem (.unknownIrregularNoun w.stem)
  fill ∅ (uniform "-" ++ p.formsFor w.stem)

/-- Writes the forms of a noun of a class. -/
def noun (e : Engine) (w : Lexeme) : Noun.Class → Except Crash NamedSheet
  | .first => fill ∅ (first w)
  | .second => fill ∅ (second e.options w)
  | .third => third e.options w
  | .fourth => fourth w
  | .fifth => fill ∅ (fifth w)
  | .invariable => fill ∅ (invariable w)
  | .indeclinable => fill ∅ (indeclinable w)
  | .irregular => irregularNoun e w

theorem refines_of_names {rows : Rows} {named : NamedRows} {p : Paradigm}
    (h : names rows = named) (hp : p.forms = .ofList rows) :
    Refines (fun m p => m = sheet p.forms) (fill ∅ named) (.ok p) := by
  rw [fill_names h]
  exact .ok (by rw [hp])

theorem irregularNoun_refines {e : Engine} (he : e.Accepted) (w : Lexeme) :
    Refines (fun m p => m = sheet p.forms) (irregularNoun e w) (Noun.irregular e.tables w) := by
  refine (Engine.irregularNoun_refines he w.stem).bind fun p q hpq => ?_
  have hnames : names (Noun.uniform Noun.noForm ++ (q.formsFor w.stem).entries) =
      uniform "-" ++ p.formsFor w.stem := by
    rw [names_append, names_uniform, NamedParadigm.names_of_validate hpq]
    rfl
  exact refines_of_names hnames rfl

theorem noun_refines {e : Engine} (he : e.Accepted) (w : Lexeme) (c : Noun.Class) :
    Refines (fun m p => m = sheet p.forms) (noun e w c) (Noun.decline e.toEngine w c) := by
  cases c with
  | first => exact refines_of_names (names_first w) (by rw [Noun.first])
  | second => exact refines_of_names (names_second e.options w) (by rw [Noun.second])
  | third => exact third_refines e.options w
  | fourth => exact fourth_refines w
  | fifth => exact refines_of_names (names_fifth w) (by rw [Noun.fifth])
  | invariable => exact refines_of_names (names_invariable w) (by rw [Noun.invariable])
  | indeclinable => exact refines_of_names (names_indeclinable w) (by rw [Noun.indeclinable])
  | irregular => exact irregularNoun_refines he w

end Declension.Checked
