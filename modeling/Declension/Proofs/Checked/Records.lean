import Declension.Proofs.Checked.Reading
import Declension.Proofs.Checked.Runs
import Declension.Record.Dispatch

/-!
# Records under names

A record keeps forms under names, and so does what a template gives for them. Main statement:
`declineText_refines`, by which declining a text under names, with every access checked, ends as
declining it does.
-/
namespace Declension.Checked

/-- A record whose slots stand under their names. -/
structure NamedRecord where
  title : String
  num : Option NumberUse
  propses : List (List DeclProp)
  forms : OrderedMap String (List String)
  notes : List (String × List String)
  footnotes : List String
  categories : List String
  overridden : List String := []
  pos : String
  numType : Option String
  indecl : Bool
  lemmas : List String

structure NamedNounRecord extends NamedRecord where
  gender : Option Gender

structure NamedAdjectiveRecord extends NamedRecord where
  voc : Bool
  noneut : Bool

inductive NamedDeclined where
  | noun (r : NamedNounRecord)
  | adjective (r : NamedAdjectiveRecord)
  | pronoun (r : PronounRecord)

/-- The notes of a run under the names of slots with places counted from one. -/
def flattenNotes (isAdj : Bool) (d : Composed) : List (String × List String) :=
  (runSlots isAdj).flatMap fun name =>
    (((d.notes.get? name).getD ∅).entries.mergeSort fun a b => a.1 ≤ b.1).map
      fun (place, notes) => (name ++ toString (place + 1), notes)

/-- The title of a record: the one given, or that of the run with what its use adds. -/
def recordTitle (argument : Option String) (title : String) (loc : Bool)
    (num : Option NumberUse) : Except Crash String :=
  match given argument with
  | some argument => .ok (titleFromArgument argument)
  | none =>
    if title = "" then .ok title
    else do
      let first ← item title.toList 0
      return Text.upper first ++ String.ofList (title.toList.drop 1) ++ useText loc num ++ "."

/-- The forms of a sheet, none of which may be lacking. -/
def validForms (m : NamedSheet) : Except Crash (OrderedMap String (List String)) := do
  return ⟨← m.entries.mapM fun (name, forms) =>
    match forms with
    | some forms => .ok (name, forms)
    | none => .error (.invalid name)⟩

/-- The record of a composed run before overrides. -/
def newRecord (args : Arguments) (pos : String) (isAdj : Bool) (r : Run) (d : Composed)
    (forms : NamedSheet) : Except Crash NamedRecord := do
  let title ← recordTitle (args.get? "title") d.title r.summary.loc r.summary.num
  checkUse none r.summary.num
  let forms ← validForms forms
  return {
    title, forms
    num := r.summary.num
    propses := r.summary.propses
    notes := flattenNotes isAdj d
    footnotes := d.footnotes
    categories := d.categories
    pos := pos
    numType := args.get? "type"
    indecl := args.contains "indecl"
    lemmas := args.list "lemma" }

/-- The plain slot of each linked one. -/
def linkedToPlain (isAdj : Bool) : OrderedMap String String :=
  .ofList ((lemmaSlots isAdj).map fun name => ("linked_" ++ name, name))

/-- The forms that an argument for the plain slot gives to its linked slot. -/
def linkedForms (isAdj : Bool) (args : Arguments) (name : String) :
    Except Crash (Option (List String)) :=
  if (linkedToPlain isAdj).contains name then do
    let plain ← value (linkedToPlain isAdj) name
    if args.contains plain then return some (Text.fields '/' (← value args plain))
    else return none
  else .ok none

/-- The forms that a template gives to a slot; an empty argument gives none to an adjective. -/
def argumentForms (isAdj : Bool) (args : Arguments) (name : String) :
    Except Crash (Option (List String)) :=
  if if isAdj then (given (args.get? name)).isSome else args.contains name then do
    let text ← value args name
    return some (Text.fields '/' (if SlotName.isLinked name then text else Text.unlink text))
  else linkedForms isAdj args name

/-- Whether a name tells of the number in which a record is not used. -/
def isExcluded (num : Option NumberUse) (name : String) : Bool :=
  (num = some .pl && Text.occurs "_sg".toList name.toList) ||
    (num = some .sg && Text.occurs "_pl".toList name.toList)

/-- Forms that start with a mark of emptiness become a dash. -/
def shown (forms : List String) : Except Crash (List String) :=
  if forms.isEmpty then .ok forms
  else do return if (← item forms 0) ∈ emptyMarks then [dash] else forms

namespace NamedNounRecord

/-- Records that the template gives the forms of a slot. -/
def mark (r : NamedNounRecord) (name : String) : NamedNounRecord :=
  { r with overridden := r.overridden ++ [name] }

def fillSlot (r : NamedNounRecord) (name : String) :
    Option (List String) → Except Crash NamedNounRecord
  | none => .ok r
  | some forms => do
    let forms ← if isExcluded r.num name then .ok [""] else shown forms
    return { r with forms := r.forms.insert name forms }

/-- Fills one slot of a record: from the template, else from what is there. -/
def overrideSlot (args : Arguments) (r : NamedNounRecord) (name : String) :
    Except Crash NamedNounRecord := do
  let argument ← argumentForms false args name
  let r := if argument.isSome then r.mark name else r
  r.fillSlot name (argument <|> r.forms.get? name)

/-- Declines the noun of a template. -/
def ofArguments (e : Engine) (args : Arguments) (pos : String := "nouns") :
    Except Crash NamedNounRecord := do
  let run ← readRun e.tables (Text.trim (args.getD "1" ""))
  let run := settleRun args NounRecord.locatives run
  let d ← composeRun e pos false run
  let forms := if run.summary.loc then d.forms
    else ["loc_sg", "loc_pl"].foldl OrderedMap.erase d.forms
  let r ← newRecord args pos false run d forms
  checkUse run.summary.gender none
  (runSlots false).foldlM (overrideSlot args) { r with gender := run.summary.gender }

end NamedNounRecord

namespace NamedAdjectiveRecord

/-- The names of the cells of a case. -/
def cellsOf (case : String) : List String :=
  numbers.flatMap fun n => genders.map fun g => case ++ "_" ++ n ++ "_" ++ g

/-- The names of the cells of a gender. -/
def column (gender : String) : List String :=
  cases.flatMap fun c => numbers.map fun n => c ++ "_" ++ n ++ "_" ++ gender

def mark (r : NamedAdjectiveRecord) (name : String) : NamedAdjectiveRecord :=
  { r with overridden := r.overridden ++ [name] }

/-- Leaves out the slot of a gender that the record does not have. -/
def dropNeuter (r : NamedAdjectiveRecord) (name : String) : NamedAdjectiveRecord :=
  if r.noneut && Text.endsIn "_n" name then { r with forms := r.forms.erase name } else r

def fillSlot (r : NamedAdjectiveRecord) (name : String) :
    Option (List String) → Except Crash NamedAdjectiveRecord
  | none => .ok r
  | some forms =>
    if isExcluded r.num name then .ok { r with forms := r.forms.erase name }
    else do return { r with forms := r.forms.insert name (← shown forms) }

/-- Fills one slot of a record: from the template, else from what is there. -/
def overrideSlot (args : Arguments) (r : NamedAdjectiveRecord) (name : String) :
    Except Crash NamedAdjectiveRecord := do
  let r := r.dropNeuter name
  let argument ← argumentForms true args name
  let r := if argument.isSome then r.mark name else r
  r.fillSlot name (argument <|> r.forms.get? name)

/-- Leaves out a column that repeats the masculine one. -/
def dropColumn (m : OrderedMap String (List String)) (gender : String) :
    OrderedMap String (List String) :=
  if cases.all fun c => numbers.all fun n =>
      m.get? (c ++ "_" ++ n ++ "_" ++ gender) = m.get? (c ++ "_" ++ n ++ "_m") then
    (column gender).foldl OrderedMap.erase m
  else m

/-- Fills the slots of a record, and leaves out the columns that repeat the masculine one. -/
def complete (e : Engine) (args : Arguments) (r : NamedAdjectiveRecord) :
    Except Crash NamedAdjectiveRecord := do
  let r ← (runSlots true).foldlM (overrideSlot args) r
  return if e.options.populateAllTerminations then r
    else { r with forms := ["f", "n"].foldl dropColumn r.forms }

/-- Declines the adjective of a template. -/
def ofArguments (e : Engine) (args : Arguments) : Except Crash NamedAdjectiveRecord := do
  let run ← readRun e.tables (AdjectiveRecord.completeSpec args (Text.trim (args.getD "1" "")))
  let run := settleRun args (AdjectiveRecord.cellsOf .loc) run
  let d ← composeRun e "adjectives" true run
  let forms := if run.summary.loc then d.forms
    else (cellsOf "loc").foldl OrderedMap.erase d.forms
  let forms := if args.hasAny (cellsOf "voc") || d.voc then forms
    else (cellsOf "voc").foldl OrderedMap.erase forms
  let r ← newRecord args "adjectives" true run d forms
  complete e args { r with voc := d.voc, noneut := args.contains "noneut" || d.noneut }

end NamedAdjectiveRecord

/-- Declines the template of that name, which stands among the arguments under zero. -/
def declineArguments (e : Engine) (args : Arguments) : Except Crash NamedDeclined := do
  let name ← value args "0"
  match TemplateKind.ofName? name with
  | some .noun => .noun <$> NamedNounRecord.ofArguments e args
  | some .adjective => .adjective <$> NamedAdjectiveRecord.ofArguments e args
  | some .gerund =>
    .noun <$> NamedNounRecord.ofArguments e (NounRecord.gerundArguments args) "gerunds"
  | some .pronoun => .pronoun <$> liftFault (PronounRecord.ofArguments e.toEngine args)
  | none => .error (.fault (.unknownTemplate name))

/-- The arguments of the first template of a text. -/
def readArguments [Wikitext.Library] (text : String) : Except Crash Arguments :=
  let calls := Wikitext.Library.outerCalls (Text.unbroken text)
  if calls.isEmpty then .error (.fault (.noTemplate (Text.quoted text)))
  else Wikitext.Call.arguments <$> item calls 0

/-- Declines the first template of a text. -/
def declineText [Wikitext.Library] (e : Engine) (text : String) : Except Crash NamedDeclined := do
  declineArguments e (← readArguments text)

/-- A record whose slots are read by their names. -/
def NamedRecord.ofRecord (r : Record) : NamedRecord where
  title := r.title
  num := r.num
  propses := r.propses
  forms := r.forms.mapKeys Slot.name
  notes := r.notes.map fun row => (row.1.text, row.2)
  footnotes := r.footnotes
  categories := r.categories
  overridden := r.overridden.map Slot.name
  pos := r.pos
  numType := r.numType
  indecl := r.indecl
  lemmas := r.lemmas

def NamedNounRecord.ofRecord (r : NounRecord) : NamedNounRecord :=
  { NamedRecord.ofRecord r.toRecord with gender := r.gender }

def NamedAdjectiveRecord.ofRecord (r : AdjectiveRecord) : NamedAdjectiveRecord :=
  { NamedRecord.ofRecord r.toRecord with voc := r.voc, noneut := r.noneut }

def NamedDeclined.ofDeclined : Declined → NamedDeclined
  | .noun r => .noun (.ofRecord r)
  | .adjective r => .adjective (.ofRecord r)
  | .pronoun r => .pronoun r

section Slots

theorem isExcluded_name (num : Option NumberUse) (slot : Slot) :
    isExcluded num slot.name = Declension.isExcluded num slot := by
  have hmarks : ∀ slot ∈ Slot.all,
      Text.occurs "_sg".toList slot.name.toList = decide (slot.number = .sg) ∧
        Text.occurs "_pl".toList slot.name.toList = decide (slot.number = .pl) := by
    decide +kernel
  obtain ⟨hsg, hpl⟩ := hmarks slot slot.mem_all
  rw [isExcluded, Declension.isExcluded, hsg, hpl]
  cases num with
  | none => rfl
  | some num => cases num <;> cases slot.number <;> rfl

theorem endsIn_n_name (slot : Slot) :
    Text.endsIn "_n" slot.name = decide (slot.gender? = some .n) := by
  have hends : ∀ slot ∈ Slot.all,
      Text.endsIn "_n" slot.name = decide (slot.gender? = some .n) := by
    decide +kernel
  exact hends slot slot.mem_all

theorem get?_linkedToPlain {isAdj : Bool} {slot : Slot} (h : slot ∈ Slot.run isAdj) :
    (linkedToPlain isAdj).get? slot.name = (plainOf? slot).map Slot.name := by
  have hall : ∀ slot ∈ Slot.run isAdj,
      (linkedToPlain isAdj).get? slot.name = (plainOf? slot).map Slot.name := by
    cases isAdj <;> decide +kernel
  exact hall slot h

theorem locatives_eq : ["loc_sg", "loc_pl"] = NounRecord.locatives.map Slot.name := by
  decide +kernel

theorem cellsOf_eq (c : Case) :
    NamedAdjectiveRecord.cellsOf c.name = (AdjectiveRecord.cellsOf c).map Slot.name := by
  cases c <;> decide +kernel

theorem column_eq (g : Gender) :
    NamedAdjectiveRecord.column g.name = (AdjectiveRecord.column g).map Slot.name := by
  cases g <;> decide +kernel

end Slots

section Forms

theorem shown_eq (forms : List String) : shown forms = .ok (Declension.shown forms) := by
  cases forms with
  | nil => rfl
  | cons first rest => rfl

theorem validForms_sheet (m : FormMap) : validForms (sheet m) = .ok (m.mapKeys Slot.name) := by
  have hentries : (sheet m).entries = m.entries.map fun row => (row.1.name, some row.2) := by
    rw [sheet, FormSheet.byName, FormSheet.ofMap, OrderedMap.mapKeys, OrderedMap.mapValues,
      List.map_map]
    rfl
  refine bind_eq_ok.mpr ⟨_, mapM_eq_ok.mpr ?_, rfl⟩
  rw [hentries]
  exact List.forall₂_map_left_iff.mpr (List.forall₂_map_right_iff.mpr
    (List.forall₂_same.mpr fun _ _ => rfl))

/-- Slots are left out by their names from whatever shows a map of forms by names. -/
theorem foldl_erase_name {α : Type} {view : FormMap → OrderedMap String α}
    (h : ∀ m slot, (view m).erase slot.name = view (m.erase slot)) (slots : List Slot)
    (m : FormMap) : (slots.map Slot.name).foldl OrderedMap.erase (view m) =
      view (eraseSlots slots m) := by
  unfold eraseSlots
  induction slots generalizing m with
  | nil => rfl
  | cons slot slots ih => rw [List.map_cons, List.foldl_cons, List.foldl_cons, h, ih]

theorem erase_sheet (m : FormMap) (slot : Slot) :
    (sheet m).erase slot.name = sheet (m.erase slot) := by
  have hvalues : OrderedMap.erase (FormSheet.ofMap m) slot = FormSheet.ofMap (m.erase slot) := by
    simp only [FormSheet.ofMap, OrderedMap.mapValues, OrderedMap.erase, List.filter_map,
      Function.comp_def]
  rw [sheet, FormSheet.byName, ← OrderedMap.mapKeys_erase Slot.name_injective, hvalues]
  rfl

theorem erase_names (m : FormMap) (slot : Slot) :
    (m.mapKeys Slot.name).erase slot.name = (m.erase slot).mapKeys Slot.name :=
  (OrderedMap.mapKeys_erase Slot.name_injective m slot).symm

end Forms

section Arguments
variable {isAdj : Bool} (args : Arguments) {slot : Slot}

theorem linkedForms_eq (h : slot ∈ Slot.run isAdj) :
    linkedForms isAdj args slot.name = .ok (linkedForms? args slot) := by
  have hplain := get?_linkedToPlain h
  unfold linkedForms linkedForms?
  rw [OrderedMap.contains, value, hplain]
  cases plainOf? slot with
  | none => rfl
  | some plain =>
    refine bind_eq_ok.mpr ⟨plain.name, rfl, ?_⟩
    rw [OrderedMap.contains, value, Option.bind_some]
    cases args.get? plain.name <;> rfl

theorem argumentForms_noun (h : slot ∈ Slot.run false) :
    argumentForms false args slot.name = .ok (nounForms? args slot) := by
  rw [argumentForms, linkedForms_eq args h, nounForms?, OrderedMap.contains, value,
    SlotName.isLinked_name]
  cases args.get? slot.name with
  | none => rfl
  | some text => rfl

theorem argumentForms_adjective (h : slot ∈ Slot.run true) :
    argumentForms true args slot.name = .ok (adjectiveForms? args slot) := by
  rw [argumentForms, linkedForms_eq args h, adjectiveForms?, value, SlotName.isLinked_name]
  cases args.get? slot.name with
  | none => rfl
  | some text =>
    by_cases htext : text = ""
    · subst htext
      rfl
    · have hgiven : given (some text) = some text := Option.filter_some_pos (by simpa using htext)
      rw [hgiven]
      rfl

end Arguments

section Overrides
variable {slot : Slot}

theorem get?_names (m : FormMap) (slot : Slot) :
    (m.mapKeys Slot.name).get? slot.name = m.get? slot :=
  OrderedMap.get?_mapKeys Slot.name_injective m slot

theorem insert_names (m : FormMap) (slot : Slot) (forms : List String) :
    (m.mapKeys Slot.name).insert slot.name forms = (m.insert slot forms).mapKeys Slot.name :=
  (OrderedMap.mapKeys_insert Slot.name_injective m slot forms).symm

namespace NamedNounRecord

theorem mark_ofRecord (r : NounRecord) (slot : Slot) : (ofRecord r).mark slot.name =
    ofRecord { r with overridden := r.overridden ++ [slot] } := by
  simp [mark, ofRecord, NamedRecord.ofRecord]

theorem fillSlot_ofRecord (r : NounRecord) (slot : Slot) (forms? : Option (List String)) :
    (ofRecord r).fillSlot slot.name forms? = .ok (ofRecord (match forms? with
      | none => r
      | some forms =>
        { r with
          forms := r.forms.insert slot
            (if Declension.isExcluded r.num slot then [""] else Declension.shown forms) })) := by
  cases forms? with
  | none => rfl
  | some forms =>
    rw [fillSlot, isExcluded_name, shown_eq]
    cases hexcluded : Declension.isExcluded r.num slot <;>
      simp [ofRecord, NamedRecord.ofRecord, ← insert_names, hexcluded]

/-- Under names a slot of a noun is overridden as it is otherwise. -/
theorem overrideSlot_ofRecord (args : Arguments) (h : slot ∈ Slot.run false) (r : NounRecord) :
    (ofRecord r).overrideSlot args slot.name = .ok (ofRecord (r.overrideSlot args slot)) := by
  refine bind_eq_ok.mpr ⟨_, argumentForms_noun args h, ?_⟩
  unfold NounRecord.overrideSlot
  cases nounForms? args slot with
  | none => exact (congrArg _ (get?_names _ _)).trans (fillSlot_ofRecord r slot _)
  | some forms =>
    refine (congrArg (fillSlot · slot.name _) (mark_ofRecord r slot)).trans ?_
    exact fillSlot_ofRecord { r with overridden := r.overridden ++ [slot] } slot (some forms)

end NamedNounRecord

namespace NamedAdjectiveRecord

theorem mark_ofRecord (r : AdjectiveRecord) (slot : Slot) : (ofRecord r).mark slot.name =
    ofRecord { r with overridden := r.overridden ++ [slot] } := by
  simp [mark, ofRecord, NamedRecord.ofRecord]

theorem dropNeuter_ofRecord (r : AdjectiveRecord) (slot : Slot) :
    (ofRecord r).dropNeuter slot.name = ofRecord
      (if r.noneut && slot.gender? = some .n then { r with forms := r.forms.erase slot } else r) := by
  rw [dropNeuter, endsIn_n_name]
  by_cases hdrop : r.noneut && slot.gender? = some .n
  · rw [if_pos hdrop]
    refine (if_pos hdrop).trans ?_
    simp [ofRecord, NamedRecord.ofRecord, ← erase_names]
  · rw [if_neg hdrop]
    exact if_neg hdrop

theorem fillSlot_ofRecord (r : AdjectiveRecord) (slot : Slot) (forms? : Option (List String)) :
    (ofRecord r).fillSlot slot.name forms? = .ok (ofRecord (match forms? with
      | none => r
      | some forms =>
        { r with
          forms := if Declension.isExcluded r.num slot then r.forms.erase slot
            else r.forms.insert slot (Declension.shown forms) })) := by
  cases forms? with
  | none => rfl
  | some forms =>
    rw [fillSlot, isExcluded_name, shown_eq]
    cases hexcluded : Declension.isExcluded r.num slot <;>
      simp [ofRecord, NamedRecord.ofRecord, ← insert_names, ← erase_names, hexcluded]

/-- Under names a slot of an adjective is overridden as it is otherwise. -/
theorem overrideSlot_ofRecord (args : Arguments) (h : slot ∈ Slot.run true)
    (r : AdjectiveRecord) :
    (ofRecord r).overrideSlot args slot.name = .ok (ofRecord (r.overrideSlot args slot)) := by
  refine bind_eq_ok.mpr ⟨_, argumentForms_adjective args h, ?_⟩
  unfold AdjectiveRecord.overrideSlot
  dsimp only
  rw [dropNeuter_ofRecord]
  generalize (if r.noneut && slot.gender? = some .n then
    { r with forms := r.forms.erase slot } else r) = r
  cases adjectiveForms? args slot with
  | none => exact (congrArg _ (get?_names _ _)).trans (fillSlot_ofRecord r slot _)
  | some forms =>
    refine (congrArg (fillSlot · slot.name _) (mark_ofRecord r slot)).trans ?_
    exact fillSlot_ofRecord { r with overridden := r.overridden ++ [slot] } slot (some forms)

theorem name_cell (c : Case) (n : Number) (g : Gender) :
    (Slot.cell c n (some g)).name = c.name ++ "_" ++ n.name ++ "_" ++ g.name := by
  simp [Slot.name, Slot.suffix, String.append_assoc]

theorem dropColumn_names (m : FormMap) (g : Gender) :
    dropColumn (m.mapKeys Slot.name) g.name = (AdjectiveRecord.dropColumn m g).mapKeys Slot.name := by
  have hrepeats : (cases.all fun c => numbers.all fun n =>
      (m.mapKeys Slot.name).get? (c ++ "_" ++ n ++ "_" ++ g.name) =
        (m.mapKeys Slot.name).get? (c ++ "_" ++ n ++ "_m")) =
      AdjectiveRecord.repeatsMasculine m g := by
    have hcases : cases = Case.all.map Case.name := rfl
    have hnumbers : numbers = Number.all.map Number.name := rfl
    have hmasculine : ∀ c n, c ++ "_" ++ n ++ "_m" = c ++ "_" ++ n ++ "_" ++ Gender.m.name := by
      intro c n
      simp [Gender.name, String.append_assoc]
    simp only [hcases, hnumbers, hmasculine, List.all_map, AdjectiveRecord.repeatsMasculine,
      AdjectiveRecord.column, List.all_flatMap, Function.comp_def, ← name_cell, get?_names]
    rfl
  rw [dropColumn, hrepeats, column_eq, foldl_erase_name erase_names, AdjectiveRecord.dropColumn]
  split <;> rfl

end NamedAdjectiveRecord

/-- Going through the slots by names is going through them. -/
theorem foldlM_runSlots {α β : Type} {isAdj : Bool} {view : α → β}
    {f : β → String → Except Crash β} {g : α → Slot → α}
    (h : ∀ slot ∈ Slot.run isAdj, ∀ a, f (view a) slot.name = .ok (view (g a slot))) (a : α) :
    (runSlots isAdj).foldlM f (view a) = .ok (view ((Slot.run isAdj).foldl g a)) := by
  rw [runSlots_eq]
  generalize Slot.run isAdj = slots at h ⊢
  induction slots generalizing a with
  | nil => rfl
  | cons slot slots ih =>
    obtain ⟨hslot, hslots⟩ := List.forall_mem_cons.mp h
    rw [List.map_cons, List.foldlM_cons, hslot]
    exact ih _ hslots

end Overrides

section Records

theorem recordTitle_eq (argument : Option String) (title : String) (loc : Bool)
    (num : Option NumberUse) : recordTitle argument title loc num =
      .ok (Declension.recordTitle argument title loc num) := by
  unfold recordTitle Declension.recordTitle
  cases given argument with
  | some argument => rfl
  | none =>
    by_cases htitle : title = ""
    · subst htitle
      rfl
    · obtain ⟨first, rest, hchars⟩ := List.exists_cons_of_ne_nil
        (mt String.toList_eq_nil_iff.mp htitle)
      rw [Text.capitalize, hchars, if_neg htitle, if_neg htitle]
      rfl

variable {isAdj : Bool} {d : Composed} {c : Composition}

theorem flattenNotes_eq (h : d.Matches isAdj (closed c)) :
    flattenNotes isAdj d = (c.notes isAdj).map fun row => (row.1.text, row.2) := by
  rw [flattenNotes, Composition.notes, runSlots_eq, List.flatMap_map, List.map_flatMap]
  refine List.flatMap_congr fun slot hslot => ?_
  rw [h.notes slot hslot, List.map_map]
  rfl

theorem newRecord_eq (h : d.Matches isAdj (closed c)) (args : Arguments) (pos : String) (r : Run)
    (forms : FormMap) : newRecord args pos isAdj r d (sheet forms) =
      .ok (.ofRecord (Record.ofComposition args pos isAdj r c forms)) := by
  have hfootnotes : d.footnotes = c.footnotes := h.footnotes
  have hcategories : d.categories = c.categories := h.categories
  unfold newRecord
  rw [recordTitle_eq, h.title_eq, checkUse_eq, validForms_sheet, flattenNotes_eq h,
    hfootnotes, hcategories]
  rfl

theorem applyOverrides_noun (args : Arguments) (r : NounRecord) :
    (runSlots false).foldlM (NamedNounRecord.overrideSlot args) (.ofRecord r) =
      .ok (.ofRecord (NounRecord.applyOverrides args r)) :=
  foldlM_runSlots (fun _ hslot r => NamedNounRecord.overrideSlot_ofRecord args hslot r) r

theorem complete_adjective (e : Engine) (args : Arguments) (r : AdjectiveRecord) :
    NamedAdjectiveRecord.complete e args (.ofRecord r) =
      .ok (.ofRecord (if e.options.populateAllTerminations then r.applyOverrides args
        else { r.applyOverrides args with
          forms := AdjectiveRecord.dropColumns (r.applyOverrides args).forms })) := by
  have hfilled : (runSlots true).foldlM (NamedAdjectiveRecord.overrideSlot args) (.ofRecord r) =
      .ok (.ofRecord (r.applyOverrides args)) :=
    foldlM_runSlots (fun _ hslot r => NamedAdjectiveRecord.overrideSlot_ofRecord args hslot r) r
  have hcolumns : ∀ m : FormMap,
      ["f", "n"].foldl NamedAdjectiveRecord.dropColumn (m.mapKeys Slot.name) =
        (AdjectiveRecord.dropColumns m).mapKeys Slot.name := by
    intro m
    have hfeminine := NamedAdjectiveRecord.dropColumn_names m .f
    have hneuter := NamedAdjectiveRecord.dropColumn_names (AdjectiveRecord.dropColumn m .f) .n
    rw [← hfeminine] at hneuter
    exact hneuter
  refine bind_eq_ok.mpr ⟨_, hfilled, ?_⟩
  cases e.options.populateAllTerminations with
  | true => rfl
  | false =>
    refine congrArg Except.ok ?_
    simp only [Bool.false_eq_true, if_false, NamedAdjectiveRecord.ofRecord, NamedRecord.ofRecord,
      hcolumns]

/-- A choice between leaving slots out and keeping them all is the same by names. -/
theorem ite_erase_sheet {b : Bool} {slots : List Slot} {erased : List String}
    (h : erased = slots.map Slot.name) (m : FormMap) :
    (if b then sheet m else erased.foldl OrderedMap.erase (sheet m)) =
      sheet (if b then m else eraseSlots slots m) := by
  rw [h, foldl_erase_name erase_sheet]
  cases b <;> rfl

theorem contains_zero_arguments (c : Wikitext.Call) : c.arguments.contains "0" := by
  rw [OrderedMap.contains_iff_mem_keys, Wikitext.Call.arguments, OrderedMap.ofList,
    OrderedMap.mem_keys_insertMany]
  simp

theorem readArguments_refines [Wikitext.Library] (text : String) :
    Refines (fun a b => a = b ∧ ∃ name, b.get? "0" = some name) (readArguments text)
      (Arguments.read text) := by
  unfold readArguments Arguments.read
  cases Wikitext.Library.outerCalls (Text.unbroken text) with
  | nil => exact .error _
  | cons c calls => exact .ok ⟨rfl, Option.isSome_iff_exists.mp (contains_zero_arguments c)⟩

variable {e : Engine} (he : e.Accepted) (args : Arguments)
include he

theorem ofArguments_noun (pos : String) :
    Refines (fun n r => n = .ofRecord r) (NamedNounRecord.ofArguments e args pos)
      (NounRecord.ofArguments e.toEngine args pos) := by
  refine (readRun_refines _ _).bind_eq fun run => ?_
  refine (composeRun_refines he pos _).bind fun d c h => ?_
  generalize settleRun args NounRecord.locatives run = run at h ⊢
  have hforms : d.forms = sheet (c.forms false) := h.forms
  dsimp only
  rw [hforms, ite_erase_sheet locatives_eq]
  refine .bind_left (newRecord_eq h args pos run _) (.bind_left (checkUse_eq _ _) ?_)
  have hfilled := applyOverrides_noun args
    { Record.ofComposition args pos false run c
        (if run.summary.loc then c.forms false
          else eraseSlots NounRecord.locatives (c.forms false)) with
      gender := run.summary.gender }
  exact .of_eq hfilled rfl rfl

theorem ofArguments_adjective :
    Refines (fun n r => n = .ofRecord r) (NamedAdjectiveRecord.ofArguments e args)
      (AdjectiveRecord.ofArguments e.toEngine args) := by
  refine (readRun_refines _ _).bind_eq fun run => ?_
  refine (composeRun_refines he "adjectives" _).bind fun d c h => ?_
  generalize settleRun args (AdjectiveRecord.cellsOf .loc) run = run at h ⊢
  have hforms : d.forms = sheet (c.forms true) := h.forms
  have hvoc : d.voc = c.voc := h.voc
  have hnoneut : d.noneut = c.noneut := h.noneut
  have hlocatives : NamedAdjectiveRecord.cellsOf "loc" =
      (AdjectiveRecord.cellsOf .loc).map Slot.name := cellsOf_eq .loc
  have hvocatives : NamedAdjectiveRecord.cellsOf "voc" =
      (AdjectiveRecord.cellsOf .voc).map Slot.name := cellsOf_eq .voc
  dsimp only
  rw [hforms, hvoc, hnoneut, ite_erase_sheet hlocatives, hvocatives, ite_erase_sheet rfl]
  refine .bind_left (newRecord_eq h args "adjectives" run _) ?_
  exact .of_eq (complete_adjective e args
    { Record.ofComposition args "adjectives" true run c _ with
      voc := c.voc, noneut := args.contains "noneut" || c.noneut }) rfl rfl

theorem declineArguments_refines {name : String} (hname : args.get? "0" = some name) :
    Refines (fun n r => n = .ofDeclined r) (declineArguments e args)
      (Declension.declineArguments e.toEngine args) := by
  unfold declineArguments Declension.declineArguments
  rw [Arguments.getD, hname, Option.getD_some]
  refine .bind_left (value_eq_ok hname) ?_
  dsimp only
  cases TemplateKind.ofName? name with
  | none => exact .error _
  | some kind =>
    cases kind with
    | noun => exact (ofArguments_noun he args "nouns").map fun _ _ h => congrArg _ h
    | adjective => exact (ofArguments_adjective he args).map fun _ _ h => congrArg _ h
    | gerund =>
      exact (ofArguments_noun he (NounRecord.gerundArguments args) "gerunds").map
        fun _ _ h => congrArg _ h
    | pronoun =>
      exact (Refines.refl (PronounRecord.ofArguments e.toEngine args)).map
        fun _ _ h => congrArg _ h

theorem declineText_refines [Wikitext.Library] (text : String) :
    Refines (fun n r => n = .ofDeclined r) (declineText e text)
      (Declension.declineText e.toEngine text) := by
  refine (readArguments_refines text).bind ?_
  rintro args _ ⟨rfl, name, hname⟩
  exact declineArguments_refines he args hname

end Records

end Declension.Checked
