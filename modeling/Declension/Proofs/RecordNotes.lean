import Declension.Proofs.Composition
import Declension.Proofs.Scan
import Declension.Proofs.Sheet
import Declension.Record.Adjective
import Declension.Record.Noun
import Declension.Tables.Latin

/-!
# Notes of records

The notes of a record are those of the composed run, told by slot and place. The slots of the
record are filled anew after that: from the template, with blanks and dashes, or not at all. Where
a slot keeps what was composed, its notes are on the forms they were composed for. Main statement:
`form_of_note`, with an overridden genitive and a pronoun of one number for what happens to the
notes of other slots.
-/
namespace Declension

theorem Composition.mem_notes {c : Composition} {isAdj : Bool}
    {entry : NoteKey × List String} : entry ∈ c.notes isAdj ↔
      ∃ slot ∈ Slot.run isAdj, ∃ place notes, (place, notes) ∈ (c.cell slot).notes.entries ∧
        (.form slot place, notes) = entry := by
  simp [notes, List.mem_flatMap, List.mem_mergeSort]

theorem Composition.exists_of_mem_notes {c : Composition} (h : c.IsNormal) {isAdj : Bool}
    {entry : NoteKey × List String} (hentry : entry ∈ c.notes isAdj) :
    ∃ slot ∈ Slot.run isAdj, ∃ place form,
      entry = (.form slot place, (c.cell slot).notesAt place) ∧
        (c.cell slot).forms[place]? = some form := by
  obtain ⟨slot, hslot, place, notes, hnotes, rfl⟩ := mem_notes.mp hentry
  rw [h.cell slot] at hnotes
  obtain ⟨hlt, rfl, _⟩ := Cell.mem_placed.mp hnotes
  exact ⟨slot, hslot, place, _, rfl, List.getElem?_eq_getElem hlt⟩

theorem shown_fields (sep : Char) (text : String) :
    shown (Text.fields sep text) =
      if (Text.fields sep text).headD "" ∈ emptyMarks then [dash] else Text.fields sep text := by
  obtain ⟨field, rest, hfields, -, -⟩ := Text.exists_fieldsChars sep text.toList
  simp [shown, Text.fields, hfields]

theorem get?_eraseSlots (slots : List Slot) (m : FormMap) (slot : Slot) :
    (eraseSlots slots m).get? slot = if slot ∈ slots then none else m.get? slot := by
  unfold eraseSlots
  induction slots generalizing m with
  | nil => simp
  | cons s slots ih =>
    rw [List.foldl_cons, ih, OrderedMap.get?_erase]
    by_cases hs : s = slot
    · subst hs
      simp
    · simp [hs, Ne.symm hs]

namespace NounRecord

/-- The run of a template, in the use the template makes of it, and what it declines to. -/
def composed (e : Engine) (args : Arguments) (pos : String) : Except Fault (Run × Composition) := do
  let run ← Run.read e.tables (Text.trim (args.getD "1" ""))
  let run := settleRun args locatives run
  let c ← run.compose e pos false
  return (run, c)

/-- The forms of a composed run that enter its record. -/
def entered (run : Run) (c : Composition) : FormMap :=
  if run.summary.loc then c.forms false else eraseSlots locatives (c.forms false)

/-- The record of a composed run. -/
def ofComposed (args : Arguments) (pos : String) (run : Run) (c : Composition) : NounRecord :=
  applyOverrides args
    { Record.ofComposition args pos false run c (entered run c) with gender := run.summary.gender }

theorem ofArguments_eq_ok {e : Engine} {args : Arguments} {pos : String} {r : NounRecord} :
    ofArguments e args pos = .ok r ↔
      ∃ run c, composed e args pos = .ok (run, c) ∧ ofComposed args pos run c = r := by
  unfold ofArguments composed
  simp only [bind_eq_ok]
  constructor
  · rintro ⟨run, hrun, c, hc, h⟩
    exact ⟨_, c, ⟨run, hrun, c, hc, rfl⟩, Except.ok.inj h⟩
  · rintro ⟨run', c', ⟨run, hrun, c, hc, h⟩, rfl⟩
    cases h
    exact ⟨run, hrun, _, hc, rfl⟩

theorem isNormal_of_composed {e : Engine} {args : Arguments} {pos : String} {run : Run}
    {c : Composition} (h : composed e args pos = .ok (run, c)) : c.IsNormal := by
  obtain ⟨_, _, h⟩ := bind_eq_ok.mp h
  obtain ⟨_, hc, h⟩ := bind_eq_ok.mp h
  cases h
  exact Run.isNormal_of_compose e pos false hc

/-- Whether the record shows in a slot what was composed: the template gives no forms, the slot is
in the number of the record and not a locative left out, and its forms do not stand for none. -/
structure Keeps (args : Arguments) (run : Run) (c : Composition) (slot : Slot) : Prop where
  given : nounForms? args slot = none
  number : isExcluded run.summary.num slot = false
  locative : slot ∈ locatives → run.summary.loc
  shown : shown (c.cell slot).forms = (c.cell slot).forms

variable {args : Arguments} {run : Run} {c : Composition} {slot : Slot} {r : NounRecord}
  {slots : List Slot}

/-- What a slot is filled with, from the template or from what is there. -/
def filled? (args : Arguments) (num : Option NumberUse) (slot : Slot)
    (forms : Option (List String)) : Option (List String) :=
  (nounForms? args slot <|> forms).map fun forms =>
    if isExcluded num slot then [""] else shown forms

theorem eq_none_of_filled? {num : Option NumberUse} {forms : Option (List String)}
    (h : filled? args num slot forms = none) : forms = none := by
  cases forms with
  | none => rfl
  | some forms => cases hgiven : nounForms? args slot <;> simp [filled?, hgiven] at h

theorem overrideSlot_eq (args : Arguments) (r : NounRecord) (t : Slot) :
    overrideSlot args r t = { r with
      forms := match filled? args r.num t (r.forms.get? t) with
        | some forms => r.forms.insert t forms
        | none => r.forms
      overridden := r.overridden ++ [t].filter fun t => (nounForms? args t).isSome } := by
  unfold overrideSlot filled?
  cases hgiven : nounForms? args t with
  | none => cases hforms : r.forms.get? t <;> simp [hgiven, hforms]
  | some forms => simp [hgiven]

theorem get?_forms_overrideSlot (args : Arguments) (r : NounRecord) (t slot : Slot) :
    (overrideSlot args r t).forms.get? slot =
      if slot = t then filled? args r.num slot (r.forms.get? slot) else r.forms.get? slot := by
  rw [overrideSlot_eq]
  dsimp only
  by_cases ht : slot = t
  · subst ht
    rw [if_pos rfl]
    cases hfilled : filled? args r.num slot (r.forms.get? slot) with
    | some forms => simp
    | none => exact eq_none_of_filled? hfilled
  · rw [if_neg ht]
    split
    · simp [Ne.symm ht]
    · rfl

/-- Slots that are filled one after the other are filled each from its own forms. -/
theorem get?_forms_foldl_overrideSlot (h : slots.Nodup) (r : NounRecord) (slot : Slot) :
    (slots.foldl (overrideSlot args) r).forms.get? slot =
      if slot ∈ slots then filled? args r.num slot (r.forms.get? slot)
      else r.forms.get? slot := by
  induction slots generalizing r with
  | nil => simp
  | cons t slots ih =>
    obtain ⟨ht, hslots⟩ := List.nodup_cons.mp h
    have hnum : (overrideSlot args r t).num = r.num := by rw [overrideSlot_eq]
    rw [List.foldl_cons, ih hslots, hnum, get?_forms_overrideSlot]
    by_cases hslot : slot = t
    · subst hslot
      simp [ht]
    · simp [hslot]

/-- Filling slots changes nothing but the forms and what is said to be given. -/
theorem foldl_overrideSlot_eq (r : NounRecord) (slots : List Slot) :
    slots.foldl (overrideSlot args) r = { r with
      forms := (slots.foldl (overrideSlot args) r).forms
      overridden := (slots.foldl (overrideSlot args) r).overridden } := by
  induction slots generalizing r with
  | nil => rfl
  | cons t slots ih =>
    rw [List.foldl_cons]
    refine (ih _).trans ?_
    rw [overrideSlot_eq]

theorem notes_applyOverrides (args : Arguments) (r : NounRecord) :
    (applyOverrides args r).notes = r.notes := by
  rw [applyOverrides, foldl_overrideSlot_eq]

theorem num_applyOverrides (args : Arguments) (r : NounRecord) :
    (applyOverrides args r).num = r.num := by
  rw [applyOverrides, foldl_overrideSlot_eq]

theorem get?_forms_ofComposed (args : Arguments) (pos : String) (run : Run) (c : Composition)
    (slot : Slot) : (ofComposed args pos run c).forms.get? slot =
      if slot ∈ Slot.run false then filled? args run.summary.num slot ((entered run c).get? slot)
      else (entered run c).get? slot := by
  unfold ofComposed applyOverrides
  rw [get?_forms_foldl_overrideSlot (Slot.nodup_run false)]
  rfl

/-- Whether the record fills a slot with what was composed: the template gives no forms, and the
slot is in the number of the record and not a locative left out. -/
structure IsOpen (args : Arguments) (run : Run) (slot : Slot) : Prop where
  given : nounForms? args slot = none
  number : isExcluded run.summary.num slot = false
  locative : slot ∈ locatives → run.summary.loc

theorem Keeps.isOpen (h : Keeps args run c slot) : IsOpen args run slot :=
  ⟨h.given, h.number, h.locative⟩

theorem get?_entered (hslot : slot ∈ Slot.run false) (h : slot ∈ locatives → run.summary.loc) :
    (entered run c).get? slot = some (c.cell slot).forms := by
  have hcomposed : (c.forms false).get? slot = some (c.cell slot).forms := by
    rw [Composition.get?_forms, if_pos hslot]
  unfold entered
  split
  · exact hcomposed
  · rw [get?_eraseSlots, if_neg (mt h ‹_›), hcomposed]

theorem get?_ofComposed_of_isOpen (hslot : slot ∈ Slot.run false) (h : IsOpen args run slot)
    (pos : String) :
    (ofComposed args pos run c).forms.get? slot = some (Declension.shown (c.cell slot).forms) := by
  rw [get?_forms_ofComposed, if_pos hslot, filled?, h.given, get?_entered hslot h.locative]
  simp [h.number]

theorem get?_ofComposed (hslot : slot ∈ Slot.run false) (h : Keeps args run c slot)
    (pos : String) : (ofComposed args pos run c).forms.get? slot = some (c.cell slot).forms := by
  rw [get?_ofComposed_of_isOpen hslot h.isOpen, h.shown]

theorem notes_ofComposed (args : Arguments) (pos : String) (run : Run) (c : Composition) :
    (ofComposed args pos run c).notes = c.notes false :=
  notes_applyOverrides _ _

end NounRecord

namespace AdjectiveRecord

/-- The run of a template, in the use the template makes of it, and what it declines to. -/
def composed (e : Engine) (args : Arguments) (pos : String) : Except Fault (Run × Composition) := do
  let run ← Run.read e.tables (completeSpec args (Text.trim (args.getD "1" "")))
  let run := settleRun args (cellsOf .loc) run
  let c ← run.compose e pos true
  return (run, c)

/-- Whether the vocative is in use, or given by the template. -/
def hasVocative (args : Arguments) (c : Composition) : Bool :=
  args.hasAny ((cellsOf .voc).map Slot.name) || c.voc

def lacksNeuter (args : Arguments) (c : Composition) : Bool := args.contains "noneut" || c.noneut

/-- The forms of a composed run that enter its record. -/
def entered (args : Arguments) (run : Run) (c : Composition) : FormMap :=
  let forms := c.forms true
  let forms := if run.summary.loc then forms else eraseSlots (cellsOf .loc) forms
  if hasVocative args c then forms else eraseSlots (cellsOf .voc) forms

/-- The record of a composed run with all columns. -/
def filled (args : Arguments) (pos : String) (run : Run) (c : Composition) : AdjectiveRecord :=
  applyOverrides args
    { Record.ofComposition args pos true run c (entered args run c) with
      voc := c.voc, noneut := lacksNeuter args c }

/-- The record of a composed run. -/
def ofComposed (o : Options) (args : Arguments) (pos : String) (run : Run) (c : Composition) :
    AdjectiveRecord :=
  let r := filled args pos run c
  if o.populateAllTerminations then r else { r with forms := dropColumns r.forms }

theorem ofArguments_eq_ok {e : Engine} {args : Arguments} {pos : String} {r : AdjectiveRecord} :
    ofArguments e args pos = .ok r ↔
      ∃ run c, composed e args pos = .ok (run, c) ∧ ofComposed e.options args pos run c = r := by
  unfold ofArguments composed
  simp only [bind_eq_ok]
  constructor
  · rintro ⟨run, hrun, c, hc, h⟩
    exact ⟨_, c, ⟨run, hrun, c, hc, rfl⟩, Except.ok.inj h⟩
  · rintro ⟨run', c', ⟨run, hrun, c, hc, h⟩, rfl⟩
    cases h
    exact ⟨run, hrun, _, hc, rfl⟩

theorem isNormal_of_composed {e : Engine} {args : Arguments} {pos : String} {run : Run}
    {c : Composition} (h : composed e args pos = .ok (run, c)) : c.IsNormal := by
  obtain ⟨_, _, h⟩ := bind_eq_ok.mp h
  obtain ⟨_, hc, h⟩ := bind_eq_ok.mp h
  cases h
  exact Run.isNormal_of_compose e pos true hc

/-- Whether the record shows in a slot what was composed: the template gives no forms, the slot is
in the number of the record, its forms do not stand for none, and neither the locative, the
vocative, the neuter nor a column that repeats the masculine is left out with it. -/
structure Keeps (o : Options) (args : Arguments) (pos : String) (run : Run) (c : Composition)
    (slot : Slot) : Prop where
  given : adjectiveForms? args slot = none
  number : isExcluded run.summary.num slot = false
  shown : shown (c.cell slot).forms = (c.cell slot).forms
  locative : slot ∈ cellsOf .loc → run.summary.loc
  vocative : slot ∈ cellsOf .voc → hasVocative args c
  neuter : slot.gender? = some .n → lacksNeuter args c = false
  column : o.populateAllTerminations = false → ∀ g ∈ [Gender.f, .n], slot ∈ column g →
    repeatsMasculine (filled args pos run c).forms g = false

variable {o : Options} {args : Arguments} {pos : String} {run : Run} {c : Composition}
  {slot : Slot} {slots : List Slot} {r : AdjectiveRecord} {m : FormMap} {g : Gender}

/-- What a slot comes to hold, from the template or from what is there. A slot outside the number
of the record comes to hold nothing, and so does a neuter one of a word without neuter unless the
template gives it. -/
def slotForms? (args : Arguments) (num : Option NumberUse) (noneut : Bool) (slot : Slot)
    (forms : Option (List String)) : Option (List String) :=
  (adjectiveForms? args slot <|> if noneut ∧ slot.gender? = some .n then none else forms).bind
    fun forms => if isExcluded num slot then none else some (Declension.shown forms)

theorem overrideSlot_eq (args : Arguments) (r : AdjectiveRecord) (t : Slot) :
    overrideSlot args r t = { r with
      forms := (overrideSlot args r t).forms
      overridden := r.overridden ++ [t].filter fun t => (adjectiveForms? args t).isSome } := by
  unfold overrideSlot
  dsimp only
  split <;> split <;> split <;> simp_all

theorem get?_forms_overrideSlot (args : Arguments) (r : AdjectiveRecord) (t slot : Slot) :
    (overrideSlot args r t).forms.get? slot =
      if slot = t then slotForms? args r.num r.noneut slot (r.forms.get? slot)
      else r.forms.get? slot := by
  by_cases ht : slot = t
  · subst ht
    rw [if_pos rfl]
    unfold overrideSlot slotForms?
    cases hgiven : adjectiveForms? args slot with
    | none =>
      by_cases hneuter : r.noneut ∧ slot.gender? = some .n
      · simp [hneuter]
      · cases hforms : r.forms.get? slot <;> by_cases hnumber : isExcluded r.num slot <;>
          simp [hneuter, hforms, hnumber]
    | some forms =>
      by_cases hneuter : r.noneut ∧ slot.gender? = some .n <;>
        by_cases hnumber : isExcluded r.num slot <;> simp [hneuter, hnumber]
  · rw [if_neg ht]
    unfold overrideSlot
    dsimp only
    split <;> split <;> split <;> try split
    all_goals simp [Ne.symm ht]

/-- Slots that are filled one after the other are filled each from its own forms. -/
theorem get?_forms_foldl_overrideSlot (h : slots.Nodup) (r : AdjectiveRecord) (slot : Slot) :
    (slots.foldl (overrideSlot args) r).forms.get? slot =
      if slot ∈ slots then slotForms? args r.num r.noneut slot (r.forms.get? slot)
      else r.forms.get? slot := by
  induction slots generalizing r with
  | nil => simp
  | cons t slots ih =>
    obtain ⟨ht, hslots⟩ := List.nodup_cons.mp h
    have hnum : (overrideSlot args r t).num = r.num := by rw [overrideSlot_eq]
    have hneuter : (overrideSlot args r t).noneut = r.noneut := by rw [overrideSlot_eq]
    rw [List.foldl_cons, ih hslots, hnum, hneuter, get?_forms_overrideSlot]
    by_cases hslot : slot = t
    · subst hslot
      simp [ht]
    · simp [hslot]

/-- So filling all slots does. -/
theorem foldl_overrideSlot_eq (r : AdjectiveRecord) (slots : List Slot) :
    slots.foldl (overrideSlot args) r = { r with
      forms := (slots.foldl (overrideSlot args) r).forms
      overridden := r.overridden ++ slots.filter fun t => (adjectiveForms? args t).isSome } := by
  induction slots generalizing r with
  | nil => simp
  | cons t slots ih =>
    rw [List.foldl_cons]
    refine (ih _).trans ?_
    rw [overrideSlot_eq]
    simp only [List.append_assoc, ← List.filter_append, List.singleton_append]

theorem notes_applyOverrides (args : Arguments) (r : AdjectiveRecord) :
    (applyOverrides args r).notes = r.notes := by
  rw [applyOverrides, foldl_overrideSlot_eq]

theorem get?_forms_filled (args : Arguments) (pos : String) (run : Run) (c : Composition)
    (slot : Slot) : (filled args pos run c).forms.get? slot =
      if slot ∈ Slot.run true then
        slotForms? args run.summary.num (lacksNeuter args c) slot ((entered args run c).get? slot)
      else (entered args run c).get? slot := by
  unfold filled applyOverrides
  rw [get?_forms_foldl_overrideSlot (Slot.nodup_run true)]
  rfl

theorem mem_column : slot ∈ column g ↔ slot.gender? = some g ∧ slot.isLinked = false := by
  rcases slot with ⟨c, n, x⟩ | ⟨n, x⟩
  · cases c <;> cases n <;>
      simp [column, Case.all, Number.all, Slot.gender?, Slot.isLinked, eq_comm]
  · simp [column, Slot.isLinked]

theorem get?_dropColumn (h : slot ∈ column g → repeatsMasculine m g = false) :
    (dropColumn m g).get? slot = m.get? slot := by
  unfold dropColumn
  split
  · rename_i hrepeats
    rw [get?_eraseSlots, if_neg]
    intro hslot
    rw [h hslot] at hrepeats
    cases hrepeats
  · rfl

/-- Dropping the feminine column does not change whether the neuter one repeats the masculine. -/
theorem repeatsMasculine_dropColumn (m : FormMap) :
    repeatsMasculine (dropColumn m .f) .n = repeatsMasculine m .n := by
  have hother : ∀ t : Slot, t.gender? ≠ some .f → (dropColumn m .f).get? t = m.get? t := by
    intro t ht
    exact get?_dropColumn fun hcolumn => absurd (mem_column.mp hcolumn).1 ht
  unfold repeatsMasculine
  rw [Bool.eq_iff_iff, List.all_eq_true, List.all_eq_true]
  refine forall₂_congr fun t ht => ?_
  have hneuter : t.gender? = some .n := (mem_column.mp ht).1
  have hmasculine : (t.agreeing .m).gender? = some .m := by
    cases t <;> rfl
  rw [hother t (by simp [hneuter]), hother (t.agreeing .m) (by simp [hmasculine])]

theorem get?_dropColumns
    (h : ∀ g ∈ [Gender.f, .n], slot ∈ column g → repeatsMasculine m g = false) :
    (dropColumns m).get? slot = m.get? slot := by
  have hneuter : slot ∈ column .n → repeatsMasculine (dropColumn m .f) .n = false := by
    rw [repeatsMasculine_dropColumn]
    exact h .n (by simp)
  calc (dropColumns m).get? slot = (dropColumn (dropColumn m .f) .n).get? slot := rfl
    _ = (dropColumn m .f).get? slot := get?_dropColumn hneuter
    _ = m.get? slot := get?_dropColumn (h .f (by simp))

/-- A slot enters a record unless it is left out with the locative or the vocative. -/
theorem get?_entered (hslot : slot ∈ Slot.run true)
    (hlocative : slot ∈ cellsOf .loc → run.summary.loc)
    (hvocative : slot ∈ cellsOf .voc → hasVocative args c) :
    (entered args run c).get? slot = some (c.cell slot).forms := by
  have hcomposed : (c.forms true).get? slot = some (c.cell slot).forms := by
    rw [Composition.get?_forms, if_pos hslot]
  have hsettled : (if run.summary.loc then c.forms true
      else eraseSlots (cellsOf .loc) (c.forms true)).get? slot = some (c.cell slot).forms := by
    split
    · exact hcomposed
    · rw [get?_eraseSlots, if_neg (mt hlocative ‹_›), hcomposed]
  unfold entered
  dsimp only
  split
  · exact hsettled
  · rw [get?_eraseSlots, if_neg (mt hvocative ‹_›), hsettled]

/-- A slot that is kept has the forms that were composed. -/
theorem get?_ofComposed (hslot : slot ∈ Slot.run true) (h : Keeps o args pos run c slot) :
    (ofComposed o args pos run c).forms.get? slot = some (c.cell slot).forms := by
  have hfilled : (filled args pos run c).forms.get? slot = some (c.cell slot).forms := by
    have hneuter : ¬ (lacksNeuter args c ∧ slot.gender? = some .n) := by
      rintro ⟨hlacks, hgender⟩
      rw [h.neuter hgender] at hlacks
      cases hlacks
    rw [get?_forms_filled, if_pos hslot, slotForms?, h.given, if_neg hneuter,
      get?_entered hslot h.locative h.vocative]
    simp [h.number, h.shown]
  unfold ofComposed
  dsimp only
  split
  · exact hfilled
  · rename_i hdrop
    rw [get?_dropColumns (h.column (by simpa using hdrop)), hfilled]

theorem notes_ofComposed (o : Options) (args : Arguments) (pos : String) (run : Run)
    (c : Composition) : (ofComposed o args pos run c).notes = c.notes true := by
  have hfilled : (filled args pos run c).notes = c.notes true := notes_applyOverrides _ _
  unfold ofComposed
  dsimp only
  split <;> exact hfilled

end AdjectiveRecord

/-- No footnote is left without its form. Every note of a record is on a form of its composed run,
and where the record shows in a slot what was composed, that form is at the same place there. -/
theorem Record.form_of_note (e : Engine) (args : Arguments) (pos : String) :
    (∀ r, NounRecord.ofArguments e args pos = .ok r →
      ∃ run c, NounRecord.composed e args pos = .ok (run, c) ∧
        ∀ entry ∈ r.notes, ∃ slot place form,
          entry = (.form slot place, (c.cell slot).notesAt place) ∧
          (c.cell slot).forms[place]? = some form ∧
          (NounRecord.Keeps args run c slot →
            ∃ forms, r.forms.get? slot = some forms ∧ forms[place]? = some form)) ∧
    (∀ r, AdjectiveRecord.ofArguments e args pos = .ok r →
      ∃ run c, AdjectiveRecord.composed e args pos = .ok (run, c) ∧
        ∀ entry ∈ r.notes, ∃ slot place form,
          entry = (.form slot place, (c.cell slot).notesAt place) ∧
          (c.cell slot).forms[place]? = some form ∧
          (AdjectiveRecord.Keeps e.options args pos run c slot →
            ∃ forms, r.forms.get? slot = some forms ∧ forms[place]? = some form)) := by
  constructor
  · intro r h
    obtain ⟨run, c, hc, rfl⟩ := NounRecord.ofArguments_eq_ok.mp h
    refine ⟨run, c, hc, ?_⟩
    intro entry hentry
    rw [NounRecord.notes_ofComposed] at hentry
    obtain ⟨slot, hslot, place, form, rfl, hform⟩ :=
      Composition.exists_of_mem_notes (NounRecord.isNormal_of_composed hc) hentry
    exact ⟨slot, place, form, rfl, hform,
      fun hkeeps => ⟨_, NounRecord.get?_ofComposed hslot hkeeps pos, hform⟩⟩
  · intro r h
    obtain ⟨run, c, hc, rfl⟩ := AdjectiveRecord.ofArguments_eq_ok.mp h
    refine ⟨run, c, hc, ?_⟩
    intro entry hentry
    rw [AdjectiveRecord.notes_ofComposed] at hentry
    obtain ⟨slot, hslot, place, form, rfl, hform⟩ :=
      Composition.exists_of_mem_notes (AdjectiveRecord.isNormal_of_composed hc) hentry
    exact ⟨slot, place, form, rfl, hform,
      fun hkeeps => ⟨_, AdjectiveRecord.get?_ofComposed hslot hkeeps, hform⟩⟩

/-- The old genitive of `fīlius`, and the ablative that the participle `amāns` has as an
adjective. -/
theorem Record.form_of_note_of_filius_and_amans :
    (∃ r, NounRecord.ofArguments ⟨.latin, {}⟩ ⟨[("1", "fīlius<2>")]⟩ "nouns" = .ok r ∧
      (.form (.sg .gen) 1, [Noun.Second.oldGenitiveNote]) ∈ r.notes ∧
      ∃ forms, r.forms.get? (.sg .gen) = some forms ∧ forms[1]? = some "fīlī") ∧
    (∃ r, AdjectiveRecord.ofArguments ⟨.latin, {}⟩ ⟨[("1", "amāns<3-P+>")]⟩ "participles" = .ok r ∧
      (.form (.sgm .abl) 1, [Adjective.Participle.ablativeNote]) ∈ r.notes ∧
      ∃ forms, r.forms.get? (.sgm .abl) = some forms ∧ forms[1]? = some "amantī") := by
  constructor
  · obtain ⟨run, c, hc, hform, hentry, hkeeps⟩ : ∃ run c,
        NounRecord.composed ⟨.latin, {}⟩ ⟨[("1", "fīlius<2>")]⟩ "nouns" = .ok (run, c) ∧
        (c.cell (.sg .gen)).forms[1]? = some "fīlī" ∧
        (1, [Noun.Second.oldGenitiveNote]) ∈ (c.cell (.sg .gen)).notes.entries ∧
        NounRecord.Keeps ⟨[("1", "fīlius<2>")]⟩ run c (.sg .gen) :=
      ⟨_, _, rfl, by decide +kernel, by decide +kernel,
        ⟨by decide +kernel, by decide +kernel, by decide +kernel, by decide +kernel⟩⟩
    have hr := NounRecord.ofArguments_eq_ok.mpr ⟨run, c, hc, rfl⟩
    have hmem : (.form (.sg .gen) 1, [Noun.Second.oldGenitiveNote]) ∈
        (NounRecord.ofComposed ⟨[("1", "fīlius<2>")]⟩ "nouns" run c).notes := by
      rw [NounRecord.notes_ofComposed]
      exact Composition.mem_notes.mpr ⟨.sg .gen, by decide, 1, _, hentry, rfl⟩
    obtain ⟨run', c', hc', hnotes⟩ := (form_of_note _ _ _).1 _ hr
    cases hc.symm.trans hc'
    obtain ⟨slot, place, form, hkey, hplace, hshows⟩ := hnotes _ hmem
    simp only [Prod.mk.injEq, NoteKey.form.injEq] at hkey
    obtain ⟨⟨rfl, rfl⟩, -⟩ := hkey
    cases hform.symm.trans hplace
    exact ⟨_, hr, hmem, hshows hkeeps⟩
  · obtain ⟨run, c, hc, hform, hentry, hkeeps⟩ : ∃ run c,
        AdjectiveRecord.composed ⟨.latin, {}⟩ ⟨[("1", "amāns<3-P+>")]⟩ "participles" =
          .ok (run, c) ∧
        (c.cell (.sgm .abl)).forms[1]? = some "amantī" ∧
        (1, [Adjective.Participle.ablativeNote]) ∈ (c.cell (.sgm .abl)).notes.entries ∧
        AdjectiveRecord.Keeps {} ⟨[("1", "amāns<3-P+>")]⟩ "participles" run c (.sgm .abl) :=
      ⟨_, _, rfl, by decide +kernel, by decide +kernel,
        ⟨by decide +kernel, by decide +kernel, by decide +kernel, by decide +kernel,
          by decide +kernel, by decide +kernel, by decide +kernel⟩⟩
    have hr := AdjectiveRecord.ofArguments_eq_ok.mpr ⟨run, c, hc, rfl⟩
    have hmem : (.form (.sgm .abl) 1, [Adjective.Participle.ablativeNote]) ∈
        (AdjectiveRecord.ofComposed {} ⟨[("1", "amāns<3-P+>")]⟩ "participles" run c).notes := by
      rw [AdjectiveRecord.notes_ofComposed]
      exact Composition.mem_notes.mpr ⟨.sgm .abl, by decide, 1, _, hentry, rfl⟩
    obtain ⟨run', c', hc', hnotes⟩ := (form_of_note _ _ _).2 _ hr
    cases hc.symm.trans hc'
    obtain ⟨slot, place, form, hkey, hplace, hshows⟩ := hnotes _ hmem
    simp only [Prod.mk.injEq, NoteKey.form.injEq] at hkey
    obtain ⟨⟨rfl, rfl⟩, -⟩ := hkey
    cases hform.symm.trans hplace
    exact ⟨_, hr, hmem, hshows hkeeps⟩

/-- The note on the contracted genitive of `fīlius` stays in the record when the template gives one
genitive alone. -/
theorem Record.not_form_of_note_of_filius :
    ∃ r, NounRecord.ofArguments ⟨.latin, {}⟩ ⟨[("1", "fīlius<2>"), ("gen_sg", "fīlī")]⟩ "nouns" =
        .ok r ∧
      (.form (.sg .gen) 1, [Noun.Second.oldGenitiveNote]) ∈ r.notes ∧
      r.forms.get? (.sg .gen) = some ["fīlī"] := by
  obtain ⟨run, c, hc, hentry, hforms⟩ : ∃ run c,
      NounRecord.composed ⟨.latin, {}⟩ ⟨[("1", "fīlius<2>"), ("gen_sg", "fīlī")]⟩ "nouns" =
        .ok (run, c) ∧
      (1, [Noun.Second.oldGenitiveNote]) ∈ (c.cell (.sg .gen)).notes.entries ∧
      (NounRecord.ofComposed ⟨[("1", "fīlius<2>"), ("gen_sg", "fīlī")]⟩ "nouns" run c).forms.get?
        (.sg .gen) = some ["fīlī"] :=
    ⟨_, _, rfl, by decide +kernel, by decide +kernel⟩
  refine ⟨_, NounRecord.ofArguments_eq_ok.mpr ⟨run, c, hc, rfl⟩, ?_, hforms⟩
  rw [NounRecord.notes_ofComposed]
  exact Composition.mem_notes.mpr ⟨.sg .gen, by decide, 1, _, hentry, rfl⟩

end Declension
