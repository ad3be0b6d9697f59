import Declension.Proofs.Ligatures
import Declension.Proofs.Sheet
import Declension.Slot.Name

/-!
# Sheets kept under names

A sheet of slots cannot hold a name outside the vocabulary. Here the same edits are made on a sheet
that can: its keys are names, every write is checked, and the passes write under names that they
work out from others. Such a sheet, filled from nothing, is at every step the sheet of slots read
by names. Main statement: `FormSheet.runSteps_in_vocabulary`.
-/
namespace Declension

namespace Slot

/-- The names of the slots. -/
def vocabulary : List String := all.map name

theorem name_mem_vocabulary (s : Slot) : s.name ∈ vocabulary :=
  List.mem_map_of_mem (mem_all s)

theorem not_mem_vocabulary {name : String} (h : ofName? name = none) : name ∉ vocabulary := by
  intro hmem
  obtain ⟨s, -, rfl⟩ := List.mem_map.mp hmem
  rw [ofName?_name] at h
  cases h

end Slot

/-- A sheet whose keys are names, whichever they are. -/
abbrev NamedSheet := OrderedMap String (Option (List String))

namespace NamedSheet
open FormSheet (Step)

/-- The sheet after a step, and what the step returned or why it failed. -/
abbrev Outcome := NamedSheet × Except FormSheet.Fault (Option (List String))

def set (m : NamedSheet) (name : String) (forms : Option (List String)) : Outcome :=
  if name ∈ Slot.vocabulary then (m.insert name forms, .ok none)
  else (m, .error (.unknownSlot name))

/-- Sets a name that is not there yet. -/
def setDefault (m : NamedSheet) (name : String) (forms : Option (List String)) : Outcome :=
  match m.get? name with
  | some present => (m, .ok present)
  | none =>
    match m.set name forms with
    | (m, .ok _) => (m, .ok forms)
    | failed => failed

/-- Makes an edit for each item in turn, up to one that fails. -/
def inTurn {α : Type} (edit : NamedSheet → α → Outcome) (m : NamedSheet) : List α → Outcome
  | [] => (m, .ok none)
  | item :: rest =>
    match edit m item with
    | (m, .ok _) => inTurn edit m rest
    | failed => failed

/-- Writes the forms of a slot of number `n` under the name that stands for the other number. -/
def mirrorSlot (n : Number) (m : NamedSheet) (slot : Slot) : Outcome :=
  match SlotName.mirror slot.name n.name with
  | some other => m.set other (some ((m.get? slot.name).join.getD []))
  | none => (m, .ok none)

def ligateSlot (m : NamedSheet) (slot : Slot) : Outcome :=
  match m.get? slot.name with
  | none => (m, .ok none)
  | some none => (m, .error (.unfilled slot))
  | some (some forms) => m.set slot.name (some (forms.map Declension.ligate))

/-- Leaves a slot alone that has no form in -m. -/
def addNasalsSlot (m : NamedSheet) (slot : Slot) : Outcome :=
  match (m.get? slot.name).join with
  | none => (m, .ok none)
  | some forms =>
    if forms.any (Text.endsIn "m") then m.set slot.name (some (forms.flatMap withNasal))
    else (m, .ok none)

/-- Carries out one edit. -/
def step (m : NamedSheet) : Step → Outcome
  | .set name forms => m.set name forms
  | .update values =>
    inTurn (fun m (name, forms) => m.set name forms) m (OrderedMap.ofList values).entries
  | .setDefault name forms => m.setDefault name forms
  | .get name => (m, .ok (m.get? name).join)
  | .pop name => (m.erase name, .ok (m.get? name).join)
  | .mirror (some n) isAdj => inTurn (mirrorSlot n) m (Slot.run isAdj)
  | .mirror none _ => (m, .ok none)
  | .ligate isAdj => inTurn ligateSlot m (Slot.run isAdj)
  | .addNasals isAdj => inTurn addNasalsSlot m (Slot.run isAdj)

/-- Every outcome of a series of edits; a failed one does not end the series. -/
def runSteps (m : NamedSheet) : List Step → List Outcome
  | [] => []
  | s :: rest =>
    let outcome := m.step s
    outcome :: runSteps outcome.1 rest

section Writes
variable {α : Type} {edit : NamedSheet → α → Outcome} {m m' : NamedSheet} {item : α}
  {rest : List α}

theorem set_of_mem {name : String} (h : name ∈ Slot.vocabulary) (m : NamedSheet)
    (forms : Option (List String)) : m.set name forms = (m.insert name forms, .ok none) :=
  if_pos h

theorem set_of_not_mem {name : String} (h : name ∉ Slot.vocabulary) (m : NamedSheet)
    (forms : Option (List String)) : m.set name forms = (m, .error (.unknownSlot name)) :=
  if_neg h

theorem set_of_error {name : String} {forms : Option (List String)} {fault : FormSheet.Fault}
    (h : (m.set name forms).2 = .error fault) : (m.set name forms).1 = m := by
  by_cases hname : name ∈ Slot.vocabulary
  · rw [set_of_mem hname] at h
    cases h
  · rw [set_of_not_mem hname]

theorem setDefault_of_error {name : String} {forms : Option (List String)}
    {fault : FormSheet.Fault} (h : (m.setDefault name forms).2 = .error fault) :
    (m.setDefault name forms).1 = m := by
  unfold setDefault at h ⊢
  cases hpresent : m.get? name with
  | some present => rfl
  | none =>
    by_cases hname : name ∈ Slot.vocabulary
    · simp only [hpresent, set_of_mem hname] at h
      cases h
    · simp only [set_of_not_mem hname]

theorem inTurn_cons_of_ok {r : Option (List String)} (h : edit m item = (m', .ok r)) :
    inTurn edit m (item :: rest) = inTurn edit m' rest := by
  rw [inTurn, h]

theorem inTurn_cons_of_error {fault : FormSheet.Fault} (h : edit m item = (m', .error fault)) :
    inTurn edit m (item :: rest) = (m', .error fault) := by
  rw [inTurn, h]

/-- A failed update has written what stands before its first unknown name. -/
theorem exists_of_inTurn_set {values : List (String × Option (List String))}
    {fault : FormSheet.Fault}
    (h : (inTurn (fun m (name, forms) => m.set name forms) m values).2 = .error fault) :
    ∃ before name forms after, values = before ++ (name, forms) :: after ∧
      (∀ e ∈ before, e.1 ∈ Slot.vocabulary) ∧ name ∉ Slot.vocabulary ∧
      fault = .unknownSlot name ∧
      (inTurn (fun m (name, forms) => m.set name forms) m values).1 = m.insertMany before := by
  induction values generalizing m with
  | nil => cases h
  | cons e values ih =>
    obtain ⟨name, forms⟩ := e
    by_cases hname : name ∈ Slot.vocabulary
    · have hset := set_of_mem hname m forms
      rw [inTurn_cons_of_ok hset] at h ⊢
      obtain ⟨before, bad, badForms, after, hvalues, hbefore, hbad, hfault, hsheet⟩ := ih h
      refine ⟨(name, forms) :: before, bad, badForms, after, by rw [hvalues]; rfl, ?_, hbad, hfault,
        hsheet⟩
      exact List.forall_mem_cons.mpr ⟨hname, hbefore⟩
    · have hset := set_of_not_mem hname m forms
      rw [inTurn_cons_of_error hset] at h ⊢
      exact ⟨[], name, forms, values, rfl, by simp, hname, (Except.error.inj h).symm, rfl⟩

/-- Edits that refuse no name refuse none in turn. -/
theorem inTurn_ne_unknownSlot {items : List α} {name : String}
    (h : ∀ item ∈ items, ∀ m, (edit m item).2 ≠ .error (.unknownSlot name)) (m : NamedSheet) :
    (inTurn edit m items).2 ≠ .error (.unknownSlot name) := by
  induction items generalizing m with
  | nil => exact fun hnil => nomatch hnil
  | cons item items ih =>
    obtain ⟨hitem, hitems⟩ := List.forall_mem_cons.mp h
    cases hedit : edit m item with
    | mk m' result =>
      cases result with
      | ok r =>
        rw [inTurn_cons_of_ok hedit]
        exact ih hitems m'
      | error fault =>
        have hfirst := hitem m
        rw [inTurn_cons_of_error hedit]
        rwa [hedit] at hfirst

end Writes

theorem set_name (m : NamedSheet) (slot : Slot) (forms : Option (List String)) :
    m.set slot.name forms = (m.insert slot.name forms, .ok none) :=
  set_of_mem slot.name_mem_vocabulary m forms

theorem mirrorSlot_eq (n : Number) (m : NamedSheet) (slot : Slot) : mirrorSlot n m slot =
    (if slot.number = n then
      m.insert slot.mirror.name (some ((m.get? slot.name).join.getD [])) else m, .ok none) := by
  unfold mirrorSlot
  rw [SlotName.mirror_name]
  by_cases hn : slot.number = n
  · simp only [hn, if_true, set_name]
  · simp only [hn, if_false]

theorem ligateSlot_ne_unknownSlot (m : NamedSheet) (slot : Slot) (name : String) :
    (ligateSlot m slot).2 ≠ .error (.unknownSlot name) := by
  unfold ligateSlot
  split
  · simp
  · simp
  · simp [set_name]

theorem addNasalsSlot_ne_unknownSlot (m : NamedSheet) (slot : Slot) (name : String) :
    (addNasalsSlot m slot).2 ≠ .error (.unknownSlot name) := by
  unfold addNasalsSlot
  split
  · simp
  · split
    · simp [set_name]
    · simp

/-- Whether a step is one of the passes over all slots. -/
def IsPass : Step → Prop
  | .mirror .. | .ligate _ | .addNasals _ => True
  | _ => False

/-- Every name that a pass writes is that of a slot. -/
theorem step_ne_unknownSlot {s : Step} (h : IsPass s) (m : NamedSheet) (name : String) :
    (m.step s).2 ≠ .error (.unknownSlot name) := by
  cases s with
  | mirror number isAdj =>
    cases number with
    | none => simp [step]
    | some n => exact inTurn_ne_unknownSlot (fun slot _ m => by simp [mirrorSlot_eq]) m
  | ligate isAdj =>
    exact inTurn_ne_unknownSlot (fun slot _ m => ligateSlot_ne_unknownSlot m slot name) m
  | addNasals isAdj =>
    exact inTurn_ne_unknownSlot (fun slot _ m => addNasalsSlot_ne_unknownSlot m slot name) m
  | _ => cases h

end NamedSheet

namespace FormSheet

/-- A sheet read by the names of its slots. -/
def byName (m : FormSheet) : NamedSheet := m.mapKeys Slot.name

/-- An outcome whose sheet is read by names. -/
def Outcome.byName (outcome : Outcome) : NamedSheet.Outcome := (outcome.1.byName, outcome.2)

theorem mem_vocabulary_of_mem_keys {m : FormSheet} {name : String} (h : name ∈ m.byName.keys) :
    name ∈ Slot.vocabulary := by
  rw [byName, OrderedMap.keys_mapKeys] at h
  obtain ⟨slot, -, rfl⟩ := List.mem_map.mp h
  exact slot.name_mem_vocabulary

theorem get?_byName (m : FormSheet) (slot : Slot) : m.byName.get? slot.name = m.get? slot :=
  OrderedMap.get?_mapKeys Slot.name_injective m slot

theorem byName_insert (m : FormSheet) (slot : Slot) (forms : Option (List String)) :
    byName (m.insert slot forms) = m.byName.insert slot.name forms :=
  OrderedMap.mapKeys_insert Slot.name_injective m slot forms

theorem not_mem_keys_byName {name : String} (h : Slot.ofName? name = none) (m : FormSheet) :
    name ∉ m.byName.keys :=
  fun hmem => Slot.not_mem_vocabulary h (mem_vocabulary_of_mem_keys hmem)

theorem lookup_byName (m : FormSheet) (name : String) : m.byName.get? name = m.lookup name := by
  unfold lookup
  cases h : Slot.ofName? name with
  | none => exact OrderedMap.find_eq_none.mpr (not_mem_keys_byName h m)
  | some slot =>
    rw [← Slot.name_of_ofName? h]
    exact get?_byName m slot

theorem set_byName (m : FormSheet) (name : String) (forms : Option (List String)) :
    m.byName.set name forms = (m.set name forms).byName := by
  unfold set
  cases h : Slot.ofName? name with
  | none => exact NamedSheet.set_of_not_mem (Slot.not_mem_vocabulary h) m.byName forms
  | some slot =>
    rw [← Slot.name_of_ofName? h, NamedSheet.set_name, ← byName_insert]
    rfl

theorem set_name_byName (m : FormSheet) (slot : Slot) (forms : Option (List String)) :
    m.byName.set slot.name forms = (byName (m.insert slot forms), .ok none) := by
  rw [NamedSheet.set_name, ← byName_insert]

theorem setMany_byName (m : FormSheet) (values : List (String × Option (List String))) :
    NamedSheet.inTurn (fun m (name, forms) => m.set name forms) m.byName values =
      (m.setMany values).byName := by
  induction values generalizing m with
  | nil => rfl
  | cons e values ih =>
    obtain ⟨name, forms⟩ := e
    have hset := set_byName m name forms
    unfold set at hset
    unfold setMany
    cases h : Slot.ofName? name with
    | none =>
      rw [h] at hset
      exact NamedSheet.inTurn_cons_of_error hset
    | some slot =>
      rw [h] at hset
      exact (NamedSheet.inTurn_cons_of_ok hset).trans (ih (m.insert slot forms))

theorem setDefault_byName (m : FormSheet) (name : String) (forms : Option (List String)) :
    m.byName.setDefault name forms = Outcome.byName (m.step (.setDefault name forms)) := by
  rw [NamedSheet.setDefault, step, lookup_byName, set_byName]
  cases m.lookup name with
  | some present => rfl
  | none =>
    cases m.set name forms with
    | mk m' result => cases result <;> rfl

theorem pop_byName (m : FormSheet) (name : String) :
    m.byName.step (.pop name) = Outcome.byName (m.step (.pop name)) := by
  rw [NamedSheet.step, step, lookup_byName, lookup]
  cases h : Slot.ofName? name with
  | none =>
    rw [OrderedMap.erase_of_not_mem (not_mem_keys_byName h m)]
    rfl
  | some slot =>
    rw [← Slot.name_of_ofName? h, byName, ← OrderedMap.mapKeys_erase Slot.name_injective]
    rfl

theorem ligateSlots_byName (m : FormSheet) (slots : List Slot) :
    NamedSheet.inTurn NamedSheet.ligateSlot m.byName slots = (m.ligateSlots slots).byName := by
  induction slots generalizing m with
  | nil => rfl
  | cons slot slots ih =>
    have hname := get?_byName m slot
    unfold ligateSlots
    cases hslot : m.get? slot with
    | none =>
      have hkept : NamedSheet.ligateSlot m.byName slot = (m.byName, .ok none) := by
        rw [NamedSheet.ligateSlot, hname, hslot]
      exact (NamedSheet.inTurn_cons_of_ok hkept).trans (ih m)
    | some value =>
      cases value with
      | none =>
        have hunfilled : NamedSheet.ligateSlot m.byName slot =
            (m.byName, .error (.unfilled slot)) := by
          rw [NamedSheet.ligateSlot, hname, hslot]
        exact NamedSheet.inTurn_cons_of_error hunfilled
      | some forms =>
        have hset : NamedSheet.ligateSlot m.byName slot =
            (byName (m.insert slot (some (forms.map Declension.ligate))), .ok none) := by
          rw [← set_name_byName, NamedSheet.ligateSlot, hname, hslot]
        exact (NamedSheet.inTurn_cons_of_ok hset).trans (ih _)

section Passes
variable {m : FormSheet}

/-- A pass that changes the sheet slot by slot does so by names, once its edit of a slot does. -/
theorem foldl_byName {edit : NamedSheet → Slot → NamedSheet.Outcome}
    {change : FormSheet → Slot → FormSheet}
    (hedit : ∀ {m : FormSheet}, m.keys.Nodup → ∀ slot,
      edit m.byName slot = (byName (change m slot), .ok none))
    (hkeys : ∀ {m : FormSheet}, m.keys.Nodup → ∀ slot, (change m slot).keys.Nodup)
    (h : m.keys.Nodup) (slots : List Slot) :
    NamedSheet.inTurn edit m.byName slots = (byName (slots.foldl change m), .ok none) := by
  induction slots generalizing m with
  | nil => rfl
  | cons slot slots ih =>
    exact (NamedSheet.inTurn_cons_of_ok (hedit h slot)).trans (ih (hkeys h slot))

theorem mirrorSlot_byName (n : Number) (m : FormSheet) (slot : Slot) :
    NamedSheet.mirrorSlot n m.byName slot = (byName
      (if slot.number = n then m.insert slot.mirror (some ((m.get? slot).join.getD [])) else m),
      .ok none) := by
  rw [NamedSheet.mirrorSlot_eq, get?_byName]
  split
  · rw [byName_insert]
  · rfl

theorem nodup_keys_mirrorSlot (h : m.keys.Nodup) (n : Number) (slot : Slot) :
    (OrderedMap.keys (if slot.number = n then
      m.insert slot.mirror (some ((m.get? slot).join.getD [])) else m)).Nodup := by
  split
  · exact OrderedMap.nodup_keys_insert h _ _
  · exact h

theorem addNasalsSlot_byName (h : m.keys.Nodup) (slot : Slot) :
    NamedSheet.addNasalsSlot m.byName slot =
      (byName (m.modify slot (·.map (·.flatMap withNasal))), .ok none) := by
  rw [NamedSheet.addNasalsSlot, get?_byName]
  cases hforms : m.get? slot with
  | none => rw [OrderedMap.modify_of_get?_eq_none hforms]; rfl
  | some value =>
    rw [← OrderedMap.insert_eq_modify h hforms]
    cases value with
    | none => rw [Option.map_none, OrderedMap.insert_of_get? hforms]; rfl
    | some forms =>
      by_cases hany : forms.any (Text.endsIn "m") = true
      · rw [Option.map_some, ← set_name_byName]
        simp only [Option.join_some, hany, if_true]
      · rw [Option.map_some, flatMap_withNasal_of_not_any hany, OrderedMap.insert_of_get? hforms]
        simp only [Option.join_some, hany]
        rfl

theorem nodup_keys_addNasalsSlot (h : m.keys.Nodup) (slot : Slot) :
    (m.modify slot (·.map (·.flatMap withNasal))).keys.Nodup := by
  rwa [OrderedMap.keys_modify]

end Passes

/-- A step of a sheet of slots is, by names, the step of the sheet of names. -/
theorem step_byName {m : FormSheet} (h : m.keys.Nodup) (s : Step) :
    m.byName.step s = (m.step s).byName := by
  cases s with
  | set name forms => exact set_byName m name forms
  | update values => exact setMany_byName m _
  | setDefault name forms => exact setDefault_byName m name forms
  | get name => rw [NamedSheet.step, lookup_byName]; rfl
  | pop name => exact pop_byName m name
  | mirror number isAdj =>
    cases number with
    | none => rfl
    | some n =>
      exact foldl_byName (fun {m} _ => mirrorSlot_byName n m) (nodup_keys_mirrorSlot · n) h
        (Slot.run isAdj)
  | ligate isAdj => exact ligateSlots_byName m (Slot.run isAdj)
  | addNasals isAdj =>
    exact foldl_byName addNasalsSlot_byName nodup_keys_addNasalsSlot h (Slot.run isAdj)

theorem nodup_keys_set {m : FormSheet} (h : m.keys.Nodup) (name : String)
    (forms : Option (List String)) : (m.set name forms).1.keys.Nodup := by
  unfold set
  cases Slot.ofName? name with
  | none => exact h
  | some slot => exact OrderedMap.nodup_keys_insert h slot forms

theorem nodup_keys_setMany {m : FormSheet} (h : m.keys.Nodup)
    (values : List (String × Option (List String))) : (m.setMany values).1.keys.Nodup := by
  induction values generalizing m with
  | nil => exact h
  | cons e values ih =>
    unfold setMany
    split
    · exact ih (OrderedMap.nodup_keys_insert h _ _)
    · exact h

theorem nodup_keys_ligateSlots {m : FormSheet} (h : m.keys.Nodup) (slots : List Slot) :
    (m.ligateSlots slots).1.keys.Nodup := by
  induction slots generalizing m with
  | nil => exact h
  | cons slot slots ih =>
    unfold ligateSlots
    split
    · exact ih h
    · exact h
    · exact ih (OrderedMap.nodup_keys_insert h _ _)

/-- A step gives no slot a second entry. -/
theorem nodup_keys_step {m : FormSheet} (h : m.keys.Nodup) (s : Step) :
    (m.step s).1.keys.Nodup := by
  cases s with
  | set name forms => exact nodup_keys_set h name forms
  | update values => exact nodup_keys_setMany h _
  | setDefault name forms =>
    have hset := nodup_keys_set h name forms
    rw [step]
    split
    · exact h
    · split
      next hresult => rwa [hresult] at hset
      next => exact hset
  | get name => exact h
  | pop name =>
    rw [step]
    split
    · exact OrderedMap.nodup_keys_erase h _
    · exact h
  | mirror number isAdj =>
    cases number with
    | none => exact h
    | some n =>
      exact List.foldlRecOn (motive := fun m : FormSheet => m.keys.Nodup) (Slot.run isAdj) _ h
        fun m hm slot _ => nodup_keys_mirrorSlot hm n slot
  | ligate isAdj => exact nodup_keys_ligateSlots h (Slot.run isAdj)
  | addNasals isAdj =>
    exact List.foldlRecOn (motive := fun m : FormSheet => m.keys.Nodup) (Slot.run isAdj) _ h
      fun m hm slot _ => nodup_keys_addNasalsSlot hm slot

theorem runSteps_byName {m : FormSheet} (h : m.keys.Nodup) (steps : List Step) :
    m.byName.runSteps steps = (m.runSteps steps).map Outcome.byName := by
  induction steps generalizing m with
  | nil => rfl
  | cons s steps ih =>
    rw [NamedSheet.runSteps, runSteps, List.map_cons, step_byName h]
    exact congrArg _ (ih (nodup_keys_step h s))

/-- Edits under names, on a sheet that could hold any, come out as those of the sheet of slots: no
name outside the vocabulary is ever held. On any sheet a refused name leaves what was there, an
update that fails has written what stands before the first unknown name, and no pass is refused a
name. -/
theorem runSteps_in_vocabulary (steps : List Step) :
    NamedSheet.runSteps ∅ steps = (runSteps ∅ steps).map Outcome.byName ∧
    (∀ outcome ∈ NamedSheet.runSteps ∅ steps,
      ∀ name ∈ outcome.1.keys, name ∈ Slot.vocabulary) ∧
    ∀ m : NamedSheet,
      (∀ name forms fault, (m.step (.set name forms)).2 = .error fault →
        (m.step (.set name forms)).1 = m) ∧
      (∀ name forms fault, (m.step (.setDefault name forms)).2 = .error fault →
        (m.step (.setDefault name forms)).1 = m) ∧
      (∀ values fault, (m.step (.update values)).2 = .error fault →
        ∃ before name forms after,
          (OrderedMap.ofList values).entries = before ++ (name, forms) :: after ∧
          (∀ e ∈ before, e.1 ∈ Slot.vocabulary) ∧ name ∉ Slot.vocabulary ∧
          fault = .unknownSlot name ∧ (m.step (.update values)).1 = m.insertMany before) ∧
      ∀ s, NamedSheet.IsPass s → ∀ name, (m.step s).2 ≠ .error (.unknownSlot name) := by
  have hruns : NamedSheet.runSteps ∅ steps = (runSteps ∅ steps).map Outcome.byName :=
    runSteps_byName (m := ∅) List.nodup_nil steps
  refine ⟨hruns, ?_, fun m => ⟨fun _ _ _ h => NamedSheet.set_of_error h,
    fun _ _ _ h => NamedSheet.setDefault_of_error h, fun _ _ h => NamedSheet.exists_of_inTurn_set h,
    fun _ h name => NamedSheet.step_ne_unknownSlot h m name⟩⟩
  intro outcome houtcome name hname
  rw [hruns] at houtcome
  obtain ⟨outcome, -, rfl⟩ := List.mem_map.mp houtcome
  exact mem_vocabulary_of_mem_keys hname

theorem runSteps_in_vocabulary_of_lupus :
    let m : NamedSheet := .ofList [("nom_sg", some ["lupus"])]
    let values := [("gen_sg", some ["lupi"]), ("gen_sg_x", none), ("dat_sg", some ["lupō"]),
      ("gen_sg", some ["lupī"])]
    ((m, .ok none) ∈ NamedSheet.runSteps ∅ [.set "nom_sg" (some ["lupus"])] ∧
      "nom_sg" ∈ m.keys ∧ "nom_sg" ∈ Slot.vocabulary) ∧
    ((m.step (.set "lupus" none)).2 = .error (.unknownSlot "lupus") ∧
      (m.step (.set "lupus" none)).1 = m) ∧
    ((m.step (.setDefault "lupus" none)).2 = .error (.unknownSlot "lupus") ∧
      (m.step (.setDefault "lupus" none)).1 = m) ∧
    ((m.step (.update values)).2 = .error (.unknownSlot "gen_sg_x") ∧
      (∃ before name forms after,
        (OrderedMap.ofList values).entries = before ++ (name, forms) :: after ∧
        (∀ e ∈ before, e.1 ∈ Slot.vocabulary) ∧ name ∉ Slot.vocabulary ∧
        .unknownSlot "gen_sg_x" = Fault.unknownSlot name ∧
        (m.step (.update values)).1 = m.insertMany before) ∧
      (m.step (.update values)).1 = m.insertMany [("gen_sg", some ["lupī"])]) ∧
    (NamedSheet.IsPass (.mirror (some .sg) false) ∧
      (m.step (.mirror (some .sg) false)).2 ≠ .error (.unknownSlot "nom_pl")) := by
  intro m values
  obtain ⟨-, hkeys, hsteps⟩ := runSteps_in_vocabulary [.set "nom_sg" (some ["lupus"])]
  obtain ⟨hset, hdefault, hupdate, hpass⟩ := hsteps m
  have hmem : (m, .ok none) ∈ NamedSheet.runSteps ∅ [.set "nom_sg" (some ["lupus"])] := by
    decide +kernel
  have hkey : "nom_sg" ∈ m.keys := by decide +kernel
  have hsetFails : (m.step (.set "lupus" none)).2 = .error (.unknownSlot "lupus") := by
    decide +kernel
  have hdefaultFails : (m.step (.setDefault "lupus" none)).2 = .error (.unknownSlot "lupus") := by
    decide +kernel
  have hupdateFails : (m.step (.update values)).2 = .error (.unknownSlot "gen_sg_x") := by
    decide +kernel
  exact ⟨⟨hmem, hkey, hkeys _ hmem _ hkey⟩, ⟨hsetFails, hset _ _ _ hsetFails⟩,
    ⟨hdefaultFails, hdefault _ _ _ hdefaultFails⟩,
    ⟨hupdateFails, hupdate _ _ hupdateFails, by decide +kernel⟩,
    ⟨trivial, hpass (.mirror (some .sg) false) trivial _⟩⟩

end FormSheet
end Declension
