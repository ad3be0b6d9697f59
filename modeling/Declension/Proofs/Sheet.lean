import Declension.Composition
import Declension.FormSheet
import Declension.Proofs.OrderedMap
import Declension.Proofs.Slot
import Mathlib.Data.List.Nodup

/-!
# Forms on a sheet

The passes over a sheet of forms, and what copying a number makes of each slot. Main statement:
`Composition.mirrorNumber_forms`, by which a number may be copied on the forms of a run or on the
run.
-/
namespace Declension

namespace FormMap

/-- Copies one slot onto its mirror, if it is of the number that is copied. -/
def mirrorSlot (n : Number) (m : FormMap) (s : Slot) : FormMap :=
  if s.number = n then m.insert s.mirror (m.forms s) else m

theorem get?_mirrorSlot (n : Number) (m : FormMap) (s slot : Slot) :
    (mirrorSlot n m s).get? slot =
      if slot.number ≠ n ∧ slot.mirror = s then some (m.forms slot.mirror) else m.get? slot := by
  unfold mirrorSlot
  by_cases hs : slot.mirror = s
  · subst hs
    by_cases hn : slot.number = n
    · have hnot : ¬ slot.mirror.number = n := fun h => Slot.number_mirror_eq_iff.mp h hn
      rw [if_neg hnot, if_neg fun h => h.1 hn]
    · rw [if_pos (Slot.number_mirror_eq_iff.mpr hn), OrderedMap.get?_insert, Slot.mirror_mirror,
        if_pos rfl, if_pos ⟨hn, rfl⟩]
  · have hne : ¬ s.mirror = slot := fun h => hs (Slot.mirror_eq_iff.mp h)
    have hnot : ¬ (slot.number ≠ n ∧ slot.mirror = s) := fun h => hs h.2
    by_cases hn : s.number = n
    · rw [if_pos hn, OrderedMap.get?_insert, if_neg hne, if_neg hnot]
    · rw [if_neg hn, if_neg hnot]

theorem forms_mirrorSlot {n : Number} {slot : Slot} (h : slot.number = n) (m : FormMap)
    (s : Slot) : (mirrorSlot n m s).forms slot = m.forms slot := by
  rw [forms, get?_mirrorSlot, if_neg fun hboth => hboth.1 h]
  rfl

/-- The slots outside number `n` take the forms of their mirrors; the others stay. -/
theorem get?_foldl_mirrorSlot (n : Number) (slots : List Slot) (m : FormMap) (slot : Slot) :
    (slots.foldl (mirrorSlot n) m).get? slot =
      if slot.number ≠ n ∧ slot.mirror ∈ slots then some (m.forms slot.mirror)
      else m.get? slot := by
  induction slots generalizing m with
  | nil => simp
  | cons s slots ih =>
    rw [List.foldl_cons, ih, get?_mirrorSlot]
    by_cases hn : slot.number = n
    · rw [if_neg fun h => h.1 hn, if_neg fun h => h.1 hn, if_neg fun h => h.1 hn]
    · rw [forms_mirrorSlot (Slot.number_mirror_eq_iff.mpr hn)]
      by_cases hs : slot.mirror = s <;> by_cases hmem : slot.mirror ∈ slots <;>
        simp [hn, hs, hmem]

theorem get?_mirrorNumber (n : Number) (isAdj : Bool) (m : FormMap) (slot : Slot) :
    (m.mirrorNumber n isAdj).get? slot =
      if slot.number ≠ n ∧ slot.mirror ∈ Slot.run isAdj then some (m.forms slot.mirror)
      else m.get? slot :=
  get?_foldl_mirrorSlot n (Slot.run isAdj) m slot

/-- Where the mirrors of what is copied are filled already, no slot is added. -/
theorem keys_foldl_mirrorSlot (n : Number) (slots : List Slot) {m : FormMap}
    (h : ∀ slot ∈ slots, slot.mirror ∈ m.keys) : (slots.foldl (mirrorSlot n) m).keys = m.keys := by
  induction slots generalizing m with
  | nil => rfl
  | cons s slots ih =>
    have hkeys : (mirrorSlot n m s).keys = m.keys := by
      unfold mirrorSlot
      split
      · exact OrderedMap.keys_insert_of_mem (h s List.mem_cons_self) _
      · rfl
    rw [List.foldl_cons, ih, hkeys]
    intro slot hslot
    rw [hkeys]
    exact h slot (List.mem_cons_of_mem s hslot)

end FormMap

namespace FormSheet

/-- The sheet on which the forms of a map are entered. -/
def ofMap (m : FormMap) : FormSheet := m.mapValues some

theorem get?_ofMap (m : FormMap) (slot : Slot) : (ofMap m).get? slot = (m.get? slot).map some :=
  OrderedMap.get?_mapValues some m slot

theorem ofMap_insert (m : FormMap) (slot : Slot) (forms : List String) :
    ofMap (m.insert slot forms) = (ofMap m).insert slot (some forms) :=
  OrderedMap.mapValues_insert some m slot forms

theorem ligateSlots_ofMap (slots : List Slot) {m : FormMap} (h : m.keys.Nodup) :
    (ofMap m).ligateSlots slots =
      (ofMap (slots.foldl (fun m s => m.modify s (·.map Declension.ligate)) m), .ok none) := by
  induction slots generalizing m with
  | nil => rfl
  | cons slot slots ih =>
    have hkeys : (m.modify slot (·.map Declension.ligate)).keys.Nodup := by
      rwa [OrderedMap.keys_modify]
    rw [List.foldl_cons, ← ih hkeys, ligateSlots, get?_ofMap]
    cases hslot : m.get? slot with
    | none => rw [OrderedMap.modify_of_get?_eq_none hslot, Option.map_none]
    | some forms =>
      rw [← OrderedMap.insert_eq_modify h hslot, ofMap_insert, Option.map_some]

theorem step_ligate {m : FormMap} (h : m.keys.Nodup) (isAdj : Bool) :
    (ofMap m).step (.ligate isAdj) = (ofMap (m.ligate isAdj), .ok none) :=
  ligateSlots_ofMap (Slot.run isAdj) h

theorem foldl_nasals_ofMap (slots : List Slot) (m : FormMap) :
    slots.foldl (fun m s => m.modify s (·.map (·.flatMap withNasal))) (ofMap m) =
      ofMap (slots.foldl (fun m s => m.modify s (·.flatMap withNasal)) m) := by
  induction slots generalizing m with
  | nil => rfl
  | cons slot slots ih =>
    have hmodify : ofMap (m.modify slot (·.flatMap withNasal)) =
        (ofMap m).modify slot (·.map (·.flatMap withNasal)) := by
      apply OrderedMap.mapValues_modify
      intro forms
      rfl
    rw [List.foldl_cons, List.foldl_cons, ← ih, hmodify]

theorem step_addNasals (m : FormMap) (isAdj : Bool) :
    (ofMap m).step (.addNasals isAdj) = (ofMap (m.addNasals isAdj), .ok none) := by
  rw [step, addNasals, foldl_nasals_ofMap]
  rfl

end FormSheet

namespace Segment

theorem nodup_keys_addLinked (s : Segment) {m : FormMap} (h : m.keys.Nodup) :
    (s.addLinked m).keys.Nodup := by
  unfold addLinked
  induction Slot.lemmaSlots s.isAdj generalizing m with
  | nil => exact h
  | cons slot slots ih =>
    obtain ⟨n, g⟩ := slot
    rw [List.foldl_cons]
    apply ih
    cases hforms : m.get? (.cell .nom n g) with
    | none => simpa only [hforms] using h
    | some forms => simpa only [hforms] using OrderedMap.nodup_keys_insert h _ _

end Segment

namespace Composition

theorem keys_forms (isAdj : Bool) (c : Composition) :
    OrderedMap.keys (c.forms isAdj) = Slot.run isAdj := by
  simp [OrderedMap.keys, forms, Function.comp_def]

theorem get?_forms (isAdj : Bool) (c : Composition) (slot : Slot) :
    (c.forms isAdj).get? slot =
      if slot ∈ Slot.run isAdj then some (c.cell slot).forms else none :=
  OrderedMap.find_map_self (fun s => (c.cell s).forms) (Slot.run isAdj) slot

/-- Copying a number on the forms of a run is copying it on the run. -/
theorem mirrorNumber_forms (n : Number) (isAdj : Bool) (c : Composition) :
    (c.forms isAdj).mirrorNumber n isAdj = (c.mirrorNumber n).forms isAdj := by
  have hkeys : OrderedMap.keys ((c.forms isAdj).mirrorNumber n isAdj) = Slot.run isAdj := by
    refine (FormMap.keys_foldl_mirrorSlot n (Slot.run isAdj) ?_).trans (keys_forms isAdj c)
    intro slot hslot
    rw [keys_forms]
    exact Slot.mirror_mem_run.mpr hslot
  apply OrderedMap.ext_get?
  · rw [hkeys]
    exact Slot.nodup_run isAdj
  · rw [hkeys, keys_forms]
  · intro slot
    rw [FormMap.get?_mirrorNumber, get?_forms, get?_forms, FormMap.forms, get?_forms]
    simp only [Slot.mirror_mem_run]
    by_cases hslot : slot ∈ Slot.run isAdj <;> by_cases hn : slot.number = n <;>
      simp [hslot, hn, mirrorNumber]

end Composition
end Declension
