import Declension.Composition
import Declension.Proofs.Checked.Access

/-!
# Runs kept under names

The forms and the notes of a run while it is composed, under names of slots that are put together
on the way. Main statement: `Composed.Matches.append`, by which going through the slots of a run
under their names strings a further part to it.
-/
namespace Declension.Checked

def cases : List String := ["nom", "gen", "dat", "acc", "abl", "voc", "loc"]

def numbers : List String := ["sg", "pl"]

def genders : List String := ["m", "f", "n"]

/-- A name, and behind it the linked one where there is one. -/
def withLinked (isLinked : Bool) (name : String) : List String :=
  if isLinked then [name, "linked_" ++ name] else [name]

/-- The names of the slots of a run, in order. -/
def runSlots (isAdj : Bool) : List String :=
  cases.flatMap fun c => numbers.flatMap fun n =>
    if isAdj then
      genders.flatMap fun g => withLinked (c = "nom" && g = "m") (c ++ "_" ++ n ++ "_" ++ g)
    else withLinked (c = "nom") (c ++ "_" ++ n)

theorem runSlots_eq (isAdj : Bool) : runSlots isAdj = (Slot.run isAdj).map Slot.name := by
  cases isAdj <;> decide +kernel

theorem runSlots_ne_nil (isAdj : Bool) : runSlots isAdj ≠ [] := by
  cases isAdj <;> decide +kernel

/-- What composing a run has gathered so far. -/
structure Composed where
  forms : NamedSheet := ∅
  notes : OrderedMap String (OrderedMap ℕ (List String)) := ∅
  titles : List String := []
  subtitles : List Subtitle := []
  wordTitles : List String := []
  categories : List String := []
  footnotes : List String := []
  voc : Bool := true
  noneut : Bool := false

namespace Composed
variable {isAdj : Bool} {d : Composed} {c : Composition} {slot : Slot}

/-- The forms and notes under a name. -/
def cell (d : Composed) (name : String) : Cell where
  forms := (d.forms.get? name).join.getD []
  notes := (d.notes.get? name).getD ∅

/-- Puts forms and notes under a name. -/
def put (d : Composed) (name : String) (x : Cell) : Except Crash Composed := do
  return { d with forms := ← write d.forms name x.forms, notes := d.notes.insert name x.notes }

/-- Reworks what stands under the names, one after the other. -/
def mapCells (f : String → Cell → Except Crash Cell) (names : List String) (d : Composed) :
    Except Crash Composed :=
  names.foldlM (fun d name => do d.put name (← f name (d.cell name))) d

/-- Strings what is found for each name to what stands under it. -/
def appendCells (isAdj : Bool) (f : String → Except Crash Cell) (d : Composed) :
    Except Crash Composed :=
  d.mapCells (fun name x => x.append <$> f name) (runSlots isAdj)

/-- Adds what a part says besides its cells. -/
def collect (d : Composed) (part : Composition) : Composed :=
  { d with
    titles := d.titles ++ part.titles
    subtitles := d.subtitles ++ part.subtitles
    wordTitles := d.wordTitles ++ part.wordTitles
    categories := addNew d.categories part.categories
    footnotes := addNew d.footnotes part.footnotes
    voc := d.voc && part.voc
    noneut := d.noneut || part.noneut }

/-- A run to which no part has been added. -/
def start (isAdj : Bool) : Except Crash Composed := do
  return { forms := ← fill ∅ ((runSlots isAdj).map fun name => (name, [""])) }

/-- A composition with other cells. -/
def withCells (c : Composition) (cell : Slot → Cell) : Composition := { c with cell }

/-- Under its names the run has gathered just this. -/
structure Matches (isAdj : Bool) (d : Composed) (c : Composition) : Prop where
  forms : d.forms = sheet (c.forms isAdj)
  notes : ∀ slot ∈ Slot.run isAdj, (d.notes.get? slot.name).getD ∅ = (c.cell slot).notes
  titles : d.titles = c.titles
  subtitles : d.subtitles = c.subtitles
  wordTitles : d.wordTitles = c.wordTitles
  wordTitles_ne : ∀ title ∈ d.wordTitles, title ≠ ""
  categories : d.categories = c.categories
  footnotes : d.footnotes = c.footnotes
  voc : d.voc = c.voc
  noneut : d.noneut = c.noneut

theorem Matches.cell_eq (h : Matches isAdj d c) (hslot : slot ∈ Slot.run isAdj) :
    d.cell slot.name = c.cell slot := by
  rw [cell, h.forms, join_get?_sheet, Composition.get?_forms, if_pos hslot, h.notes slot hslot]
  rfl

theorem insert_forms (hslot : slot ∈ Slot.run isAdj) (c : Composition) (x : Cell) :
    (c.forms isAdj).insert slot x.forms =
      (withCells c (Function.update c.cell slot x)).forms isAdj := by
  have hkeys : OrderedMap.keys ((c.forms isAdj).insert slot x.forms) = Slot.run isAdj := by
    rw [← Composition.keys_forms isAdj c] at hslot
    rw [OrderedMap.keys_insert_of_mem hslot, Composition.keys_forms]
  apply OrderedMap.ext_get?
  · rw [hkeys]
    exact Slot.nodup_run isAdj
  · rw [hkeys, Composition.keys_forms]
  · intro s
    rw [OrderedMap.get?_insert, Composition.get?_forms, Composition.get?_forms]
    by_cases hs : slot = s
    · subst hs
      simp [hslot, withCells]
    · simp [hs, withCells, Function.update_of_ne (Ne.symm hs)]

theorem Matches.put (h : Matches isAdj d c) (hslot : slot ∈ Slot.run isAdj) (x : Cell) :
    ∃ d', d.put slot.name x = .ok d' ∧
      Matches isAdj d' (withCells c (Function.update c.cell slot x)) := by
  refine ⟨{ d with
    forms := sheet ((c.forms isAdj).insert slot x.forms), notes := d.notes.insert slot.name x.notes },
    ?_, { h with forms := ?_, notes := ?_ }⟩
  · rw [Composed.put, h.forms, write_sheet]
    rfl
  · rw [insert_forms hslot]
  · intro s hs
    rw [OrderedMap.get?_insert, withCells]
    by_cases heq : slot = s
    · subst heq
      simp
    · have hname : slot.name ≠ s.name := fun hname => heq (Slot.name_injective hname)
      simpa [hname, Function.update_of_ne (Ne.symm heq)] using h.notes s hs

/-- Reworking a cell and then those of other slots is reworking them all. -/
theorem rework_update (F : Slot → Cell → Cell) {slot : Slot} {slots : List Slot}
    (h : slot ∉ slots) (cell : Slot → Cell) :
    let updated := Function.update cell slot (F slot (cell slot))
    (fun s => if s ∈ slots then F s (updated s) else updated s) =
      fun s => if s ∈ slot :: slots then F s (cell s) else cell s := by
  funext s
  by_cases heq : s = slot
  · subst heq
    simp [h]
  · simp [heq]

theorem Matches.rework_of_subset {f : String → Cell → Except Crash Cell}
    {F : Slot → Cell → Cell} {slots : List Slot} (h : Matches isAdj d c) (hnodup : slots.Nodup)
    (hslots : ∀ slot ∈ slots, slot ∈ Slot.run isAdj)
    (hf : ∀ slot ∈ slots, f slot.name (c.cell slot) = .ok (F slot (c.cell slot))) :
    ∃ d', mapCells f (slots.map Slot.name) d = .ok d' ∧
      Matches isAdj d' (withCells c fun slot =>
        if slot ∈ slots then F slot (c.cell slot) else c.cell slot) := by
  induction slots generalizing d c with
  | nil => exact ⟨d, rfl, by simpa [withCells] using h⟩
  | cons slot slots ih =>
    obtain ⟨hnot, hnodup⟩ := List.nodup_cons.mp hnodup
    obtain ⟨hslot, hslots⟩ := List.forall_mem_cons.mp hslots
    obtain ⟨hfslot, hf⟩ := List.forall_mem_cons.mp hf
    obtain ⟨d₁, hput, h₁⟩ := h.put hslot (F slot (c.cell slot))
    have hrest : ∀ s ∈ slots, f s.name (Function.update c.cell slot (F slot (c.cell slot)) s) =
        .ok (F s (Function.update c.cell slot (F slot (c.cell slot)) s)) := by
      intro s hs
      have hne : s ≠ slot := fun heq => hnot (heq ▸ hs)
      rw [Function.update_of_ne hne]
      exact hf s hs
    obtain ⟨d', hd', h'⟩ := ih h₁ hnodup hslots hrest
    refine ⟨d', ?_, rework_update F hnot c.cell ▸ h'⟩
    rw [mapCells, List.map_cons, List.foldlM_cons, h.cell_eq hslot, hfslot]
    exact (congrArg (· >>= _) hput).trans hd'

/-- Only the cells in the slots of the run matter. -/
theorem Matches.congr_cells {cell : Slot → Cell} (h : Matches isAdj d c)
    (hcell : ∀ slot ∈ Slot.run isAdj, c.cell slot = cell slot) :
    Matches isAdj d (withCells c cell) := by
  refine { h with forms := ?_, notes := fun slot hslot => ?_ }
  · rw [h.forms]
    refine congrArg (fun entries => sheet ⟨entries⟩) (List.map_congr_left fun slot hslot => ?_)
    rw [hcell slot hslot]
    rfl
  · rw [h.notes slot hslot, hcell slot hslot]
    rfl

/-- Going through the slots of a run reworks every cell of it. -/
theorem Matches.rework {f : String → Cell → Except Crash Cell} {F : Slot → Cell → Cell}
    (h : Matches isAdj d c)
    (hf : ∀ slot ∈ Slot.run isAdj, f slot.name (c.cell slot) = .ok (F slot (c.cell slot))) :
    ∃ d', mapCells f (runSlots isAdj) d = .ok d' ∧
      Matches isAdj d' (withCells c fun slot => F slot (c.cell slot)) := by
  obtain ⟨d', hd', h'⟩ := h.rework_of_subset (Slot.nodup_run isAdj) (fun _ hs => hs) hf
  refine ⟨d', by rwa [runSlots_eq], h'.congr_cells fun slot hslot => ?_⟩
  exact if_pos hslot

/-- What goes wrong in every slot goes wrong in the first. -/
theorem appendCells_eq_error {f : String → Except Crash Cell} {crash : Crash}
    (hf : ∀ name, f name = .error crash) (isAdj : Bool) (d : Composed) :
    d.appendCells isAdj f = .error crash := by
  unfold appendCells
  cases hslots : runSlots isAdj with
  | nil => exact absurd hslots (runSlots_ne_nil isAdj)
  | cons name names =>
    rw [mapCells, List.foldlM_cons, hf]
    rfl

theorem Matches.collect (h : Matches isAdj d c) (part : Composition)
    (htitles : ∀ title ∈ part.wordTitles, title ≠ "") :
    Matches isAdj (d.collect part) (withCells (c.append part) c.cell) where
  forms := h.forms
  notes := h.notes
  titles := congrArg (· ++ part.titles) h.titles
  subtitles := congrArg (· ++ part.subtitles) h.subtitles
  wordTitles := congrArg (· ++ part.wordTitles) h.wordTitles
  wordTitles_ne := by
    intro title htitle
    rcases List.mem_append.mp htitle with hmem | hmem
    · exact h.wordTitles_ne title hmem
    · exact htitles title hmem
  categories := congrArg (addNew · part.categories) h.categories
  footnotes := congrArg (addNew · part.footnotes) h.footnotes
  voc := congrArg (· && part.voc) h.voc
  noneut := congrArg (· || part.noneut) h.noneut

/-- Stringing the cells of a part to those of a run, and adding what else the part says. -/
theorem Matches.append {f : String → Except Crash Cell} (h : Matches isAdj d c)
    (part : Composition) (htitles : ∀ title ∈ part.wordTitles, title ≠ "")
    (hf : ∀ slot ∈ Slot.run isAdj, f slot.name = .ok (part.cell slot)) :
    ∃ d', d.appendCells isAdj f = .ok d' ∧
      Matches isAdj (d'.collect part) (c.append part) := by
  obtain ⟨d', hd', h'⟩ := h.rework (f := fun name x => x.append <$> f name)
    (F := fun slot x => x.append (part.cell slot)) fun slot hslot => by
      rw [hf slot hslot]
      rfl
  exact ⟨d', hd', h'.collect part htitles⟩

theorem start_matches (isAdj : Bool) :
    ∃ d, start isAdj = .ok d ∧ Matches isAdj d Composition.unit := by
  have hnodup : (OrderedMap.keys (Composition.unit.forms isAdj)).Nodup := by
    rw [Composition.keys_forms]
    exact Slot.nodup_run isAdj
  have hfilled : fill ∅ ((runSlots isAdj).map fun name => (name, [""])) =
      .ok (sheet (Composition.unit.forms isAdj)) := by
    have hnames : (runSlots isAdj).map (fun name => (name, [""])) =
        names (Composition.unit.forms isAdj).entries := by
      simp [runSlots_eq, names, Composition.forms, Composition.unit, Cell.unit]
    have hall : OrderedMap.ofList (Composition.unit.forms isAdj).entries =
        Composition.unit.forms isAdj :=
      OrderedMap.ofList_of_nodup hnodup
    have hfill := fill_sheet ∅ (Composition.unit.forms isAdj).entries
    rw [OrderedMap.ofList] at hall
    rw [hall] at hfill
    rw [hnames]
    exact hfill
  refine ⟨{ forms := sheet (Composition.unit.forms isAdj) }, ?_, ?_⟩
  · rw [start, hfilled]
    rfl
  · refine ⟨rfl, fun _ _ => rfl, rfl, rfl, rfl, ?_, rfl, rfl, rfl, rfl⟩
    intro title htitle
    cases htitle

end Composed
end Declension.Checked
