import Declension.Proofs.Composition
import Declension.Proofs.Slot
import Declension.Record
import Declension.Run.Reader
import Declension.Tables.Latin

/-!
# What an alternant yields

The branches of an alternant are merged slot by slot: their forms are listed once each, in the
order in which they are first seen, and their notes go with them. Main statement:
`compose_alternant`, which gives the forms of the whole and says where every note comes from.
-/
namespace Declension

/-- Notes added to others, less those that are there already. -/
def addMissing (present more : List String) : List String :=
  present ++ more.filter (· ∉ present)

@[simp] theorem addMissing_nil (present : List String) : addMissing present [] = present := by
  simp [addMissing]

theorem prefix_addMissing (present more : List String) : present <+: addMissing present more :=
  List.prefix_append _ _

theorem mem_addMissing {note : String} {present more : List String} :
    note ∈ addMissing present more ↔ note ∈ present ∨ note ∈ more := by
  by_cases h : note ∈ present <;> simp [addMissing, h]

theorem count_addMissing_of_mem {note : String} {present : List String} (h : note ∈ present)
    (more : List String) : (addMissing present more).count note = present.count note := by
  have hnot : note ∉ more.filter (· ∉ present) := by simp [h]
  rw [addMissing, List.count_append, List.count_eq_zero_of_not_mem hnot, Nat.add_zero]

theorem prefix_foldl_addMissing (present : List String) (lists : List (List String)) :
    present <+: lists.foldl addMissing present := by
  induction lists generalizing present with
  | nil => exact List.prefix_refl _
  | cons more lists ih => exact (prefix_addMissing present more).trans (ih _)

theorem mem_foldl_addMissing {note : String} {present : List String}
    {lists : List (List String)} :
    note ∈ lists.foldl addMissing present ↔ note ∈ present ∨ ∃ more ∈ lists, note ∈ more := by
  induction lists generalizing present with
  | nil => simp
  | cons more lists ih =>
    rw [List.foldl_cons, ih, mem_addMissing, List.exists_mem_cons_iff, or_assoc]

theorem count_foldl_addMissing_of_mem {note : String} {present : List String}
    (h : note ∈ present) (lists : List (List String)) :
    (lists.foldl addMissing present).count note = present.count note := by
  induction lists generalizing present with
  | nil => rfl
  | cons more lists ih =>
    have hstep : note ∈ addMissing present more := mem_addMissing.mpr (.inl h)
    rw [List.foldl_cons, ih hstep, count_addMissing_of_mem h]

namespace Cell

theorem getD_addNotes (notes : OrderedMap ℕ (List String)) (target place : ℕ)
    (more : List String) :
    ((addNotes notes target more).get? place).getD [] =
      if target = place then addMissing ((notes.get? place).getD []) more
      else (notes.get? place).getD [] := by
  rw [addNotes, OrderedMap.get?_insert]
  by_cases h : target = place
  · simp [h, addMissing]
  · simp [h]

/-- Notes put one after the other on the places of their forms. -/
theorem getD_foldl_addNotes (target : String → ℕ) (xs : List NotedForm) (place : ℕ)
    (notes : OrderedMap ℕ (List String)) :
    ((xs.foldl (fun notes x => addNotes notes (target x.1) x.2) notes).get? place).getD [] =
      ((xs.filter (target ·.1 = place)).map Prod.snd).foldl addMissing
        ((notes.get? place).getD []) := by
  induction xs generalizing notes with
  | nil => rfl
  | cons x xs ih =>
    rw [List.foldl_cons, ih, getD_addNotes]
    by_cases h : target x.1 = place <;> simp [h]

theorem noted_eq_filterMap (c : Cell) :
    c.noted = (List.range c.forms.length).filterMap fun place =>
      c.forms[place]?.map fun form => (form, c.notesAt place) := by
  have hsome : ∀ place ∈ List.range c.forms.length,
      (c.forms[place]?.map fun form => (form, c.notesAt place)) =
        some (c.forms.getD place "", c.notesAt place) := by
    intro place hp
    rw [List.getD_eq_getElem?_getD, List.getElem?_eq_getElem (List.mem_range.mp hp)]
    rfl
  rw [List.filterMap_congr hsome, List.filterMap_eq_map']
  apply List.ext_getElem?
  intro place
  rw [getElem?_noted, List.getElem?_map]
  by_cases hp : place < c.forms.length
  · simp [hp]
  · simp [hp]

/-- What a normal cell stores notes on: its forms that have any. -/
theorem IsNormal.filterMap_entries {c : Cell} (h : c.IsNormal) :
    (c.notes.entries.filterMap fun entry => c.forms[entry.1]?.map fun form => (form, entry.2)) =
      c.noted.filter (·.2 ≠ []) := by
  rw [h, placed, noted_eq_filterMap, List.filterMap_filterMap, List.filter_filterMap]
  apply List.filterMap_congr
  intro place hp
  rw [List.getElem?_eq_getElem (List.mem_range.mp hp)]
  by_cases hn : c.notesAt place = []
  · simp [hn, Option.filter]
  · have hlt : place < c.forms.length := List.mem_range.mp hp
    simp [hn, hlt, Option.filter]

/-- Merging puts the notes of a form on its first place, behind those that are there. -/
theorem notesAt_merge (a : Cell) {b : Cell} (hb : b.IsNormal) (place : ℕ) :
    (a.merge b).notesAt place =
      ((b.noted.filter ((addNew a.forms b.forms).idxOf ·.1 = place)).map Prod.snd).foldl
        addMissing (a.notesAt place) := by
  have hfold : (a.merge b).notes = (b.noted.filter (·.2 ≠ [])).foldl
      (fun notes x => addNotes notes ((addNew a.forms b.forms).idxOf x.1) x.2) a.notes := by
    rw [← hb.filterMap_entries, List.foldl_filterMap]
    refine congrArg (fun step => b.notes.entries.foldl step a.notes) ?_
    funext notes entry
    cases h : b.forms[entry.1]? <;> simp [h]
  rw [notesAt, hfold, getD_foldl_addNotes (fun form => (addNew a.forms b.forms).idxOf form),
    List.filter_comm, List.foldl_map, List.foldl_map, List.foldl_filter]
  refine congrArg (fun step => List.foldl step (a.notesAt place) _) ?_
  funext notes x
  by_cases hx : x.2 = [] <;> simp [hx]

/-- The notes at a place when the forms of the cells are listed as `forms`: those of the first
cell on this place, then cell by cell those of the form whose first place this is, less those
that are there already. -/
def recorded (forms : List String) (first : Cell) (rest : List Cell) (place : ℕ) : List String :=
  (((rest.flatMap noted).filter (forms.idxOf ·.1 = place)).map Prod.snd).foldl addMissing
    (first.notesAt place)

theorem forms_foldl_merge (first : Cell) (rest : List Cell) :
    (rest.foldl merge first).forms = addNew first.forms (rest.flatMap forms) := by
  induction rest generalizing first with
  | nil => rfl
  | cons b rest ih =>
    rw [List.foldl_cons, ih, List.flatMap_cons, addNew_append]
    rfl

theorem notesAt_foldl_merge (first : Cell) {rest : List Cell} (h : ∀ c ∈ rest, c.IsNormal)
    (place : ℕ) :
    (rest.foldl merge first).notesAt place =
      recorded (addNew first.forms (rest.flatMap forms)) first rest place := by
  induction rest generalizing first with
  | nil => rfl
  | cons b rest ih =>
    have hb : b.IsNormal := h b List.mem_cons_self
    have hrest : ∀ c ∈ rest, c.IsNormal := fun c hc => h c (List.mem_cons_of_mem b hc)
    have hplace : ∀ x ∈ b.noted,
        (addNew (addNew first.forms b.forms) (rest.flatMap forms)).idxOf x.1 =
          (addNew first.forms b.forms).idxOf x.1 := by
      intro x hx
      have hform : x.1 ∈ b.forms := by
        rw [← map_fst_noted b]
        exact List.mem_map_of_mem hx
      exact idxOf_addNew_of_mem (by simp [hform]) _
    have hfilter : b.noted.filter
        ((addNew (addNew first.forms b.forms) (rest.flatMap forms)).idxOf ·.1 = place) =
          b.noted.filter ((addNew first.forms b.forms).idxOf ·.1 = place) := by
      apply List.filter_congr
      intro x hx
      rw [hplace x hx]
    rw [List.foldl_cons, ih (first.merge b) hrest, recorded, notesAt_merge first hb, recorded,
      List.flatMap_cons, List.flatMap_cons, addNew_append, List.filter_append, List.map_append,
      List.foldl_append, hfilter]
    rfl

theorem forms_unit_append (c : Cell) : (unit.append c).forms = c.forms := by
  simp [append, unit]

theorem notesAt_unit_append (c : Cell) {place : ℕ} (hp : place < c.forms.length) :
    (unit.append c).notesAt place = c.notesAt place := by
  have hlt : place < unit.forms.length * c.forms.length := by
    simpa [unit] using hp
  rw [notesAt_append unit c hlt, Nat.mod_eq_of_lt hp, Nat.div_eq_of_lt hp]
  rfl

/-- A cell lists the forms of the first cell, then those of the others where they are first seen,
and every note stays with its form: the notes of the first cell on their places, the others on the
first place of their form, each unless a cell before has put it there. -/
structure IsUnion (first : Cell) (rest : List Cell) (c : Cell) : Prop where
  forms : c.forms = first.forms ++ ((rest.flatMap Cell.forms).filter (· ∉ first.forms)).eraseDups
  mem_forms : ∀ form, form ∈ c.forms ↔ form ∈ first.forms ∨ ∃ t ∈ rest, form ∈ t.forms
  repeated : ∀ form, 1 < c.forms.count form → 1 < first.forms.count form
  notes : ∀ place, c.notesAt place = recorded c.forms first rest place
  notes_first : ∀ place, first.notesAt place <+: c.notesAt place
  notes_rest : ∀ t ∈ rest, ∀ x ∈ t.noted, ∀ note ∈ x.2, note ∈ c.notesAt (c.forms.idxOf x.1)
  notes_source : ∀ place, ∀ note ∈ c.notesAt place,
    (place < first.forms.length ∧ note ∈ first.notesAt place) ∨
      ∃ t ∈ rest, ∃ x ∈ t.noted, note ∈ x.2 ∧ c.forms.idxOf x.1 = place
  notes_once : ∀ before after, rest = before ++ after → ∀ place,
    ∀ note ∈ recorded c.forms first before place,
      (c.notesAt place).count note = (recorded c.forms first before place).count note

theorem mem_recorded {forms : List String} {first : Cell} {rest : List Cell} {place : ℕ}
    {note : String} :
    note ∈ recorded forms first rest place ↔ note ∈ first.notesAt place ∨
      ∃ t ∈ rest, ∃ x ∈ t.noted, note ∈ x.2 ∧ forms.idxOf x.1 = place := by
  rw [recorded, mem_foldl_addMissing]
  constructor
  · rintro (hfirst | ⟨notes, hnotes, hnote⟩)
    · exact .inl hfirst
    · obtain ⟨x, hx, rfl⟩ := List.mem_map.mp hnotes
      obtain ⟨hx, hplace⟩ := List.mem_filter.mp hx
      obtain ⟨t, ht, hx⟩ := List.mem_flatMap.mp hx
      exact .inr ⟨t, ht, x, hx, hnote, by simpa using hplace⟩
  · rintro (hfirst | ⟨t, ht, x, hx, hnote, hplace⟩)
    · exact .inl hfirst
    · have hmem : x ∈ (rest.flatMap noted).filter (forms.idxOf ·.1 = place) :=
        List.mem_filter.mpr ⟨List.mem_flatMap.mpr ⟨t, ht, hx⟩, by simpa using hplace⟩
      exact .inr ⟨x.2, List.mem_map_of_mem hmem, hnote⟩

theorem recorded_append (forms : List String) (first : Cell) (before after : List Cell)
    (place : ℕ) :
    recorded forms first (before ++ after) place =
      (((after.flatMap noted).filter (forms.idxOf ·.1 = place)).map Prod.snd).foldl addMissing
        (recorded forms first before place) := by
  simp only [recorded, List.flatMap_append, List.filter_append, List.map_append,
    List.foldl_append]

theorem form_mem_of_mem_noted {c : Cell} {x : NotedForm} (h : x ∈ c.noted) : x.1 ∈ c.forms := by
  rw [← map_fst_noted c]
  exact List.mem_map_of_mem h

/-- Nothing is recorded behind the last form. -/
theorem recorded_of_length_le {first : Cell} (hfirst : first.IsNormal) {rest : List Cell}
    {place : ℕ} (hp : (addNew first.forms (rest.flatMap forms)).length ≤ place) :
    recorded (addNew first.forms (rest.flatMap forms)) first rest place = [] := by
  have hle : first.forms.length ≤ (addNew first.forms (rest.flatMap forms)).length :=
    (prefix_addNew _ _).length_le
  rw [List.eq_nil_iff_forall_not_mem]
  intro note hnote
  rcases mem_recorded.mp hnote with hfirst' | ⟨t, ht, x, hx, _, hplace⟩
  · rw [hfirst.notesAt_of_length_le (Nat.le_trans hle hp)] at hfirst'
    cases hfirst'
  · have hform : x.1 ∈ addNew first.forms (rest.flatMap forms) := by
      rw [mem_addNew]
      exact .inr (List.mem_flatMap.mpr ⟨t, ht, form_mem_of_mem_noted hx⟩)
    have hlt := List.idxOf_lt_length_of_mem hform
    omega

theorem isUnion_foldl_merge {first : Cell} {rest : List Cell} (hfirst : first.IsNormal)
    (hrest : ∀ t ∈ rest, t.IsNormal) :
    IsUnion first rest (unit.append (rest.foldl merge first)) := by
  have hforms : (unit.append (rest.foldl merge first)).forms =
      addNew first.forms (rest.flatMap forms) := by
    rw [forms_unit_append, forms_foldl_merge]
  have hnotes : ∀ place, (unit.append (rest.foldl merge first)).notesAt place =
      recorded (addNew first.forms (rest.flatMap forms)) first rest place := by
    intro place
    by_cases hp : place < (rest.foldl merge first).forms.length
    · rw [notesAt_unit_append _ hp, notesAt_foldl_merge first hrest]
    · have hle : (unit.append (rest.foldl merge first)).forms.length ≤ place := by
        rw [forms_unit_append]
        omega
      rw [(isNormal_append _ _).notesAt_of_length_le hle]
      exact (recorded_of_length_le hfirst (hforms ▸ hle)).symm
  constructor
  case forms => rw [hforms, addNew_eq]
  case mem_forms =>
    intro form
    rw [hforms, mem_addNew, List.mem_flatMap]
  case repeated =>
    intro form h
    rw [hforms] at h
    exact one_lt_count_of_addNew h
  case notes =>
    intro place
    rw [hforms, hnotes]
  case notes_first =>
    intro place
    rw [hnotes]
    exact prefix_foldl_addMissing _ _
  case notes_rest =>
    intro t ht x hx note hnote
    rw [hforms, hnotes]
    exact mem_recorded.mpr (.inr ⟨t, ht, x, hx, hnote, rfl⟩)
  case notes_source =>
    intro place note hnote
    rw [hnotes] at hnote
    rw [hforms]
    refine (mem_recorded.mp hnote).imp_left fun hmem => ⟨?_, hmem⟩
    by_contra hle
    rw [hfirst.notesAt_of_length_le (Nat.not_lt.mp hle)] at hmem
    cases hmem
  case notes_once =>
    rintro before after rfl place note hnote
    rw [hnotes, ← hforms, recorded_append]
    exact count_foldl_addMissing_of_mem hnote _

end Cell

theorem Composition.mergedCell_cons (first : Composition) (rest : List Composition) (slot : Slot) :
    mergedCell (first :: rest) slot =
      (rest.map fun t => t.cell slot).foldl Cell.merge (first.cell slot) := by
  rw [mergedCell, List.foldl_map]

namespace Alternant
variable (e : Engine) (pos : String) (isAdj : Bool)

/-- The branches that are declined: marked with what sets them apart, unless each gets a title of
its own. -/
def marked (a : Alternant) : List PlainRun :=
  if needsOwnTitles a.branches then a.branches else a.mark

/-- Whether a branch is used as its alternant and run make of it: with a locative if either has one,
and with the number and gender of the first of branch, alternant and run that has any. -/
structure IsSettled (a : Alternant) (run branch settled : Summary) : Prop where
  loc : settled.loc = (a.summary.loc || run.loc)
  num : settled.num = branch.num.or (a.summary.num.or run.num)
  gender : settled.gender = branch.gender.or (a.summary.gender.or run.gender)
  isAdj : settled.isAdj = branch.isAdj
  propses : settled.propses = branch.propses

/-- What a branch yields by itself: the forms of a run of its pieces in that use, without those
outside its number. -/
def Reads (a : Alternant) (run : Summary) (b : PlainRun) (t : Slot → Cell) : Prop :=
  ∃ settled c, a.IsSettled run b.summary settled ∧
    Run.compose e pos isAdj ⟨b.pieces.map .piece, settled⟩ = .ok c ∧
    ∀ slot, t slot =
      if settled.num = some .sg ∧ slot.number = .pl ∨ settled.num = some .pl ∧ slot.number = .sg
      then .blank else c.cell slot

end Alternant

theorem PlainRun.compose_eq_run (e : Engine) (pos : String) (isAdj : Bool) (r : PlainRun) :
    r.compose e pos isAdj = Run.compose e pos isAdj ⟨r.pieces.map .piece, r.summary⟩ := by
  rw [PlainRun.compose, Run.compose, List.mapM_map]
  rfl

namespace Alternant
variable {e : Engine} {pos : String} {isAdj : Bool} {run : Summary}

theorem isSettled_settle (a : Alternant) (run : Summary) (b : PlainRun) :
    a.IsSettled run b.summary (a.settle run b).summary where
  loc := rfl
  num := by simp [settle]
  gender := by simp [settle]
  isAdj := rfl
  propses := rfl

theorem reads_of_composeBranch {a : Alternant} {b : PlainRun} {t : Composition}
    (h : composeBranch e pos isAdj (a.settle run b) = .ok t) :
    a.Reads e pos isAdj run b t.cell := by
  obtain ⟨c, hc, h⟩ := bind_eq_ok.mp h
  rw [PlainRun.compose_eq_run] at hc
  refine ⟨_, c, isSettled_settle a run b, hc, fun slot => ?_⟩
  cases h
  rcases (a.settle run b).summary.num with _ | _ | _ | _ <;>
    cases hnumber : slot.number <;>
    simp [NumberUse.only?, Composition.blankNumber, Number.other, hnumber]

theorem Reads.isNormal {a : Alternant} {b : PlainRun} {t : Slot → Cell}
    (h : a.Reads e pos isAdj run b t) (slot : Slot) : (t slot).IsNormal := by
  obtain ⟨_, c, -, hc, ht⟩ := h
  rw [ht slot]
  split
  · exact Cell.isNormal_blank
  · exact (Run.isNormal_of_compose e pos isAdj hc).cell slot

theorem compose_eq_ok {a : Alternant} {part : Composition} :
    a.compose e pos isAdj run = .ok part ↔ ∃ first rest,
      List.Forall₂ (fun b t => composeBranch e pos isAdj (a.settle run b) = .ok t)
        a.marked (first :: rest) ∧ a.contribution isAdj run (first :: rest) = part := by
  rw [compose, bind_eq_ok]
  constructor
  · rintro ⟨composed, hcomposed, h⟩
    cases composed with
    | nil => cases h
    | cons first rest => exact ⟨first, rest, mapM_eq_ok.mp hcomposed, Except.ok.inj h⟩
  · rintro ⟨first, rest, hbranches, rfl⟩
    exact ⟨first :: rest, mapM_eq_ok.mpr hbranches, rfl⟩

theorem cell_contribution {a : Alternant} (hnum : run.num.bind NumberUse.only? = none)
    (branches : List Composition) :
    (a.contribution isAdj run branches).cell = Composition.mergedCell branches := by
  rw [contribution, hnum]

end Alternant

/-- An alternant in a run that is not restricted in number yields in every slot the union of its
branches, each declined by itself. -/
theorem Run.compose_alternant {e : Engine} {pos : String} {isAdj : Bool} {a : Alternant}
    {s : Summary} {c : Composition} (hsg : s.num ≠ some .sg) (hpl : s.num ≠ some .pl)
    (h : Run.compose e pos isAdj ⟨[.alternant a], s⟩ = .ok c) :
    ∃ first rest, List.Forall₂ (a.Reads e pos isAdj s) a.marked (first :: rest) ∧
      ∀ slot, Cell.IsUnion (first slot) (rest.map (· slot)) (c.cell slot) := by
  have hnum : s.num.bind NumberUse.only? = none := by
    rcases hs : s.num with _ | _ | _ | _
    · rfl
    · exact absurd hs hsg
    · exact absurd hs hpl
    · rfl
  obtain ⟨parts, hparts, rfl⟩ := (compose_eq_ok e pos isAdj).mp h
  obtain ⟨part, tail, hpart, htail, rfl⟩ := List.forall₂_cons_left_iff.mp hparts
  rw [List.forall₂_nil_left_iff] at htail
  subst htail
  obtain ⟨first, rest, hbranches, rfl⟩ := Alternant.compose_eq_ok.mp hpart
  have hreads : List.Forall₂ (a.Reads e pos isAdj s) a.marked
      (first.cell :: rest.map Composition.cell) := by
    rw [← List.map_cons, List.forall₂_map_right_iff]
    exact hbranches.imp fun _ _ => Alternant.reads_of_composeBranch
  refine ⟨first.cell, rest.map Composition.cell, hreads, fun slot => ?_⟩
  have hnormal : ∀ t ∈ first.cell :: rest.map Composition.cell, (t slot).IsNormal :=
    forall_mem_of_forall₂ hreads fun _ _ hb => hb.isNormal slot
  obtain ⟨hfirst, hrest⟩ := List.forall_mem_cons.mp hnormal
  have hcell : (Composition.concat [a.contribution isAdj s (first :: rest)]).cell slot =
      Cell.unit.append (((rest.map Composition.cell).map (· slot)).foldl Cell.merge
        (first.cell slot)) := by
    rw [List.map_map]
    change Cell.unit.append ((a.contribution isAdj s (first :: rest)).cell slot) = _
    rw [Alternant.cell_contribution hnum, Composition.mergedCell_cons]
    rfl
  rw [hcell]
  apply Cell.isUnion_foldl_merge hfirst
  simpa using hrest

/-- A word in the singular only with a locative, and another given twice with its second genitive
plural: the note on this stays single, and the other word has a locative too, in both numbers. -/
theorem Run.compose_alternant_of_filius_and_deus :
    ∃ a s c filius deus others,
      Run.read .latin "((fīlius<2.sg.loc>,deus<2.genplum>,deus<2.genplum>))" =
        .ok ⟨[.alternant a], s⟩ ∧
      s.num = some .both ∧ s.loc = true ∧ a.branches = filius :: deus :: others ∧
      deus.summary.num = none ∧ deus.summary.loc = false ∧
      Run.compose ⟨.latin, {}⟩ "nouns" false ⟨[.alternant a], s⟩ = .ok c ∧
      c.cell (.pl .gen) = ⟨["deōrum", "deum"], ⟨[(1, ["Contraction found in poetry."])]⟩⟩ ∧
      (c.cell (.sg .loc)).forms = ["fīliī", "deī"] ∧ (c.cell (.pl .loc)).forms = ["deīs"] ∧
      ∃ first rest, List.Forall₂ (a.Reads ⟨.latin, {}⟩ "nouns" false s) a.marked
          (first :: rest) ∧
        ∀ slot, Cell.IsUnion (first slot) (rest.map (· slot)) (c.cell slot) := by
  obtain ⟨a, s, hr, hnum, hloc, ⟨filius, deus, others, hbranches, hown, hplace⟩, c, hc, hgen,
      hsgloc, hplloc⟩ : ∃ a s,
      Run.read .latin "((fīlius<2.sg.loc>,deus<2.genplum>,deus<2.genplum>))" =
          .ok ⟨[.alternant a], s⟩ ∧ s.num = some .both ∧ s.loc = true ∧
      (∃ filius deus others, a.branches = filius :: deus :: others ∧ deus.summary.num = none ∧
        deus.summary.loc = false) ∧
      ∃ c, Run.compose ⟨.latin, {}⟩ "nouns" false ⟨[.alternant a], s⟩ = .ok c ∧
        c.cell (.pl .gen) =
          ⟨["deōrum", "deum"], ⟨[(1, ["Contraction found in poetry."])]⟩⟩ ∧
        (c.cell (.sg .loc)).forms = ["fīliī", "deī"] ∧ (c.cell (.pl .loc)).forms = ["deīs"] :=
    ⟨_, _, rfl, rfl, rfl, ⟨_, _, _, rfl, rfl, rfl⟩, _, rfl, by decide +kernel, by decide +kernel,
      by decide +kernel⟩
  have hsg : s.num ≠ some .sg := by
    rw [hnum]
    decide
  have hpl : s.num ≠ some .pl := by
    rw [hnum]
    decide
  exact ⟨a, s, c, filius, deus, others, hr, hnum, hloc, hbranches, hown, hplace, hc, hgen, hsgloc,
    hplloc, Run.compose_alternant hsg hpl hc⟩

end Declension
