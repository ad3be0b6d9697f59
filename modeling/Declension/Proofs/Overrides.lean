import Declension.Proofs.RecordForms
import Declension.Tables.Latin

/-!
# One argument more

A template that gives forms for a cell of a noun changes that cell of its record, and for a
nominative the linked slot beside it if that has no forms of its own. Every other argument is read
under a name of its own, and every slot is filled from its own arguments. Main statement:
`ofArguments_insert`.
-/
namespace Declension

theorem Slot.cell_mem_run (c : Case) (n : Number) : cell c n none ∈ run false := by
  cases c <;> cases n <;> decide

theorem Slot.linked_mem_run (n : Number) : linked n none ∈ run false := by
  cases n <;> decide

namespace Arguments

theorem list_insert {base name : String} (h : place? base name = none) (args : Arguments)
    (value : String) : list (args.insert name value) base = args.list base := by
  unfold list OrderedMap.insert
  dsimp only
  rw [OrderedMap.filterMap_put (by simp [h])]

/-- Whether a name stands for a cell alone: no other part of a record is read under it. -/
structure IsForCell (name : String) : Prop where
  ne : name ∉ ["1", "num", "title", "type", "indecl"]
  ne_locative : name ∉ NounRecord.locatives.map Slot.name
  lemmas : place? "lemma" name = none

theorem isForCell_name {c : Case} (hc : c ≠ .loc) (n : Number) :
    IsForCell (Slot.cell c n none).name := by
  cases c with
  | loc => exact absurd rfl hc
  | _ => cases n <;> exact ⟨by decide, by decide, by decide⟩

end Arguments

namespace NounRecord
variable {args : Arguments} {r : NounRecord} {slot t : Slot} {slots : List Slot}

theorem overridden_foldl_overrideSlot (r : NounRecord) (slots : List Slot) :
    (slots.foldl (overrideSlot args) r).overridden =
      r.overridden ++ slots.filter fun t => (nounForms? args t).isSome := by
  induction slots generalizing r with
  | nil => simp
  | cons t slots ih =>
    rw [List.foldl_cons, ih, overrideSlot_eq, List.append_assoc, ← List.filter_append,
      List.singleton_append]

/-- Filling slots that are there, or that the template gives nothing to, adds none. -/
theorem keys_foldl_overrideSlot
    (h : ∀ t ∈ slots, t ∈ r.forms.keys ∨ nounForms? args t = none) :
    (slots.foldl (overrideSlot args) r).forms.keys = r.forms.keys := by
  induction slots generalizing r with
  | nil => rfl
  | cons t slots ih =>
    obtain ⟨ht, hrest⟩ := List.forall_mem_cons.mp h
    have hkeys : (overrideSlot args r t).forms.keys = r.forms.keys := by
      rw [overrideSlot_eq]
      dsimp only
      by_cases hmem : t ∈ r.forms.keys
      · split
        · exact OrderedMap.keys_insert_of_mem hmem _
        · rfl
      · have hnone : r.forms.get? t = none := OrderedMap.find_eq_none.mpr hmem
        simp [filled?, ht.resolve_left hmem, hnone]
    rw [List.foldl_cons, ih (by rwa [hkeys]), hkeys]

section Insert
variable {e : Engine} {pos value : String} {name : String} {run : Run} {c : Composition}

theorem get?_insert_of_isForCell (h : Arguments.IsForCell name) {key : String}
    (hkey : key ∈ ["1", "num", "title", "type", "indecl"]) :
    (args.insert name value).get? key = args.get? key := by
  have hne : name ≠ key := fun heq => h.ne (heq ▸ hkey)
  rw [OrderedMap.get?_insert, if_neg hne]

/-- What a run declines to does not change with an argument for a cell. -/
theorem composed_insert (h : Arguments.IsForCell name) :
    composed e (args.insert name value) pos = composed e args pos := by
  have hspec : Arguments.getD (args.insert name value) "1" "" = args.getD "1" "" := by
    rw [Arguments.getD, get?_insert_of_isForCell h (by decide), Arguments.getD]
  have hloc : Arguments.hasAny (args.insert name value) (locatives.map Slot.name) =
      args.hasAny (locatives.map Slot.name) := by
    unfold Arguments.hasAny
    rw [Bool.eq_iff_iff, List.any_eq_true, List.any_eq_true]
    refine exists_congr fun key => and_congr_right fun hkey => ?_
    have hne : name ≠ key := fun heq => h.ne_locative (heq ▸ hkey)
    rw [OrderedMap.contains_insert, or_iff_right hne]
  have hsettle (run : Run) : settleRun (args.insert name value) locatives run =
      settleRun args locatives run := by
    unfold settleRun numberUse
    rw [hloc, get?_insert_of_isForCell h (by decide)]
  unfold composed
  simp only [hspec, hsettle]

theorem ofComposition_insert (h : Arguments.IsForCell name) (isAdj : Bool) (forms : FormMap) :
    Record.ofComposition (args.insert name value) pos isAdj run c forms =
      Record.ofComposition args pos isAdj run c forms := by
  unfold Record.ofComposition
  rw [get?_insert_of_isForCell h (by decide), get?_insert_of_isForCell h (by decide),
    OrderedMap.contains, get?_insert_of_isForCell h (by decide),
    Arguments.list_insert h.lemmas, OrderedMap.contains]

end Insert

variable {e : Engine} {pos : String} {run : Run} {c : Case} {n : Number} {value : String}

/-- Only a nominative has a linked slot that is given forms with it. -/
theorem nounForms?_insert_of_ne (hslot : slot ≠ .cell c n none)
    (hlinked : ¬ (c = .nom ∧ slot = .linked n none ∧ args.get? slot.name = none)) :
    nounForms? (args.insert (Slot.cell c n none).name value) slot = nounForms? args slot := by
  have hname : ∀ t : Slot, t ≠ .cell c n none →
      (args.insert (Slot.cell c n none).name value).get? t.name = args.get? t.name := by
    intro t ht
    rw [OrderedMap.get?_insert, if_neg fun heq => ht (Slot.name_injective heq).symm]
  unfold nounForms?
  rw [hname slot hslot]
  cases hown : args.get? slot.name with
  | some own => rfl
  | none =>
    have hplain : ∀ plain, plainOf? slot = some plain → plain ≠ .cell c n none := by
      rintro plain hplain rfl
      cases slot with
      | cell => cases hplain
      | linked =>
        cases hplain
        exact hlinked ⟨rfl, rfl, hown⟩
    unfold linkedForms?
    cases hslot : plainOf? slot with
    | none => rfl
    | some plain => rw [Option.bind_some, Option.bind_some, hname plain (hplain plain hslot)]

theorem nounForms?_insert_self :
    nounForms? (args.insert (Slot.cell c n none).name value) (.cell c n none) =
      some (Text.fields '/' (Text.unlink value)) := by
  simp [nounForms?, formsOfArgument, Slot.isLinked]

theorem isSome_nounForms?_insert :
    (nounForms? (args.insert (Slot.cell c n none).name value) slot).isSome ↔
      (nounForms? args slot).isSome ∨ slot = .cell c n none ∨
        c = .nom ∧ slot = .linked n none := by
  by_cases hslot : slot = .cell c n none
  · simp [hslot, nounForms?_insert_self]
  · by_cases hlinked : c = .nom ∧ slot = .linked n none
    · obtain ⟨rfl, rfl⟩ := hlinked
      simp [nounForms?, linkedForms?, plainOf?]
    · rw [nounForms?_insert_of_ne hslot fun h => hlinked ⟨h.1, h.2.1⟩]
      simp [hslot, hlinked]

theorem num_ofComposed (args : Arguments) (pos : String) (run : Run) (c : Composition) :
    (ofComposed args pos run c).num = run.summary.num :=
  num_applyOverrides _ _

theorem frame_ofComposed (args : Arguments) (pos : String) (run : Run) (c : Composition)
    (forms : FormMap) (overridden : List Slot) :
    { ofComposed args pos run c with forms, overridden } =
      { Record.ofComposition args pos false run c (entered run c) with
        gender := run.summary.gender, forms, overridden } := by
  unfold ofComposed applyOverrides
  rw [foldl_overrideSlot_eq]

theorem isExcluded_cell {num : Option NumberUse} (c : Case) (n : Number) :
    isExcluded num (.cell c n none) ↔ num = some (.ofNumber n.other) := by
  cases num with
  | none => simp [isExcluded]
  | some use => cases use <;> cases n <;> simp [isExcluded, NumberUse.only?, Slot.number,
      NumberUse.ofNumber, Number.other]

theorem mem_overridden_ofComposed {c : Composition} :
    slot ∈ (ofComposed args pos run c).overridden ↔
      slot ∈ Slot.run false ∧ (nounForms? args slot).isSome := by
  unfold ofComposed applyOverrides
  rw [overridden_foldl_overrideSlot]
  exact List.mem_filter

/-- No argument adds a slot to a record: with one for a locative the locatives are in it. -/
theorem keys_ofComposed {c : Composition} (h : composed e args pos = .ok (run, c)) :
    (ofComposed args pos run c).forms.keys = (entered run c).keys := by
  obtain ⟨read, -, rfl, -⟩ := composed_eq_ok.mp h
  refine keys_foldl_overrideSlot fun t ht => ?_
  by_cases hloc : t ∈ locatives → (settleRun args locatives read).summary.loc = true
  · left
    by_contra hkeys
    have hnone : (entered (settleRun args locatives read) c).get? t = none :=
      OrderedMap.find_eq_none.mpr hkeys
    rw [get?_entered ht hloc] at hnone
    cases hnone
  · right
    obtain ⟨hlocative, hloc⟩ := Classical.not_imp.mp hloc
    have hplain : ∀ t ∈ locatives, plainOf? t = none := by decide
    have hnone : args.get? t.name = none := by
      by_contra hget
      have hany : args.hasAny (locatives.map Slot.name) = true :=
        List.any_eq_true.mpr ⟨_, List.mem_map_of_mem hlocative, Option.isSome_iff_ne_none.mpr hget⟩
      exact hloc (by simp [settleRun, hany])
    simp [nounForms?, linkedForms?, hnone, hplain t hlocative]

/-- Forms given to a cell of a noun that is no locative change its record in that cell, in the
linked slot of a nominative if it has no argument of its own, and in the list of what is given. -/
theorem ofArguments_insert (h : ofArguments e args pos = .ok r) (hc : c ≠ .loc) (n : Number)
    (value : String) :
    ∃ r', ofArguments e (args.insert (Slot.cell c n none).name value) pos = .ok r' ∧
      { r' with forms := r.forms, overridden := r.overridden } = r ∧
      r'.forms.keys = r.forms.keys ∧
      (∀ slot, slot ≠ .cell c n none →
        ¬ (c = .nom ∧ slot = .linked n none ∧ args.get? slot.name = none) →
        r'.forms.get? slot = r.forms.get? slot) ∧
      (∀ slot, slot ∈ r'.overridden ↔ slot ∈ r.overridden ∨ slot = .cell c n none ∨
        c = .nom ∧ slot = .linked n none) ∧
      r'.forms.get? (.cell c n none) = some (
        if r.num = some (.ofNumber n.other) then [""]
        else if (Text.fields '/' (Text.unlink value)).headD "" ∈ ["", "-", "—"] then ["—"]
        else Text.fields '/' (Text.unlink value)) := by
  obtain ⟨run, comp, hcomposed, rfl⟩ := ofArguments_eq_ok.mp h
  have hname := Arguments.isForCell_name hc n
  have hcomposed' : composed e (args.insert (Slot.cell c n none).name value) pos =
      .ok (run, comp) := (composed_insert hname).trans hcomposed
  have hrun : ∀ slot, slot = .cell c n none ∨ c = .nom ∧ slot = .linked n none →
      slot ∈ Slot.run false := by
    rintro slot (rfl | ⟨-, rfl⟩)
    · exact Slot.cell_mem_run c n
    · exact Slot.linked_mem_run n
  refine ⟨_, ofArguments_eq_ok.mpr ⟨run, comp, hcomposed', rfl⟩, ?_, ?_, ?_, ?_, ?_⟩
  · rw [frame_ofComposed, ofComposition_insert hname, ← frame_ofComposed]
  · rw [keys_ofComposed hcomposed', keys_ofComposed hcomposed]
  · intro slot hslot hlinked
    simp only [get?_forms_ofComposed, filled?, nounForms?_insert_of_ne hslot hlinked]
  · intro slot
    rw [mem_overridden_ofComposed, mem_overridden_ofComposed, isSome_nounForms?_insert, and_or_left,
      and_iff_right_of_imp (hrun slot)]
  · rw [get?_forms_ofComposed, if_pos (hrun _ (.inl rfl)), filled?, nounForms?_insert_self,
      num_ofComposed]
    change some (if isExcluded run.summary.num (.cell c n none) then [""]
      else shown (Text.fields '/' (Text.unlink value))) = _
    simp only [shown_fields, isExcluded_cell]
    rfl

/-- Two nominatives, one of them linked, or a dash, for a name with a locative. -/
theorem ofArguments_insert_of_roma :
    ∃ r named dashed, Case.nom ≠ .loc ∧
      ofArguments ⟨.latin, {}⟩ ⟨[("1", "Rōma<1.loc>"), ("lemma", "Rōma")]⟩ "nouns" = .ok r ∧
      ofArguments ⟨.latin, {}⟩
        ⟨[("1", "Rōma<1.loc>"), ("lemma", "Rōma"), ("nom_sg", "[[Rōma]]/Rōm")]⟩ "nouns" =
          .ok named ∧
      ofArguments ⟨.latin, {}⟩
        ⟨[("1", "Rōma<1.loc>"), ("lemma", "Rōma"), ("nom_sg", "/Rōm")]⟩ "nouns" = .ok dashed ∧
      { named with forms := r.forms, overridden := r.overridden } = r ∧
      named.forms.keys = r.forms.keys ∧
      named.forms.get? (.sg .loc) = r.forms.get? (.sg .loc) ∧
      Slot.linked .sg none ∈ named.overridden ∧
      named.forms.get? (.sg .nom) = some ["Rōma", "Rōm"] ∧
      dashed.forms.get? (.sg .nom) = some ["—"] := by
  obtain ⟨run, c, hc, hnum⟩ : ∃ run c,
      composed ⟨.latin, {}⟩ ⟨[("1", "Rōma<1.loc>"), ("lemma", "Rōma")]⟩ "nouns" = .ok (run, c) ∧
      run.summary.num = some .sg := ⟨_, _, rfl, rfl⟩
  have hr := ofArguments_eq_ok.mpr ⟨run, c, hc, rfl⟩
  have hcase : Case.nom ≠ .loc := by decide
  obtain ⟨named, hnamed, hframe, hkeys, hother, hgiven, hforms⟩ :=
    ofArguments_insert hr hcase .sg "[[Rōma]]/Rōm"
  obtain ⟨dashed, hdashed, -, -, -, -, hdash⟩ := ofArguments_insert hr hcase .sg "/Rōm"
  rw [num_ofComposed, hnum] at hforms hdash
  exact ⟨_, named, dashed, hcase, hr, hnamed, hdashed, hframe, hkeys,
    hother _ (by decide) (by decide), (hgiven _).mpr (.inr (.inr ⟨rfl, rfl⟩)),
    hforms.trans (by decide +kernel), hdash.trans (by decide +kernel)⟩

end NounRecord
end Declension
