import Declension.Proofs.LinkTexts
import Declension.Proofs.RecordNotes
import Declension.Tables.Latin

/-!
# Adjective forms that a template gives

An argument for a cell of an adjective is divided into forms at its slashes. An empty one gives the
cell nothing, and still gives a dash to the linked slot beside it. Main statement:
`ofArguments_cell`.
-/
namespace Declension

theorem Slot.cell_gender_mem_run (c : Case) (n : Number) (g : Gender) :
    cell c n (some g) ∈ run true := by
  cases c <;> cases n <;> cases g <;> decide

theorem Slot.linked_masculine_mem_run (n : Number) : linked n (some .m) ∈ run true := by
  cases n <;> decide

namespace AdjectiveRecord
variable {e : Engine} {args : Arguments} {pos : String} {run : Run} {c : Composition}
  {slot : Slot} {r : AdjectiveRecord} {text : String}

theorem overridden_filled : (filled args pos run c).overridden =
    (Slot.run true).filter fun t => (adjectiveForms? args t).isSome := by
  unfold filled applyOverrides
  rw [foldl_overrideSlot_eq]
  exact List.nil_append _

theorem num_filled : (filled args pos run c).num = run.summary.num := by
  unfold filled applyOverrides
  rw [foldl_overrideSlot_eq]
  rfl

theorem noneut_filled : (filled args pos run c).noneut = lacksNeuter args c := by
  unfold filled applyOverrides
  rw [foldl_overrideSlot_eq]

/-- Whether a slot is said to be given and shows the pieces of a text between slashes, or a dash if
the first of them stands for none. -/
structure ShowsPieces (r : AdjectiveRecord) (slot : Slot) (text : String) : Prop where
  overridden : slot ∈ r.overridden
  forms : r.forms.get? slot = some (if (Text.fields '/' text).headD "" ∈ emptyMarks then [dash]
    else Text.fields '/' text)

theorem showsPieces_filled (hslot : slot ∈ Slot.run true)
    (hnumber : isExcluded run.summary.num slot = false)
    (h : adjectiveForms? args slot = some (Text.fields '/' text)) :
    ShowsPieces (filled args pos run c) slot text := by
  constructor
  · rw [overridden_filled, List.mem_filter]
    exact ⟨hslot, by rw [h]; rfl⟩
  · rw [get?_forms_filled, if_pos hslot, slotForms?, h, ← shown_fields]
    simp [hnumber]

/-- Whether the forms of a text are the same with links and without: no link holds a slash, and the
first form is not a mark of emptiness behind a link. -/
structure DividesAroundLinks (text : String) : Prop where
  slash : Text.KeepsInFields '/' text.toList
  mark : Text.unlink ((Text.fields '/' text).headD "") ∈ emptyMarks →
    (Text.fields '/' text).headD "" ∈ emptyMarks

theorem DividesAroundLinks.map_unlink (h : DividesAroundLinks text) :
    (shown (Text.fields '/' text)).map Text.unlink =
      shown (Text.fields '/' (Text.unlink text)) := by
  have hfields := Text.map_unlink_fields (by decide) h.slash
  have hmarks : ∀ s ∈ emptyMarks, Text.unlink s = s := by decide +kernel
  obtain ⟨field, rest, hsplit, -, -⟩ := Text.exists_fieldsChars '/' text.toList
  have htext : Text.fields '/' text = String.ofList field :: rest.map String.ofList := by
    rw [Text.fields, hsplit, List.map_cons]
  have hmark := h.mark
  rw [htext, List.headD_cons] at hmark
  rw [← hfields, htext, List.map_cons, shown, shown]
  by_cases hfirst : String.ofList field ∈ emptyMarks
  · rw [if_pos hfirst, if_pos (by rwa [hmarks _ hfirst])]
    exact congrArg (fun s => [s]) (hmarks dash (by decide))
  · rw [if_neg hfirst, if_neg (mt hmark hfirst), List.map_cons]

theorem mem_cellsOf {k k' : Case} {n : Number} {g : Gender} :
    .cell k n (some g) ∈ cellsOf k' ↔ k = k' := by
  cases n <;> cases g <;> simp [cellsOf, Number.all, Gender.all]

theorem hasAny_cellsOf {k : Case} {n : Number} {g : Gender} {v : String}
    (h : args.get? (Slot.cell k n (some g)).name = some v) :
    args.hasAny ((cellsOf k).map Slot.name) := by
  have hname : (Slot.cell k n (some g)).name ∈ (cellsOf k).map Slot.name :=
    List.mem_map_of_mem (mem_cellsOf.mpr rfl)
  refine List.any_eq_true.mpr ⟨_, hname, ?_⟩
  rw [OrderedMap.contains, h]
  rfl

/-- A cell that has an argument, be it empty, enters the record. -/
theorem get?_entered_of_argument {k : Case} {n : Number} {g : Gender} {v : String}
    (hc : composed e args pos = .ok (run, c))
    (h : args.get? (Slot.cell k n (some g)).name = some v) :
    (entered args run c).get? (.cell k n (some g)) = some (c.cell (.cell k n (some g))).forms := by
  have hlocative : Slot.cell k n (some g) ∈ cellsOf .loc → run.summary.loc := by
    intro hk
    obtain rfl := mem_cellsOf.mp hk
    obtain ⟨_, _, hc⟩ := bind_eq_ok.mp hc
    obtain ⟨_, _, hc⟩ := bind_eq_ok.mp hc
    cases hc
    simp [settleRun, hasAny_cellsOf h]
  have hvocative : Slot.cell k n (some g) ∈ cellsOf .voc → hasVocative args c := by
    intro hk
    obtain rfl := mem_cellsOf.mp hk
    simp [hasVocative, hasAny_cellsOf h]
  exact get?_entered (Slot.cell_gender_mem_run k n g) hlocative hvocative

theorem ofArguments_eq_ok_filled (hall : e.options.populateAllTerminations) :
    ofArguments e args pos = .ok r ↔
      ∃ run c, composed e args pos = .ok (run, c) ∧ filled args pos run c = r := by
  simp only [ofArguments_eq_ok, ofComposed, hall, if_true]

/-- What the argument of a cell of an adjective gives. A text that is not empty gives the cell its
pieces without links; an empty one gives nothing, and the cell shows what was composed. Either gives
its pieces to the linked slot beside a masculine nominative, if that has no argument of its own, and
the two differ by links alone where the text divides around them. -/
theorem ofArguments_cell {k : Case} {n : Number} {g : Gender} {v : String}
    (hall : e.options.populateAllTerminations) (hr : ofArguments e args pos = .ok r)
    (hv : args.get? (Slot.cell k n (some g)).name = some v)
    (hnumber : isExcluded r.num (.cell k n (some g)) = false) :
    (v ≠ "" → ShowsPieces r (.cell k n (some g)) (Text.unlink v)) ∧
    (v = "" → r.noneut = false → .cell k n (some g) ∉ r.overridden ∧
      ∃ run c, composed e args pos = .ok (run, c) ∧
        r.forms.get? (.cell k n (some g)) = some (shown (c.cell (.cell k n (some g))).forms)) ∧
    (k = .nom → g = .m → given (args.get? (Slot.linked n (some .m)).name) = none →
      ShowsPieces r (.linked n (some .m)) v ∧
      (v ≠ "" → DividesAroundLinks v → ∃ forms, r.forms.get? (.linked n (some .m)) = some forms ∧
        r.forms.get? (.cell .nom n (some .m)) = some (forms.map Text.unlink))) := by
  obtain ⟨run, c, hc, rfl⟩ := (ofArguments_eq_ok_filled hall).mp hr
  rw [num_filled] at hnumber
  have hcell := Slot.cell_gender_mem_run k n g
  have hgiven : v ≠ "" → ShowsPieces (filled args pos run c) (.cell k n (some g))
      (Text.unlink v) := by
    intro hne
    refine showsPieces_filled hcell hnumber ?_
    simp [adjectiveForms?, given, hv, hne, formsOfArgument, Slot.isLinked]
  refine ⟨hgiven, ?_, ?_⟩
  · rintro rfl hneuter
    have hnone : adjectiveForms? args (.cell k n (some g)) = none := by
      simp [adjectiveForms?, given, hv, linkedForms?, plainOf?]
    constructor
    · simp [overridden_filled, hnone]
    · refine ⟨run, c, hc, ?_⟩
      rw [noneut_filled] at hneuter
      rw [get?_forms_filled, if_pos hcell, get?_entered_of_argument hc hv, slotForms?, hnone,
        hneuter]
      simp [hnumber]
  · rintro rfl rfl hlinked
    have hlinkedGiven : ShowsPieces (filled args pos run c) (.linked n (some .m)) v := by
      refine showsPieces_filled (Slot.linked_masculine_mem_run n) hnumber ?_
      simp [adjectiveForms?, hlinked, linkedForms?, plainOf?, hv]
    refine ⟨hlinkedGiven, fun hne hdivides => ?_⟩
    refine ⟨_, hlinkedGiven.forms, ?_⟩
    rw [(hgiven hne).forms, ← shown_fields, ← shown_fields, hdivides.map_unlink]

/-- Two nominatives of `bonus`, each a link. -/
theorem ofArguments_cell_of_bonus :
    ∃ r, ofArguments ⟨.latin, { populateAllTerminations := true }⟩
        ⟨[("1", "bonus"), ("nom_sg_m", "[[bonus]]/[[duenos]]")]⟩ "adjectives" = .ok r ∧
      .sgm .nom ∈ r.overridden ∧ .linked .sg (some .m) ∈ r.overridden ∧
      r.forms.get? (.sgm .nom) = some ["bonus", "duenos"] ∧
      r.forms.get? (.linked .sg (some .m)) = some ["[[bonus]]", "[[duenos]]"] := by
  obtain ⟨run, c, hc, hnumber⟩ : ∃ run c,
      composed ⟨.latin, { populateAllTerminations := true }⟩
        ⟨[("1", "bonus"), ("nom_sg_m", "[[bonus]]/[[duenos]]")]⟩ "adjectives" = .ok (run, c) ∧
      isExcluded (filled ⟨[("1", "bonus"), ("nom_sg_m", "[[bonus]]/[[duenos]]")]⟩ "adjectives"
        run c).num (.sgm .nom) = false :=
    ⟨_, _, rfl, by decide +kernel⟩
  have hr := (ofArguments_eq_ok_filled rfl).mpr ⟨run, c, hc, rfl⟩
  obtain ⟨hcell, -, hlinked⟩ := ofArguments_cell (k := .nom) (n := .sg) (g := .m) rfl hr
    (v := "[[bonus]]/[[duenos]]") (by decide +kernel) hnumber
  obtain ⟨hgiven, hforms⟩ := hlinked rfl rfl (by decide +kernel)
  have hdivides : DividesAroundLinks "[[bonus]]/[[duenos]]" :=
    ⟨by decide +kernel, by decide +kernel⟩
  obtain ⟨forms, hlinkedForms, hcellForms⟩ := hforms (by decide) hdivides
  have hpieces : forms = ["[[bonus]]", "[[duenos]]"] :=
    Option.some.inj (hlinkedForms.symm.trans (hgiven.forms.trans (by decide +kernel)))
  subst hpieces
  exact ⟨_, hr, (hcell (by decide)).overridden, hgiven.overridden,
    hcellForms.trans (by decide +kernel), hlinkedForms⟩

/-- An empty argument leaves the nominative of `bonus` as it was composed, and not said to be given,
beside a linked slot with a dash. -/
theorem not_showsPieces_of_bonus :
    ∃ r, ofArguments ⟨.latin, { populateAllTerminations := true }⟩
        ⟨[("1", "bonus"), ("nom_sg_m", "")]⟩ "adjectives" = .ok r ∧
      r.noneut = false ∧ isExcluded r.num (.sgm .nom) = false ∧
      r.forms.get? (.sgm .nom) = some ["bonus"] ∧ .sgm .nom ∉ r.overridden ∧
      ¬ ShowsPieces r (.sgm .nom) (Text.unlink "") ∧
      r.forms.get? (.linked .sg (some .m)) = some [dash] ∧
      .linked .sg (some .m) ∈ r.overridden := by
  obtain ⟨run, c, hc, hneuter, hnumber, hforms, hoverridden, hlinked, hlinkedOverridden⟩ :
      ∃ run c, composed ⟨.latin, { populateAllTerminations := true }⟩
        ⟨[("1", "bonus"), ("nom_sg_m", "")]⟩ "adjectives" = .ok (run, c) ∧
      (filled ⟨[("1", "bonus"), ("nom_sg_m", "")]⟩ "adjectives" run c).noneut = false ∧
      isExcluded (filled ⟨[("1", "bonus"), ("nom_sg_m", "")]⟩ "adjectives" run c).num
        (.sgm .nom) = false ∧
      (filled ⟨[("1", "bonus"), ("nom_sg_m", "")]⟩ "adjectives" run c).forms.get? (.sgm .nom) =
        some ["bonus"] ∧
      .sgm .nom ∉ (filled ⟨[("1", "bonus"), ("nom_sg_m", "")]⟩ "adjectives" run c).overridden ∧
      (filled ⟨[("1", "bonus"), ("nom_sg_m", "")]⟩ "adjectives" run c).forms.get?
        (.linked .sg (some .m)) = some [dash] ∧
      .linked .sg (some .m) ∈
        (filled ⟨[("1", "bonus"), ("nom_sg_m", "")]⟩ "adjectives" run c).overridden :=
    ⟨_, _, rfl, by decide +kernel, by decide +kernel, by decide +kernel, by decide +kernel,
      by decide +kernel, by decide +kernel⟩
  have hr := (ofArguments_eq_ok_filled rfl).mpr ⟨run, c, hc, rfl⟩
  exact ⟨_, hr, hneuter, hnumber, hforms, hoverridden, fun h => hoverridden h.overridden, hlinked,
    hlinkedOverridden⟩

end AdjectiveRecord
end Declension
