import Declension.Proofs.Finish
import Declension.Proofs.RecordNotes

/-!
# Forms of records

What the record of a noun shows in a slot that the template does not fill: the forms of its run,
and a dash where the first of them stands for none. In two cases these are not the forms one would
look for: where a word is used in one number alone, its forms are copied onto the other, whatever
number the template asks for; and the mark of a word without a form is strung together with the rest
of the run. Main statements: `forms_of_requested_number` and `forms_of_missing_word`.
-/
namespace Declension

theorem Slot.of_mem_nounCases {slot : Slot} (h : slot ∈ nounCases) :
    slot ∈ run false ∧ slot.isLinked = false := by
  revert slot
  decide

theorem Cell.head?_forms_append (a b : Cell) : (a.append b).forms.head? =
    a.forms.head?.bind fun form => b.forms.head?.map (form ++ ·) := by
  obtain ⟨forms, _⟩ := a
  obtain ⟨forms', _⟩ := b
  cases forms <;> cases forms' <;> simp [append]

/-- The first form of a run is empty just if that of each part is. -/
theorem Composition.head?_concat {parts : List Composition} {slot : Slot} :
    ((concat parts).cell slot).forms.head? = some "" ↔
      ∀ part ∈ parts, (part.cell slot).forms.head? = some "" := by
  induction parts with
  | nil => simp [concat, unit, Cell.unit]
  | cons part parts ih =>
    have hconcat : (concat (part :: parts)).cell slot =
        (Cell.unit.append (part.cell slot)).append ((concat parts).cell slot) :=
      congrArg (cell · slot) (concat_append [part] parts)
    rw [hconcat, Cell.head?_forms_append, Cell.forms_unit_append, List.forall_mem_cons, ← ih]
    simp [Option.bind_eq_some_iff]

/-- A run is declined by declining what stands before a piece, the piece and what stands behind
it. -/
theorem Run.exists_of_compose {e : Engine} {pos : String} {isAdj : Bool} {run : Summary}
    {before after : List Piece} {q : Piece} {c : Composition}
    (h : Run.compose e pos isAdj ⟨(before ++ q :: after).map .piece, run⟩ = .ok c) :
    ∃ fronts part backs,
      List.Forall₂ (fun q part => q.compose e pos isAdj run = .ok part) before fronts ∧
      q.compose e pos isAdj run = .ok part ∧
      List.Forall₂ (fun q part => q.compose e pos isAdj run = .ok part) after backs ∧
      c = .concat (fronts ++ part :: backs) := by
  rw [compose, List.mapM_map] at h
  change (do return Composition.concat (← (before ++ q :: after).mapM
    (Piece.compose e pos isAdj run))) = _ at h
  rw [List.mapM_append, List.mapM_cons] at h
  simp only [bind_assoc, pure_bind, bind_eq_ok] at h
  obtain ⟨fronts, hfronts, part, hpart, backs, hbacks, h⟩ := h
  exact ⟨fronts, part, backs, mapM_eq_ok.mp hfronts, hpart, mapM_eq_ok.mp hbacks,
    (Except.ok.inj h).symm⟩

/-- Whether a piece adds nothing to the first form of a slot. -/
def Piece.IsSilent (e : Engine) (pos : String) (run : Summary) (slot : Slot) (q : Piece) : Prop :=
  ∃ part, q.compose e pos false run = .ok part ∧ (part.cell slot).forms.head? = some ""

theorem Piece.forall_isSilent_iff {e : Engine} {pos : String} {run : Summary} {slot : Slot}
    {pieces : List Piece} {parts : List Composition}
    (h : List.Forall₂ (fun q part => q.compose e pos false run = .ok part) pieces parts) :
    (∀ q ∈ pieces, q.IsSilent e pos run slot) ↔
      ∀ part ∈ parts, (part.cell slot).forms.head? = some "" := by
  induction h with
  | nil => simp
  | cons hpart _ ih =>
    rw [List.forall_mem_cons, List.forall_mem_cons, ih]
    simp [IsSilent, hpart]

theorem shown_eq_dash_iff {forms : List String} :
    shown forms = [dash] ↔ ∃ form ∈ forms.head?, form ∈ emptyMarks := by
  cases forms with
  | nil => simp [shown]
  | cons form forms =>
    by_cases hform : form ∈ emptyMarks
    · simp [shown, hform]
    · have hne : form ≠ dash := fun heq => hform (heq ▸ by decide)
      simp [shown, hform, hne]

theorem shown_eq_dash_or_eq (forms : List String) : shown forms = [dash] ∨ shown forms = forms := by
  unfold shown
  split
  · split
    · exact .inl rfl
    · exact .inr rfl
  · exact .inr rfl

/-- Whether a cell of a record shows forms: a dash if the first of them stands for none, else the
forms as they are. -/
structure Shows (cell : Option (List String)) (forms : List String) : Prop where
  dash : (∃ form ∈ forms.head?, form ∈ ["", "-", "—"]) → cell = some ["—"]
  forms : ¬ (∃ form ∈ forms.head?, form ∈ ["", "-", "—"]) → cell = some forms

theorem shows_shown (forms : List String) : Shows (some (shown forms)) forms := by
  constructor
  · intro h
    exact congrArg some (shown_eq_dash_iff.mpr h)
  · intro h
    exact congrArg some ((shown_eq_dash_or_eq forms).resolve_left (mt shown_eq_dash_iff.mp h))

/-- The mark of a word without a form stands for none only if nothing is written next to it. -/
theorem surrounded_mem_emptyMarks {before after : String} :
    before ++ Noun.noForm ++ after ∈ emptyMarks ↔ before = "" ∧ after = "" := by
  constructor
  · intro h
    have hmarks : ∀ mark ∈ emptyMarks, mark.length ≤ Noun.noForm.length := by decide
    have hlength := hmarks _ h
    rw [String.length_append, String.length_append] at hlength
    exact ⟨String.length_eq_zero_iff.mp (by omega), String.length_eq_zero_iff.mp (by omega)⟩
  · rintro ⟨rfl, rfl⟩
    decide

theorem Segment.variants_noForm (s : Segment) : s.variants Noun.noForm = [Noun.noForm] := by
  have hnasal : withNasal Noun.noForm = [Noun.noForm] := by decide
  have hspell : s.spell Noun.noForm = Noun.noForm := by
    unfold spell
    split
    · decide
    · rfl
  rw [variants, hspell, hnasal, ite_self]

namespace Composition
variable {fronts backs : List Composition} {part : Composition} {slot : Slot} {lead : String}

theorem cell_concat_cons : (concat (fronts ++ part :: backs)).cell slot =
    ((concat fronts).cell slot).append
      ((Cell.unit.append (part.cell slot)).append ((concat backs).cell slot)) := by
  rw [concat_append, ← List.singleton_append, concat_append]
  rfl

theorem mem_forms_concat_of_noForm (hpart : (part.cell slot).forms = [lead ++ Noun.noForm])
    {form : String} (h : form ∈ ((concat (fronts ++ part :: backs)).cell slot).forms) :
    ∃ before after, form = before ++ Noun.noForm ++ after := by
  rw [cell_concat_cons, Cell.append, Cell.append, Cell.forms_unit_append, hpart] at h
  simp only [List.mem_flatMap, List.mem_map, List.mem_singleton] at h
  obtain ⟨before, _, _, ⟨_, rfl, after, _, rfl⟩, rfl⟩ := h
  exact ⟨before ++ lead, after, by simp only [String.append_assoc]⟩

/-- Only where every other part is empty it is told from a form. -/
theorem shown_concat_of_noForm (hpart : (part.cell slot).forms = [lead ++ Noun.noForm]) :
    shown ((concat (fronts ++ part :: backs)).cell slot).forms = [dash] ↔
      lead = "" ∧ ∀ part ∈ fronts ++ backs, (part.cell slot).forms.head? = some "" := by
  rw [shown_eq_dash_iff, List.forall_mem_append, ← head?_concat, ← head?_concat, cell_concat_cons,
    Cell.head?_forms_append, Cell.head?_forms_append, Cell.forms_unit_append, hpart]
  have hmark (before after : String) : before ++ (lead ++ Noun.noForm ++ after) ∈ emptyMarks ↔
      (before = "" ∧ lead = "") ∧ after = "" := by
    rw [← String.append_eq_empty_iff, ← surrounded_mem_emptyMarks]
    simp only [String.append_assoc]
  cases ((concat fronts).cell slot).forms.head? <;>
    cases ((concat backs).cell slot).forms.head? <;>
    simp [hmark, and_comm, and_assoc]

end Composition

namespace Segment
variable {s : Segment} {num : Option NumberUse} {m : FormMap} {slot : Slot}

/-- A plain slot of the number a word is not used in has the forms of its mirror. -/
theorem forms_finish_of_other (h : slot ∈ Slot.run s.isAdj) (hplain : slot.isLinked = false)
    (hnumber : num.bind NumberUse.only? = some slot.number.other) :
    (s.finish num m).forms slot = (m.forms slot.mirror).flatMap s.variants := by
  cases slot with
  | linked n g => cases hplain
  | cell c n g =>
    have hmirror : .cell c n.other g ∈ Slot.run s.isAdj := Slot.mirror_mem_run.mpr h
    have hother : n ≠ n.other := fun heq => Number.eq_other_iff.mp heq rfl
    have hcopied : (s.finish num m).get? (.cell c n g) =
        some ((s.rework m).forms (.cell c n.other g)) := by
      rw [finish_eq, mirrorOnly, hnumber]
      exact (FormMap.get?_mirrorNumber _ _ _ _).trans (if_pos ⟨hother, hmirror⟩)
    rw [FormMap.forms, hcopied, Option.getD_some, Slot.mirror]
    unfold FormMap.forms
    rw [get?_rework hmirror, get?_addLinked_cell]
    cases m.get? (.cell c n.other g) <;> rfl

/-- A slot in the number of the run is in the number of a word, unless the word is used in the
other one alone. -/
theorem number_of_numberIn {run : Summary} (hrun : run.num = num)
    (hother : s.num ≠ some slot.number.other) (hnumber : isExcluded num slot = false) (n : Number)
    (h : (s.numberIn run).bind NumberUse.only? = some n) : slot.number = n := by
  unfold numberIn at h
  cases hs : s.num with
  | some k =>
    rw [hs] at h
    cases (NumberUse.only?_ofNumber k).symm.trans h
    by_contra hne
    exact hother (hs.trans (congrArg some (Number.eq_other_iff.mpr (Ne.symm hne))))
  | none =>
    rw [hs] at h
    have hused : num.bind NumberUse.only? = some n := hrun ▸ h
    simpa [isExcluded, hused] using hnumber

end Segment

/-- Whether a template gives no forms of its own. -/
def Arguments.GivesNoForms (args : Arguments) : Prop :=
  ∀ slot ∈ Slot.run false, args.get? slot.name = none

instance (args : Arguments) : Decidable args.GivesNoForms :=
  inferInstanceAs (Decidable (∀ slot ∈ Slot.run false, args.get? slot.name = none))

namespace NounRecord
variable {e : Engine} {args : Arguments} {pos : String} {run : Run} {c : Composition}
  {slot : Slot} {r : NounRecord}

theorem nounForms?_of_givesNoForms (h : args.GivesNoForms) (hslot : slot ∈ Slot.run false) :
    nounForms? args slot = none := by
  have hlinked : ∀ slot ∈ Slot.run false, ∀ plain ∈ plainOf? slot, plain ∈ Slot.run false := by
    decide
  unfold nounForms? linkedForms?
  rw [h slot hslot]
  cases hplain : plainOf? slot with
  | none => rfl
  | some plain =>
    rw [Option.bind_some, h plain (hlinked slot hslot plain hplain)]
    rfl

/-- The number that a template asks for is that of the run. -/
theorem summary_settleRun {use : NumberUse} (huse : args.get? "num" = some use.name)
    (hnone : args.GivesNoForms) (run : Run) :
    (settleRun args locatives run).summary = { run.summary with num := some use } := by
  have hnum : numberUse args run = some use := by
    rw [numberUse, huse]
    cases use <;> rfl
  have hloc : args.hasAny (locatives.map Slot.name) = false := by
    have hlocatives : ∀ slot ∈ locatives, slot ∈ Slot.run false := by decide
    rw [Arguments.hasAny, List.any_eq_false]
    intro name hname
    obtain ⟨slot, hslot, rfl⟩ := List.mem_map.mp hname
    simp [OrderedMap.contains, hnone slot (hlocatives slot hslot)]
  rw [settleRun, hnum, hloc, Bool.or_false]

theorem composed_eq_ok : composed e args pos = .ok (run, c) ↔
    ∃ read, Run.read e.tables (Text.trim (args.getD "1" "")) = .ok read ∧
      settleRun args locatives read = run ∧ run.compose e pos false = .ok c := by
  unfold composed
  simp only [bind_eq_ok]
  constructor
  · rintro ⟨read, hread, c', hc, h⟩
    cases h
    exact ⟨read, hread, rfl, hc⟩
  · rintro ⟨read, hread, rfl, hc⟩
    exact ⟨read, hread, c, hc, rfl⟩

theorem forms_word {s : Segment} (hnoun : s.isAdj = false) (hlead : s.lead = "")
    (hplain : slot.isLinked = false) (summary : Summary) (p : Paradigm) :
    ((Composition.unit.append (s.contribution false (s.numberIn summary) (s.genderIn summary)
      p)).cell slot).forms = (s.finish (s.numberIn summary) p.forms).forms slot := by
  have hread : s.readAt false summary p slot = slot := by
    simp [Segment.readAt, Segment.source, hnoun]
  refine (Cell.forms_unit_append _).trans ?_
  rw [Segment.forms_contribution, hread, hplain]
  simp [hlead]

/-- The noun of a template that asks for a number, if it is one word, shows in the cells of that
number what declining the word yields for them, unless the word itself is used in the other number
alone: then it shows what declining yields for the other number. -/
theorem forms_of_requested_number {s : Segment} {use : NumberUse}
    (h : ofArguments e args pos = .ok r)
    (hread : Run.read e.tables (Text.trim (args.getD "1" "")) = .ok run)
    (hword : run.nodes = [.piece (.word s)]) (hnoun : s.isAdj = false) (hlead : s.lead = "")
    (hlig : s.tags.has .lig = false) (hsufn : s.tags.has .sufn = false)
    (huse : args.get? "num" = some use.name) (hnone : args.GivesNoForms) :
    r.num = some use ∧ ∃ p,
      s.paradigmIn e pos false { run.summary with num := some use } = .ok p ∧
      ∀ slot ∈ Slot.nounCases, isExcluded (some use) slot = false →
        (slot ∈ locatives → run.summary.loc) →
        (s.num ≠ some slot.number.other → Shows (r.forms.get? slot) (p.forms.forms slot)) ∧
        (s.num = some slot.number.other →
          Shows (r.forms.get? slot) (p.forms.forms slot.mirror)) := by
  obtain ⟨settled, c, hc, rfl⟩ := ofArguments_eq_ok.mp h
  obtain ⟨read, hread', rfl, hc⟩ := composed_eq_ok.mp hc
  cases hread.symm.trans hread'
  have hsummary := summary_settleRun huse hnone run
  have hnum : (ofComposed args pos (settleRun args locatives run) c).num = some use := by
    rw [ofComposed, num_applyOverrides]
    exact congrArg Summary.num hsummary
  obtain ⟨p, hp, -, rfl⟩ := (Run.compose_word (r := settleRun args locatives run) hword).mp hc
  rw [hsummary] at hp
  refine ⟨hnum, p, hp, ?_⟩
  intro slot hslot hnumber hloc
  obtain ⟨hrun, hplain⟩ := Slot.of_mem_nounCases hslot
  have hopen : IsOpen args (settleRun args locatives run) slot := by
    refine ⟨nounForms?_of_givesNoForms hnone hrun, ?_, fun hlocative => ?_⟩
    · rwa [hsummary]
    · rw [hsummary]
      exact hloc hlocative
  rw [get?_ofComposed_of_isOpen hrun hopen, forms_word hnoun hlead hplain]
  have hword : slot ∈ Slot.run s.isAdj := by rwa [hnoun]
  have hvariants (forms : List String) : forms.flatMap s.variants = forms := by
    simp [Segment.variants_of_plain hlig hsufn]
  constructor
  · intro hother
    have hnum : (settleRun args locatives run).summary.num = some use := by rw [hsummary]
    rw [Segment.forms_finish hword hplain (Segment.number_of_numberIn hnum hother hnumber),
      hvariants]
    exact shows_shown _
  · intro hother
    have honly : (s.numberIn (settleRun args locatives run).summary).bind NumberUse.only? =
        some slot.number.other := by
      rw [Segment.numberIn, hother]
      exact NumberUse.only?_ofNumber _
    rw [Segment.forms_finish_of_other hword hplain honly, hvariants]
    exact shows_shown _

/-- `Rōma`, which by its capital is a singular, asked for in both numbers: its plural is the
singular again. -/
theorem forms_of_requested_number_of_Roma :
    ∃ run s r p, NounRecord.ofArguments ⟨.latin, {}⟩ ⟨[("1", "Rōma<1>"), ("num", "both")]⟩
        "nouns" = .ok r ∧
      Run.read .latin "Rōma<1>" = .ok run ∧ run.nodes = [.piece (.word s)] ∧ s.isAdj = false ∧
      s.lead = "" ∧ s.tags.has .lig = false ∧ s.tags.has .sufn = false ∧ s.num = some .sg ∧
      s.paradigmIn ⟨.latin, {}⟩ "nouns" false { run.summary with num := some .both } = .ok p ∧
      Shows (r.forms.get? (.sg .gen)) (p.forms.forms (.sg .gen)) ∧
      Shows (r.forms.get? (.pl .gen)) (p.forms.forms (.sg .gen)) := by
  obtain ⟨run, s, hread, hword, hnoun, hlead, hlig, hsufn, hnum⟩ : ∃ run s,
      Run.read .latin "Rōma<1>" = .ok run ∧ run.nodes = [.piece (.word s)] ∧
      s.isAdj = false ∧ s.lead = "" ∧ s.tags.has .lig = false ∧ s.tags.has .sufn = false ∧
      s.num = some .sg :=
    ⟨_, _, rfl, rfl, by decide +kernel, by decide +kernel, by decide +kernel, by decide +kernel,
      by decide +kernel⟩
  obtain ⟨settled, c, hc⟩ : ∃ settled c, composed ⟨.latin, {}⟩
      ⟨[("1", "Rōma<1>"), ("num", "both")]⟩ "nouns" = .ok (settled, c) := ⟨_, _, rfl⟩
  have hr := ofArguments_eq_ok.mpr ⟨settled, c, hc, rfl⟩
  have htrim : Text.trim (Arguments.getD ⟨[("1", "Rōma<1>"), ("num", "both")]⟩ "1" "") =
      "Rōma<1>" := by decide +kernel
  have huse : OrderedMap.get? ⟨[("1", "Rōma<1>"), ("num", "both")]⟩ "num" =
      some NumberUse.both.name := rfl
  obtain ⟨-, p, hp, hforms⟩ := forms_of_requested_number hr (htrim.symm ▸ hread) hword hnoun hlead
    hlig hsufn huse (by decide +kernel)
  have hsg : Slot.sg .gen ∉ locatives := by decide
  have hpl : Slot.pl .gen ∉ locatives := by decide
  have hused : s.num ≠ some (Slot.sg .gen).number.other := by
    rw [hnum]
    decide
  exact ⟨run, s, _, p, hr, hread, hword, hnoun, hlead, hlig, hsufn, hnum, hp,
    (hforms (.sg .gen) (by decide) rfl fun hloc => absurd hloc hsg).1 hused,
    (hforms (.pl .gen) (by decide) rfl fun hloc => absurd hloc hpl).2 hnum⟩

/-- Asked for in the plural alone, `Rōma` shows its singular there, not the plural it has. -/
theorem not_forms_of_requested_number_of_Roma :
    ∃ run s r p, NounRecord.ofArguments ⟨.latin, {}⟩ ⟨[("1", "Rōma<1>"), ("num", "pl")]⟩
        "nouns" = .ok r ∧
      Run.read .latin "Rōma<1>" = .ok run ∧ run.nodes = [.piece (.word s)] ∧
      s.paradigmIn ⟨.latin, {}⟩ "nouns" false { run.summary with num := some .pl } = .ok p ∧
      p.forms.forms (.pl .nom) = ["Rōmae"] ∧ r.forms.get? (.pl .nom) = some ["Rōma"] := by
  obtain ⟨run, s, p, hread, hword, hp, hplural⟩ : ∃ run s p,
      Run.read .latin "Rōma<1>" = .ok run ∧ run.nodes = [.piece (.word s)] ∧
      s.paradigmIn ⟨.latin, {}⟩ "nouns" false { run.summary with num := some .pl } = .ok p ∧
      p.forms.forms (.pl .nom) = ["Rōmae"] :=
    ⟨_, _, _, rfl, rfl, rfl, by decide +kernel⟩
  obtain ⟨settled, c, hc, hforms⟩ : ∃ settled c,
      composed ⟨.latin, {}⟩ ⟨[("1", "Rōma<1>"), ("num", "pl")]⟩ "nouns" = .ok (settled, c) ∧
      (ofComposed ⟨[("1", "Rōma<1>"), ("num", "pl")]⟩ "nouns" settled c).forms.get? (.pl .nom) =
        some ["Rōma"] := ⟨_, _, rfl, by decide +kernel⟩
  exact ⟨run, s, _, p, ofArguments_eq_ok.mpr ⟨settled, c, hc, rfl⟩, hread, hword, hp, hplural,
    hforms⟩

/-- What a word gives to a slot that declining it yields no form for. -/
theorem forms_contribution_of_noForm {s : Segment} {run : Summary} {p : Paradigm}
    (hfit : s.misfit? false (s.genderIn run) = none) (hslot : slot ∈ Slot.nounCases)
    (hnumber : isExcluded run.num slot = false) (hother : s.num ≠ some slot.number.other)
    (hnone : p.forms.forms (s.readAt false run p slot) = [Noun.noForm]) :
    ((s.contribution false (s.numberIn run) (s.genderIn run) p).cell slot).forms =
      [s.lead ++ Noun.noForm] := by
  obtain ⟨hrun, hplain⟩ := Slot.of_mem_nounCases hslot
  have hread : (s.readAt false run p slot).isLinked = false :=
    (Segment.isLinked_source ..).trans hplain
  have hused : ∀ n, (s.numberIn run).bind NumberUse.only? = some n →
      (s.readAt false run p slot).number = n := fun n hn =>
    (Segment.number_source ..).trans (Segment.number_of_numberIn rfl hother hnumber n hn)
  rw [Segment.forms_contribution,
    Segment.forms_finish (Segment.readAt_mem_run hfit hrun hplain) hread hused, hnone, hplain]
  simp [Segment.variants_noForm]

/-- Where declining yields no form for a word of the run, the record shows a dash if nothing is
written next to the word; else every form it shows has the mark of the word in its midst. -/
theorem forms_of_missing_word {s : Segment} {before after : List Piece} {p : Paradigm}
    (h : ofArguments e args pos = .ok r) (hc : composed e args pos = .ok (run, c))
    (hpieces : run.nodes = (before ++ .word s :: after).map .piece)
    (hslot : slot ∈ Slot.nounCases) (hopen : IsOpen args run slot)
    (hp : s.paradigmIn e pos false run.summary = .ok p)
    (hnone : p.forms.forms (s.readAt false run.summary p slot) = [Noun.noForm])
    (hother : s.num ≠ some slot.number.other) :
    ∃ forms, r.forms.get? slot = some forms ∧
      (forms = [dash] ↔
        s.lead = "" ∧ ∀ q ∈ before ++ after, q.IsSilent e pos run.summary slot) ∧
      (forms = [dash] ∨ ∀ form ∈ forms, ∃ front back, form = front ++ Noun.noForm ++ back) := by
  obtain ⟨run', c', hc', rfl⟩ := ofArguments_eq_ok.mp h
  cases hc.symm.trans hc'
  obtain ⟨read, -, -, hcompose⟩ := composed_eq_ok.mp hc
  have hplain : Run.compose e pos false ⟨(before ++ .word s :: after).map .piece, run.summary⟩ =
      .ok c := by
    rw [← hpieces]
    exact hcompose
  obtain ⟨fronts, part, backs, hfronts, hpart, hbacks, rfl⟩ := Run.exists_of_compose hplain
  obtain ⟨p', hp', hfit, hcontribution⟩ := Segment.compose_eq_ok.mp hpart
  cases hp.symm.trans hp'
  have hforms : (part.cell slot).forms = [s.lead ++ Noun.noForm] := by
    rw [← hcontribution]
    exact forms_contribution_of_noForm hfit hslot hopen.number hother hnone
  refine ⟨_, get?_ofComposed_of_isOpen (Slot.of_mem_nounCases hslot).1 hopen pos, ?_, ?_⟩
  · rw [Composition.shown_concat_of_noForm hforms, List.forall_mem_append, List.forall_mem_append,
      Piece.forall_isSilent_iff hfronts, Piece.forall_isSilent_iff hbacks]
  · refine (shown_eq_dash_or_eq _).imp_right fun hshown => ?_
    rw [hshown]
    exact fun form hform => Composition.mem_forms_concat_of_noForm hforms hform

/-- `lexis` has no genitive plural. Alone it shows a dash for it; with an adjective beside it, forms
that hold its mark. -/
theorem forms_of_missing_word_of_lexis :
    (∃ run c s p r,
      NounRecord.ofArguments ⟨.latin, {}⟩ ⟨[("1", "lexis<irreg>")]⟩ "nouns" = .ok r ∧
      composed ⟨.latin, {}⟩ ⟨[("1", "lexis<irreg>")]⟩ "nouns" = .ok (run, c) ∧
      run.nodes = [.piece (.word s)] ∧ s.lead = "" ∧ s.num = none ∧
      IsOpen ⟨[("1", "lexis<irreg>")]⟩ run (.pl .gen) ∧
      s.paradigmIn ⟨.latin, {}⟩ "nouns" false run.summary = .ok p ∧
      p.forms.forms (s.readAt false run.summary p (.pl .gen)) = [Noun.noForm] ∧
      r.forms.get? (.pl .gen) = some [dash]) ∧
    ∃ run c s other p r forms,
      NounRecord.ofArguments ⟨.latin, {}⟩ ⟨[("1", "lexis<irreg.F> nova<1&2+>")]⟩ "nouns" = .ok r ∧
      composed ⟨.latin, {}⟩ ⟨[("1", "lexis<irreg.F> nova<1&2+>")]⟩ "nouns" = .ok (run, c) ∧
      run.nodes = [.piece (.word s), .piece (.word other)] ∧ s.num = none ∧
      IsOpen ⟨[("1", "lexis<irreg.F> nova<1&2+>")]⟩ run (.pl .gen) ∧
      s.paradigmIn ⟨.latin, {}⟩ "nouns" false run.summary = .ok p ∧
      p.forms.forms (s.readAt false run.summary p (.pl .gen)) = [Noun.noForm] ∧
      r.forms.get? (.pl .gen) = some forms ∧ forms ≠ [dash] ∧
      ∀ form ∈ forms, ∃ front back, form = front ++ Noun.noForm ++ back := by
  constructor
  · obtain ⟨run, c, s, p, hc, hpieces, hlead, hnum, hopen, hp, hnone⟩ : ∃ run c s p,
        composed ⟨.latin, {}⟩ ⟨[("1", "lexis<irreg>")]⟩ "nouns" = .ok (run, c) ∧
        run.nodes = [.piece (.word s)] ∧ s.lead = "" ∧ s.num = none ∧
        IsOpen ⟨[("1", "lexis<irreg>")]⟩ run (.pl .gen) ∧
        s.paradigmIn ⟨.latin, {}⟩ "nouns" false run.summary = .ok p ∧
        p.forms.forms (s.readAt false run.summary p (.pl .gen)) = [Noun.noForm] :=
      ⟨_, _, _, _, rfl, rfl, by decide +kernel, by decide +kernel,
        ⟨by decide +kernel, by decide +kernel, fun hloc => absurd hloc (by decide)⟩, rfl,
        by decide +kernel⟩
    have hr := ofArguments_eq_ok.mpr ⟨run, c, hc, rfl⟩
    have halone : run.nodes = ([] ++ Piece.word s :: []).map .piece := hpieces
    have hother : s.num ≠ some (Slot.pl .gen).number.other := by
      rw [hnum]
      decide
    obtain ⟨forms, hforms, hdash, -⟩ := forms_of_missing_word hr hc halone (by decide) hopen hp
      hnone hother
    cases hdash.mpr ⟨hlead, by simp⟩
    exact ⟨run, c, s, p, _, hr, hc, hpieces, hlead, hnum, hopen, hp, hnone, hforms⟩
  · obtain ⟨run, c, s, other, p, part, hc, hpieces, hnum, hopen, hp, hnone, hpart, hhead⟩ :
        ∃ run c s other p part,
        composed ⟨.latin, {}⟩ ⟨[("1", "lexis<irreg.F> nova<1&2+>")]⟩ "nouns" = .ok (run, c) ∧
        run.nodes = [.piece (.word s), .piece (.word other)] ∧ s.num = none ∧
        IsOpen ⟨[("1", "lexis<irreg.F> nova<1&2+>")]⟩ run (.pl .gen) ∧
        s.paradigmIn ⟨.latin, {}⟩ "nouns" false run.summary = .ok p ∧
        p.forms.forms (s.readAt false run.summary p (.pl .gen)) = [Noun.noForm] ∧
        (Piece.word other).compose ⟨.latin, {}⟩ "nouns" false run.summary = .ok part ∧
        (part.cell (.pl .gen)).forms.head? ≠ some "" :=
      ⟨_, _, _, _, _, _, rfl, rfl, by decide +kernel,
        ⟨by decide +kernel, by decide +kernel, fun hloc => absurd hloc (by decide)⟩, rfl,
        by decide +kernel, rfl, by decide +kernel⟩
    have hr := ofArguments_eq_ok.mpr ⟨run, c, hc, rfl⟩
    have hnodes : run.nodes = ([] ++ Piece.word s :: [.word other]).map .piece := hpieces
    have hnumber : s.num ≠ some (Slot.pl .gen).number.other := by
      rw [hnum]
      decide
    obtain ⟨forms, hforms, hdash, hmark⟩ := forms_of_missing_word hr hc hnodes (by decide) hopen hp
      hnone hnumber
    have hshown : forms ≠ [dash] := by
      intro heq
      obtain ⟨silent, hsilent, hempty⟩ := (hdash.mp heq).2 _ (List.mem_singleton_self _)
      cases hpart.symm.trans hsilent
      exact hhead hempty
    exact ⟨run, c, s, other, p, _, forms, hr, hc, hpieces, hnum, hopen, hp, hnone, hforms, hshown,
      hmark.resolve_left hshown⟩

/-- With an adjective beside it `lexis` still has no genitive plural, yet the record shows one. -/
theorem not_forms_of_missing_word_of_lexis :
    ∃ run c s after p r,
      NounRecord.ofArguments ⟨.latin, {}⟩ ⟨[("1", "lexis<irreg.F> nova<1&2+>")]⟩ "nouns" = .ok r ∧
      composed ⟨.latin, {}⟩ ⟨[("1", "lexis<irreg.F> nova<1&2+>")]⟩ "nouns" = .ok (run, c) ∧
      run.nodes = [.piece (.word s), .piece (.word after)] ∧
      s.paradigmIn ⟨.latin, {}⟩ "nouns" false run.summary = .ok p ∧
      p.forms.forms (s.readAt false run.summary p (.pl .gen)) = [Noun.noForm] ∧
      r.forms.get? (.pl .gen) = some ["- novārum"] := by
  obtain ⟨run, c, s, after, p, hc, hpieces, hp, hnone, hforms⟩ : ∃ run c s after p,
      composed ⟨.latin, {}⟩ ⟨[("1", "lexis<irreg.F> nova<1&2+>")]⟩ "nouns" = .ok (run, c) ∧
      run.nodes = [.piece (.word s), .piece (.word after)] ∧
      s.paradigmIn ⟨.latin, {}⟩ "nouns" false run.summary = .ok p ∧
      p.forms.forms (s.readAt false run.summary p (.pl .gen)) = [Noun.noForm] ∧
      (ofComposed ⟨[("1", "lexis<irreg.F> nova<1&2+>")]⟩ "nouns" run c).forms.get? (.pl .gen) =
        some ["- novārum"] :=
    ⟨_, _, _, _, _, rfl, rfl, rfl, by decide +kernel, by decide +kernel⟩
  exact ⟨run, c, s, after, p, _, ofArguments_eq_ok.mpr ⟨run, c, hc, rfl⟩, hc, hpieces, hp, hnone,
    hforms⟩

end NounRecord
end Declension
