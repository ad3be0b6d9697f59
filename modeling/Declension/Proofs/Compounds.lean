import Declension.Proofs.Blocks
import Declension.Proofs.TidyForms

/-!
# Compounds

A compound is declined like its last part: with a text before its stems, a noun of a class that
goes by rules fills the same slots, with the text before every form, and has the same notes. All
that a class asks of a stem is how it ends. Main statement: `decline_behind`.
-/
namespace Declension
open Slot

namespace Text
variable {front ending s base : String}

theorem before_append (hfront : '\n' ∉ front.toList) (hs : '\n' ∉ s.toList)
    (h : before ending s = some base) : before ending (front ++ s) = some (front ++ base) := by
  have hword : s = base ++ ending := eq_append_of_before hs h
  have hline : '\n' ∉ (front ++ s).toList := by simp [hfront, hs]
  rw [before_eq_some_iff, line_eq_self hline, hword]
  refine ⟨by simp, ?_⟩
  simp [hfront, (before_eq_some_iff.mp h).2]

theorem suffix_append_iff {front tail s : List Char} (h : tail.length ≤ s.length) :
    tail <:+ front ++ s ↔ tail <:+ s := by
  constructor
  · exact fun hsuffix => List.suffix_of_suffix_length_le hsuffix (List.suffix_append _ _) h
  · exact fun hsuffix => hsuffix.trans (List.suffix_append _ _)

theorem endsIn_append (h : ending.length ≤ s.length) :
    endsIn ending (front ++ s) = endsIn ending s := by
  unfold endsIn
  rw [Bool.eq_iff_iff, List.isSuffixOf_iff_suffix, List.isSuffixOf_iff_suffix,
    String.toList_append, suffix_append_iff (by rwa [String.length_toList, String.length_toList])]

theorem dropEnding_append (h : ending.length ≤ s.length) :
    dropEnding ending (front ++ s) = front ++ dropEnding ending s := by
  have hlength : ending.toList.length ≤ s.toList.length := by
    rwa [String.length_toList, String.length_toList]
  have htake : (front ++ s).toList.take ((front ++ s).toList.length - ending.toList.length) =
      front.toList ++ s.toList.take (s.toList.length - ending.toList.length) := by
    rw [String.toList_append, List.length_append, Nat.add_sub_assoc hlength,
      List.take_length_add_append]
  unfold dropEnding
  rw [endsIn_append h, htake]
  split
  · rw [String.ofList_append, String.ofList_toList]
  · rfl

end Text

namespace FormMap
variable (front stem : String) (rows more : Rows) (m : FormMap)

/-- The forms with a text before each. -/
def behind : FormMap := m.mapValues (List.map (front ++ ·))

theorem forms_behind (slot : Slot) :
    (m.behind front).forms slot = (m.forms slot).map (front ++ ·) := by
  unfold forms behind
  rw [OrderedMap.get?_mapValues]
  cases m.get? slot <;> rfl

theorem insert_behind (slot : Slot) (forms : List String) :
    behind front (m.insert slot forms) = (m.behind front).insert slot (forms.map (front ++ ·)) :=
  OrderedMap.mapValues_insert _ m slot forms

theorem inflect_append : inflect (front ++ stem) rows = inflect front (inflect stem rows) := by
  simp [inflect, Function.comp_def, String.append_assoc]

theorem inflect_rows_append :
    inflect front (rows ++ more) = inflect front rows ++ inflect front more :=
  List.map_append

theorem ofList_inflect :
    OrderedMap.ofList (inflect front rows) = FormMap.behind front (.ofList rows) :=
  (OrderedMap.mapValues_ofList (List.map (front ++ ·)) rows).symm

end FormMap

/-- The word with a text before its stems. -/
def Lexeme.behind (front : String) (w : Lexeme) : Lexeme :=
  { w with stem := front ++ w.stem, oblique := w.oblique.map (front ++ ·) }

section Words
variable {front : String} {w : Lexeme}

theorem Lexeme.obliqueStem_eq (h : w.oblique ≠ some "") :
    w.obliqueStem = w.oblique.getD w.stem := by
  unfold obliqueStem
  cases ho : w.oblique with
  | none => rfl
  | some o =>
    have hne : o ≠ "" := fun heq => h (heq ▸ ho)
    simp [given, hne, Option.filter]

theorem Lexeme.obliqueStem_behind (h : w.oblique ≠ some "") :
    (w.behind front).obliqueStem = front ++ w.obliqueStem := by
  have hbehind : (w.behind front).oblique ≠ some "" := by
    intro hempty
    obtain ⟨o, ho, hnil⟩ := Option.map_eq_some_iff.mp hempty
    exact h (ho.trans (congrArg some (String.append_eq_empty_iff.mp hnil).2))
  rw [obliqueStem_eq h, obliqueStem_eq hbehind]
  exact Option.getD_map (front ++ ·) w.stem w.oblique

theorem stemBefore_behind (hfront : '\n' ∉ front.toList) {form ending stem : String}
    (hform : '\n' ∉ form.toList) (h : stemBefore form ending = .ok stem) :
    stemBefore (front ++ form) ending = .ok (front ++ stem) := by
  unfold stemBefore at h ⊢
  split at h
  · rename_i stem' hstem
    cases h
    rw [Text.before_append hfront hform hstem]
  · cases h

namespace Noun

theorem first_behind : (first (w.behind front)).forms = (first w).forms.behind front := by
  have hendings : First.endings (w.behind front) = First.endings w := rfl
  have hstem : (w.behind front).stem = front ++ w.stem := rfl
  simp only [first, hendings, hstem, FormMap.inflect_append, FormMap.ofList_inflect]

theorem second_behind (h : w.oblique ≠ some "") (o : Options) :
    (second o (w.behind front)).forms = (second o w).forms.behind front := by
  have honStem : Second.onStem o (w.behind front) = Second.onStem o w := rfl
  have honOblique : Second.onOblique (w.behind front) = Second.onOblique w := rfl
  have hstem : (w.behind front).stem = front ++ w.stem := rfl
  simp only [second, honStem, honOblique, hstem, Lexeme.obliqueStem_behind h,
    FormMap.inflect_append, ← FormMap.inflect_rows_append, FormMap.ofList_inflect]

/-! The third declension looks at the end of the stems, and takes endings off. -/

namespace Third

theorem dropsS_iff {stem : String} :
    dropsS stem ↔ ∃ c ∈ ['i', 'y', 'ï'], [c, 's'] <:+ Text.line stem.toList := by
  simp only [← List.reverse_prefix]
  unfold dropsS
  split
  · rename_i c r heq
    rw [heq, decide_eq_true_eq]
    simp
  · rename_i hnot
    refine iff_of_false Bool.false_ne_true ?_
    rintro ⟨c, -, r, hr⟩
    exact hnot c r hr.symm

theorem dropsS_append {stem : String} (hlength : 2 ≤ stem.length)
    (hfront : '\n' ∉ front.toList) (hstem : '\n' ∉ stem.toList) :
    dropsS (front ++ stem) = dropsS stem := by
  have hline : '\n' ∉ (front ++ stem).toList := by simp [hfront, hstem]
  rw [Bool.eq_iff_iff, dropsS_iff, dropsS_iff, Text.line_eq_self hline, Text.line_eq_self hstem,
    String.toList_append]
  have hends (c : Char) : [c, 's'] <:+ front.toList ++ stem.toList ↔ [c, 's'] <:+ stem.toList :=
    Text.suffix_append_iff (by rwa [String.length_toList])
  simp only [hends]

theorem addLocative_behind (m : FormMap) :
    addLocative (m.behind front) = (addLocative m).behind front := by
  have hinjective : Function.Injective (front ++ ·) := fun _ _ => (String.append_right_inj front).mp
  unfold addLocative
  rw [FormMap.insert_behind, FormMap.insert_behind, FormMap.forms_behind, FormMap.forms_behind,
    FormMap.forms_behind, addNew_map hinjective]

theorem greekStem_behind (hfront : '\n' ∉ front.toList) (hstem : '\n' ∉ w.stem.toList)
    {stem : String} (h : greekStem w = .ok stem) :
    greekStem (w.behind front) = .ok (front ++ stem) := by
  have hgreek : greek? (w.behind front) = greek? w := rfl
  unfold greekStem at h ⊢
  rw [hgreek]
  split at h
  · exact stemBefore_behind hfront hstem h
  · exact stemBefore_behind hfront hstem h
  · cases h
    rfl

theorem bareStem_behind (hfront : '\n' ∉ front.toList) {greek bare : String}
    (hgreek : '\n' ∉ greek.toList) (h : bareStem w greek = .ok bare) :
    bareStem (w.behind front) (front ++ greek) = .ok (front ++ bare) := by
  have hpolis : (w.behind front).has .polis = w.has .polis := rfl
  unfold bareStem at h ⊢
  rw [hpolis]
  split at h
  · rw [if_pos ‹_›]
    exact stemBefore_behind hfront hgreek h
  · rw [if_neg ‹_›]
    cases h
    rfl

/-- What a noun of the third declension asks of its stems and of the text before them: its end
decides all that it looks at. -/
structure IsBehind (front : String) (w : Lexeme) : Prop where
  stem : 2 ≤ w.stem.length
  oblique : w.oblique ≠ some ""
  front_line : '\n' ∉ front.toList
  stem_line : '\n' ∉ w.stem.toList

theorem one_le_length_obliqueStem (hstem : 2 ≤ w.stem.length) (h : w.oblique ≠ some "") :
    1 ≤ w.obliqueStem.length := by
  rw [Lexeme.obliqueStem_eq h]
  cases ho : w.oblique with
  | none => exact Nat.le_of_succ_le hstem
  | some o =>
    have hne : o ≠ "" := fun heq => h (heq ▸ ho)
    exact Nat.one_le_iff_ne_zero.mpr (mt String.length_eq_zero_iff.mp hne)

namespace IsBehind
variable (h : IsBehind front w)
include h

theorem dropsS_eq : dropsS (w.behind front).stem = dropsS w.stem :=
  dropsS_append h.stem h.front_line h.stem_line

theorem greekForms_eq (greek : String) :
    greekForms (w.behind front) (front ++ greek) =
      FormMap.inflect front (greekForms w greek) := by
  have hoblique : (w.behind front).obliqueStem = front ++ w.obliqueStem :=
    Lexeme.obliqueStem_behind h.oblique
  have hplain : greekPlain (front ++ w.obliqueStem) = greekPlain w.obliqueStem := by
    have hlength : "y".length ≤ w.obliqueStem.length :=
      one_le_length_obliqueStem h.stem h.oblique
    unfold greekPlain
    rw [Text.endsIn_append hlength]
  have hdrop : Text.dropEnding "s" (w.behind front).stem = front ++ Text.dropEnding "s" w.stem :=
    Text.dropEnding_append (Nat.le_of_succ_le h.stem)
  have hvoc : (if dropsS (w.behind front).stem then
        [(sg .voc, [(w.behind front).stem, Text.dropEnding "s" (w.behind front).stem])] else []) =
      FormMap.inflect front
        (if dropsS w.stem then [(sg .voc, [w.stem, Text.dropEnding "s" w.stem])] else []) := by
    rw [h.dropsS_eq, hdrop]
    split <;> rfl
  unfold greekForms
  rw [show greek? (w.behind front) = greek? w from rfl, hoblique, hplain, hvoc]
  split
  · rfl
  · rw [FormMap.inflect_append]
  · rw [FormMap.inflect_append]
  · rw [FormMap.inflect_append]
    rfl
  · rw [FormMap.inflect_append, FormMap.inflect_rows_append]

theorem kindForms_eq (o : Options) (bare : String) :
    kindForms o (w.behind front) (front ++ bare) =
      FormMap.inflect front (kindForms o w bare) := by
  have hoblique : (w.behind front).obliqueStem = front ++ w.obliqueStem :=
    Lexeme.obliqueStem_behind h.oblique
  have hhas : ∀ t, (w.behind front).has t = w.has t := fun _ => rfl
  unfold kindForms
  rw [hoblique, FormMap.inflect_append, FormMap.inflect_append]
  simp only [hhas, show isIStem (w.behind front) = isIStem w from rfl,
    show iStem o (w.behind front) = iStem o w from rfl]
  split
  · rfl
  · split <;> rfl

theorem rows_eq (o : Options) (greek bare : String) :
    rows o (w.behind front) (front ++ greek) (front ++ bare) =
      FormMap.inflect front (rows o w greek bare) := by
  have hhas : ∀ t, (w.behind front).has t = w.has t := fun _ => rfl
  have hpolis : (if w.has .polis then FormMap.inflect (front ++ bare) inPolis else []) =
      FormMap.inflect front (if w.has .polis then FormMap.inflect bare inPolis else []) := by
    rw [FormMap.inflect_append]
    split <;> rfl
  unfold rows
  rw [h.greekForms_eq, h.kindForms_eq, Lexeme.obliqueStem_behind h.oblique,
    FormMap.inflect_append, hhas, hpolis]
  simp only [FormMap.inflect_rows_append]
  rfl

theorem forms_eq (o : Options) (greek bare : String) :
    forms o (w.behind front) (front ++ greek) (front ++ bare) =
      (forms o w greek bare).behind front := by
  rw [Third.forms_eq, Third.forms_eq, h.rows_eq, FormMap.ofList_inflect, addLocative_behind]
  split
  · rw [if_pos ‹_›]
  · rw [if_neg ‹_›]

theorem notes_eq : notes (w.behind front) = notes w := by
  unfold notes
  rw [h.dropsS_eq]
  rfl

theorem third_eq {o : Options} {p : Paradigm} (hthird : third o w = .ok p) :
    ∃ q, third o (w.behind front) = .ok q ∧ q.forms = p.forms.behind front ∧
      q.notes = p.notes := by
  obtain ⟨greek, hgreek, hthird⟩ := bind_eq_ok.mp hthird
  obtain ⟨bare, hbare, hthird⟩ := bind_eq_ok.mp hthird
  cases hthird
  have hgreek_line : '\n' ∉ greek.toList := fun hmem => h.stem_line (mem_of_greekStem hgreek hmem)
  have hgreek' := greekStem_behind h.front_line h.stem_line hgreek
  have hbare' := bareStem_behind h.front_line hgreek_line hbare
  refine ⟨_, bind_eq_ok.mpr ⟨_, hgreek', bind_eq_ok.mpr ⟨_, hbare', rfl⟩⟩, h.forms_eq o greek bare,
    ?_⟩
  dsimp only
  rw [h.notes_eq]

end IsBehind
end Third

theorem fourth_behind : (fourth (w.behind front)).forms = (fourth w).forms.behind front := by
  have hendings : Fourth.endings (w.behind front) = Fourth.endings w := rfl
  have hstem : (w.behind front).stem = front ++ w.stem := rfl
  have hadd : ∀ m : FormMap, Fourth.addLocative (m.behind front) =
      (Fourth.addLocative m).behind front := by
    intro m
    unfold Fourth.addLocative
    rw [FormMap.insert_behind, FormMap.insert_behind, FormMap.forms_behind, FormMap.forms_behind]
  unfold fourth
  dsimp only
  rw [hendings, hstem, FormMap.inflect_append, FormMap.ofList_inflect, hadd]
  exact (apply_ite (FormMap.behind front) _ _ _).symm

theorem fifth_behind : (fifth (w.behind front)).forms = (fifth w).forms.behind front := by
  have hendings : Fifth.endings (w.behind front) = Fifth.endings w := rfl
  have hstem : Fifth.stem (w.behind front) = front ++ Fifth.stem w := by
    have hhas : (w.behind front).has .i = w.has .i := rfl
    unfold Fifth.stem
    rw [hhas]
    split
    · exact String.append_assoc
    · rfl
  simp only [fifth, hendings, hstem, FormMap.inflect_append, FormMap.ofList_inflect]

theorem invariable_behind :
    (invariable (w.behind front)).forms = (invariable w).forms.behind front := by
  have hloc : (w.behind front).loc = w.loc := rfl
  have huniform : uniform (front ++ w.stem) = FormMap.inflect front (uniform w.stem) := by
    unfold uniform FormMap.inflect
    rw [List.map_map]
    rfl
  unfold invariable
  dsimp only
  rw [← FormMap.ofList_inflect, FormMap.inflect_rows_append, ← huniform, hloc]
  congr 2
  split <;> rfl

variable {e : Engine} {c : Class} {p : Paradigm}

/-- A compound of a class that goes by rules is declined like its last part. -/
theorem decline_behind (h : decline e w c = .ok p) (hindeclinable : c ≠ .indeclinable)
    (hirregular : c ≠ .irregular) (hstem : 2 ≤ w.stem.length) (hoblique : w.oblique ≠ some "")
    (hline : '\n' ∉ w.stem.toList) (hfront : '\n' ∉ front.toList) :
    ∃ q, decline e (w.behind front) c = .ok q ∧ q.forms = p.forms.behind front ∧
      q.notes = p.notes := by
  cases c with
  | first => exact ⟨_, rfl, Except.ok.inj h ▸ first_behind, Except.ok.inj h ▸ rfl⟩
  | second =>
    exact ⟨_, rfl, Except.ok.inj h ▸ second_behind hoblique e.options, Except.ok.inj h ▸ rfl⟩
  | third => exact Third.IsBehind.third_eq ⟨hstem, hoblique, hfront, hline⟩ h
  | fourth => exact ⟨_, rfl, Except.ok.inj h ▸ fourth_behind, Except.ok.inj h ▸ rfl⟩
  | fifth => exact ⟨_, rfl, Except.ok.inj h ▸ fifth_behind, Except.ok.inj h ▸ rfl⟩
  | invariable => exact ⟨_, rfl, Except.ok.inj h ▸ invariable_behind, Except.ok.inj h ▸ rfl⟩
  | indeclinable => exact absurd rfl hindeclinable
  | irregular => exact absurd rfl hirregular

/-- Neāpolis is declined like polis, which as a plain Greek word may drop its -s. -/
theorem decline_behind_of_polis :
    ∃ p, decline ⟨.latin, {}⟩
        ⟨"polis", some "pol", [.has .Greek, .has .polis], none, none, true, "nouns"⟩ .third =
        .ok p ∧
      p.notes.get? (.form (sg .voc) 1) = some "In poetry." ∧
      ∃ q, decline ⟨.latin, {}⟩ (.behind "Neā"
          ⟨"polis", some "pol", [.has .Greek, .has .polis], none, none, true, "nouns"⟩) .third =
          .ok q ∧
        q.forms = p.forms.behind "Neā" ∧ q.notes = p.notes :=
  ⟨_, rfl, by decide, decline_behind rfl (by decide) (by decide) (by decide) (by decide)
    (by decide) (by decide)⟩

end Noun
end Words
end Declension
