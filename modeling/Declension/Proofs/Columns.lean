import Declension.Proofs.RecordNotes
import Declension.Tables.Latin

/-!
# Columns that are left out

Whether an adjective keeps all of its columns is asked only when its record is complete, so nothing
else in the record depends on it. A column is left out if it repeats the masculine one, and is read
there. Main statement: `ofArguments_keepingAll`.
-/
namespace Declension

section Engine
variable {e e' : Engine}

theorem Piece.compose_congr (h : Segment.compose e = Segment.compose e') :
    Piece.compose e = Piece.compose e' := by
  funext pos isAdj run p
  cases p with
  | word s => rw [Piece.compose, h, Piece.compose]
  | literal l => rfl

theorem Node.compose_congr (h : Segment.compose e = Segment.compose e') :
    Node.compose e = Node.compose e' := by
  funext pos isAdj run node
  cases node with
  | piece p => rw [Node.compose, Piece.compose_congr h, Node.compose]
  | alternant a =>
    unfold Node.compose Alternant.compose Alternant.composeBranch PlainRun.compose
    rw [Piece.compose_congr h]

theorem Run.compose_congr (h : Segment.compose e = Segment.compose e') :
    Run.compose e = Run.compose e' := by
  funext pos isAdj r
  rw [Run.compose, Node.compose_congr h, Run.compose]

end Engine

namespace Engine

/-- The engine that keeps all columns of an adjective, or leaves some out. -/
def keepingAll (keep : Bool) (e : Engine) : Engine :=
  { e with options := { e.options with populateAllTerminations := keep } }

end Engine

section KeepingAll
variable {e : Engine} {keep : Bool}

theorem Noun.decline_keepingAll (w : Lexeme) (c : Class) :
    decline (e.keepingAll keep) w c = decline e w c := by
  cases c <;> rfl

theorem Adjective.decline_keepingAll (w : Lexeme) (c : Class) :
    decline (e.keepingAll keep) w c = decline e w c := by
  cases c <;> rfl

theorem Segment.compose_keepingAll : compose (e.keepingAll keep) = compose e := by
  have hdecline : decline (e.keepingAll keep) = decline e := by
    funext s w
    simp only [decline, Noun.decline_keepingAll, Adjective.decline_keepingAll]
  funext pos isAdj run s
  unfold compose paradigm
  rw [hdecline]
  rfl

end KeepingAll

theorem entries_eraseSlots (slots : List Slot) (m : FormMap) :
    (eraseSlots slots m).entries.Sublist m.entries := by
  unfold eraseSlots
  induction slots generalizing m with
  | nil => exact List.Sublist.refl _
  | cons s slots ih => exact (ih (m.erase s)).trans List.filter_sublist

namespace AdjectiveRecord
variable {e : Engine} {args : Arguments} {pos : String} {m : FormMap} {g : Gender} {slot : Slot}

/-- Whether every cell of a gender has the forms of the masculine one, or neither is there. -/
def RepeatsMasculine (m : FormMap) (g : Gender) : Prop :=
  ∀ c n, m.get? (.cell c n (some g)) = m.get? (.cell c n (some .m))

/-- Whether a slot is in a column that is left out. -/
def IsLeftOut (m : FormMap) (slot : Slot) : Prop :=
  ∃ g ∈ [Gender.f, .n], slot.gender? = some g ∧ RepeatsMasculine m g

theorem cell_mem_column (c : Case) (n : Number) (g : Gender) : .cell c n (some g) ∈ column g :=
  mem_column.mpr ⟨rfl, rfl⟩

theorem repeatsMasculine_iff : repeatsMasculine m g ↔ RepeatsMasculine m g := by
  unfold repeatsMasculine
  rw [List.all_eq_true]
  constructor
  · intro h c n
    exact of_decide_eq_true (h _ (cell_mem_column c n g))
  · intro h slot hslot
    obtain ⟨hgender, hlinked⟩ := mem_column.mp hslot
    cases slot with
    | cell c n x =>
      cases hgender
      exact decide_eq_true (h c n)
    | linked => cases hlinked

theorem get?_dropColumn_of_repeats (h : repeatsMasculine m g) (hslot : slot ∈ column g) :
    (dropColumn m g).get? slot = none := by
  rw [dropColumn, if_pos h, get?_eraseSlots, if_pos hslot]

theorem entries_dropColumn (m : FormMap) (g : Gender) :
    (dropColumn m g).entries.Sublist m.entries := by
  unfold dropColumn
  split
  · exact entries_eraseSlots _ _
  · exact List.Sublist.refl _

theorem get?_dropColumns_of_isLeftOut (h : IsLeftOut m slot) (hlinked : slot.isLinked = false) :
    (dropColumns m).get? slot = none := by
  obtain ⟨g, hg, hgender, hrepeats⟩ := h
  have hcolumn : slot ∈ column g := mem_column.mpr ⟨hgender, hlinked⟩
  rw [← repeatsMasculine_iff] at hrepeats
  have hsteps : dropColumns m = dropColumn (dropColumn m .f) .n := rfl
  rw [hsteps]
  rcases List.mem_pair.mp hg with rfl | rfl
  · have hother : slot ∉ column .n := by
      intro h
      have hneuter := (mem_column.mp h).1
      rw [hgender] at hneuter
      cases hneuter
    rw [get?_dropColumn fun h => absurd h hother, get?_dropColumn_of_repeats hrepeats hcolumn]
  · rw [← repeatsMasculine_dropColumn] at hrepeats
    exact get?_dropColumn_of_repeats hrepeats hcolumn

theorem get?_dropColumns_of_not_isLeftOut (h : ¬ IsLeftOut m slot) :
    (dropColumns m).get? slot = m.get? slot := by
  refine get?_dropColumns fun g hg hcolumn => ?_
  rw [Bool.eq_false_iff, ne_eq, repeatsMasculine_iff]
  exact fun hrepeats => h ⟨g, hg, (mem_column.mp hcolumn).1, hrepeats⟩

theorem entries_dropColumns (m : FormMap) : (dropColumns m).entries.Sublist m.entries :=
  (entries_dropColumn (dropColumn m .f) .n).trans (entries_dropColumn m .f)

/-- The columns that are left out are read from the masculine one. -/
theorem get?_masculine_of_isLeftOut {c : Case} {n : Number}
    (h : IsLeftOut m (.cell c n (some g))) :
    m.get? (.cell c n (some g)) = (dropColumns m).get? (.cell c n (some .m)) := by
  have hmasculine : ¬ IsLeftOut m (.cell c n (some .m)) := by
    rintro ⟨g, hg, hgender, -⟩
    cases hgender
    simp at hg
  obtain ⟨g', -, hgender, hrepeats⟩ := h
  cases hgender
  rw [get?_dropColumns_of_not_isLeftOut hmasculine, hrepeats c n]

theorem composed_keepingAll (keep : Bool) :
    composed (e.keepingAll keep) args pos = composed e args pos := by
  unfold composed
  rw [Run.compose_congr Segment.compose_keepingAll]
  rfl

theorem ofArguments_eq (e : Engine) (args : Arguments) (pos : String) :
    ofArguments e args pos =
      (fun made => ofComposed e.options args pos made.1 made.2) <$> composed e args pos := by
  unfold ofArguments composed
  simp only [map_bind, map_pure]
  rfl

theorem ofArguments_keepingAll_true :
    ofArguments (e.keepingAll true) args pos =
      (fun made => filled args pos made.1 made.2) <$> composed e args pos := by
  rw [ofArguments_eq, composed_keepingAll]
  rfl

theorem ofArguments_keepingAll_false :
    ofArguments (e.keepingAll false) args pos =
      (fun made => { filled args pos made.1 made.2 with
        forms := dropColumns (filled args pos made.1 made.2).forms }) <$> composed e args pos := by
  rw [ofArguments_eq, composed_keepingAll]
  rfl

theorem get?_filled_of_not_mem_run {run : Run} {c : Composition} (h : slot ∉ Slot.run true) :
    (filled args pos run c).forms.get? slot = none := by
  have hforms : (c.forms true).get? slot = none := by
    rw [Composition.get?_forms, if_neg h]
  rw [get?_forms_filled, if_neg h]
  unfold entered
  dsimp only
  split <;> split <;> simp [get?_eraseSlots, hforms]

/-- Leaving columns out of a record loses nothing. It succeeds when keeping them does, and changes
nothing but the forms; there the feminine or neuter slots are missing if their column repeats the
masculine one, and are read from it. -/
theorem ofArguments_keepingAll (e : Engine) (args : Arguments) (pos : String) :
    (∀ fault, ofArguments (e.keepingAll false) args pos = .error fault ↔
      ofArguments (e.keepingAll true) args pos = .error fault) ∧
    ∀ r, ofArguments (e.keepingAll true) args pos = .ok r →
      ∃ r', ofArguments (e.keepingAll false) args pos = .ok r' ∧
        { r' with forms := r.forms } = r ∧
        r'.forms.entries.Sublist r.forms.entries ∧
        (∀ slot, IsLeftOut r.forms slot → r'.forms.get? slot = none) ∧
        (∀ slot, ¬ IsLeftOut r.forms slot → r'.forms.get? slot = r.forms.get? slot) ∧
        ∀ c n g, IsLeftOut r.forms (.cell c n (some g)) →
          r.forms.get? (.cell c n (some g)) = r'.forms.get? (.cell c n (some .m)) := by
  rw [ofArguments_keepingAll_true, ofArguments_keepingAll_false]
  constructor
  · intro fault
    rw [map_eq_error, map_eq_error]
  · intro r h
    obtain ⟨made, hmade, rfl⟩ := map_eq_ok.mp h
    refine ⟨_, map_eq_ok.mpr ⟨made, hmade, rfl⟩, rfl, entries_dropColumns _, ?_,
      fun slot => get?_dropColumns_of_not_isLeftOut, fun c n g => get?_masculine_of_isLeftOut⟩
    intro slot hleft
    cases hlinked : slot.isLinked with
    | false => exact get?_dropColumns_of_isLeftOut hleft hlinked
    | true =>
      have hmasculine : ∀ t ∈ Slot.run true, t.isLinked → t.gender? = some .m := by decide
      have hrun : slot ∉ Slot.run true := by
        intro hmem
        obtain ⟨g, hg, hgender, -⟩ := hleft
        rw [hmasculine slot hmem hlinked] at hgender
        cases hgender
        simp at hg
      have hcolumn : ∀ g ∈ [Gender.f, .n], slot ∈ column g →
          repeatsMasculine (filled args pos made.1 made.2).forms g = false := by
        intro g _ h
        rw [(mem_column.mp h).2] at hlinked
        cases hlinked
      exact (get?_dropColumns hcolumn).trans (get?_filled_of_not_mem_run hrun)

/-- The feminine of `fortis` is that of the masculine and is left out, its neuter is not. -/
theorem ofArguments_keepingAll_of_fortis :
    ∃ r r', ofArguments (Engine.keepingAll true ⟨.latin, {}⟩) ⟨[("1", "fortis<3+>")]⟩
        "adjectives" = .ok r ∧
      ofArguments (Engine.keepingAll false ⟨.latin, {}⟩) ⟨[("1", "fortis<3+>")]⟩
        "adjectives" = .ok r' ∧
      r.forms.get? (.sgf .gen) = some ["fortis"] ∧ r'.forms.get? (.sgf .gen) = none ∧
      r'.forms.get? (.sgm .gen) = some ["fortis"] ∧ r'.forms.get? (.sgn .nom) = some ["forte"] := by
  obtain ⟨run, c, hc, hgenitive, hneuter, hrepeats, hkept⟩ : ∃ run c,
      composed ⟨.latin, {}⟩ ⟨[("1", "fortis<3+>")]⟩ "adjectives" = .ok (run, c) ∧
      (filled ⟨[("1", "fortis<3+>")]⟩ "adjectives" run c).forms.get? (.sgf .gen) =
        some ["fortis"] ∧
      (filled ⟨[("1", "fortis<3+>")]⟩ "adjectives" run c).forms.get? (.sgn .nom) =
        some ["forte"] ∧
      repeatsMasculine (filled ⟨[("1", "fortis<3+>")]⟩ "adjectives" run c).forms .f = true ∧
      repeatsMasculine (filled ⟨[("1", "fortis<3+>")]⟩ "adjectives" run c).forms .n = false :=
    ⟨_, _, rfl, by decide +kernel, by decide +kernel, by decide +kernel, by decide +kernel⟩
  have hr : ofArguments (Engine.keepingAll true ⟨.latin, {}⟩) ⟨[("1", "fortis<3+>")]⟩
      "adjectives" = .ok (filled ⟨[("1", "fortis<3+>")]⟩ "adjectives" run c) := by
    rw [ofArguments_keepingAll_true, hc]
    rfl
  obtain ⟨r', hr', -, -, hgone, hstays, hread⟩ :=
    (ofArguments_keepingAll ⟨.latin, {}⟩ ⟨[("1", "fortis<3+>")]⟩ "adjectives").2 _ hr
  have hleft : IsLeftOut (filled ⟨[("1", "fortis<3+>")]⟩ "adjectives" run c).forms (.sgf .gen) :=
    ⟨.f, by simp, rfl, repeatsMasculine_iff.mp hrepeats⟩
  have hneuterStays : ¬ IsLeftOut (filled ⟨[("1", "fortis<3+>")]⟩ "adjectives" run c).forms
      (.sgn .nom) := by
    rintro ⟨g, -, hgender, hrepeats⟩
    cases hgender
    rw [← repeatsMasculine_iff, hkept] at hrepeats
    cases hrepeats
  exact ⟨_, r', hr, hr', hgenitive, hgone _ hleft, (hread .gen .sg .f hleft).symm.trans hgenitive,
    (hstays _ hneuterStays).trans hneuter⟩

end AdjectiveRecord
end Declension
