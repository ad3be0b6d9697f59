import Declension.Proofs.Expansion
import Declension.Proofs.Finish
import Declension.Proofs.Validation

/-!
# Notes on the forms of a word

A paradigm puts its notes on places of slots, and the passes over the forms of a word leave the
notes where they are. So a note stays with its form as long as no form before it gets a variant in
-n, and no other number is copied over the slot. Main statement: `form_of_notesAt`, with the
genitive plural of `modius` for what happens outside of its conditions.
-/
namespace Declension

/-- Whether a note is on a linked nominative. -/
def NoteKey.isLinked : NoteKey → Bool
  | form slot _ => slot.isLinked
  | other _ => false

/-- Whether no note of a list is on a linked nominative. -/
def IsOnPlain (notes : List (NoteKey × String)) : Prop := ∀ entry ∈ notes, entry.1.isLinked = false

theorem IsOnPlain.append {notes more : List (NoteKey × String)} (h : IsOnPlain notes)
    (hmore : IsOnPlain more) : IsOnPlain (notes ++ more) :=
  List.forall_mem_append.mpr ⟨h, hmore⟩

/-- Whether no irregular paradigm has a note on a linked nominative. -/
def Tables.NotesPlain (t : Tables) : Prop :=
  ∀ q ∈ t.irregularNouns ++ t.irregularAdjectives, IsOnPlain q.notes.entries

theorem Tables.notesPlain_latin : Tables.latin.NotesPlain := by
  unfold NotesPlain IsOnPlain
  decide +kernel

/-- Whether a paradigm has notes on plain slots only. -/
def Paradigm.NotesPlain (p : Paradigm) : Prop :=
  ∀ slot place note, p.notes.get? (.form slot place) = some note → slot.isLinked = false

namespace Paradigm
variable {p : Paradigm}

theorem notesPlain_of_entries (h : IsOnPlain p.notes.entries) : p.NotesPlain :=
  fun _ _ _ hnote => h _ (OrderedMap.mem_of_find hnote)

theorem notesPlain_of_ofList {notes : List (NoteKey × String)} (hnotes : p.notes = .ofList notes)
    (h : IsOnPlain notes) : p.NotesPlain := by
  intro slot place note hnote
  rw [hnotes, OrderedMap.get?_ofList] at hnote
  exact h _ (List.mem_reverse.mp (OrderedMap.mem_of_find hnote))

theorem notesPlain_of_empty (h : p.notes = ∅) : p.NotesPlain := by
  intro slot place note hnote
  rw [h] at hnote
  cases hnote

end Paradigm

namespace Noun

theorem Second.isOnPlain_notes (o : Options) (w : Lexeme) : IsOnPlain (Second.notes o w) := by
  apply IsOnPlain.append
  all_goals
    unfold IsOnPlain
    split <;> decide

theorem Third.isOnPlain_notes (w : Lexeme) : IsOnPlain (Third.notes w) := by
  have hpoetic : IsOnPlain (if w.has .poeticEsi then
      [(.form (.pl .dat) 1, Third.poeticNote), (.form (.pl .abl) 1, Third.poeticNote)]
      else []) := by
    unfold IsOnPlain
    split <;> decide
  unfold Third.notes
  split
  · refine IsOnPlain.append ?_ hpoetic
    unfold IsOnPlain
    decide
  · unfold IsOnPlain
    split <;> decide
  · exact fun _ h => nomatch h

theorem notesPlain_decline {e : Engine} (ht : e.tables.NotesPlain) {w : Lexeme} {c : Class}
    {p : Paradigm} (h : decline e w c = .ok p) : p.NotesPlain := by
  cases c with
  | second =>
    cases h
    exact Paradigm.notesPlain_of_ofList rfl (Second.isOnPlain_notes e.options w)
  | third =>
    obtain ⟨greek, _, h⟩ := bind_eq_ok.mp h
    obtain ⟨bare, _, h⟩ := bind_eq_ok.mp h
    cases h
    exact Paradigm.notesPlain_of_ofList rfl (Third.isOnPlain_notes w)
  | irregular =>
    obtain ⟨q, hq, h⟩ := bind_eq_ok.mp h
    cases h
    apply Paradigm.notesPlain_of_entries
    exact ht _ (List.mem_append_left _ (Tables.mem_of_irregularNoun hq))
  | _ =>
    rw [← Except.ok.inj h]
    exact Paradigm.notesPlain_of_empty rfl

end Noun

namespace Adjective

theorem ThirdOne.isOnPlain_notes (w : Lexeme) : IsOnPlain (ThirdOne.notes w) := by
  unfold ThirdOne.notes IsOnPlain
  split <;> decide

theorem Participle.isOnPlain_notes (o : Options) : IsOnPlain (Participle.notes o) := by
  unfold Participle.notes IsOnPlain
  split <;> decide

theorem notes_firstSecond {w : Lexeme} {p : Paradigm} (h : firstSecond w = .ok p) :
    p.notes = ∅ := by
  obtain ⟨r, _, h⟩ := bind_eq_ok.mp h
  cases h
  rfl

theorem notesPlain_irregular {t : Tables} (ht : t.NotesPlain) {w : Lexeme} {p : Paradigm}
    (h : irregular t w = .ok p) : p.NotesPlain := by
  unfold irregular at h
  split at h
  · obtain ⟨q, hq, h⟩ := bind_eq_ok.mp h
    cases h
    exact Paradigm.notesPlain_of_empty (show q.notes = ∅ from notes_firstSecond hq)
  · obtain ⟨q, hq, h⟩ := bind_eq_ok.mp h
    cases h
    apply Paradigm.notesPlain_of_entries
    exact ht _ (List.mem_append_right _ (Tables.mem_of_irregularAdjective hq))

theorem notesPlain_decline {e : Engine} (ht : e.tables.NotesPlain) {w : Lexeme} {c : Class}
    {p : Paradigm} (h : decline e w c = .ok p) : p.NotesPlain := by
  cases c with
  | firstSecond => exact Paradigm.notesPlain_of_empty (notes_firstSecond h)
  | irregular => exact notesPlain_irregular ht h
  | thirdOne =>
    cases h
    exact Paradigm.notesPlain_of_ofList rfl (ThirdOne.isOnPlain_notes w)
  | comparative =>
    cases h
    exact Paradigm.notesPlain_of_ofList rfl (ThirdOne.isOnPlain_notes _)
  | participle =>
    cases h
    exact Paradigm.notesPlain_of_ofList rfl
      ((ThirdOne.isOnPlain_notes w).append (Participle.isOnPlain_notes e.options))
  | _ =>
    rw [← Except.ok.inj h]
    exact Paradigm.notesPlain_of_empty rfl

end Adjective

namespace Segment
variable {e : Engine} {s : Segment} {w : Lexeme} {p : Paradigm}

theorem notes_withTitle {t : Tables} {q : Paradigm} (h : s.withTitle t p = .ok q) :
    q.notes = p.notes := by
  unfold withTitle at h
  split at h
  · cases h
    rfl
  · obtain ⟨title, _, h⟩ := bind_eq_ok.mp h
    cases h
    rfl

theorem notesPlain_paradigm (ht : e.tables.NotesPlain) (h : s.paradigm e w = .ok p) :
    p.NotesPlain := by
  obtain ⟨q, hq, h⟩ := bind_eq_ok.mp h
  obtain ⟨r, hr, h⟩ := bind_eq_ok.mp h
  have hnotes : p.notes = q.notes := by
    rw [← notes_withTitle hr, ← Except.ok.inj h]
  have hplain : q.NotesPlain := by
    unfold decline at hq
    split at hq <;> split at hq
    · exact Adjective.notesPlain_decline ht hq
    · cases hq
    · exact Noun.notesPlain_decline ht hq
    · cases hq
  intro slot place note hnote
  rw [hnotes] at hnote
  exact hplain slot place note hnote

/-- A note that a word gives to a slot of its run is the one its paradigm has at the same place of
the slot that is read. -/
theorem get?_of_notesAt_contribution {isAdj : Bool} {run : Summary} {slot : Slot} {place : ℕ}
    {note : String}
    (hplace : place <
      ((s.contribution isAdj (s.numberIn run) (s.genderIn run) p).cell slot).forms.length)
    (h : note ∈ ((s.contribution isAdj (s.numberIn run) (s.genderIn run) p).cell slot).notesAt
      place) :
    p.notes.get? (.form (s.readAt isAdj run p slot) place) = some note := by
  have hlength : place <
      ((s.finish (s.numberIn run) p.forms).forms (s.readAt isAdj run p slot)).length := by
    simpa [contribution, Cell.withLead, cellAt, readAt] using hplace
  have hat : note ∈ (cellAt (s.finish (s.numberIn run) p.forms) p.notes
      (s.readAt isAdj run p slot)).notesAt place := h
  rw [notesAt_cellAt _ _ _ hlength, Option.mem_toList] at hat
  exact (Option.filter_eq_some_iff.mp hat).1

end Segment

/-- Where every item gives some result and those before a place give one each, the result at the
place comes from the item there. -/
theorem exists_of_getElem?_flatMap {α β : Type} {f : α → List β} {items : List α} {place : ℕ}
    {b : β} (hsome : ∀ a, f a ≠ [])
    (hone : ∀ k < place, ∀ a, items[k]? = some a → (f a).length = 1)
    (h : (items.flatMap f)[place]? = some b) : ∃ a, items[place]? = some a ∧ b ∈ f a := by
  induction items generalizing place with
  | nil => simp at h
  | cons a items ih =>
    rw [List.flatMap_cons] at h
    cases place with
    | zero =>
      rw [List.getElem?_append_left (List.length_pos_of_ne_nil (hsome a))] at h
      exact ⟨a, rfl, List.mem_of_getElem? h⟩
    | succ place =>
      have ha : (f a).length = 1 := hone 0 (by omega) a rfl
      rw [List.getElem?_append_right (by omega), ha, Nat.add_sub_cancel] at h
      obtain ⟨a', ha', hb⟩ := ih (fun k hk a ha => hone (k + 1) (by omega) a ha) h
      exact ⟨a', ha', hb⟩

namespace Segment

theorem length_variants {s : Segment} {form : String}
    (h : s.tags.has .sufn → Text.endsIn "m" (s.spell form) = false) :
    (s.variants form).length = 1 := by
  unfold variants withNasal
  split
  · simp [h ‹_›]
  · rfl

end Segment

/-- Footnotes follow their forms. In a run of one word, a note on a composed form is the note that
the paradigm of the word has on the form this one is made from, if the slot is in the number the
word is used in, and no form before it in the slot gets a variant in -n. -/
theorem Run.form_of_notesAt {e : Engine} {pos : String} {isAdj : Bool} {r : Run} {s : Segment}
    {p : Paradigm} {c : Composition} {slot : Slot} {place : ℕ} {note : String}
    (htables : e.tables.NotesPlain) (h : r.compose e pos isAdj = .ok c)
    (hword : r.nodes = [.piece (.word s)]) (hp : s.paradigmIn e pos isAdj r.summary = .ok p)
    (hslot : slot ∈ Slot.run isAdj) (hnote : note ∈ (c.cell slot).notesAt place)
    (hnumber : ∀ n, (s.numberIn r.summary).bind NumberUse.only? = some n → slot.number = n)
    (hnasal : s.tags.has .sufn → ∀ k < place, ∀ form,
      (p.forms.forms (s.readAt isAdj r.summary p slot))[k]? = some form →
        Text.endsIn "m" (s.spell form) = false) :
    p.notes.get? (.form (s.readAt isAdj r.summary p slot) place) = some note ∧
      ∃ form variant, (p.forms.forms (s.readAt isAdj r.summary p slot))[place]? = some form ∧
        variant ∈ s.variants form ∧ (c.cell slot).forms[place]? = some (s.lead ++ variant) := by
  have hplace : place < (c.cell slot).forms.length := by
    by_contra hle
    have hnone := ((isNormal_of_compose e pos isAdj h).cell slot).notesAt_of_length_le
      (Nat.le_of_not_lt hle)
    rw [hnone] at hnote
    cases hnote
  obtain ⟨q, hq, hfit, rfl⟩ := (compose_word hword).mp h
  cases hp.symm.trans hq
  simp only [Composition.append, Composition.unit, Cell.forms_unit_append] at hplace ⊢
  simp only [Composition.append, Composition.unit, Cell.notesAt_unit_append _ hplace] at hnote
  have hget := Segment.get?_of_notesAt_contribution hplace hnote
  refine ⟨hget, ?_⟩
  have hread : (s.readAt isAdj r.summary p slot).isLinked = false :=
    Segment.notesPlain_paradigm htables hp _ _ _ hget
  have hplain : slot.isLinked = false := (s.isLinked_source _ _ _ slot).symm.trans hread
  have hforms := Segment.forms_finish (m := p.forms)
    (Segment.readAt_mem_run hfit hslot hplain) hread
    (fun n hn => (s.number_source _ _ _ slot).trans (hnumber n hn))
  have hcontribution := s.forms_contribution isAdj r.summary p slot
  rw [hforms, hplain] at hcontribution
  rw [hcontribution] at hplace ⊢
  rw [List.length_map] at hplace
  have hvariant := List.getElem?_eq_getElem hplace
  obtain ⟨form, hform, hmade⟩ := exists_of_getElem?_flatMap s.variants_ne_nil
    (fun k hk form hform => Segment.length_variants fun hsufn => hnasal hsufn k hk form hform)
    hvariant
  refine ⟨form, _, hform, hmade, ?_⟩
  rw [List.getElem?_map, hvariant]
  rfl

/-- The old genitive of `modius`, which has no form in -m before it. -/
theorem Run.form_of_notesAt_modius :
    ∃ r s p c, Run.read .latin "modius<2.genplum.sufn>" = .ok r ∧
      Tables.latin.NotesPlain ∧ r.compose ⟨.latin, {}⟩ "nouns" false = .ok c ∧
      r.nodes = [.piece (.word s)] ∧
      s.paradigmIn ⟨.latin, {}⟩ "nouns" false r.summary = .ok p ∧ .sg .gen ∈ Slot.run false ∧
      Noun.Second.oldGenitiveNote ∈ (c.cell (.sg .gen)).notesAt 1 ∧
      (∀ n, (s.numberIn r.summary).bind NumberUse.only? = some n → (Slot.sg .gen).number = n) ∧
      (s.tags.has .sufn → ∀ k < 1, ∀ form,
        (p.forms.forms (s.readAt false r.summary p (.sg .gen)))[k]? = some form →
          Text.endsIn "m" (s.spell form) = false) ∧
      p.notes.get? (.form (s.readAt false r.summary p (.sg .gen)) 1) =
        some Noun.Second.oldGenitiveNote ∧
      ∃ form variant, (p.forms.forms (s.readAt false r.summary p (.sg .gen)))[1]? = some form ∧
        variant ∈ s.variants form ∧ (c.cell (.sg .gen)).forms[1]? = some (s.lead ++ variant) := by
  obtain ⟨r, s, p, c, hr, hc, hword, hp, hnote, hnum, hread⟩ :
      ∃ r s p c, Run.read .latin "modius<2.genplum.sufn>" = .ok r ∧
        r.compose ⟨.latin, {}⟩ "nouns" false = .ok c ∧ r.nodes = [.piece (.word s)] ∧
        s.paradigmIn ⟨.latin, {}⟩ "nouns" false r.summary = .ok p ∧
        Noun.Second.oldGenitiveNote ∈ (c.cell (.sg .gen)).notesAt 1 ∧
        s.numberIn r.summary = none ∧
        ∀ form ∈ (p.forms.forms (s.readAt false r.summary p (.sg .gen))),
          Text.endsIn "m" (s.spell form) = false :=
    ⟨_, _, _, _, rfl, rfl, rfl, rfl, by decide +kernel, rfl, by decide +kernel⟩
  have hslot : .sg .gen ∈ Slot.run false := by decide
  have hnumber : ∀ n, (s.numberIn r.summary).bind NumberUse.only? = some n →
      (Slot.sg .gen).number = n := by
    rw [hnum]
    exact fun n h => nomatch h
  have hnasal : s.tags.has .sufn → ∀ k < 1, ∀ form,
      (p.forms.forms (s.readAt false r.summary p (.sg .gen)))[k]? = some form →
        Text.endsIn "m" (s.spell form) = false :=
    fun _ _ _ form hform => hread form (List.mem_of_getElem? hform)
  exact ⟨r, s, p, c, hr, Tables.notesPlain_latin, hc, hword, hp, hslot, hnote, hnumber, hnasal,
    form_of_notesAt Tables.notesPlain_latin hc hword hp hslot hnote hnumber hnasal⟩

/-- The contracted genitive plural of `modius` comes behind the full one and its variant in -n, and
its note stays where it was: on the full one. -/
theorem Run.not_form_of_notesAt_modius :
    ∃ r s p c, Run.read .latin "modius<2.genplum.sufn>" = .ok r ∧
      r.compose ⟨.latin, {}⟩ "nouns" false = .ok c ∧ r.nodes = [.piece (.word s)] ∧
      s.paradigmIn ⟨.latin, {}⟩ "nouns" false r.summary = .ok p ∧
      p.forms.forms (.pl .gen) = ["modiōrum", "modium"] ∧
      p.notes.get? (.form (.pl .gen) 0) = none ∧
      p.notes.get? (.form (.pl .gen) 1) = some Noun.Second.contractionNote ∧
      (c.cell (.pl .gen)).forms = ["modiōrun", "modiōrum", "modiun", "modium"] ∧
      (c.cell (.pl .gen)).notesAt 1 = [Noun.Second.contractionNote] ∧
      "modiōrum" ∉ s.variants "modium" :=
  ⟨_, _, _, _, rfl, rfl, rfl, rfl, by decide +kernel, by decide +kernel, by decide +kernel,
    by decide +kernel, by decide +kernel, by decide +kernel⟩

end Declension
