import Declension.Proofs.Footnotes
import Declension.Proofs.Neuter

/-!
# Notes on forms that a paradigm has

A class puts notes on places of slots that one of its stages fills. A later stage may give such a
slot fewer forms, and the note is then on none: that is so with Greek i-stems alone. Main statement:
`notesStand_latin_iff`.
-/
namespace Declension
open Slot

/-- A note stands if its slot has a form at its place. -/
def NoteKey.Stands (m : FormMap) : NoteKey → Prop
  | form slot place => place < (m.forms slot).length
  | other _ => False

instance (m : FormMap) (key : NoteKey) : Decidable (key.Stands m) := by
  cases key <;> unfold NoteKey.Stands <;> infer_instance

/-- Every note of a paradigm is on a form. -/
def Paradigm.NotesStand (p : Paradigm) : Prop := ∀ key ∈ p.notes.keys, key.Stands p.forms

/-- How many forms the rows give to a slot, if they set it; the last row for it holds. -/
def formsIn (slot : Slot) (rows : Rows) : Option ℕ :=
  (OrderedMap.find slot rows.reverse).map List.length

section Count
variable {slot : Slot} {rows more : Rows}

theorem formsIn_append :
    formsIn slot (rows ++ more) = (formsIn slot more).or (formsIn slot rows) := by
  rw [formsIn, List.reverse_append, OrderedMap.find_append, Option.map_or]
  rfl

theorem formsIn_cons {row : Slot × List String} :
    formsIn slot (row :: rows) = (formsIn slot rows).or (formsIn slot [row]) := by
  rw [← List.singleton_append, formsIn_append]

theorem formsIn_map {f : List String → List String}
    (hf : ∀ forms, (f forms).length = forms.length) :
    formsIn slot (rows.map fun (slot, forms) => (slot, f forms)) = formsIn slot rows := by
  rw [formsIn, ← List.map_reverse, OrderedMap.find_map_values, Option.map_map]
  exact congrArg (Option.map · _) (funext hf)

theorem formsIn_inflect (stem : String) :
    formsIn slot (FormMap.inflect stem rows) = formsIn slot rows :=
  formsIn_map fun _ => List.length_map _

theorem formsIn_ite {p : Prop} [Decidable p] :
    formsIn slot (if p then rows else more) =
      if p then formsIn slot rows else formsIn slot more :=
  apply_ite _ _ _ _

theorem formsIn_ne_zero (h : ∀ row ∈ rows, row.2 ≠ []) : formsIn slot rows ≠ some 0 := by
  intro hzero
  obtain ⟨forms, hfind, hlength⟩ := Option.map_eq_some_iff.mp hzero
  have hmem : (slot, forms) ∈ rows := List.mem_reverse.mp (OrderedMap.mem_of_find hfind)
  exact h _ hmem (List.length_eq_zero_iff.mp hlength)

theorem length_forms_ofList :
    (FormMap.forms (.ofList rows) slot).length = (formsIn slot rows).getD 0 := by
  rw [FormMap.forms, OrderedMap.get?_ofList, formsIn]
  cases OrderedMap.find slot rows.reverse <;> rfl

end Count

namespace NoteKey
variable {m : FormMap} {key : NoteKey}

theorem stands_congr {m' : FormMap} (h : ∀ slot, (m.forms slot).length = (m'.forms slot).length) :
    key.Stands m ↔ key.Stands m' := by
  cases key with
  | form slot place => exact iff_of_eq (congrArg (place < ·) (h slot))
  | other key => exact Iff.rfl

theorem stands_of_formsIn {rows : Rows} {slot : Slot} {place n : ℕ} (hm : m = .ofList rows)
    (h : formsIn slot rows = some n) (hplace : place < n) : (form slot place).Stands m := by
  rw [Stands, hm, length_forms_ofList, h]
  exact hplace

end NoteKey

namespace Paradigm
variable {p : Paradigm}

theorem notesStand_of_empty (h : p.notes = ∅) : p.NotesStand := by
  intro key hkey
  rw [h] at hkey
  cases hkey

theorem notesStand_of_entries (h : ∀ entry ∈ p.notes.entries, entry.1.Stands p.forms) :
    p.NotesStand := by
  intro key hkey
  obtain ⟨entry, hentry, rfl⟩ := List.mem_map.mp hkey
  exact h entry hentry

theorem notesStand_ofList_iff {notes : List (NoteKey × String)} (hnotes : p.notes = .ofList notes) :
    p.NotesStand ↔ ∀ entry ∈ notes, entry.1.Stands p.forms := by
  have hkeys : ∀ key, key ∈ p.notes.keys ↔ key ∈ notes.map Prod.fst := by
    intro key
    rw [hnotes, OrderedMap.keys_ofList, List.mem_eraseDups]
  constructor
  · intro h entry hentry
    exact h _ ((hkeys _).mpr (List.mem_map_of_mem hentry))
  · intro h key hkey
    obtain ⟨entry, hentry, rfl⟩ := List.mem_map.mp ((hkeys key).mp hkey)
    exact h entry hentry

end Paradigm

/-- The notes of the irregular paradigms are on forms; a noun has a mark in the cells that its
paradigm leaves out. -/
structure Tables.NotesStand (t : Tables) : Prop where
  nouns : ∀ q ∈ t.irregularNouns, ∀ entry ∈ q.notes.entries,
    entry.1.Stands (.ofList (Noun.uniform Noun.noForm ++ q.forms.entries))
  adjectives : ∀ q ∈ t.irregularAdjectives, ∀ entry ∈ q.notes.entries, entry.1.Stands q.forms

theorem Tables.notesStand_latin : latin.NotesStand where
  nouns := by decide +kernel
  adjectives := by decide +kernel

namespace IrregularParadigm
variable (q : IrregularParadigm) (word : String) (slot : Slot)

theorem formsIn_formsFor : formsIn slot (q.formsFor word).entries = formsIn slot q.forms.entries :=
  formsIn_map fun _ => List.length_map _

theorem length_forms_formsFor :
    ((q.formsFor word).forms slot).length = (q.forms.forms slot).length := by
  rw [FormMap.forms, FormMap.forms, Adjective.get?_formsFor]
  cases q.forms.get? slot with
  | none => rfl
  | some forms => exact List.length_map _

end IrregularParadigm

namespace Noun

namespace Second
variable (o : Options) (w : Lexeme)

/-- A stem in -i has two genitives. -/
theorem formsIn_oldGenitive (h : hasOldGenitive w) (hkept : o.suppressOldGenitive = false) :
    formsIn (sg .gen) (onStem o w) = some 2 := by
  have hbasic : formsIn (sg .gen) basic = some 1 := by decide
  rw [onStem, hkept, Bool.and_false, if_neg Bool.false_ne_true, List.append_nil, formsIn_append,
    hbasic]
  unfold hasOldGenitive at h
  cases hN : w.has .N with
  | true =>
    have hium : w.has .ium = true := by simpa [hN] using h
    rw [if_pos rfl, neuterType, if_pos hium]
    decide
  | false =>
    obtain ⟨her, hius⟩ : w.has .er = false ∧ w.has .ius = true := by simpa [hN] using h
    rw [if_neg Bool.false_ne_true, if_neg (by simp [her]), if_pos hius]
    cases w.has .voci <;> decide

theorem formsIn_onOblique_genitive (h : hasOldGenitive w) :
    formsIn (sg .gen) (onOblique w) = none := by
  have hr : (!w.has .N && w.has .er) = false := by
    unfold hasOldGenitive at h
    cases hN : w.has .N <;> simp_all
  unfold onOblique
  simp only [hr, Bool.false_eq_true, if_false, formsIn_append, formsIn_ite]
  cases isIStem w <;> cases w.has .genplum <;> cases w.loc <;> decide

theorem formsIn_contraction (h : w.has .genplum) : formsIn (pl .gen) (onOblique w) = some 2 := by
  unfold onOblique
  simp only [if_pos h, formsIn_append, formsIn_ite]
  cases isIStem w <;> cases w.loc <;> rfl

theorem formsIn_rows (slot : Slot) : formsIn slot (FormMap.inflect w.stem (onStem o w) ++
    FormMap.inflect w.obliqueStem (onOblique w)) =
      (formsIn slot (onOblique w)).or (formsIn slot (onStem o w)) := by
  rw [formsIn_append, formsIn_inflect, formsIn_inflect]

theorem notesStand : (second o w).NotesStand := by
  have hforms : (second o w).forms = .ofList (FormMap.inflect w.stem (onStem o w) ++
      FormMap.inflect w.obliqueStem (onOblique w)) := by rw [second]
  have hnotes : (second o w).notes = .ofList (notes o w) := by rw [second]
  rw [Paradigm.notesStand_ofList_iff hnotes]
  refine List.forall_mem_append.mpr ⟨?_, ?_⟩
  · split
    · rename_i h
      obtain ⟨hold, hkept⟩ := Bool.and_eq_true_iff.mp h
      have hkept : o.suppressOldGenitive = false := by simpa using hkept
      have htwo := formsIn_rows o w (sg .gen)
      rw [formsIn_onOblique_genitive w hold, formsIn_oldGenitive o w hold hkept,
        Option.none_or] at htwo
      exact List.forall_mem_singleton.mpr (NoteKey.stands_of_formsIn hforms htwo Nat.one_lt_two)
    · exact List.forall_mem_nil _
  · split
    · rename_i h
      have htwo := formsIn_rows o w (pl .gen)
      rw [formsIn_contraction w h, Option.some_or] at htwo
      exact List.forall_mem_singleton.mpr (NoteKey.stands_of_formsIn hforms htwo Nat.one_lt_two)
    · exact List.forall_mem_nil _

end Second

namespace Third

/-- Why a Greek i-stem has fewer forms than it was given notes for. -/
inductive CutsNoted (w : Lexeme) : Prop
  /-- A neuter has one accusative. -/
  | neuter (h : w.has .N)
  | accusative {a : CaseType} (h : accusative? w = some a) (hcut : a.endings.length ≤ 2)
  | ablative {a : CaseType} (h : ablative? w = some a) (hcut : a.endings.length ≤ 1)
  /-- A noun in -polis has two accusatives and one ablative, where no type of its own sets them. -/
  | polis (h : w.has .polis) (hopen : accusative? w = none ∨ ablative? w = none)

variable (o : Options) (w : Lexeme) (greek bare : String)

theorem stands_forms_iff {slot : Slot} {place : ℕ} (hslot : slot ∉ [sg .loc, pl .loc]) :
    (NoteKey.form slot place).Stands (forms o w greek bare) ↔
      place < (formsIn slot (rows o w greek bare)).getD 0 := by
  have hget := (isMadeOf_third o w greek bare).locative.get? hslot
  rw [NoteKey.Stands, FormMap.forms, hget, formsIn]
  cases OrderedMap.find slot (rows o w greek bare).reverse <;> exact Iff.rfl

theorem formsIn_rows {slot : Slot} {n : ℕ} (h : formsIn slot (greekForms w greek) = some n) :
    formsIn slot (rows o w greek bare) = (formsIn slot (kindForms o w bare)).or
      (some ((if w.has .polis then formsIn slot inPolis else none).getD n)) := by
  rw [rows, formsIn_append, formsIn_append, formsIn_append, h, Option.some_or, formsIn_ite,
    formsIn_inflect]
  congr 1
  cases w.has .polis with
  | true => cases formsIn slot inPolis <;> rfl
  | false => rfl

theorem formsIn_caseType {slot other : Slot} (a : Option CaseType) :
    formsIn slot (a.map fun a => (other, a.endings)).toList =
      if other = slot then a.map (·.endings.length) else none := by
  cases a with
  | none => simp [formsIn, OrderedMap.find]
  | some a => by_cases h : other = slot <;> simp [formsIn, OrderedMap.find, h]

/-- An i-stem has in the singular what the types of its cases give. -/
theorem formsIn_iStem {slot : Slot} (hslot : slot ∉ [pl .gen, pl .acc]) :
    formsIn slot (iStem o w) =
      (if sg .abl = slot then (ablative? w).map (·.endings.length) else none).or
        (if sg .acc = slot then (accusative? w).map (·.endings.length) else none) := by
  have hplural : ∀ forms, formsIn slot [(pl .gen, ["ium"]), (pl .acc, forms)] = none := by
    intro forms
    simp only [List.mem_cons, List.not_mem_nil, or_false, not_or] at hslot
    simp [formsIn, OrderedMap.find, Ne.symm hslot.1, Ne.symm hslot.2]
  rw [iStem, formsIn_append, formsIn_append, formsIn_caseType, formsIn_caseType, hplural,
    Option.or_none]

/-- The gender and the kind of stem set no vocative singular, and no dative or ablative plural. -/
theorem formsIn_kindForms_eq_none {slot : Slot} (hslot : slot ∈ [sg .voc, pl .dat, pl .abl]) :
    formsIn slot (kindForms o w bare) = none := by
  have hblocks : ∀ slot ∈ [sg .voc, pl .dat, pl .abl],
      formsIn slot neuter = none ∧ formsIn slot neuterPure = none ∧
        formsIn slot neuterIStem = none := by
    decide
  have hne : ∀ slot ∈ [sg .voc, pl .dat, pl .abl],
      slot ∉ [pl .gen, pl .acc] ∧ sg .abl ≠ slot ∧ sg .acc ≠ slot := by
    decide
  obtain ⟨hneuter, hpure, histem⟩ := hblocks slot hslot
  obtain ⟨hplural, habl, hacc⟩ := hne slot hslot
  unfold kindForms
  split
  · have hbare : formsIn slot [(sg .acc, [bare])] = none := by
      simp [formsIn, OrderedMap.find, hacc]
    rw [formsIn_cons, formsIn_inflect, hbare, Option.or_none]
    split_ifs
    · exact hneuter
    · exact hpure
    · exact histem
  · split
    · rw [formsIn_inflect, formsIn_iStem o w hplural, if_neg habl, if_neg hacc, Option.or_none]
    · rfl

section GreekIStem
variable {w} (hgreek : greek? w = some .iStem)

include hgreek

theorem isIStem_of_greek : isIStem w := by
  cases hI : w.has .I with
  | true => rw [isIStem, hI, Bool.true_or, Bool.true_or]
  | false =>
    unfold greek? at hgreek
    simp only [hI, Bool.false_eq_true, if_false] at hgreek
    split_ifs at hgreek
    all_goals cases hgreek

theorem formsIn_greekForms (slot : Slot) : formsIn slot (greekForms w greek) =
    formsIn slot (greekIStem (w.has .poeticEsi)) := by
  rw [greekForms, hgreek]
  exact formsIn_inflect _

theorem formsIn_kindForms {slot : Slot} (hN : w.has .N = false)
    (hslot : slot ∉ [pl .gen, pl .acc]) :
    formsIn slot (kindForms o w bare) =
      (if sg .abl = slot then (ablative? w).map (·.endings.length) else none).or
        (if sg .acc = slot then (accusative? w).map (·.endings.length) else none) := by
  rw [kindForms, if_neg (by simp [hN]), if_pos (isIStem_of_greek hgreek), formsIn_inflect,
    formsIn_iStem o w hslot]

/-- Three accusatives are kept where no trait gives fewer. -/
theorem two_lt_accusatives_iff (hN : w.has .N = false) :
    2 < (formsIn (sg .acc) (rows o w greek bare)).getD 0 ↔
      (∀ a, accusative? w = some a → 2 < a.endings.length) ∧
        (accusative? w = none → w.has .polis = false) := by
  have hthree : formsIn (sg .acc) (greekForms w greek) = some 3 := by
    rw [formsIn_greekForms greek hgreek]
    cases w.has .poeticEsi <;> decide
  have hpolis : formsIn (sg .acc) inPolis = some 2 := by decide
  rw [formsIn_rows o w greek bare hthree, formsIn_kindForms o bare hgreek hN (by decide), hpolis,
    if_neg (by decide), if_pos rfl]
  cases accusative? w <;> cases w.has .polis <;> simp

/-- Two ablatives are kept where no trait gives fewer. -/
theorem one_lt_ablatives_iff (hN : w.has .N = false) :
    1 < (formsIn (sg .abl) (rows o w greek bare)).getD 0 ↔
      (∀ a, ablative? w = some a → 1 < a.endings.length) ∧
        (ablative? w = none → w.has .polis = false) := by
  have htwo : formsIn (sg .abl) (greekForms w greek) = some 2 := by
    rw [formsIn_greekForms greek hgreek]
    cases w.has .poeticEsi <;> decide
  have hpolis : formsIn (sg .abl) inPolis = some 1 := by decide
  rw [formsIn_rows o w greek bare htwo, formsIn_kindForms o bare hgreek hN (by decide), hpolis,
    if_pos rfl, if_neg (by decide)]
  cases ablative? w <;> cases w.has .polis <;> simp

theorem formsIn_of_poetic (hpoetic : w.has .poeticEsi) {slot : Slot}
    (hslot : slot ∈ [pl .dat, pl .abl]) :
    formsIn slot (rows o w greek bare) = some 2 := by
  have hblock : ∀ slot ∈ [pl .dat, pl .abl], formsIn slot (greekIStem true) = some 2 ∧
      formsIn slot inPolis = none ∧ slot ∈ [sg .voc, pl .dat, pl .abl] := by
    decide
  obtain ⟨htwo, hpolis, hslot⟩ := hblock slot hslot
  have hgreekForms : formsIn slot (greekForms w greek) = some 2 := by
    rw [formsIn_greekForms greek hgreek, hpoetic, htwo]
  rw [formsIn_rows o w greek bare hgreekForms, formsIn_kindForms_eq_none o w bare hslot, hpolis]
  cases w.has .polis <;> rfl

theorem stands_poetic : ∀ entry ∈ (if w.has .poeticEsi then
    [(NoteKey.form (pl .dat) 1, poeticNote), (.form (pl .abl) 1, poeticNote)] else []),
    entry.1.Stands (forms o w greek bare) := by
  split
  · rename_i h
    have hstands : ∀ slot ∈ [pl .dat, pl .abl],
        (NoteKey.form slot 1).Stands (forms o w greek bare) := by
      intro slot hslot
      have hplace : slot ∉ [sg .loc, pl .loc] := by
        revert slot
        decide
      rw [stands_forms_iff o w greek bare hplace, formsIn_of_poetic o greek bare hgreek h hslot]
      exact Nat.one_lt_two
    exact List.forall_mem_cons.mpr ⟨hstands _ (by decide),
      List.forall_mem_singleton.mpr (hstands _ (by decide))⟩
  · exact List.forall_mem_nil _

/-- The notes of a Greek i-stem stand where nothing takes the forms away again. -/
theorem stands_iff_of_iStem :
    (∀ entry ∈ notes w, entry.1.Stands (forms o w greek bare)) ↔ ¬ CutsNoted w := by
  have hnotes : (∀ entry ∈ notes w, entry.1.Stands (forms o w greek bare)) ↔
      2 < (formsIn (sg .acc) (rows o w greek bare)).getD 0 ∧
        1 < (formsIn (sg .abl) (rows o w greek bare)).getD 0 := by
    rw [notes, hgreek]
    dsimp only
    rw [List.forall_mem_append, and_iff_left (stands_poetic o greek bare hgreek),
      List.forall_mem_cons, List.forall_mem_singleton, stands_forms_iff o w greek bare (by decide),
      stands_forms_iff o w greek bare (by decide)]
  rw [hnotes]
  cases hN : w.has .N with
  | true =>
    have hone : formsIn (sg .acc) (rows o w greek bare) = some 1 := by
      rw [formsIn, find_accusative o hN]
      rfl
    rw [hone]
    exact iff_of_false (by simp) (not_not_intro (.neuter hN))
  | false =>
    rw [two_lt_accusatives_iff o greek bare hgreek hN, one_lt_ablatives_iff o greek bare hgreek hN]
    constructor
    · rintro ⟨⟨hacc, haccpolis⟩, habl, hablpolis⟩ hcuts
      cases hcuts with
      | neuter h =>
        rw [h] at hN
        cases hN
      | accusative h hcut => exact absurd (hacc _ h) (by omega)
      | ablative h hcut => exact absurd (habl _ h) (by omega)
      | polis h hopen =>
        have hnot : w.has .polis = false := hopen.elim haccpolis hablpolis
        rw [h] at hnot
        cases hnot
    · intro hcuts
      refine ⟨⟨fun a h => ?_, fun h => ?_⟩, fun a h => ?_, fun h => ?_⟩
      · by_contra hle
        exact hcuts (.accusative h (by omega))
      · by_contra hpolis
        exact hcuts (.polis (by simpa using hpolis) (.inl h))
      · by_contra hle
        exact hcuts (.ablative h (by omega))
      · by_contra hpolis
        exact hcuts (.polis (by simpa using hpolis) (.inr h))

end GreekIStem

/-- A Greek noun that drops its -s has two vocatives. -/
theorem stands_of_plain (hgreek : greek? w = some .plain) :
    ∀ entry ∈ notes w, entry.1.Stands (forms o w greek bare) := by
  rw [notes, hgreek]
  dsimp only
  split
  · rename_i hdrops
    have htwo : formsIn (sg .voc) (greekForms w greek) = some 2 := by
      rw [greekForms, hgreek]
      dsimp only
      rw [formsIn_append, if_pos hdrops]
      rfl
    have hpolis : formsIn (sg .voc) inPolis = some 2 := by decide
    have hrows : formsIn (sg .voc) (rows o w greek bare) = some 2 := by
      rw [formsIn_rows o w greek bare htwo, formsIn_kindForms_eq_none o w bare (by decide), hpolis]
      cases w.has .polis <;> rfl
    refine List.forall_mem_singleton.mpr ((stands_forms_iff o w greek bare (by decide)).mpr ?_)
    rw [hrows]
    exact Nat.one_lt_two
  · exact List.forall_mem_nil _

/-- Of the nouns of the third declension only Greek i-stems have notes without a form. -/
theorem notesStand_iff {p : Paradigm} (h : third o w = .ok p) :
    p.NotesStand ↔ ¬ (greek? w = some .iStem ∧ CutsNoted w) := by
  obtain ⟨greek, _, h⟩ := bind_eq_ok.mp h
  obtain ⟨bare, _, h⟩ := bind_eq_ok.mp h
  obtain rfl := Except.ok.inj h
  rw [Paradigm.notesStand_ofList_iff rfl]
  by_cases hgreek : greek? w = some .iStem
  · rw [stands_iff_of_iStem o greek bare hgreek, and_iff_right hgreek]
  · refine iff_of_true ?_ fun h => hgreek h.1
    by_cases hplain : greek? w = some .plain
    · exact stands_of_plain o w greek bare hplain
    · have hnil : notes w = [] := by
        unfold notes
        split
        · exact absurd ‹_› hgreek
        · exact absurd ‹_› hplain
        · rfl
      rw [hnil]
      exact List.forall_mem_nil _

end Third

theorem notesStand_irregular {t : Tables} (ht : t.NotesStand) {w : Lexeme} {p : Paradigm}
    (h : irregular t w = .ok p) : p.NotesStand := by
  obtain ⟨q, hq, h⟩ := bind_eq_ok.mp h
  have hmem : q ∈ t.irregularNouns := Tables.mem_of_irregularNoun hq
  obtain rfl := Except.ok.inj h
  refine Paradigm.notesStand_of_entries fun entry hentry => ?_
  refine (NoteKey.stands_congr fun slot => ?_).mp (ht.nouns q hmem entry hentry)
  dsimp only
  rw [length_forms_ofList, length_forms_ofList, formsIn_append, formsIn_append,
    q.formsIn_formsFor]

/-- A class of nouns gives notes to forms alone, but for Greek i-stems. -/
theorem notesStand_decline_iff {e : Engine} (ht : e.tables.NotesStand) {w : Lexeme} {c : Class}
    {p : Paradigm} (h : decline e w c = .ok p) :
    p.NotesStand ↔ ¬ (c = .third ∧ Third.greek? w = some .iStem ∧ Third.CutsNoted w) := by
  cases c with
  | second =>
    obtain rfl := Except.ok.inj h
    simpa using Second.notesStand e.options w
  | third => rw [Third.notesStand_iff e.options w h, and_iff_right rfl]
  | irregular => simpa using notesStand_irregular ht h
  | _ =>
    obtain rfl := Except.ok.inj h
    simpa using Paradigm.notesStand_of_empty rfl

end Noun

namespace Adjective

namespace ThirdOne
variable {w : Lexeme} {more : Rows} {m : FormMap}

theorem formsIn_greekCells (h : isInEs w && w.has .greek) {slot : Slot}
    (hslot : slot ∈ greekCells) :
    formsIn slot (forms w) = some 2 := by
  have htwo : ∀ slot ∈ greekCells,
      formsIn slot (greekCells.map fun s => (s, ["es", "ēs"])) = some 2 := by
    decide
  rw [forms, formsIn_append, if_pos h, formsIn_inflect, htwo slot hslot, Option.some_or]

/-- The note on the short ending stands also if a further stage sets its cells, to some form. -/
theorem stands_notes (hm : m = .ofList (forms w ++ more))
    (hmore : ∀ slot ∈ greekCells, formsIn slot more ≠ some 0) :
    ∀ entry ∈ notes w, entry.1.Stands m := by
  unfold notes
  split
  · rename_i h
    intro entry hentry
    obtain ⟨slot, hslot, rfl⟩ := List.mem_map.mp hentry
    show 0 < (m.forms slot).length
    rw [hm, length_forms_ofList, formsIn_append, formsIn_greekCells h hslot]
    cases hcount : formsIn slot more with
    | none => decide
    | some n =>
      have hne : n ≠ 0 := fun hn => hmore slot hslot (hcount.trans (congrArg some hn))
      exact Nat.pos_of_ne_zero hne
  · exact List.forall_mem_nil _

end ThirdOne

theorem notesStand_thirdOne (w : Lexeme) : (thirdOne w).NotesStand := by
  have hforms : (thirdOne w).forms = .ofList (ThirdOne.forms w ++ []) := by
    rw [thirdOne, List.append_nil]
  rw [Paradigm.notesStand_ofList_iff (by rw [thirdOne])]
  exact ThirdOne.stands_notes hforms (by decide)

theorem notesStand_comparative (w : Lexeme) : (comparative w).NotesStand := by
  have hforms : (comparative w).forms =
      .ofList (ThirdOne.forms (Comparative.asThirdOne w) ++ Comparative.neuter w.stem) := by
    rw [comparative]
  have hneuter : ∀ row ∈ Comparative.neuter w.stem, row.2 ≠ [] := by simp [Comparative.neuter]
  rw [Paradigm.notesStand_ofList_iff (by rw [comparative])]
  exact ThirdOne.stands_notes hforms fun _ _ => formsIn_ne_zero hneuter

theorem notesStand_participle (o : Options) (w : Lexeme) : (participle o w).NotesStand := by
  have hforms : (participle o w).forms = .ofList (ThirdOne.forms w ++
      FormMap.inflect w.obliqueStem (Participle.endings o w)) := by
    rw [participle]
  have hendings : ∀ row ∈ Participle.endings o w, row.2 ≠ [] := by
    unfold Participle.endings Participle.ablative
    split_ifs <;> simp
  rw [Paradigm.notesStand_ofList_iff (by rw [participle])]
  refine List.forall_mem_append.mpr ⟨ThirdOne.stands_notes hforms fun _ _ => ?_, ?_⟩
  · rw [formsIn_inflect]
    exact formsIn_ne_zero hendings
  · unfold Participle.notes
    split
    · exact List.forall_mem_nil _
    · rename_i hkept
      have htwo : ∀ slot ∈ [sgm .abl, sgn .abl],
          formsIn slot (Participle.endings o w) = some 2 := by
        unfold Participle.endings Participle.ablative
        rw [if_pos (by simpa using hkept)]
        decide
      have hstands : ∀ slot ∈ [sgm .abl, sgn .abl],
          (NoteKey.form slot 1).Stands (participle o w).forms := by
        intro slot hslot
        have hrows : formsIn slot (ThirdOne.forms w ++
            FormMap.inflect w.obliqueStem (Participle.endings o w)) = some 2 := by
          rw [formsIn_append, formsIn_inflect, htwo slot hslot, Option.some_or]
        exact NoteKey.stands_of_formsIn hforms hrows Nat.one_lt_two
      exact List.forall_mem_cons.mpr ⟨hstands _ (by decide),
        List.forall_mem_singleton.mpr (hstands _ (by decide))⟩

theorem notesStand_irregular {t : Tables} (ht : t.NotesStand) {w : Lexeme} {p : Paradigm}
    (h : irregular t w = .ok p) : p.NotesStand := by
  unfold irregular at h
  split at h
  · obtain ⟨q, hq, h⟩ := bind_eq_ok.mp h
    cases h
    exact Paradigm.notesStand_of_empty (show q.notes = ∅ from notes_firstSecond hq)
  · obtain ⟨q, hq, h⟩ := bind_eq_ok.mp h
    have hmem : q ∈ t.irregularAdjectives := Tables.mem_of_irregularAdjective hq
    cases h
    refine Paradigm.notesStand_of_entries fun entry hentry => ?_
    refine (NoteKey.stands_congr fun slot => ?_).mp (ht.adjectives q hmem entry hentry)
    exact (q.length_forms_formsFor w.stem slot).symm

/-- A class of adjectives gives notes to forms alone. -/
theorem notesStand_decline {e : Engine} (ht : e.tables.NotesStand) {w : Lexeme} {c : Class}
    {p : Paradigm} (h : decline e w c = .ok p) : p.NotesStand := by
  cases c with
  | firstSecond => exact Paradigm.notesStand_of_empty (notes_firstSecond h)
  | irregular => exact notesStand_irregular ht h
  | thirdOne =>
    obtain rfl := Except.ok.inj h
    exact notesStand_thirdOne w
  | comparative =>
    obtain rfl := Except.ok.inj h
    exact notesStand_comparative w
  | participle =>
    obtain rfl := Except.ok.inj h
    exact notesStand_participle e.options w
  | _ =>
    obtain rfl := Except.ok.inj h
    exact Paradigm.notesStand_of_empty rfl

end Adjective

/-- Every note that declining a word yields is on a form that it yields, for every class and all
irregular words, except for Greek i-stems: their notes are left over where a trait of gender, of a
case or of the type in -polis gives their accusative or ablative fewer forms. -/
theorem notesStand_latin_iff (o : Options) (w : Lexeme) (p : Paradigm) :
    (∀ c, Noun.decline ⟨.latin, o⟩ w c = .ok p → (p.NotesStand ↔
      ¬ (c = .third ∧ Noun.Third.greek? w = some .iStem ∧ Noun.Third.CutsNoted w))) ∧
    (∀ c, Adjective.decline ⟨.latin, o⟩ w c = .ok p → p.NotesStand) :=
  ⟨fun _ h => Noun.notesStand_decline_iff Tables.notesStand_latin h,
    fun _ h => Adjective.notesStand_decline Tables.notesStand_latin h⟩

/-- The Greek i-stem basis, with further tags. -/
def basis (tags : TagSet) : Lexeme where
  stem := "basis"
  oblique := some "bas"
  tags := [.has .Greek, .has .I] ++ tags
  pos := "nouns"

/-- A Greek i-stem that keeps its three accusatives, and a participle. -/
theorem notesStand_of_basis_and_amans :
    ∃ p q, Noun.decline ⟨.latin, {}⟩ (basis []) .third = .ok p ∧ p.NotesStand ∧
      Adjective.decline ⟨.latin, {}⟩
        { stem := "amāns", oblique := some "amant", pos := "participles" } .participle = .ok q ∧
      q.NotesStand := by
  obtain ⟨p, hp⟩ : ∃ p, Noun.decline ⟨.latin, {}⟩ (basis []) .third = .ok p := ⟨_, rfl⟩
  obtain ⟨q, hq⟩ : ∃ q, Adjective.decline ⟨.latin, {}⟩
      { stem := "amāns", oblique := some "amant", pos := "participles" } .participle = .ok q :=
    ⟨_, rfl⟩
  refine ⟨p, q, hp, ((notesStand_latin_iff {} _ p).1 _ hp).mpr ?_, hq,
    (notesStand_latin_iff {} _ q).2 _ hq⟩
  rintro ⟨-, -, hcuts⟩
  cases hcuts with
  | neuter h | accusative h | ablative h | polis h => cases h

/-- With one accusative of its own, the note on the third one is left. -/
theorem not_notesStand_of_basis :
    ∃ p, Noun.decline ⟨.latin, {}⟩ (basis [.has .accIm]) .third = .ok p ∧
      p.forms.forms (sg .acc) = ["basim"] ∧ .form (sg .acc) 2 ∈ p.notes.keys ∧
      ¬ p.NotesStand := by
  obtain ⟨p, hp, hforms, hkey⟩ : ∃ p,
      Noun.decline ⟨.latin, {}⟩ (basis [.has .accIm]) .third = .ok p ∧
      p.forms.forms (sg .acc) = ["basim"] ∧ .form (sg .acc) 2 ∈ p.notes.keys :=
    ⟨_, rfl, by decide, by decide⟩
  refine ⟨p, hp, hforms, hkey, fun h => ?_⟩
  have hplace : 2 < (p.forms.forms (sg .acc)).length := h _ hkey
  rw [hforms] at hplace
  exact absurd hplace (by decide)

end Declension
