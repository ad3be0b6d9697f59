import Declension.Proofs.Distinct
import Declension.Proofs.Ending
import Declension.Proofs.Ligatures
import Declension.Proofs.Validation
import Declension.Tables.Latin

/-!
# The forms a paradigm lists

Declining a word by the tables of Latin fills plain slots only and lists no form twice in one. The
forms of one nominative are about equally long, and a bracket in them stands in a stem.
-/
namespace Declension

/-- Whether the lemma may stand in a slot. -/
def Slot.isNominative : Slot → Bool
  | cell .nom _ _ => true
  | _ => false

/-- Whether two texts are about equally long, also with their ligatures spelt out. -/
structure IsNear (text other : List Char) : Prop where
  lt : text.length < other.length + 4
  gt : other.length < text.length + 4
  ligatures : text.countP isLigature = other.countP isLigature

namespace IsNear
variable {text other : List Char}

instance : Decidable (IsNear text other) :=
  decidable_of_iff (text.length < other.length + 4 ∧ other.length < text.length + 4 ∧
      text.countP isLigature = other.countP isLigature)
    ⟨fun ⟨lt, gt, ligatures⟩ => ⟨lt, gt, ligatures⟩, fun h => ⟨h.lt, h.gt, h.ligatures⟩⟩

theorem refl (text : List Char) : IsNear text text := ⟨by omega, by omega, rfl⟩

theorem symm (h : IsNear text other) : IsNear other text := ⟨h.gt, h.lt, h.ligatures.symm⟩

theorem append_left (h : IsNear text other) (front : List Char) :
    IsNear (front ++ text) (front ++ other) := by
  obtain ⟨hlt, hgt, hligatures⟩ := h
  constructor
  · simp only [List.length_append]
    omega
  · simp only [List.length_append]
    omega
  · rw [List.countP_append, List.countP_append, hligatures]

end IsNear

/-- Forms as a slot of a paradigm lists them, those of a nominative with a bracket, by which a link
may start, only if there are brackets. -/
structure IsTidy (brackets : Prop) (row : Slot × List String) : Prop where
  plain : row.1.isLinked = false
  nodup : row.2.Nodup
  bare : row.1.isNominative → ∀ form ∈ row.2, '[' ∈ form.toList → brackets
  near : row.1.isNominative → row.2.Pairwise fun form other => IsNear form.toList other.toList

instance (brackets : Prop) [Decidable brackets] (row : Slot × List String) :
    Decidable (IsTidy brackets row) :=
  decidable_of_iff (row.1.isLinked = false ∧ row.2.Nodup ∧
      (row.1.isNominative → ∀ form ∈ row.2, '[' ∈ form.toList → brackets) ∧
      (row.1.isNominative → row.2.Pairwise fun form other => IsNear form.toList other.toList))
    ⟨fun ⟨plain, nodup, bare, near⟩ => ⟨plain, nodup, bare, near⟩,
      fun h => ⟨h.plain, h.nodup, h.bare, h.near⟩⟩

/-- Whether all rows are tidy. -/
def AreTidy (brackets : Prop) (rows : Rows) : Prop := ∀ row ∈ rows, IsTidy brackets row

instance (brackets : Prop) [Decidable brackets] (rows : Rows) : Decidable (AreTidy brackets rows) :=
  inferInstanceAs (Decidable (∀ row ∈ rows, IsTidy brackets row))

/-- Whether a paradigm lists its forms tidily. -/
def FormMap.AreTidy (brackets : Prop) (m : FormMap) : Prop :=
  ∀ slot forms, m.get? slot = some forms → IsTidy brackets (slot, forms)

section Rows
variable {brackets : Prop} {slot : Slot} {forms : List String} {rows more : Rows}

theorem isTidy_single {form : String} (hplain : slot.isLinked = false)
    (h : '[' ∈ form.toList → brackets) : IsTidy brackets (slot, [form]) where
  plain := hplain
  nodup := List.nodup_singleton _
  bare := by simpa using fun _ => h
  near := by simp

theorem areTidy_map {slots : List Slot} {form : String}
    (hplain : ∀ slot ∈ slots, slot.isLinked = false) (h : '[' ∈ form.toList → brackets) :
    AreTidy brackets (slots.map fun slot => (slot, [form])) := by
  intro row hrow
  obtain ⟨slot, hslot, rfl⟩ := List.mem_map.mp hrow
  exact isTidy_single (hplain slot hslot) h

theorem areTidy_pair {other : Slot} {form : String} (hslot : slot.isLinked = false)
    (hother : other.isLinked = false) (h : '[' ∈ form.toList → brackets) :
    AreTidy brackets [(slot, [form]), (other, [form])] :=
  areTidy_map (by simp [hslot, hother] : ∀ s ∈ [slot, other], s.isLinked = false) h

theorem IsTidy.move (h : IsTidy brackets (slot, forms)) {other : Slot}
    (hplain : other.isLinked = false) (hoblique : other.isNominative = false) :
    IsTidy brackets (other, forms) where
  plain := hplain
  nodup := h.nodup
  bare := fun hnom => by simp [hoblique] at hnom
  near := fun hnom => by simp [hoblique] at hnom

theorem IsTidy.isNear (h : IsTidy brackets (slot, forms)) (hnom : slot.isNominative)
    {form other : String} (hform : form ∈ forms) (hother : other ∈ forms) :
    IsNear form.toList other.toList :=
  (h.near hnom).forall_of_forall_of_flip (fun form _ => IsNear.refl form.toList)
    ((h.near hnom).imp IsNear.symm) hform hother

theorem AreTidy.append (h : AreTidy brackets rows) (hmore : AreTidy brackets more) :
    AreTidy brackets (rows ++ more) :=
  List.forall_mem_append.mpr ⟨h, hmore⟩

theorem AreTidy.nil : AreTidy brackets [] := fun _ h => nomatch h

theorem AreTidy.ite {b : Bool} (h : AreTidy brackets rows) (hmore : AreTidy brackets more) :
    AreTidy brackets (if b then rows else more) := by
  split
  · exact h
  · exact hmore

/-- A stem keeps its endings apart. -/
theorem AreTidy.inflect {stem : String} (h : AreTidy False rows)
    (hstem : '[' ∈ stem.toList → brackets) :
    AreTidy brackets (FormMap.inflect stem rows) := by
  intro row hrow
  obtain ⟨⟨slot, tails⟩, hmem, rfl⟩ := List.mem_map.mp hrow
  have hrow := h _ hmem
  refine ⟨hrow.plain, hrow.nodup.map fun t u htu => (String.append_right_inj stem).mp htu, ?_, ?_⟩
  · intro hnom form hform hbracket
    obtain ⟨tail, htail, rfl⟩ := List.mem_map.mp hform
    rw [String.toList_append, List.mem_append] at hbracket
    exact hbracket.elim hstem fun hbracket => (hrow.bare hnom tail htail hbracket).elim
  · intro hnom
    refine List.pairwise_map.mpr ((hrow.near hnom).imp fun hnear => ?_)
    rw [String.toList_append, String.toList_append]
    exact hnear.append_left stem.toList

theorem AreTidy.of_bare (h : AreTidy False rows) : AreTidy brackets rows := fun row hrow =>
  { h row hrow with
    bare := fun hnom form hform hbracket => ((h row hrow).bare hnom form hform hbracket).elim }

end Rows

namespace FormMap
variable {brackets : Prop} {m : FormMap} {rows : Rows}

theorem areTidy_ofList (h : Declension.AreTidy brackets rows) :
    AreTidy brackets (.ofList rows) := by
  intro slot forms hget
  rw [OrderedMap.get?_ofList] at hget
  exact h _ (List.mem_reverse.mp (OrderedMap.mem_of_find hget))

theorem areTidy_of_entries (h : Declension.AreTidy brackets m.entries) : AreTidy brackets m :=
  fun _ _ hget => h _ (OrderedMap.mem_of_find hget)

theorem AreTidy.insert (h : AreTidy brackets m) {slot : Slot} {forms : List String}
    (hrow : IsTidy brackets (slot, forms)) : AreTidy brackets (m.insert slot forms) := by
  intro other found hget
  rw [OrderedMap.get?_insert] at hget
  split at hget
  · cases hget
    exact ‹slot = other› ▸ hrow
  · exact h other found hget

theorem AreTidy.insertMany (h : AreTidy brackets m) (hrows : Declension.AreTidy brackets rows) :
    AreTidy brackets (m.insertMany rows) := by
  intro slot forms hget
  rw [OrderedMap.get?_insertMany, Option.or_eq_some_iff] at hget
  rcases hget with hget | ⟨-, hget⟩
  · exact hrows _ (List.mem_reverse.mp (OrderedMap.mem_of_find hget))
  · exact h slot forms hget

theorem AreTidy.forms (h : AreTidy brackets m) (slot : Slot) {other : Slot}
    (hplain : other.isLinked = false) (hoblique : other.isNominative = false) :
    IsTidy brackets (other, m.forms slot) := by
  unfold FormMap.forms
  cases hget : m.get? slot with
  | none => exact ⟨hplain, List.nodup_nil, by simp, by simp⟩
  | some forms => exact (h slot forms hget).move hplain hoblique

theorem AreTidy.bare (h : AreTidy brackets m) {slot : Slot} (hnom : slot.isNominative) :
    ∀ form ∈ m.forms slot, '[' ∈ form.toList → brackets := by
  unfold FormMap.forms
  cases hget : m.get? slot with
  | none => simp
  | some forms => exact (h slot forms hget).bare hnom

theorem AreTidy.nodup (h : AreTidy brackets m) (slot : Slot) : (m.forms slot).Nodup := by
  unfold FormMap.forms
  cases hget : m.get? slot with
  | none => exact List.nodup_nil
  | some forms => exact (h slot forms hget).nodup

end FormMap

namespace Text

theorem mem_of_mem_line {c : Char} {s : List Char} (h : c ∈ line s) : c ∈ s := by
  unfold line at h
  split at h
  · exact List.dropLast_subset s h
  · exact h

theorem mem_of_before {ending s front : String} (h : before ending s = some front) {c : Char}
    (hc : c ∈ front.toList) : c ∈ s.toList := by
  obtain ⟨l, hl, rfl⟩ := Option.map_eq_some_iff.mp h
  unfold beforeChars at hl
  dsimp only at hl
  split at hl
  · cases hl
    rw [String.toList_ofList] at hc
    exact mem_of_mem_line (List.mem_of_mem_take hc)
  · cases hl

end Text

theorem mem_of_stemBefore {form ending stem : String} (h : stemBefore form ending = .ok stem)
    {c : Char} (hc : c ∈ stem.toList) : c ∈ form.toList := by
  unfold stemBefore at h
  split at h
  · cases h
    exact Text.mem_of_before ‹_› hc
  · cases h

/-- Whether brackets in a stem of a word make for brackets. -/
structure Lexeme.BracketsImply (brackets : Prop) (w : Lexeme) : Prop where
  stem : '[' ∈ w.stem.toList → brackets
  oblique : '[' ∈ w.obliqueStem.toList → brackets

theorem Lexeme.BracketsImply.append {brackets : Prop} {w : Lexeme} (hw : w.BracketsImply brackets)
    {ending : String} (h : '[' ∉ ending.toList) : '[' ∈ (w.stem ++ ending).toList → brackets := by
  rw [String.toList_append, List.mem_append]
  exact fun hbracket => hw.stem (hbracket.resolve_right h)

theorem Lexeme.bracketsImply_of_stems {brackets : Prop} {w : Lexeme}
    (stem : '[' ∈ w.stem.toList → brackets)
    (oblique : ∀ text, w.oblique = some text → '[' ∈ text.toList → brackets) :
    w.BracketsImply brackets := by
  refine ⟨stem, ?_⟩
  unfold obliqueStem
  cases hgiven : given w.oblique with
  | none => exact stem
  | some text => exact oblique text (Option.filter_eq_some_iff.mp hgiven).1

namespace IrregularParadigm
variable {q : IrregularParadigm} {word : String}

/-- A filled form before its characters are put together. -/
def fillChars (word form : String) : List Char :=
  Text.substitute (Text.fixed "\x7binitial\x7d".toList (word.toList.take 1))
    (Text.substitute (Text.fixed "\x7blemma\x7d".toList word.toList) form.toList)

theorem toList_fill (word form : String) : (fill word form).toList = fillChars word form := by
  simp only [fill, fillChars, Text.replace, String.toList_ofList]

/-- Rows are tidy once filled if their forms are as lists of characters, which are cheaper to
compute than texts. -/
theorem areTidy_formsFor
    (hplain : ∀ row ∈ q.forms.entries, row.1.isLinked = false)
    (hnodup : ∀ row ∈ q.forms.entries, (row.2.map (fillChars word)).Nodup)
    (hbare : ∀ row ∈ q.forms.entries, row.1.isNominative → ∀ form ∈ row.2,
      '[' ∉ fillChars word form)
    (hnear : ∀ row ∈ q.forms.entries, row.1.isNominative →
      (row.2.map (fillChars word)).Pairwise IsNear) :
    AreTidy False (q.formsFor word).entries := by
  have hfill : ∀ forms : List String,
      (forms.map (fill word)).map String.toList = forms.map (fillChars word) := by
    intro forms
    rw [List.map_map]
    exact List.map_congr_left fun form _ => toList_fill word form
  intro row hrow
  obtain ⟨⟨slot, forms⟩, hmem, rfl⟩ := List.mem_map.mp hrow
  refine ⟨hplain (slot, forms) hmem, List.Nodup.of_map String.toList ?_, ?_, fun hnom => ?_⟩
  · exact hfill forms ▸ hnodup _ hmem
  · intro hnom form hform
    obtain ⟨raw, hraw, rfl⟩ := List.mem_map.mp hform
    rw [toList_fill]
    exact hbare _ hmem hnom raw hraw
  · have hfilled := hfill forms ▸ hnear _ hmem hnom
    rwa [List.pairwise_map] at hfilled

end IrregularParadigm

/-- Whether the irregular paradigms list their forms tidily. -/
def Tables.AreTidy (t : Tables) : Prop :=
  ∀ q ∈ t.irregularNouns ++ t.irregularAdjectives, ∀ word ∈ q.words,
    Declension.AreTidy False (q.formsFor word).entries

namespace Noun
open FormMap
variable {brackets : Prop} {w : Lexeme}

theorem areTidy_first (hw : w.BracketsImply brackets) : (first w).forms.AreTidy brackets := by
  have hrows : Declension.AreTidy False (First.endings w) := by
    unfold First.endings
    refine ((AreTidy.append ?_ (.ite ?_ .nil)).append (.ite ?_ ?_)).append (.ite ?_ .nil)
    · decide
    · decide
    · decide
    · refine .ite .nil (.ite ?_ (.ite ?_ ?_)) <;> decide
    · decide
  apply areTidy_ofList
  exact hrows.inflect hw.stem

theorem areTidy_second (o : Options) (hw : w.BracketsImply brackets) :
    (second o w).forms.AreTidy brackets := by
  have hneuter : Declension.AreTidy False (Second.neuterType w) := by
    unfold Second.neuterType
    refine .ite ?_ (.ite ?_ (.ite ?_ (.ite ?_ (.ite ?_ (.ite ?_ .nil))))) <;> decide
  have hius : ∀ voci, Declension.AreTidy False (Second.inIus voci) := by
    decide
  have hstem : Declension.AreTidy False (Second.onStem o w) := by
    unfold Second.onStem
    refine (AreTidy.append ?_ (.ite (.append ?_ hneuter) (.ite ?_ (.ite (hius _) (.ite ?_
      (.ite ?_ .nil)))))).append (.ite ?_ .nil) <;> decide
  have hgenitive : ∀ b : Bool, Declension.AreTidy False
      [(Slot.pl .gen, if b then ["iōrum", "ium"] else ["ōrum", "um"])] := by
    decide
  have hoblique : Declension.AreTidy False (Second.onOblique w) := by
    unfold Second.onOblique
    refine (AreTidy.append (.ite ?_ .nil) (.ite (hgenitive _) .nil)).append
      (.ite (.ite ?_ ?_) .nil) <;> decide
  apply areTidy_ofList
  exact (hstem.inflect hw.stem).append (hoblique.inflect hw.oblique)

namespace Third

theorem mem_of_greekStem {stem : String} (h : greekStem w = .ok stem) {c : Char}
    (hc : c ∈ stem.toList) : c ∈ w.stem.toList := by
  unfold greekStem at h
  split at h
  · exact mem_of_stemBefore h hc
  · exact mem_of_stemBefore h hc
  · cases h
    exact hc

theorem mem_of_bareStem {greek stem : String} (h : bareStem w greek = .ok stem) {c : Char}
    (hc : c ∈ stem.toList) : c ∈ greek.toList := by
  unfold bareStem at h
  split at h
  · exact mem_of_stemBefore h hc
  · cases h
    exact hc

/-- A stem that ends in the -s it drops differs from what is left. -/
theorem isTidy_dropsS (hends : Text.endsIn "s" w.stem) :
    IsTidy brackets (Slot.sg .voc, [w.stem, Text.dropEnding "s" w.stem]) := by
  obtain ⟨front, hfront⟩ := endsIn_iff.mp hends
  have hdrop : (Text.dropEnding "s" w.stem).toList = front := by
    unfold Text.dropEnding
    rw [if_pos hends, hfront]
    simp
  have hne : w.stem ≠ Text.dropEnding "s" w.stem := by
    intro heq
    have := congrArg (·.toList.length) heq
    simp [hdrop, hfront] at this
  exact ⟨rfl, by simp [hne], by simp [Slot.isNominative], by simp [Slot.isNominative]⟩

theorem areTidy_greekForms (hends : dropsS w.stem → Text.endsIn "s" w.stem)
    (hw : w.BracketsImply brackets) {greekStem : String}
    (hgreek : '[' ∈ greekStem.toList → brackets) :
    Declension.AreTidy brackets (greekForms w greekStem) := by
  have hpoetic : ∀ b, Declension.AreTidy False (greekIStem b) := by
    decide
  have hplain : Declension.AreTidy False (greekPlain w.obliqueStem) := by
    unfold greekPlain
    generalize Text.endsIn "y" w.obliqueStem = b
    revert b
    decide
  unfold greekForms
  split
  · exact .nil
  · exact AreTidy.inflect (by decide) hgreek
  · exact AreTidy.inflect (by decide) hgreek
  · exact (hpoetic _).inflect hw.oblique
  · refine (hplain.inflect hw.oblique).append ?_
    split
    · exact List.forall_mem_singleton.mpr (isTidy_dropsS (hends ‹_›))
    · exact .nil

theorem areTidy_iStem (o : Options) (w : Lexeme) :
    Declension.AreTidy False (iStem o w) := by
  have hbase : ∀ b : Bool, Declension.AreTidy False
      [(.pl .gen, ["ium"]), (.pl .acc, if b then ["ēs"] else ["ēs", "īs"])] := by
    decide
  have haccusative : ∀ a ∈ accusatives, IsTidy False (.sg .acc, a.endings) := by
    decide
  have hablative : ∀ a ∈ ablatives, IsTidy False (.sg .abl, a.endings) := by
    decide
  unfold iStem
  refine ((hbase _).append fun row hrow => ?_).append fun row hrow => ?_
  all_goals
    rw [Option.mem_toList, Option.map_eq_some_iff] at hrow
    obtain ⟨a, ha, rfl⟩ := hrow
  · exact haccusative a (List.mem_of_find?_eq_some ha)
  · exact hablative a (List.mem_of_find?_eq_some ha)

theorem areTidy_kindForms (o : Options) (hw : w.BracketsImply brackets) {bareStem : String}
    (hbare : '[' ∈ bareStem.toList → brackets) :
    Declension.AreTidy brackets (kindForms o w bareStem) := by
  have hneuter : Declension.AreTidy False
      (if !w.has .I then neuter else if w.has .pure then neuterPure else neuterIStem) := by
    refine .ite ?_ (.ite ?_ ?_) <;> decide
  unfold kindForms
  refine .ite ?_ (.ite ?_ .nil)
  · exact List.forall_mem_cons.mpr
      ⟨isTidy_single rfl hbare, hneuter.inflect hw.oblique⟩
  · exact (areTidy_iStem o w).inflect hw.oblique

theorem areTidy_addLocative {m : FormMap} (h : m.AreTidy brackets) :
    (addLocative m).AreTidy brackets := by
  have hdative : IsTidy brackets (.sg .loc, m.forms (.sg .dat)) := h.forms _ rfl rfl
  have hboth : IsTidy brackets (.sg .loc, addNew (m.forms (.sg .dat)) (m.forms (.sg .abl))) :=
    ⟨rfl, nodup_addNew hdative.nodup _, by simp [Slot.isNominative], by simp [Slot.isNominative]⟩
  exact (h.insert hboth).insert (h.forms _ rfl rfl)

end Third

theorem areTidy_third {o : Options} {p : Paradigm}
    (hends : Third.dropsS w.stem → Text.endsIn "s" w.stem)
    (hw : w.BracketsImply brackets) (h : third o w = .ok p) : p.forms.AreTidy brackets := by
  obtain ⟨greek, hgreek, h⟩ := bind_eq_ok.mp h
  obtain ⟨bare, hbare, h⟩ := bind_eq_ok.mp h
  cases h
  have hgreek : '[' ∈ greek.toList → brackets := fun hbracket =>
    hw.stem (Third.mem_of_greekStem hgreek hbracket)
  have hbare : '[' ∈ bare.toList → brackets := fun hbracket =>
    hgreek (Third.mem_of_bareStem hbare hbracket)
  have hnominative : Declension.AreTidy brackets [(.sg .nom, [w.stem]), (.sg .voc, [w.stem])] :=
    areTidy_pair rfl rfl hw.stem
  have hrows : Declension.AreTidy brackets ([(.sg .nom, [w.stem]), (.sg .voc, [w.stem])]
      ++ inflect w.obliqueStem Third.oblique ++ Third.greekForms w greek
      ++ (if w.has .polis then inflect bare Third.inPolis else [])
      ++ Third.kindForms o w bare) := by
    refine (((hnominative.append ?_).append (Third.areTidy_greekForms hends hw hgreek)).append
      (.ite ?_ .nil)).append (Third.areTidy_kindForms o hw hbare)
    · exact AreTidy.inflect (by decide) hw.oblique
    · exact AreTidy.inflect (by decide) hbare
  simp only [Third.forms]
  split
  · exact Third.areTidy_addLocative (areTidy_ofList hrows)
  · exact areTidy_ofList hrows

theorem Fourth.areTidy_addLocative {m : FormMap} (h : m.AreTidy brackets) :
    (Fourth.addLocative m).AreTidy brackets :=
  (h.insert (h.forms _ rfl rfl)).insert (h.forms _ rfl rfl)

theorem areTidy_fourth (hw : w.BracketsImply brackets) : (fourth w).forms.AreTidy brackets := by
  have hrows : Declension.AreTidy False (Fourth.endings w) := by
    unfold Fourth.endings
    refine ((AreTidy.append ?_ (.ite ?_ (.ite ?_ (.ite ?_ .nil)))).append (.ite ?_ .nil)).append
      (.ite ?_ .nil) <;> decide
  have hrows := hrows.inflect hw.stem
  simp only [fourth]
  split
  · exact Fourth.areTidy_addLocative (areTidy_ofList hrows)
  · exact areTidy_ofList hrows

theorem areTidy_fifth (hw : w.BracketsImply brackets) : (fifth w).forms.AreTidy brackets := by
  have hrows : Declension.AreTidy False (Fifth.endings w) := by
    unfold Fifth.endings
    refine (AreTidy.append ?_ (.ite ?_ .nil)).append (.ite ?_ .nil) <;> decide
  have hstem : '[' ∈ (Fifth.stem w).toList → brackets := by
    unfold Fifth.stem
    split
    · exact hw.append (by decide)
    · exact hw.stem
  apply areTidy_ofList
  exact hrows.inflect hstem

theorem areTidy_uniform {form : String} (h : '[' ∈ form.toList → brackets) :
    Declension.AreTidy brackets (uniform form) :=
  areTidy_map (by decide) h

theorem areTidy_noForm : Declension.AreTidy brackets (uniform noForm) := by
  have hdash : '[' ∉ noForm.toList := by decide
  exact areTidy_uniform fun hbracket => absurd hbracket hdash

theorem areTidy_invariable (hw : w.BracketsImply brackets) :
    (invariable w).forms.AreTidy brackets := by
  apply areTidy_ofList
  refine (areTidy_uniform hw.stem).append (.ite ?_ .nil)
  exact areTidy_pair rfl rfl hw.stem

theorem areTidy_indeclinable (hw : w.BracketsImply brackets) :
    (indeclinable w).forms.AreTidy brackets := by
  apply areTidy_ofList
  exact areTidy_noForm.append (areTidy_pair rfl rfl hw.stem)

theorem areTidy_irregular {t : Tables} (ht : t.AreTidy) {p : Paradigm}
    (h : irregular t w = .ok p) : p.forms.AreTidy brackets := by
  obtain ⟨q, hq, h⟩ := bind_eq_ok.mp h
  cases h
  have hword : w.stem ∈ q.words := by
    simpa using List.find?_some (Tables.irregularNoun_eq_ok.mp hq)
  have hrows := ht q (List.mem_append_left _ (Tables.mem_of_irregularNoun hq)) w.stem hword
  apply areTidy_ofList
  exact areTidy_noForm.append hrows.of_bare

theorem areTidy_decline {e : Engine} (ht : e.tables.AreTidy)
    (hends : Third.dropsS w.stem → Text.endsIn "s" w.stem) (hw : w.BracketsImply brackets)
    {c : Class} {p : Paradigm} (h : decline e w c = .ok p) : p.forms.AreTidy brackets := by
  cases c with
  | first => exact Except.ok.inj h ▸ areTidy_first hw
  | second => exact Except.ok.inj h ▸ areTidy_second e.options hw
  | third => exact areTidy_third hends hw h
  | fourth => exact Except.ok.inj h ▸ areTidy_fourth hw
  | fifth => exact Except.ok.inj h ▸ areTidy_fifth hw
  | invariable => exact Except.ok.inj h ▸ areTidy_invariable hw
  | indeclinable => exact Except.ok.inj h ▸ areTidy_indeclinable hw
  | irregular => exact areTidy_irregular ht h

end Noun

namespace Adjective
open FormMap
variable {brackets : Prop} {w : Lexeme}

theorem areTidy_indeclinable (hw : w.BracketsImply brackets) :
    (indeclinable w).forms.AreTidy brackets := by
  apply areTidy_ofList
  intro row hrow
  obtain ⟨c, -, hrow⟩ := List.mem_flatMap.mp hrow
  simp only [List.mem_cons, List.not_mem_nil, or_false] at hrow
  rcases hrow with rfl | rfl
  · exact isTidy_single rfl hw.stem
  · exact isTidy_single rfl hw.stem

theorem FirstSecond.areTidy_forms (hw : w.BracketsImply brackets) :
    (FirstSecond.forms w).AreTidy brackets := by
  have hregular : Declension.AreTidy False (rows (endings w)) := by
    unfold endings
    generalize w.has .greekA = a
    generalize w.has .greekE = b
    revert a b
    decide
  have hhic : Declension.AreTidy False (hicType (stem w)) := by
    unfold hicType
    by_cases hill : stem w = "ill"
    · simp only [if_pos hill]
      decide
    · simp only [if_neg hill]
      decide
  have hstem : '[' ∈ (stem w).toList → brackets := by
    unfold stem
    split
    · exact hw.oblique
    · exact hw.stem
  have hme : '[' ∉ "mī".toList := by decide
  have hlemma : Declension.AreTidy brackets [(.sgm .nom, [w.stem]), (.sgm .voc, [w.stem])] :=
    areTidy_pair rfl rfl hw.stem
  unfold forms
  apply areTidy_ofList
  refine ((((hregular.inflect hstem).append (.ite hlemma .nil)).append
    (.ite ?_ .nil)).append ?_).append (.ite ?_ .nil)
  · exact AreTidy.inflect (by decide) hstem
  · split
    · exact List.forall_mem_singleton.mpr
        (isTidy_single rfl fun hbracket => absurd hbracket hme)
    · exact .nil
  · exact hhic.inflect hstem

theorem areTidy_firstSecond (hw : w.BracketsImply brackets) {p : Paradigm}
    (h : firstSecond w = .ok p) : p.forms.AreTidy brackets := by
  obtain ⟨r, _, h⟩ := bind_eq_ok.mp h
  have hforms : p.forms = FirstSecond.forms w := by rw [← Except.ok.inj h]
  rw [hforms]
  exact FirstSecond.areTidy_forms hw

theorem areTidy_firstFirst (hw : w.BracketsImply brackets) :
    (firstFirst w).forms.AreTidy brackets := by
  have hrows : Declension.AreTidy False FirstFirst.endings := by decide
  apply areTidy_ofList
  exact hrows.inflect hw.stem

theorem areTidy_secondSecond (hw : w.BracketsImply brackets) :
    (secondSecond w).forms.AreTidy brackets := by
  have hrows : ∀ greek, Declension.AreTidy False (SecondSecond.endings greek) := by
    decide
  apply areTidy_ofList
  exact (hrows _).inflect hw.stem

theorem ThirdOne.areTidy_forms (hw : w.BracketsImply brackets) :
    Declension.AreTidy brackets (ThirdOne.forms w) := by
  unfold ThirdOne.forms
  refine (((areTidy_map (by decide) hw.stem).append ?_).append (.ite ?_ .nil)).append (.ite ?_ .nil)
  all_goals
    apply AreTidy.inflect _ hw.oblique
    decide

theorem areTidy_thirdOne (hw : w.BracketsImply brackets) : (thirdOne w).forms.AreTidy brackets := by
  apply areTidy_ofList
  exact ThirdOne.areTidy_forms hw

theorem bracketsImply_asThirdOne (hw : w.BracketsImply brackets) :
    (Comparative.asThirdOne w).BracketsImply brackets := by
  apply Lexeme.bracketsImply_of_stems (hw.append (by decide))
  rintro oblique ⟨rfl⟩
  exact hw.append (by decide)

theorem areTidy_comparative (hw : w.BracketsImply brackets) :
    (comparative w).forms.AreTidy brackets := by
  have hus : '[' ∈ (w.stem ++ "us").toList → brackets := hw.append (by decide)
  apply areTidy_ofList
  refine (ThirdOne.areTidy_forms (bracketsImply_asThirdOne hw)).append ?_
  exact areTidy_map (by decide : ∀ slot ∈ [Slot.sgn .nom, .sgn .acc, .sgn .voc], _) hus

theorem areTidy_participle (o : Options) (hw : w.BracketsImply brackets) :
    (participle o w).forms.AreTidy brackets := by
  have hrows : Declension.AreTidy False (Participle.endings o w) := by
    unfold Participle.endings Participle.ablative
    generalize o.suppressAdjPtcForms = a
    generalize w.has .ptc = b
    revert a b
    decide
  apply areTidy_ofList
  exact (ThirdOne.areTidy_forms hw).append (hrows.inflect hw.oblique)

theorem areTidy_thirdTwo (hw : w.BracketsImply brackets) : (thirdTwo w).forms.AreTidy brackets := by
  have hrows : Declension.AreTidy False ThirdTwo.endings := by decide
  apply areTidy_ofList
  exact hrows.inflect hw.stem

theorem areTidy_thirdThree (hw : w.BracketsImply brackets) :
    (thirdThree w).forms.AreTidy brackets := by
  have hrows : Declension.AreTidy False
      (ThirdThree.nominatives ++ ThirdThree.common ++ ThirdThree.accusatives) := by
    decide
  apply areTidy_ofList
  exact (areTidy_pair rfl rfl hw.stem).append (hrows.inflect hw.oblique)

theorem areTidy_demonstrative (hw : w.BracketsImply brackets) {stem neuter : String}
    (hmem : (w.stem, stem, neuter) ∈ demonstratives) {p : Paradigm}
    (h : demonstrative w stem neuter = .ok p) : p.forms.AreTidy brackets := by
  have hbare : ∀ entry ∈ demonstratives,
      '[' ∉ entry.2.1.toList ∧ '[' ∉ entry.2.2.toList := by
    decide
  have hstem : '[' ∈ stem.toList → brackets := fun hbracket =>
    absurd hbracket (hbare _ hmem).1
  have hneuter : '[' ∈ neuter.toList → brackets := fun hbracket =>
    absurd hbracket (hbare _ hmem).2
  obtain ⟨q, hq, h⟩ := bind_eq_ok.mp h
  cases h
  have himply : (asPronominal w stem).BracketsImply brackets :=
    Lexeme.bracketsImply_of_stems hstem fun _ h => nomatch h
  have hq := areTidy_firstSecond himply hq
  refine hq.insertMany fun row hrow => ?_
  simp only [List.mem_cons, List.not_mem_nil, or_false] at hrow
  rcases hrow with rfl | rfl | rfl
  · exact isTidy_single rfl hw.stem
  · exact isTidy_single rfl hneuter
  · exact isTidy_single rfl hneuter

theorem areTidy_irregular {t : Tables} (ht : t.AreTidy) (hw : w.BracketsImply brackets)
    {p : Paradigm} (h : irregular t w = .ok p) : p.forms.AreTidy brackets := by
  unfold irregular at h
  split at h
  · rename_i stem neuter hlookup
    obtain ⟨front, back, hsplit, _⟩ := List.lookup_eq_some_iff.mp hlookup
    exact areTidy_demonstrative hw (by simp [hsplit]) h
  · obtain ⟨q, hq, h⟩ := bind_eq_ok.mp h
    cases h
    have hword : w.stem ∈ q.words := by
      simpa using List.find?_some (Tables.irregularAdjective_eq_ok.mp hq)
    have hrows := ht q (List.mem_append_right _ (Tables.mem_of_irregularAdjective hq)) w.stem hword
    exact areTidy_of_entries hrows.of_bare

theorem areTidy_decline {e : Engine} (ht : e.tables.AreTidy) (hw : w.BracketsImply brackets)
    {c : Class} {p : Paradigm} (h : decline e w c = .ok p) : p.forms.AreTidy brackets := by
  cases c with
  | indeclinable => exact Except.ok.inj h ▸ areTidy_indeclinable hw
  | firstSecond => exact areTidy_firstSecond hw h
  | firstFirst => exact Except.ok.inj h ▸ areTidy_firstFirst hw
  | secondSecond => exact Except.ok.inj h ▸ areTidy_secondSecond hw
  | thirdOne => exact Except.ok.inj h ▸ areTidy_thirdOne hw
  | comparative => exact Except.ok.inj h ▸ areTidy_comparative hw
  | participle => exact Except.ok.inj h ▸ areTidy_participle e.options hw
  | thirdTwo => exact Except.ok.inj h ▸ areTidy_thirdTwo hw
  | thirdThree => exact Except.ok.inj h ▸ areTidy_thirdThree hw
  | irregular => exact areTidy_irregular ht hw h

end Adjective

/-- With tidy tables every word lists its forms tidily, unless its stem is to drop an -s behind
which there is a line break. -/
theorem Segment.areTidy_paradigm {e : Engine} (ht : e.tables.AreTidy) {brackets : Prop}
    {s : Segment} {w : Lexeme} (hw : w.BracketsImply brackets)
    (hends : Noun.Third.dropsS w.stem → Text.endsIn "s" w.stem) {p : Paradigm}
    (h : s.paradigm e w = .ok p) :
    p.forms.AreTidy brackets := by
  obtain ⟨q, hq, hforms⟩ := exists_decline_of_paradigm h
  rw [hforms]
  unfold decline at hq
  split at hq
  · split at hq
    · exact Adjective.areTidy_decline ht hw hq
    · cases hq
  · split at hq
    · exact Noun.areTidy_decline ht hends hw hq
    · cases hq

theorem Tables.areTidy_latin : Tables.latin.AreTidy := by
  have hplain : ∀ q ∈ latin.irregularNouns ++ latin.irregularAdjectives,
      ∀ row ∈ q.forms.entries, row.1.isLinked = false := by
    decide +kernel
  have hnodup : ∀ q ∈ latin.irregularNouns ++ latin.irregularAdjectives, ∀ word ∈ q.words,
      ∀ row ∈ q.forms.entries, (row.2.map (IrregularParadigm.fillChars word)).Nodup := by
    decide +kernel
  have hbare : ∀ q ∈ latin.irregularNouns ++ latin.irregularAdjectives, ∀ word ∈ q.words,
      ∀ row ∈ q.forms.entries, row.1.isNominative → ∀ form ∈ row.2,
        '[' ∉ IrregularParadigm.fillChars word form := by
    decide +kernel
  have hnear : ∀ q ∈ latin.irregularNouns ++ latin.irregularAdjectives, ∀ word ∈ q.words,
      ∀ row ∈ q.forms.entries, row.1.isNominative →
        (row.2.map (IrregularParadigm.fillChars word)).Pairwise IsNear := by
    decide +kernel
  intro q hq word hword
  exact IrregularParadigm.areTidy_formsFor (hplain q hq) (hnodup q hq word hword)
    (hbare q hq word hword) (hnear q hq word hword)

end Declension
