import Declension.Proofs.Ending
import Declension.Proofs.NumberMirror

/-!
# Suppressed forms

The switches leave out the second of two genitives, accusatives or ablatives of a word, never the
only one. So with more of them on, every slot of a run has some of its forms left, and all of them
are forms it had; what is told of the run as a whole does not change. Main statement:
`compose_suppressing`.
-/
namespace Declension

/-- Whether options suppress whatever others suppress. -/
structure Options.Suppresses (more less : Options) : Prop where
  oldGenitive : less.suppressOldGenitive → more.suppressOldGenitive
  accIs : less.suppressNonNeuterIStemAccIs → more.suppressNonNeuterIStemAccIs
  adjPtc : less.suppressAdjPtcForms → more.suppressAdjPtcForms

/-- Of the forms some are left out, but not all. -/
structure Thinned (fewer forms : List String) : Prop where
  subset : fewer ⊆ forms
  filled : forms ≠ [] → fewer ≠ []

namespace Thinned
variable {fewer forms less more : List String}

theorem refl (forms : List String) : Thinned forms forms := ⟨fun _ h => h, id⟩

theorem map (h : Thinned fewer forms) (f : String → String) :
    Thinned (fewer.map f) (forms.map f) where
  subset := List.map_subset f h.subset
  filled hne := by
    rw [Ne, List.map_eq_nil_iff] at hne ⊢
    exact h.filled hne

/-- Forms that are turned into one or more each. -/
theorem flatMap (h : Thinned fewer forms) {f : String → List String} (hf : ∀ form, f form ≠ []) :
    Thinned (fewer.flatMap f) (forms.flatMap f) where
  subset := by
    intro form hform
    obtain ⟨source, hsource, hform⟩ := List.mem_flatMap.mp hform
    exact List.mem_flatMap.mpr ⟨source, h.subset hsource, hform⟩
  filled hne := by
    have hforms : forms ≠ [] := by
      rintro rfl
      exact hne rfl
    obtain ⟨form, hform⟩ := List.exists_mem_of_ne_nil fewer (h.filled hforms)
    rw [Ne, List.flatMap_eq_nil_iff]
    exact fun hnil => hf form (hnil form hform)

/-- Pairs of forms, of which some are left out on both sides. -/
theorem product (h : Thinned fewer forms) (hmore : Thinned less more) :
    Thinned (fewer.flatMap fun form => less.map (form ++ ·))
      (forms.flatMap fun form => more.map (form ++ ·)) where
  subset := by
    intro whole hwhole
    obtain ⟨form, hform, hwhole⟩ := List.mem_flatMap.mp hwhole
    exact List.mem_flatMap.mpr ⟨form, h.subset hform, List.map_subset _ hmore.subset hwhole⟩
  filled hne := by
    obtain ⟨whole, hwhole⟩ := List.exists_mem_of_ne_nil _ hne
    obtain ⟨form, hform, hwhole⟩ := List.mem_flatMap.mp hwhole
    obtain ⟨tail, htail, -⟩ := List.mem_map.mp hwhole
    obtain ⟨left, hleft⟩ := List.exists_mem_of_ne_nil _ (h.filled (List.ne_nil_of_mem hform))
    obtain ⟨right, hright⟩ :=
      List.exists_mem_of_ne_nil _ (hmore.filled (List.ne_nil_of_mem htail))
    exact List.ne_nil_of_mem
      (List.mem_flatMap.mpr ⟨left, hleft, List.mem_map_of_mem hright⟩)

theorem addNew (h : Thinned fewer forms) (hmore : Thinned less more) :
    Thinned (addNew fewer less) (addNew forms more) where
  subset := by
    intro form hform
    rw [mem_addNew] at hform ⊢
    exact hform.imp (h.subset ·) (hmore.subset ·)
  filled hne := by
    obtain ⟨form, hform⟩ := List.exists_mem_of_ne_nil _ hne
    rcases (mem_addNew _ _).mp hform with hform | hform
    · obtain ⟨left, hleft⟩ := List.exists_mem_of_ne_nil _ (h.filled (List.ne_nil_of_mem hform))
      exact List.ne_nil_of_mem ((mem_addNew _ _).mpr (.inl hleft))
    · obtain ⟨left, hleft⟩ :=
        List.exists_mem_of_ne_nil _ (hmore.filled (List.ne_nil_of_mem hform))
      exact List.ne_nil_of_mem ((mem_addNew _ _).mpr (.inr hleft))

end Thinned

/-- Rows for the same slots, of which the first have some forms left out. -/
abbrev RowsThinned (left rows : Rows) : Prop :=
  List.Forall₂ (fun a b => a.1 = b.1 ∧ Thinned a.2 b.2) left rows

namespace RowsThinned

theorem refl (rows : Rows) : RowsThinned rows rows := by
  rw [RowsThinned, List.forall₂_same]
  exact fun row _ => ⟨rfl, .refl row.2⟩

theorem append {left rows left' rows' : Rows} (h : RowsThinned left rows)
    (h' : RowsThinned left' rows') : RowsThinned (left ++ left') (rows ++ rows') :=
  List.rel_append h h'

theorem inflect {left rows : Rows} (h : RowsThinned left rows) (stem : String) :
    RowsThinned (FormMap.inflect stem left) (FormMap.inflect stem rows) := by
  unfold FormMap.inflect RowsThinned
  rw [List.forall₂_map_left_iff, List.forall₂_map_right_iff]
  exact h.imp fun _ _ hrow => ⟨hrow.1, hrow.2.map _⟩

end RowsThinned

namespace FormMap

/-- Maps of the same slots, of which the first has some forms left out. -/
def Thinned (fewer m : FormMap) : Prop :=
  ∀ slot, Option.Rel Declension.Thinned (fewer.get? slot) (m.get? slot)

namespace Thinned
variable {fewer m : FormMap}

theorem refl (m : FormMap) : m.Thinned m := by
  intro slot
  cases m.get? slot with
  | none => exact .none
  | some forms => exact .some (.refl forms)

theorem get? (h : fewer.Thinned m) (slot : Slot) :
    fewer.get? slot = none ∧ m.get? slot = none ∨ ∃ left forms, fewer.get? slot = some left ∧
      m.get? slot = some forms ∧ Declension.Thinned left forms := by
  have hslot := h slot
  generalize fewer.get? slot = left at hslot
  generalize m.get? slot = forms at hslot
  cases hslot with
  | none => exact .inl ⟨rfl, rfl⟩
  | some hforms => exact .inr ⟨_, _, rfl, rfl, hforms⟩

theorem forms (h : fewer.Thinned m) (slot : Slot) :
    Declension.Thinned (fewer.forms slot) (m.forms slot) := by
  unfold FormMap.forms
  rcases h.get? slot with ⟨hfewer, hm⟩ | ⟨left, forms, hfewer, hm, hforms⟩
  · rw [hfewer, hm]
    exact .refl []
  · rw [hfewer, hm]
    exact hforms

theorem contains (h : fewer.Thinned m) (slot : Slot) : fewer.contains slot = m.contains slot := by
  unfold OrderedMap.contains
  rcases h.get? slot with ⟨hfewer, hm⟩ | ⟨left, forms, hfewer, hm, -⟩
  · rw [hfewer, hm]
  · rw [hfewer, hm]
    rfl

theorem insert (h : fewer.Thinned m) (slot : Slot) {left forms : List String}
    (hforms : Declension.Thinned left forms) :
    Thinned (OrderedMap.insert fewer slot left) (OrderedMap.insert m slot forms) := by
  intro other
  rw [OrderedMap.get?_insert, OrderedMap.get?_insert]
  split
  · exact .some hforms
  · exact h other

theorem insert_left {slot : Slot} {left forms : List String} (hslot : m.get? slot = some forms)
    (hforms : Declension.Thinned left forms) : Thinned (OrderedMap.insert m slot left) m := by
  intro other
  rw [OrderedMap.get?_insert]
  split
  · rename_i heq
    rw [← heq, hslot]
    exact .some hforms
  · exact refl m other

theorem modify (h : fewer.Thinned m) (slot : Slot) {f : List String → List String}
    (hf : ∀ {left forms}, Declension.Thinned left forms → Declension.Thinned (f left) (f forms)) :
    Thinned (OrderedMap.modify fewer slot f) (OrderedMap.modify m slot f) := by
  intro other
  rw [OrderedMap.get?_modify, OrderedMap.get?_modify]
  split
  · rcases h.get? other with ⟨hfewer, hm⟩ | ⟨left, forms, hfewer, hm, hforms⟩
    · rw [hfewer, hm]
      exact .none
    · rw [hfewer, hm]
      exact .some (hf hforms)
  · exact h other

theorem insertMany (h : fewer.Thinned m) {left rows : Rows} (hrows : RowsThinned left rows) :
    Thinned (OrderedMap.insertMany fewer left) (OrderedMap.insertMany m rows) := by
  refine List.rel_foldl ?_ h hrows
  rintro fewer m h ⟨slot, left⟩ ⟨_, forms⟩ ⟨rfl, hforms⟩
  exact h.insert slot hforms

theorem ofList {left rows : Rows} (h : RowsThinned left rows) :
    Thinned (.ofList left) (.ofList rows) :=
  (refl ∅).insertMany h

end Thinned

end FormMap

/-- A paradigm of which some forms are left out. Notes go with the forms they are on. -/
structure Paradigm.Thinned (fewer p : Paradigm) : Prop where
  forms : fewer.forms.Thinned p.forms
  title : fewer.title = p.title
  subtitles : fewer.subtitles = p.subtitles
  footnote : fewer.footnote = p.footnote
  categories : fewer.categories = p.categories
  voc : fewer.voc = p.voc
  noneut : fewer.noneut = p.noneut

theorem Paradigm.Thinned.refl (p : Paradigm) : p.Thinned p :=
  ⟨.refl p.forms, rfl, rfl, rfl, rfl, rfl, rfl⟩

namespace Noun

namespace Second

theorem onStem_eq (o : Options) (w : Lexeme) : onStem o w =
    onStem {} w ++ if hasOldGenitive w && o.suppressOldGenitive then fullGenitive else [] := by
  simp [onStem]

/-- A word with two genitives has the full one first. -/
theorem find_genitive {w : Lexeme} (h : hasOldGenitive w) :
    OrderedMap.find (.sg .gen) (onStem {} w).reverse = some ["iī", "ī"] := by
  unfold hasOldGenitive at h
  rw [onStem, Bool.and_false, if_neg Bool.false_ne_true, List.append_nil]
  by_cases hn : w.has .N
  · rw [if_pos hn] at h
    rw [if_pos hn, neuterType, if_pos h]
    decide
  · rw [if_neg hn, Bool.and_eq_true, Bool.not_eq_true'] at h
    rw [if_neg hn, if_neg (by simp [h.1]), if_pos h.2]
    cases w.has .voci <;> decide

/-- Of two genitives the contracted one is left out. -/
theorem thinned_onStem {more less : Options} (h : more.Suppresses less) (w : Lexeme) :
    FormMap.Thinned (.ofList (FormMap.inflect w.stem (onStem more w)))
      (.ofList (FormMap.inflect w.stem (onStem less w))) := by
  by_cases hsame : (hasOldGenitive w && more.suppressOldGenitive) =
      (hasOldGenitive w && less.suppressOldGenitive)
  · rw [onStem_eq more, onStem_eq less, hsame]
    exact .refl _
  · obtain ⟨hold, hmore, hless⟩ : hasOldGenitive w ∧ more.suppressOldGenitive ∧
        less.suppressOldGenitive = false := by
      have hstep := h.oldGenitive
      revert hsame hstep
      cases hasOldGenitive w <;> cases more.suppressOldGenitive <;>
        cases less.suppressOldGenitive <;> decide
    have hgenitive : (OrderedMap.ofList (FormMap.inflect w.stem (onStem {} w))).get? (.sg .gen) =
        some [w.stem ++ "iī", w.stem ++ "ī"] := by
      rw [FormMap.get?_inflect, find_genitive hold]
      rfl
    rw [onStem_eq more, onStem_eq less, hold, hmore, hless, Bool.and_self, Bool.and_false,
      if_neg Bool.false_ne_true, if_pos rfl, List.append_nil, FormMap.inflect, List.map_append,
      OrderedMap.ofList_append]
    exact .insert_left hgenitive ⟨by simp, by simp⟩

end Second

theorem thinned_second {more less : Options} (h : more.Suppresses less) (w : Lexeme) :
    (second more w).Thinned (second less w) := by
  constructor
  case forms =>
    unfold second
    rw [OrderedMap.ofList_append, OrderedMap.ofList_append]
    exact (Second.thinned_onStem h w).insertMany (.refl _)
  all_goals simp only [second]

namespace Third

/-- Of two accusatives of an i-stem that is no neuter the one in -īs is left out. -/
theorem rowsThinned_iStem {more less : Options} (h : more.Suppresses less) (w : Lexeme) :
    RowsThinned (iStem more w) (iStem less w) := by
  unfold iStem
  refine .append (.append (.cons ⟨rfl, .refl _⟩ (.cons ⟨rfl, ?_⟩ .nil)) (.refl _)) (.refl _)
  have hstep := h.accIs
  dsimp only
  split
  · split
    · exact .refl _
    · exact ⟨by simp, by simp⟩
  · rename_i hmore
    rw [if_neg fun hless => hmore (hstep hless)]
    exact .refl _

theorem rowsThinned_kindForms {more less : Options} (h : more.Suppresses less) (w : Lexeme)
    (bareStem : String) : RowsThinned (kindForms more w bareStem) (kindForms less w bareStem) := by
  unfold kindForms
  split
  · exact .refl _
  · split
    · exact (rowsThinned_iStem h w).inflect _
    · exact .refl []

theorem thinned_addLocative {fewer m : FormMap} (h : fewer.Thinned m) :
    (addLocative fewer).Thinned (addLocative m) :=
  (h.insert _ ((h.forms _).addNew (h.forms _))).insert _ (h.forms _)

theorem thinned_forms {more less : Options} (h : more.Suppresses less) (w : Lexeme)
    (greekStem bareStem : String) :
    (forms more w greekStem bareStem).Thinned (forms less w greekStem bareStem) := by
  have hrows : ∀ front : Rows, FormMap.Thinned (.ofList (front ++ kindForms more w bareStem))
      (.ofList (front ++ kindForms less w bareStem)) := fun front =>
    .ofList ((RowsThinned.refl front).append (rowsThinned_kindForms h w bareStem))
  unfold forms
  dsimp only
  split
  · exact thinned_addLocative (hrows _)
  · exact hrows _

end Third

theorem agree_third_suppressing {more less : Options} (h : more.Suppresses less) (w : Lexeme) :
    Agree Paradigm.Thinned (third more w) (third less w) := by
  unfold third
  refine (Agree.refl (fun _ => rfl) (Third.greekStem w)).bind ?_
  rintro greek _ rfl
  refine (Agree.refl (fun _ => rfl) (Third.bareStem w greek)).bind ?_
  rintro bare _ rfl
  exact .ok ⟨Third.thinned_forms h w greek bare, rfl, rfl, rfl, rfl, rfl, rfl⟩

theorem agree_decline_suppressing {more less : Options} (h : more.Suppresses less) (t : Tables)
    (w : Lexeme) (c : Class) :
    Agree Paradigm.Thinned (decline ⟨t, more⟩ w c) (decline ⟨t, less⟩ w c) := by
  cases c with
  | second => exact .ok (thinned_second h w)
  | third => exact agree_third_suppressing h w
  | _ => exact Agree.refl Paradigm.Thinned.refl _

end Noun

namespace Adjective

/-- Of two ablatives the one of an adjective is left out, or that of a participle. -/
theorem Participle.thinned_ablative {more less : Options} (h : more.Suppresses less) (w : Lexeme) :
    Thinned (ablative more w) (ablative less w) := by
  have hstep := h.adjPtc
  unfold ablative
  cases hmore : more.suppressAdjPtcForms with
  | false =>
    have hless : less.suppressAdjPtcForms = false := by
      by_contra hless
      rw [hstep (by simpa using hless)] at hmore
      cases hmore
    rw [hless]
    exact .refl _
  | true =>
    cases less.suppressAdjPtcForms with
    | true => exact .refl _
    | false =>
      cases w.has .ptc
      · exact ⟨by simp, by simp⟩
      · exact ⟨by simp, by simp⟩

theorem thinned_participle {more less : Options} (h : more.Suppresses less) (w : Lexeme) :
    (participle more w).Thinned (participle less w) := by
  have hablative := Participle.thinned_ablative h w
  have hendings : RowsThinned (Participle.endings more w) (Participle.endings less w) :=
    .cons ⟨rfl, hablative⟩ (.cons ⟨rfl, hablative⟩ (.cons ⟨rfl, .refl _⟩ .nil))
  have hrows := (RowsThinned.refl (ThirdOne.forms w)).append (hendings.inflect w.obliqueStem)
  constructor
  all_goals simp only [participle]
  exact .ofList hrows

theorem agree_decline_suppressing {more less : Options} (h : more.Suppresses less) (t : Tables)
    (w : Lexeme) (c : Class) :
    Agree Paradigm.Thinned (decline ⟨t, more⟩ w c) (decline ⟨t, less⟩ w c) := by
  cases c with
  | participle => exact .ok (thinned_participle h w)
  | _ => exact Agree.refl Paradigm.Thinned.refl _

end Adjective

namespace Segment
variable {s : Segment} {fewer m : FormMap}

theorem agree_decline_suppressing {more less : Options} (h : more.Suppresses less) (t : Tables)
    (s : Segment) (w : Lexeme) :
    Agree Paradigm.Thinned (s.decline ⟨t, more⟩ w) (s.decline ⟨t, less⟩ w) := by
  unfold decline
  split
  · split
    · exact Adjective.agree_decline_suppressing h t w _
    · exact .error _
  · split
    · exact Noun.agree_decline_suppressing h t w _
    · exact .error _

theorem agree_withTitle_of_thinned {p q : Paradigm} (h : p.Thinned q) (t : Tables) :
    Agree Paradigm.Thinned (s.withTitle t p) (s.withTitle t q) := by
  unfold withTitle
  rw [h.title, h.subtitles]
  split
  · exact .ok h
  · refine (Agree.refl (fun _ => rfl) (s.nounTitle t)).bind ?_
    rintro title _ rfl
    exact .ok ⟨h.forms, rfl, rfl, h.footnote, h.categories, h.voc, h.noneut⟩

theorem agree_paradigm_suppressing {more less : Options} (h : more.Suppresses less) (t : Tables)
    (s : Segment) (w : Lexeme) :
    Agree Paradigm.Thinned (s.paradigm ⟨t, more⟩ w) (s.paradigm ⟨t, less⟩ w) := by
  unfold paradigm
  refine (agree_decline_suppressing h t s w).bind fun p q hpq => ?_
  refine (agree_withTitle_of_thinned hpq t).bind fun p q hpq => ?_
  exact .ok ⟨hpq.forms, hpq.title, congrArg (· ++ _) hpq.subtitles, hpq.footnote, hpq.categories,
    hpq.voc, hpq.noneut⟩

theorem thinned_addLinked (h : fewer.Thinned m) (s : Segment) :
    (s.addLinked fewer).Thinned (s.addLinked m) := by
  unfold addLinked
  refine List.foldl_rel h fun (n, g) _ fewer m h => ?_
  rcases h.get? (.cell .nom n g) with ⟨hfewer, hm⟩ | ⟨left, forms, hfewer, hm, hforms⟩
  · simp only [hfewer, hm]
    exact h
  · simp only [hfewer, hm]
    exact h.insert _ (hforms.map _)

theorem withNasal_ne_nil (form : String) : withNasal form ≠ [] := by
  unfold withNasal
  split <;> simp

theorem thinned_ligate (h : fewer.Thinned m) (isAdj : Bool) :
    (fewer.ligate isAdj).Thinned (m.ligate isAdj) :=
  List.foldl_rel h fun slot _ _ _ h => h.modify slot fun hforms => hforms.map _

theorem thinned_addNasals (h : fewer.Thinned m) (isAdj : Bool) :
    (fewer.addNasals isAdj).Thinned (m.addNasals isAdj) :=
  List.foldl_rel h fun slot _ _ _ h => h.modify slot fun hforms =>
    hforms.flatMap withNasal_ne_nil

theorem thinned_mirrorNumber (h : fewer.Thinned m) (n : Number) (isAdj : Bool) :
    (fewer.mirrorNumber n isAdj).Thinned (m.mirrorNumber n isAdj) := by
  refine List.foldl_rel h fun slot _ fewer m h => ?_
  split
  · exact h.insert slot.mirror (h.forms slot)
  · exact h

theorem thinned_finish (h : fewer.Thinned m) (s : Segment) (num : Option NumberUse) :
    (s.finish num fewer).Thinned (s.finish num m) := by
  have hlig : ∀ {fewer m : FormMap}, fewer.Thinned m →
      FormMap.Thinned (if s.tags.has .lig then fewer.ligate s.isAdj else fewer)
        (if s.tags.has .lig then m.ligate s.isAdj else m) := by
    intro fewer m h
    split
    · exact thinned_ligate h s.isAdj
    · exact h
  have hnasal : ∀ {fewer m : FormMap}, fewer.Thinned m →
      FormMap.Thinned (if s.tags.has .sufn then fewer.addNasals s.isAdj else fewer)
        (if s.tags.has .sufn then m.addNasals s.isAdj else m) := by
    intro fewer m h
    split
    · exact thinned_addNasals h s.isAdj
    · exact h
  have hmirror : ∀ {fewer m : FormMap}, fewer.Thinned m →
      (mirrorOnly s.isAdj num fewer).Thinned (mirrorOnly s.isAdj num m) := by
    intro fewer m h
    unfold mirrorOnly
    split
    · exact thinned_mirrorNumber h _ s.isAdj
    · exact h
  exact hmirror (hnasal (hlig (thinned_addLinked h s)))

theorem source_eq_of_thinned (h : fewer.Thinned m) (s : Segment) (isAdj : Bool)
    (gender : Option Gender) (slot : Slot) :
    s.source isAdj gender fewer slot = s.source isAdj gender m slot := by
  simp only [source, h.contains]

end Segment

namespace Composition

/-- A composition of which some forms are left out. Notes go with the forms they are on. -/
structure Thinned (fewer c : Composition) : Prop where
  forms : ∀ slot, Declension.Thinned (fewer.cell slot).forms (c.cell slot).forms
  titles : fewer.titles = c.titles
  subtitles : fewer.subtitles = c.subtitles
  wordTitles : fewer.wordTitles = c.wordTitles
  categories : fewer.categories = c.categories
  footnotes : fewer.footnotes = c.footnotes
  voc : fewer.voc = c.voc
  noneut : fewer.noneut = c.noneut

namespace Thinned
variable {fewer c : Composition}

theorem title (h : fewer.Thinned c) : fewer.title = c.title := congrArg Title.joined h.titles

theorem refl (c : Composition) : c.Thinned c :=
  ⟨fun _ => .refl _, rfl, rfl, rfl, rfl, rfl, rfl, rfl⟩

theorem append {less d : Composition} (h : fewer.Thinned c) (hd : less.Thinned d) :
    (fewer.append less).Thinned (c.append d) where
  forms slot := (h.forms slot).product (hd.forms slot)
  titles := by simp only [Composition.append, h.titles, hd.titles]
  subtitles := by simp only [Composition.append, h.subtitles, hd.subtitles]
  wordTitles := by simp only [Composition.append, h.wordTitles, hd.wordTitles]
  categories := by simp only [Composition.append, h.categories, hd.categories]
  footnotes := by simp only [Composition.append, h.footnotes, hd.footnotes]
  voc := by simp only [Composition.append, h.voc, hd.voc]
  noneut := by simp only [Composition.append, h.noneut, hd.noneut]

theorem concat {fewers cs : List Composition} (h : List.Forall₂ Thinned fewers cs) :
    (Composition.concat fewers).Thinned (Composition.concat cs) :=
  List.rel_foldl (fun _ _ hab _ _ hcd => hab.append hcd) (.refl unit) h

theorem blankNumber (h : fewer.Thinned c) (n : Number) :
    (fewer.blankNumber n).Thinned (c.blankNumber n) where
  forms slot := by
    unfold Composition.blankNumber
    dsimp only
    split
    · exact .refl []
    · exact h.forms slot
  titles := h.titles
  subtitles := h.subtitles
  wordTitles := h.wordTitles
  categories := h.categories
  footnotes := h.footnotes
  voc := h.voc
  noneut := h.noneut

/-- Forms copied from one number onto the other are thinned with them. -/
theorem mirrorNumber (h : fewer.Thinned c) (n : Number) :
    (fewer.mirrorNumber n).Thinned (c.mirrorNumber n) where
  forms slot := by
    unfold Composition.mirrorNumber
    dsimp only
    split
    · exact h.forms slot
    · exact h.forms slot.mirror
  titles := h.titles
  subtitles := h.subtitles
  wordTitles := h.wordTitles
  categories := h.categories
  footnotes := h.footnotes
  voc := h.voc
  noneut := h.noneut

theorem forms_mergedCell {fewers cs : List Composition} (h : List.Forall₂ Thinned fewers cs)
    (slot : Slot) :
    Declension.Thinned (mergedCell fewers slot).forms (mergedCell cs slot).forms := by
  cases h with
  | nil => exact .refl []
  | cons hfirst hrest =>
    exact List.rel_foldl (P := fun a b : Cell => Declension.Thinned a.forms b.forms)
      (fun _ _ hab _ _ hpart => hab.addNew (hpart.forms slot)) (hfirst.forms slot) hrest

end Thinned

end Composition

theorem Segment.thinned_contribution {p q : Paradigm} (h : p.Thinned q) (s : Segment)
    (isAdj : Bool) (num : Option NumberUse) (gender : Option Gender) :
    (s.contribution isAdj num gender p).Thinned (s.contribution isAdj num gender q) := by
  have hfinish := thinned_finish h.forms s num
  have htitle : fullTitle p = fullTitle q := by simp only [fullTitle, h.title, h.subtitles]
  constructor
  case forms =>
    intro slot
    simp only [contribution, Cell.withLead, cellAt, source_eq_of_thinned hfinish]
    exact (hfinish.forms _).map _
  all_goals
    simp only [contribution, htitle, h.title, h.subtitles, h.footnote, h.categories, h.voc,
      h.noneut]

variable {more less : Options} (h : more.Suppresses less) (t : Tables) (pos : String)
  (isAdj : Bool) (run : Summary)
include h

theorem Piece.agree_compose_suppressing (p : Piece) :
    Agree Composition.Thinned (p.compose ⟨t, more⟩ pos isAdj run)
      (p.compose ⟨t, less⟩ pos isAdj run) := by
  cases p with
  | literal l => exact .ok (.refl _)
  | word s =>
    refine (Segment.agree_paradigm_suppressing h t s _).bind fun p q hpq => ?_
    split
    · exact .error _
    · exact .ok (Segment.thinned_contribution hpq s isAdj _ _)

namespace Alternant

theorem agree_composeBranch_suppressing (b : PlainRun) :
    Agree Composition.Thinned (composeBranch ⟨t, more⟩ pos isAdj b)
      (composeBranch ⟨t, less⟩ pos isAdj b) := by
  have hparts : Agree Composition.Thinned (b.compose ⟨t, more⟩ pos isAdj)
      (b.compose ⟨t, less⟩ pos isAdj) := by
    refine (Agree.mapM_same ?_).bind fun cs ds h => .ok (.concat h)
    exact fun p _ => p.agree_compose_suppressing h t pos isAdj b.summary
  refine hparts.bind fun c d hcd => ?_
  split
  · exact .ok (hcd.blankNumber _)
  · exact .ok hcd

omit h in
theorem thinned_contribution {fewers cs : List Composition}
    (h : List.Forall₂ Composition.Thinned fewers cs) (a : Alternant) :
    (a.contribution isAdj run fewers).Thinned (a.contribution isAdj run cs) := by
  have hmerged : Composition.Thinned { cell := Composition.mergedCell fewers }
      { cell := Composition.mergedCell cs } :=
    ⟨Composition.Thinned.forms_mergedCell h, rfl, rfl, rfl, rfl, rfl, rfl, rfl⟩
  have htitle : ∀ own stems, title own stems fewers = title own stems cs := by
    intro own stems
    rw [title, title, map_eq_of_forall₂ h fun _ _ hcd => hcd.title,
      flatMap_eq_of_forall₂ h fun _ _ hcd => hcd.wordTitles,
      map_eq_of_forall₂ h fun _ _ hcd => hcd.subtitles]
  constructor
  case forms =>
    intro slot
    unfold contribution
    dsimp only
    split
    · exact (hmerged.mirrorNumber _).forms slot
    · exact hmerged.forms slot
  case titles => simp only [contribution, htitle]
  case subtitles => rfl
  case wordTitles => rfl
  case categories =>
    simp only [contribution, flatMap_eq_of_forall₂ h fun _ _ hcd => hcd.categories]
  case footnotes =>
    simp only [contribution, flatMap_eq_of_forall₂ h fun _ _ hcd => hcd.footnotes]
  case voc => simp only [contribution, all_eq_of_forall₂ h fun _ _ hcd => hcd.voc]
  case noneut => simp only [contribution, any_eq_of_forall₂ h fun _ _ hcd => hcd.noneut]

theorem agree_compose_suppressing (a : Alternant) :
    Agree Composition.Thinned (a.compose ⟨t, more⟩ pos isAdj run)
      (a.compose ⟨t, less⟩ pos isAdj run) := by
  have hbranches : ∀ branches : List PlainRun, Agree (List.Forall₂ Composition.Thinned)
      (branches.mapM fun b => composeBranch ⟨t, more⟩ pos isAdj (a.settle run b))
      (branches.mapM fun b => composeBranch ⟨t, less⟩ pos isAdj (a.settle run b)) := by
    intro branches
    apply Agree.mapM_same
    exact fun b _ => agree_composeBranch_suppressing h t pos isAdj (a.settle run b)
  refine (hbranches _).bind fun fewers cs hcs => ?_
  cases hcs with
  | nil => exact .error _
  | cons hfirst hrest => exact .ok (thinned_contribution isAdj run (.cons hfirst hrest) a)

end Alternant

/-- With more suppressed a run is declined just if it was. Every slot has some of its forms left if
it had any, none that it had not, and nothing else that is told of the run changes. -/
theorem Run.compose_suppressing (r : Run) :
    Agree Composition.Thinned (r.compose ⟨t, more⟩ pos isAdj)
      (r.compose ⟨t, less⟩ pos isAdj) := by
  unfold compose
  refine (Agree.mapM_same ?_).bind fun cs ds h => .ok (.concat h)
  intro node _
  cases node with
  | piece p => exact p.agree_compose_suppressing h t pos isAdj r.summary
  | alternant a => exact a.agree_compose_suppressing h t pos isAdj r.summary

omit h in
/-- A son or a fire that loves, with everything suppressed: one of three genitives is left out. -/
theorem Run.compose_suppressing_of_filius_amans :
    ∃ r fewer c, Run.read .latin "((fīlius<2>,ignis<3>)) amāns<3-P+>" = .ok r ∧
      Options.Suppresses ⟨false, true, true, true⟩ {} ∧
      r.compose ⟨.latin, ⟨false, true, true, true⟩⟩ "nouns" false = .ok fewer ∧
      r.compose ⟨.latin, {}⟩ "nouns" false = .ok c ∧
      (fewer.cell (.sg .gen)).forms = ["fīliī amantis", "ignis amantis"] ∧
      (c.cell (.sg .gen)).forms = ["fīliī amantis", "fīlī amantis", "ignis amantis"] ∧
      fewer.Thinned c := by
  obtain ⟨r, fewer, c, hr, hfewer, hc, hleft, hforms⟩ : ∃ r fewer c,
      Run.read .latin "((fīlius<2>,ignis<3>)) amāns<3-P+>" = .ok r ∧
      r.compose ⟨.latin, ⟨false, true, true, true⟩⟩ "nouns" false = .ok fewer ∧
      r.compose ⟨.latin, {}⟩ "nouns" false = .ok c ∧
      (fewer.cell (.sg .gen)).forms = ["fīliī amantis", "ignis amantis"] ∧
      (c.cell (.sg .gen)).forms = ["fīliī amantis", "fīlī amantis", "ignis amantis"] :=
    ⟨_, _, _, rfl, rfl, rfl, by decide +kernel, by decide +kernel⟩
  have hmore : Options.Suppresses ⟨false, true, true, true⟩ {} :=
    ⟨fun _ => rfl, fun _ => rfl, fun _ => rfl⟩
  have hagree := Run.compose_suppressing hmore .latin "nouns" false r
  rw [hfewer, hc] at hagree
  cases hagree with
  | ok hthinned => exact ⟨r, fewer, c, hr, hmore, hfewer, hc, hleft, hforms, hthinned⟩

end Declension
