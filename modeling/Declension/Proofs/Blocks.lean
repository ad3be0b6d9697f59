import Declension.Inflection
import Declension.Proofs.Ending
import Declension.Proofs.NounCitation

/-!
# Paradigms put together from blocks of endings

A class sets the slots of a word in stages: first the endings all its words have, then those of
each trait. Every stage is one of a few fixed blocks, on a stem or with the same forms in all its
slots, so a relation of slots holds of all words of a class if it holds of its blocks.
-/
namespace Declension
open Slot

namespace OrderedMap
variable {rows : Rows} {slot : Slot}

theorem isSome_find_iff : (find slot rows.reverse).isSome ↔ slot ∈ rows.map Prod.fst := by
  rw [isSome_find, List.map_reverse, List.mem_reverse]

theorem contains_ofList : (ofList rows).contains slot ↔ slot ∈ rows.map Prod.fst := by
  rw [contains, get?_ofList, isSome_find_iff]

end OrderedMap

/-- Rows that are put together from blocks, of which the forms may be changed alike in all slots. -/
inductive BuiltFrom (blocks : List Rows) : Rows → Prop
  | nil : BuiltFrom blocks []
  | block {b : Rows} : b ∈ blocks → BuiltFrom blocks b
  | append {rows more : Rows} : BuiltFrom blocks rows → BuiltFrom blocks more →
      BuiltFrom blocks (rows ++ more)
  | map {rows : Rows} (f : List String → List String) : (∀ forms, forms ≠ [] → f forms ≠ []) →
      BuiltFrom blocks rows → BuiltFrom blocks (rows.map fun (slot, forms) => (slot, f forms))

namespace BuiltFrom
variable {blocks more : List Rows} {rows other : Rows}

theorem cons {row : Slot × List String} (h : BuiltFrom blocks [row]) (h' : BuiltFrom blocks rows) :
    BuiltFrom blocks (row :: rows) :=
  h.append h'

theorem ite {p : Prop} [Decidable p] (h : BuiltFrom blocks rows) (h' : BuiltFrom blocks other) :
    BuiltFrom blocks (if p then rows else other) := by
  split
  · exact h
  · exact h'

theorem inflect (h : BuiltFrom blocks rows) (stem : String) :
    BuiltFrom blocks (FormMap.inflect stem rows) :=
  .map _ (fun _ hne => by simpa using hne) h

theorem fill (h : rows ∈ blocks) (form : String) (forms : List String) :
    BuiltFrom blocks (rows.map fun (slot, _) => (slot, form :: forms)) :=
  .map (fun _ => form :: forms) (fun _ _ => List.cons_ne_nil _ _) (.block h)

theorem mono (h : BuiltFrom blocks rows) (hsub : ∀ b ∈ blocks, b ∈ more) :
    BuiltFrom more rows := by
  induction h with
  | nil => exact .nil
  | block hb => exact .block (hsub _ hb)
  | append _ _ ih ih' => exact .append ih ih'
  | map f hf _ ih => exact .map f hf ih

/-- Slots that are set alike in every block are set alike. -/
theorem find_eq (h : BuiltFrom blocks rows) {x y : Slot}
    (hblocks : ∀ b ∈ blocks, OrderedMap.find x b.reverse = OrderedMap.find y b.reverse) :
    OrderedMap.find x rows.reverse = OrderedMap.find y rows.reverse := by
  induction h with
  | nil => rfl
  | block hb => exact hblocks _ hb
  | append _ _ ih ih' =>
    rw [List.reverse_append, OrderedMap.find_append, OrderedMap.find_append, ih, ih']
  | map f _ _ ih =>
    rw [← List.map_reverse, OrderedMap.find_map_values, OrderedMap.find_map_values, ih]

/-- No slot is set to nothing if no block does so. -/
theorem forms_ne_nil (h : BuiltFrom blocks rows) (hblocks : ∀ b ∈ blocks, ∀ row ∈ b, row.2 ≠ []) :
    ∀ row ∈ rows, row.2 ≠ [] := by
  induction h with
  | nil => exact nofun
  | block hb => exact hblocks _ hb
  | append _ _ ih ih' => exact List.forall_mem_append.mpr ⟨ih, ih'⟩
  | map f hf _ ih =>
    intro row hrow
    obtain ⟨⟨slot, forms⟩, hmem, rfl⟩ := List.mem_map.mp hrow
    exact hf forms (ih _ hmem)

end BuiltFrom

theorem keys_inflect (stem : String) (rows : Rows) :
    (FormMap.inflect stem rows).map Prod.fst = rows.map Prod.fst := by
  unfold FormMap.inflect
  rw [List.map_map]
  rfl

namespace Noun
variable (o : Options) (w : Lexeme)

def First.blocks : List Rows := [
  basic, inAbus, inAm, greekInAs, greekInEs, greekInE, locative]

theorem First.builtFrom_endings : BuiltFrom blocks (endings w) := by
  unfold endings
  refine .append (.append (.append (.block ?_) (.ite (.block ?_) .nil))
    (.ite (.block ?_) (.ite .nil (.ite (.block ?_) (.ite (.block ?_) (.block ?_))))))
    (.ite (.block ?_) .nil)
  all_goals simp [blocks]

namespace Second

/-- The blocks of neuters beyond that of bellum. -/
def neuterTypes : List Rows := [
  inIum, neuterInUsA, inVom, greekNeuterInOs, greekNeuterInOn, neuterInUs]

def blocks : List Rows := [
  basic, neuter, [(sg .nom, [""]), (sg .voc, [""])], inIus true, inIus false, inVos, greekInOs,
  fullGenitive, obliqueOfR, [(pl .gen, ["iōrum", "ium"])], [(pl .gen, ["ōrum", "um"])],
  [(sg .loc, ["iī"]), (pl .loc, ["iīs"])], [(sg .loc, ["ī"]), (pl .loc, ["īs"])]] ++ neuterTypes

theorem builtFrom_neuterType : BuiltFrom neuterTypes (neuterType w) := by
  unfold neuterType
  refine .ite (.block ?_) (.ite (.block ?_) (.ite (.block ?_) (.ite (.block ?_)
    (.ite (.block ?_) (.ite (.block ?_) .nil)))))
  all_goals simp [neuterTypes]

theorem builtFrom_onStem : BuiltFrom blocks (onStem o w) := by
  have hius : ∀ voci, inIus voci ∈ blocks := by
    intro voci
    cases voci <;> simp [blocks]
  have hneuter : BuiltFrom blocks (neuterType w) :=
    (builtFrom_neuterType w).mono fun b hb => List.mem_append_right _ hb
  unfold onStem
  refine .append (.append (.block ?_) (.ite (.append (.block ?_) hneuter)
    (.ite (.block ?_) (.ite (.block (hius _)) (.ite (.block ?_) (.ite (.block ?_) .nil))))))
    (.ite (.block ?_) .nil)
  all_goals simp [blocks]

theorem builtFrom_onOblique : BuiltFrom blocks (onOblique w) := by
  have hplural : [(pl .gen, if isIStem w then ["iōrum", "ium"] else ["ōrum", "um"])] ∈
      blocks := by
    cases isIStem w <;> simp [blocks]
  unfold onOblique
  refine .append (.append (.ite (.block ?_) .nil) (.ite (.block hplural) .nil))
    (.ite (.ite (.block ?_) (.block ?_)) .nil)
  all_goals simp [blocks]

end Second

namespace Third

def blocks : List Rows := [
  [(sg .nom, [""]), (sg .voc, [""])], oblique, greekInEr, greekInOn, greekIStem true,
  greekIStem false, greekPlain "", greekPlain "y", [(sg .voc, [""])], inPolis, [(sg .acc, [""])],
  neuter, neuterPure, neuterIStem, [(pl .gen, ["ium"])], [(pl .acc, [""])], [(sg .abl, [""])]]

theorem builtFrom_greekForms (greekStem : String) :
    BuiltFrom blocks (greekForms w greekStem) := by
  have hpoetic : ∀ poetic, greekIStem poetic ∈ blocks := by
    intro poetic
    cases poetic <;> simp [blocks]
  have hplain : greekPlain w.obliqueStem ∈ blocks := by
    have hcases : greekPlain w.obliqueStem = greekPlain "y" ∨
        greekPlain w.obliqueStem = greekPlain "" := by
      unfold greekPlain
      cases Text.endsIn "y" w.obliqueStem
      · exact .inr rfl
      · exact .inl rfl
    rcases hcases with h | h <;> simp [blocks, h]
  have hvoc : [(sg .voc, [""])] ∈ blocks := by simp [blocks]
  unfold greekForms
  split
  · exact .nil
  · exact .inflect (.block (by simp [blocks])) _
  · exact .inflect (.block (by simp [blocks])) _
  · exact .inflect (.block (hpoetic _)) _
  · exact .append (.inflect (.block hplain) _) (.ite (.fill hvoc _ _) .nil)

theorem builtFrom_caseType {slot : Slot} (h : [(slot, [""])] ∈ blocks) {a : Option CaseType}
    (ha : ∀ t, a = some t → t.endings ≠ []) :
    BuiltFrom blocks (a.map fun a => (slot, a.endings)).toList := by
  cases a with
  | none => exact .nil
  | some t => exact .map (fun _ => t.endings) (fun _ _ => ha t rfl) (.block h)

theorem builtFrom_iStem : BuiltFrom blocks (iStem o w) := by
  have haccusatives : ∀ t ∈ accusatives, t.endings ≠ [] := by decide
  have hablatives : ∀ t ∈ ablatives, t.endings ≠ [] := by decide
  have haccusative : BuiltFrom blocks [(pl .acc,
      if o.suppressNonNeuterIStemAccIs then ["ēs"] else ["ēs", "īs"])] := by
    refine .map (fun _ => if o.suppressNonNeuterIStemAccIs then ["ēs"] else ["ēs", "īs"])
      (fun _ _ => ?_) (.block (show [(pl .acc, [""])] ∈ blocks by simp [blocks]))
    split <;> simp
  unfold iStem
  refine .append (.append (.cons (.block ?_) haccusative) (builtFrom_caseType ?_ fun t ht => ?_))
    (builtFrom_caseType ?_ fun t ht => ?_)
  · simp [blocks]
  · simp [blocks]
  · exact haccusatives t (List.mem_of_find?_eq_some ht)
  · simp [blocks]
  · exact hablatives t (List.mem_of_find?_eq_some ht)

theorem builtFrom_kindForms (bareStem : String) :
    BuiltFrom blocks (kindForms o w bareStem) := by
  have hacc : BuiltFrom blocks [(sg .acc, [bareStem])] :=
    .fill (show [(sg .acc, [""])] ∈ blocks by simp [blocks]) bareStem []
  unfold kindForms
  refine .ite (.cons hacc (.inflect (.ite (.block ?_) (.ite (.block ?_) (.block ?_))) _))
    (.ite (.inflect (builtFrom_iStem o w) _) .nil)
  all_goals simp [blocks]

/-- The rows of a noun of the third declension. -/
def rows (greekStem bareStem : String) : Rows :=
  [(sg .nom, [w.stem]), (sg .voc, [w.stem])]
    ++ FormMap.inflect w.obliqueStem oblique
    ++ greekForms w greekStem
    ++ (if w.has .polis then FormMap.inflect bareStem inPolis else [])
    ++ kindForms o w bareStem

theorem forms_eq (greekStem bareStem : String) :
    forms o w greekStem bareStem = if w.loc then
        addLocative (.ofList (rows o w greekStem bareStem))
      else .ofList (rows o w greekStem bareStem) := rfl

theorem builtFrom_rows (greekStem bareStem : String) :
    BuiltFrom blocks (rows o w greekStem bareStem) := by
  have hdirect : BuiltFrom blocks [(sg .nom, [w.stem]), (sg .voc, [w.stem])] :=
    .fill (show [(sg .nom, [""]), (sg .voc, [""])] ∈ blocks by simp [blocks]) w.stem []
  unfold rows
  refine .append (.append (.append (.append hdirect (.inflect (.block ?_) _))
    (builtFrom_greekForms w greekStem)) (.ite (.inflect (.block ?_) _) .nil))
    (builtFrom_kindForms o w bareStem)
  all_goals simp [blocks]

end Third

def Fourth.blocks : List Rows := [basic, echo, argo, callisto, neuter, inUbus]

theorem Fourth.builtFrom_endings : BuiltFrom blocks (endings w) := by
  unfold endings
  refine .append (.append (.append (.block ?_) (.ite (.block ?_) (.ite (.block ?_)
    (.ite (.block ?_) .nil)))) (.ite (.block ?_) .nil)) (.ite (.block ?_) .nil)
  all_goals simp [blocks]

def Fifth.blocks : List Rows := [basic, afterI, locative]

theorem Fifth.builtFrom_endings : BuiltFrom blocks (endings w) := by
  unfold endings
  refine .append (.append (.block ?_) (.ite (.block ?_) .nil)) (.ite (.block ?_) .nil)
  all_goals simp [blocks]

/-- The blocks of the regular classes. -/
def blocks : List Rows :=
  uniform "" :: [(sg .loc, [""]), (pl .loc, [""])] ::
    (First.blocks ++ Second.blocks ++ Third.blocks ++ Fourth.blocks ++ Fifth.blocks)

/-- How a noun comes by its locative: it is among the rows where it is in use, or taken from other
cases. -/
inductive Locative (rows : Rows) : FormMap → Prop
  | as_set : (w.loc → ∀ slot ∈ [sg .loc, pl .loc], slot ∈ rows.map Prod.fst) →
      Locative rows (.ofList rows)
  | third : Locative rows (Third.addLocative (.ofList rows))
  | fourth : Locative rows (Fourth.addLocative (.ofList rows))

/-- The paradigm of a noun that goes by rules: its rows set every cell, and only a locative is
added to them. -/
structure IsMadeOf (rows : Rows) (m : FormMap) : Prop where
  builtFrom : BuiltFrom blocks rows
  keys : ∀ slot ∈ cells, slot ∈ rows.map Prod.fst
  locative : Locative w rows m

theorem isMadeOf_first :
    IsMadeOf w (FormMap.inflect w.stem (First.endings w)) (first w).forms where
  builtFrom := ((First.builtFrom_endings w).mono (by simp +contextual [blocks])).inflect w.stem
  keys := by
    have hbasic : ∀ slot ∈ cells, slot ∈ First.basic.map Prod.fst := by decide
    intro slot hslot
    simp only [keys_inflect, First.endings, List.map_append, List.mem_append, hbasic slot hslot,
      true_or]
  locative := by
    have hlocative : ∀ slot ∈ [sg .loc, pl .loc], slot ∈ First.locative.map Prod.fst := by decide
    dsimp only [first]
    refine .as_set fun hloc slot hslot => ?_
    simp only [keys_inflect, First.endings, hloc, if_true, List.map_append, List.mem_append,
      hlocative slot hslot, or_true]

theorem isMadeOf_second :
    IsMadeOf w (FormMap.inflect w.stem (Second.onStem o w) ++
      FormMap.inflect w.obliqueStem (Second.onOblique w)) (second o w).forms where
  builtFrom := .mono (((Second.builtFrom_onStem o w).inflect w.stem).append
    ((Second.builtFrom_onOblique w).inflect w.obliqueStem)) (by simp +contextual [blocks])
  keys := by
    have hbasic : ∀ slot ∈ cells, slot ∈ Second.basic.map Prod.fst := by decide
    intro slot hslot
    simp only [keys_inflect, Second.onStem, List.map_append, List.mem_append, hbasic slot hslot,
      true_or]
  locative := by
    dsimp only [second]
    refine .as_set fun hloc slot hslot => ?_
    have hlocative : slot ∈ (if Second.isIStem w then [(sg .loc, ["iī"]), (pl .loc, ["iīs"])]
        else [(sg .loc, ["ī"]), (pl .loc, ["īs"])] : Rows).map Prod.fst := by
      split <;> exact hslot
    simp only [keys_inflect, Second.onOblique, hloc, if_true, List.map_append, List.mem_append,
      hlocative, or_true]

theorem isMadeOf_third (greekStem bareStem : String) :
    IsMadeOf w (Third.rows o w greekStem bareStem) (Third.forms o w greekStem bareStem) where
  builtFrom := (Third.builtFrom_rows o w greekStem bareStem).mono (by simp +contextual [blocks])
  keys := by
    have hbasic : ∀ slot ∈ cells, slot ∈ [sg .nom, sg .voc] ∨
        slot ∈ Third.oblique.map Prod.fst := by
      decide
    intro slot hslot
    simp only [Third.rows, List.map_append, List.mem_append, keys_inflect]
    exact .inl (.inl (.inl (hbasic slot hslot)))
  locative := by
    rw [Third.forms_eq]
    split
    · exact .third
    · exact .as_set fun hloc => absurd hloc ‹_›

theorem isMadeOf_fourth :
    IsMadeOf w (FormMap.inflect w.stem (Fourth.endings w)) (fourth w).forms where
  builtFrom := ((Fourth.builtFrom_endings w).mono (by simp +contextual [blocks])).inflect w.stem
  keys := by
    have hbasic : ∀ slot ∈ cells, slot ∈ Fourth.basic.map Prod.fst := by decide
    intro slot hslot
    simp only [keys_inflect, Fourth.endings, List.map_append, List.mem_append, hbasic slot hslot,
      true_or]
  locative := by
    unfold fourth
    dsimp only
    split
    · exact .fourth
    · exact .as_set fun hloc => absurd hloc ‹_›

theorem isMadeOf_fifth :
    IsMadeOf w (FormMap.inflect (Fifth.stem w) (Fifth.endings w)) (fifth w).forms where
  builtFrom := ((Fifth.builtFrom_endings w).mono (by simp +contextual [blocks])).inflect _
  keys := by
    have hbasic : ∀ slot ∈ cells, slot ∈ Fifth.basic.map Prod.fst := by decide
    intro slot hslot
    simp only [keys_inflect, Fifth.endings, List.map_append, List.mem_append, hbasic slot hslot,
      true_or]
  locative := by
    have hlocative : ∀ slot ∈ [sg .loc, pl .loc], slot ∈ Fifth.locative.map Prod.fst := by decide
    dsimp only [fifth]
    refine .as_set fun hloc slot hslot => ?_
    simp only [keys_inflect, Fifth.endings, hloc, if_true, List.map_append, List.mem_append,
      hlocative slot hslot, or_true]

theorem isMadeOf_invariable :
    IsMadeOf w (uniform w.stem ++ if w.loc then [(sg .loc, [w.stem]), (pl .loc, [w.stem])] else [])
      (invariable w).forms where
  builtFrom := by
    have huniform : BuiltFrom blocks (uniform w.stem) :=
      .fill (show uniform "" ∈ blocks from List.mem_cons_self) w.stem []
    have hlocative : BuiltFrom blocks [(sg .loc, [w.stem]), (pl .loc, [w.stem])] :=
      .fill (show [(sg .loc, [""]), (pl .loc, [""])] ∈ blocks by simp [blocks]) w.stem []
    exact huniform.append (.ite hlocative .nil)
  keys := by
    intro slot hslot
    rw [List.map_append]
    exact List.mem_append_left _ hslot
  locative := by
    dsimp only [invariable]
    refine .as_set fun hloc slot hslot => ?_
    rw [if_pos hloc, List.map_append]
    exact List.mem_append_right _ hslot

variable {o w}

theorem Locative.get? {rows : Rows} {m : FormMap} (h : Locative w rows m) {slot : Slot}
    (hslot : slot ∉ [sg .loc, pl .loc]) : m.get? slot = OrderedMap.find slot rows.reverse := by
  simp only [List.mem_cons, List.not_mem_nil, or_false, not_or] at hslot
  rw [← OrderedMap.get?_ofList]
  cases h <;>
    simp [Third.addLocative, Fourth.addLocative, Ne.symm hslot.1, Ne.symm hslot.2]

/-- What a noun of a regular class is declined to. -/
theorem exists_isMadeOf {e : Engine} {c : Class} {q : Paradigm} (h : decline e w c = .ok q)
    (hindeclinable : c ≠ .indeclinable) (hirregular : c ≠ .irregular) :
    ∃ rows, IsMadeOf w rows q.forms := by
  cases c with
  | first => exact ⟨_, Except.ok.inj h ▸ isMadeOf_first w⟩
  | second => exact ⟨_, Except.ok.inj h ▸ isMadeOf_second e.options w⟩
  | third =>
    obtain ⟨greek, _, h⟩ := bind_eq_ok.mp h
    obtain ⟨bare, _, h⟩ := bind_eq_ok.mp h
    cases h
    exact ⟨_, isMadeOf_third e.options w greek bare⟩
  | fourth => exact ⟨_, Except.ok.inj h ▸ isMadeOf_fourth w⟩
  | fifth => exact ⟨_, Except.ok.inj h ▸ isMadeOf_fifth w⟩
  | invariable => exact ⟨_, Except.ok.inj h ▸ isMadeOf_invariable w⟩
  | indeclinable => exact absurd rfl hindeclinable
  | irregular => exact absurd rfl hirregular

end Noun

namespace Adjective
variable (o : Options) (w : Lexeme)

namespace FirstSecond

def blocks : List Rows := [
  rows { us := "os", um := "on", am := "ān" },
  rows { us := "os", a := "ē", um := "on", ae := "ēs", am := "ēn", longA := "ē" }, rows {},
  [(sgm .nom, [""]), (sgm .voc, [""])], pronominal, [(sgm .voc, ["mī"])], hicType "ill",
  hicType ""]

/-- The rows of an adjective of the first and second declension. -/
def formRows : Rows :=
  FormMap.inflect (stem w) (rows (endings w))
    ++ (if w.has .er then [(sgm .nom, [w.stem]), (sgm .voc, [w.stem])] else [])
    ++ (if w.has .ius then FormMap.inflect (stem w) pronominal else [])
    ++ (if stem w = "me" then [(sgm .voc, ["mī"])] else [])
    ++ (if w.has .ic then FormMap.inflect (stem w) (hicType (stem w)) else [])

theorem forms_eq : forms w = .ofList (formRows w) := rfl

theorem builtFrom_formRows : BuiltFrom blocks (formRows w) := by
  have hendings : rows (endings w) ∈ blocks := by
    unfold endings
    split
    · simp [blocks]
    · split <;> simp [blocks]
  have hhic : ∀ stem, hicType stem ∈ blocks := by
    intro stem
    have hcases : hicType stem = hicType "ill" ∨ hicType stem = hicType "" := by
      unfold hicType
      by_cases h : stem = "ill" <;> simp [h]
    rcases hcases with h | h <;> simp [blocks, h]
  have hnominative : BuiltFrom blocks [(sgm .nom, [w.stem]), (sgm .voc, [w.stem])] :=
    .fill (show [(sgm .nom, [""]), (sgm .voc, [""])] ∈ blocks by simp [blocks]) w.stem []
  unfold formRows
  refine .append (.append (.append (.append (.inflect (.block hendings) _)
    (.ite hnominative .nil)) (.ite (.inflect (.block ?_) _) .nil)) (.ite (.block ?_) .nil))
    (.ite (.inflect (.block (hhic _)) _) .nil)
  all_goals simp [blocks]

theorem mem_keys_formRows {slot : Slot} (h : slot ∈ (rows {}).map Prod.fst) :
    slot ∈ (formRows w).map Prod.fst := by
  simp only [formRows, List.map_append, List.mem_append, keys_inflect]
  exact .inl (.inl (.inl (.inl h)))

end FirstSecond

namespace ThirdOne

def blocks : List Rows := [
  direct.map fun s => (s, [""]), oblique, parisyllabic, greekCells.map fun s => (s, ["es", "ēs"])]

theorem builtFrom_forms : BuiltFrom blocks (forms w) := by
  have hdirect : BuiltFrom blocks (direct.map fun s => (s, [w.stem])) :=
    .fill (show direct.map (fun s => (s, [""])) ∈ blocks by simp [blocks]) w.stem []
  unfold forms
  refine .append (.append (.append hdirect (.inflect (.block ?_) _))
    (.ite (.inflect (.block ?_) _) .nil)) (.ite (.inflect (.block ?_) _) .nil)
  all_goals simp [blocks]

theorem mem_keys_forms {slot : Slot} (h : slot ∈ direct ∨ slot ∈ oblique.map Prod.fst) :
    slot ∈ (forms w).map Prod.fst := by
  have hdirect : (direct.map fun s => (s, [w.stem])).map Prod.fst = direct := rfl
  simp only [forms, List.map_append, List.mem_append, keys_inflect, hdirect]
  exact .inl (.inl h)

end ThirdOne

namespace Comparative

def blocks : List Rows := neuter "" :: ThirdOne.blocks

theorem builtFrom_rows :
    BuiltFrom blocks (ThirdOne.forms (asThirdOne w) ++ neuter w.stem) := by
  have hneuter : BuiltFrom blocks (neuter w.stem) :=
    .fill (show neuter "" ∈ blocks by simp [blocks]) (w.stem ++ "us") []
  exact ((ThirdOne.builtFrom_forms _).mono fun b hb => List.mem_cons_of_mem _ hb).append hneuter

end Comparative

namespace Participle

def blocks : List Rows :=
  [(sgm .abl, [""]), (sgn .abl, [""])] :: [(plm .acc, ["ēs", "īs"])] :: ThirdOne.blocks

theorem builtFrom_rows :
    BuiltFrom blocks (ThirdOne.forms w ++ FormMap.inflect w.obliqueStem (endings o w)) := by
  have hthird : ∀ b ∈ ThirdOne.blocks, b ∈ blocks := fun b hb =>
    List.mem_cons_of_mem _ (List.mem_cons_of_mem _ hb)
  have hablative : BuiltFrom blocks [(sgm .abl, ablative o w), (sgn .abl, ablative o w)] := by
    refine .map (fun _ => ablative o w) (fun _ _ => ?_) (.block List.mem_cons_self)
    unfold ablative
    split
    · simp
    · split <;> simp
  refine ((ThirdOne.builtFrom_forms w).mono hthird).append (.inflect (.append hablative ?_) _)
  exact .block (List.mem_cons_of_mem _ List.mem_cons_self)

end Participle

/-- The rows of a word of one form. -/
def uniform (form : String) : Rows :=
  [.nom, .gen, .dat, .acc, .abl, .loc, .voc].flatMap fun c => [(sgm c, [form]), (plm c, [form])]

def SecondSecond.blocks : List Rows := [endings true, endings false]

namespace ThirdThree

def blocks : List Rows :=
  [[(sgm .nom, [""]), (sgm .voc, [""])], nominatives ++ common ++ accusatives]

/-- The rows of an adjective of three terminations. -/
def rows : Rows :=
  [(sgm .nom, [w.stem]), (sgm .voc, [w.stem])]
    ++ FormMap.inflect w.obliqueStem (nominatives ++ common ++ accusatives)

theorem builtFrom_rows : BuiltFrom blocks (rows w) := by
  have hdirect : BuiltFrom blocks [(sgm .nom, [w.stem]), (sgm .voc, [w.stem])] :=
    .fill (show [(sgm .nom, [""]), (sgm .voc, [""])] ∈ blocks by simp [blocks]) w.stem []
  exact .append hdirect (.inflect (.block (by simp [blocks])) _)

theorem mem_keys_rows {slot : Slot} (h : slot ∈ [sgm .nom, sgm .voc] ∨
    slot ∈ (nominatives ++ common ++ accusatives).map Prod.fst) :
    slot ∈ (rows w).map Prod.fst := by
  rw [rows, List.map_append, keys_inflect]
  exact List.mem_append.mpr h

end ThirdThree

/-- The blocks of the regular classes. -/
def blocks : List Rows :=
  uniform "" :: FirstFirst.endings :: ThirdTwo.endings ::
    (FirstSecond.blocks ++ SecondSecond.blocks ++ Comparative.blocks ++ Participle.blocks
      ++ ThirdThree.blocks)

/-- The masculine cells, which stand in for those of the other genders. -/
def cells : List Slot := Case.all.flatMap fun c => [sgm c, plm c]

/-- The rows of an adjective that goes by rules: they set every masculine cell. -/
structure IsMadeOf (rows : Rows) : Prop where
  builtFrom : BuiltFrom blocks rows
  keys : ∀ slot ∈ cells, slot ∈ rows.map Prod.fst

theorem isMadeOf_uniform (form : String) : IsMadeOf (uniform form) where
  builtFrom := .fill (show uniform "" ∈ blocks from List.mem_cons_self) form []
  keys := show ∀ slot ∈ cells, slot ∈ (uniform "").map Prod.fst by decide

theorem isMadeOf_inflect {b : Rows} (hb : b ∈ blocks)
    (hcells : ∀ slot ∈ cells, slot ∈ b.map Prod.fst) (stem : String) :
    IsMadeOf (FormMap.inflect stem b) where
  builtFrom := .inflect (.block hb) stem
  keys := by rwa [keys_inflect]

theorem isMadeOf_firstSecond : IsMadeOf (FirstSecond.formRows w) where
  builtFrom := (FirstSecond.builtFrom_formRows w).mono (by simp +contextual [blocks])
  keys := by
    have hrows : ∀ slot ∈ cells, slot ∈ (FirstSecond.rows {}).map Prod.fst := by decide
    exact fun slot hslot => FirstSecond.mem_keys_formRows w (hrows slot hslot)

theorem ThirdOne.cells_subset_keys : ∀ slot ∈ cells, slot ∈ (forms w).map Prod.fst := by
  have hbasic : ∀ slot ∈ cells, slot ∈ direct ∨ slot ∈ oblique.map Prod.fst := by decide
  exact fun slot hslot => mem_keys_forms w (hbasic slot hslot)

theorem isMadeOf_thirdOne : IsMadeOf (ThirdOne.forms w) where
  builtFrom := (ThirdOne.builtFrom_forms w).mono (by
    simp +contextual [blocks, Comparative.blocks])
  keys := ThirdOne.cells_subset_keys w

theorem isMadeOf_comparative :
    IsMadeOf (ThirdOne.forms (Comparative.asThirdOne w) ++ Comparative.neuter w.stem) where
  builtFrom := (Comparative.builtFrom_rows w).mono (by simp +contextual [blocks])
  keys slot hslot := by
    rw [List.map_append]
    exact List.mem_append_left _ (ThirdOne.cells_subset_keys _ slot hslot)

theorem isMadeOf_participle :
    IsMadeOf (ThirdOne.forms w ++
      FormMap.inflect w.obliqueStem (Participle.endings o w)) where
  builtFrom := (Participle.builtFrom_rows o w).mono (by simp +contextual [blocks])
  keys slot hslot := by
    rw [List.map_append]
    exact List.mem_append_left _ (ThirdOne.cells_subset_keys w slot hslot)

theorem isMadeOf_thirdThree : IsMadeOf (ThirdThree.rows w) where
  builtFrom := (ThirdThree.builtFrom_rows w).mono (by simp +contextual [blocks])
  keys := by
    have hbasic : ∀ slot ∈ cells, slot ∈ [sgm .nom, sgm .voc] ∨
        slot ∈ (ThirdThree.nominatives ++ ThirdThree.common ++ ThirdThree.accusatives).map
          Prod.fst := by
      decide
    exact fun slot hslot => ThirdThree.mem_keys_rows w (hbasic slot hslot)

variable {o w}

/-- What an adjective of a regular class is declined to. -/
theorem exists_isMadeOf {e : Engine} {c : Class} {q : Paradigm} (h : decline e w c = .ok q)
    (hirregular : c ≠ .irregular) : ∃ rows, IsMadeOf rows ∧ q.forms = .ofList rows := by
  cases c with
  | indeclinable =>
    obtain rfl : indeclinable w = q := Except.ok.inj h
    exact ⟨_, isMadeOf_uniform w.stem, by rw [indeclinable, uniform]⟩
  | firstSecond =>
    obtain ⟨_, _, h⟩ := bind_eq_ok.mp h
    cases h
    exact ⟨_, isMadeOf_firstSecond w, by rw [FirstSecond.forms_eq]⟩
  | firstFirst =>
    obtain rfl : firstFirst w = q := Except.ok.inj h
    have hendings : FirstFirst.endings ∈ blocks := by simp [blocks]
    exact ⟨_, isMadeOf_inflect hendings (by decide) w.stem, by rw [firstFirst]⟩
  | secondSecond =>
    obtain rfl : secondSecond w = q := Except.ok.inj h
    have hendings : SecondSecond.endings (w.has .greek) ∈ blocks := by
      cases w.has .greek <;> simp [blocks, SecondSecond.blocks]
    have hcells : ∀ greek, ∀ slot ∈ cells,
        slot ∈ (SecondSecond.endings greek).map Prod.fst := by
      decide
    exact ⟨_, isMadeOf_inflect hendings (hcells _) w.stem, by rw [secondSecond]⟩
  | thirdOne =>
    obtain rfl : thirdOne w = q := Except.ok.inj h
    exact ⟨_, isMadeOf_thirdOne w, by rw [thirdOne]⟩
  | comparative =>
    obtain rfl : comparative w = q := Except.ok.inj h
    exact ⟨_, isMadeOf_comparative w, by rw [comparative]⟩
  | participle =>
    obtain rfl : participle e.options w = q := Except.ok.inj h
    exact ⟨_, isMadeOf_participle e.options w, by rw [participle]⟩
  | thirdTwo =>
    obtain rfl : thirdTwo w = q := Except.ok.inj h
    have hendings : ThirdTwo.endings ∈ blocks := by simp [blocks]
    exact ⟨_, isMadeOf_inflect hendings (by decide) w.stem, by rw [thirdTwo]⟩
  | thirdThree =>
    obtain rfl : thirdThree w = q := Except.ok.inj h
    exact ⟨_, isMadeOf_thirdThree w, by rw [thirdThree, ThirdThree.rows]⟩
  | irregular => exact absurd rfl hirregular

end Adjective

namespace Segment

/-- The classes of adjectives that have rules instead of paradigms written out by hand. -/
def regularAdjectiveClasses : List String :=
  ["0", "1&2", "1-1", "2-2", "3-1", "3-2", "3-3", "3-C", "3-P"]

/-- Whether the word goes by the rules of a class. -/
def IsRegular (s : Segment) : Prop :=
  s.decl ∈ if s.isAdj then regularAdjectiveClasses else regularClasses

instance : DecidablePred IsRegular := fun s =>
  inferInstanceAs (Decidable (s.decl ∈ if s.isAdj then regularAdjectiveClasses else regularClasses))

variable {e : Engine} {s : Segment} {w : Lexeme} {p : Paradigm}

theorem exists_class_of_noun (h : s.paradigm e w = .ok p) (hadj : s.isAdj = false) :
    ∃ c q, Noun.Class.ofName? s.decl = some c ∧ Noun.decline e w c = .ok q ∧
      p.forms = q.forms := by
  obtain ⟨q, hq, hforms⟩ := exists_decline_of_paradigm h
  rw [decline, hadj, if_neg Bool.false_ne_true] at hq
  split at hq
  · exact ⟨_, q, ‹_›, hq, hforms⟩
  · cases hq

theorem exists_class_of_adjective (h : s.paradigm e w = .ok p) (hadj : s.isAdj = true) :
    ∃ c q, Adjective.Class.ofName? s.decl = some c ∧ Adjective.decline e w c = .ok q ∧
      p.forms = q.forms := by
  obtain ⟨q, hq, hforms⟩ := exists_decline_of_paradigm h
  rw [decline, hadj, if_pos rfl] at hq
  split at hq
  · exact ⟨_, q, ‹_›, hq, hforms⟩
  · cases hq

theorem IsRegular.noun_class (hs : s.IsRegular) (hadj : s.isAdj = false) {c : Noun.Class}
    (hc : Noun.Class.ofName? s.decl = some c) : c ≠ .indeclinable ∧ c ≠ .irregular := by
  have hall : ∀ decl ∈ regularClasses, Noun.Class.ofName? decl ≠ some .indeclinable ∧
      Noun.Class.ofName? decl ≠ some .irregular := by
    decide
  rw [IsRegular, hadj, if_neg Bool.false_ne_true] at hs
  obtain ⟨hindeclinable, hirregular⟩ := hall _ hs
  exact ⟨fun h => hindeclinable (h ▸ hc), fun h => hirregular (h ▸ hc)⟩

theorem IsRegular.adjective_class (hs : s.IsRegular) (hadj : s.isAdj = true)
    {c : Adjective.Class} (hc : Adjective.Class.ofName? s.decl = some c) : c ≠ .irregular := by
  have hall : ∀ decl ∈ regularAdjectiveClasses,
      Adjective.Class.ofName? decl ≠ some .irregular := by
    decide
  rw [IsRegular, hadj, if_pos rfl] at hs
  exact fun h => hall _ hs (h ▸ hc)

end Segment
end Declension
