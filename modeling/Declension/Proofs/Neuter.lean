import Declension.Proofs.Blocks
import Declension.Proofs.RunLaws
import Declension.Run.Reader
import Declension.Tables.Latin

/-!
# Nominative and accusative of the neuter

The neuter has one form for nominative and accusative. An adjective keeps to this however it comes
by its neuter: its class sets both cells alike, or one of them takes over the masculine that has
the form of the other. Main statement: `Run.neuter_forms_eq`. A noun keeps to it unless it goes by a
Greek type that inflects a shortened stem, which is then its accusative:
`Segment.accusative_eq_nominative_iff`.
-/
namespace Declension
open Slot

/-- Whether a number of the neuter is set, with the same forms in nominative and accusative. -/
structure SetsNeuter (m : FormMap) (n : Number) : Prop where
  agrees : m.get? (.cell .nom n (some .n)) = m.get? (.cell .acc n (some .n))
  contains : m.contains (.cell .nom n (some .n))

theorem SetsNeuter.read {m : FormMap} {n : Number} (h : SetsNeuter m n) :
    m.read (.cell .nom n (some .n)) = m.read (.cell .acc n (some .n)) := by
  obtain ⟨forms, hforms⟩ := Option.isSome_iff_exists.mp h.contains
  rw [FormMap.read, FormMap.read, ← h.agrees, hforms, Option.some_or, Option.some_or]

theorem setsNeuter_ofList {blocks : List Rows} {rows : Rows} {n : Number}
    (h : BuiltFrom blocks rows)
    (hblocks : ∀ b ∈ blocks, OrderedMap.find (.cell .nom n (some .n)) b.reverse =
      OrderedMap.find (.cell .acc n (some .n)) b.reverse)
    (hset : .cell .nom n (some .n) ∈ rows.map Prod.fst) : SetsNeuter (.ofList rows) n where
  agrees := by rw [OrderedMap.get?_ofList, OrderedMap.get?_ofList, h.find_eq hblocks]
  contains := OrderedMap.contains_ofList.mpr hset

namespace Adjective
variable (o : Options) (w : Lexeme) (n : Number)

theorem setsNeuter_firstSecond : SetsNeuter (FirstSecond.forms w) n := by
  rw [FirstSecond.forms_eq]
  refine setsNeuter_ofList (FirstSecond.builtFrom_formRows w) ?_ ?_
  · cases n <;> decide
  · exact FirstSecond.mem_keys_formRows w (by cases n <;> decide)

theorem ThirdOne.neuter_mem_keys : .cell .nom n (some .n) ∈ (forms w).map Prod.fst :=
  mem_keys_forms w (by cases n <;> decide)

theorem setsNeuter_thirdOne : SetsNeuter (.ofList (ThirdOne.forms w)) n :=
  setsNeuter_ofList (ThirdOne.builtFrom_forms w) (by cases n <;> decide)
    (ThirdOne.neuter_mem_keys w n)

theorem setsNeuter_comparative : SetsNeuter
    (.ofList (ThirdOne.forms (Comparative.asThirdOne w) ++ Comparative.neuter w.stem)) n := by
  refine setsNeuter_ofList (Comparative.builtFrom_rows w) (by cases n <;> decide) ?_
  rw [List.map_append]
  exact List.mem_append_left _ (ThirdOne.neuter_mem_keys _ n)

theorem setsNeuter_participle : SetsNeuter (.ofList (ThirdOne.forms w ++
    FormMap.inflect w.obliqueStem (Participle.endings o w))) n := by
  refine setsNeuter_ofList (Participle.builtFrom_rows o w) (by cases n <;> decide) ?_
  rw [List.map_append]
  exact List.mem_append_left _ (ThirdOne.neuter_mem_keys w n)

theorem setsNeuter_inflect {b : Rows} (stem : String)
    (hsame : OrderedMap.find (.cell .nom n (some .n)) b.reverse =
      OrderedMap.find (.cell .acc n (some .n)) b.reverse)
    (hset : .cell .nom n (some .n) ∈ b.map Prod.fst) :
    SetsNeuter (.ofList (FormMap.inflect stem b)) n := by
  have hbuilt : BuiltFrom [b] (FormMap.inflect stem b) := .inflect (.block List.mem_cons_self) stem
  refine setsNeuter_ofList hbuilt ?_ ?_
  · simpa using hsame
  · rwa [keys_inflect]

theorem setsNeuter_thirdThree : SetsNeuter (.ofList (ThirdThree.rows w)) n :=
  setsNeuter_ofList (ThirdThree.builtFrom_rows w) (by cases n <;> decide)
    (ThirdThree.mem_keys_rows w (by cases n <;> decide))

/-- A demonstrative has a neuter singular of its own, in both cases. -/
theorem setsNeuter_demonstrative {stem neuter : String} {q : Paradigm}
    (h : demonstrative w stem neuter = .ok q) : SetsNeuter q.forms n := by
  obtain ⟨p, hp, h⟩ := bind_eq_ok.mp h
  obtain ⟨r, _, hp⟩ := bind_eq_ok.mp hp
  obtain rfl := Except.ok.inj hp
  obtain rfl := Except.ok.inj h
  obtain ⟨hagrees, hcontains⟩ := setsNeuter_firstSecond (asPronominal w stem) n
  constructor
  · dsimp only
    rw [OrderedMap.get?_insertMany, OrderedMap.get?_insertMany, hagrees]
    cases n <;> rfl
  · dsimp only
    rw [OrderedMap.contains, OrderedMap.get?_insertMany]
    cases n with
    | sg => rfl
    | pl =>
      have hnone : OrderedMap.find (pln .nom)
          [(sgm .nom, [w.stem]), (sgn .nom, [neuter]), (sgn .acc, [neuter])].reverse = none := rfl
      rw [hnone, Option.none_or]
      exact hcontains

theorem read_neuter_of_mem_irregularAdjectives :
    ∀ q ∈ Latin.irregularAdjectives, ∀ n ∈ Number.all,
      q.forms.read (.cell .nom n (some .n)) = q.forms.read (.cell .acc n (some .n)) := by
  decide

theorem read_formsFor (q : IrregularParadigm) (word : String) (slot : Slot) :
    (q.formsFor word).read slot = (q.forms.read slot).map (IrregularParadigm.fill word) := by
  unfold FormMap.read
  rw [get?_formsFor, funext (get?_formsFor q word)]
  cases q.forms.get? slot with
  | some forms => rfl
  | none =>
    cases slot.masculine? with
    | none => rfl
    | some t => cases h : q.forms.get? t <;> simp [h]

variable {o w}

theorem read_neuter_irregular {q : Paradigm} (h : irregular .latin w = .ok q) :
    q.forms.read (.cell .nom n (some .n)) = q.forms.read (.cell .acc n (some .n)) := by
  unfold irregular at h
  split at h
  · exact (setsNeuter_demonstrative w n h).read
  · obtain ⟨r, hr, h⟩ := bind_eq_ok.mp h
    cases h
    have hmem : r ∈ Latin.irregularAdjectives := Tables.mem_of_irregularAdjective hr
    have hsame := read_neuter_of_mem_irregularAdjectives r hmem n (by cases n <;> decide)
    rw [read_formsFor, read_formsFor, hsame]

/-- Every class of adjectives is read alike in nominative and accusative of the neuter. -/
theorem read_neuter_decline {c : Class} {q : Paradigm} (h : decline ⟨.latin, o⟩ w c = .ok q) :
    q.forms.read (.cell .nom n (some .n)) = q.forms.read (.cell .acc n (some .n)) := by
  cases c with
  | indeclinable =>
    obtain rfl : indeclinable w = q := Except.ok.inj h
    rw [indeclinable]
    simp only [FormMap.read, Slot.masculine?, Option.bind_some, OrderedMap.get?_ofList]
    cases n <;> rfl
  | firstFirst =>
    obtain rfl : firstFirst w = q := Except.ok.inj h
    rw [firstFirst]
    simp only [FormMap.read, Slot.masculine?, Option.bind_some, FormMap.get?_inflect]
    cases n <;> rfl
  | firstSecond =>
    obtain ⟨_, _, h⟩ := bind_eq_ok.mp h
    cases h
    dsimp only
    exact (setsNeuter_firstSecond w n).read
  | secondSecond =>
    obtain rfl : secondSecond w = q := Except.ok.inj h
    dsimp only [secondSecond]
    refine (setsNeuter_inflect n w.stem ?_ ?_).read
    all_goals
      cases n <;> cases w.has .greek <;> decide
  | thirdOne =>
    obtain rfl : thirdOne w = q := Except.ok.inj h
    dsimp only [thirdOne]
    exact (setsNeuter_thirdOne w n).read
  | comparative =>
    obtain rfl : comparative w = q := Except.ok.inj h
    dsimp only [comparative]
    exact (setsNeuter_comparative w n).read
  | participle =>
    obtain rfl : participle o w = q := Except.ok.inj h
    dsimp only [participle]
    exact (setsNeuter_participle o w n).read
  | thirdTwo =>
    obtain rfl : thirdTwo w = q := Except.ok.inj h
    dsimp only [thirdTwo]
    exact (setsNeuter_inflect n w.stem (by cases n <;> decide) (by cases n <;> decide)).read
  | thirdThree =>
    obtain rfl : thirdThree w = q := Except.ok.inj h
    dsimp only [thirdThree]
    rw [← ThirdThree.rows]
    exact (setsNeuter_thirdThree w n).read
  | irregular => exact read_neuter_irregular n h

end Adjective

/-- In an adjective run the neuter accusative is the neuter nominative, in every number that nothing
restricts the run away from. -/
theorem Run.neuter_forms_eq {o : Options} {pos : String} {r : Run} {comp : Composition}
    (h : r.compose ⟨.latin, o⟩ pos true = .ok comp) (n : Number)
    (hnumber : n.other ∉ r.onlyNumbers) :
    (comp.cell (.cell .acc n (some .n))).forms = (comp.cell (.cell .nom n (some .n))).forms := by
  have hcells : ∀ c n, .cell c n (some .n) ∈ Slot.run true := by
    intro c n
    cases c <;> cases n <;> decide
  refine (forms_eq_of_read_eq h hnumber (hcells .nom n) (hcells .acc n) ?_).symm
  intro s run _ p hp hfit k hk hagrees
  have hgender : k = some .n := by
    have hcell := hagrees .nom
    cases hcell
    rfl
  subst hgender
  obtain ⟨c, q, _, hq, hforms⟩ := Segment.exists_class_of_adjective hp hk.symm
  rw [hforms]
  exact Adjective.read_neuter_decline n hq

/-- Two alternatives, one of an irregular paradigm and one that leaves its neuter nominative to the
masculine, before an adjective. -/
theorem Run.neuter_forms_eq_of_iste_and_agricola :
    ∃ r comp, Run.read .latin "((iste<irreg+>,agricola<1-1+>)) magnus<1&2+>" = .ok r ∧
      r.compose ⟨.latin, {}⟩ "adjectives" true = .ok comp ∧ r.onlyNumbers = [] ∧
      (comp.cell (.cell .nom .sg (some .n))).forms = ["istud magnum", "agricola magnum"] ∧
      ∀ n, (comp.cell (.cell .acc n (some .n))).forms =
        (comp.cell (.cell .nom n (some .n))).forms := by
  obtain ⟨r, comp, hr, hcomp, hnumber, hforms⟩ :
      ∃ r comp, Run.read .latin "((iste<irreg+>,agricola<1-1+>)) magnus<1&2+>" = .ok r ∧
        r.compose ⟨.latin, {}⟩ "adjectives" true = .ok comp ∧ r.onlyNumbers = [] ∧
        (comp.cell (.cell .nom .sg (some .n))).forms = ["istud magnum", "agricola magnum"] :=
    ⟨_, _, rfl, rfl, by decide, by decide +kernel⟩
  refine ⟨r, comp, hr, hcomp, hnumber, hforms, fun n => ?_⟩
  exact neuter_forms_eq hcomp n (hnumber ▸ List.not_mem_nil)

namespace Noun
variable (o : Options) {w : Lexeme}

namespace Second

/-- The blocks of a neuter. That of bellum leaves the accusative to the endings before it. -/
def neuterBlocks : List Rows := (basic ++ neuter) :: fullGenitive :: [(pl .gen, [""])] ::
  [(sg .loc, ["iī"]), (pl .loc, ["iīs"])] :: [(sg .loc, ["ī"]), (pl .loc, ["īs"])] :: neuterTypes

theorem builtFrom_of_neuter (h : w.has .N) : BuiltFrom neuterBlocks
    (FormMap.inflect w.stem (onStem o w) ++ FormMap.inflect w.obliqueStem (onOblique w)) := by
  have htype : BuiltFrom neuterBlocks (neuterType w) :=
    (builtFrom_neuterType w).mono (by simp +contextual [neuterBlocks])
  have hplural : BuiltFrom neuterBlocks
      [(pl .gen, if isIStem w then ["iōrum", "ium"] else ["ōrum", "um"])] := by
    refine .map (fun _ => if isIStem w then ["iōrum", "ium"] else ["ōrum", "um"]) (fun _ _ => ?_)
      (.block (show [(pl .gen, [""])] ∈ neuterBlocks by simp [neuterBlocks]))
    split <;> simp
  refine .append (.inflect ?_ _) (.inflect ?_ _)
  · rw [onStem, if_pos h, ← List.append_assoc]
    refine .append (.append (.block ?_) htype) (.ite (.block ?_) .nil)
    all_goals simp [neuterBlocks]
  · rw [onOblique, h, Bool.not_true, Bool.false_and, if_neg Bool.false_ne_true]
    refine .append (.append .nil (.ite hplural .nil)) (.ite (.ite (.block ?_) (.block ?_)) .nil)
    all_goals simp [neuterBlocks]

end Second

/-- The block of the neuter sets what a Greek type set differently before it. -/
theorem Fourth.find_eq_of_neuter (h : w.has .N) :
    OrderedMap.find (sg .acc) (endings w).reverse =
      OrderedMap.find (sg .nom) (endings w).reverse := by
  have hubus : ∀ slot ∈ [sg .acc, sg .nom],
      OrderedMap.find slot (if w.has .ubus then inUbus else []).reverse = none := by
    cases w.has .ubus <;> decide
  unfold endings
  rw [List.reverse_append, OrderedMap.find_append, OrderedMap.find_append, hubus _ (by simp),
    hubus _ (by simp), if_pos h, List.reverse_append, OrderedMap.find_append,
    OrderedMap.find_append]
  rfl

namespace Third

/-- What the Greek types take off the stem. -/
def lostEnding (w : Lexeme) : String :=
  if w.has .polis then "polis"
  else match greek? w with
    | some .inEr => "ēr"
    | some .inOn => "ōn"
    | _ => ""

theorem lostEnding_eq_empty_iff : lostEnding w = "" ↔
    ¬ (w.has .polis ∨ w.has .Greek ∧ (w.has .er ∨ w.has .on)) := by
  unfold lostEnding greek?
  cases w.has .polis <;> cases w.has .Greek <;> cases w.has .er <;> cases w.has .on <;>
    cases w.has .I <;> decide

variable {greek bare : String}

/-- A neuter has as its accusative what the types it goes by have left of the stem. -/
theorem find_accusative (h : w.has .N) :
    OrderedMap.find (sg .acc) (rows o w greek bare).reverse = some [bare] := by
  have hneuter : ∀ b ∈ [neuter, neuterPure, neuterIStem],
      OrderedMap.find (sg .acc) b.reverse = none := by
    decide
  have hblock : (if !w.has .I then neuter else if w.has .pure then neuterPure else neuterIStem) ∈
      [neuter, neuterPure, neuterIStem] := by
    cases w.has .I <;> cases w.has .pure <;> simp
  rw [rows, List.reverse_append, OrderedMap.find_append, kindForms, if_pos h, List.reverse_cons,
    OrderedMap.find_append, FormMap.find_inflect, hneuter _ hblock]
  rfl

/-- The nominative of a Greek type, or of a word that is of none, has the ending back that the stem
has lost to the type. -/
theorem find_greekForms (hgreek : greekStem w = .ok greek) :
    (OrderedMap.find (sg .nom) (greekForms w greek).reverse).or (some [w.stem]) =
      some [greek ++ match greek? w with
        | some .inEr => "ēr"
        | some .inOn => "ōn"
        | _ => ""] := by
  unfold greekStem at hgreek
  unfold greekForms
  cases hg : greek? w with
  | none =>
    obtain rfl : w.stem = greek := by simpa [hg] using hgreek
    simp [OrderedMap.find]
  | some g =>
    cases g with
    | inEr => exact congrArg (Option.or · _) (FormMap.find_inflect greek greekInEr (sg .nom))
    | inOn => exact congrArg (Option.or · _) (FormMap.find_inflect greek greekInOn (sg .nom))
    | iStem =>
      obtain rfl : w.stem = greek := by simpa [hg] using hgreek
      have hnone : ∀ poetic, OrderedMap.find (sg .nom) (greekIStem poetic).reverse = none := by
        decide
      simp [FormMap.find_inflect, hnone]
    | plain =>
      obtain rfl : w.stem = greek := by simpa [hg] using hgreek
      have hvoc : ∀ forms : List String, OrderedMap.find (sg .nom)
          (if dropsS w.stem then [(sg .voc, forms)] else []).reverse = none := by
        intro forms
        split <;> rfl
      have hplain : OrderedMap.find (sg .nom) (greekPlain w.obliqueStem).reverse = none := by
        rw [greekPlain]
        rfl
      simp only [List.reverse_append, OrderedMap.find_append, hvoc, FormMap.find_inflect, hplain,
        Option.map_none, Option.none_or, String.append_empty]

/-- The nominative has the ending that was taken off. -/
theorem find_nominative (hgreek : greekStem w = .ok greek)
    (hbare : bareStem w greek = .ok bare) :
    OrderedMap.find (sg .nom) (rows o w greek bare).reverse = some [bare ++ lostEnding w] := by
  have hoblique : OrderedMap.find (sg .nom) oblique.reverse = none := by decide
  have hpolis : OrderedMap.find (sg .nom) inPolis.reverse = some ["polis"] := by decide
  have hdirect : OrderedMap.find (sg .nom) [(sg .nom, [w.stem]), (sg .voc, [w.stem])].reverse =
      some [w.stem] := rfl
  simp only [rows, List.reverse_append, OrderedMap.find_append,
    find_reverse_eq_none (kindForms_no_nominative bare), hdirect, FormMap.find_inflect, hoblique,
    Option.map_none, Option.none_or, find_greekForms hgreek]
  unfold lostEnding
  unfold bareStem at hbare
  cases hp : w.has .polis with
  | true => simp [FormMap.find_inflect, hpolis]
  | false =>
    obtain rfl : greek = bare := by simpa [hp] using hbare
    rfl

end Third

variable {o}

/-- A neuter has one form for nominative and accusative, but for an ending lost to a Greek type. -/
theorem forms_accusative_iff {e : Engine} {c : Class} {q : Paradigm}
    (h : decline e w c = .ok q) (hclass : c ∈ [.second, .third, .fourth]) (hneuter : w.has .N) :
    q.forms.forms (sg .acc) = q.forms.forms (sg .nom) ↔
      ¬ (c = .third ∧ Third.lostEnding w ≠ "") := by
  have hslots : sg .acc ∉ [sg .loc, pl .loc] ∧ sg .nom ∉ [sg .loc, pl .loc] := by decide
  cases c with
  | second =>
    obtain rfl : second e.options w = q := Except.ok.inj h
    have hrows := (isMadeOf_second e.options w).locative
    have hsame := (Second.builtFrom_of_neuter e.options hneuter).find_eq
      (x := sg .acc) (y := sg .nom) (by decide)
    simp only [FormMap.forms, hrows.get? hslots.1, hrows.get? hslots.2, hsame]
    simp
  | third =>
    obtain ⟨greek, hgreek, h⟩ := bind_eq_ok.mp h
    obtain ⟨bare, hbare, h⟩ := bind_eq_ok.mp h
    cases h
    have hrows := (isMadeOf_third e.options w greek bare).locative
    simp [FormMap.forms, hrows.get? hslots.1, hrows.get? hslots.2,
      Third.find_accusative e.options hneuter,
      Third.find_nominative e.options hgreek hbare, eq_comm (a := bare),
      String.append_eq_left_iff]
  | fourth =>
    obtain rfl : fourth w = q := Except.ok.inj h
    have hrows := (isMadeOf_fourth w).locative
    simp [FormMap.forms, hrows.get? hslots.1, hrows.get? hslots.2, FormMap.find_inflect,
      Fourth.find_eq_of_neuter hneuter]
  | _ => simp at hclass

end Noun

namespace Segment

/-- Whether the word goes by a type of the third declension that takes an ending off its stem: that
in -polis, or the Greek ones in -ēr and -ōn. -/
def LosesEnding (s : Segment) : Prop :=
  s.decl = "3" ∧ (s.tags.has .polis ∨ s.tags.has .Greek ∧ (s.tags.has .er ∨ s.tags.has .on))

instance : DecidablePred LosesEnding := fun _ => inferInstanceAs (Decidable (_ ∧ (_ ∨ _ ∧ _)))

/-- The accusative singular of a neuter of the second, third or fourth declension is its nominative
singular if and only if the word does not go by a type that takes an ending off its stem. -/
theorem accusative_eq_nominative_iff {e : Engine} {s : Segment} {pos : String} {isAdj : Bool}
    {num : Option NumberUse} {gender : Option Gender} {loc : Bool} {p : Paradigm}
    (h : s.paradigm e (s.lexeme pos isAdj num gender loc) = .ok p) (hnoun : s.isAdj = false)
    (hclass : s.decl ∈ ["2", "3", "4"]) (hneuter : s.tags.has .N) :
    p.forms.forms (.sg .acc) = p.forms.forms (.sg .nom) ↔ ¬ s.LosesEnding := by
  have hclasses : ∀ decl ∈ ["2", "3", "4"], ∀ c, Noun.Class.ofName? decl = some c →
      c ∈ [.second, .third, .fourth] ∧ (c = .third ↔ decl = "3") := by
    decide
  obtain ⟨c, q, hc, hq, hforms⟩ := exists_class_of_noun h hnoun
  obtain ⟨hmem, hthird⟩ := hclasses s.decl hclass c hc
  rw [hforms, Noun.forms_accusative_iff hq hmem hneuter, hthird, LosesEnding, ne_eq,
    Noun.Third.lostEnding_eq_empty_iff, not_not]
  rfl

/-- A neuter that keeps its whole stem. -/
theorem accusative_eq_nominative_of_nomen :
    ∃ s p, Segment.read .latin "nōmen<3>" = .ok s ∧
      s.paradigm ⟨.latin, {}⟩ (s.lexeme "nouns" false none none false) = .ok p ∧
      s.isAdj = false ∧ s.decl ∈ ["2", "3", "4"] ∧ s.tags.has .N ∧ ¬ s.LosesEnding ∧
      p.forms.forms (.sg .nom) = ["nōmen"] ∧
      p.forms.forms (.sg .acc) = p.forms.forms (.sg .nom) := by
  obtain ⟨s, p, hs, hp, hnoun, hclass, hneuter, hkeeps, hnom⟩ :
      ∃ s p, Segment.read .latin "nōmen<3>" = .ok s ∧
        s.paradigm ⟨.latin, {}⟩ (s.lexeme "nouns" false none none false) = .ok p ∧
        s.isAdj = false ∧ s.decl ∈ ["2", "3", "4"] ∧ s.tags.has .N ∧ ¬ s.LosesEnding ∧
        p.forms.forms (.sg .nom) = ["nōmen"] :=
    ⟨_, _, rfl, rfl, by decide, by decide, by decide, by decide, by decide +kernel⟩
  exact ⟨s, p, hs, hp, hnoun, hclass, hneuter, hkeeps, hnom,
    (accusative_eq_nominative_iff hp hnoun hclass hneuter).mpr hkeeps⟩

/-- The neuter aēr loses its ending in the accusative. -/
theorem not_accusative_eq_nominative_of_aer :
    ∃ s p, Segment.read .latin "aēr<3.N.Greek.er>" = .ok s ∧
      s.paradigm ⟨.latin, {}⟩ (s.lexeme "nouns" false none none false) = .ok p ∧
      s.isAdj = false ∧ s.decl = "3" ∧ s.tags.has .N ∧
      p.forms.forms (.sg .nom) = ["aēr"] ∧ p.forms.forms (.sg .acc) = ["a"] ∧
      p.forms.forms (.sg .acc) ≠ p.forms.forms (.sg .nom) := by
  refine ⟨_, _, rfl, rfl, by decide, by decide, by decide, ?_, ?_, ?_⟩
  all_goals decide +kernel

end Segment
end Declension
