import Declension.Proofs.Composition
import Declension.Run.Reader
import Declension.Tables.Latin
import Mathlib.Algebra.BigOperators.Group.List.Basic

/-!
# What a run without alternants yields

Every piece of such a run offers candidates for a slot, and the run yields all choices of one
candidate each. Main statement: `compose_expansion`, which gives every form of the run with its
place and its notes.
-/
namespace Declension

/-- The place of a choice among all choices, the last digit varying fastest. -/
def choicePlace : List ℕ → List ℕ → ℕ
  | _ :: sizes, j :: js => j * sizes.prod + choicePlace sizes js
  | _, _ => 0

/-- What a piece of a run offers for a slot: the text it leads with, and its candidates. -/
structure Offer where
  lead : String
  candidates : List NotedForm

namespace Offer
open NotedForm

def size (o : Offer) : ℕ := o.candidates.length

/-- The text of a candidate, and the notes on it. -/
def text (o : Offer) (j : ℕ) : String := (o.candidates[j]?.map Prod.fst).getD ""
def notes (o : Offer) (j : ℕ) : List String := (o.candidates[j]?.map Prod.snd).getD []

/-- The candidates behind the lead. -/
def led (o : Offer) : List NotedForm := o.candidates.map fun x => (o.lead ++ x.1, x.2)

/-- A choice of one candidate for each offer. -/
abbrev IsChoice (os : List Offer) (js : List ℕ) : Prop :=
  List.Forall₂ (fun o j => j < o.size) os js

/-- All choices in order. -/
def all (os : List Offer) : List NotedForm := os.foldr (fun o rest => product o.led rest) [empty]

theorem length_led (o : Offer) : o.led.length = o.size := by
  simp [led, size]

theorem getElem?_led {o : Offer} {j : ℕ} (hj : j < o.size) :
    o.led[j]? = some (o.lead ++ o.text j, o.notes j) := by
  have h : o.candidates[j]? = some o.candidates[j] := List.getElem?_eq_getElem hj
  simp [led, text, notes, h]

theorem length_all (os : List Offer) : (all os).length = (os.map size).prod := by
  induction os with
  | nil => rfl
  | cons o os ih =>
    rw [List.map_cons, List.prod_cons, ← ih, ← length_led]
    exact length_product _ _

theorem place_lt {os : List Offer} {js : List ℕ} (h : IsChoice os js) :
    choicePlace (os.map size) js < (os.map size).prod := by
  induction h with
  | nil => simp [choicePlace]
  | @cons o j os js hj _ ih =>
    simp only [List.map_cons, List.prod_cons, choicePlace]
    have hturn : (j + 1) * (os.map size).prod ≤ o.size * (os.map size).prod :=
      Nat.mul_le_mul_right _ hj
    rw [Nat.succ_mul] at hturn
    omega

theorem foldl_strings (l : List String) (s : String) :
    l.foldl (· ++ ·) s = s ++ l.foldl (· ++ ·) "" := by
  induction l generalizing s with
  | nil => simp
  | cons a l ih =>
    rw [List.foldl_cons, List.foldl_cons, ih, ih ("" ++ a), String.empty_append,
      String.append_assoc]

theorem join_cons (s : String) (l : List String) : String.join (s :: l) = s ++ String.join l := by
  unfold String.join
  rw [List.foldl_cons, foldl_strings, String.empty_append]

theorem getElem?_all {os : List Offer} {js : List ℕ} (h : IsChoice os js) :
    (all os)[choicePlace (os.map size) js]? =
      some (String.join (List.zipWith (fun o j => o.lead ++ o.text j) os js),
        (List.zipWith notes os js).flatten) := by
  induction h with
  | nil => rfl
  | @cons o j os js hj hrest ih =>
    have hlt : choicePlace (os.map size) js < (all os).length := by
      rw [length_all]
      exact place_lt hrest
    have hplace : choicePlace ((o :: os).map size) (j :: js) =
        j * (all os).length + choicePlace (os.map size) js := by
      rw [length_all]
      rfl
    rw [hplace]
    refine (getElem?_product o.led (all os) j _ hlt).trans ?_
    rw [getElem?_led hj, ih]
    simp only [Option.bind_some, Option.map_some, join, List.zipWith_cons_cons, join_cons,
      List.flatten_cons]

/-- A cell holds just the choices: one form for each, at its place, with the notes of the chosen
candidates in order; and no notes are stored that are empty or lie on no form. -/
structure Expands (os : List Offer) (c : Cell) : Prop where
  length : c.forms.length = (os.map size).prod
  form : ∀ js, IsChoice os js → c.forms[choicePlace (os.map size) js]? =
    some (String.join (List.zipWith (fun o j => o.lead ++ o.text j) os js))
  notes : ∀ js, IsChoice os js → c.notes.get? (choicePlace (os.map size) js) =
    if (List.zipWith notes os js).flatten = [] then none
    else some (List.zipWith notes os js).flatten
  stored : ∀ place notes, (place, notes) ∈ c.notes.entries →
    place < c.forms.length ∧ notes ≠ []

theorem expands_of_noted {os : List Offer} {c : Cell} (hc : c.IsNormal) (h : c.noted = all os) :
    Expands os c := by
  have hlength : c.forms.length = (os.map size).prod := by
    rw [← length_all, ← h, Cell.length_noted]
  have hat : ∀ js, IsChoice os js → c.forms[choicePlace (os.map size) js]? =
      some (String.join (List.zipWith (fun o j => o.lead ++ o.text j) os js)) ∧
      c.notesAt (choicePlace (os.map size) js) = (List.zipWith Offer.notes os js).flatten := by
    intro js hjs
    have hchoice := getElem?_all hjs
    rw [← h, Cell.getElem?_noted, Option.map_eq_some_iff] at hchoice
    obtain ⟨form, hform, hpair⟩ := hchoice
    rw [Prod.mk.injEq] at hpair
    exact ⟨hform.trans (congrArg some hpair.1), hpair.2⟩
  refine ⟨hlength, fun js hjs => (hat js hjs).1, ?_, ?_⟩
  · intro js hjs
    have hlt : choicePlace (os.map size) js < c.forms.length := hlength ▸ place_lt hjs
    rw [hc.get?_notes, (hat js hjs).2]
    by_cases hempty : (List.zipWith Offer.notes os js).flatten = []
    · rw [if_pos hempty, if_neg fun hboth => hboth.2 hempty]
    · rw [if_neg hempty, if_pos ⟨hlt, hempty⟩]
  · intro place notes hmem
    rw [hc] at hmem
    obtain ⟨hlt, _, hne⟩ := Cell.mem_placed.mp hmem
    exact ⟨hlt, hne⟩

end Offer

/-- Plain text offers itself alone. -/
def Literal.offer (l : Literal) (slot : Slot) : Offer :=
  ⟨"", [(if slot.isLinked then l.linkedText else l.text, [])]⟩

/-- A declined word offers its forms, in the slot that fills the slot of the run, each with the note
that declining it put on that place. Before that its nominatives are written with links, its forms
spelt with ligatures and given variants in -n if the word is tagged for either, and the forms of the
one number it is used in copied onto the other. -/
def Segment.offer (s : Segment) (isAdj : Bool) (num : Option NumberUse) (gender : Option Gender)
    (p : Paradigm) (slot : Slot) : Offer :=
  let linked := s.addLinked p.forms
  let joined := if s.tags.has .lig then linked.ligate s.isAdj else linked
  let varied := if s.tags.has .sufn then joined.addNasals s.isAdj else joined
  let m := match num with
    | some .sg => varied.mirrorNumber .sg s.isAdj
    | some .pl => varied.mirrorNumber .pl s.isAdj
    | _ => varied
  let source := s.source isAdj gender m slot
  { lead := if slot.isLinked then s.linkedLead else s.lead
    candidates := (m.forms source).mapIdx fun place form =>
      (form, (given (p.notes.get? (.form source place))).toList) }

/-- What the pieces of a run offer, slot by slot. Number and gender of a word come from the word,
else from the run. -/
inductive Piece.Offers (e : Engine) (pos : String) (isAdj : Bool) (run : Summary) :
    Piece → (Slot → Offer) → Prop
  | literal (l : Literal) : Piece.Offers e pos isAdj run (.literal l) l.offer
  | word {s : Segment} {num : Option NumberUse} {gender : Option Gender} {p : Paradigm} :
      num = (s.num.map NumberUse.ofNumber <|> run.num) → gender = (s.gender <|> run.gender) →
      s.paradigm e (s.lexeme pos isAdj num gender run.loc) = .ok p →
      Piece.Offers e pos isAdj run (.word s) (s.offer isAdj num gender p)

namespace Segment

theorem notesAt_cellAt (m : FormMap) (notes : OrderedMap NoteKey String) (slot : Slot)
    {place : ℕ} (hp : place < (m.forms slot).length) :
    (cellAt m notes slot).notesAt place = (given (notes.get? (.form slot place))).toList := by
  have hg : ∀ p entry, (given (notes.get? (.form slot p))).map (fun note => (p, [note])) =
      some entry → entry.1 = p := by
    intro p entry h
    obtain ⟨note, _, rfl⟩ := Option.map_eq_some_iff.mp h
    rfl
  rw [Cell.notesAt, OrderedMap.get?, cellAt, OrderedMap.find_filterMap_range _ hg, if_pos hp]
  cases given (notes.get? (.form slot place)) <;> rfl

theorem noted_cellAt (m : FormMap) (notes : OrderedMap NoteKey String) (slot : Slot) :
    (cellAt m notes slot).noted = (m.forms slot).mapIdx fun place form =>
      (form, (given (notes.get? (.form slot place))).toList) := by
  apply List.ext_getElem?
  intro place
  rw [Cell.getElem?_noted, List.getElem?_mapIdx]
  by_cases hp : place < (m.forms slot).length
  · rw [notesAt_cellAt m notes slot hp]
    rfl
  · rw [List.getElem?_eq_none (by simpa using hp : (m.forms slot).length ≤ place)]
    have hnone : (cellAt m notes slot).forms[place]? = none :=
      List.getElem?_eq_none (by simpa [cellAt] using hp)
    rw [hnone]
    rfl

end Segment

theorem Cell.noted_withLead (lead : String) (c : Cell) :
    (c.withLead lead).noted = c.noted.map fun x => (lead ++ x.1, x.2) := by
  apply List.ext_getElem?
  intro place
  simp [getElem?_noted, withLead, notesAt, Function.comp_def]

/-- The cells of a declined piece hold what the piece offers. -/
theorem Piece.exists_offers {e : Engine} {pos : String} {isAdj : Bool} {run : Summary}
    {piece : Piece} {c : Composition} (h : piece.compose e pos isAdj run = .ok c) :
    ∃ offer, Piece.Offers e pos isAdj run piece offer ∧
      ∀ slot, (c.cell slot).noted = (offer slot).led := by
  cases piece with
  | literal l =>
    cases h
    refine ⟨l.offer, .literal l, ?_⟩
    intro slot
    simp [Literal.composition, Literal.offer, Offer.led, Cell.noted, Cell.notesAt]
  | word s =>
    obtain ⟨p, hp, h⟩ := bind_eq_ok.mp h
    refine ⟨_, .word rfl rfl hp, ?_⟩
    split at h
    · cases h
    · cases h
      intro slot
      rw [Segment.contribution, Cell.noted_withLead, Segment.noted_cellAt]
      rcases (s.num.map NumberUse.ofNumber <|> run.num) with _ | _ | _ | _ <;> rfl

namespace Composition

theorem noted_foldl_append (slot : Slot) (parts : List Composition) (a : Composition) :
    ((parts.foldl append a).cell slot).noted = NotedForm.product (a.cell slot).noted
      ((parts.map fun c => (c.cell slot).noted).foldr NotedForm.product [NotedForm.empty]) := by
  induction parts generalizing a with
  | nil => simp
  | cons b parts ih =>
    rw [List.foldl_cons, ih, List.map_cons, List.foldr_cons, ← NotedForm.product_assoc]
    simp only [append, Cell.noted_append]

theorem noted_concat (slot : Slot) (parts : List Composition) :
    ((concat parts).cell slot).noted =
      (parts.map fun c => (c.cell slot).noted).foldr NotedForm.product [NotedForm.empty] := by
  rw [concat, noted_foldl_append]
  simp [unit]

end Composition

/-- The pieces of a run offer, slot by slot, what the cells of its parts hold. -/
theorem Piece.exists_offers_of_parts {e : Engine} {pos : String} {isAdj : Bool} {run : Summary}
    {pieces : List Piece} {parts : List Composition}
    (h : List.Forall₂ (fun piece part => piece.compose e pos isAdj run = .ok part) pieces parts) :
    ∃ offers, List.Forall₂ (Piece.Offers e pos isAdj run) pieces offers ∧
      List.Forall₂ (fun part offer => ∀ slot, (part.cell slot).noted = (offer slot).led)
        parts offers := by
  induction h with
  | nil => exact ⟨[], .nil, .nil⟩
  | cons hpart _ ih =>
    obtain ⟨offer, hoffer, hcell⟩ := Piece.exists_offers hpart
    obtain ⟨offers, hrest, hcells⟩ := ih
    exact ⟨offer :: offers, .cons hoffer hrest, .cons hcell hcells⟩

theorem Composition.noted_concat_eq_all {parts : List Composition} {offers : List (Slot → Offer)}
    (h : List.Forall₂ (fun part offer => ∀ slot, (part.cell slot).noted = (offer slot).led)
      parts offers) (slot : Slot) :
    ((concat parts).cell slot).noted = Offer.all (offers.map (· slot)) := by
  rw [noted_concat, Offer.all, List.foldr_map, List.foldr_map]
  induction h with
  | nil => rfl
  | cons hcell _ ih => simp only [List.foldr_cons, ih, hcell slot]

/-- A run of words and plain text yields in every slot all choices of one candidate for each
piece, the last piece varying fastest, each with the notes of its candidates. -/
theorem Run.compose_expansion {e : Engine} {pos : String} {isAdj : Bool} {pieces : List Piece}
    {s : Summary} {c : Composition}
    (h : Run.compose e pos isAdj ⟨pieces.map .piece, s⟩ = .ok c) :
    ∃ offers, List.Forall₂ (Piece.Offers e pos isAdj s) pieces offers ∧
      ∀ slot, Offer.Expands (offers.map (· slot)) (c.cell slot) := by
  have hnormal := isNormal_of_compose e pos isAdj h
  obtain ⟨parts, hparts, rfl⟩ := (compose_eq_ok e pos isAdj).mp h
  rw [List.forall₂_map_left_iff] at hparts
  obtain ⟨offers, hoffers, hcells⟩ := Piece.exists_offers_of_parts hparts
  refine ⟨offers, hoffers, fun slot => ?_⟩
  exact Offer.expands_of_noted (hnormal.cell slot) (Composition.noted_concat_eq_all hcells slot)

/-- Two words that both have two genitives in the plural, the second of each with a note. -/
theorem Run.compose_expansion_two_genitives :
    ∃ r c, PlainRun.read .latin "fīlius<2.genplum> deus<2.genplum>".toList = .ok r ∧
      Run.compose ⟨.latin, {}⟩ "nouns" false ⟨r.pieces.map .piece, r.summary⟩ = .ok c ∧
      ((c.cell (.pl .gen)).forms =
          ["fīliōrum deōrum", "fīliōrum deum", "fīlium deōrum", "fīlium deum"] ∧
        (c.cell (.pl .gen)).notes.entries.map (fun e => (e.1, e.2.length)) =
          [(1, 1), (2, 1), (3, 2)]) ∧
      ∃ offers, List.Forall₂ (Piece.Offers ⟨.latin, {}⟩ "nouns" false r.summary) r.pieces offers ∧
        ∀ slot, Offer.Expands (offers.map (· slot)) (c.cell slot) := by
  obtain ⟨r, hr, c, hc, hcell⟩ : ∃ r,
      PlainRun.read .latin "fīlius<2.genplum> deus<2.genplum>".toList = .ok r ∧
      ∃ c, Run.compose ⟨.latin, {}⟩ "nouns" false ⟨r.pieces.map .piece, r.summary⟩ = .ok c ∧
        (c.cell (.pl .gen)).forms =
            ["fīliōrum deōrum", "fīliōrum deum", "fīlium deōrum", "fīlium deum"] ∧
          (c.cell (.pl .gen)).notes.entries.map (fun e => (e.1, e.2.length)) =
            [(1, 1), (2, 1), (3, 2)] :=
    ⟨_, rfl, _, rfl, by decide, by decide⟩
  exact ⟨r, c, hr, hc, hcell, Run.compose_expansion hc⟩

end Declension
