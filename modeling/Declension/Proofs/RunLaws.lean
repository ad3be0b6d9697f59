import Declension.Proofs.Finish
import Declension.Proofs.Lacking

/-!
# Laws that runs inherit from their words

Cells are strung together along a run, merged over the branches of an alternant, emptied for one
number and copied from one number onto the other. A law of cells that these four steps keep holds
of every run whose declined words obey it. Main statement: `law_of_compose`.
-/
namespace Declension

namespace PlainRun

def declined (b : PlainRun) : List Segment := b.pieces.filterMap Piece.declined?

/-- The declined words, each with the run that it stands in. -/
def uses (b : PlainRun) : List (Segment × Summary) := b.declined.map (·, b.summary)

end PlainRun

namespace Node

/-- The branches of a node, in the use that the run makes of them. -/
def branches (run : Summary) : Node → List PlainRun
  | piece _ => []
  | alternant a => a.branches.map (a.settle run)

/-- The declined words of a node, each with the run or branch that it stands in. -/
def uses (run : Summary) : Node → List (Segment × Summary)
  | piece p => p.declined?.toList.map (·, run)
  | alternant a => a.branches.flatMap fun b => (a.settle run b).uses

end Node

namespace Run

/-- The declined words of a run, each with the run or branch that it stands in. -/
def uses (r : Run) : List (Segment × Summary) := r.nodes.flatMap (Node.uses r.summary)

def declined (r : Run) : List Segment := r.uses.map Prod.fst

/-- What is known of the run itself and of each of its branches. -/
def summaries (r : Run) : List Summary :=
  r.summary :: (r.nodes.flatMap (Node.branches r.summary)).map PlainRun.summary

/-- The numbers that the run, a branch of it or a declined word is restricted to. -/
def onlyNumbers (r : Run) : List Number :=
  r.summaries.filterMap (fun s => s.num.bind NumberUse.only?) ++ r.declined.filterMap Segment.num

variable {r : Run} {s : Segment} {run : Summary}

/-- A word stands in the run itself or in a branch. -/
theorem summary_of_mem_uses (h : (s, run) ∈ r.uses) : run = r.summary ∨
    ∃ a b, Node.alternant a ∈ r.nodes ∧ b ∈ a.branches ∧ run = (a.settle r.summary b).summary := by
  obtain ⟨node, hnode, h⟩ := List.mem_flatMap.mp h
  cases node with
  | piece p =>
    obtain ⟨_, _, heq⟩ := List.mem_map.mp h
    exact .inl (congrArg Prod.snd heq).symm
  | alternant a =>
    obtain ⟨b, hb, h⟩ := List.mem_flatMap.mp h
    obtain ⟨_, _, heq⟩ := List.mem_map.mp h
    exact .inr ⟨a, b, hnode, hb, (congrArg Prod.snd heq).symm⟩

theorem loc_of_mem_uses (h : (s, run) ∈ r.uses) (hloc : r.summary.loc) : run.loc := by
  rcases summary_of_mem_uses h with rfl | ⟨a, b, _, _, rfl⟩
  · exact hloc
  · simp [Alternant.settle, hloc]

theorem mem_summaries_of_mem_uses (h : (s, run) ∈ r.uses) : run ∈ r.summaries := by
  rcases summary_of_mem_uses h with rfl | ⟨a, b, ha, hb, rfl⟩
  · exact List.mem_cons_self
  · refine List.mem_cons_of_mem _ (List.mem_map_of_mem (List.mem_flatMap.mpr ⟨_, ha, ?_⟩))
    exact List.mem_map_of_mem hb

theorem mem_onlyNumbers_of_summary {n : Number} (h : run ∈ r.summaries)
    (hn : run.num.bind NumberUse.only? = some n) : n ∈ r.onlyNumbers :=
  List.mem_append_left _ (List.mem_filterMap.mpr ⟨run, h, hn⟩)

/-- The number of a word in its run is the word's own or that of the run. -/
theorem mem_onlyNumbers_of_use {n : Number} (h : (s, run) ∈ r.uses)
    (hn : (s.numberIn run).bind NumberUse.only? = some n) : n ∈ r.onlyNumbers := by
  unfold Segment.numberIn at hn
  cases hnum : s.num with
  | none =>
    rw [hnum] at hn
    exact mem_onlyNumbers_of_summary (mem_summaries_of_mem_uses h) hn
  | some k =>
    have hk : k = n := by simpa [hnum, NumberUse.only?_ofNumber] using hn
    refine List.mem_append_right _ (List.mem_filterMap.mpr ⟨s, ?_, hk ▸ hnum⟩)
    exact List.mem_map_of_mem h

end Run

/-- A law of cells that declining a run keeps, if nothing in the run is restricted to a number
outside of `numbers`. -/
structure IsLaw (numbers : List Number) (P : (Slot → Cell) → Prop) : Prop where
  text : ∀ shown linked : String, P fun slot => ⟨[if slot.isLinked then linked else shown], ∅⟩
  append : ∀ {a b}, P a → P b → P fun slot => (a slot).append (b slot)
  merge : ∀ {a b}, P a → P b → P fun slot => (a slot).merge (b slot)
  blank : ∀ {a}, ∀ n ∈ numbers, P a → P fun slot => if slot.number = n.other then .blank else a slot
  mirror : ∀ {a}, ∀ n ∈ numbers, P a → P fun slot =>
    if slot.number = n then a slot else { a slot with forms := (a slot.mirror).forms }

namespace IsLaw
variable {numbers : List Number} {P : (Slot → Cell) → Prop}

theorem concat (hP : IsLaw numbers P) {parts : List Composition} (h : ∀ c ∈ parts, P c.cell) :
    P (Composition.concat parts).cell := by
  -- by induction on the parts left, for whatever is composed of those before them
  have hfold : ∀ a : Composition, P a.cell → P (parts.foldl Composition.append a).cell := by
    induction parts with
    | nil => exact fun a ha => ha
    | cons b parts ih =>
      obtain ⟨hb, hrest⟩ := List.forall_mem_cons.mp h
      exact fun a ha => ih hrest _ (hP.append ha hb)
  have hunit := hP.text "" ""
  simp only [ite_self] at hunit
  exact hfold .unit hunit

theorem mergedCell (hP : IsLaw numbers P) {first : Composition} {rest : List Composition}
    (hfirst : P first.cell) (hrest : ∀ c ∈ rest, P c.cell) :
    P (Composition.mergedCell (first :: rest)) := by
  have hfold : ∀ a : Slot → Cell, P a →
      P fun slot => rest.foldl (fun cell c => cell.merge (c.cell slot)) (a slot) := by
    induction rest with
    | nil => exact fun a ha => ha
    | cons b rest ih =>
      obtain ⟨hb, hrest⟩ := List.forall_mem_cons.mp hrest
      exact fun a ha => ih hrest _ (hP.merge ha hb)
  exact hfold first.cell hfirst

end IsLaw

theorem Segment.decl_ne_of_compose {e : Engine} {pos : String} {isAdj : Bool} {run : Summary}
    {s : Segment} {c : Composition} (h : s.compose e pos isAdj run = .ok c) : s.decl ≠ "" := by
  intro hdecl
  obtain ⟨p, hp, _⟩ := bind_eq_ok.mp h
  obtain ⟨q, hq, _⟩ := bind_eq_ok.mp hp
  unfold decline at hq
  rw [hdecl] at hq
  split at hq <;> cases hq

section
variable {numbers : List Number} {P : (Slot → Cell) → Prop} {e : Engine} {pos : String}
  {isAdj : Bool} {c : Composition}

theorem Piece.law_of_compose (hP : IsLaw numbers P) {p : Piece} {run : Summary}
    (h : p.compose e pos isAdj run = .ok c)
    (hword : ∀ s, p.declined? = some s → s.compose e pos isAdj run = .ok c → P c.cell) :
    P c.cell := by
  cases p with
  | word s => exact hword s (if_neg (Segment.decl_ne_of_compose h)) h
  | literal l =>
    cases h
    exact hP.text l.text l.linkedText

theorem PlainRun.law_of_compose (hP : IsLaw numbers P) {b : PlainRun}
    (h : b.compose e pos isAdj = .ok c)
    (hword : ∀ s ∈ b.declined, ∀ part, s.compose e pos isAdj b.summary = .ok part →
      P part.cell) : P c.cell := by
  obtain ⟨parts, hparts, h⟩ := bind_eq_ok.mp h
  cases h
  apply hP.concat
  intro part hpart
  obtain ⟨p, hp, hyields⟩ := exists_mem_of_forall₂ (mapM_eq_ok.mp hparts) hpart
  refine Piece.law_of_compose hP hyields fun s hs => ?_
  exact hword s (List.mem_filterMap.mpr ⟨p, hp, hs⟩) part

namespace Alternant
variable {a : Alternant} {run : Summary}

theorem law_of_composeBranch {b : PlainRun}
    (hP : IsLaw numbers P) (h : composeBranch e pos isAdj b = .ok c)
    (hnumbers : ∀ n, b.summary.num.bind NumberUse.only? = some n → n ∈ numbers)
    (hword : ∀ s ∈ b.declined, ∀ part, s.compose e pos isAdj b.summary = .ok part →
      P part.cell) : P c.cell := by
  obtain ⟨d, hd, h⟩ := bind_eq_ok.mp h
  cases h
  have hbranch := PlainRun.law_of_compose hP hd hword
  split
  · rename_i n hn
    exact hP.blank n (hnumbers n hn) hbranch
  · exact hbranch

theorem law_of_contribution (hP : IsLaw numbers P) {first : Composition}
    {rest : List Composition}
    (hnumbers : ∀ n, run.num.bind NumberUse.only? = some n → n ∈ numbers)
    (hbranches : ∀ c ∈ first :: rest, P c.cell) :
    P (a.contribution isAdj run (first :: rest)).cell := by
  obtain ⟨hfirst, hrest⟩ := List.forall_mem_cons.mp hbranches
  have hmerged := hP.mergedCell hfirst hrest
  unfold contribution
  dsimp only
  split
  · rename_i n hn
    exact hP.mirror n (hnumbers n hn) hmerged
  · exact hmerged

/-- An alternant obeys a law if its branches do; what they are marked as lacking does not matter. -/
theorem law_of_compose (hP : IsLaw numbers P) (h : a.compose e pos isAdj run = .ok c)
    (hnumbers : ∀ n, run.num.bind NumberUse.only? = some n → n ∈ numbers)
    (hbranches : ∀ b ∈ a.branches, ∀ d, composeBranch e pos isAdj (a.settle run b) = .ok d →
      P d.cell) : P c.cell := by
  obtain ⟨d, hd, hcell⟩ : ∃ d, a.composeAs e pos isAdj run a.branches = .ok d ∧
      d.cell = c.cell := by
    have hagree := a.agree_compose e pos isAdj run
    generalize a.composeAs e pos isAdj run a.branches = unmarked at hagree
    rw [h] at hagree
    cases hagree with
    | ok hretitled => exact ⟨_, rfl, hretitled.cell⟩
  rw [← hcell]
  obtain ⟨composed, hcomposed, hd⟩ := bind_eq_ok.mp hd
  cases composed with
  | nil => cases hd
  | cons first rest =>
    cases hd
    refine law_of_contribution hP hnumbers fun part hpart => ?_
    obtain ⟨b, hb, hyields⟩ := exists_mem_of_forall₂ (mapM_eq_ok.mp hcomposed) hpart
    exact hbranches b hb part hyields

end Alternant

/-- A law that the steps of declining keep holds of a run if it holds of every declined word in its
use there. -/
theorem Run.law_of_compose {r : Run} (hP : IsLaw r.onlyNumbers P)
    (h : r.compose e pos isAdj = .ok c)
    (hword : ∀ s run, (s, run) ∈ r.uses → ∀ part, s.compose e pos isAdj run = .ok part →
      P part.cell) : P c.cell := by
  obtain ⟨parts, hparts, rfl⟩ := (compose_eq_ok e pos isAdj).mp h
  apply hP.concat
  intro part hpart
  obtain ⟨node, hnode, hyields⟩ := exists_mem_of_forall₂ hparts hpart
  have huses : ∀ u ∈ node.uses r.summary, u ∈ r.uses := fun u hu =>
    List.mem_flatMap.mpr ⟨node, hnode, hu⟩
  cases node with
  | piece p =>
    refine Piece.law_of_compose hP hyields fun s hs => ?_
    exact hword s r.summary (huses _ (by simp [Node.uses, hs])) part
  | alternant a =>
    refine Alternant.law_of_compose hP hyields
      (fun n => mem_onlyNumbers_of_summary List.mem_cons_self) fun b hb d hd => ?_
    have hsummary : (a.settle r.summary b).summary ∈ r.summaries :=
      List.mem_cons_of_mem _ (List.mem_map_of_mem
        (List.mem_flatMap.mpr ⟨_, hnode, List.mem_map_of_mem hb⟩))
    refine Alternant.law_of_composeBranch hP hd (fun n => mem_onlyNumbers_of_summary hsummary)
      fun s hs => ?_
    exact hword s _ (huses _ (List.mem_flatMap.mpr ⟨b, hb, List.mem_map_of_mem hs⟩))

end

/-- The forms of a slot as they are read for a run: if the slot was never filled, those of the
masculine that stands in for it. -/
def FormMap.read (m : FormMap) (slot : Slot) : List String :=
  ((m.get? slot).or (slot.masculine?.bind m.get?)).getD []

namespace Segment
variable {s : Segment} {isAdj : Bool} {num : Option NumberUse} {gender : Option Gender}
  {m : FormMap} {slot : Slot}

theorem forms_source (hslot : slot ∈ Slot.run isAdj) :
    m.forms (s.source isAdj gender m slot) = m.read (s.agreeingSlot isAdj gender slot) := by
  have hread : ∀ t t' : Slot, t.masculine? = some t' →
      m.forms (if m.contains t then t else t') = m.read t := by
    intro t t' ht
    unfold FormMap.read FormMap.forms OrderedMap.contains
    rw [ht, Option.bind_some]
    cases hget : m.get? t with
    | none => rfl
    | some forms => simp [hget]
  have hown : ∀ t : Slot, t.masculine? = none → m.forms t = m.read t := by
    intro t ht
    rw [FormMap.read, ht, Option.bind_none, Option.or_none]
    rfl
  unfold source agreeingSlot
  cases isAdj with
  | true =>
    simp only [if_true]
    cases ht : slot.masculine? with
    | none => exact hown slot ht
    | some t => exact hread slot t ht
  | false =>
    have hmasculine := Slot.masculine?_of_mem_run hslot
    simp only [Bool.false_eq_true, if_false]
    cases s.isAdj with
    | false => exact hown slot hmasculine
    | true =>
      cases gender with
      | none => exact hown slot hmasculine
      | some g =>
        dsimp only
        cases ht : (slot.agreeing g).masculine? with
        | none =>
          rw [Slot.agreeing_m_of_masculine? ht, ite_self]
          exact hown _ ht
        | some t =>
          have hstand : t = slot.agreeing .m := by
            cases slot <;> cases g <;> cases ht <;> rfl
          exact hstand ▸ hread _ t ht

theorem get?_finish (hslot : slot ∈ Slot.run s.isAdj) (hplain : slot.isLinked = false)
    (hnumber : ∀ n, num.bind NumberUse.only? = some n → slot.number = n) :
    (s.finish num m).get? slot = (m.get? slot).map (·.flatMap s.variants) := by
  cases slot with
  | linked n g => cases hplain
  | cell c n g => rw [finish_eq, get?_mirrorOnly hnumber, get?_rework hslot, get?_addLinked_cell]

/-- The passes over a word change the forms of a plain slot one by one, wherever these are read. -/
theorem read_finish (hslot : slot ∈ Slot.run s.isAdj) (hplain : slot.isLinked = false)
    (hnumber : ∀ n, num.bind NumberUse.only? = some n → slot.number = n) :
    (s.finish num m).read slot = (m.read slot).flatMap s.variants := by
  have hmap : ∀ forms : Option (List String),
      (forms.map (·.flatMap s.variants)).getD [] = (forms.getD []).flatMap s.variants := by
    intro forms
    cases forms <;> rfl
  unfold FormMap.read
  rw [get?_finish hslot hplain hnumber]
  cases ht : slot.masculine? with
  | none => simpa using hmap (m.get? slot)
  | some t =>
    obtain ⟨htnumber, htlinked⟩ := Slot.number_isLinked_of_masculine? ht
    have hadj : s.isAdj = true := by
      by_contra hnoun
      rw [Bool.not_eq_true] at hnoun
      rw [hnoun] at hslot
      rw [Slot.masculine?_of_mem_run hslot] at ht
      cases ht
    have htslot : t ∈ Slot.run s.isAdj := by
      rw [hadj] at hslot ⊢
      exact Slot.mem_run_of_masculine? hslot ht
    rw [Option.bind_some, Option.bind_some,
      get?_finish htslot (htlinked.trans hplain) fun n hn => htnumber.trans (hnumber n hn),
      ← Option.map_or, hmap]

/-- A word gives to the plain slots of the numbers it is used in the forms of its paradigm, each in
the spelling of the word, behind its variant in -n and after its lead. -/
theorem exists_forms_of_compose {e : Engine} {pos : String} {run : Summary} {part : Composition}
    (h : s.compose e pos isAdj run = .ok part) :
    ∃ p, s.paradigmIn e pos isAdj run = .ok p ∧ s.misfit? isAdj (s.genderIn run) = none ∧
      part = s.contribution isAdj (s.numberIn run) (s.genderIn run) p ∧
      ∀ slot ∈ Slot.run isAdj, slot.isLinked = false →
        (∀ n, (s.numberIn run).bind NumberUse.only? = some n → slot.number = n) →
        (part.cell slot).forms =
          ((p.forms.read (s.agreeingSlot isAdj (s.genderIn run) slot)).flatMap s.variants).map
            (s.lead ++ ·) := by
  obtain ⟨p, hp, hfit, rfl⟩ : ∃ p, s.paradigmIn e pos isAdj run = .ok p ∧
      s.misfit? isAdj (s.genderIn run) = none ∧
      s.contribution isAdj (s.numberIn run) (s.genderIn run) p = part := compose_eq_ok.mp h
  refine ⟨p, hp, hfit, rfl, fun slot hslot hplain hnumber => ?_⟩
  have hlinked : (s.agreeingSlot isAdj (s.genderIn run) slot).isLinked = false := by
    unfold agreeingSlot
    split
    · exact hplain
    · split
      · rw [Slot.isLinked_agreeing, hplain]
      · exact hplain
  have hagrees : (s.agreeingSlot isAdj (s.genderIn run) slot).number = slot.number := by
    unfold agreeingSlot
    split
    · rfl
    · split
      · cases slot <;> rfl
      · rfl
  have hmem := agreeingSlot_mem_run hfit hslot (.inr hlinked)
  have hcell := forms_contribution s isAdj run p slot
  rw [readAt, forms_source hslot,
    read_finish hmem hlinked fun n hn => hagrees.trans (hnumber n hn)] at hcell
  simpa [hplain] using hcell

/-- The cells of a number that a word is read in all have the gender of the word: none for a noun,
some for an adjective. -/
theorem exists_gender_of_agreeingSlot {c : Case} {n : Number} {g : Option Gender}
    (hfit : s.misfit? isAdj gender = none) (hslot : .cell c n g ∈ Slot.run isAdj) :
    ∃ h : Option Gender, h.isSome = s.isAdj ∧
      ∀ c, s.agreeingSlot isAdj gender (.cell c n g) = .cell c n h := by
  have hgender : ∀ isAdj, ∀ slot ∈ Slot.run isAdj, slot.gender?.isSome = isAdj := by decide
  have hg := hgender isAdj _ hslot
  unfold misfit? at hfit
  unfold agreeingSlot
  cases isAdj with
  | true =>
    have hadj : s.isAdj = true := by
      by_contra hnoun
      simp [hnoun] at hfit
    exact ⟨g, hg.trans hadj.symm, fun c => rfl⟩
  | false =>
    cases hadj : s.isAdj with
    | false => exact ⟨g, hg, fun c => rfl⟩
    | true =>
      cases gender with
      | none => simp [hadj] at hfit
      | some h => exact ⟨some h, rfl, fun c => rfl⟩

end Segment

/-- Two slots of one number may have the same forms throughout a run that is not restricted to the
other number. -/
theorem isLaw_forms_eq {numbers : List Number} {x y : Slot} (hnumber : x.number = y.number)
    (hlinked : x.isLinked = y.isLinked) (hnumbers : ∀ n ∈ numbers, n = x.number) :
    IsLaw numbers fun cells => (cells x).forms = (cells y).forms where
  text shown linked := by simp only [hlinked]
  append ha hb := by simp only [Cell.append, ha, hb]
  merge ha hb := by simp only [Cell.merge, ha, hb]
  blank n hn ha := by
    have hx := hnumbers n hn
    subst hx
    have hne : ¬ x.number = x.number.other := by cases x.number <;> decide
    simp only [← hnumber, hne, if_false, ha]
  mirror n hn ha := by
    have hx := hnumbers n hn
    subst hx
    simp only [← hnumber, if_true, ha]

/-- Two cases that every word of a run reads alike in a number have the same forms in the run, if
nothing in it is restricted to the other number. -/
theorem Run.forms_eq_of_read_eq {e : Engine} {pos : String} {isAdj : Bool} {r : Run}
    {comp : Composition} {c d : Case} {n : Number} {g : Option Gender}
    (h : r.compose e pos isAdj = .ok comp) (hnumber : n.other ∉ r.onlyNumbers)
    (hc : .cell c n g ∈ Slot.run isAdj) (hd : .cell d n g ∈ Slot.run isAdj)
    (hread : ∀ s run, (s, run) ∈ r.uses → ∀ p, s.paradigmIn e pos isAdj run = .ok p →
      s.misfit? isAdj (s.genderIn run) = none → ∀ k : Option Gender, k.isSome = s.isAdj →
      (∀ x, s.agreeingSlot isAdj (s.genderIn run) (.cell x n g) = .cell x n k) →
      p.forms.read (.cell c n k) = p.forms.read (.cell d n k)) :
    (comp.cell (.cell c n g)).forms = (comp.cell (.cell d n g)).forms := by
  have hnumbers : ∀ k ∈ r.onlyNumbers, k = n := by
    intro k hk
    by_contra hne
    exact hnumber (Number.eq_other_iff.mpr hne ▸ hk)
  have hlaw : IsLaw r.onlyNumbers fun cells =>
      (cells (.cell c n g)).forms = (cells (.cell d n g)).forms := isLaw_forms_eq rfl rfl hnumbers
  refine law_of_compose hlaw h fun s run huse part hpart => ?_
  obtain ⟨p, hp, hfit, -, hforms⟩ := Segment.exists_forms_of_compose hpart
  obtain ⟨k, hk, hagrees⟩ := Segment.exists_gender_of_agreeingSlot hfit hc
  have hused : ∀ k, (s.numberIn run).bind NumberUse.only? = some k → n = k := fun k hk =>
    (hnumbers k (mem_onlyNumbers_of_use huse hk)).symm
  rw [hforms _ hc rfl hused, hforms _ hd rfl hused, hagrees, hagrees,
    hread s run huse p hp hfit k hk hagrees]

end Declension
