import Declension.Proofs.Alternatives
import Declension.Proofs.Sheet

/-!
# Runs that are used in one number

Such a run has the same forms in both numbers, slot by slot. The forms are not copied on the whole
run but in each word and each alternant, and an adjective is read in slots that the copying may
have passed over: linked ones of the feminine and neuter, and slots that its paradigm leaves to the
masculine. Main statement: `forms_mirror_of_compose`, with the run `rēs pūblica` for what happens
outside of its condition.
-/
namespace Declension

namespace Slot

/-- The same slot in number `n`. -/
def inNumber (n : Number) : Slot → Slot
  | cell c _ g => cell c n g
  | linked _ g => linked n g

theorem inNumber_number (s : Slot) : s.inNumber s.number = s := by
  cases s <;> rfl

theorem inNumber_mirror (n : Number) (s : Slot) : s.mirror.inNumber n = s.inNumber n := by
  cases s <;> rfl

theorem masculine?_mirror (s : Slot) : s.mirror.masculine? = s.masculine?.map mirror := by
  rcases s with ⟨c, n, g⟩ | ⟨n, g⟩
  all_goals
    rcases g with _ | g
    · rfl
    · cases g <;> rfl

theorem agreeing_mirror (g : Gender) (s : Slot) :
    s.mirror.agreeing g = (s.agreeing g).mirror := by
  cases s <;> rfl

theorem isLinked_inNumber (n : Number) (s : Slot) : (s.inNumber n).isLinked = s.isLinked := by
  cases s <;> rfl

theorem agreeing_m_of_masculine? {s : Slot} {g : Gender} (h : (s.agreeing g).masculine? = none) :
    s.agreeing .m = s.agreeing g := by
  cases s <;> cases g <;> first | rfl | cases h

theorem masculine?_of_mem_run {s : Slot} (h : s ∈ run false) : s.masculine? = none := by
  revert s
  decide

theorem agreeing_mem_run {s : Slot} (h : s ∈ run false) {g : Gender}
    (hplain : (s.agreeing g).masculine? = none ∨ (s.agreeing g).isLinked = false) :
    s.agreeing g ∈ run true := by
  revert s
  cases g <;> decide

end Slot

namespace FormMap

/-- Slots that are copied onto their mirrors agree with them. -/
theorem forms_mirror_mirrorNumber (n : Number) {isAdj : Bool} (m : FormMap) {slot : Slot}
    (h : slot ∈ Slot.run isAdj) :
    (m.mirrorNumber n isAdj).forms slot.mirror = (m.mirrorNumber n isAdj).forms slot := by
  unfold forms
  rw [get?_mirrorNumber, get?_mirrorNumber, Slot.mirror_mirror]
  simp only [Slot.number_mirror_eq_iff, ne_eq, not_not, Slot.mirror_mem_run, h, and_true]
  by_cases hn : slot.number = n
  · rw [if_pos hn, if_neg (not_not_intro hn)]
    rfl
  · rw [if_neg hn, if_pos hn]
    rfl

/-- A slot is filled in both numbers if it was in the number that is copied. -/
theorem contains_mirrorNumber {n : Number} {isAdj : Bool} {m : FormMap} {slot : Slot}
    (h : slot ∈ Slot.run isAdj) (hfilled : m.contains (slot.inNumber n)) :
    (m.mirrorNumber n isAdj).contains slot := by
  rw [OrderedMap.contains, get?_mirrorNumber]
  by_cases hn : slot.number = n
  · subst hn
    rw [Slot.inNumber_number] at hfilled
    rw [if_neg fun hboth => hboth.1 rfl]
    exact hfilled
  · rw [if_pos ⟨hn, Slot.mirror_mem_run.mpr h⟩]
    rfl

theorem contains_foldl_modify (f : List String → List String) (slots : List Slot) (m : FormMap)
    (slot : Slot) :
    (slots.foldl (fun m s => m.modify s f) m).contains slot = m.contains slot := by
  induction slots generalizing m with
  | nil => rfl
  | cons s slots ih =>
    rw [List.foldl_cons, ih, OrderedMap.contains, OrderedMap.get?_modify]
    split
    · exact Option.isSome_map
    · rfl

end FormMap

namespace NumberUse

theorem only?_ofNumber (n : Number) : (ofNumber n).only? = some n := by
  cases n <;> rfl

end NumberUse

namespace Segment

/-- Linked nominatives are added to slots of their own. -/
theorem contains_addLinked (s : Segment) (m : FormMap) {slot : Slot} (h : slot.isLinked = false) :
    (s.addLinked m).contains slot = m.contains slot := by
  unfold addLinked
  generalize Slot.lemmaSlots s.isAdj = slots
  induction slots generalizing m with
  | nil => rfl
  | cons entry slots ih =>
    obtain ⟨n, g⟩ := entry
    rw [List.foldl_cons, ih]
    cases hforms : m.get? (.cell .nom n g) with
    | none => simp only [hforms]
    | some forms =>
      have hne : Slot.linked n g ≠ slot := by
        rintro rfl
        cases h
      simp only [hforms, OrderedMap.contains, OrderedMap.get?_insert, if_neg hne]

/-- Before a word used in one number has this copied onto the other, it has the slots of its
paradigm, and linked ones. -/
theorem exists_finish (s : Segment) (n : Number) (m : FormMap) :
    ∃ m' : FormMap, s.finish (some (.ofNumber n)) m = m'.mirrorNumber n s.isAdj ∧
      ∀ slot, slot.isLinked = false → m'.contains slot = m.contains slot := by
  have hligated : ∀ (m : FormMap) slot,
      (if s.tags.has .lig then m.ligate s.isAdj else m).contains slot = m.contains slot := by
    intro m slot
    split
    · exact FormMap.contains_foldl_modify _ _ _ _
    · rfl
  have hnasal : ∀ (m : FormMap) slot,
      (if s.tags.has .sufn then m.addNasals s.isAdj else m).contains slot = m.contains slot := by
    intro m slot
    split
    · exact FormMap.contains_foldl_modify _ _ _ _
    · rfl
  have hmirror : ∀ m : FormMap,
      mirrorOnly s.isAdj (some (.ofNumber n)) m = m.mirrorNumber n s.isAdj := by
    intro m
    rw [mirrorOnly, Option.bind_some, NumberUse.only?_ofNumber]
  refine ⟨_, hmirror _, ?_⟩
  intro slot hslot
  rw [hnasal, hligated, contains_addLinked s m hslot]

/-- The slot of a word that agrees with a slot of its run. -/
def agreeingSlot (s : Segment) (isAdj : Bool) (gender : Option Gender) (slot : Slot) : Slot :=
  if isAdj then slot
  else match s.isAdj, gender with
    | true, some g => slot.agreeing g
    | _, _ => slot

theorem agreeingSlot_mirror (s : Segment) (isAdj : Bool) (gender : Option Gender) (slot : Slot) :
    s.agreeingSlot isAdj gender slot.mirror = (s.agreeingSlot isAdj gender slot).mirror := by
  unfold agreeingSlot
  split
  · rfl
  · split
    · exact Slot.agreeing_mirror _ _
    · rfl

/-- A word is read in the agreeing slot if it has that, or if no masculine stands in for it. -/
theorem source_eq_agreeingSlot {s : Segment} {isAdj : Bool} {gender : Option Gender} {m : FormMap}
    {slot : Slot} (h : (s.agreeingSlot isAdj gender slot).masculine? = none ∨
      m.contains (s.agreeingSlot isAdj gender slot)) :
    s.source isAdj gender m slot = s.agreeingSlot isAdj gender slot := by
  unfold source agreeingSlot at *
  cases isAdj with
  | true =>
    simp only [if_true] at h ⊢
    cases hmasculine : slot.masculine? with
    | none => rfl
    | some masculine =>
      rw [hmasculine] at h
      simpa using fun hnot => absurd h (by simp [hnot])
  | false =>
    simp only [Bool.false_eq_true, if_false] at h ⊢
    cases hadj : s.isAdj with
    | false => rfl
    | true =>
      rw [hadj] at h
      cases gender with
      | none => rfl
      | some g =>
        dsimp only at h ⊢
        split
        · rfl
        · rename_i hnot
          exact Slot.agreeing_m_of_masculine? (h.resolve_right hnot)

/-- Whether a word that is read in a slot has the forms of number `n` in both numbers there: no
masculine stands in for the slot, or the slot is not linked and its own in that number. -/
inductive IsCopied (p : Paradigm) (n : Number) (slot : Slot) : Prop
  | masculine : slot.masculine? = none → IsCopied p n slot
  | filled : slot.isLinked = false → p.forms.contains (slot.inNumber n) → IsCopied p n slot

theorem IsCopied.plain {p : Paradigm} {n : Number} {slot : Slot} (h : IsCopied p n slot) :
    slot.masculine? = none ∨ slot.isLinked = false := by
  cases h with
  | masculine h => exact .inl h
  | filled h _ => exact .inr h

theorem agreeingSlot_mem_run {s : Segment} {isAdj : Bool} {gender : Option Gender} {slot : Slot}
    (hfit : s.misfit? isAdj gender = none) (hslot : slot ∈ Slot.run isAdj)
    (hplain : (s.agreeingSlot isAdj gender slot).masculine? = none ∨
      (s.agreeingSlot isAdj gender slot).isLinked = false) :
    s.agreeingSlot isAdj gender slot ∈ Slot.run s.isAdj := by
  unfold misfit? agreeingSlot at *
  cases isAdj <;> cases hadj : s.isAdj <;> cases gender <;>
    simp only [hadj, if_true, Bool.false_eq_true, if_false] at hfit hplain ⊢
  all_goals first
    | exact hslot
    | exact Slot.agreeing_mem_run hslot hplain
    | cases hfit

theorem masculine?_agreeingSlot_of_noun {s : Segment} {isAdj : Bool} {gender : Option Gender}
    {slot : Slot} (hfit : s.misfit? isAdj gender = none) (hadj : s.isAdj = false)
    (hslot : slot ∈ Slot.run isAdj) : (s.agreeingSlot isAdj gender slot).masculine? = none := by
  cases isAdj with
  | true => simp [misfit?, hadj] at hfit
  | false =>
    simp only [agreeingSlot, hadj, Bool.false_eq_true, if_false]
    exact Slot.masculine?_of_mem_run hslot

theorem compose_eq_ok {e : Engine} {pos : String} {isAdj : Bool} {run : Summary} {s : Segment}
    {c : Composition} : s.compose e pos isAdj run = .ok c ↔
      ∃ p, s.paradigm e (s.lexeme pos isAdj (s.num.map NumberUse.ofNumber <|> run.num)
          (s.gender <|> run.gender) run.loc) = .ok p ∧
        s.misfit? isAdj (s.gender <|> run.gender) = none ∧
        s.contribution isAdj (s.num.map NumberUse.ofNumber <|> run.num) (s.gender <|> run.gender)
          p = c := by
  rw [compose, bind_eq_ok]
  refine exists_congr fun p => and_congr_right fun _ => ?_
  cases s.misfit? isAdj (s.gender <|> run.gender) with
  | some fault => exact ⟨fun h => (nomatch h), fun h => (nomatch h.1)⟩
  | none => exact ⟨fun h => ⟨rfl, Except.ok.inj h⟩, fun h => congrArg Except.ok h.2⟩

/-- A word used in number `n` has the same forms in both numbers where it is copied. -/
theorem forms_contribution_mirror {s : Segment} {isAdj : Bool} {gender : Option Gender}
    {p : Paradigm} {n : Number} {slot : Slot} (hfit : s.misfit? isAdj gender = none)
    (hslot : slot ∈ Slot.run isAdj)
    (hcopied : IsCopied p n (s.agreeingSlot isAdj gender slot)) :
    ((s.contribution isAdj (some (.ofNumber n)) gender p).cell slot.mirror).forms =
      ((s.contribution isAdj (some (.ofNumber n)) gender p).cell slot).forms := by
  have hrun := agreeingSlot_mem_run hfit hslot hcopied.plain
  obtain ⟨m, hfinish, hcontains⟩ := s.exists_finish n p.forms
  have hsource : s.source isAdj gender (m.mirrorNumber n s.isAdj) slot =
        s.agreeingSlot isAdj gender slot ∧
      s.source isAdj gender (m.mirrorNumber n s.isAdj) slot.mirror =
        (s.agreeingSlot isAdj gender slot).mirror := by
    rw [← agreeingSlot_mirror]
    cases hcopied with
    | masculine h =>
      refine ⟨source_eq_agreeingSlot (.inl h), source_eq_agreeingSlot (.inl ?_)⟩
      rw [agreeingSlot_mirror, Slot.masculine?_mirror, h]
      rfl
    | filled hlinked hfilled =>
      have hfilled' : m.contains ((s.agreeingSlot isAdj gender slot).inNumber n) := by
        rwa [hcontains _ (by rwa [Slot.isLinked_inNumber])]
      refine ⟨source_eq_agreeingSlot (.inr ?_), source_eq_agreeingSlot (.inr ?_)⟩
      · exact FormMap.contains_mirrorNumber hrun hfilled'
      · rw [agreeingSlot_mirror]
        apply FormMap.contains_mirrorNumber (Slot.mirror_mem_run.mpr hrun)
        rwa [Slot.inNumber_mirror]
  have hlead : slot.mirror.isLinked = slot.isLinked := by
    cases slot <;> rfl
  simp only [contribution, hfinish, hsource, Cell.withLead, cellAt, hlead,
    FormMap.forms_mirror_mirrorNumber n m hrun]

end Segment

namespace Composition

/-- Compositions that agree with their mirror in a slot also do so strung together. -/
theorem forms_concat_mirror {parts : List Composition} {slot : Slot}
    (h : ∀ c ∈ parts, (c.cell slot.mirror).forms = (c.cell slot).forms) :
    ((concat parts).cell slot.mirror).forms = ((concat parts).cell slot).forms := by
  have hfold : ∀ a : Composition, (a.cell slot.mirror).forms = (a.cell slot).forms →
      ((parts.foldl append a).cell slot.mirror).forms =
        ((parts.foldl append a).cell slot).forms := by
    induction parts with
    | nil => exact fun a ha => ha
    | cons b parts ih =>
      obtain ⟨hb, hrest⟩ := List.forall_mem_cons.mp h
      intro a ha
      apply ih hrest
      simp only [append, Cell.append, ha, hb]
  exact hfold unit rfl

theorem forms_mirrorNumber_mirror (n : Number) (c : Composition) (slot : Slot) :
    ((c.mirrorNumber n).cell slot.mirror).forms = ((c.mirrorNumber n).cell slot).forms := by
  by_cases hn : slot.number = n
  · have hnot : ¬ slot.mirror.number = n := fun h => Slot.number_mirror_eq_iff.mp h hn
    simp only [mirrorNumber, if_pos hn, if_neg hnot, Slot.mirror_mirror]
  · simp only [mirrorNumber, if_neg hn, if_pos (Slot.number_mirror_eq_iff.mpr hn)]

end Composition

/-- A run used in number `n` alone has the same forms in a slot and in its mirror, if the adjectives
that stand in the run itself are copied where they are read. -/
theorem Run.forms_mirror_of_compose {e : Engine} {pos : String} {isAdj : Bool} {r : Run}
    {n : Number} {c : Composition} {slot : Slot} (h : r.compose e pos isAdj = .ok c)
    (hnum : r.summary.num = some (.ofNumber n)) (hslot : slot ∈ Slot.run isAdj)
    (hcopied : ∀ s gender p, .piece (.word s) ∈ r.nodes → s.isAdj = true →
      gender = (s.gender <|> r.summary.gender) →
      s.paradigm e (s.lexeme pos isAdj (some (.ofNumber (s.num.getD n))) gender r.summary.loc) =
        .ok p →
      Segment.IsCopied p (s.num.getD n) (s.agreeingSlot isAdj gender slot)) :
    (c.cell slot.mirror).forms = (c.cell slot).forms := by
  obtain ⟨parts, hparts, rfl⟩ := (compose_eq_ok e pos isAdj).mp h
  apply Composition.forms_concat_mirror
  intro part hpart
  obtain ⟨node, hnode, hyields⟩ := exists_mem_of_forall₂ hparts hpart
  cases node with
  | alternant a =>
    obtain ⟨first, rest, _, rfl⟩ := Alternant.compose_eq_ok.mp hyields
    simp only [Alternant.contribution, hnum, Option.bind_some, NumberUse.only?_ofNumber]
    exact Composition.forms_mirrorNumber_mirror n _ slot
  | piece piece =>
    cases piece with
    | literal l =>
      cases hyields
      cases slot <;> rfl
    | word s =>
      have hword : (s.num.map NumberUse.ofNumber <|> r.summary.num) =
          some (.ofNumber (s.num.getD n)) := by
        rw [hnum]
        cases s.num <;> rfl
      obtain ⟨p, hp, hfit, rfl⟩ := Segment.compose_eq_ok.mp hyields
      rw [hword] at hp ⊢
      apply Segment.forms_contribution_mirror hfit hslot
      cases hadj : s.isAdj with
      | true => exact hcopied s _ p hnode hadj rfl hp
      | false => exact .masculine (Segment.masculine?_agreeingSlot_of_noun hfit hadj hslot)

/-- A noun with a feminine adjective, which is copied in the genitive. -/
theorem Run.forms_mirror_of_res_publica :
    ∃ r c, Run.read .latin "rēs<5.sg> pūblica<1&2+>" = .ok r ∧
      r.compose ⟨.latin, {}⟩ "nouns" false = .ok c ∧
      r.summary.num = some (.ofNumber .sg) ∧ .sg .gen ∈ Slot.run false ∧
      (∀ s gender p, .piece (.word s) ∈ r.nodes → s.isAdj = true →
        gender = (s.gender <|> r.summary.gender) →
        s.paradigm ⟨.latin, {}⟩ (s.lexeme "nouns" false (some (.ofNumber (s.num.getD .sg))) gender
          r.summary.loc) = .ok p →
        Segment.IsCopied p (s.num.getD .sg) (s.agreeingSlot false gender (.sg .gen))) ∧
      (c.cell (Slot.sg .gen).mirror).forms = (c.cell (.sg .gen)).forms := by
  obtain ⟨noun, adjective, summary, hr, hnoun, hadj, hnumber, hgender, p, hp, hfilled, hnum, c,
      hc⟩ :
      ∃ noun adjective summary, Run.read .latin "rēs<5.sg> pūblica<1&2+>" =
          .ok ⟨[.piece (.word noun), .piece (.word adjective)], summary⟩ ∧
        noun.isAdj = false ∧ adjective.isAdj = true ∧ adjective.num = none ∧
        (adjective.gender <|> summary.gender) = some .f ∧
        ∃ p, adjective.paradigm ⟨.latin, {}⟩ (adjective.lexeme "nouns" false (some (.ofNumber .sg))
            (some .f) summary.loc) = .ok p ∧
          p.forms.contains (.sgf .gen) ∧ summary.num = some (.ofNumber .sg) ∧
        ∃ c, Run.compose ⟨.latin, {}⟩ "nouns" false
          ⟨[.piece (.word noun), .piece (.word adjective)], summary⟩ = .ok c :=
    ⟨_, _, _, rfl, rfl, rfl, rfl, rfl, _, rfl, by decide, rfl, _, rfl⟩
  have hslot : .sg .gen ∈ Slot.run false := by decide
  have hagrees : adjective.agreeingSlot false (some .f) (.sg .gen) = .sgf .gen := by
    simp [Segment.agreeingSlot, hadj, Slot.agreeing]
  have hcopied : ∀ s gender p,
      .piece (.word s) ∈ [Node.piece (.word noun), .piece (.word adjective)] →
      s.isAdj = true → gender = (s.gender <|> summary.gender) →
      s.paradigm ⟨.latin, {}⟩ (s.lexeme "nouns" false (some (.ofNumber (s.num.getD .sg))) gender
        summary.loc) = .ok p →
      Segment.IsCopied p (s.num.getD .sg) (s.agreeingSlot false gender (.sg .gen)) := by
    rintro s gender p' hmem hs rfl hp'
    simp only [List.mem_cons, List.not_mem_nil, or_false, Node.piece.injEq,
      Piece.word.injEq] at hmem
    rcases hmem with rfl | rfl
    · rw [hnoun] at hs
      cases hs
    · rw [hgender, hnumber] at hp'
      cases hp.symm.trans hp'
      rw [hgender, hnumber, hagrees]
      exact .filled rfl hfilled
  exact ⟨_, c, hr, hc, hnum, hslot, hcopied, Run.forms_mirror_of_compose hc hnum hslot hcopied⟩

/-- The linked nominatives of a feminine adjective are not copied: the singular of `rēs pūblica` has
another form of it in its plural. -/
theorem Run.not_forms_mirror_of_res_publica :
    ∃ r c, Run.read .latin "rēs<5.sg> pūblica<1&2+>" = .ok r ∧
      r.compose ⟨.latin, {}⟩ "nouns" false = .ok c ∧
      r.summary.num = some (.ofNumber .sg) ∧ .linked .sg none ∈ Slot.run false ∧
      (c.cell (.linked .sg none)).forms = ["rēs pūblica"] ∧
      (c.cell (Slot.linked .sg none).mirror).forms = ["rēs pūblicae"] :=
  ⟨_, _, rfl, rfl, rfl, by decide, by decide +kernel, by decide +kernel⟩

end Declension
