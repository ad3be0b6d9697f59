import Declension.Proofs.Checked.Adjectives
import Declension.Proofs.Checked.Composed
import Declension.Proofs.NoteKey
import Declension.Slot.Name

/-!
# Words strung to a run under names

A word is declined, its forms are reworked and read off slot by slot, all under names: those of the
linked nominatives, of agreeing adjectives and of notes are put together on the way. Main
statements: `finish_sheet` and `appendWord_refines`.
-/
namespace Declension.Checked

/-- The names of the slots in which a lemma may stand. -/
def lemmaSlots (isAdj : Bool) : List String :=
  if isAdj then ["nom_sg_m", "nom_sg_f", "nom_sg_n", "nom_pl_m", "nom_pl_f", "nom_pl_n"]
  else ["nom_sg", "nom_pl"]

theorem lemmaSlots_eq (isAdj : Bool) : lemmaSlots isAdj =
    (Slot.lemmaSlots isAdj).map fun (n, g) => (Slot.cell .nom n g).name := by
  cases isAdj <;> decide +kernel

/-- Declines a word by its class. -/
def generate (e : Engine) (s : Segment) (w : Lexeme) : Except Crash NamedSheet :=
  if s.isAdj then
    match Adjective.Class.ofName? s.decl with
    | some c => adjective e w c
    | none => .error (.fault (.unknownClass s.decl))
  else
    match Noun.Class.ofName? s.decl with
    | some c => noun e w c
    | none => .error (.fault (.unknownClass s.decl))

/-- The forms of a word under their names, and its paradigm for what else it says. -/
def paradigm (e : Engine) (s : Segment) (w : Lexeme) : Except Crash (NamedSheet × Paradigm) := do
  let m ← generate e s w
  let p ← liftFault (s.paradigm e.toEngine w)
  return (m, p)

/-- Adds the nominatives written with links. -/
def addLinked (s : Segment) (m : NamedSheet) : Except Crash NamedSheet :=
  (lemmaSlots s.isAdj).foldlM (fun m name =>
    match (m.get? name).join with
    | some forms =>
      write m ("linked_" ++ name) (forms.map fun form => if form = s.word then s.linkedWord else form)
    | none => .ok m) m

/-- Makes an edit on the words of a trait. -/
def editIf (b : Bool) (step : FormSheet.Step) (m : NamedSheet) : Except Crash NamedSheet :=
  if b then edit m step else .ok m

/-- The forms of a word in its run. -/
def finish (s : Segment) (num : Option NumberUse) (m : NamedSheet) : Except Crash NamedSheet := do
  let m ← addLinked s m
  let m ← editIf (s.tags.has .lig) (.ligate s.isAdj) m
  let m ← editIf (s.tags.has .sufn) (.addNasals s.isAdj) m
  edit m (.mirror (num.bind NumberUse.only?) s.isAdj)

/-- The name under which a word is read for a slot of the run. -/
def source (s : Segment) (isAdj : Bool) (gender : Option Gender) (m : NamedSheet) (name : String) :
    Except Crash String :=
  if isAdj then
    if !s.isAdj then .error (.fault (.nounInAdjective s.word))
    else .ok <|
      match SlotName.masculine? name with
      | some masculine => if (m.get? name).join.isSome then name else masculine
      | none => name
  else if s.isAdj then
    match gender with
    | none => .error (.fault (.genderUnknown s.word))
    | some g =>
      let agreeing := name ++ "_" ++ String.ofList (g.letter.toList.map Char.toLower)
      .ok (if (m.get? agreeing).join.isSome then agreeing else name ++ "_m")
  else .ok name

/-- The forms of a word under a name, with the notes that stand under the name and a place. -/
def cellAt (m : NamedSheet) (notes : OrderedMap NoteKey String) (name : String) : Cell :=
  let forms := (m.get? name).join.getD []
  { forms
    notes := ⟨(List.range forms.length).filterMap fun place =>
      (given (notes.get? (.ofText (name ++ toString (place + 1))))).map fun note =>
        (place, [note])⟩ }

/-- What a word has for a slot of the run. -/
def wordCell (s : Segment) (isAdj : Bool) (gender : Option Gender) (m : NamedSheet)
    (notes : OrderedMap NoteKey String) (name : String) : Except Crash Cell := do
  let read ← source s isAdj gender m name
  return (cellAt m notes read).withLead (if SlotName.isLinked name then s.linkedLead else s.lead)

/-- Strings a declined word to a run. -/
def appendWord (e : Engine) (pos : String) (isAdj : Bool) (run : Summary) (d : Composed)
    (s : Segment) : Except Crash Composed := do
  let num := s.num.map NumberUse.ofNumber <|> run.num
  let gender := s.gender <|> run.gender
  let (m, p) ← paradigm e s (s.lexeme pos isAdj num gender run.loc)
  let m ← finish s num m
  let d ← d.appendCells isAdj (wordCell s isAdj gender m p.notes)
  return d.collect (s.contribution isAdj num gender p)

/-- Strings plain text to a run. -/
def appendLiteral (isAdj : Bool) (d : Composed) (l : Literal) : Except Crash Composed := do
  let d ← d.appendCells isAdj fun name =>
    .ok ⟨[if SlotName.isLinked name then l.linkedText else l.text], ∅⟩
  return d.collect l.composition

section Forms
variable {m : FormMap} {s : Segment}

theorem generate_refines {e : Engine} (he : e.Accepted) (s : Segment) (w : Lexeme) :
    Refines (fun m p => m = sheet p.forms) (generate e s w) (s.decline e.toEngine w) := by
  unfold generate Segment.decline
  cases s.isAdj with
  | true =>
    cases Adjective.Class.ofName? s.decl with
    | some c => exact adjective_refines he w c
    | none => exact .error _
  | false =>
    cases Noun.Class.ofName? s.decl with
    | some c => exact noun_refines he w c
    | none => exact .error _

theorem paradigm_refines {e : Engine} (he : e.Accepted) (s : Segment) (w : Lexeme) :
    Refines (fun mp p => mp = (sheet p.forms, p) ∧ p.forms.keys.Nodup) (paradigm e s w)
      (s.paradigm e.toEngine w) := by
  refine (generate_refines he s w).bind_lift.mono ?_
  rintro ⟨m, q⟩ _ hparadigm ⟨rfl, p, hm, hq⟩
  obtain ⟨titled, htitled, hq⟩ := bind_eq_ok.mp hq
  have hforms : titled.forms = p.forms := Segment.forms_withTitle htitled
  cases hq
  rw [← hforms] at hm
  exact ⟨Prod.ext hm rfl, Segment.nodup_keys_paradigm he.fillsOnce hparadigm⟩

theorem addLinked_sheet (s : Segment) (m : FormMap) :
    addLinked s (sheet m) = .ok (sheet (s.addLinked m)) := by
  rw [addLinked, Segment.addLinked, lemmaSlots_eq]
  induction Slot.lemmaSlots s.isAdj generalizing m with
  | nil => rfl
  | cons slot slots ih =>
    obtain ⟨n, g⟩ := slot
    rw [List.map_cons, List.foldlM_cons, List.foldl_cons, join_get?_sheet]
    cases hforms : m.get? (.cell .nom n g) with
    | none =>
      simp only [hforms]
      exact ih m
    | some forms =>
      simp only [hforms]
      rw [← Slot.name_linked, write_sheet]
      exact ih _

theorem mirrorNumber_ofMap (n : Number) (isAdj : Bool) (m : FormMap) :
    (FormSheet.ofMap m).mirrorNumber n isAdj = FormSheet.ofMap (m.mirrorNumber n isAdj) := by
  unfold FormSheet.mirrorNumber FormMap.mirrorNumber
  induction Slot.run isAdj generalizing m with
  | nil => rfl
  | cons slot slots ih =>
    rw [List.foldl_cons, List.foldl_cons]
    by_cases hn : slot.number = n
    · have hforms : ((FormSheet.ofMap m).get? slot).join.getD [] = m.forms slot := by
        rw [FormSheet.get?_ofMap, FormMap.forms]
        cases m.get? slot <;> rfl
      rw [if_pos hn, if_pos hn, hforms, ← FormSheet.ofMap_insert]
      exact ih _
    · rw [if_neg hn, if_neg hn]
      exact ih m

/-- Copying the one number that a word or a run is used in. -/
theorem edit_mirror (h : m.keys.Nodup) (num : Option NumberUse) (isAdj : Bool) :
    edit (sheet m) (.mirror (num.bind NumberUse.only?) isAdj) =
      .ok (sheet (Segment.mirrorOnly isAdj num m)) := by
  apply edit_sheet h
  unfold Segment.mirrorOnly
  cases num.bind NumberUse.only? with
  | none => rfl
  | some n => rw [FormSheet.step, mirrorNumber_ofMap]

theorem editIf_sheet {m' : FormMap} {step : FormSheet.Step} (h : m.keys.Nodup) (b : Bool)
    (hstep : (FormSheet.ofMap m).step step = (FormSheet.ofMap m', .ok none)) :
    editIf b step (sheet m) = .ok (sheet (if b then m' else m)) ∧
      (if b then m' else m).keys.Nodup := by
  cases b with
  | false => exact ⟨rfl, h⟩
  | true => exact ⟨edit_sheet h hstep, nodup_of_step h hstep⟩

theorem finish_sheet (h : m.keys.Nodup) (s : Segment) (num : Option NumberUse) :
    finish s num (sheet m) = .ok (sheet (s.finish num m)) := by
  have hlinked := s.nodup_keys_addLinked h
  obtain ⟨hligated, hnodup⟩ :=
    editIf_sheet hlinked (s.tags.has .lig) (FormSheet.step_ligate hlinked s.isAdj)
  obtain ⟨hnasal, hnodup'⟩ :=
    editIf_sheet hnodup (s.tags.has .sufn) (FormSheet.step_addNasals _ s.isAdj)
  have hmirror := edit_mirror hnodup' num s.isAdj
  exact bind_eq_ok.mpr ⟨_, addLinked_sheet s m, bind_eq_ok.mpr ⟨_, hligated,
    bind_eq_ok.mpr ⟨_, hnasal, hmirror⟩⟩⟩

end Forms

section Cells
variable {s : Segment} {isAdj : Bool} {gender : Option Gender} {m : FormMap}

theorem toLower_letter (g : Gender) :
    String.ofList (g.letter.toList.map Char.toLower) = g.name := by
  cases g <;> decide +kernel

theorem isSome_join_get?_sheet (m : FormMap) (slot : Slot) :
    ((sheet m).get? slot.name).join.isSome = m.contains slot := by
  rw [join_get?_sheet]
  rfl

/-- Of a run of nouns every slot is without gender. -/
theorem gender?_of_mem_run {slot : Slot} (h : slot ∈ Slot.run false) : slot.gender? = none := by
  have hall : ∀ slot ∈ Slot.run false, slot.gender? = none := by decide
  exact hall slot h

theorem name_agreeing {slot : Slot} (h : slot.gender? = none) (g : Gender) :
    slot.name ++ "_" ++ g.name = (slot.agreeing g).name := by
  cases slot with
  | cell c n g' =>
    obtain rfl : g' = none := h
    simp [Slot.name, Slot.agreeing, Slot.suffix, String.append_assoc]
  | linked n g' =>
    obtain rfl : g' = none := h
    simp [Slot.name, Slot.agreeing, Slot.suffix, String.append_assoc]

/-- A word that does not fit its run is found out in every slot. -/
theorem source_of_misfit {f : Fault} (h : s.misfit? isAdj gender = some f) (m : NamedSheet)
    (name : String) : source s isAdj gender m name = .error (.fault f) := by
  unfold Segment.misfit? at h
  unfold source
  cases isAdj <;> cases hs : s.isAdj <;> cases gender <;> simp_all

/-- A word that fits its run is read under the name of the slot that fills the one of the run. -/
theorem source_sheet (h : s.misfit? isAdj gender = none) {slot : Slot}
    (hslot : slot ∈ Slot.run isAdj) :
    source s isAdj gender (sheet m) slot.name = .ok (s.source isAdj gender m slot).name := by
  unfold Segment.misfit? at h
  unfold source Segment.source
  cases isAdj with
  | true =>
    cases hs : s.isAdj with
    | false => simp [hs] at h
    | true =>
      rw [SlotName.masculine?_name, isSome_join_get?_sheet]
      cases slot.masculine? with
      | none => rfl
      | some masculine => cases m.contains slot <;> rfl
  | false =>
    cases hs : s.isAdj with
    | false => rfl
    | true =>
      cases gender with
      | none => simp [hs] at h
      | some g =>
        have hslot' := gender?_of_mem_run hslot
        have hmasculine : slot.name ++ "_m" = (slot.agreeing .m).name := by
          rw [← name_agreeing hslot', String.append_assoc]
          rfl
        simp only [toLower_letter, name_agreeing hslot', isSome_join_get?_sheet, hmasculine]
        cases m.contains (slot.agreeing g) <;> rfl

theorem cellAt_sheet (m : FormMap) (notes : OrderedMap NoteKey String) (slot : Slot) :
    cellAt (sheet m) notes slot.name = Segment.cellAt m notes slot := by
  simp only [cellAt, Segment.cellAt, join_get?_sheet, NoteKey.ofText_form]
  rfl

theorem wordCell_sheet (h : s.misfit? isAdj gender = none) {slot : Slot}
    (hslot : slot ∈ Slot.run isAdj) (num : Option NumberUse) (p : Paradigm) :
    wordCell s isAdj gender (sheet (s.finish num p.forms)) p.notes slot.name =
      .ok ((s.contribution isAdj num gender p).cell slot) := by
  rw [wordCell, source_sheet h hslot, SlotName.isLinked_name, Segment.contribution]
  exact congrArg (fun x => Except.ok (Cell.withLead _ x)) (cellAt_sheet _ _ _)

end Cells

variable {isAdj : Bool} {d : Composed} {c : Composition}

theorem ne_of_mem_given {title : Option String} {t : String} (h : t ∈ (given title).toList) :
    t ≠ "" := by
  rw [Option.mem_toList] at h
  simpa using Option.mem_filter_iff.mp h |>.2

theorem appendWord_refines {e : Engine} (he : e.Accepted) (pos : String) (run : Summary)
    (s : Segment) (h : d.Matches isAdj c) :
    Refines (fun d' part => d'.Matches isAdj (c.append part)) (appendWord e pos isAdj run d s)
      (s.compose e.toEngine pos isAdj run) := by
  unfold appendWord Segment.compose
  refine (paradigm_refines he s _).bind ?_
  rintro _ p ⟨rfl, hnodup⟩
  refine .bind_left (finish_sheet hnodup s _) ?_
  cases hfits : s.misfit? isAdj (s.gender <|> run.gender) with
  | some f =>
    have hcell : ∀ m name, wordCell s isAdj (s.gender <|> run.gender) m p.notes name =
        .error (.fault f) := by
      intro m name
      rw [wordCell, source_of_misfit hfits]
      rfl
    rw [Composed.appendCells_eq_error (hcell _)]
    exact .error f
  | none =>
    obtain ⟨d', hd', h'⟩ := h.append (s.contribution isAdj
      (s.num.map NumberUse.ofNumber <|> run.num) (s.gender <|> run.gender) p)
      (fun _ => ne_of_mem_given) fun _ hslot => wordCell_sheet hfits hslot _ p
    exact .bind_left hd' (.ok h')

theorem appendLiteral_matches (l : Literal) (h : d.Matches isAdj c) :
    ∃ d', appendLiteral isAdj d l = .ok d' ∧ d'.Matches isAdj (c.append l.composition) := by
  obtain ⟨d', hd', h'⟩ := h.append l.composition
    (f := fun name => .ok ⟨[if SlotName.isLinked name then l.linkedText else l.text], ∅⟩)
    (fun _ ht => nomatch ht) fun slot _ => by
      rw [SlotName.isLinked_name]
      rfl
  exact ⟨_, bind_eq_ok.mpr ⟨d', hd', rfl⟩, h'⟩

end Declension.Checked
