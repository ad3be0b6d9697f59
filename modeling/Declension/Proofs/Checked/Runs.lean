import Declension.Proofs.Checked.Titles
import Declension.Proofs.Checked.Words
import Declension.Proofs.Composition

/-!
# Runs declined under names

The branches of an alternant are declined and merged one after the other; the forms of a further
branch are found among those there are by their places. Main statement: `composeRun_refines`, by
which a run comes out under names as it does slot by slot.
-/
namespace Declension.Checked

/-- The place of a form in a list that has it. -/
def placeOf (l : List String) (form : String) : Except Crash ℕ :=
  if form ∈ l then .ok (l.idxOf form) else .error .noKey

/-- Adds forms that are not there yet, from a place on, and records where each of them stands. -/
def addForms (current : List String) (places : OrderedMap ℕ ℕ) :
    ℕ → List String → Except Crash (List String × OrderedMap ℕ ℕ)
  | _, [] => .ok (current, places)
  | place, form :: rest =>
    if form ∈ current then do
      addForms current (places.insert place (← placeOf current form)) (place + 1) rest
    else addForms (current ++ [form]) (places.insert place current.length) (place + 1) rest

/-- A cell with the forms of an alternative behind its own, and the notes on them. -/
def mergeCell (a b : Cell) : Except Crash Cell := do
  let (forms, places) ← addForms a.forms ∅ 0 b.forms
  return {
    forms
    notes := b.notes.entries.foldl (fun notes (place, more) =>
      match places.get? place with
      | some target => Cell.addNotes notes target more
      | none => notes) a.notes }

/-- Merges a further branch into what the branches before it have come to. -/
def merge (isAdj : Bool) (d branch : Composed) : Except Crash Composed :=
  d.mapCells (fun name x => mergeCell x (branch.cell name)) (runSlots isAdj)

/-- Empties the slots of the number in which a branch is not used. -/
def blankOther (isAdj : Bool) (num : Option NumberUse) (d : Composed) : Except Crash Composed :=
  match num.bind NumberUse.only? with
  | some n =>
    d.mapCells (fun _ _ => .ok .blank)
      ((runSlots isAdj).filter fun name => (SlotName.mirror name n.other.name).isSome)
  | none => .ok d

namespace Composed

/-- A run whose titles are strung together to one. -/
def close (d : Composed) : Composed :=
  { d with titles := if d.titles.isEmpty then [] else [Title.joined d.titles] }

def title (d : Composed) : String := String.join d.titles

end Composed

def appendPiece (e : Engine) (pos : String) (isAdj : Bool) (run : Summary) (d : Composed) :
    Piece → Except Crash Composed
  | .word s => appendWord e pos isAdj run d s
  | .literal l => appendLiteral isAdj d l

/-- Declines a run without alternants. -/
def composePlain (e : Engine) (pos : String) (isAdj : Bool) (r : PlainRun) :
    Except Crash Composed := do
  let d ← r.pieces.foldlM (appendPiece e pos isAdj r.summary) (← Composed.start isAdj)
  return d.close

/-- Declines a further branch and merges it into those before it. -/
def addBranch (e : Engine) (pos : String) (isAdj : Bool) (run : Summary) (a : Alternant)
    (st : Option Composed × List Composed) (b : PlainRun) :
    Except Crash (Option Composed × List Composed) := do
  let b := a.settle run b
  let c ← blankOther isAdj b.summary.num (← composePlain e pos isAdj b)
  let merged ← match st.1 with
    | some merged => merge isAdj merged c
    | none => .ok c
  return (some merged, st.2 ++ [c])

/-- The title of the first word of a branch, unless a title is found already. -/
def orTitle (title : Option String) (branch : Composed) : Except Crash (Option String) :=
  if (given title).isNone && !branch.wordTitles.isEmpty then some <$> item branch.wordTitles 0
  else .ok title

/-- The title of an alternant out of its branches. -/
def titleOf (ownTitles : Bool) (stems : List String) (branches : List Composed) :
    Except Crash String :=
  if ownTitles then joinSentences " or " (addNew [] (branches.map Composed.title))
  else do
    let title ← branches.foldlM orTitle none
    alternantTitle (title.getD "") (branches.map Composed.subtitles) stems

/-- What an alternant says besides its cells. -/
def told (a : Alternant) (isAdj : Bool) (title : String) (branches : List Composed) :
    Composition where
  cell _ := .unit
  titles := (given (some title)).toList
  categories :=
    if isAdj || a.summary.isAdj ≠ some true then branches.flatMap Composed.categories else []
  footnotes := branches.flatMap Composed.footnotes
  voc := branches.all Composed.voc
  noneut := branches.any Composed.noneut

/-- Strings the merged branches of an alternant to a run. -/
def appendAlternant (e : Engine) (pos : String) (isAdj : Bool) (run : Summary) (d : Composed)
    (a : Alternant) : Except Crash Composed := do
  let ownTitles := Alternant.needsOwnTitles a.branches
  let (merged?, branches) ← (if ownTitles then a.branches else a.mark).foldlM
    (addBranch e pos isAdj run a) (none, [])
  match merged? with
  | none => .error (.fault .emptyAlternant)
  | some merged =>
    let forms ← edit merged.forms (.mirror (run.num.bind NumberUse.only?) isAdj)
    let d ← d.appendCells isAdj fun name => .ok ({ merged with forms }.cell name)
    let title ← titleOf ownTitles (if ownTitles then [] else a.stems) branches
    return d.collect (told a isAdj title branches)

def appendNode (e : Engine) (pos : String) (isAdj : Bool) (run : Summary) (d : Composed) :
    Node → Except Crash Composed
  | .piece p => appendPiece e pos isAdj run d p
  | .alternant a => appendAlternant e pos isAdj run d a

/-- Declines a run. -/
def composeRun (e : Engine) (pos : String) (isAdj : Bool) (r : Run) : Except Crash Composed := do
  let d ← r.nodes.foldlM (appendNode e pos isAdj r.summary) (← Composed.start isAdj)
  return d.close

section Merging

/-- The places recorded are those at which the forms come to stand. -/
theorem addForms_spec (current : List String) (places : OrderedMap ℕ ℕ) (place : ℕ)
    (more : List String) :
    ∃ found, addForms current places place more = .ok (addNew current more, found) ∧
      (∀ i < place, found.get? i = places.get? i) ∧
      ∀ i, found.get? (place + i) =
        (more[i]?.map (addNew current more).idxOf <|> places.get? (place + i)) := by
  induction more generalizing current places place with
  | nil => exact ⟨places, rfl, fun _ _ => rfl, fun _ => rfl⟩
  | cons form more ih =>
    -- either way the form is recorded at the place where it stands among what there is now
    obtain ⟨kept, hadd, hmem, hstep⟩ : ∃ kept, addNew current (form :: more) = addNew kept more ∧
        form ∈ kept ∧ addForms current places place (form :: more) =
          addForms kept (places.insert place (kept.idxOf form)) (place + 1) more := by
      rw [addNew_cons, addForms]
      by_cases hform : form ∈ current
      · refine ⟨current, by rw [if_pos hform], hform, ?_⟩
        rw [if_pos hform, placeOf, if_pos hform]
        rfl
      · refine ⟨current ++ [form], by rw [if_neg hform], by simp, ?_⟩
        rw [if_neg hform, List.idxOf_append_of_notMem hform]
        simp
    obtain ⟨found, hfound, hbefore, hbehind⟩ :=
      ih kept (places.insert place (kept.idxOf form)) (place + 1)
    rw [hadd, hstep]
    refine ⟨found, hfound, ?_, ?_⟩
    · intro i hi
      rw [hbefore i (by omega), OrderedMap.get?_insert, if_neg (by omega)]
    · intro i
      cases i with
      | zero =>
        rw [Nat.add_zero, hbefore place (by omega), OrderedMap.get?_insert, if_pos rfl]
        simp [idxOf_addNew_of_mem hmem]
      | succ i =>
        have hplace : place + (i + 1) = place + 1 + i := by omega
        rw [hplace, hbehind, OrderedMap.get?_insert, if_neg (by omega), List.getElem?_cons_succ]

theorem mergeCell_eq (a b : Cell) : mergeCell a b = .ok (a.merge b) := by
  obtain ⟨found, hfound, _, hplaces⟩ := addForms_spec a.forms ∅ 0 b.forms
  refine bind_eq_ok.mpr ⟨_, hfound, ?_⟩
  have hget : ∀ place, found.get? place = b.forms[place]?.map (addNew a.forms b.forms).idxOf := by
    intro place
    have hplace := hplaces place
    rw [Nat.zero_add] at hplace
    rw [hplace]
    cases b.forms[place]? <;> rfl
  refine congrArg (fun notes => Except.ok (Cell.mk (addNew a.forms b.forms) notes)) ?_
  congr 1
  funext notes row
  simp only [hget]
  cases b.forms[row.1]? <;> rfl

end Merging

/-- A composition whose titles are strung together to one. -/
def closed (c : Composition) : Composition :=
  { c with titles := if c.titles.isEmpty then [] else [c.title] }

/-- A composition without the number in which a branch is not used. -/
def blanked (num : Option NumberUse) (c : Composition) : Composition :=
  match num.bind NumberUse.only? with
  | some n => c.blankNumber n.other
  | none => c

theorem closed_blanked (num : Option NumberUse) (c : Composition) :
    closed (blanked num c) = blanked num (closed c) := by
  unfold blanked
  cases num.bind NumberUse.only? <;> rfl

namespace Composed
variable {isAdj : Bool} {d branch : Composed} {c c' : Composition}

theorem Matches.close (h : d.Matches isAdj c) : d.close.Matches isAdj (closed c) :=
  { h with titles := by simp only [Composed.close, closed, h.titles, Composition.title] }

theorem Matches.title_eq (h : d.Matches isAdj (closed c)) : d.title = c.title := by
  rw [title, h.titles, closed, Composition.title]
  cases c.titles with
  | nil => rfl
  | cons first rest => simp [String.join]

theorem Matches.merge (h : d.Matches isAdj c) (hbranch : branch.Matches isAdj c') :
    ∃ d', Checked.merge isAdj d branch = .ok d' ∧
      d'.Matches isAdj (withCells c fun slot => (c.cell slot).merge (c'.cell slot)) := by
  refine h.rework (F := fun slot x => x.merge (c'.cell slot)) fun slot hslot => ?_
  rw [mergeCell_eq, hbranch.cell_eq hslot]

theorem Matches.blankOther (h : d.Matches isAdj c) (num : Option NumberUse) :
    ∃ d', Checked.blankOther isAdj num d = .ok d' ∧ d'.Matches isAdj (blanked num c) := by
  unfold Checked.blankOther blanked
  cases num.bind NumberUse.only? with
  | none => exact ⟨d, rfl, h⟩
  | some n =>
    have hnames : (runSlots isAdj).filter
          (fun name => (SlotName.mirror name n.other.name).isSome) =
        ((Slot.run isAdj).filter (·.number = n.other)).map Slot.name := by
      rw [runSlots_eq, List.filter_map]
      refine congrArg _ (List.filter_congr fun slot _ => ?_)
      rw [Function.comp_apply, SlotName.mirror_name]
      split <;> simp [*]
    obtain ⟨d', hd', h'⟩ := h.rework_of_subset (F := fun _ _ => .blank)
      (f := fun _ _ => .ok .blank) ((Slot.nodup_run isAdj).filter (·.number = n.other))
      (fun slot hslot => List.mem_of_mem_filter hslot) fun _ _ => rfl
    rw [← hnames] at hd'
    refine ⟨d', hd', h'.congr_cells fun slot hslot => ?_⟩
    simp [withCells, hslot]

/-- A composition whose forms of the one number it is used in are copied onto the other. -/
def mirrored (num : Option NumberUse) (c : Composition) : Composition :=
  match num.bind NumberUse.only? with
  | some n => c.mirrorNumber n
  | none => c

theorem Matches.mirrored (h : d.Matches isAdj c) (num : Option NumberUse) :
    ∃ forms, edit d.forms (.mirror (num.bind NumberUse.only?) isAdj) = .ok forms ∧
      { d with forms }.Matches isAdj (mirrored num c) := by
  have hnodup : (OrderedMap.keys (c.forms isAdj)).Nodup := by
    rw [Composition.keys_forms]
    exact Slot.nodup_run isAdj
  refine ⟨_, by rw [h.forms, edit_mirror hnodup], ?_⟩
  unfold Composed.mirrored Segment.mirrorOnly
  cases num.bind NumberUse.only? with
  | none => exact { h with forms := rfl }
  | some n =>
    refine { h with forms := congrArg sheet (Composition.mirrorNumber_forms n isAdj c), notes := ?_ }
    intro slot hslot
    rw [h.notes slot hslot]
    simp only [Composition.mirrorNumber]
    split <;> rfl

end Composed

section Branches
variable {isAdj : Bool}

theorem concat_concat (parts : List Composition) (part : Composition) :
    Composition.concat (parts ++ [part]) = (Composition.concat parts).append part := by
  rw [Composition.concat, List.foldl_append]
  rfl

theorem mergedCell_concat (first : Composition) (rest : List Composition) (c : Composition)
    (slot : Slot) : Composition.mergedCell (first :: (rest ++ [c])) slot =
      (Composition.mergedCell (first :: rest) slot).merge (c.cell slot) := by
  simp only [Composition.mergedCell, List.foldl_append]
  rfl

/-- What the branches of an alternant that have been gone through have come to. -/
inductive Merges (isAdj : Bool) : Option Composed × List Composed → List Composition → Prop
  | none : Merges isAdj (none, []) []
  | some {d : Composed} {branches : List Composed} {first : Composition} {rest : List Composition}
      (hbranches : List.Forall₂ (fun d c => d.Matches isAdj (closed c)) branches (first :: rest))
      (hmerged : d.Matches isAdj
        (Composed.withCells (closed first) (Composition.mergedCell (first :: rest)))) :
      Merges isAdj (some d, branches) (first :: rest)

/-- The title found is the first of all, as no word has an empty one. -/
theorem foldlM_orTitle {branches : List Composed} {cs : List Composition}
    (h : List.Forall₂ (fun d c => d.Matches isAdj (closed c)) branches cs) {title : Option String}
    (htitle : ∀ t ∈ title, t ≠ "") : ∃ found, branches.foldlM orTitle title = .ok found ∧
      found.getD "" = (title.toList ++ cs.flatMap Composition.wordTitles).headD "" := by
  induction h generalizing title with
  | nil => exact ⟨title, rfl, by cases title <;> rfl⟩
  | @cons d c branches cs hdc _ ih =>
    have hwords : d.wordTitles = c.wordTitles := hdc.wordTitles
    obtain ⟨next, hnext, hne, hhead⟩ : ∃ next, orTitle title d = .ok next ∧ (∀ t ∈ next, t ≠ "") ∧
        ∀ l, (next.toList ++ l).headD "" = (title.toList ++ (c.wordTitles ++ l)).headD "" := by
      unfold orTitle
      cases title with
      | some t =>
        have ht : given (some t) = some t := Option.filter_some_pos (by simpa using htitle t rfl)
        exact ⟨some t, by rw [ht]; rfl, htitle, fun _ => rfl⟩
      | none =>
        cases hw : d.wordTitles with
        | nil => exact ⟨none, rfl, htitle, fun l => by rw [← hwords, hw]; rfl⟩
        | cons t ts =>
          refine ⟨some t, rfl, ?_, fun l => by rw [← hwords, hw]; rfl⟩
          rintro _ ⟨⟩
          exact hdc.wordTitles_ne t (by rw [hw]; exact List.mem_cons_self)
    obtain ⟨found, hfound, htitled⟩ := ih hne
    refine ⟨found, ?_, ?_⟩
    · rw [List.foldlM_cons, hnext]
      exact hfound
    · rw [htitled, hhead, List.flatMap_cons]

theorem titleOf_eq {branches : List Composed} {cs : List Composition}
    (h : List.Forall₂ (fun d c => d.Matches isAdj (closed c)) branches cs) (ownTitles : Bool)
    (stems : List String) :
    titleOf ownTitles stems branches = .ok (Alternant.title ownTitles stems cs) := by
  cases ownTitles with
  | true =>
    have htitles := map_eq_of_forall₂ h fun _ _ hdc => hdc.title_eq
    simp only [titleOf, Alternant.title, if_true, joinSentences_eq, htitles]
  | false =>
    have hsubtitles := map_eq_of_forall₂ h fun d c hdc =>
      (hdc.subtitles : d.subtitles = c.subtitles)
    have hnone : ∀ t ∈ (none : Option String), t ≠ "" := fun _ ht => nomatch ht
    obtain ⟨found, hfound, htitle⟩ := foldlM_orTitle h hnone
    refine bind_eq_ok.mpr ⟨found, hfound, ?_⟩
    rw [alternantTitle_eq, htitle, hsubtitles]
    rfl

/-- What the branches say besides their cells. -/
theorem told_eq (run : Summary) (a : Alternant) {branches : List Composed} {cs : List Composition}
    (h : List.Forall₂ (fun d c => d.Matches isAdj (closed c)) branches cs) :
    told a isAdj (Alternant.title (Alternant.needsOwnTitles a.branches)
        (if Alternant.needsOwnTitles a.branches then [] else a.stems) cs) branches =
      { a.contribution isAdj run cs with cell := fun _ => .unit } := by
  have hcategories := flatMap_eq_of_forall₂ h fun d c hdc =>
    (hdc.categories : d.categories = c.categories)
  have hfootnotes := flatMap_eq_of_forall₂ h fun d c hdc =>
    (hdc.footnotes : d.footnotes = c.footnotes)
  have hvoc := all_eq_of_forall₂ h fun d c hdc => (hdc.voc : d.voc = c.voc)
  have hnoneut := any_eq_of_forall₂ h fun d c hdc => (hdc.noneut : d.noneut = c.noneut)
  simp only [told, Alternant.contribution, hcategories, hfootnotes, hvoc, hnoneut]
  rfl

end Branches

section Compose
variable {e : Engine} (he : e.Accepted) (pos : String) {isAdj : Bool} (run : Summary)
  {d : Composed} {c : Composition}

include he

theorem appendPiece_refines (h : d.Matches isAdj c) (p : Piece) :
    Refines (fun d' part => d'.Matches isAdj (c.append part)) (appendPiece e pos isAdj run d p)
      (p.compose e.toEngine pos isAdj run) := by
  cases p with
  | word s => exact appendWord_refines he pos run s h
  | literal l =>
    obtain ⟨d', hd', h'⟩ := appendLiteral_matches l h
    rw [appendPiece, hd']
    exact .ok h'

theorem composePlain_refines (r : PlainRun) :
    Refines (fun d c => d.Matches isAdj (closed c)) (composePlain e pos isAdj r)
      (r.compose e.toEngine pos isAdj) := by
  obtain ⟨start, hstart, hmatches⟩ := Composed.start_matches isAdj
  refine .bind_left hstart ?_
  have hpieces := Refines.foldlM_mapM
    (P := fun d parts => d.Matches isAdj (Composition.concat parts))
    (fun d parts p h => (appendPiece_refines he pos r.summary h p).mono fun d' part _ h' => by
      rwa [concat_concat]) r.pieces (show start.Matches isAdj (Composition.concat []) from hmatches)
  exact hpieces.bind fun d parts h => .ok h.close

theorem addBranch_refines (a : Alternant) {st : Option Composed × List Composed}
    {cs : List Composition} (h : Merges isAdj st cs) (b : PlainRun) :
    Refines (fun st' c => Merges isAdj st' (cs ++ [c])) (addBranch e pos isAdj run a st b)
      (Alternant.composeBranch e.toEngine pos isAdj (a.settle run b)) := by
  refine (composePlain_refines he pos (a.settle run b)).bind fun d c hd => ?_
  obtain ⟨d', hd', hbranch⟩ := hd.blankOther (a.settle run b).summary.num
  rw [← closed_blanked] at hbranch
  refine .bind_left hd' ?_
  cases h with
  | none =>
    exact .ok (.some (.cons hbranch .nil) (hbranch.congr_cells fun _ _ => rfl))
  | @some merged branches first rest hbranches hmerged =>
    obtain ⟨merged', hmerge, hmatches⟩ := hmerged.merge hbranch
    refine .bind_left hmerge (.ok (.some (List.rel_append hbranches (.cons hbranch .nil)) ?_))
    exact hmatches.congr_cells fun slot _ => (mergedCell_concat first rest (blanked _ c) slot).symm

theorem appendAlternant_refines (h : d.Matches isAdj c) (a : Alternant) :
    Refines (fun d' part => d'.Matches isAdj (c.append part)) (appendAlternant e pos isAdj run d a)
      (a.compose e.toEngine pos isAdj run) := by
  have hbranches := Refines.foldlM_mapM (P := Merges isAdj)
    (fun st cs b hst => addBranch_refines he pos run a hst b)
    (if Alternant.needsOwnTitles a.branches then a.branches else a.mark) .none
  refine hbranches.bind ?_
  intro st cs hst
  cases hst with
  | none => exact .error _
  | @some merged branches first rest hdone hmerged =>
    obtain ⟨forms, hforms, hmirrored⟩ := hmerged.mirrored run.num
    refine .bind_left hforms ?_
    obtain ⟨d', hd', hmatches⟩ := h.append (a.contribution isAdj run (first :: rest))
      (f := fun name => .ok ({ merged with forms }.cell name)) (fun _ ht => nomatch ht) (by
        intro slot hslot
        rw [hmirrored.cell_eq hslot]
        unfold Composed.mirrored Alternant.contribution
        cases run.num.bind NumberUse.only? <;> rfl)
    refine .bind_left hd' (.bind_left (titleOf_eq hdone _ _) ?_)
    rw [told_eq run a hdone]
    exact .ok hmatches

theorem appendNode_refines (h : d.Matches isAdj c) (n : Node) :
    Refines (fun d' part => d'.Matches isAdj (c.append part)) (appendNode e pos isAdj run d n)
      (n.compose e.toEngine pos isAdj run) := by
  cases n with
  | piece p => exact appendPiece_refines he pos run h p
  | alternant a => exact appendAlternant_refines he pos run h a

theorem composeRun_refines (r : Run) :
    Refines (fun d c => d.Matches isAdj (closed c)) (composeRun e pos isAdj r)
      (r.compose e.toEngine pos isAdj) := by
  obtain ⟨start, hstart, hmatches⟩ := Composed.start_matches isAdj
  refine .bind_left hstart ?_
  have hnodes := Refines.foldlM_mapM
    (P := fun d parts => d.Matches isAdj (Composition.concat parts))
    (fun d parts n h => (appendNode_refines he pos r.summary h n).mono fun d' part _ h' => by
      rwa [concat_concat]) r.nodes (show start.Matches isAdj (Composition.concat []) from hmatches)
  exact hnodes.bind fun d parts h => .ok h.close

end Compose
end Declension.Checked
