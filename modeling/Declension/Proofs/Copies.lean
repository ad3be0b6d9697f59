import Declension.Proofs.NumberMirror
import Declension.Proofs.Reading

/-!
# Alternants of equal branches

An alternant that offers the same run several times yields what the run yields by itself: its words
are marked with nothing, and every branch behind the first adds neither forms nor notes. Only a
form that a slot has twice is listed once and collects the notes of both. Main statement:
`compose_copies`.
-/
namespace Declension

theorem foldl_addMissing_of_subset {present : List String} {lists : List (List String)}
    (h : ∀ more ∈ lists, more ⊆ present) : lists.foldl addMissing present = present := by
  induction lists with
  | nil => rfl
  | cons more lists ih =>
    obtain ⟨hmore, hrest⟩ := List.forall_mem_cons.mp h
    have hnone : more.filter (· ∉ present) = [] := by
      rw [List.filter_eq_nil_iff]
      intro note hnote
      simpa using hmore hnote
    rw [List.foldl_cons, addMissing, hnone, List.append_nil, ih hrest]

theorem addNew_flatten_replicate {α : Type} [DecidableEq α] {items : List α} (h : items.Nodup)
    (n : ℕ) : addNew [] (List.replicate (n + 1) items).flatten = items := by
  have hrest : (List.replicate n items).flatten ⊆ items := by
    intro a ha
    obtain ⟨copy, hcopy, ha⟩ := List.mem_flatten.mp ha
    rwa [List.eq_of_mem_replicate hcopy] at ha
  rw [List.replicate_succ, List.flatten_cons, addNew_append, addNew_of_nodup [] h]
  simpa using addNew_of_subset hrest

namespace Cell
variable {c : Cell}

theorem forms_foldl_merge_replicate (c : Cell) (n : ℕ) :
    ((List.replicate n c).foldl merge c).forms = c.forms := by
  rw [forms_foldl_merge]
  apply addNew_of_subset
  intro form hform
  obtain ⟨copy, hcopy, hform⟩ := List.mem_flatMap.mp hform
  rwa [List.eq_of_mem_replicate hcopy] at hform

/-- Where no form repeats, the notes on a form are those at its only place. -/
theorem notes_eq_of_mem_noted (h : c.forms.Nodup) {x : NotedForm} (hx : x ∈ c.noted) :
    x.2 = c.notesAt (c.forms.idxOf x.1) := by
  obtain ⟨place, hplace⟩ := List.mem_iff_getElem?.mp hx
  rw [getElem?_noted] at hplace
  obtain ⟨form, hform, rfl⟩ := Option.map_eq_some_iff.mp hplace
  obtain ⟨hlt, hget⟩ := List.getElem?_eq_some_iff.mp hform
  have hidx : c.forms.idxOf form = place := by
    rw [← hget]
    exact h.idxOf_getElem place hlt
  rw [hidx]

theorem recorded_replicate (h : c.forms.Nodup) (n place : ℕ) :
    recorded c.forms c (List.replicate n c) place = c.notesAt place := by
  apply foldl_addMissing_of_subset
  intro notes hnotes
  obtain ⟨x, hx, rfl⟩ := List.mem_map.mp hnotes
  obtain ⟨hx, hplace⟩ := List.mem_filter.mp hx
  obtain ⟨copy, hcopy, hx⟩ := List.mem_flatMap.mp hx
  rw [List.eq_of_mem_replicate hcopy] at hx
  have hidx : c.forms.idxOf x.1 = place := by simpa using hplace
  rw [notes_eq_of_mem_noted h hx, hidx]
  exact fun _ hnote => hnote

/-- Copies of a cell without repeated forms are merged into the cell itself. -/
theorem unit_append_foldl_merge_replicate (hc : c.IsNormal) (h : c.forms.Nodup) (n : ℕ) :
    unit.append ((List.replicate n c).foldl merge c) = c := by
  have hcopies : ∀ t ∈ List.replicate n c, t.IsNormal := by
    intro t ht
    rwa [List.eq_of_mem_replicate ht]
  have hunion := isUnion_foldl_merge hc hcopies
  have hforms : (unit.append ((List.replicate n c).foldl merge c)).forms = c.forms := by
    rw [forms_unit_append, forms_foldl_merge_replicate]
  apply (isNormal_append _ _).ext_noted hc
  apply List.ext_getElem?
  intro place
  rw [getElem?_noted, getElem?_noted, hforms, hunion.notes, hforms, recorded_replicate h]

end Cell

namespace Composition

/-- One composition has the forms of another, its categories, footnotes and use of vocative and
neuter, and the notes of every slot where the other has no form twice. -/
structure Repeats (c d : Composition) : Prop where
  forms : ∀ slot, (c.cell slot).forms = (d.cell slot).forms
  cell : ∀ slot, (d.cell slot).forms.Nodup → c.cell slot = d.cell slot
  categories : c.categories = d.categories
  footnotes : c.footnotes = d.footnotes
  voc : c.voc = d.voc
  noneut : c.noneut = d.noneut

theorem mem_categories_foldl {category : String} {a : Composition} {parts : List Composition} :
    category ∈ (parts.foldl append a).categories ↔
      category ∈ a.categories ∨ ∃ part ∈ parts, category ∈ part.categories := by
  induction parts generalizing a with
  | nil => simp
  | cons part parts ih =>
    rw [List.foldl_cons, ih, List.exists_mem_cons_iff, ← or_assoc]
    simp [append]

theorem categories_concat_eq_nil {parts : List Composition}
    (h : ∀ part ∈ parts, part.categories = []) : (concat parts).categories = [] := by
  rw [List.eq_nil_iff_forall_not_mem]
  intro category hcategory
  rcases mem_categories_foldl.mp hcategory with hunit | ⟨part, hpart, hcategory⟩
  · cases hunit
  · rw [h part hpart] at hcategory
    cases hcategory

end Composition

namespace PlainRun
variable {e : Engine} {pos : String} {isAdj : Bool} {r : PlainRun}

/-- A run of adjectives adds nothing to the categories of nouns. -/
theorem categories_of_adjectives {c : Composition} (h : r.compose e pos false = .ok c)
    (hadj : r.summary.isAdj = some true) : c.categories = [] := by
  obtain ⟨parts, hparts, h⟩ := bind_eq_ok.mp h
  rw [← Except.ok.inj h]
  apply Composition.categories_concat_eq_nil
  intro part hpart
  obtain ⟨piece, hpiece, hyields⟩ := exists_mem_of_forall₂ (mapM_eq_ok.mp hparts) hpart
  cases piece with
  | literal l =>
    cases hyields
    rfl
  | word s =>
    have hs : s.isAdj := by simpa [Piece.isNoun] using r.kind hadj _ hpiece
    obtain ⟨p, _, _, rfl⟩ := Segment.compose_eq_ok.mp hyields
    simp [Segment.contribution, hs]

end PlainRun

/-- Two summaries that put words to the same use: they differ in the properties told at most. -/
structure Summary.SameUse (a b : Summary) : Prop where
  gender : a.gender = b.gender
  num : a.num = b.num
  loc : a.loc = b.loc
  isAdj : a.isAdj = b.isAdj

instance (a b : Summary) : Decidable (a.SameUse b) :=
  decidable_of_iff (a.gender = b.gender ∧ a.num = b.num ∧ a.loc = b.loc ∧ a.isAdj = b.isAdj)
    ⟨fun ⟨hgender, hnum, hloc, hadj⟩ => ⟨hgender, hnum, hloc, hadj⟩,
      fun h => ⟨h.gender, h.num, h.loc, h.isAdj⟩⟩

namespace Alternant
variable {e : Engine} {pos : String} {isAdj : Bool} {a : Alternant} {run : Summary}
  {r : PlainRun} {n : ℕ}

theorem markSegment_of_subset {all : TagSet} {s : Segment} (h : all ⊆ s.tags) :
    markSegment all s = s := by
  have hnone : all.filter (!s.tags.contains ·) = [] := by
    rw [List.filter_eq_nil_iff]
    intro t ht
    simpa using h ht
  rw [markSegment, hnone, List.map_nil, List.append_nil]

theorem declined_of_needsOwnTitles_replicate
    (h : needsOwnTitles (List.replicate (n + 1) r) = false) :
    ∃ s, r.pieces.filterMap Piece.declined? = [s] := by
  rw [← List.length_eq_one_iff]
  by_contra hlength
  simp [needsOwnTitles, hlength] at h

/-- A word has every trait that its copies have, so copies are marked with nothing. -/
theorem marked_of_copies (ha : a.branches = List.replicate (n + 1) r) :
    a.marked = List.replicate (n + 1) r := by
  unfold marked
  cases hown : needsOwnTitles a.branches with
  | true => rw [if_pos rfl, ha]
  | false =>
    obtain ⟨s, hs⟩ := declined_of_needsOwnTitles_replicate (ha ▸ hown)
    have hall : TagSet.ofList (a.declined.flatMap Segment.tags) ⊆ s.tags := by
      intro t ht
      obtain ⟨v, hv, ht⟩ := List.mem_flatMap.mp (TagSet.mem_ofList.mp ht)
      obtain ⟨copy, hcopy, hv⟩ := List.mem_flatMap.mp hv
      rw [ha] at hcopy
      rw [List.eq_of_mem_replicate hcopy, hs, List.mem_singleton] at hv
      rwa [hv] at ht
    have hpieces : ∀ p ∈ r.pieces,
        markPiece (TagSet.ofList (a.declined.flatMap Segment.tags)) p = p := by
      intro p hp
      cases p with
      | literal l => rfl
      | word v =>
        by_cases hv : v.decl = ""
        · simp only [markPiece, hv, if_true]
        · have hmem : v ∈ r.pieces.filterMap Piece.declined? :=
            List.mem_filterMap.mpr ⟨_, hp, by simp [Piece.declined?, hv]⟩
          rw [hs, List.mem_singleton] at hmem
          rw [markPiece, if_neg hv, hmem, markSegment_of_subset hall]
    have hrun : markRun (TagSet.ofList (a.declined.flatMap Segment.tags)) r = r := by
      obtain ⟨pieces, summary, hkind⟩ := r
      simp only [markRun, PlainRun.mk.injEq, and_true]
      exact (List.map_congr_left hpieces).trans (List.map_id' _)
    rw [if_neg Bool.false_ne_true, mark, ha, List.map_replicate, hrun]

theorem settle_of_sameUse (ha : a.summary.SameUse r.summary) (hrun : run.SameUse r.summary) :
    a.settle run r = r := by
  obtain ⟨pieces, ⟨gender, num, loc, isAdj, propses⟩, hkind⟩ := r
  simp only [settle, ha.gender, ha.num, ha.loc, hrun.gender, hrun.num, hrun.loc]
  cases gender <;> cases num <;> cases loc <;> rfl

theorem composeBranch_of_both (hnum : r.summary.num.bind NumberUse.only? = none) :
    composeBranch e pos isAdj r = r.compose e pos isAdj := by
  rw [composeBranch, hnum]
  exact bind_pure _

/-- Copies of a run fail as it does, and are merged from what it yields. -/
theorem compose_of_copies (hbranches : a.branches = List.replicate (n + 1) r)
    (ha : a.summary.SameUse r.summary) (hrun : run.SameUse r.summary)
    (hnum : r.summary.num.bind NumberUse.only? = none) :
    a.compose e pos isAdj run = (do
      let d ← r.compose e pos isAdj
      return a.contribution isAdj run (List.replicate (n + 1) d)) := by
  have hcomposed : a.marked.mapM (fun b => composeBranch e pos isAdj (a.settle run b)) =
      List.replicate (n + 1) <$> r.compose e pos isAdj := by
    rw [marked_of_copies hbranches, mapM_replicate, settle_of_sameUse ha hrun,
      composeBranch_of_both hnum]
  rw [compose, ← marked, hcomposed]
  cases r.compose e pos isAdj <;> rfl

/-- Copies have the categories of one of them, unless an alternant of adjectives leaves out what its
words leave out as well. -/
theorem categories_contribution_replicate {d : Composition} (hd : d.IsNormal)
    (hnone : isAdj = false → a.summary.isAdj = some true → d.categories = []) :
    (Composition.unit.append
      (a.contribution isAdj run (List.replicate (n + 1) d))).categories = d.categories := by
  simp only [Composition.append, contribution, Composition.unit, List.flatMap_replicate]
  split
  · exact addNew_flatten_replicate hd.categories n
  · rename_i hgate
    obtain ⟨hnoun, hadj⟩ : isAdj = false ∧ a.summary.isAdj = some true := by
      simpa [-decide_not] using hgate
    rw [hnone hnoun hadj]
    rfl

/-- What copies of a composition are merged into, strung onto nothing, repeats the composition. -/
theorem repeats_contribution_replicate (hnum : run.num.bind NumberUse.only? = none)
    {d : Composition} (hd : d.IsNormal)
    (hnone : isAdj = false → a.summary.isAdj = some true → d.categories = []) :
    (Composition.unit.append
      (a.contribution isAdj run (List.replicate (n + 1) d))).Repeats d := by
  have hcell : ∀ slot, (Composition.unit.append
        (a.contribution isAdj run (List.replicate (n + 1) d))).cell slot =
      Cell.unit.append ((List.replicate n (d.cell slot)).foldl Cell.merge (d.cell slot)) := by
    intro slot
    rw [Composition.append, cell_contribution hnum, List.replicate_succ]
    dsimp only
    rw [Composition.mergedCell_cons, List.map_replicate]
    rfl
  constructor
  case forms =>
    intro slot
    rw [hcell, Cell.forms_unit_append, Cell.forms_foldl_merge_replicate]
  case cell =>
    intro slot hnodup
    rw [hcell, Cell.unit_append_foldl_merge_replicate (hd.cell slot) hnodup]
  case categories => exact categories_contribution_replicate hd hnone
  case footnotes =>
    simp only [Composition.append, contribution, Composition.unit, List.flatMap_replicate]
    exact addNew_flatten_replicate hd.footnotes n
  case voc => simp [Composition.append, contribution, Composition.unit]
  case noneut => simp [Composition.append, contribution, Composition.unit]

end Alternant

/-- A run whose only node is an alternant of copies of another run, both in the use of that run, is
declined just if that run is, and repeats what it yields. -/
theorem Run.compose_copies {e : Engine} {pos : String} {isAdj : Bool} {r : PlainRun}
    {a : Alternant} {s : Summary} {n : ℕ} (hn : 0 < n) (ha : a.branches = List.replicate n r)
    (huse : a.summary.SameUse r.summary) (hrun : s.SameUse r.summary)
    (hsg : r.summary.num ≠ some .sg) (hpl : r.summary.num ≠ some .pl) :
    Agree Composition.Repeats (Run.compose e pos isAdj ⟨[.alternant a], s⟩)
      (Run.compose e pos isAdj ⟨r.pieces.map .piece, r.summary⟩) := by
  obtain ⟨n, rfl⟩ : ∃ k, n = k + 1 := ⟨n - 1, by omega⟩
  have hnum : r.summary.num.bind NumberUse.only? = none := by
    rcases hs : r.summary.num with _ | _ | _ | _
    · rfl
    · exact absurd hs hsg
    · exact absurd hs hpl
    · rfl
  rw [← PlainRun.compose_eq_run, compose, List.mapM_cons, List.mapM_nil]
  simp only [Node.compose, Alternant.compose_of_copies ha huse hrun hnum]
  cases hd : r.compose e pos isAdj with
  | error f => exact .error f
  | ok d =>
    have hnormal : d.IsNormal := by
      rw [PlainRun.compose_eq_run] at hd
      exact Run.isNormal_of_compose e pos isAdj hd
    refine .ok (Alternant.repeats_contribution_replicate (hrun.num ▸ hnum) hnormal ?_)
    rintro rfl hadj
    exact PlainRun.categories_of_adjectives hd (huse.isAdj ▸ hadj)

/-- A god who is good, twice: the second genitive plural keeps its note, which is not repeated. -/
theorem Run.compose_copies_of_deus_bonus :
    ∃ a s r c d, Run.read .latin "((deus<2.genplum> bonus<1&2+>,deus<2.genplum> bonus<1&2+>))" =
        .ok ⟨[.alternant a], s⟩ ∧
      PlainRun.read .latin "deus<2.genplum> bonus<1&2+>".toList = .ok r ∧
      0 < 2 ∧ a.branches = List.replicate 2 r ∧ a.summary.SameUse r.summary ∧
      s.SameUse r.summary ∧ r.summary.num ≠ some .sg ∧ r.summary.num ≠ some .pl ∧
      Run.compose ⟨.latin, {}⟩ "nouns" false ⟨[.alternant a], s⟩ = .ok c ∧
      Run.compose ⟨.latin, {}⟩ "nouns" false ⟨r.pieces.map .piece, r.summary⟩ = .ok d ∧
      (c.cell (.pl .gen)).notes.entries = [(1, ["Contraction found in poetry."])] ∧
      c.Repeats d := by
  obtain ⟨a, s, r, hread, hr, ha, huse, hrun, hnum, c, hc, hnotes⟩ : ∃ a s r,
      Run.read .latin "((deus<2.genplum> bonus<1&2+>,deus<2.genplum> bonus<1&2+>))" =
        .ok ⟨[.alternant a], s⟩ ∧
      PlainRun.read .latin "deus<2.genplum> bonus<1&2+>".toList = .ok r ∧
      a.branches = List.replicate 2 r ∧ a.summary.SameUse r.summary ∧ s.SameUse r.summary ∧
      r.summary.num = none ∧ ∃ c,
      Run.compose ⟨.latin, {}⟩ "nouns" false ⟨[.alternant a], s⟩ = .ok c ∧
      (c.cell (.pl .gen)).notes.entries = [(1, ["Contraction found in poetry."])] :=
    ⟨_, _, _, rfl, rfl, by decide +kernel, by decide +kernel, by decide +kernel,
      by decide +kernel, _, rfl, by decide +kernel⟩
  have hsg : r.summary.num ≠ some .sg := by simp [hnum]
  have hpl : r.summary.num ≠ some .pl := by simp [hnum]
  have hagree : Agree Composition.Repeats
      (Run.compose ⟨.latin, {}⟩ "nouns" false ⟨[.alternant a], s⟩)
      (Run.compose ⟨.latin, {}⟩ "nouns" false ⟨r.pieces.map .piece, r.summary⟩) :=
    Run.compose_copies Nat.two_pos ha huse hrun hsg hpl
  rw [hc] at hagree
  generalize hd : Run.compose ⟨.latin, {}⟩ "nouns" false ⟨r.pieces.map .piece, r.summary⟩ =
    composed at hagree
  cases hagree with
  | ok h =>
    exact ⟨a, s, r, c, _, hread, hr, Nat.two_pos, ha, huse, hrun, hsg, hpl, hc, hd, hnotes, h⟩

theorem Run.not_compose_copies_of_noun_called_adjective :
    ∃ (e : Engine) (r : PlainRun) (s : Summary) (c d : Composition),
      PlainRun.read e.tables "unguis<irreg>".toList = .ok r ∧ s.isAdj = some true ∧
      Run.compose e "nouns" false ⟨[.alternant ⟨[r], s⟩], s⟩ = .ok c ∧
      Run.compose e "nouns" false ⟨r.pieces.map .piece, s⟩ = .ok d ∧
      c.categories = [] ∧ d.categories = ["Latin nouns"] :=
  ⟨⟨{ Tables.latin with
      irregularNouns := [{ words := ["unguis"], forms := ∅, categories := ["Latin nouns"] }] }, {}⟩,
    _, { isAdj := some true }, _, _, rfl, rfl, rfl, rfl, by decide +kernel, by decide +kernel⟩

end Declension
