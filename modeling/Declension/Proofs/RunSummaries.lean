import Declension.Proofs.Branches

/-!
# What a run with alternants tells of its words

The summary of a run is that of all its words in the order in which they stand, with a group for
each stretch of plain text and each branch. Parts that can be read make a run, unless branches of
one alternant are of two kinds. Main statement: `summary_of_read`.
-/
namespace Declension
open Text
variable {t : Tables}

/-- The words of each stretch of a run: of what stands before, between and behind its alternants, and
of their branches. -/
def stretches : List Node → List (List Segment)
  | [] => [[]]
  | .piece p :: rest => (stretches rest).modifyHead (p.segment?.toList ++ ·)
  | .alternant a :: rest => [] :: (a.branches.map PlainRun.segments ++ stretches rest)

theorem stretches_ne_nil (nodes : List Node) : stretches nodes ≠ [] := by
  induction nodes with
  | nil => exact List.cons_ne_nil _ _
  | cons node nodes ih =>
    cases node with
    | piece p => simpa [stretches] using ih
    | alternant a => exact List.cons_ne_nil _ _

theorem stretches_append_alternant (nodes : List Node) (a : Alternant) (rest : List Node) :
    stretches (nodes ++ .alternant a :: rest) =
      stretches nodes ++ (a.branches.map PlainRun.segments ++ stretches rest) := by
  induction nodes with
  | nil => rfl
  | cons node nodes ih =>
    cases node with
    | piece p =>
      rw [List.cons_append, stretches, ih, stretches]
      cases hnodes : stretches nodes with
      | nil => exact absurd hnodes (stretches_ne_nil nodes)
      | cons words more => rfl
    | alternant b => simp [stretches, ih]

theorem stretches_pieces (pieces : List Piece) :
    stretches (pieces.map .piece) = [pieces.filterMap Piece.segment?] := by
  induction pieces with
  | nil => rfl
  | cons p pieces ih =>
    rw [List.map_cons, stretches, ih, List.filterMap_cons]
    cases p <;> rfl

theorem flatten_stretches (nodes : List Node) :
    (stretches nodes).flatten = (nodes.flatMap Node.pieces).filterMap Piece.segment? := by
  induction nodes with
  | nil => rfl
  | cons node nodes ih =>
    rw [List.flatMap_cons, List.filterMap_append, ← ih]
    cases node with
    | piece p =>
      rw [stretches]
      cases hnodes : stretches nodes with
      | nil => exact absurd hnodes (stretches_ne_nil nodes)
      | cons words more => cases p <;> rfl
    | alternant a =>
      rw [stretches, List.flatten_cons, List.flatten_append, List.nil_append, Node.pieces,
        List.filterMap_flatMap, List.flatMap_def]
      rfl

namespace Run

/-- The words of a run from left to right, those of every branch included. -/
def segments (r : Run) : List Segment := r.pieces.filterMap Piece.segment?

def stretches (r : Run) : List (List Segment) := Declension.stretches r.nodes

theorem flatten_stretches (r : Run) : r.stretches.flatten = r.segments :=
  Declension.flatten_stretches r.nodes

end Run

namespace Alternant
variable {text : List Char} {a : Alternant}

theorem tells_of_read (h : read t text = .ok a) :
    a.summary.Tells (a.branches.map PlainRun.segments) := by
  obtain ⟨inside, b, branches, s, -, hall, hs, rfl⟩ := exists_of_read h
  have htells : ∀ c ∈ b :: branches, c.summary.Tells [c.segments] :=
    forall_mem_of_forall₂ hall fun _ _ => PlainRun.tells_of_read
  obtain ⟨hb, hrest⟩ := List.forall_mem_cons.mp htells
  refine hb.foldlM_addBranch ?_ hs
  rw [List.forall₂_map_left_iff, List.forall₂_map_right_iff]
  exact List.forall₂_same.mpr hrest

/-- The number of an alternant: the one that all its branches have, or both if two differ. -/
structure NumberAgrees (a : Alternant) : Prop where
  common : ∀ n, (∀ b ∈ a.branches, b.summary.num = n) → a.summary.num = n
  differing : ∀ b ∈ a.branches, ∀ c ∈ a.branches, b.summary.num ≠ c.summary.num →
    a.summary.num = some .both

theorem numberAgrees_of_read (h : read t text = .ok a) : a.NumberAgrees := by
  obtain ⟨inside, b, branches, s, -, -, hs, rfl⟩ := exists_of_read h
  have hnum := Summary.num_of_foldlM_addBranch hs
  simp only [List.forall_mem_map] at hnum
  constructor
  · intro n hn
    obtain ⟨hb, hrest⟩ := List.forall_mem_cons.mp hn
    have hsame : ∀ c ∈ branches, c.summary.num = b.summary.num := fun c hc =>
      (hrest c hc).trans hb.symm
    dsimp only
    rw [hnum, if_pos hsame, hb]
  · intro c hc d hd hne
    have hdiffer : ¬ ∀ c ∈ branches, c.summary.num = b.summary.num := by
      intro hsame
      have hall : ∀ c ∈ b :: branches, c.summary.num = b.summary.num :=
        List.forall_mem_cons.mpr ⟨rfl, hsame⟩
      exact hne ((hall c hc).trans (hall d hd).symm)
    dsimp only
    rw [hnum, if_neg hdiffer]

end Alternant

/-- What a run that is read so far tells of its words, and its alternants of their number. -/
structure Run.IsSummed (r : Run) : Prop where
  tells : r.summary.Tells r.stretches
  numberAgrees : ∀ a, .alternant a ∈ r.nodes → a.NumberAgrees

theorem isSummed_of_addPlain {text : List Char} {r : Run}
    (h : addPlain t ⟨[], {}⟩ text = .ok r) : r.IsSummed := by
  rw [addPlain_eq] at h
  obtain ⟨part, hpart, rfl⟩ := map_eq_ok.mp h
  have htells := Summary.Tells.nil.addPart (PlainRun.tells_of_read hpart)
  constructor
  · rw [Run.stretches, List.nil_append, stretches_pieces]
    exact htells
  · simp

theorem Run.IsSummed.addAlternant {part : List Char × List Char} {done r : Run}
    (hdone : done.IsSummed) (h : addAlternant t done part = .ok r) : r.IsSummed := by
  obtain ⟨a, ha, h⟩ := bind_eq_ok.mp h
  rw [addPlain_eq] at h
  obtain ⟨plain, hplain, rfl⟩ := map_eq_ok.mp h
  have htells := (hdone.tells.addPart (Alternant.tells_of_read ha)).addPart
    (PlainRun.tells_of_read hplain)
  constructor
  · rw [List.append_assoc] at htells
    rw [Run.stretches, List.append_assoc, List.singleton_append, stretches_append_alternant,
      stretches_pieces]
    exact htells
  · intro b hb
    simp only [List.mem_append, List.mem_singleton, List.mem_map, Node.alternant.injEq,
      reduceCtorEq, and_false, exists_false, or_false] at hb
    rcases hb with hb | rfl
    · exact hdone.numberAgrees b hb
    · exact Alternant.numberAgrees_of_read ha

/-- The texts between the parentheses of the alternants of a run. -/
def insides (s : List Char) : List (List Char) :=
  (cut findAlternant s).2.flatMap fun part => (alternantInside? part.1).toList

/-- Whether two branches of an alternant, each read on its own, are of two kinds. -/
def IsMixed (t : Tables) (inside : List Char) : Prop :=
  ∃ p ∈ fieldsChars ',' inside, ∃ q ∈ fieldsChars ',' inside,
    ∃ b c, PlainRun.read t p = .ok b ∧ PlainRun.read t q = .ok c ∧ b.Mixes c

theorem isMixed_iff {inside : List Char} {branches : List PlainRun}
    (h : PlainRun.ReadEach t (fieldsChars ',' inside) branches) :
    IsMixed t inside ↔ ∃ b ∈ branches, ∃ c ∈ branches, b.Mixes c := by
  constructor
  · rintro ⟨p, hp, q, hq, b, c, hb, hc, hmixes⟩
    obtain ⟨b', hb', hpb⟩ := exists_mem_of_forall₂ h.flip hp
    obtain ⟨c', hc', hqc⟩ := exists_mem_of_forall₂ h.flip hq
    cases hb.symm.trans hpb
    cases hc.symm.trans hqc
    exact ⟨b, hb', c, hc', hmixes⟩
  · rintro ⟨b, hb, c, hc, hmixes⟩
    obtain ⟨p, hp, hpb⟩ := exists_mem_of_forall₂ h hb
    obtain ⟨q, hq, hqc⟩ := exists_mem_of_forall₂ h hc
    exact ⟨p, hp, q, hq, b, c, hpb, hqc, hmixes⟩

/-- Between readable parts, an alternant is refused just if it is mixed. -/
theorem addAlternant_eq_error {part : List Char × List Char} {inside : List Char}
    (hinside : alternantInside? part.1 = some inside)
    (hfields : ∀ field ∈ fieldsChars ',' inside, ∃ b, PlainRun.read t field = .ok b)
    (hafter : ∃ b, PlainRun.read t part.2 = .ok b) (done : Run) (f : Fault) :
    addAlternant t done part = .error f ↔ f = .mixedAlternant ∧ IsMixed t inside := by
  obtain ⟨branches, hbranches⟩ := exists_forall₂ hfields
  obtain ⟨b, hb⟩ := hafter
  rw [isMixed_iff hbranches, ← Alternant.read_eq_error hinside hbranches, addAlternant]
  cases hread : Alternant.read t part.1 with
  | error g => simp [bind, Except.bind]
  | ok a =>
    refine iff_of_false (fun h => ?_) nofun
    have h : addPlain t ⟨done.nodes ++ [.alternant a], done.summary.addPart a.summary⟩ part.2 =
      .error f := h
    rw [addPlain_eq, hb] at h
    cases h

namespace Run
variable {text : String}

theorem isSummed_of_read {r : Run} (h : read t text = .ok r) : r.IsSummed := by
  unfold read at h
  dsimp only at h
  split at h
  · cases h
  · obtain ⟨front, hfront, h⟩ := bind_eq_ok.mp h
    exact foldlM_preserves (fun _ _ _ _ hdone hstep => hdone.addAlternant hstep)
      (isSummed_of_addPlain hfront) h

/-- The error of a text of which each part can be read on its own. -/
theorem read_eq_error (hclosed : ['(', '('] <:+: text.toList → [')', ')'] <:+: text.toList)
    (hparts : ∀ part ∈ plainParts text.toList, ∃ b, PlainRun.read t part = .ok b) {f : Fault} :
    read t text = .error f ↔
      f = .mixedAlternant ∧ ∃ inside ∈ insides text.toList, IsMixed t inside := by
  have hnot : ¬ (occurs ['(', '('] text.toList && !occurs [')', ')'] text.toList) = true := by
    rw [Bool.and_eq_true, Bool.not_eq_true', ← Bool.not_eq_true, occurs_iff, occurs_iff]
    exact fun ⟨hopen, hclose⟩ => hclose (hclosed hopen)
  obtain ⟨hfront, hrest⟩ := List.forall_mem_cons.mp hparts
  obtain ⟨front, hfront⟩ := hfront
  have hstart : addPlain t ⟨[], {}⟩ (cut findAlternant text.toList).1 =
      .ok ⟨[] ++ front.pieces.map .piece, Summary.addPart {} front.summary⟩ := by
    rw [addPlain_eq, hfront]
    rfl
  have hstep : ∀ part ∈ (cut findAlternant text.toList).2, ∀ done f,
      addAlternant t done part = .error f ↔
        f = .mixedAlternant ∧ ∃ inside ∈ (alternantInside? part.1).toList, IsMixed t inside := by
    intro part hpart done f
    obtain ⟨⟨v, n, -, hfind⟩, -⟩ := find_of_mem_cut hpart
    obtain ⟨inside, -, -, -, hfound, -⟩ := findAlternant_eq_some hfind
    have hinside : alternantInside? part.1 = some inside := by
      rw [hfound, alternantInside?_written]
    have hmem : ∀ u ∈ (alternantInside? part.1).toList.flatMap (fieldsChars ',') ++ [part.2],
        ∃ b, PlainRun.read t u = .ok b := fun u hu =>
      hrest u (List.mem_flatMap.mpr ⟨part, hpart, hu⟩)
    rw [hinside] at hmem
    rw [addAlternant_eq_error hinside (fun field hfield => hmem field (by simp [hfield]))
      (hmem part.2 (by simp)), hinside]
    simp
  have hread : read t text = (cut findAlternant text.toList).2.foldlM (addAlternant t)
      ⟨[] ++ front.pieces.map .piece, Summary.addPart {} front.summary⟩ := by
    unfold read
    dsimp only
    rw [if_neg hnot, hstart]
    rfl
  rw [hread, foldlM_eq_error hstep]
  refine and_congr_right fun _ => ?_
  simp only [insides, List.mem_flatMap]
  constructor
  · rintro ⟨part, hpart, inside, hinside, hmixed⟩
    exact ⟨inside, ⟨part, hpart, hinside⟩, hmixed⟩
  · rintro ⟨inside, ⟨part, hpart, hinside⟩, hmixed⟩
    exact ⟨part, hpart, inside, hinside, hmixed⟩

/-- The words of a run tell its summary. If each part of a text can be read on its own, the text is
refused just if it has an alternant with branches of two kinds. -/
theorem summary_of_read :
    (∀ r, read t text = .ok r →
      r.summary.Describes r.segments ∧ r.summary.Tells r.stretches ∧
      r.stretches.flatten = r.segments ∧
      r.summary.propses.flatten = r.segments.map Segment.prop ∧
      ∀ a, .alternant a ∈ r.nodes → a.NumberAgrees) ∧
    ((['(', '('] <:+: text.toList → [')', ')'] <:+: text.toList) →
      (∀ part ∈ plainParts text.toList, ∃ b, PlainRun.read t part = .ok b) →
      ∀ f, read t text = .error f ↔
        f = .mixedAlternant ∧ ∃ inside ∈ insides text.toList, IsMixed t inside) := by
  refine ⟨fun r h => ?_, fun hclosed hparts f => read_eq_error hclosed hparts⟩
  have hsummed := isSummed_of_read h
  have hflatten := r.flatten_stretches
  exact ⟨hflatten ▸ hsummed.tells.toDescribes, hsummed.tells, hflatten,
    hflatten ▸ hsummed.tells.flatten_propses, hsummed.numberAgrees⟩

/-- An irregular noun with two adjectives or nothing, and an adjective that is offered with a noun. -/
theorem summary_of_read_of_vis_and_bonus :
    (∃ r, read .latin "vīs<irreg> ((nova<1&2+>,antīqua<1&2+.sg>,xyz))" = .ok r ∧
      r.summary.Describes r.segments ∧ r.summary.Tells r.stretches ∧
      r.stretches.map List.length = [1, 1, 1, 0, 0] ∧
      r.summary.propses.flatten = r.segments.map Segment.prop ∧
      ∀ a, .alternant a ∈ r.nodes → a.NumberAgrees) ∧
    IsMixed .latin "bonus<1&2+>,puella<1>".toList ∧
    read .latin "((bonus<1&2+>,puella<1>))" = .error .mixedAlternant := by
  constructor
  · obtain ⟨r, hr, hlength⟩ : ∃ r, read .latin "vīs<irreg> ((nova<1&2+>,antīqua<1&2+.sg>,xyz))" =
        .ok r ∧ r.stretches.map List.length = [1, 1, 1, 0, 0] := ⟨_, rfl, rfl⟩
    obtain ⟨hdescribes, htells, -, hpropses, hnumber⟩ := summary_of_read.1 r hr
    exact ⟨r, hr, hdescribes, htells, hlength, hpropses, hnumber⟩
  · have hmixed : IsMixed .latin "bonus<1&2+>,puella<1>".toList :=
      ⟨"bonus<1&2+>".toList, by decide, "puella<1>".toList, by decide, _, _, rfl, rfl,
        by decide +kernel⟩
    have hparts : plainParts "((bonus<1&2+>,puella<1>))".toList =
        [[], "bonus<1&2+>".toList, "puella<1>".toList, []] := by decide +kernel
    refine ⟨hmixed, (summary_of_read.2 (by decide +kernel) ?_ _).mpr ⟨rfl, _, ?_, hmixed⟩⟩
    · rw [hparts]
      simp only [List.forall_mem_cons, List.not_mem_nil, false_implies, implies_true, and_true]
      exact ⟨⟨_, rfl⟩, ⟨_, rfl⟩, ⟨_, rfl⟩, _, rfl⟩
    · decide +kernel

end Run
end Declension
