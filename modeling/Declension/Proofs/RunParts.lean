import Declension.Proofs.ReadRun
import Declension.Proofs.Scan

/-!
# The texts a run is read from

A run is cut into its alternants and the plain text between them, an alternant into its branches,
and a plain part into words with the text before each. Every word, and all that stands around words,
lies in the plain part it is read from. Main statement: `forall_pieces_of_plainParts`, by which what
holds of the pieces of each plain part holds of all pieces of a run.
-/
namespace Declension
open Text

section Cut
variable {P : List Char → Prop} {s : List Char}

theorem forall_pairUp {lead : List Char} {found : List (List Char × List Char)}
    (h : ∀ item ∈ found, P item.1) : ∀ pair ∈ (cutWords.pairUp lead found).1, P pair.2 := by
  induction found generalizing lead with
  | nil => exact fun _ hpair => nomatch hpair
  | cons item found ih =>
    obtain ⟨hitem, hrest⟩ := List.forall_mem_cons.mp h
    exact List.forall_mem_cons.mpr ⟨hitem, ih hrest⟩

/-- What holds of everything that is found in parts of a run holds of its words. -/
theorem forall_cutWords
    (hlinked : ∀ v word n, v <:+: s → findLinkedWord v = some (word, n) → P word)
    (hword : ∀ isSuffix v word n, v <:+: s → findWord isSuffix v = some (word, n) → P word) :
    ∀ pair ∈ (cutWords s).1, P pair.2 := by
  have hchunk : ∀ isSuffix u, u <:+: s → ∀ pair ∈ (cutWords.chunk isSuffix u).1, P pair.2 := by
    intro isSuffix u hu
    apply forall_pairUp
    intro item hitem
    obtain ⟨⟨v, n, hv, hfind⟩, _⟩ := find_of_mem_cut hitem
    exact hword isSuffix v item.1 n (hv.isInfix.trans hu) hfind
  unfold cutWords
  refine List.foldlRecOn (motive := fun done : List (List Char × List Char) × List Char =>
    ∀ pair ∈ done.1, P pair.2) _ _ (hchunk _ _ (infix_cut_fst s)) ?_
  intro done hdone item hitem
  obtain ⟨⟨v, n, hv, hfind⟩, hbetween⟩ := find_of_mem_cut hitem
  refine List.forall_mem_append.mpr ⟨hdone, List.forall_mem_cons.mpr ⟨?_, hchunk _ _ hbetween⟩⟩
  exact hlinked v item.1 n hv.isInfix hfind

theorem forall_leads_pairUp {lead : List Char} {found : List (List Char × List Char)}
    (hlead : P lead) (h : ∀ item ∈ found, P item.2) :
    (∀ pair ∈ (cutWords.pairUp lead found).1, P pair.1) ∧ P (cutWords.pairUp lead found).2 := by
  induction found generalizing lead with
  | nil => exact ⟨fun _ hpair => (nomatch hpair), hlead⟩
  | cons item found ih =>
    obtain ⟨hitem, hrest⟩ := List.forall_mem_cons.mp h
    obtain ⟨hpairs, hlast⟩ := ih hitem hrest
    exact ⟨List.forall_mem_cons.mpr ⟨hlead, hpairs⟩, hlast⟩

theorem prefix_of_findWord {isSuffix : Bool} {v word : List Char} {n : ℕ}
    (h : findWord isSuffix v = some (word, n)) : word <+: v := by
  unfold findWord at h
  dsimp only at h
  split at h
  · cases h
  · obtain ⟨_, _, h⟩ := Option.map_eq_some_iff.mp h
    cases h
    exact List.take_prefix _ v

theorem prefix_of_findLinkedWord {v word : List Char} {n : ℕ}
    (h : findLinkedWord v = some (word, n)) : word <+: v := by
  unfold findLinkedWord at h
  split at h
  · obtain ⟨_, _, h⟩ := Option.bind_eq_some_iff.mp h
    obtain ⟨_, _, h⟩ := Option.bind_eq_some_iff.mp h
    cases h
    exact List.take_prefix _ _
  · cases h

theorem infix_of_mem_cutWords {pair : List Char × List Char} (h : pair ∈ (cutWords s).1) :
    pair.2 <:+: s := by
  refine forall_cutWords (P := (· <:+: s)) ?_ ?_ pair h
  · exact fun v word n hv hfind => (prefix_of_findLinkedWord hfind).isInfix.trans hv
  · exact fun isSuffix v word n hv hfind => (prefix_of_findWord hfind).isInfix.trans hv

/-- The text around words lies in their run. -/
theorem infix_leads_cutWords (s : List Char) :
    (∀ pair ∈ (cutWords s).1, pair.1 <:+: s) ∧ (cutWords s).2 <:+: s := by
  have hchunk : ∀ isSuffix u, u <:+: s → (∀ pair ∈ (cutWords.chunk isSuffix u).1, pair.1 <:+: s) ∧
      (cutWords.chunk isSuffix u).2 <:+: s := fun isSuffix u hu =>
    forall_leads_pairUp (P := (· <:+: s)) ((infix_cut_fst u).trans hu) fun item hitem =>
      (find_of_mem_cut hitem).2.trans hu
  unfold cutWords
  refine List.foldlRecOn (motive := fun done : List (List Char × List Char) × List Char =>
    (∀ pair ∈ done.1, pair.1 <:+: s) ∧ done.2 <:+: s) _ _ (hchunk _ _ (infix_cut_fst s)) ?_
  rintro ⟨done, lead⟩ ⟨hdone, hlead⟩ item hitem
  obtain ⟨hpairs, hlast⟩ := hchunk (s.head? = some '-') item.2 (find_of_mem_cut hitem).2
  exact ⟨List.forall_mem_append.mpr ⟨hdone, List.forall_mem_cons.mpr ⟨hlead, hpairs⟩⟩, hlast⟩

end Cut

theorem Text.prefix_line (s : List Char) : line s <+: s := by
  unfold line
  split
  · exact List.dropLast_prefix s
  · exact List.prefix_rfl

/-- The stems of a word stand at its start. -/
theorem prefix_of_splitSpec? {s stems spec : List Char} (h : splitSpec? s = some (stems, spec)) :
    stems <+: s := by
  refine List.IsPrefix.trans ?_ (prefix_line s)
  unfold splitSpec? at h
  split at h
  · rename_i r hr
    split at h
    · cases h
      have hline : r.reverse <+: Text.line s := by
        rw [← List.reverse_reverse (Text.line s), hr, List.reverse_cons]
        exact List.prefix_append _ _
      exact (List.reverse_prefix.mpr (List.drop_suffix _ r)).trans hline
    · cases h
  · cases h

theorem infix_of_splitStems {stems : List Char} {text linkedWord : String}
    {oblique : Option String} (h : splitStems stems text = .ok (linkedWord, oblique)) :
    linkedWord.toList <:+: stems := by
  unfold splitStems at h
  split at h
  · cases h
  · cases h
  · rename_i word _ hfields
    cases h
    rw [String.toList_ofList]
    exact infix_of_mem_fieldsChars (by rw [hfields]; exact List.mem_cons_self)
  · rename_i word _ _ hfields
    cases h
    rw [String.toList_ofList]
    exact infix_of_mem_fieldsChars (by rw [hfields]; exact List.mem_cons_self)
  · cases h

theorem linkedText_of_readLiteral {s : List Char} {l : Literal} (h : readLiteral s = .ok l) :
    l.linkedText = String.ofList s := by
  unfold readLiteral at h
  split at h
  · cases h
  · cases h
    rfl

namespace Piece

/-- The plain text of a piece, as shown and with its links: what stands before a word, or behind the
last one. -/
def plainTexts : Piece → List String
  | word s => [s.lead, s.linkedLead]
  | literal l => [l.text, l.linkedText]

/-- The lemma of a piece, as shown and with its links. -/
def lemmas : Piece → List String
  | word s => [s.word, s.linkedWord]
  | literal _ => []

/-- The texts of a piece as they are written, with their links. -/
def writtenTexts : Piece → List String
  | word s => [s.linkedLead, s.linkedWord]
  | literal l => [l.linkedText]

/-- The texts of a piece as they are shown. -/
def shownTexts : Piece → List String
  | word s => [s.lead, s.word]
  | literal l => [l.text]

theorem ShowsPlain.shownTexts_eq {p : Piece} (h : p.ShowsPlain) :
    p.shownTexts = p.writtenTexts.map Text.unlink := by
  cases p with
  | word s => simp [shownTexts, writtenTexts, h.word, h.lead]
  | literal l => exact congrArg (fun text => [text]) h

end Piece

/-- The texts of a piece lie in the part it is read from. -/
theorem PlainRun.infix_of_read {t : Tables} {text : List Char} {r : PlainRun}
    (h : read t text = .ok r) : ∀ p ∈ r.pieces, ∀ s ∈ p.writtenTexts, s.toList <:+: text := by
  obtain ⟨hleads, hlast⟩ := infix_leads_cutWords text
  intro p hp
  rcases mem_pieces_of_read h hp with ⟨pair, hpair, s, hread, rfl⟩ | ⟨l, hread, rfl⟩
  · obtain ⟨l, hl, hread⟩ := bind_eq_ok.mp hread
    obtain ⟨v, hv, hread⟩ := bind_eq_ok.mp hread
    obtain ⟨stems, spec, oblique, hsplit, hstems, -⟩ := Segment.stems_of_read hv
    rw [String.toList_ofList] at hsplit
    have hword : v.linkedWord.toList <:+: text :=
      ((infix_of_splitStems hstems).trans (prefix_of_splitSpec? hsplit).isInfix).trans
        (infix_of_mem_cutWords hpair)
    rw [← Except.ok.inj hread]
    simpa [Piece.writtenTexts, linkedText_of_readLiteral hl] using
      And.intro (hleads pair hpair) hword
  · simpa [Piece.writtenTexts, linkedText_of_readLiteral hread] using hlast

/-- The pieces of a run, those of its alternants included. -/
def Node.pieces : Node → List Piece
  | piece p => [p]
  | alternant a => a.branches.flatMap PlainRun.pieces

def Run.pieces (r : Run) : List Piece := r.nodes.flatMap Node.pieces

theorem infix_of_alternantInside? {text inside : List Char}
    (h : alternantInside? text = some inside) : inside <:+: text := by
  unfold alternantInside? at h
  split at h
  · rename_i r hr
    split at h
    · cases h
      have hinside : r.take (r.length - 2) <:+: '(' :: '(' :: r :=
        (List.take_prefix _ r).isInfix.trans (List.suffix_append ['(', '('] r).isInfix
      exact hinside.trans (hr ▸ (prefix_line text).isInfix)
    · cases h
  · cases h

theorem infix_of_findAlternant {v found : List Char} {n : ℕ}
    (h : findAlternant v = some (found, n)) : found <:+: v := by
  unfold findAlternant at h
  split at h
  · obtain ⟨inside, hinside, hfound⟩ := Option.bind_eq_some_iff.mp h
    obtain ⟨_, rest, rfl⟩ := of_upTo hinside
    cases hfound
    exact ⟨[], rest, by simp⟩
  · cases h

/-- The plain parts of a run: what stands before, between and behind its alternants, and their
branches. -/
def plainParts (s : List Char) : List (List Char) :=
  (cut findAlternant s).1 :: (cut findAlternant s).2.flatMap fun part =>
    (alternantInside? part.1).toList.flatMap (fieldsChars ',') ++ [part.2]

theorem infix_of_mem_plainParts {s part : List Char} (h : part ∈ plainParts s) : part <:+: s := by
  rcases List.mem_cons.mp h with rfl | h
  · exact infix_cut_fst s
  · obtain ⟨item, hitem, hpart⟩ := List.mem_flatMap.mp h
    obtain ⟨⟨v, n, hv, hfind⟩, hafter⟩ := find_of_mem_cut hitem
    rcases List.mem_append.mp hpart with hpart | hpart
    · obtain ⟨inside, hinside, hfield⟩ := List.mem_flatMap.mp hpart
      have halternant := (infix_of_findAlternant hfind).trans hv.isInfix
      exact ((infix_of_mem_fieldsChars hfield).trans
        (infix_of_alternantInside? (Option.mem_toList.mp hinside))).trans halternant
    · rwa [List.mem_singleton.mp hpart]

/-- Texts that are read on their own, with what is read of each. -/
abbrev PlainRun.ReadEach (t : Tables) : List (List Char) → List PlainRun → Prop :=
  List.Forall₂ fun text b => read t text = .ok b

section Branches
variable {t : Tables} {texts : List (List Char)} {branches : List PlainRun} {done a : Alternant}

/-- Branches that can be read are put together one by one. -/
theorem readBranches_eq (h : PlainRun.ReadEach t texts branches) :
    readBranches t done texts = (⟨done.branches ++ branches, ·⟩) <$>
      (branches.map PlainRun.summary).foldlM Summary.addBranch done.summary := by
  induction h generalizing done with
  | nil =>
    rw [List.append_nil]
    rfl
  | @cons text b texts branches hb _ ih =>
    have hstep : readBranches t done (text :: texts) =
        done.summary.addBranch b.summary >>= fun s =>
          readBranches t ⟨done.branches ++ [b], s⟩ texts := by
      rw [readBranches, hb]
      rfl
    rw [hstep, List.map_cons, List.foldlM_cons, map_bind]
    refine bind_congr fun s => ?_
    rw [ih]
    simp

theorem readEach_of_readBranches (h : readBranches t done texts = .ok a) :
    ∃ branches, PlainRun.ReadEach t texts branches := by
  induction texts generalizing done with
  | nil => exact ⟨[], .nil⟩
  | cons text texts ih =>
    obtain ⟨b, hb, h⟩ := bind_eq_ok.mp h
    obtain ⟨_, _, h⟩ := bind_eq_ok.mp h
    obtain ⟨branches, hbranches⟩ := ih h
    exact ⟨b :: branches, .cons hb hbranches⟩

namespace Alternant
variable {text inside : List Char}

/-- An alternant whose branches can be read. -/
theorem read_eq (hinside : alternantInside? text = some inside) {b : PlainRun}
    (h : PlainRun.ReadEach t (fieldsChars ',' inside) (b :: branches)) :
    read t text = (⟨b :: branches, ·⟩) <$>
      (branches.map PlainRun.summary).foldlM Summary.addBranch b.summary := by
  obtain ⟨first, rest, hfirst, hrest, hfields⟩ := List.forall₂_cons_right_iff.mp h
  unfold read
  rw [hinside]
  dsimp only
  rw [hfields]
  dsimp only
  rw [hfirst]
  exact readBranches_eq hrest

/-- An alternant that is read has branches that can be. -/
theorem exists_of_read (h : read t text = .ok a) : ∃ inside b branches s,
    alternantInside? text = some inside ∧
    PlainRun.ReadEach t (fieldsChars ',' inside) (b :: branches) ∧
    (branches.map PlainRun.summary).foldlM Summary.addBranch b.summary = .ok s ∧
    a = ⟨b :: branches, s⟩ := by
  cases hinside : alternantInside? text with
  | none =>
    rw [read, hinside] at h
    cases h
  | some inside =>
    obtain ⟨first, rest, hfields, -⟩ := exists_fieldsChars ',' inside
    have hread := h
    rw [read, hinside] at hread
    dsimp only at hread
    rw [hfields] at hread
    obtain ⟨b, hb, hread⟩ := bind_eq_ok.mp hread
    obtain ⟨branches, hbranches⟩ := readEach_of_readBranches hread
    have hall : PlainRun.ReadEach t (fieldsChars ',' inside) (b :: branches) :=
      hfields ▸ .cons hb hbranches
    rw [read_eq hinside hall] at h
    obtain ⟨s, hs, rfl⟩ := map_eq_ok.mp h
    exact ⟨inside, b, branches, s, rfl, hall, hs, rfl⟩

end Alternant

theorem Summary.addPart_empty (a : Summary) : a.addPart {} = a := by
  obtain ⟨gender, num, loc, isAdj, propses⟩ := a
  cases isAdj <;> simp [addPart]

/-- A plain part is added as it is read on its own; nothing is read of an empty one. -/
theorem addPlain_eq (done : Run) (text : List Char) :
    addPlain t done text = (fun part => ⟨done.nodes ++ part.pieces.map .piece,
      done.summary.addPart part.summary⟩) <$> PlainRun.read t text := by
  unfold addPlain
  cases text with
  | nil =>
    have hempty : PlainRun.read t [] = .ok ⟨[], {}, nofun⟩ := rfl
    rw [hempty]
    simp [Functor.map, Except.map, Summary.addPart_empty]
  | cons c text => rfl

end Branches

section Tree
variable {t : Tables} {A : List Char → Prop} {P : Piece → Prop}
  (hP : ∀ part q, A part → PlainRun.read t part = .ok q → ∀ p ∈ q.pieces, P p)
include hP

theorem Alternant.forall_pieces_of_read {text : List Char}
    (htext : ∀ inside ∈ alternantInside? text, ∀ part ∈ fieldsChars ',' inside, A part)
    {a : Alternant} (h : Alternant.read t text = .ok a) :
    ∀ b ∈ a.branches, ∀ p ∈ b.pieces, P p := by
  obtain ⟨inside, b, branches, s, hinside, hall, -, rfl⟩ := exists_of_read h
  intro c hc
  obtain ⟨part, hpart, hread⟩ := exists_mem_of_forall₂ hall hc
  exact hP part c (htext inside hinside part hpart) hread

theorem forall_pieces_of_addPlain {text : List Char} (htext : A text) {done r : Run}
    (hdone : ∀ p ∈ done.pieces, P p) (h : addPlain t done text = .ok r) : ∀ p ∈ r.pieces, P p := by
  rw [addPlain_eq] at h
  obtain ⟨part, hpart, rfl⟩ := map_eq_ok.mp h
  rw [Run.pieces, List.flatMap_append, List.flatMap_map]
  refine List.forall_mem_append.mpr ⟨hdone, ?_⟩
  simpa [Node.pieces] using hP text part htext hpart

theorem forall_pieces_of_addAlternant {part : List Char × List Char}
    (hpart : ∀ inside ∈ alternantInside? part.1, ∀ field ∈ fieldsChars ',' inside, A field)
    (hafter : A part.2) {done r : Run} (hdone : ∀ p ∈ done.pieces, P p)
    (h : addAlternant t done part = .ok r) : ∀ p ∈ r.pieces, P p := by
  obtain ⟨a, ha, h⟩ := bind_eq_ok.mp h
  apply forall_pieces_of_addPlain hP hafter _ h
  rw [Run.pieces, List.flatMap_append]
  refine List.forall_mem_append.mpr ⟨hdone, ?_⟩
  have hall := Alternant.forall_pieces_of_read hP hpart ha
  simpa [Node.pieces] using fun p b hb hp => hall b hb p hp

end Tree

namespace Run
variable {t : Tables} {P : Piece → Prop} {text : String} {r : Run}

/-- Every piece of a run that is read comes from one of its plain parts. -/
theorem forall_pieces_of_plainParts (h : Run.read t text = .ok r)
    (hP : ∀ part q, part ∈ plainParts text.toList → PlainRun.read t part = .ok q →
      ∀ p ∈ q.pieces, P p) : ∀ p ∈ r.pieces, P p := by
  unfold Run.read at h
  dsimp only at h
  split at h
  · cases h
  · obtain ⟨front, hfront, h⟩ := bind_eq_ok.mp h
    have hstart : ∀ p ∈ front.pieces, P p :=
      forall_pieces_of_addPlain hP List.mem_cons_self (by simp [Run.pieces]) hfront
    refine foldlM_preserves (P := fun r : Run => ∀ p ∈ r.pieces, P p) ?_ hstart h
    intro done part hpart r hdone hstep
    have hmem : ∀ u ∈ (alternantInside? part.1).toList.flatMap (fieldsChars ',') ++ [part.2],
        u ∈ plainParts text.toList := fun u hu =>
      List.mem_cons_of_mem _ (List.mem_flatMap.mpr ⟨part, hpart, hu⟩)
    refine forall_pieces_of_addAlternant hP ?_ (hmem part.2 (by simp)) hdone hstep
    intro inside hinside field hfield
    refine hmem field (List.mem_append_left _ (List.mem_flatMap.mpr ⟨inside, ?_, hfield⟩))
    exact Option.mem_toList.mpr hinside

theorem forall_pieces_of_read (h : Run.read t text = .ok r)
    (hP : ∀ part q, part <:+: text.toList → PlainRun.read t part = .ok q → ∀ p ∈ q.pieces, P p) :
    ∀ p ∈ r.pieces, P p :=
  forall_pieces_of_plainParts h fun part q hpart hq => hP part q (infix_of_mem_plainParts hpart) hq

theorem showsPlain_of_read (h : Run.read t text = .ok r) : r.ShowsPlain := by
  intro p hp
  refine forall_pieces_of_read h (fun _ _ _ hq => PlainRun.showsPlain_of_read hq) p ?_
  exact List.mem_flatMap.mpr ⟨.piece p, hp, List.mem_singleton_self p⟩

end Run
end Declension
