import Declension.Proofs.Outcome
import Declension.Run.Reader

/-!
# What a run shows

The words and the plain text of a run are shown without the links they are written with.
-/
namespace Declension

/-- Whether a word shows its lemma, and the text before it, without links. -/
structure Segment.ShowsPlain (s : Segment) : Prop where
  word : s.word = Text.unlink s.linkedWord
  lead : s.lead = Text.unlink s.linkedLead

def Literal.ShowsPlain (l : Literal) : Prop := l.text = Text.unlink l.linkedText

def Piece.ShowsPlain : Piece → Prop
  | word s => s.ShowsPlain
  | literal l => l.ShowsPlain

def Run.ShowsPlain (r : Run) : Prop := ∀ p, .piece p ∈ r.nodes → p.ShowsPlain

theorem readLiteral_showsPlain {s : List Char} {l : Literal} (h : readLiteral s = .ok l) :
    l.ShowsPlain := by
  unfold readLiteral at h
  split at h
  · cases h
  · cases h
    rfl

theorem word_adjectiveSegment {t : Tables} {word linkedWord decl : String}
    {oblique : Option String} {tags : TagSet} {s : Segment}
    (h : adjectiveSegment t word linkedWord oblique decl tags = .ok s) :
    s.word = word ∧ s.linkedWord = linkedWord := by
  obtain ⟨found, _, h⟩ := bind_eq_ok.mp h
  rw [← Except.ok.inj h]
  exact ⟨rfl, rfl⟩

theorem word_nounSegment {t : Tables} {word linkedWord decl : String} {oblique : Option String}
    {tags : TagSet} {s : Segment} (h : nounSegment t word linkedWord oblique decl tags = .ok s) :
    s.word = word ∧ s.linkedWord = linkedWord := by
  obtain ⟨found, _, h⟩ := bind_eq_ok.mp h
  rw [← Except.ok.inj h]
  exact ⟨rfl, rfl⟩

/-- A word that is read keeps the first of its stems as it is written. -/
theorem Segment.stems_of_read {t : Tables} {text : String} {s : Segment}
    (h : Segment.read t text = .ok s) : ∃ stems spec oblique,
      splitSpec? text.toList = some (stems, spec) ∧
      splitStems stems text = .ok (s.linkedWord, oblique) ∧
      s.word = Text.unlink s.linkedWord := by
  unfold Segment.read at h
  dsimp only at h
  cases hparts : splitSpec? text.toList with
  | none =>
    rw [hparts] at h
    cases h
  | some parts =>
    obtain ⟨stems, spec⟩ := parts
    rw [hparts] at h
    obtain ⟨_, hpure, h⟩ := bind_eq_ok.mp h
    cases hpure
    obtain ⟨⟨linkedWord, oblique⟩, hstems, h⟩ := bind_eq_ok.mp h
    refine ⟨stems, spec, oblique, rfl, ?_⟩
    split at h
    all_goals
      obtain ⟨written, _, h⟩ := bind_eq_ok.mp h
      dsimp only at h
      split at h
      · obtain ⟨hword, hlinked⟩ := word_adjectiveSegment h
        rw [hword, hlinked]
        exact ⟨hstems, rfl⟩
      · split at h
        · cases h
        · obtain ⟨hword, hlinked⟩ := word_nounSegment h
          rw [hword, hlinked]
          exact ⟨hstems, rfl⟩

theorem Segment.word_of_read {t : Tables} {text : String} {s : Segment}
    (h : Segment.read t text = .ok s) : s.word = Text.unlink s.linkedWord := by
  obtain ⟨_, _, _, _, _, hword⟩ := Segment.stems_of_read h
  exact hword

theorem readWord_showsPlain {t : Tables} {lead word : List Char} {s : Segment}
    (h : readWord t lead word = .ok s) : s.ShowsPlain := by
  obtain ⟨l, hl, h⟩ := bind_eq_ok.mp h
  obtain ⟨v, hv, h⟩ := bind_eq_ok.mp h
  rw [← Except.ok.inj h]
  have hword := Segment.word_of_read hv
  exact ⟨hword, readLiteral_showsPlain hl⟩

/-- A run that is read has a piece for each of its words, behind the text before it, and one for the
text behind the last. -/
theorem PlainRun.mem_pieces_of_read {t : Tables} {text : List Char} {r : PlainRun}
    (h : PlainRun.read t text = .ok r) {p : Piece} (hp : p ∈ r.pieces) :
    (∃ pair ∈ (cutWords text).1, ∃ s, readWord t pair.1 pair.2 = .ok s ∧ p = .word s) ∨
      ∃ l, readLiteral (cutWords text).2 = .ok l ∧ p = .literal l := by
  obtain ⟨segments, hsegments, h⟩ := bind_eq_ok.mp h
  have hwords : ∀ p ∈ segments.map Piece.word,
      ∃ pair ∈ (cutWords text).1, ∃ s, readWord t pair.1 pair.2 = .ok s ∧ p = .word s := by
    intro p hp
    obtain ⟨s, hs, rfl⟩ := List.mem_map.mp hp
    obtain ⟨pair, hpair, hread⟩ := exists_mem_of_forall₂ (mapM_eq_ok.mp hsegments) hs
    exact ⟨pair, hpair, s, hread, rfl⟩
  split at h
  · rw [← Except.ok.inj h] at hp
    exact .inl (hwords p hp)
  · obtain ⟨l, hl, h⟩ := bind_eq_ok.mp h
    rw [← Except.ok.inj h] at hp
    rcases List.mem_append.mp hp with hp | hp
    · exact .inl (hwords p hp)
    · exact .inr ⟨l, hl, List.mem_singleton.mp hp⟩

theorem PlainRun.showsPlain_of_read {t : Tables} {text : List Char} {r : PlainRun}
    (h : PlainRun.read t text = .ok r) : ∀ p ∈ r.pieces, p.ShowsPlain := by
  intro p hp
  rcases mem_pieces_of_read h hp with ⟨_, _, s, hread, rfl⟩ | ⟨l, hread, rfl⟩
  · exact readWord_showsPlain hread
  · exact readLiteral_showsPlain hread

end Declension
