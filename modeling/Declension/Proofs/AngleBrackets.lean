import Declension.Proofs.Links
import Declension.Proofs.Reading
import Declension.Proofs.RunParts
import Declension.Tables.Latin
import Mathlib.Data.List.TakeWhile

/-!
# Angle brackets in runs

A word is cut off at the first closing bracket behind it, but its specification is told from its
last opening one. So a bracket that is opened twice stays in the lemma, and so does one inside of
the link of a word; any other that is left over stands in plain text, where it is an error. Main
statement: `isAngleFree_of_read`, with `nihil<<0>` for what happens outside of its condition.
-/
namespace Declension

namespace Text

/-- Whether a text holds no angle bracket. -/
def IsAngleFree (s : List Char) : Prop := '<' ∉ s ∧ '>' ∉ s

instance (s : List Char) : Decidable (IsAngleFree s) := inferInstanceAs (Decidable (_ ∧ _))

theorem IsAngleFree.sublist {u s : List Char} (hs : IsAngleFree s) (h : u.Sublist s) :
    IsAngleFree u :=
  ⟨fun hopen => hs.1 (h.subset hopen), fun hclose => hs.2 (h.subset hclose)⟩

/-- Whether the text starts with a bracket that is opened again before it is closed. -/
def opensTwice : List Char → Bool
  | '<' :: r => (upTo ['<'] (· ≠ '>') r).isSome
  | _ => false

/-- Whether the text starts with a linked word that has an angle bracket in its link. -/
def linksAngle : List Char → Bool
  | '[' :: '[' :: r =>
    (upTo [']', ']', '<'] (fun c => c ≠ '[' && c ≠ ']') r).any fun inside => !IsAngleFree inside
  | _ => false

/-- Whether somewhere a bracket is opened twice, or hidden in the link of a word. -/
def isMuddled (s : List Char) : Bool := s.tails.any fun v => opensTwice v || linksAngle v

theorem opensTwice_append {v : List Char} (h : opensTwice v) (w : List Char) :
    opensTwice (v ++ w) := by
  unfold opensTwice at h
  split at h
  · obtain ⟨u, hu⟩ := Option.isSome_iff_exists.mp h
    rw [List.cons_append, opensTwice, upTo_append_of_some hu w]
    rfl
  · cases h

theorem linksAngle_append {v : List Char} (h : linksAngle v) (w : List Char) :
    linksAngle (v ++ w) := by
  unfold linksAngle at h
  split at h
  · obtain ⟨inside, hinside, hangle⟩ := (Option.any_eq_true _ _).mp h
    rw [List.cons_append, List.cons_append, linksAngle, upTo_append_of_some hinside w]
    exact hangle
  · cases h

theorem isMuddled_iff {s : List Char} :
    isMuddled s ↔ ∃ v, v <:+ s ∧ (opensTwice v ∨ linksAngle v) := by
  simp [isMuddled]

theorem isMuddled_mono {u s : List Char} (h : u <:+: s) (hu : isMuddled u) : isMuddled s := by
  obtain ⟨front, back, rfl⟩ := h
  obtain ⟨v, ⟨before, rfl⟩, hv⟩ := isMuddled_iff.mp hu
  refine isMuddled_iff.mpr ⟨v ++ back, ⟨front ++ before, by simp⟩, ?_⟩
  exact hv.imp (opensTwice_append · back) (linksAngle_append · back)

theorem isMuddled_anti {u s : List Char} (h : u <:+: s) (hs : isMuddled s = false) :
    isMuddled u = false := by
  by_contra hu
  rw [isMuddled_mono h (by simpa using hu)] at hs
  cases hs

end Text

open Text

/-- A word whose specification opens no bracket, and that has none before it. -/
def IsTidyWord (word : List Char) : Prop :=
  ∃ stems spec, word = stems ++ '<' :: (spec ++ ['>']) ∧ '<' ∉ spec ∧ IsAngleFree stems

theorem of_specLength? {s : List Char} {n : ℕ} (h : specLength? s = some n) :
    ∃ spec r, s = '<' :: (spec ++ '>' :: r) ∧ '>' ∉ spec ∧ n = spec.length + 2 := by
  unfold specLength? at h
  split at h
  · obtain ⟨spec, hspec, rfl⟩ := Option.map_eq_some_iff.mp h
    obtain ⟨_, v, rfl⟩ := of_upTo hspec
    exact ⟨spec, v, rfl, not_mem_of_upTo hspec, rfl⟩
  · cases h

/-- A specification that is cut off opens no bracket, unless the text opens one twice. -/
theorem not_mem_spec {front spec r : List Char} (hclose : '>' ∉ spec)
    (h : isMuddled (front ++ '<' :: (spec ++ '>' :: r)) = false) : '<' ∉ spec := by
  intro hopen
  obtain ⟨u, w, rfl, hu⟩ := List.eq_append_cons_of_mem hopen
  have hup : upTo ['<'] (· ≠ '>') (u ++ ('<' :: [] ++ (w ++ '>' :: r))) = some u := by
    apply upTo_eq_some hu
    intro c hc
    have hne : c ≠ '>' := fun heq => hclose (List.mem_append_left _ (heq ▸ hc))
    simpa using hne
  have htwice : opensTwice ('<' :: (u ++ '<' :: w ++ '>' :: r)) := by
    simp only [opensTwice, List.append_assoc, List.cons_append] at hup ⊢
    rw [List.nil_append] at hup
    rw [hup]
    rfl
  rw [isMuddled_iff.mpr ⟨_, List.suffix_append front _, .inl htwice⟩] at h
  cases h

theorem isTidyWord_take {stems v : List Char} {n : ℕ} (hstems : IsAngleFree stems)
    (hn : specLength? v = some n) (hv : isMuddled (stems ++ v) = false) :
    IsTidyWord ((stems ++ v).take (stems.length + n)) := by
  obtain ⟨spec, r, rfl, hclose, rfl⟩ := of_specLength? hn
  refine ⟨stems, spec, ?_, not_mem_spec hclose hv, hstems⟩
  have hsplit : stems ++ '<' :: (spec ++ '>' :: r) = (stems ++ '<' :: (spec ++ ['>'])) ++ r := by
    simp
  rw [hsplit]
  exact List.take_left' (by simp)

theorem isTidyWord_of_findWord {isSuffix : Bool} {v word : List Char} {n : ℕ}
    (h : findWord isSuffix v = some (word, n)) (hv : isMuddled v = false) : IsTidyWord word := by
  unfold findWord at h
  dsimp only at h
  split at h
  · cases h
  · obtain ⟨m, hm, hword⟩ := Option.map_eq_some_iff.mp h
    have hin : ∀ c ∈ v.takeWhile (inWord isSuffix), inWord isSuffix c := fun c hc =>
      List.mem_takeWhile_imp hc
    have hfree : IsAngleFree (v.takeWhile (inWord isSuffix)) :=
      ⟨fun hopen => by simpa [inWord] using hin _ hopen,
        fun hclose => by simpa [inWord] using hin _ hclose⟩
    obtain ⟨r, hr⟩ := List.takeWhile_prefix (inWord isSuffix) (l := v)
    generalize v.takeWhile (inWord isSuffix) = stems at hm hword hfree hr
    subst hr
    rw [List.drop_left] at hm
    rw [← (Prod.mk.inj hword).1]
    exact isTidyWord_take hfree hm hv

theorem isAngleFree_link {r inside : List Char}
    (hinside : upTo [']', ']', '<'] (fun c => c ≠ '[' && c ≠ ']') r = some inside)
    (hv : isMuddled ('[' :: '[' :: r) = false) : IsAngleFree inside := by
  by_contra hnot
  have hlinks : linksAngle ('[' :: '[' :: r) := by
    rw [linksAngle, hinside]
    simpa using hnot
  rw [isMuddled_iff.mpr ⟨_, List.suffix_rfl, .inr hlinks⟩] at hv
  cases hv

theorem isTidyWord_of_findLinkedWord {v word : List Char} {n : ℕ}
    (h : findLinkedWord v = some (word, n)) (hv : isMuddled v = false) : IsTidyWord word := by
  unfold findLinkedWord at h
  split at h
  · rename_i r
    obtain ⟨inside, hinside, h⟩ := Option.bind_eq_some_iff.mp h
    obtain ⟨m, hm, h⟩ := Option.bind_eq_some_iff.mp h
    have hangle := isAngleFree_link hinside hv
    have hfree : IsAngleFree ('[' :: '[' :: (inside ++ [']', ']'])) := by
      simpa [IsAngleFree] using hangle
    obtain ⟨_, tail, rfl⟩ := of_upTo hinside
    have hlink : inside ++ ([']', ']', '<'] ++ tail) = (inside ++ [']', ']']) ++ '<' :: tail := by
      simp
    rw [hlink] at h hm hv
    have hdrop : ((inside ++ [']', ']']) ++ '<' :: tail).drop (inside.length + 2) =
        '<' :: tail := List.drop_left' (by simp)
    rw [hdrop] at hm
    have htake := isTidyWord_take hfree hm hv
    have hlength : ('[' :: '[' :: (inside ++ [']', ']'])).length + m = inside.length + 4 + m := by
      simp
    rw [hlength] at htake
    rw [← (Prod.mk.inj (Option.some.inj h)).1]
    exact htake
  · cases h

theorem isTidyWord_of_mem_cutWords {s : List Char} (hs : isMuddled s = false) :
    ∀ pair ∈ (cutWords s).1, IsTidyWord pair.2 := by
  apply forall_cutWords
  · exact fun v word n hv hfind =>
      isTidyWord_of_findLinkedWord hfind (isMuddled_anti hv hs)
  · exact fun isSuffix v word n hv hfind =>
      isTidyWord_of_findWord hfind (isMuddled_anti hv hs)

theorem unlink_isAngleFree {s : String} (h : IsAngleFree s.toList) :
    IsAngleFree (Text.unlink s).toList :=
  h.sublist (unlink_sublist s)

theorem isAngleFree_of_readLiteral {s : List Char} {l : Literal} (h : readLiteral s = .ok l) :
    IsAngleFree l.text.toList ∧ IsAngleFree l.linkedText.toList := by
  unfold readLiteral at h
  split at h
  · cases h
  · rename_i hnot
    have hfree : IsAngleFree (String.ofList s).toList := by
      simpa [IsAngleFree, not_or] using hnot
    cases h
    exact ⟨unlink_isAngleFree hfree, hfree⟩

/-- A word keeps in its lemma what stands before its specification. -/
theorem Segment.angleFree_of_read {t : Tables} {text : String} {s : Segment}
    (h : Segment.read t text = .ok s) (htext : IsTidyWord text.toList) :
    IsAngleFree s.word.toList ∧ IsAngleFree s.linkedWord.toList := by
  obtain ⟨stems, spec, oblique, hsplit, hstems, hword⟩ := Segment.stems_of_read h
  obtain ⟨stems', spec', hwritten, hopen, hfree⟩ := htext
  rw [hwritten, splitSpec?_append hopen] at hsplit
  cases hsplit
  have hlinked : IsAngleFree s.linkedWord.toList :=
    hfree.sublist (infix_of_splitStems hstems).sublist
  exact ⟨hword ▸ unlink_isAngleFree hlinked, hlinked⟩

namespace PlainRun
variable {t : Tables} {text : List Char} {r : PlainRun}

/-- Plain text that is read holds no angle bracket. -/
theorem plainTexts_of_read (h : read t text = .ok r) :
    ∀ p ∈ r.pieces, ∀ s ∈ p.plainTexts, IsAngleFree s.toList := by
  intro p hp
  rcases mem_pieces_of_read h hp with ⟨pair, _, s, hread, rfl⟩ | ⟨l, hread, rfl⟩
  · obtain ⟨l, hl, hread⟩ := bind_eq_ok.mp hread
    obtain ⟨v, _, hread⟩ := bind_eq_ok.mp hread
    obtain ⟨htext, hlinked⟩ := isAngleFree_of_readLiteral hl
    rw [← Except.ok.inj hread]
    simpa [Piece.plainTexts] using And.intro htext hlinked
  · obtain ⟨htext, hlinked⟩ := isAngleFree_of_readLiteral hread
    simpa [Piece.plainTexts] using And.intro htext hlinked

/-- A lemma that is read holds no angle bracket, unless the run is muddled. -/
theorem lemmas_of_read (h : read t text = .ok r) (htext : isMuddled text = false) :
    ∀ p ∈ r.pieces, ∀ s ∈ p.lemmas, IsAngleFree s.toList := by
  intro p hp
  rcases mem_pieces_of_read h hp with ⟨pair, hpair, s, hread, rfl⟩ | ⟨l, _, rfl⟩
  · obtain ⟨_, _, hread⟩ := bind_eq_ok.mp hread
    obtain ⟨v, hv, hread⟩ := bind_eq_ok.mp hread
    have htidy := isTidyWord_of_mem_cutWords htext pair hpair
    obtain ⟨hword, hlinked⟩ := Segment.angleFree_of_read hv (by rwa [String.toList_ofList])
    rw [← Except.ok.inj hread]
    simpa [Piece.lemmas] using And.intro hword hlinked
  · simp [Piece.lemmas]

end PlainRun

/-- A run that is read holds no angle bracket in its plain text; and none in its lemmas either, if
its text opens no bracket twice and hides none in the link of a word. -/
theorem Run.isAngleFree_of_read {t : Tables} {text : String} {r : Run}
    (h : Run.read t text = .ok r) :
    (∀ p ∈ r.pieces, ∀ s ∈ p.plainTexts, IsAngleFree s.toList) ∧
      (isMuddled text.toList = false → ∀ p ∈ r.pieces, ∀ s ∈ p.lemmas, IsAngleFree s.toList) := by
  constructor
  · exact Run.forall_pieces_of_read h fun part q _ hq => PlainRun.plainTexts_of_read hq
  · intro htext
    refine Run.forall_pieces_of_read h fun part q hpart hq => PlainRun.lemmas_of_read hq ?_
    exact isMuddled_anti hpart htext

/-- Words with and without links, in an alternant and behind it. -/
theorem Run.isAngleFree_of_aqua_vitae :
    ∃ r, Run.read .latin "((rēs<5> pūblica<1&2+>,[[aqua]]<1>)) - [[vīta]] bona<1&2+>" = .ok r ∧
      isMuddled "((rēs<5> pūblica<1&2+>,[[aqua]]<1>)) - [[vīta]] bona<1&2+>".toList = false ∧
      (∀ p ∈ r.pieces, ∀ s ∈ p.plainTexts, IsAngleFree s.toList) ∧
      ∀ p ∈ r.pieces, ∀ s ∈ p.lemmas, IsAngleFree s.toList := by
  obtain ⟨r, hr, htext⟩ : ∃ r,
      Run.read .latin "((rēs<5> pūblica<1&2+>,[[aqua]]<1>)) - [[vīta]] bona<1&2+>" = .ok r ∧
      isMuddled "((rēs<5> pūblica<1&2+>,[[aqua]]<1>)) - [[vīta]] bona<1&2+>".toList = false :=
    ⟨_, rfl, by decide +kernel⟩
  obtain ⟨hplain, hlemmas⟩ := Run.isAngleFree_of_read hr
  exact ⟨r, hr, htext, hplain, hlemmas htext⟩

/-- A bracket that is opened twice stays in the lemma. -/
theorem Run.not_isAngleFree_of_nihil :
    ∃ r s, Run.read .latin "nihil<<0>" = .ok r ∧ .word s ∈ r.pieces ∧ s.word = "nihil<" ∧
      s.linkedWord = "nihil<" ∧ ¬ IsAngleFree s.word.toList := by
  obtain ⟨r, s, hr, hs, hword, hlinked⟩ : ∃ r s, Run.read .latin "nihil<<0>" = .ok r ∧
      r.pieces = [.word s] ∧ s.word = "nihil<" ∧ s.linkedWord = "nihil<" :=
    ⟨_, _, rfl, rfl, by decide +kernel, by decide +kernel⟩
  refine ⟨r, s, hr, ?_, hword, hlinked, ?_⟩
  · rw [hs]
    exact List.mem_singleton_self _
  · rw [hword]
    decide

end Declension
