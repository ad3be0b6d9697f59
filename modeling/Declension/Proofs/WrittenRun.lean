import Declension.Proofs.Outcome
import Declension.Proofs.Scan
import Declension.Run.Reader
import Declension.Tables.Latin
import Mathlib.Data.List.TakeWhile

/-!
# Runs as they are written

A run is written as words with their specifications, each behind plain text, and plain text at the
end. Main statement: `read_written`, by which reading a written run gives back its words one by
one, with the text before each, and fails just as the first word that cannot be read.
-/
namespace Declension

/-- What may stand in plain text, in a link and in a specification. -/
def isPlainChar (c : Char) : Bool := c ∉ ['<', '>', '[', ']', '\n']

/-- What may stand in a stem of a word without link. -/
def isStemChar (c : Char) : Bool := isPlainChar c && c ∉ ['/', ' ', ',', '-']

/-- What sets a word apart from plain text before it. -/
def isSeparator (c : Char) : Bool := c ∈ [' ', ',', '-']

/-- A word with its specification as a run writes it. -/
inductive WrittenWord where
  | plain (stem : List Char) (oblique : Option (List Char)) (spec : List Char)
  | linked (inside spec : List Char)

namespace WrittenWord

def isLinked : WrittenWord → Bool
  | plain .. => false
  | linked .. => true

def stems : WrittenWord → List Char
  | plain stem none _ => stem
  | plain stem (some oblique) _ => stem ++ '/' :: oblique
  | linked inside _ => '[' :: '[' :: (inside ++ [']', ']'])

def spec : WrittenWord → List Char
  | plain _ _ spec => spec
  | linked _ spec => spec

def text (w : WrittenWord) : List Char := w.stems ++ '<' :: (w.spec ++ ['>'])

inductive IsWritten : WrittenWord → Prop
  | plain {stem spec : List Char} {oblique : Option (List Char)} : stem ≠ [] →
      (∀ c ∈ stem, isStemChar c) → (∀ o ∈ oblique, o ≠ [] ∧ ∀ c ∈ o, isStemChar c) →
      (∀ c ∈ spec, isPlainChar c) → IsWritten (.plain stem oblique spec)
  | linked {inside spec : List Char} : inside ≠ [] → (∀ c ∈ inside, isPlainChar c ∧ c ≠ '/') →
      (∀ c ∈ spec, isPlainChar c) → IsWritten (.linked inside spec)

end WrittenWord

/-- Plain text between words: it may hold links, but no bracket outside of them. -/
inductive IsPlainText : List Char → Prop
  | nil : IsPlainText []
  | char {c : Char} {r : List Char} : isPlainChar c → IsPlainText r → IsPlainText (c :: r)
  | link {inside r : List Char} : (∀ c ∈ inside, isPlainChar c) → IsPlainText r →
      IsPlainText ('[' :: '[' :: (inside ++ ']' :: ']' :: r))

/-- A word with the plain text before it. -/
structure WrittenPart where
  lead : List Char
  word : WrittenWord

namespace WrittenPart

def text (p : WrittenPart) : List Char := p.lead ++ p.word.text

structure IsWritten (p : WrittenPart) : Prop where
  lead : IsPlainText p.lead
  word : p.word.IsWritten
  apart : p.word.isLinked = false → ∀ c ∈ p.lead.getLast?, isSeparator c

end WrittenPart

/-- The text of a run: its words, and the plain text behind the last. -/
def writtenRun (parts : List WrittenPart) (last : List Char) : List Char :=
  parts.flatMap WrittenPart.text ++ last

theorem writtenRun_cons (p : WrittenPart) (parts : List WrittenPart) (last : List Char) :
    writtenRun (p :: parts) last = p.lead ++ (p.word.text ++ writtenRun parts last) := by
  simp [writtenRun, WrittenPart.text]

theorem isPlainChar_iff {c : Char} :
    isPlainChar c ↔ c ≠ '<' ∧ c ≠ '>' ∧ c ≠ '[' ∧ c ≠ ']' ∧ c ≠ '\n' := by
  simp [isPlainChar]

theorem isPlainChar_of_isStemChar {c : Char} (h : isStemChar c) : isPlainChar c := by
  rw [isStemChar, Bool.and_eq_true] at h
  exact h.1

theorem inWord_of_isStemChar {c : Char} (h : isStemChar c) : inWord false c := by
  have hplain := isPlainChar_iff.mp (isPlainChar_of_isStemChar h)
  have hrest : c ≠ '/' ∧ c ≠ ' ' ∧ c ≠ ',' ∧ c ≠ '-' := by
    simpa [isStemChar] using (Bool.and_eq_true_iff.mp h).2
  simp [inWord, hplain, hrest]

theorem inWord_of_isSeparator {c : Char} (h : isSeparator c) : inWord false c = false := by
  have hc : c = ' ' ∨ c = ',' ∨ c = '-' := by simpa [isSeparator] using h
  rcases hc with rfl | rfl | rfl <;> rfl

theorem IsPlainText.not_mem {s : List Char} (h : IsPlainText s) : '<' ∉ s ∧ '>' ∉ s := by
  have hplain : ∀ {c}, isPlainChar c → '<' ≠ c ∧ '>' ≠ c := fun hc =>
    ⟨(isPlainChar_iff.mp hc).1.symm, (isPlainChar_iff.mp hc).2.1.symm⟩
  induction h with
  | nil => simp
  | char hc _ ih => simp [hplain hc, ih]
  | link hinside _ ih =>
    have hin : '<' ∉ _ ∧ '>' ∉ _ :=
      ⟨fun hm => (hplain (hinside _ hm)).1 rfl, fun hm => (hplain (hinside _ hm)).2 rfl⟩
    simp [hin, ih]

theorem specLength?_append {spec : List Char} (h : ∀ c ∈ spec, isPlainChar c) (v : List Char) :
    specLength? ('<' :: (spec ++ ['>']) ++ v) = some (spec.length + 2) := by
  have hgt : '>' ∉ spec := fun hm => (isPlainChar_iff.mp (h _ hm)).2.1 rfl
  have hline : ∀ c ∈ spec, decide (c ≠ '\n') = true := fun c hc => by
    simpa using (isPlainChar_iff.mp (h c hc)).2.2.2.2
  have hup : Text.upTo ['>'] (· ≠ '\n') (spec ++ ('>' :: [] ++ v)) = some spec :=
    Text.upTo_eq_some hgt hline
  simp only [List.cons_append, List.append_assoc, List.nil_append, specLength?] at hup ⊢
  rw [hup]
  rfl

theorem findWord_eq_none {x : List Char} (h : (x.dropWhile (inWord false)).head? ≠ some '<') :
    findWord false x = none := by
  have hsplit : x.takeWhile (inWord false) ++ x.dropWhile (inWord false) = x :=
    List.takeWhile_append_dropWhile
  have hdrop : x.drop (x.takeWhile (inWord false)).length = x.dropWhile (inWord false) :=
    (congrArg (List.drop _) hsplit.symm).trans List.drop_left
  have hspec : specLength? (x.dropWhile (inWord false)) = none := by
    unfold specLength?
    split
    · rename_i r heq
      rw [heq] at h
      exact absurd rfl h
    · rfl
  unfold findWord
  dsimp only
  split
  · rfl
  · rw [hdrop, hspec]
    rfl

theorem findWord_of_not_mem {x : List Char} (h : '<' ∉ x) : findWord false x = none := by
  apply findWord_eq_none
  intro hhead
  have hmem : '<' ∈ x.dropWhile (inWord false) := List.mem_of_head? hhead
  exact h ((List.dropWhile_suffix _).subset hmem)

/-- Text that ends in a separator does not join the word behind it. -/
theorem findWord_append_of_separator {x v : List Char} (h : '<' ∉ x) {c : Char}
    (hlast : x.getLast? = some c) (hc : isSeparator c) : findWord false (x ++ v) = none := by
  have hmem : c ∈ x := List.mem_of_getLast? hlast
  have hne : x.dropWhile (inWord false) ≠ [] := by
    rw [ne_eq, List.dropWhile_eq_nil_iff]
    intro hall
    have hin := hall c hmem
    rw [inWord_of_isSeparator hc] at hin
    cases hin
  apply findWord_eq_none
  rw [List.dropWhile_append, if_neg (by simpa using hne), List.head?_append_of_ne_nil _ hne]
  intro hhead
  exact h ((List.dropWhile_suffix _).subset (List.mem_of_head? hhead))

namespace WrittenWord.IsWritten
variable {w : WrittenWord}

theorem isPlainChar_spec (h : w.IsWritten) : ∀ c ∈ w.spec, isPlainChar c := by
  cases h with
  | plain _ _ _ hspec => exact hspec
  | linked _ _ hspec => exact hspec

theorem isStemChar_stems (h : w.IsWritten) (hw : w.isLinked = false) :
    ∀ c ∈ w.stems, isStemChar c ∨ c = '/' := by
  cases h with
  | @plain stem spec oblique _ hstem hoblique _ =>
    cases oblique with
    | none => exact fun c hc => .inl (hstem c hc)
    | some o =>
      intro c hc
      rcases List.mem_append.mp hc with hc | hc
      · exact .inl (hstem c hc)
      · rcases List.mem_cons.mp hc with rfl | hc
        · exact .inr rfl
        · exact .inl ((hoblique o rfl).2 c hc)
  | linked => cases hw

theorem stems_ne_nil (h : w.IsWritten) : w.stems ≠ [] := by
  cases h with
  | @plain stem spec oblique hne _ _ _ => cases oblique <;> simp [stems, hne]
  | linked => simp [stems]

theorem text_ne_nil (h : w.IsWritten) : w.text ≠ [] := by
  simp [text, h.stems_ne_nil]

theorem head?_text_ne (h : w.IsWritten) (v : List Char) : (w.text ++ v).head? ≠ some '<' := by
  have hhead : (w.text ++ v).head? = w.stems.head? := by
    rw [text, List.append_assoc, List.head?_append_of_ne_nil _ h.stems_ne_nil]
  rw [hhead]
  intro hlt
  have hmem : '<' ∈ w.stems := List.mem_of_head? hlt
  cases hw : w.isLinked with
  | false =>
    rcases h.isStemChar_stems hw _ hmem with hc | hc
    · exact (isPlainChar_iff.mp (isPlainChar_of_isStemChar hc)).1 rfl
    · cases hc
  | true =>
    cases w with
    | plain => cases hw
    | linked inside spec => cases hlt

theorem length_text (w : WrittenWord) : w.text.length = w.stems.length + (w.spec.length + 2) := by
  simp [text]

/-- A word without link is found where it starts. -/
theorem findWord_text (h : w.IsWritten) (hw : w.isLinked = false) (v : List Char) :
    findWord false (w.text ++ v) = some (w.text, w.text.length) := by
  have hin : ∀ c ∈ w.stems, inWord false c = true := by
    intro c hc
    rcases h.isStemChar_stems hw c hc with hc | rfl
    · exact inWord_of_isStemChar hc
    · rfl
  have htext : w.text ++ v = w.stems ++ ('<' :: (w.spec ++ ['>']) ++ v) := by
    simp [text]
  have hword : (w.text ++ v).takeWhile (inWord false) = w.stems := by
    rw [htext, List.takeWhile_append_of_pos hin]
    simp [inWord]
  have hempty : w.stems.isEmpty = false := by
    simp [h.stems_ne_nil]
  have hdrop : (w.text ++ v).drop w.stems.length = '<' :: (w.spec ++ ['>']) ++ v := by
    rw [htext]
    exact List.drop_left
  have htake : (w.text ++ v).take w.text.length = w.text := List.take_left
  unfold findWord
  dsimp only
  rw [hword, hempty, hdrop, specLength?_append h.isPlainChar_spec v]
  simp only [Bool.false_eq_true, if_false, Option.map_some, ← length_text, htake]

end WrittenWord.IsWritten

theorem findLinkedWord_of_ne {c : Char} (h : c ≠ '[') (r : List Char) :
    findLinkedWord (c :: r) = none := by
  unfold findLinkedWord
  split
  · rename_i heq
    exact absurd (List.cons.inj heq).1 h
  · rfl

theorem findLinkedWord_of_head? {r : List Char} (h : r.head? ≠ some '[') :
    findLinkedWord ('[' :: r) = none := by
  unfold findLinkedWord
  split
  · rename_i heq
    rw [(List.cons.inj heq).2] at h
    exact absurd rfl h
  · rfl

theorem isInside_of_isPlainChar {inside : List Char} (h : ∀ c ∈ inside, isPlainChar c) :
    ']' ∉ inside ∧ ∀ c ∈ inside, (c ≠ '[' && c ≠ ']') = true :=
  ⟨fun hm => (isPlainChar_iff.mp (h _ hm)).2.2.2.1 rfl, fun c hc => by
    simp [isPlainChar_iff.mp (h c hc)]⟩

/-- A link without specification is no word. -/
theorem findLinkedWord_link {inside r : List Char} (h : ∀ c ∈ inside, isPlainChar c)
    (hr : r.head? ≠ some '<') :
    findLinkedWord ('[' :: '[' :: (inside ++ ']' :: ']' :: r)) = none := by
  obtain ⟨hd, hu⟩ := isInside_of_isPlainChar h
  have hnot : ¬ [']', ']', '<'] <+: ']' :: ']' :: r := by
    cases r with
    | nil => simp
    | cons c r =>
      intro hpre
      simp only [List.cons_prefix_cons, true_and] at hpre
      exact hr (by rw [← hpre.1]; rfl)
  have hup : Text.upTo [']', ']', '<'] (fun c => c ≠ '[' && c ≠ ']')
      (inside ++ ']' :: ']' :: r) = none := by
    rw [Text.upTo_append hd hu, Text.upTo_cons_of_not_prefix hnot]
    rfl
  simp only [findLinkedWord, hup]
  rfl

/-- A linked word is found where it starts. -/
theorem WrittenWord.IsWritten.findLinkedWord_text {w : WrittenWord} (h : w.IsWritten)
    (hw : w.isLinked) (v : List Char) :
    findLinkedWord (w.text ++ v) = some (w.text, w.text.length) := by
  cases h with
  | plain => cases hw
  | @linked inside spec hne hchars hspec =>
    obtain ⟨hd, hu⟩ := isInside_of_isPlainChar fun c hc => (hchars c hc).1
    have htext : (WrittenWord.linked inside spec).text ++ v =
        '[' :: '[' :: (inside ++ (']' :: [']', '<'] ++ (spec ++ '>' :: v))) := by
      simp [WrittenWord.text, WrittenWord.stems, WrittenWord.spec]
    have hup : Text.upTo [']', ']', '<'] (fun c => c ≠ '[' && c ≠ ']')
        (inside ++ (']' :: [']', '<'] ++ (spec ++ '>' :: v))) = some inside :=
      Text.upTo_eq_some hd hu
    have hdrop : (inside ++ (']' :: [']', '<'] ++ (spec ++ '>' :: v))).drop (inside.length + 2) =
        '<' :: (spec ++ ['>']) ++ v := by
      simp [List.drop_append]
    have hlength : inside.length + 4 + (spec.length + 2) =
        (WrittenWord.linked inside spec).text.length := by
      rw [WrittenWord.IsWritten.length_text]
      simp [WrittenWord.stems, WrittenWord.spec]
    have htake : ((WrittenWord.linked inside spec).text ++ v).take
        (WrittenWord.linked inside spec).text.length = (WrittenWord.linked inside spec).text :=
      List.take_left
    rw [htext] at htake ⊢
    simp only [findLinkedWord, hup, Option.bind_eq_bind, Option.bind_some, hdrop,
      specLength?_append hspec v, hlength, htake]

theorem IsPlainText.head?_append_ne {u v : List Char} (h : IsPlainText u)
    (hv : v.head? ≠ some '<') : (u ++ v).head? ≠ some '<' := by
  cases h with
  | nil => exact hv
  | char hc _ => simp [(isPlainChar_iff.mp hc).1]
  | link => simp

/-- Plain text holds no linked word, whatever but a specification follows it. -/
theorem IsPlainText.cut_findLinkedWord {u v : List Char} (h : IsPlainText u)
    (hv : v.head? ≠ some '<') :
    Text.cut findLinkedWord (u ++ v) =
      (u ++ (Text.cut findLinkedWord v).1, (Text.cut findLinkedWord v).2) := by
  induction h with
  | nil => rfl
  | @char c r hc hr ih =>
    have hne : c ≠ '[' := (isPlainChar_iff.mp hc).2.2.1
    have hcut : Text.cut findLinkedWord ([c] ++ (r ++ v)) =
        ([c] ++ (Text.cut findLinkedWord (r ++ v)).1, (Text.cut findLinkedWord (r ++ v)).2) := by
      apply Text.cut_append_of_head
      intro d hd
      rw [List.mem_singleton.mp hd]
      exact findLinkedWord_of_ne hne
    rw [ih] at hcut
    simpa using hcut
  | @link inside r hinside hr ih =>
    have hfirst : findLinkedWord ('[' :: '[' :: (inside ++ ']' :: ']' :: (r ++ v))) = none :=
      findLinkedWord_link hinside (hr.head?_append_ne hv)
    have hsecond : findLinkedWord ('[' :: (inside ++ ']' :: ']' :: (r ++ v))) = none := by
      apply findLinkedWord_of_head?
      cases inside with
      | nil => simp
      | cons c inside => simp [(isPlainChar_iff.mp (hinside c List.mem_cons_self)).2.2.1]
    have hcut : Text.cut findLinkedWord ((inside ++ [']', ']']) ++ (r ++ v)) =
        ((inside ++ [']', ']']) ++ (Text.cut findLinkedWord (r ++ v)).1,
          (Text.cut findLinkedWord (r ++ v)).2) := by
      apply Text.cut_append_of_head
      intro c hc
      apply findLinkedWord_of_ne
      rcases List.mem_append.mp hc with hc | hc
      · exact (isPlainChar_iff.mp (hinside c hc)).2.2.1
      · have hclose : c = ']' := by simpa using hc
        simp [hclose]
    simp only [List.append_assoc, List.cons_append, List.nil_append] at hcut hfirst hsecond ⊢
    rw [Text.cut_cons_of_none hfirst, Text.cut_cons_of_none hsecond, hcut, ih]

/-- The text of a run up to its first linked word, and each linked word with the text behind it. -/
def betweenLinked (last : List Char) :
    List WrittenPart → List Char × List (List Char × List Char)
  | [] => (last, [])
  | p :: parts =>
    let (front, linked) := betweenLinked last parts
    if p.word.isLinked then (p.lead, (p.word.text, front) :: linked)
    else (p.lead ++ (p.word.text ++ front), linked)

theorem WrittenWord.IsWritten.cut_findLinkedWord {w : WrittenWord} (h : w.IsWritten)
    (hw : w.isLinked = false) (v : List Char) :
    Text.cut findLinkedWord (w.text ++ v) =
      (w.text ++ (Text.cut findLinkedWord v).1, (Text.cut findLinkedWord v).2) := by
  have hstems := h.isStemChar_stems hw
  have hspec := h.isPlainChar_spec
  apply Text.cut_append_of_head
  intro c hc
  apply findLinkedWord_of_ne
  simp only [WrittenWord.text, List.mem_append, List.mem_cons, List.not_mem_nil, or_false] at hc
  rcases hc with hc | rfl | hc | rfl
  · rcases hstems c hc with hc | rfl
    · exact (isPlainChar_iff.mp (isPlainChar_of_isStemChar hc)).2.2.1
    · decide
  · decide
  · exact (isPlainChar_iff.mp (hspec c hc)).2.2.1
  · decide

/-- The first cut of a run is at its linked words. -/
theorem cut_writtenRun {parts : List WrittenPart} {last : List Char}
    (hparts : ∀ p ∈ parts, p.IsWritten) (hlast : IsPlainText last) :
    Text.cut findLinkedWord (writtenRun parts last) = betweenLinked last parts := by
  induction parts with
  | nil =>
    have hcut := hlast.cut_findLinkedWord (v := []) (by simp)
    simpa [writtenRun, betweenLinked, Text.cut, Text.scan, Text.pieces] using hcut
  | cons p parts ih =>
    obtain ⟨hp, hrest⟩ := List.forall_mem_cons.mp hparts
    rw [writtenRun_cons, hp.lead.cut_findLinkedWord (hp.word.head?_text_ne _)]
    cases hw : p.word.isLinked with
    | false =>
      rw [hp.word.cut_findLinkedWord hw, ih hrest]
      simp [betweenLinked, hw]
    | true =>
      rw [Text.cut_append_of_some hp.word.text_ne_nil (hp.word.findLinkedWord_text hw _), ih hrest]
      simp [betweenLinked, hw]

open cutWords in
theorem IsPlainText.chunk {u : List Char} (h : IsPlainText u) : chunk false u = ([], u) := by
  have hcut : Text.cut (findWord false) u = (u, []) := by
    apply Text.cut_of_none
    intro x _ hu
    exact findWord_of_not_mem fun hm => h.not_mem.1 (hu.subset hm)
  simp [cutWords.chunk, hcut, pairUp]

open cutWords in
/-- The second cut of a run is at its other words. -/
theorem WrittenPart.IsWritten.chunk {p : WrittenPart} (h : p.IsWritten)
    (hw : p.word.isLinked = false) (v : List Char) :
    chunk false (p.lead ++ (p.word.text ++ v)) =
      ((p.lead, p.word.text) :: (chunk false v).1, (chunk false v).2) := by
  have hlead : Text.cut (findWord false) (p.lead ++ (p.word.text ++ v)) =
      (p.lead ++ (Text.cut (findWord false) (p.word.text ++ v)).1,
        (Text.cut (findWord false) (p.word.text ++ v)).2) := by
    apply Text.cut_append_of_none
    intro x hx hu
    obtain ⟨y, hy⟩ := hu
    obtain ⟨c, hc⟩ := Option.ne_none_iff_exists'.mp (mt List.getLast?_eq_none_iff.mp hx)
    have hlast : p.lead.getLast? = some c := by
      rw [← hy, List.getLast?_append, hc]
      rfl
    have hnot : '<' ∉ x := fun hm => h.lead.not_mem.1 (hy ▸ List.mem_append_right y hm)
    exact findWord_append_of_separator hnot hc (h.apart hw c hlast)
  have hword := Text.cut_append_of_some h.word.text_ne_nil (h.word.findWord_text hw v)
  simp [cutWords.chunk, hlead, hword, pairUp]

open cutWords in
/-- Strings the words between linked words together; text that is left open goes with the next
linked word. -/
def chainLinked (done : List (List Char × List Char) × List Char)
    (linked : List (List Char × List Char)) : List (List Char × List Char) × List Char :=
  linked.foldl (fun (done, lead) (word, between) =>
    let (words, after) := chunk false between
    (done ++ (lead, word) :: words, after)) done

theorem chainLinked_append (first : List (List Char × List Char))
    (done : List (List Char × List Char) × List Char) (linked : List (List Char × List Char)) :
    chainLinked (first ++ done.1, done.2) linked =
      (first ++ (chainLinked done linked).1, (chainLinked done linked).2) := by
  unfold chainLinked
  induction linked generalizing done with
  | nil => rfl
  | cons entry linked ih =>
    rw [List.foldl_cons, List.foldl_cons, ← ih]
    simp

/-- Cutting a written run gives its words back, each with the text before it. -/
theorem cutWords_writtenRun {parts : List WrittenPart} {last : List Char}
    (hparts : ∀ p ∈ parts, p.IsWritten) (hlast : IsPlainText last)
    (hstart : (writtenRun parts last).head? ≠ some '-') :
    cutWords (writtenRun parts last) = (parts.map fun p => (p.lead, p.word.text), last) := by
  have hsuffix : decide ((writtenRun parts last).head? = some '-') = false := by
    simpa using hstart
  have hchain : cutWords (writtenRun parts last) =
      chainLinked (cutWords.chunk false (betweenLinked last parts).1)
        (betweenLinked last parts).2 := by
    unfold cutWords
    simp only [hsuffix, cut_writtenRun hparts hlast]
    rfl
  rw [hchain]
  clear hchain hsuffix hstart
  induction parts with
  | nil => simp [betweenLinked, hlast.chunk, chainLinked]
  | cons p parts ih =>
    obtain ⟨hp, hrest⟩ := List.forall_mem_cons.mp hparts
    have hrun := ih hrest
    have happend := chainLinked_append [(p.lead, p.word.text)]
      (cutWords.chunk false (betweenLinked last parts).1) (betweenLinked last parts).2
    rw [hrun] at happend
    cases hw : p.word.isLinked with
    | false =>
      simp only [betweenLinked, hw, Bool.false_eq_true, if_false, hp.chunk hw]
      exact happend
    | true =>
      simp only [betweenLinked, hw, if_true, hp.lead.chunk]
      exact happend

theorem readLiteral_of_isPlainText {s : List Char} (h : IsPlainText s) :
    readLiteral s = .ok ⟨Text.unlink (String.ofList s), String.ofList s⟩ := by
  have hnot : ¬ ('<' ∈ s ∨ '>' ∈ s) := by
    rw [not_or]
    exact h.not_mem
  rw [readLiteral, if_neg hnot]

/-- A word as it is read on its own. -/
def WrittenPart.readAlone (t : Tables) (p : WrittenPart) : Except Fault Segment :=
  Segment.read t (String.ofList p.word.text)

/-- A word with the text before it, as shown and with its links. -/
def WrittenPart.place (p : WrittenPart) (s : Segment) : Segment :=
  { s with lead := Text.unlink (String.ofList p.lead), linkedLead := String.ofList p.lead }

theorem readWord_of_isWritten {t : Tables} {p : WrittenPart} (h : p.IsWritten) :
    readWord t p.lead p.word.text = p.place <$> p.readAlone t := by
  rw [readWord, readLiteral_of_isPlainText h.lead]
  rfl

namespace PlainRun
variable {t : Tables} {parts : List WrittenPart} {last : List Char}

/-- The run that words and the text behind the last make up. -/
def ofWords (last : List Char) (segments : List Segment) : PlainRun where
  pieces := segments.map .word ++
    if last = [] then []
    else [.literal ⟨Text.unlink (String.ofList last), String.ofList last⟩]
  summary := { segments.foldl Summary.addSegment {} with
    propses := if segments = [] then [] else [segments.map Segment.prop] }
  kind := by
    intro h
    split
    · simpa using isNoun_of_mem_words h
    · exact isNoun_of_mem_words_append _ h

theorem read_writtenRun (hparts : ∀ p ∈ parts, p.IsWritten) (hlast : IsPlainText last)
    (hstart : (writtenRun parts last).head? ≠ some '-') :
    read t (writtenRun parts last) =
      ofWords last <$> parts.mapM fun p => p.place <$> p.readAlone t := by
  have hwords : (parts.map fun p => (p.lead, p.word.text)).mapM
      (fun (lead, word) => readWord t lead word) =
        parts.mapM fun p => p.place <$> p.readAlone t := by
    rw [List.mapM_map]
    apply mapM_congr
    intro p hp
    exact readWord_of_isWritten (hparts p hp)
  rw [read, cutWords_writtenRun hparts hlast hstart]
  dsimp only
  rw [hwords]
  cases parts.mapM fun p => p.place <$> p.readAlone t with
  | error f => rfl
  | ok segments =>
    by_cases hempty : last = []
    · simp [hempty, ofWords, Summary.ofSegments, bind, Except.bind, pure, Except.pure, Functor.map,
        Except.map]
    · simp [hempty, readLiteral_of_isPlainText hlast, ofWords, Summary.ofSegments, bind, Except.bind,
        pure, Except.pure, Functor.map, Except.map]

/-- A written run is read as its words one by one, each read on its own and put behind the text
before it, and the plain text at the end, if there is any. It cannot be read just if some word
cannot, and the first such word tells why. -/
theorem read_written (hparts : ∀ p ∈ parts, p.IsWritten) (hlast : IsPlainText last)
    (hstart : (writtenRun parts last).head? ≠ some '-') :
    (∀ r, read t (writtenRun parts last) = .ok r ↔ ∃ words,
      List.Forall₂ (fun p s => ∃ alone, p.readAlone t = .ok alone ∧ s = p.place alone)
        parts words ∧ r = ofWords last words) ∧
    ∀ f, read t (writtenRun parts last) = .error f ↔ ∃ before p after,
      parts = before ++ p :: after ∧ (∀ q ∈ before, ∃ s, q.readAlone t = .ok s) ∧
        p.readAlone t = .error f := by
  have hread := read_writtenRun (t := t) hparts hlast hstart
  have hplace : ∀ (p : WrittenPart) (s : Segment), p.place <$> p.readAlone t = .ok s ↔
      ∃ alone, p.readAlone t = .ok alone ∧ s = p.place alone := by
    intro p s
    rw [map_eq_ok]
    exact exists_congr fun alone => and_congr_right fun _ => eq_comm
  constructor
  · intro r
    rw [hread, map_eq_ok]
    simp only [mapM_eq_ok, hplace]
    exact exists_congr fun words => and_congr_right fun _ => eq_comm
  · intro f
    have hgood : ∀ q : WrittenPart, (∃ s, q.place <$> q.readAlone t = .ok s) ↔
        ∃ s, q.readAlone t = .ok s := by
      intro q
      cases q.readAlone t <;> simp [Functor.map, Except.map]
    rw [hread, map_eq_error, mapM_eq_error]
    simp only [hgood, map_eq_error]

/-- Blanks and a comma in a link, a hyphen and a link in the text between words, and a second
stem. -/
theorem read_written_of_aqua_vitae :
    ∃ parts last, writtenRun parts last =
        "rēs<5>-[[et|e]] [[aqua, vītae]]<1.-F.sg>puer/puer<2.er> [[in]]".toList ∧
      (∀ p ∈ parts, p.IsWritten) ∧ IsPlainText last ∧
      (writtenRun parts last).head? ≠ some '-' ∧
      (∀ r, read .latin (writtenRun parts last) = .ok r ↔ ∃ words,
        List.Forall₂ (fun p s => ∃ alone, p.readAlone .latin = .ok alone ∧ s = p.place alone)
          parts words ∧ r = ofWords last words) ∧
      ∀ f, read .latin (writtenRun parts last) = .error f ↔ ∃ before p after,
        parts = before ++ p :: after ∧ (∀ q ∈ before, ∃ s, q.readAlone .latin = .ok s) ∧
          p.readAlone .latin = .error f := by
  have hrēs : WrittenPart.IsWritten ⟨[], .plain ['r', 'ē', 's'] none ['5']⟩ :=
    ⟨.nil, .plain (by decide) (List.all_eq_true.mp (by decide)) (by simp)
      (List.all_eq_true.mp (by decide)), fun _ => by simp⟩
  have haqua : WrittenPart.IsWritten
      ⟨"-[[et|e]] ".toList, .linked "aqua, vītae".toList "1.-F.sg".toList⟩ := by
    have hlink : ∀ c ∈ "et|e".toList, isPlainChar c := List.all_eq_true.mp (by decide)
    have hlead : IsPlainText "-[[et|e]] ".toList :=
      .char (by decide) (.link hlink (.char (by decide) .nil))
    have hinside : ∀ c ∈ "aqua, vītae".toList, (isPlainChar c && decide (c ≠ '/')) = true :=
      List.all_eq_true.mp (by decide)
    refine ⟨hlead, .linked (by decide) (fun c hc => ?_) (List.all_eq_true.mp (by decide)), nofun⟩
    simpa using hinside c hc
  have hpuer : WrittenPart.IsWritten
      ⟨[], .plain "puer".toList (some "puer".toList) "2.er".toList⟩ := by
    have hstem : ∀ c ∈ "puer".toList, isStemChar c := List.all_eq_true.mp (by decide)
    refine ⟨.nil, .plain (by decide) hstem ?_ (List.all_eq_true.mp (by decide)), fun _ => by simp⟩
    rintro o ⟨⟩
    exact ⟨by decide, hstem⟩
  have hlast : IsPlainText " [[in]]".toList := by
    have hlink : ∀ c ∈ "in".toList, isPlainChar c := List.all_eq_true.mp (by decide)
    exact .char (by decide) (.link hlink .nil)
  have hparts : ∀ p ∈ [WrittenPart.mk [] (.plain ['r', 'ē', 's'] none ['5']),
      ⟨"-[[et|e]] ".toList, .linked "aqua, vītae".toList "1.-F.sg".toList⟩,
      ⟨[], .plain "puer".toList (some "puer".toList) "2.er".toList⟩], p.IsWritten := by
    exact List.forall_mem_cons.mpr ⟨hrēs, List.forall_mem_cons.mpr ⟨haqua,
      List.forall_mem_cons.mpr ⟨hpuer, by simp⟩⟩⟩
  exact ⟨_, _, by decide, hparts, hlast, by decide, read_written hparts hlast (by decide)⟩

end PlainRun
end Declension
