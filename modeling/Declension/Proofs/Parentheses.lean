import Declension.Proofs.Links
import Declension.Proofs.RunParts
import Declension.Tables.Latin
import Mathlib.Data.List.Chain

/-!
# Double parentheses in runs

An alternant ends at the first double parenthesis behind its opening one, on the same line. A run
that opens one and closes none is an error, but whether each has its own is not checked: what is
left over is read as text. Main statement: `isSingle_of_read`, with `((puella<1>)) ((puer<2>` for
what happens to a text that is not balanced.
-/
namespace Declension
namespace Text

/-- Whether a text holds no double parenthesis. -/
def IsSingle (s : List Char) : Prop := ¬ ['(', '('] <:+: s ∧ ¬ [')', ')'] <:+: s

instance (s : List Char) : Decidable (IsSingle s) := inferInstanceAs (Decidable (_ ∧ _))

theorem IsSingle.of_isInfix {u s : List Char} (hs : IsSingle s) (h : u <:+: s) : IsSingle u :=
  ⟨fun hopen => hs.1 (hopen.trans h), fun hclose => hs.2 (hclose.trans h)⟩

/-- Whether two neighbours are not a double parenthesis. -/
def Apart (a b : Char) : Prop := a = b → b ∉ ['(', ')']

theorem isSingle_cons {c : Char} {s : List Char} :
    IsSingle (c :: s) ↔ (∀ d ∈ s.head?, Apart c d) ∧ IsSingle s := by
  unfold IsSingle Apart
  rw [List.infix_cons_iff, List.infix_cons_iff]
  cases s with
  | nil => simp
  | cons d s =>
    have hdoubled : ∀ a : Char, [a, a] <+: c :: d :: s ↔ a = c ∧ a = d := by
      simp [List.cons_prefix_cons]
    rw [hdoubled, hdoubled]
    simp only [List.head?_cons, Option.mem_some_iff, List.mem_cons, List.not_mem_nil, or_false]
    grind

theorem isSingle_iff {s : List Char} : IsSingle s ↔ s.IsChain Apart := by
  induction s with
  | nil => exact ⟨fun _ => .nil, fun _ => by decide⟩
  | cons c s ih => rw [isSingle_cons, List.isChain_cons, ih]

theorem isChain_of_isInfix {R : Char → Char → Prop} {u s : List Char} (h : u <:+: s)
    (hs : s.IsChain R) : u.IsChain R := by
  obtain ⟨front, back, rfl⟩ := h
  exact hs.left_of_append.right_of_append

/-- Whether every double parenthesis that opens is closed on its line, before another one opens, and
none is closed that is not open. The flag tells whether one is open. -/
def isBalanced : Bool → List Char → Bool
  | isOpen, [] => !isOpen
  | false, '(' :: '(' :: r => isBalanced true r
  | false, ')' :: ')' :: _ => false
  | true, ')' :: ')' :: r => isBalanced false r
  | true, '(' :: '(' :: _ => false
  | true, '\n' :: _ => false
  | isOpen, _ :: r => isBalanced isOpen r

theorem isBalanced_cons {isOpen : Bool} {c : Char} {s : List Char}
    (h : ∀ d ∈ s.head?, Apart c d) (hline : isOpen → c ≠ '\n') :
    isBalanced isOpen (c :: s) = isBalanced isOpen s := by
  rw [isBalanced.eq_7]
  · rintro r - rfl rfl
    exact h '(' rfl rfl (by decide)
  · rintro r - rfl rfl
    exact h ')' rfl rfl (by decide)
  · rintro r - rfl rfl
    exact h ')' rfl rfl (by decide)
  · rintro r - rfl rfl
    exact h '(' rfl rfl (by decide)
  · exact hline

/-- A text starts with a double parenthesis, or what follows its first character keeps apart. -/
theorem apart_or_doubled (c : Char) (s : List Char) : (∀ d ∈ s.head?, Apart c d) ∨
    ∃ r, s = c :: r ∧ (c = '(' ∨ c = ')') := by
  cases s with
  | nil => exact .inl (by simp)
  | cons d s =>
    by_cases hdoubled : c = d ∧ d ∈ ['(', ')']
    · obtain ⟨rfl, hc⟩ := hdoubled
      exact .inr ⟨s, rfl, by simpa using hc⟩
    · left
      rintro _ ⟨⟩ hsame
      exact fun hmem => hdoubled ⟨hsame, hmem⟩

theorem of_isBalanced_closed {c : Char} {s : List Char} (h : isBalanced false (c :: s)) :
    (∃ r, c :: s = '(' :: '(' :: r ∧ isBalanced true r) ∨
      (∀ d ∈ s.head?, Apart c d) ∧ isBalanced false s := by
  rcases apart_or_doubled c s with hapart | ⟨r, rfl, rfl | rfl⟩
  · rw [isBalanced_cons hapart (by simp)] at h
    exact .inr ⟨hapart, h⟩
  · exact .inl ⟨r, rfl, h⟩
  · cases h

/-- What a balanced text opens it closes, on one line and with nothing doubled before. -/
theorem exists_of_isBalanced_open {s : List Char} (h : isBalanced true s) : ∃ inside r,
    s = inside ++ ')' :: ')' :: r ∧ upTo [')', ')'] (· ≠ '\n') s = some inside ∧
      IsSingle inside ∧ isBalanced false r := by
  induction s with
  | nil => cases h
  | cons c s ih =>
    rcases apart_or_doubled c s with hapart | ⟨r, rfl, rfl | rfl⟩
    · have hline : c ≠ '\n' := by
        rintro rfl
        simp [isBalanced] at h
      rw [isBalanced_cons hapart fun _ => hline] at h
      obtain ⟨inside, r, rfl, hinside, hsingle, hr⟩ := ih h
      refine ⟨c :: inside, r, rfl, ?_, isSingle_cons.mpr ⟨?_, hsingle⟩, hr⟩
      · have hnot : ¬ [')', ')'] <+: c :: (inside ++ ')' :: ')' :: r) := by
          intro hprefix
          obtain ⟨rfl, v, hv⟩ := List.cons_prefix_cons.mp hprefix
          exact hapart ')' (by simp [← hv]) rfl (by decide)
        rw [ upTo_cons_of_not_prefix hnot, if_pos (by simpa using hline), hinside]
        rfl
      · intro d hd
        exact hapart d (by simp [List.head?_append, Option.mem_def.mp hd])
    · cases h
    · exact ⟨[], r, rfl, upTo_of_prefix (List.prefix_append _ r), by decide, h⟩

end Text

open Text

/-- An alternant as it is written. -/
def writtenAlternant (inside : List Char) : List Char := '(' :: '(' :: inside ++ [')', ')']

theorem alternantInside?_written (inside : List Char) :
    alternantInside? (writtenAlternant inside) = some inside := by
  have hline : line (writtenAlternant inside) = writtenAlternant inside := by
    have hlast : writtenAlternant inside = ('(' :: '(' :: inside ++ [')']) ++ [')'] := by
      simp [writtenAlternant]
    rw [line, if_neg]
    rw [hlast, List.getLast?_concat]
    decide
  have hclosed : [')', ')'].isSuffixOf (inside ++ [')', ')']) := by simp
  rw [alternantInside?, hline]
  simp [writtenAlternant, hclosed]

theorem findAlternant_eq_some {v found : List Char} {n : ℕ}
    (h : findAlternant v = some (found, n)) : ∃ inside r, v = writtenAlternant inside ++ r ∧
      upTo [')', ')'] (· ≠ '\n') (inside ++ ')' :: ')' :: r) = some inside ∧
      found = writtenAlternant inside ∧ n = (writtenAlternant inside).length := by
  unfold findAlternant at h
  split at h
  · obtain ⟨inside, hinside, hfound⟩ := Option.bind_eq_some_iff.mp h
    obtain ⟨_, r, rfl⟩ := of_upTo hinside
    cases hfound
    exact ⟨inside, r, by simp [writtenAlternant], hinside, rfl, by simp [writtenAlternant]⟩
  · cases h

theorem plainParts_alternant {inside r : List Char}
    (h : findAlternant (writtenAlternant inside ++ r) =
      some (writtenAlternant inside, (writtenAlternant inside).length)) :
    plainParts (writtenAlternant inside ++ r) = [] :: fieldsChars ',' inside ++ plainParts r := by
  have hne : writtenAlternant inside ≠ [] := by simp [writtenAlternant]
  simp [plainParts, cut_append_of_some hne h, alternantInside?_written]

/-- The plain parts of a balanced text hold no double parenthesis. -/
theorem isSingle_of_mem_plainParts {s : List Char} (h : isBalanced false s) :
    ∀ part ∈ plainParts s, IsSingle part := by
  induction s using substitute_induction findAlternant with
  | hfind s found n hfind =>
    obtain ⟨inside, r, hs, -, -, hn⟩ := findAlternant_eq_some hfind
    exact ⟨writtenAlternant inside, r, by simp [writtenAlternant], hs, hn⟩
  | nil => decide
  | char c r hnone ih =>
    have hcut := cut_cons_of_none hnone
    rcases of_isBalanced_closed h with ⟨r', hopen, hr'⟩ | ⟨hapart, hr⟩
    · obtain ⟨inside, _, -, hinside, -⟩ := exists_of_isBalanced_open hr'
      rw [hopen, findAlternant, hinside] at hnone
      cases hnone
    · obtain ⟨hfront, hrest⟩ := List.forall_mem_cons.mp (ih hr)
      rw [plainParts, hcut]
      refine List.forall_mem_cons.mpr ⟨isSingle_cons.mpr ⟨?_, hfront⟩, hrest⟩
      intro d hd
      have hprefix : (cut findAlternant r).1 <+: r := prefix_cut_fst r
      obtain ⟨v, hv⟩ := hprefix
      exact hapart d (by rw [← hv, List.head?_append, Option.mem_def.mp hd]; rfl)
  | hit w r found hw hfind ih =>
    obtain ⟨inside, v, hs, hinside, rfl, hn⟩ := findAlternant_eq_some hfind
    obtain ⟨rfl, rfl⟩ := List.append_inj hs hn
    have hopen : isBalanced true (inside ++ ')' :: ')' :: r) := by
      simpa [writtenAlternant, isBalanced] using h
    obtain ⟨inside', r', hr', hinside', hsingle, hclosed⟩ := exists_of_isBalanced_open hopen
    cases hinside.symm.trans hinside'
    cases List.append_cancel_left hr'
    rw [plainParts_alternant hfind]
    refine List.forall_mem_append.mpr ⟨List.forall_mem_cons.mpr ⟨by decide, ?_⟩, ih hclosed⟩
    exact fun part hpart => hsingle.of_isInfix (infix_of_mem_fieldsChars hpart)

namespace Text

/-- Whether no parenthesis stands right behind a bracket or a bar, from where it may come next to its
like when a link is taken off. -/
def IsLinkClear (s : List Char) : Prop :=
  s.IsChain fun a b => a ∈ ['[', ']', '|'] → b ∉ ['(', ')']

instance (s : List Char) : Decidable (IsLinkClear s) :=
  inferInstanceAs (Decidable (List.IsChain _ s))

/-- Whether two neighbours are no double parenthesis and become none. -/
def StaysApart (a b : Char) : Prop := Apart a b ∧ (a ∈ ['[', ']', '|'] → b ∉ ['(', ')'])

theorem staysApart_of_not_mem (a : Char) {b : Char} (h : b ∉ ['(', ')']) : StaysApart a b :=
  ⟨fun _ => h, fun _ => h⟩

theorem isChain_staysApart {s : List Char} (hsingle : IsSingle s) (hclear : IsLinkClear s) :
    s.IsChain StaysApart := by
  rw [isSingle_iff, List.isChain_iff_getElem] at hsingle
  rw [IsLinkClear, List.isChain_iff_getElem] at hclear
  exact List.isChain_iff_getElem.mpr fun i hi => ⟨hsingle i hi, hclear i hi⟩

/-- Taking links off keeps neighbours apart, if what is put for a link stays apart and starts with no
parenthesis: no other character comes next to a new one. -/
theorem isChain_substitute_linkBy (shown : List Char → Option (List Char))
    (hshown : ∀ inside found, shown inside = some found → (written inside).IsChain StaysApart →
      found.IsChain StaysApart ∧ ∀ c ∈ found.head?, c ∉ ['(', ')'])
    {s : List Char} (h : s.IsChain StaysApart) :
    (substitute (findLinkBy shown) s).IsChain StaysApart ∧
      ∀ c ∈ (substitute (findLinkBy shown) s).head?, s.head? = some c ∨ c ∉ ['(', ')'] := by
  induction s using linkBy_induction shown with
  | nil => exact ⟨.nil, by simp⟩
  | char c r hnone ih =>
    obtain ⟨hnext, hr⟩ := List.isChain_cons.mp h
    obtain ⟨hchain, hfirst⟩ := ih hr
    rw [substitute_cons_of_none hnone]
    refine ⟨List.isChain_cons.mpr ⟨?_, hchain⟩, fun d hd => .inl hd⟩
    intro d hd
    exact (hfirst d hd).elim (hnext d) (staysApart_of_not_mem c)
  | link inside found r hmem hfound ih =>
    obtain ⟨hlink, hr, hjoin⟩ := List.isChain_append.mp h
    obtain ⟨hchain, hfirst⟩ := ih hr
    obtain ⟨hfoundChain, hfoundFirst⟩ := hshown inside found hfound hlink
    have hlast : (written inside).getLast? = some ']' := by
      have hwritten : written inside = ('[' :: '[' :: inside ++ [']']) ++ [']'] := by
        simp [written]
      rw [hwritten, List.getLast?_concat]
    -- the closing brackets keep parentheses away from the text behind the link
    have hbehind : ∀ d ∈ (substitute (findLinkBy shown) r).head?, d ∉ ['(', ')'] := by
      intro d hd
      refine (hfirst d hd).elim (fun hhead => ?_) id
      exact (hjoin ']' hlast d hhead).2 (by decide)
    rw [substitute_written hmem hfound]
    refine ⟨List.isChain_append.mpr ⟨hfoundChain, hchain, fun c _ d hd =>
      staysApart_of_not_mem c (hbehind d hd)⟩, ?_⟩
    intro d hd
    rw [List.head?_append, Option.mem_def, Option.or_eq_some_iff] at hd
    exact .inr (hd.elim (hfoundFirst d) fun hd => hbehind d hd.2)

theorem pipedShown_staysApart {inside found : List Char} (h : pipedShown inside = some found)
    (hchain : (written inside).IsChain StaysApart) :
    found.IsChain StaysApart ∧ ∀ c ∈ found.head?, c ∉ ['(', ')'] := by
  obtain ⟨shown, hshown, rfl⟩ := pipedShown_eq_some.mp h
  obtain ⟨front, rfl⟩ := exists_of_afterBar? hshown
  have hbar : ('|' :: (shown ++ [']', ']'])).IsChain StaysApart := by
    refine isChain_of_isInfix ⟨'[' :: '[' :: front, [], ?_⟩ hchain
    simp [written]
  obtain ⟨hfirst, hrest⟩ := List.isChain_cons.mp hbar
  refine ⟨?_, by simp [written]⟩
  refine List.isChain_cons.mpr ⟨by simp [staysApart_of_not_mem], List.isChain_cons.mpr ⟨?_, hrest⟩⟩
  exact fun d hd => staysApart_of_not_mem _ ((hfirst d hd).2 (by decide))

theorem inside_staysApart {inside : List Char} (hchain : (written inside).IsChain StaysApart) :
    inside.IsChain StaysApart ∧ ∀ c ∈ inside.head?, c ∉ ['(', ')'] := by
  have hopen : ('[' :: inside).IsChain StaysApart :=
    isChain_of_isInfix ⟨['['], [']', ']'], by simp [written]⟩ hchain
  obtain ⟨hfirst, hrest⟩ := List.isChain_cons.mp hopen
  exact ⟨hrest, fun d hd => (hfirst d hd).2 (by decide)⟩

theorem isSingle_unlink {s : String} (hsingle : IsSingle s.toList) (hclear : IsLinkClear s.toList) :
    IsSingle (unlink s).toList := by
  have hpiped := (isChain_substitute_linkBy pipedShown (fun _ _ => pipedShown_staysApart)
    (isChain_staysApart hsingle hclear)).1
  have hlink := (isChain_substitute_linkBy some
    (fun inside found h => Option.some.inj h ▸ inside_staysApart) hpiped).1
  rw [unlink, unlinkChars, String.toList_ofList, isSingle_iff, findPiped_eq, findLink_eq]
  exact hlink.imp fun _ _ h => h.1

end Text

namespace Run
variable {t : Tables} {text : String} {r : Run}

/-- A text that opens double parentheses and closes none is not read. In what is read from a balanced
text no double parenthesis is left; nor does one come up in what is shown of it, if none may behind
a link. -/
theorem isSingle_of_read (h : Run.read t text = .ok r) :
    (['(', '('] <:+: text.toList → [')', ')'] <:+: text.toList) ∧
      (isBalanced false text.toList →
        (∀ p ∈ r.pieces, ∀ s ∈ p.writtenTexts, IsSingle s.toList) ∧
        ((∀ part ∈ plainParts text.toList, IsLinkClear part) →
          ∀ p ∈ r.pieces, ∀ s ∈ p.shownTexts, IsSingle s.toList)) := by
  refine ⟨?_, fun hbalanced => ?_⟩
  · intro hopen
    by_contra hclose
    have hrefused : (occurs ['(', '('] text.toList && !occurs [')', ')'] text.toList) = true := by
      rw [← occurs_iff] at hopen hclose
      simp [hopen, hclose]
    rw [Run.read] at h
    dsimp only at h
    rw [if_pos hrefused] at h
    cases h
  · have hparts := isSingle_of_mem_plainParts hbalanced
    constructor
    · refine forall_pieces_of_plainParts h fun part q hpart hq p hp s hs => ?_
      exact (hparts part hpart).of_isInfix (PlainRun.infix_of_read hq p hp s hs)
    · intro hclear
      refine forall_pieces_of_plainParts h fun part q hpart hq p hp s hs => ?_
      rw [(PlainRun.showsPlain_of_read hq p hp).shownTexts_eq] at hs
      obtain ⟨w, hw, rfl⟩ := List.mem_map.mp hs
      have hinfix := PlainRun.infix_of_read hq p hp w hw
      exact isSingle_unlink ((hparts part hpart).of_isInfix hinfix)
        (isChain_of_isInfix hinfix (hclear part hpart))

/-- An alternant of a plain and a linked word, and a word behind it. -/
theorem isSingle_of_puella_and_puer :
    ∃ r, Run.read .latin "((puella<1>,[[puer]]<2>)) bonus<1&2+>" = .ok r ∧
      ['(', '('] <:+: "((puella<1>,[[puer]]<2>)) bonus<1&2+>".toList ∧
      [')', ')'] <:+: "((puella<1>,[[puer]]<2>)) bonus<1&2+>".toList ∧
      isBalanced false "((puella<1>,[[puer]]<2>)) bonus<1&2+>".toList ∧
      (∀ part ∈ plainParts "((puella<1>,[[puer]]<2>)) bonus<1&2+>".toList, IsLinkClear part) ∧
      (∀ p ∈ r.pieces, ∀ s ∈ p.writtenTexts, IsSingle s.toList) ∧
      ∀ p ∈ r.pieces, ∀ s ∈ p.shownTexts, IsSingle s.toList := by
  obtain ⟨r, hr, hopen, hbalanced, hclear⟩ : ∃ r,
      Run.read .latin "((puella<1>,[[puer]]<2>)) bonus<1&2+>" = .ok r ∧
      ['(', '('] <:+: "((puella<1>,[[puer]]<2>)) bonus<1&2+>".toList ∧
      isBalanced false "((puella<1>,[[puer]]<2>)) bonus<1&2+>".toList ∧
      ∀ part ∈ plainParts "((puella<1>,[[puer]]<2>)) bonus<1&2+>".toList, IsLinkClear part :=
    ⟨_, rfl, by decide +kernel, by decide +kernel, by decide +kernel⟩
  obtain ⟨hclose, htexts⟩ := Run.isSingle_of_read hr
  obtain ⟨hwritten, hshown⟩ := htexts hbalanced
  exact ⟨r, hr, hopen, hclose hopen, hbalanced, hclear, hwritten, hshown hclear⟩

/-- Behind an alternant, double parentheses that are never closed stay in the lemma. -/
theorem not_isSingle_of_puer :
    ∃ r s, Run.read .latin "((puella<1>)) ((puer<2>" = .ok r ∧ .word s ∈ r.pieces ∧
      s.word = "((puer" ∧ s.linkedWord = "((puer" ∧ ¬ IsSingle s.word.toList := by
  obtain ⟨r, front, s, hr, hs, hword, hlinked⟩ : ∃ r front s,
      Run.read .latin "((puella<1>)) ((puer<2>" = .ok r ∧ r.pieces = [front, .word s] ∧
      s.word = "((puer" ∧ s.linkedWord = "((puer" :=
    ⟨_, _, _, rfl, rfl, by decide +kernel, by decide +kernel⟩
  refine ⟨r, s, hr, ?_, hword, hlinked, ?_⟩
  · rw [hs]
    exact List.mem_cons_of_mem _ (List.mem_singleton_self _)
  · rw [hword]
    decide

end Run
end Declension
