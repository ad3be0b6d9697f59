import Declension.Proofs.Scan
import Declension.Text.Links
import Mathlib.Data.List.Infix

/-!
# Taking links off a text

A text closes its links if nothing behind it can complete a link that starts in it. Links are taken
off a text that is put together from such parts as they are taken off the parts, and what has no
opening bracket stays as it is. A text that loses a link gets shorter by its four brackets at least.
-/
namespace Declension.Text

section Substitute
variable {find : List Char → Option (List Char × ℕ)}

@[simp] theorem substitute_nil : substitute find [] = [] := rfl

theorem substitute_cons_of_none {c : Char} {v : List Char} (h : find (c :: v) = none) :
    substitute find (c :: v) = c :: substitute find v := by
  simp [substitute, scan, h]

theorem substitute_append_of_some {w v found : List Char} (hw : w ≠ [])
    (h : find (w ++ v) = some (found, w.length)) :
    substitute find (w ++ v) = found ++ substitute find v := by
  cases w with
  | nil => exact absurd rfl hw
  | cons c w =>
    rw [List.cons_append, List.length_cons] at h
    simp only [substitute, List.cons_append, scan, h, Nat.add_sub_cancel, scan_append_left,
      List.flatMap_cons]

/-- A text is read from the left: a stretch that is found is one step, and so is a character where
nothing is found. -/
theorem substitute_induction (find : List Char → Option (List Char × ℕ)) {P : List Char → Prop}
    (hfind : ∀ s found n, find s = some (found, n) → ∃ w r, w ≠ [] ∧ s = w ++ r ∧ n = w.length)
    (nil : P []) (char : ∀ c r, find (c :: r) = none → P r → P (c :: r))
    (hit : ∀ w r found, w ≠ [] → find (w ++ r) = some (found, w.length) → P r → P (w ++ r))
    (s : List Char) : P s := by
  generalize hn : s.length = n
  induction n using Nat.strongRecOn generalizing s with
  | ind n ih =>
    subst hn
    cases s with
    | nil => exact nil
    | cons c s =>
      cases hs : find (c :: s) with
      | none => exact char c s hs (ih s.length (by simp) s rfl)
      | some x =>
        obtain ⟨found, n⟩ := x
        obtain ⟨w, r, hw, hsplit, rfl⟩ := hfind _ _ _ hs
        have hpos := List.length_pos_of_ne_nil hw
        rw [hsplit] at hs ih ⊢
        exact hit w r found hw hs (ih r.length (by rw [List.length_append]; omega) r rfl)

theorem substitute_of_none {s : List Char} (h : ∀ v, v ≠ [] → v <:+ s → find v = none) :
    substitute find s = s := by
  induction s with
  | nil => rfl
  | cons c s ih =>
    rw [substitute_cons_of_none (h _ (by simp) (List.suffix_refl _))]
    rw [ih fun v hv hs => h v hv (hs.trans (List.suffix_cons c s))]

end Substitute

theorem upTo_closing_eq_some {s inside : List Char} :
    upTo [']', ']'] (· ≠ ']') s = some inside ↔
      ']' ∉ inside ∧ ∃ r, s = inside ++ ']' :: ']' :: r := by
  constructor
  · intro h
    induction s generalizing inside with
    | nil => simp [upTo] at h
    | cons c s ih =>
      unfold upTo at h
      split at h
      · rename_i hprefix
        cases h
        obtain ⟨r, hr⟩ := List.isPrefixOf_iff_prefix.mp hprefix
        exact ⟨by simp, r, hr.symm⟩
      · split at h
        · rename_i hallowed
          obtain ⟨rest, hrest, rfl⟩ := Option.map_eq_some_iff.mp h
          obtain ⟨hmem, r, rfl⟩ := ih hrest
          refine ⟨?_, r, rfl⟩
          rw [List.mem_cons, not_or]
          exact ⟨fun heq => by simp [← heq] at hallowed, hmem⟩
        · cases h
  · rintro ⟨hmem, r, rfl⟩
    apply upTo_eq_some hmem
    intro c hc
    simpa using fun heq : c = ']' => hmem (heq ▸ hc)

/-- A link: doubled brackets, and no closing one between them. -/
theorem linkInside?_eq_some {s inside : List Char} : linkInside? s = some inside ↔
    ']' ∉ inside ∧ ∃ r, s = '[' :: '[' :: inside ++ ']' :: ']' :: r := by
  have hinside : ∀ r, linkInside? ('[' :: '[' :: r) = upTo [']', ']'] (· ≠ ']') r := by
    intro r
    simp only [linkInside?]
    cases upTo [']', ']'] (· ≠ ']') r <;> rfl
  constructor
  · intro h
    have hs : ∃ r, s = '[' :: '[' :: r := by
      unfold linkInside? at h
      split at h
      · exact ⟨_, rfl⟩
      · cases h
    obtain ⟨r, rfl⟩ := hs
    rw [hinside] at h
    obtain ⟨hmem, v, rfl⟩ := upTo_closing_eq_some.mp h
    exact ⟨hmem, v, rfl⟩
  · rintro ⟨hmem, r, rfl⟩
    rw [List.cons_append, List.cons_append, hinside]
    exact upTo_closing_eq_some.mpr ⟨hmem, r, rfl⟩

/-- A link as it is written. -/
def written (inside : List Char) : List Char := '[' :: '[' :: inside ++ [']', ']']

theorem length_written (inside : List Char) : (written inside).length = inside.length + 4 := by
  simp [written]

/-- Replaces links by what `shown` makes of their inside, and leaves those of which it makes
nothing. -/
def findLinkBy (shown : List Char → Option (List Char)) (s : List Char) :
    Option (List Char × ℕ) :=
  (linkInside? s).bind fun inside => (shown inside).map fun found => (found, inside.length + 4)

def pipedShown (inside : List Char) : Option (List Char) :=
  (afterBar? inside).map fun shown => '[' :: '[' :: shown ++ [']', ']']

theorem findPiped_eq : findPiped = findLinkBy pipedShown := by
  funext s
  unfold findPiped findLinkBy pipedShown
  cases linkInside? s with
  | none => rfl
  | some inside => cases hbar : afterBar? inside <;> simp [hbar]

theorem findLink_eq : findLink = findLinkBy some := by
  funext s
  unfold findLink findLinkBy
  cases linkInside? s <;> rfl

theorem findLinkBy_eq_some {shown : List Char → Option (List Char)} {s found : List Char} {n : ℕ} :
    findLinkBy shown s = some (found, n) ↔ ∃ inside r, ']' ∉ inside ∧ s = written inside ++ r ∧
      shown inside = some found ∧ n = (written inside).length := by
  unfold findLinkBy
  rw [Option.bind_eq_some_iff]
  constructor
  · rintro ⟨inside, hinside, h⟩
    obtain ⟨hmem, r, rfl⟩ := linkInside?_eq_some.mp hinside
    obtain ⟨found', hfound, heq⟩ := Option.map_eq_some_iff.mp h
    cases heq
    exact ⟨inside, r, hmem, by simp [written], hfound, (length_written inside).symm⟩
  · rintro ⟨inside, r, hmem, rfl, hfound, rfl⟩
    refine ⟨inside, linkInside?_eq_some.mpr ⟨hmem, r, by simp [written]⟩, ?_⟩
    simp [hfound, length_written]

section LinkBy
variable {shown : List Char → Option (List Char)}

theorem substitute_written {inside found r : List Char} (hmem : ']' ∉ inside)
    (h : shown inside = some found) :
    substitute (findLinkBy shown) (written inside ++ r) =
      found ++ substitute (findLinkBy shown) r :=
  substitute_append_of_some (by simp [written])
    (findLinkBy_eq_some.mpr ⟨inside, r, hmem, rfl, h, rfl⟩)

/-- The steps in which links are replaced. -/
theorem linkBy_induction (shown : List Char → Option (List Char)) {P : List Char → Prop}
    (nil : P [])
    (char : ∀ c r, findLinkBy shown (c :: r) = none → P r → P (c :: r))
    (link : ∀ inside found r, ']' ∉ inside → shown inside = some found → P r →
      P (written inside ++ r)) (s : List Char) : P s := by
  induction s using substitute_induction (findLinkBy shown) with
  | hfind s found n h =>
    obtain ⟨inside, r, -, hs, -, hn⟩ := findLinkBy_eq_some.mp h
    exact ⟨written inside, r, by simp [written], hs, hn⟩
  | nil => exact nil
  | char c r hnone ih => exact char c r hnone ih
  | hit w r found hw h ih =>
    obtain ⟨inside, v, hmem, hs, hfound, hn⟩ := findLinkBy_eq_some.mp h
    obtain ⟨rfl, rfl⟩ := List.append_inj hs hn
    exact link inside found r hmem hfound ih

/-- A text that changes loses at least what each link loses. -/
theorem length_substitute_linkBy (shown : List Char → Option (List Char)) {k : ℕ}
    (hshown : ∀ inside found, shown inside = some found → found.length + k ≤ inside.length + 4)
    (s : List Char) : substitute (findLinkBy shown) s = s ∨
      (substitute (findLinkBy shown) s).length + k ≤ s.length := by
  induction s using linkBy_induction shown with
  | nil => exact .inl rfl
  | char c r hnone ih =>
    rw [substitute_cons_of_none hnone]
    rcases ih with hsame | hless
    · exact .inl (by rw [hsame])
    · exact .inr (by simp only [List.length_cons]; omega)
  | link inside found r hmem hfound ih =>
    have hlost := hshown inside found hfound
    rw [substitute_written hmem hfound, List.length_append, List.length_append, length_written]
    rcases ih with hsame | hless
    · exact .inr (by rw [hsame]; omega)
    · exact .inr (by omega)

/-- A text that nothing changes holds no link to replace. -/
theorem findLinkBy_eq_none (shown : List Char → Option (List Char)) {s v : List Char}
    (hshown : ∀ inside found, shown inside = some found → found.length < inside.length + 4)
    (hsame : substitute (findLinkBy shown) s = s) (hv : v <:+ s) : findLinkBy shown v = none := by
  induction s with
  | nil =>
    rw [List.suffix_nil.mp hv]
    rfl
  | cons c s ih =>
    have hnone : findLinkBy shown (c :: s) = none := by
      by_contra hfind
      obtain ⟨⟨found, n⟩, hfind⟩ := Option.ne_none_iff_exists'.mp hfind
      obtain ⟨inside, r, hmem, hs, hfound, -⟩ := findLinkBy_eq_some.mp hfind
      have hlost := hshown inside found hfound
      have hrest := length_substitute_linkBy shown (k := 0)
        (fun i f h => Nat.le_of_lt (hshown i f h)) r
      have hlength := congrArg List.length hsame
      rw [hs, substitute_written hmem hfound] at hlength
      simp only [List.length_append, length_written] at hlength
      rcases hrest with hrest | hrest
      · rw [hrest] at hlength
        omega
      · omega
    rw [substitute_cons_of_none hnone] at hsame
    rcases List.suffix_cons_iff.mp hv with rfl | hv
    · exact hnone
    · exact ih (List.cons.inj hsame).2 hv

end LinkBy

theorem exists_of_afterBar? {inside shown : List Char} (h : afterBar? inside = some shown) :
    ∃ front, inside = front ++ '|' :: shown := by
  induction inside with
  | nil => cases h
  | cons c inside ih =>
    unfold afterBar? at h
    split at h
    · rename_i hbar
      cases h
      exact ⟨[], by rw [hbar, List.nil_append]⟩
    · obtain ⟨front, rfl⟩ := ih h
      exact ⟨c :: front, rfl⟩

theorem pipedShown_eq_some {inside found : List Char} : pipedShown inside = some found ↔
    ∃ shown, afterBar? inside = some shown ∧ written shown = found :=
  Option.map_eq_some_iff

theorem length_pipedShown {inside found : List Char} (h : pipedShown inside = some found) :
    found.length < inside.length + 4 := by
  obtain ⟨shown, hshown, rfl⟩ := pipedShown_eq_some.mp h
  obtain ⟨front, rfl⟩ := exists_of_afterBar? hshown
  rw [length_written, List.length_append, List.length_cons]
  omega

/-- A text of which display texts are taken holds links of these alone. -/
theorem exists_written_of_piped (s : List Char) : substitute findPiped s = s ∨
    ∃ u inside r, ']' ∉ inside ∧ substitute findPiped s = u ++ (written inside ++ r) := by
  rw [findPiped_eq]
  induction s using linkBy_induction pipedShown with
  | nil => exact .inl rfl
  | char c r hnone ih =>
    rw [substitute_cons_of_none hnone]
    rcases ih with hsame | ⟨u, inside, v, hmem, hu⟩
    · exact .inl (by rw [hsame])
    · exact .inr ⟨c :: u, inside, v, hmem, by rw [hu, List.cons_append]⟩
  | link inside found r hmem hfound _ =>
    obtain ⟨shown, hshown, rfl⟩ := pipedShown_eq_some.mp hfound
    refine .inr ⟨[], shown, _, ?_, substitute_written hmem hfound⟩
    obtain ⟨front, rfl⟩ := exists_of_afterBar? hshown
    exact fun hclosing => hmem (by simp [hclosing])

/-- A text that links are taken off loses four brackets or more. -/
theorem length_unlinkChars (s : List Char) :
    unlinkChars s = s ∨ (unlinkChars s).length + 4 ≤ s.length := by
  unfold unlinkChars
  have hpiped := length_substitute_linkBy pipedShown (k := 1) (fun _ _ h => length_pipedShown h) s
  have hlink := length_substitute_linkBy some (k := 4)
    (fun inside found h => by rw [Option.some.inj h]) (substitute findPiped s)
  rw [← findPiped_eq] at hpiped
  rw [← findLink_eq] at hlink
  rcases hlink with hsame | hless
  · rcases exists_written_of_piped s with hs | ⟨u, inside, r, hmem, hs⟩
    · exact .inl (by rw [hsame, hs])
    · rw [findLink_eq] at hsame
      have hnone := findLinkBy_eq_none some
        (fun i f h => by rw [Option.some.inj h]; omega) hsame (hs ▸ List.suffix_append u _)
      rw [findLinkBy_eq_some.mpr ⟨inside, r, hmem, rfl, rfl, rfl⟩] at hnone
      cases hnone
  · rcases hpiped with hs | hs
    · rw [hs] at hless ⊢
      exact .inr hless
    · exact .inr (by omega)

theorem length_unlink (s : String) : unlink s = s ∨ (unlink s).length + 4 ≤ s.length := by
  have hlength := length_unlinkChars s.toList
  rcases hlength with hsame | hless
  · left
    rw [unlink, hsame, String.ofList_toList]
  · right
    simpa [unlink, String.length_toList] using hless

/-- What is put for links is part of them. -/
theorem substitute_linkBy_sublist (shown : List Char → Option (List Char))
    (hshown : ∀ inside found, shown inside = some found → found.Sublist (written inside))
    (s : List Char) : (substitute (findLinkBy shown) s).Sublist s := by
  induction s using linkBy_induction shown with
  | nil => exact List.Sublist.refl []
  | char c r hnone ih =>
    rw [substitute_cons_of_none hnone]
    exact ih.cons_cons c
  | link inside found r hmem hfound ih =>
    rw [substitute_written hmem hfound]
    exact (hshown inside found hfound).append ih

theorem sublist_written (inside : List Char) : inside.Sublist (written inside) := by
  unfold written
  exact (List.sublist_append_right ['[', '['] inside).trans (List.sublist_append_left _ _)

theorem pipedShown_sublist {inside found : List Char} (h : pipedShown inside = some found) :
    found.Sublist (written inside) := by
  obtain ⟨shown, hshown, rfl⟩ := pipedShown_eq_some.mp h
  obtain ⟨front, rfl⟩ := exists_of_afterBar? hshown
  have hinside : shown.Sublist (front ++ '|' :: shown) :=
    (List.sublist_cons_self '|' shown).trans (List.sublist_append_right front _)
  exact ((hinside.cons_cons '[').cons_cons '[').append (List.Sublist.refl _)

/-- Taking links off adds nothing to a text. -/
theorem unlink_sublist (s : String) : (unlink s).toList.Sublist s.toList := by
  have hpiped := substitute_linkBy_sublist pipedShown (fun _ _ h => pipedShown_sublist h) s.toList
  have hlink := substitute_linkBy_sublist some
    (fun inside found h => Option.some.inj h ▸ sublist_written inside)
    (substitute findPiped s.toList)
  rw [← findPiped_eq] at hpiped
  rw [← findLink_eq] at hlink
  unfold unlink unlinkChars
  rw [String.toList_ofList]
  exact hlink.trans hpiped

/-- Whether a text behind opening brackets stops before both closing ones. -/
def isUnended : List Char → Bool
  | [] => true
  | c :: r => if c = ']' then r.isEmpty else isUnended r

/-- Whether a text starts a link that it does not end. -/
def opensLink : List Char → Bool
  | ['['] => true
  | '[' :: '[' :: r => isUnended r
  | _ => false

/-- Whether no link that starts in a text can end behind it. -/
def IsClosed (s : List Char) : Prop := ∀ v ∈ s.tails, opensLink v = false

instance (s : List Char) : Decidable (IsClosed s) :=
  inferInstanceAs (Decidable (∀ v ∈ s.tails, opensLink v = false))

theorem isClosed_nil : IsClosed [] := by
  decide

theorem isClosed_cons {c : Char} {s : List Char} :
    IsClosed (c :: s) ↔ opensLink (c :: s) = false ∧ IsClosed s := by
  simp [IsClosed]

theorem isClosed_of_append {s t : List Char} (h : IsClosed (s ++ t)) : IsClosed t := by
  induction s with
  | nil => exact h
  | cons c s ih => exact ih (isClosed_cons.mp h).2

theorem isUnended_iff {r : List Char} : isUnended r ↔
    ∃ inside rest, ']' ∉ inside ∧ rest ≠ [] ∧ r ++ rest = inside ++ [']', ']'] := by
  induction r with
  | nil => simpa [isUnended] using ⟨[], by simp⟩
  | cons c r ih =>
    unfold isUnended
    split
    · rename_i hc
      subst hc
      constructor
      · intro h
        rw [List.isEmpty_iff.mp h]
        exact ⟨[], [']'], by simp, by simp, rfl⟩
      · rintro ⟨inside, rest, hmem, hrest, heq⟩
        cases inside with
        | nil =>
          obtain ⟨d, rest, rfl⟩ := List.exists_cons_of_ne_nil hrest
          cases r with
          | nil => rfl
          | cons e r => simp at heq
        | cons d inside =>
          rw [List.cons_append, List.cons_append] at heq
          exact absurd (by rw [← (List.cons.inj heq).1]; simp) hmem
    · rename_i hc
      rw [ih]
      constructor
      · rintro ⟨inside, rest, hmem, hrest, heq⟩
        refine ⟨c :: inside, rest, ?_, hrest, by rw [List.cons_append, heq]; rfl⟩
        simp [hmem, Ne.symm hc]
      · rintro ⟨inside, rest, hmem, hrest, heq⟩
        cases inside with
        | nil => exact absurd (List.cons.inj heq).1 hc
        | cons d inside =>
          rw [List.cons_append, List.cons_append] at heq
          exact ⟨inside, rest, fun h => hmem (List.mem_cons_of_mem d h), hrest,
            (List.cons.inj heq).2⟩

theorem opensLink_of_ne {c : Char} (h : c ≠ '[') (r : List Char) : opensLink (c :: r) = false := by
  unfold opensLink
  split
  · rename_i heq
    exact absurd (List.cons.inj heq).1 h
  · rename_i heq
    exact absurd (List.cons.inj heq).1 h
  · rfl

theorem opensLink_of_ne_second {c : Char} (h : c ≠ '[') (r : List Char) :
    opensLink ('[' :: c :: r) = false := by
  unfold opensLink
  split
  · rename_i heq
    cases heq
  · rename_i heq
    exact absurd (List.cons.inj (List.cons.inj heq).2).1 h
  · rfl

/-- A text starts a link without ending it just if it is cut off one. -/
theorem opensLink_iff {v : List Char} : opensLink v ↔
    v ≠ [] ∧ ∃ inside rest, ']' ∉ inside ∧ rest ≠ [] ∧ v ++ rest = written inside := by
  rcases v with _ | ⟨c, _ | ⟨d, r⟩⟩
  · simp [opensLink]
  · by_cases hc : c = '['
    · subst hc
      simpa [opensLink, written] using ⟨[], by simp⟩
    · rw [opensLink_of_ne hc]
      simp [written, hc]
  · by_cases hc : c = '['
    · subst hc
      by_cases hd : d = '['
      · subst hd
        rw [opensLink, isUnended_iff]
        simp [written]
      · rw [opensLink_of_ne_second hd]
        simp [written, hd]
    · rw [opensLink_of_ne hc]
      simp [written, hc]

theorem count_written {inside : List Char} (h : ']' ∉ inside) :
    (written inside).count ']' = 2 := by
  simp [written, List.count_eq_zero.mpr h]

/-- A text with both brackets that end a link does not leave one open. -/
theorem opensLink_of_count {v : List Char} (h : 2 ≤ v.count ']') : opensLink v = false := by
  rw [Bool.eq_false_iff, ne_eq, opensLink_iff]
  rintro ⟨-, inside, rest, hmem, hrest, heq⟩
  have hlast : ']' ∈ rest := by
    have hend := congrArg List.getLast? heq
    have hconcat : written inside = ('[' :: '[' :: inside ++ [']']) ++ [']'] := by
      simp [written]
    rw [List.getLast?_append_of_ne_nil _ hrest, hconcat, List.getLast?_concat] at hend
    exact List.mem_of_getLast? hend
  have hcount := congrArg (List.count ']') heq
  rw [List.count_append, count_written hmem] at hcount
  have hpos := List.count_pos_iff.mpr hlast
  omega

/-- What ends a link is closed again, and so is any text before it. -/
theorem isClosed_append_closing {s : List Char} (h : IsClosed s) (u : List Char) :
    IsClosed (u ++ ']' :: ']' :: s) := by
  induction u with
  | nil => exact isClosed_cons.mpr ⟨opensLink_of_ne (by decide) _,
      isClosed_cons.mpr ⟨opensLink_of_ne (by decide) _, h⟩⟩
  | cons c u ih =>
    rw [List.cons_append]
    refine isClosed_cons.mpr ⟨opensLink_of_count ?_, ih⟩
    rw [List.count_cons, List.count_append, List.count_cons_self, List.count_cons_self]
    omega

theorem isClosed_written {s : List Char} (h : IsClosed s) (inside : List Char) :
    IsClosed (written inside ++ s) := by
  simpa [written] using isClosed_append_closing h ('[' :: '[' :: inside)

theorem isClosed_append {s t : List Char} (hs : IsClosed s) (ht : IsClosed t) :
    IsClosed (s ++ t) := by
  induction s with
  | nil => exact ht
  | cons c s ih =>
    obtain ⟨hopens, hs⟩ := isClosed_cons.mp hs
    rw [List.cons_append]
    refine isClosed_cons.mpr ⟨?_, ih hs⟩
    rw [Bool.eq_false_iff, ne_eq, opensLink_iff] at hopens ⊢
    rintro ⟨-, inside, rest, hmem, hrest, heq⟩
    refine hopens ⟨by simp, inside, t ++ rest, hmem, by simp [hrest], ?_⟩
    rw [← heq, List.cons_append, List.cons_append, List.append_assoc]

theorem isClosed_of_not_mem {s : List Char} (h : '[' ∉ s) : IsClosed s := by
  induction s with
  | nil => exact isClosed_nil
  | cons c s ih =>
    rw [List.mem_cons, not_or] at h
    exact isClosed_cons.mpr ⟨opensLink_of_ne (Ne.symm h.1) s, ih h.2⟩

section LinkBy
variable {shown : List Char → Option (List Char)}

/-- What follows a text does not change whether a link starts it, unless it leaves one open. -/
theorem findLinkBy_append {c : Char} {s : List Char} (hopens : opensLink (c :: s) = false)
    (hnone : findLinkBy shown (c :: s) = none) (t : List Char) :
    findLinkBy shown (c :: s ++ t) = none := by
  by_contra hfind
  obtain ⟨⟨found, n⟩, hfind⟩ := Option.ne_none_iff_exists'.mp hfind
  obtain ⟨inside, r, hmem, hs, hfound, -⟩ := findLinkBy_eq_some.mp hfind
  rcases List.append_eq_append_iff.mp hs with ⟨rest, hwritten, -⟩ | ⟨rest, hstart, -⟩
  · by_cases hrest : rest = []
    · rw [hrest, List.append_nil] at hwritten
      rw [findLinkBy_eq_some.mpr ⟨inside, [], hmem, by rw [hwritten, List.append_nil], hfound,
        rfl⟩] at hnone
      cases hnone
    · rw [opensLink_iff.mpr ⟨by simp, inside, rest, hmem, hrest, hwritten.symm⟩] at hopens
      cases hopens
  · rw [findLinkBy_eq_some.mpr ⟨inside, rest, hmem, hstart, hfound, rfl⟩] at hnone
    cases hnone

theorem substitute_linkBy_append {s : List Char} (h : IsClosed s) (t : List Char) :
    substitute (findLinkBy shown) (s ++ t) =
      substitute (findLinkBy shown) s ++ substitute (findLinkBy shown) t := by
  induction s using linkBy_induction shown with
  | nil => rfl
  | char c r hnone ih =>
    obtain ⟨hopens, hr⟩ := isClosed_cons.mp h
    have hnone' := findLinkBy_append hopens hnone t
    rw [List.cons_append] at hnone' ⊢
    rw [substitute_cons_of_none hnone', ih hr, substitute_cons_of_none hnone, List.cons_append]
  | link inside found r hmem hfound ih =>
    have hr := isClosed_of_append h
    rw [List.append_assoc, substitute_written hmem hfound, ih hr, substitute_written hmem hfound,
      List.append_assoc]

end LinkBy

/-- A closed text stays closed when its display texts are taken. -/
theorem isClosed_piped {s : List Char} (h : IsClosed s) : IsClosed (substitute findPiped s) := by
  rw [findPiped_eq]
  induction s using linkBy_induction pipedShown with
  | nil => exact isClosed_nil
  | char c r hnone ih =>
    obtain ⟨hopens, hr⟩ := isClosed_cons.mp h
    rw [substitute_cons_of_none hnone]
    refine isClosed_cons.mpr ⟨?_, ih hr⟩
    have hrest := exists_written_of_piped r
    rw [findPiped_eq] at hrest
    rcases hrest with hsame | ⟨u, inside, v, hmem, hlink⟩
    · rw [hsame, hopens]
    · apply opensLink_of_count
      rw [hlink, List.count_cons, List.count_append, List.count_append, count_written hmem]
      omega
  | link inside found r hmem hfound ih =>
    have hr := isClosed_of_append h
    obtain ⟨shown, _, rfl⟩ := pipedShown_eq_some.mp hfound
    rw [substitute_written hmem hfound]
    exact isClosed_written (ih hr) shown

theorem unlinkChars_append {s : List Char} (h : IsClosed s) (t : List Char) :
    unlinkChars (s ++ t) = unlinkChars s ++ unlinkChars t := by
  have hpiped : substitute findPiped (s ++ t) =
      substitute findPiped s ++ substitute findPiped t := by
    rw [findPiped_eq]
    exact substitute_linkBy_append h t
  unfold unlinkChars
  rw [hpiped, findLink_eq]
  exact substitute_linkBy_append (isClosed_piped h) _

theorem unlink_append {s : String} (h : IsClosed s.toList) (t : String) :
    unlink (s ++ t) = unlink s ++ unlink t := by
  rw [unlink, String.toList_append, unlinkChars_append h, String.ofList_append]
  rfl

/-- Whether a text starts with a link, or may do so with what follows it. -/
def startsLink : List Char → Bool
  | ['['] => true
  | '[' :: '[' :: _ => true
  | _ => false

/-- Whether no link starts in a text, whatever follows it. -/
def IsLinkless (s : List Char) : Prop := ∀ v ∈ s.tails, startsLink v = false

instance (s : List Char) : Decidable (IsLinkless s) :=
  inferInstanceAs (Decidable (∀ v ∈ s.tails, startsLink v = false))

theorem isLinkless_nil : IsLinkless [] := by
  decide

theorem isLinkless_cons {c : Char} {s : List Char} :
    IsLinkless (c :: s) ↔ startsLink (c :: s) = false ∧ IsLinkless s := by
  simp [IsLinkless]

theorem isLinkless_of_append {s t : List Char} (h : IsLinkless (s ++ t)) : IsLinkless t := by
  induction s with
  | nil => exact h
  | cons c s ih => exact ih (isLinkless_cons.mp h).2

theorem startsLink_of_ne {c : Char} (h : c ≠ '[') (r : List Char) :
    startsLink (c :: r) = false := by
  unfold startsLink
  split <;> simp_all

theorem startsLink_of_ne_second {c : Char} (h : c ≠ '[') (r : List Char) :
    startsLink ('[' :: c :: r) = false := by
  unfold startsLink
  split <;> simp_all

theorem opensLink_of_startsLink {v : List Char} (h : startsLink v = false) :
    opensLink v = false := by
  unfold opensLink
  split
  · cases h
  · cases h
  · rfl

theorem isClosed_of_isLinkless {s : List Char} (h : IsLinkless s) : IsClosed s :=
  fun v hv => opensLink_of_startsLink (h v hv)

theorem isLinkless_append {u s : List Char} (hu : '[' ∉ u) (h : IsLinkless s) :
    IsLinkless (u ++ s) := by
  induction u with
  | nil => exact h
  | cons c u ih =>
    rw [List.mem_cons, not_or] at hu
    exact isLinkless_cons.mpr ⟨startsLink_of_ne (Ne.symm hu.1) _, ih hu.2⟩

theorem isLinkless_of_not_mem {s : List Char} (h : '[' ∉ s) : IsLinkless s := by
  simpa using isLinkless_append h isLinkless_nil

theorem substitute_linkBy_of_isLinkless {shown : List Char → Option (List Char)} {s : List Char}
    (h : IsLinkless s) : substitute (findLinkBy shown) s = s := by
  apply substitute_of_none
  intro v hne hv
  by_contra hfind
  obtain ⟨⟨found, n⟩, hfind⟩ := Option.ne_none_iff_exists'.mp hfind
  obtain ⟨inside, r, -, rfl, -⟩ := findLinkBy_eq_some.mp hfind
  have hstarts := h _ ((List.mem_tails _ _).mpr hv)
  cases hstarts

theorem unlinkChars_of_isLinkless {s : List Char} (h : IsLinkless s) : unlinkChars s = s := by
  rw [unlinkChars, findPiped_eq, findLink_eq, substitute_linkBy_of_isLinkless h,
    substitute_linkBy_of_isLinkless h]

theorem unlink_of_isLinkless {s : String} (h : IsLinkless s.toList) : unlink s = s := by
  rw [unlink, unlinkChars_of_isLinkless h, String.ofList_toList]

end Declension.Text
