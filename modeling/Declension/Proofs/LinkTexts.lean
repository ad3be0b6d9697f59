import Declension.Proofs.Links

/-!
# What is left of links

Links are taken off a text in two passes, but a link shows the same in one: its display text, or
its target if it has none. So a text is read from the left, a link or a character at a time, and
where no link holds a separator the fields of a text lose their links one by one. Main statements:
`unlinkChars_written`, `unlinkChars_cons`, `fieldsChars_unlinkChars` and, for texts put together
from plain pieces and links, `LinkedPiece.unlink_text`.
-/
namespace Declension.Text

/-- What a link shows. -/
def displayed (inside : List Char) : List Char := (afterBar? inside).getD inside

theorem not_mem_of_afterBar? {inside : List Char} (h : afterBar? inside = none) : '|' ∉ inside := by
  induction inside with
  | nil => simp
  | cons c inside ih =>
    unfold afterBar? at h
    split at h
    · cases h
    · rename_i hc
      rw [List.mem_cons, not_or]
      exact ⟨Ne.symm hc, ih h⟩

theorem afterBar?_append {front : List Char} (h : '|' ∉ front) (r : List Char) :
    afterBar? (front ++ r) = afterBar? r := by
  induction front with
  | nil => rfl
  | cons c front ih =>
    rw [List.mem_cons, not_or] at h
    rw [List.cons_append, afterBar?, if_neg (Ne.symm h.1), ih h.2]

theorem linkInside?_of_prefix {s r inside : List Char} (h : linkInside? s = some inside)
    (hr : s <+: r) : linkInside? r = some inside := by
  obtain ⟨u, rfl⟩ := hr
  obtain ⟨hmem, t, rfl⟩ := linkInside?_eq_some.mp h
  exact linkInside?_eq_some.mpr ⟨hmem, t ++ u, by simp⟩

theorem displayed_sublist (inside : List Char) : (displayed inside).Sublist inside := by
  unfold displayed
  cases h : afterBar? inside with
  | none => exact List.Sublist.refl _
  | some shown =>
    obtain ⟨front, rfl⟩ := exists_of_afterBar? h
    exact (List.sublist_cons_self '|' shown).trans (List.sublist_append_right front _)

theorem piped_written (inside : List Char) (hmem : ']' ∉ inside) :
    substitute findPiped (written inside) = written (displayed inside) := by
  rw [findPiped_eq]
  cases h : afterBar? inside with
  | some shown =>
    have hpiped : pipedShown inside = some (written shown) :=
      pipedShown_eq_some.mpr ⟨shown, h, rfl⟩
    have hwritten := substitute_written (r := []) hmem hpiped
    simpa [displayed, h] using hwritten
  | none =>
    have hbar : '|' ∉ written inside := by
      simp [written, not_mem_of_afterBar? h]
    rw [displayed, h, Option.getD_none]
    refine substitute_of_none fun v _ hv => ?_
    by_contra hfind
    obtain ⟨⟨found, n⟩, hfind⟩ := Option.ne_none_iff_exists'.mp hfind
    obtain ⟨inside', r, -, rfl, hfound, -⟩ := findLinkBy_eq_some.mp hfind
    obtain ⟨shown, hshown, -⟩ := pipedShown_eq_some.mp hfound
    obtain ⟨front, rfl⟩ := exists_of_afterBar? hshown
    exact hbar (hv.subset (by simp [written]))

theorem head?_piped (s : List Char) : (substitute findPiped s).head? = s.head? := by
  rw [findPiped_eq]
  induction s using linkBy_induction pipedShown with
  | nil => rfl
  | char c r hnone _ => rw [substitute_cons_of_none hnone, List.head?_cons, List.head?_cons]
  | link inside found r hmem hfound _ =>
    obtain ⟨shown, -, rfl⟩ := pipedShown_eq_some.mp hfound
    rw [substitute_written hmem hfound]
    rfl

/-- Where a link ends behind the first pass, one ended before it. -/
theorem exists_closing_of_piped {s u t : List Char} (hu : ']' ∉ u)
    (h : substitute findPiped s = u ++ ']' :: ']' :: t) :
    ∃ u' t', ']' ∉ u' ∧ s = u' ++ ']' :: ']' :: t' := by
  have hhead := head?_piped
  rw [findPiped_eq] at h hhead
  induction s using linkBy_induction pipedShown generalizing u t with
  | nil => simp at h
  | char c r hnone ih =>
    rw [substitute_cons_of_none hnone] at h
    cases u with
    | nil =>
      obtain ⟨rfl, hrest⟩ := List.cons.inj h
      have hr := hhead r
      rw [hrest, List.head?_cons] at hr
      obtain ⟨r, rfl⟩ := List.head?_eq_some_iff.mp hr.symm
      exact ⟨[], r, by simp, rfl⟩
    | cons d u =>
      rw [List.mem_cons, not_or] at hu
      obtain ⟨rfl, hrest⟩ := List.cons.inj h
      obtain ⟨u', t', hu', rfl⟩ := ih hu.2 hrest
      exact ⟨c :: u', t', by simp [hu.1, hu'], rfl⟩
  | link inside found r hmem _ _ =>
    exact ⟨'[' :: '[' :: inside, r, by simp [hmem], by simp [written]⟩

/-- A link becomes what it shows. -/
theorem unlinkChars_written {inside : List Char} (hmem : ']' ∉ inside) (r : List Char) :
    unlinkChars (written inside ++ r) = displayed inside ++ unlinkChars r := by
  have hclosed : IsClosed (written inside) := by
    simpa using isClosed_written isClosed_nil inside
  have hdisplayed : ']' ∉ displayed inside := fun h => hmem ((displayed_sublist inside).subset h)
  have hlink : substitute (findLinkBy some) (written (displayed inside) ++ []) =
      displayed inside ++ substitute (findLinkBy some) [] := substitute_written hdisplayed rfl
  rw [unlinkChars_append hclosed]
  congr 1
  rw [unlinkChars, piped_written inside hmem, findLink_eq]
  simpa using hlink

/-- A character that starts no link stays. -/
theorem unlinkChars_cons {c : Char} {r : List Char} (h : linkInside? (c :: r) = none) :
    unlinkChars (c :: r) = c :: unlinkChars r := by
  have hpiped : findPiped (c :: r) = none := by rw [findPiped, h]
  have hlink : findLink (c :: substitute findPiped r) = none := by
    rw [findLink, Option.map_eq_none_iff]
    by_contra hfind
    obtain ⟨inside, hinside⟩ := Option.ne_none_iff_exists'.mp hfind
    obtain ⟨hmem, t, hlink⟩ := linkInside?_eq_some.mp hinside
    obtain ⟨rfl, hrest⟩ := List.cons.inj hlink
    have hopening : r.head? = some '[' := by rw [← head?_piped, hrest]; rfl
    obtain ⟨u, v, hu, rfl⟩ := exists_closing_of_piped (by simpa using hmem) hrest
    cases u with
    | nil => cases hopening
    | cons d u =>
      cases hopening
      rw [List.mem_cons, not_or] at hu
      have hstarts : linkInside? ('[' :: '[' :: u ++ ']' :: ']' :: v) = some u :=
        linkInside?_eq_some.mpr ⟨hu.2, v, rfl⟩
      exact Option.some_ne_none u (hstarts.symm.trans h)
  rw [unlinkChars, substitute_cons_of_none hpiped, substitute_cons_of_none hlink, unlinkChars]

theorem link_induction {P : List Char → Prop} (nil : P [])
    (char : ∀ c r, linkInside? (c :: r) = none → P r → P (c :: r))
    (link : ∀ inside r, ']' ∉ inside → P r → P (written inside ++ r)) (s : List Char) : P s := by
  induction s using linkBy_induction some with
  | nil => exact nil
  | char c r hnone ih =>
    rw [← findLink_eq, findLink, Option.map_eq_none_iff] at hnone
    exact char c r hnone ih
  | link inside _ r hmem _ ih => exact link inside r hmem ih

theorem fieldsChars_cons {sep c : Char} {r field : List Char} {rest : List (List Char)}
    (h : c ≠ sep) (hr : fieldsChars sep r = field :: rest) :
    fieldsChars sep (c :: r) = (c :: field) :: rest := by
  rw [fieldsChars, if_neg h, hr]

theorem fieldsChars_append_of_not_mem {sep : Char} {s r field : List Char}
    {rest : List (List Char)} (h : sep ∉ s) (hr : fieldsChars sep r = field :: rest) :
    fieldsChars sep (s ++ r) = (s ++ field) :: rest := by
  induction s with
  | nil => exact hr
  | cons c s ih =>
    rw [List.mem_cons, not_or] at h
    exact fieldsChars_cons (Ne.symm h.1) (ih h.2)

/-- Whether no link of a text holds a separator. -/
def KeepsInFields (sep : Char) (s : List Char) : Prop :=
  ∀ v ∈ s.tails, ∀ inside ∈ linkInside? v, sep ∉ inside

instance (sep : Char) (s : List Char) : Decidable (KeepsInFields sep s) :=
  inferInstanceAs (Decidable (∀ v ∈ s.tails, ∀ inside ∈ linkInside? v, sep ∉ inside))

theorem KeepsInFields.of_append {sep : Char} {s r : List Char} (h : KeepsInFields sep (s ++ r)) :
    KeepsInFields sep r := by
  intro v hv
  rw [List.mem_tails] at hv
  exact h v ((List.mem_tails v _).mpr (hv.trans (List.suffix_append s r)))

theorem KeepsInFields.inside {sep : Char} {inside r : List Char}
    (h : KeepsInFields sep (written inside ++ r)) (hmem : ']' ∉ inside) : sep ∉ inside :=
  h _ ((List.mem_tails _ _).mpr List.suffix_rfl) inside
    (linkInside?_eq_some.mpr ⟨hmem, r, by simp [written]⟩)

/-- The fields of a text lose their links one by one, if no link holds a separator. -/
theorem fieldsChars_unlinkChars {sep : Char} (hsep : sep ∉ ['[', ']']) {s : List Char}
    (h : KeepsInFields sep s) :
    fieldsChars sep (unlinkChars s) = (fieldsChars sep s).map unlinkChars := by
  induction s using link_induction with
  | nil => rfl
  | char c r hnone ih =>
    have hr := ih (h.of_append (s := [c]))
    rw [unlinkChars_cons hnone]
    by_cases hc : c = sep
    · subst hc
      simp [fieldsChars, hr, show unlinkChars [] = [] from rfl]
    · obtain ⟨field, rest, hfields, hstart, -⟩ := exists_fieldsChars sep r
      have hfield : linkInside? (c :: field) = none := by
        by_contra hfind
        obtain ⟨inside, hinside⟩ := Option.ne_none_iff_exists'.mp hfind
        have hopens := linkInside?_of_prefix hinside (List.cons_prefix_cons.mpr ⟨rfl, hstart⟩)
        exact Option.some_ne_none inside (hopens.symm.trans hnone)
      rw [hfields, List.map_cons] at hr
      rw [fieldsChars_cons hc hr, fieldsChars_cons hc hfields, List.map_cons,
        unlinkChars_cons hfield]
  | link inside r hmem ih =>
    have hr := ih h.of_append
    have hinside : sep ∉ inside := h.inside hmem
    have hwritten : sep ∉ written inside := by
      simp only [List.mem_cons, List.not_mem_nil, or_false, not_or] at hsep
      simp [written, hsep.1, hsep.2, hinside]
    have hdisplayed : sep ∉ displayed inside := fun hsep =>
      hinside ((displayed_sublist inside).subset hsep)
    obtain ⟨field, rest, hfields, -, -⟩ := exists_fieldsChars sep r
    rw [hfields, List.map_cons] at hr
    rw [unlinkChars_written hmem, fieldsChars_append_of_not_mem hdisplayed hr,
      fieldsChars_append_of_not_mem hwritten hfields, List.map_cons, unlinkChars_written hmem]

theorem map_unlink_fields {sep : Char} (hsep : sep ∉ ['[', ']']) {s : String}
    (h : KeepsInFields sep s.toList) : (fields sep s).map unlink = fields sep (unlink s) := by
  have hchars : (unlink s).toList = unlinkChars s.toList := String.toList_ofList
  unfold fields
  rw [hchars, fieldsChars_unlinkChars hsep h, List.map_map, List.map_map]
  refine List.map_congr_left fun field _ => ?_
  simp [unlink]

/-- Whether a text has no square brackets. -/
def IsBracketless (s : List Char) : Prop := '[' ∉ s ∧ ']' ∉ s

theorem isBracketless_append {s r : List Char} :
    IsBracketless (s ++ r) ↔ IsBracketless s ∧ IsBracketless r := by
  simp only [IsBracketless, List.mem_append, not_or]
  exact and_and_and_comm

theorem unlinkChars_append_of_isBracketless {s : List Char} (h : IsBracketless s) (r : List Char) :
    unlinkChars (s ++ r) = s ++ unlinkChars r := by
  rw [unlinkChars_append (isClosed_of_not_mem h.1), unlinkChars_of_isLinkless
    (isLinkless_of_not_mem h.1)]

/-- A piece of a text: plain characters, or a link. The target of a link ends at its first bar, so
only a display text may hold one. -/
inductive LinkedPiece where
  | plain (s : List Char) (free : IsBracketless s)
  | link (target : List Char) (free : IsBracketless target ∧ '|' ∉ target)
  | display (target shown : List Char) (free : IsBracketless target ∧ '|' ∉ target)
      (shownFree : IsBracketless shown)

namespace LinkedPiece

/-- A piece as it is written. -/
def text : LinkedPiece → List Char
  | plain s _ => s
  | link target _ => "[[".toList ++ target ++ "]]".toList
  | display target shown _ _ => "[[".toList ++ target ++ "|".toList ++ shown ++ "]]".toList

/-- What a piece shows. -/
def shown : LinkedPiece → List Char
  | plain s _ => s
  | link target _ => target
  | display _ shown _ _ => shown

theorem isBracketless_shown (p : LinkedPiece) : IsBracketless p.shown := by
  cases p with
  | plain s free => exact free
  | link target free => exact free.1
  | display target shown free shownFree => exact shownFree

/-- A piece loses its link whatever follows it. -/
theorem unlinkChars_text_append (p : LinkedPiece) (r : List Char) :
    unlinkChars (p.text ++ r) = p.shown ++ unlinkChars r := by
  cases p with
  | plain s free => exact unlinkChars_append_of_isBracketless free r
  | link target free =>
    have hbar : afterBar? target = none := by simpa [afterBar?] using afterBar?_append free.2 []
    have hshown : displayed target = target := by rw [displayed, hbar, Option.getD_none]
    have hlink := unlinkChars_written free.1.2 r
    rwa [hshown] at hlink
  | display target shown free shownFree =>
    have hbar : afterBar? (target ++ '|' :: shown) = some shown := by
      rw [afterBar?_append free.2, afterBar?, if_pos rfl]
    have hclosing : ']' ∉ target ++ '|' :: shown := by simp [free.1.2, shownFree.2]
    have hlink := unlinkChars_written hclosing r
    rw [displayed, hbar, Option.getD_some] at hlink
    simpa [text, LinkedPiece.shown, written] using hlink

theorem isBracketless_flatMap_shown (pieces : List LinkedPiece) :
    IsBracketless (pieces.flatMap shown) := by
  induction pieces with
  | nil => exact ⟨List.not_mem_nil, List.not_mem_nil⟩
  | cons p pieces ih => exact isBracketless_append.mpr ⟨p.isBracketless_shown, ih⟩

theorem unlinkChars_flatMap_text (pieces : List LinkedPiece) :
    unlinkChars (pieces.flatMap text) = pieces.flatMap shown := by
  induction pieces with
  | nil => rfl
  | cons p pieces ih => rw [List.flatMap_cons, unlinkChars_text_append, ih, List.flatMap_cons]

/-- A text loses its links piece by piece; what is left has no bracket, and no link to lose. -/
theorem unlink_text (pieces : List LinkedPiece) :
    unlink (String.ofList (pieces.flatMap text)) = String.ofList (pieces.flatMap shown) ∧
      IsBracketless (unlink (String.ofList (pieces.flatMap text))).toList ∧
      unlink (unlink (String.ofList (pieces.flatMap text))) =
        unlink (String.ofList (pieces.flatMap text)) := by
  have hshown : unlink (String.ofList (pieces.flatMap text)) =
      String.ofList (pieces.flatMap shown) := by
    rw [unlink, String.toList_ofList, unlinkChars_flatMap_text]
  have hfree : IsBracketless (unlink (String.ofList (pieces.flatMap text))).toList := by
    rw [hshown, String.toList_ofList]
    exact isBracketless_flatMap_shown pieces
  exact ⟨hshown, hfree, unlink_of_isLinkless (isLinkless_of_not_mem hfree.1)⟩

example : unlink "[[amare|amā]]re et [[vīta|a|b]]|[[lūdus]]" = "amāre et a|b|lūdus" := by
  decide +kernel

end LinkedPiece

end Declension.Text
