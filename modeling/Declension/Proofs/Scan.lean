import Declension.Text.Scan
import Mathlib.Data.List.Basic

/-!
# Scanning texts

How a text is cut: what holds no hit joins the text before the next hit, and a hit becomes an item.
Also what `upTo` finds, and the fields of a text that is put together from fields. What is cut off a
text, found in it or a field of it lies in the text, and `occurs` tells what lies in it.
-/
namespace Declension.Text

section Cut
variable {α : Type} {find : List Char → Option (α × ℕ)}

theorem scan_append_left (w v : List Char) : scan find w.length (w ++ v) = scan find 0 v := by
  induction w with
  | nil => rfl
  | cons c w ih => simpa [scan] using ih

theorem cut_cons_of_none {c : Char} {v : List Char} (h : find (c :: v) = none) :
    cut find (c :: v) = (c :: (cut find v).1, (cut find v).2) := by
  have hstep : scan find 0 (c :: v) = .inl c :: scan find 0 v := by
    simp [scan, h]
  unfold cut
  rw [hstep, pieces]

/-- A stretch in which nothing is found stays text. -/
theorem cut_append_of_none {u v : List Char}
    (h : ∀ x, x ≠ [] → x <:+ u → find (x ++ v) = none) :
    cut find (u ++ v) = (u ++ (cut find v).1, (cut find v).2) := by
  induction u with
  | nil => rfl
  | cons c u ih =>
    have hhead : find (c :: (u ++ v)) = none := h (c :: u) (by simp) (List.suffix_refl _)
    have htail := ih fun x hx hu => h x hx (hu.trans (List.suffix_cons c u))
    rw [List.cons_append, cut_cons_of_none hhead, htail]
    rfl

theorem cut_append_of_head {u v : List Char} (h : ∀ c ∈ u, ∀ r, find (c :: r) = none) :
    cut find (u ++ v) = (u ++ (cut find v).1, (cut find v).2) := by
  apply cut_append_of_none
  intro x hx hu
  cases x with
  | nil => exact absurd rfl hx
  | cons c x => exact h c (hu.subset List.mem_cons_self) (x ++ v)

theorem cut_of_none {u : List Char} (h : ∀ x, x ≠ [] → x <:+ u → find x = none) :
    cut find u = (u, []) := by
  have hcut : cut find (u ++ []) = (u ++ (cut find []).1, (cut find []).2) :=
    cut_append_of_none (by simpa using h)
  simpa [cut, scan, pieces] using hcut

/-- A hit at the start becomes the first item. -/
theorem cut_append_of_some {w v : List Char} {a : α} (hw : w ≠ [])
    (h : find (w ++ v) = some (a, w.length)) :
    cut find (w ++ v) = ([], (a, (cut find v).1) :: (cut find v).2) := by
  cases w with
  | nil => exact absurd rfl hw
  | cons c w =>
    have hstep : scan find 0 (c :: (w ++ v)) = .inr a :: scan find 0 v := by
      rw [List.cons_append, List.length_cons] at h
      simp only [scan, h, Nat.add_sub_cancel, scan_append_left]
    unfold cut
    rw [List.cons_append, hstep, pieces]

/-- What is cut off a text lies in it: the front at its start, what is found where it is found. -/
theorem pieces_scan (find : List Char → Option (α × ℕ)) (k : ℕ) (s : List Char) :
    (pieces (scan find k s)).1 <+: s.drop k ∧ ∀ item ∈ (pieces (scan find k s)).2,
      (∃ v n, v <:+ s ∧ find v = some (item.1, n)) ∧ item.2 <:+: s := by
  induction s generalizing k with
  | nil => simp [scan, pieces]
  | cons c r ih =>
    have hlater : ∀ k, ∀ item ∈ (pieces (scan find k r)).2,
        (∃ v n, v <:+ c :: r ∧ find v = some (item.1, n)) ∧ item.2 <:+: c :: r := by
      intro k item hitem
      obtain ⟨⟨v, n, hv, hfind⟩, hafter⟩ := (ih k).2 item hitem
      exact ⟨⟨v, n, hv.trans (List.suffix_cons c r), hfind⟩,
        hafter.trans (List.suffix_cons c r).isInfix⟩
    cases k with
    | succ k => exact ⟨(ih k).1, hlater k⟩
    | zero =>
      cases hfind : find (c :: r) with
      | none =>
        simp only [scan, hfind, pieces]
        exact ⟨List.cons_prefix_cons.mpr ⟨rfl, by simpa using (ih 0).1⟩, hlater 0⟩
      | some found =>
        obtain ⟨a, n⟩ := found
        simp only [scan, hfind, pieces]
        refine ⟨List.nil_prefix, List.forall_mem_cons.mpr ⟨⟨⟨_, n, List.suffix_rfl, hfind⟩, ?_⟩,
          hlater (n - 1)⟩⟩
        exact ((ih (n - 1)).1.isInfix.trans (List.drop_suffix _ _).isInfix).trans
          (List.suffix_cons c r).isInfix

theorem prefix_cut_fst (s : List Char) : (cut find s).1 <+: s := (pieces_scan find 0 s).1

theorem infix_cut_fst (s : List Char) : (cut find s).1 <:+: s := (prefix_cut_fst s).isInfix

theorem find_of_mem_cut {s : List Char} {item : α × List Char} (h : item ∈ (cut find s).2) :
    (∃ v n, v <:+ s ∧ find v = some (item.1, n)) ∧ item.2 <:+: s :=
  (pieces_scan find 0 s).2 item h

end Cut

section UpTo
variable {stop : List Char} {allowed : Char → Bool} {d : Char}

theorem upTo_of_prefix {s : List Char} (h : stop <+: s) : upTo stop allowed s = some [] := by
  have hp : stop.isPrefixOf s = true := List.isPrefixOf_iff_prefix.mpr h
  cases s <;> simp [upTo, hp]

theorem upTo_cons_of_not_prefix {c : Char} {s : List Char} (h : ¬ stop <+: c :: s) :
    upTo stop allowed (c :: s) =
      if allowed c then (upTo stop allowed s).map (c :: ·) else none := by
  have hp : stop.isPrefixOf (c :: s) = false := by
    rw [Bool.eq_false_iff, ne_eq, List.isPrefixOf_iff_prefix]
    exact h
  simp [upTo, hp]

/-- Text without the first character of the mark is passed over. -/
theorem upTo_append {u v : List Char} (hd : d ∉ u) (hu : ∀ c ∈ u, allowed c) :
    upTo (d :: stop) allowed (u ++ v) = (upTo (d :: stop) allowed v).map (u ++ ·) := by
  induction u with
  | nil => simp
  | cons c u ih =>
    rw [List.mem_cons, not_or] at hd
    rw [List.forall_mem_cons] at hu
    have hnot : ¬ d :: stop <+: c :: (u ++ v) := by
      rw [List.cons_prefix_cons]
      exact fun hpre => hd.1 hpre.1
    rw [List.cons_append, upTo_cons_of_not_prefix hnot, if_pos hu.1, ih hd.2 hu.2, Option.map_map]
    rfl

theorem upTo_eq_some {u v : List Char} (hd : d ∉ u) (hu : ∀ c ∈ u, allowed c) :
    upTo (d :: stop) allowed (u ++ (d :: stop ++ v)) = some u := by
  rw [upTo_append hd hu, upTo_of_prefix (List.prefix_append _ v)]
  simp

/-- What is read stands before the mark. -/
theorem of_upTo {s u : List Char} (h : upTo stop allowed s = some u) :
    (∀ c ∈ u, allowed c) ∧ ∃ v, s = u ++ (stop ++ v) := by
  induction s generalizing u with
  | nil =>
    unfold upTo at h
    split at h
    · rename_i hprefix
      cases h
      obtain ⟨v, hv⟩ := List.isPrefixOf_iff_prefix.mp hprefix
      exact ⟨by simp, v, hv.symm⟩
    · cases h
  | cons c s ih =>
    unfold upTo at h
    split at h
    · rename_i hprefix
      cases h
      obtain ⟨v, hv⟩ := List.isPrefixOf_iff_prefix.mp hprefix
      exact ⟨by simp, v, hv.symm⟩
    · split at h
      · rename_i hallowed
        obtain ⟨rest, hrest, rfl⟩ := Option.map_eq_some_iff.mp h
        obtain ⟨hall, v, rfl⟩ := ih hrest
        exact ⟨List.forall_mem_cons.mpr ⟨hallowed, hall⟩, v, rfl⟩
      · cases h

/-- What follows the mark does not count. -/
theorem upTo_append_of_some {s u : List Char} (h : upTo stop allowed s = some u) (w : List Char) :
    upTo stop allowed (s ++ w) = some u := by
  induction s generalizing u with
  | nil =>
    unfold upTo at h
    split at h
    · rename_i hmark
      cases h
      have hstop : stop <+: [] := List.isPrefixOf_iff_prefix.mp hmark
      exact upTo_of_prefix (hstop.trans (List.prefix_append [] w))
    · cases h
  | cons c s ih =>
    by_cases hmark : stop <+: c :: s
    · have hlong : stop <+: c :: s ++ w := hmark.trans (List.prefix_append _ w)
      have hu : some [] = some u := by
        rw [← h, upTo_of_prefix hmark]
      rw [← hu]
      exact upTo_of_prefix hlong
    · have hstep : (if allowed c then (upTo stop allowed s).map (c :: ·) else none) = some u := by
        rw [← h, upTo_cons_of_not_prefix hmark]
      split at hstep
      · rename_i hallowed
        obtain ⟨rest, hrest, rfl⟩ := Option.map_eq_some_iff.mp hstep
        have hnot : ¬ stop <+: c :: (s ++ w) := by
          intro hlong
          obtain ⟨_, v, hs⟩ := of_upTo hrest
          have hlength : stop.length ≤ (c :: s).length := by
            simp only [hs, List.length_cons, List.length_append]
            omega
          exact hmark (List.prefix_of_prefix_length_le hlong (List.prefix_append (c :: s) w)
            hlength)
        rw [List.cons_append, upTo_cons_of_not_prefix hnot, if_pos hallowed, ih hrest]
        rfl
      · cases hstep

/-- Before a mark of one character this character does not stand. -/
theorem not_mem_of_upTo {s u : List Char} (h : upTo [d] allowed s = some u) : d ∉ u := by
  induction s generalizing u with
  | nil => simp [upTo] at h
  | cons c s ih =>
    by_cases hmark : [d] <+: c :: s
    · have hu : some [] = some u := by
        rw [← h, upTo_of_prefix hmark]
      cases hu
      simp
    · have hstep : (if allowed c then (upTo [d] allowed s).map (c :: ·) else none) = some u := by
        rw [← h, upTo_cons_of_not_prefix hmark]
      split at hstep
      · obtain ⟨rest, hrest, rfl⟩ := Option.map_eq_some_iff.mp hstep
        rw [List.mem_cons, not_or]
        refine ⟨?_, ih hrest⟩
        rintro rfl
        exact hmark (by simp)
      · cases hstep

end UpTo

theorem fieldsChars_of_not_mem {sep : Char} {s : List Char} (h : sep ∉ s) :
    fieldsChars sep s = [s] := by
  induction s with
  | nil => rfl
  | cons c s ih =>
    rw [List.mem_cons, not_or] at h
    rw [fieldsChars, if_neg (Ne.symm h.1), ih h.2]

theorem length_fieldsChars (sep : Char) (s : List Char) :
    (fieldsChars sep s).length = s.count sep + 1 := by
  induction s with
  | nil => rfl
  | cons c s ih =>
    by_cases hc : c = sep
    · simp [fieldsChars, hc, ih]
    · rw [List.count_cons_of_ne hc, ← ih, fieldsChars, if_neg hc]
      cases hfields : fieldsChars sep s with
      | nil => simp [hfields] at ih
      | cons field rest => rfl

/-- The fields before and behind a separator are found apart. -/
theorem fieldsChars_append_sep (sep : Char) (s r : List Char) :
    fieldsChars sep (s ++ sep :: r) = fieldsChars sep s ++ fieldsChars sep r := by
  induction s with
  | nil => simp [fieldsChars]
  | cons c s ih =>
    by_cases hc : c = sep
    · simp [fieldsChars, hc, ih]
    · rw [List.cons_append, fieldsChars, if_neg hc, ih, fieldsChars, if_neg hc]
      cases hfields : fieldsChars sep s with
      | nil => simpa [hfields] using length_fieldsChars sep s
      | cons field rest => rfl

theorem fieldsChars_append {sep : Char} {s : List Char} (h : sep ∉ s) (r : List Char) :
    fieldsChars sep (s ++ sep :: r) = s :: fieldsChars sep r := by
  rw [fieldsChars_append_sep, fieldsChars_of_not_mem h, List.singleton_append]

/-- The fields of a text lie in it, the first one at its start. -/
theorem exists_fieldsChars (sep : Char) (s : List Char) : ∃ field rest,
    fieldsChars sep s = field :: rest ∧ field <+: s ∧ ∀ f ∈ rest, f <:+: s := by
  induction s with
  | nil => exact ⟨[], [], rfl, List.prefix_rfl, by simp⟩
  | cons c r ih =>
    obtain ⟨field, rest, hfields, hfield, hrest⟩ := ih
    have hlater : ∀ f ∈ field :: rest, f <:+: c :: r := by
      intro f hf
      refine List.IsInfix.trans ?_ (List.suffix_cons c r).isInfix
      rcases List.mem_cons.mp hf with rfl | hf
      · exact hfield.isInfix
      · exact hrest f hf
    by_cases hc : c = sep
    · exact ⟨[], field :: rest, by simp [fieldsChars, hc, hfields], List.nil_prefix, hlater⟩
    · exact ⟨c :: field, rest, by simp [fieldsChars, hc, hfields],
        List.cons_prefix_cons.mpr ⟨rfl, hfield⟩, fun f hf => hlater f (List.mem_cons_of_mem _ hf)⟩

theorem infix_of_mem_fieldsChars {sep : Char} {s f : List Char} (h : f ∈ fieldsChars sep s) :
    f <:+: s := by
  obtain ⟨field, rest, hfields, hfield, hrest⟩ := exists_fieldsChars sep s
  rw [hfields] at h
  rcases List.mem_cons.mp h with rfl | h
  · exact hfield.isInfix
  · exact hrest f h

theorem occurs_iff {part s : List Char} : occurs part s ↔ part <:+: s := by
  induction s with
  | nil => simp [occurs]
  | cons c s ih => rw [occurs, List.infix_cons_iff, Bool.or_eq_true, List.isPrefixOf_iff_prefix, ih]

end Declension.Text
