import Declension.FormMap
import Declension.Proofs.Links

/-!
# Ligatures and variants in -n

A ligature can be spelt out again, so a text without ligatures of its own is told by its spelling
with them. Neither ligatures nor variants in -n start a link, or open one that was closed.
-/
namespace Declension

namespace Text
variable {old new : List Char}

theorem fixed_eq_some {s found : List Char} {n : ℕ} : fixed old new s = some (found, n) ↔
    (∃ r, s = old ++ r) ∧ found = new ∧ n = old.length := by
  unfold fixed
  split
  · rename_i hprefix
    obtain ⟨r, hr⟩ := List.isPrefixOf_iff_prefix.mp hprefix
    simp only [Option.some.injEq, Prod.mk.injEq]
    exact ⟨fun ⟨hn, hl⟩ => ⟨⟨r, hr.symm⟩, hn.symm, hl.symm⟩, fun ⟨_, hn, hl⟩ => ⟨hn.symm, hl.symm⟩⟩
  · rename_i hprefix
    refine ⟨fun h => (nomatch h), ?_⟩
    rintro ⟨⟨r, rfl⟩, -⟩
    exact absurd (List.isPrefixOf_iff_prefix.mpr (List.prefix_append old r)) hprefix

theorem substitute_old (hold : old ≠ []) (r : List Char) :
    substitute (fixed old new) (old ++ r) = new ++ substitute (fixed old new) r :=
  substitute_append_of_some hold (fixed_eq_some.mpr ⟨⟨r, rfl⟩, rfl, rfl⟩)

/-- The steps in which one text is replaced. -/
theorem fixed_induction (new : List Char) (hold : old ≠ []) {P : List Char → Prop} (nil : P [])
    (char : ∀ c r, fixed old new (c :: r) = none → P r → P (c :: r))
    (hit : ∀ r, P r → P (old ++ r)) (s : List Char) : P s := by
  induction s using substitute_induction (fixed old new) with
  | hfind s found n h =>
    obtain ⟨⟨r, hs⟩, -, hn⟩ := fixed_eq_some.mp h
    exact ⟨old, r, hold, hs, hn⟩
  | nil => exact nil
  | char c r hnone ih => exact char c r hnone ih
  | hit w r found hw h ih =>
    obtain ⟨⟨v, hs⟩, -, hn⟩ := fixed_eq_some.mp h
    obtain ⟨rfl, rfl⟩ := List.append_inj hs hn
    exact hit r ih

theorem flatMap_substitute_fixed {f : Char → List Char} (hold : old ≠ [])
    (h : new.flatMap f = old.flatMap f) (s : List Char) :
    (substitute (fixed old new) s).flatMap f = s.flatMap f := by
  induction s using fixed_induction new hold with
  | nil => rfl
  | char c r hnone ih =>
    rw [substitute_cons_of_none hnone, List.flatMap_cons, List.flatMap_cons, ih]
  | hit r ih => rw [substitute_old hold, List.flatMap_append, List.flatMap_append, ih, h]

theorem isUnended_append {u : List Char} (hu : ']' ∉ u) (r : List Char) :
    isUnended (u ++ r) = isUnended r := by
  induction u with
  | nil => rfl
  | cons c u ih =>
    rw [List.mem_cons, not_or] at hu
    rw [List.cons_append, isUnended, if_neg (Ne.symm hu.1), ih hu.2]

theorem substitute_fixed_eq_nil (hold : old ≠ []) (hnew : new ≠ []) {s : List Char} :
    substitute (fixed old new) s = [] ↔ s = [] := by
  induction s using fixed_induction new hold with
  | nil => simp
  | char c r hnone ih => simp [substitute_cons_of_none hnone]
  | hit r ih => simp [substitute_old hold, hold, hnew]

theorem isUnended_substitute_fixed (hold : old ≠ []) (hnew : new ≠ []) (hfree : ']' ∉ old ++ new)
    (s : List Char) : isUnended (substitute (fixed old new) s) = isUnended s := by
  rw [List.mem_append, not_or] at hfree
  induction s using fixed_induction new hold with
  | nil => rfl
  | char c r hnone ih =>
    rw [substitute_cons_of_none hnone, isUnended, isUnended, ih]
    have hempty : (substitute (fixed old new) r).isEmpty = r.isEmpty := by
      rw [Bool.eq_iff_iff, List.isEmpty_iff, List.isEmpty_iff]
      exact substitute_fixed_eq_nil hold hnew
    rw [hempty]
  | hit r ih => rw [substitute_old hold, isUnended_append hfree.2, isUnended_append hfree.1, ih]

/-- A text that does not start with a bracket does not get one. -/
theorem substitute_fixed_cons (hold : old ≠ []) (hnew : new ≠ []) (hopening : '[' ∉ new) {d : Char}
    (hd : d ≠ '[') (r : List Char) :
    ∃ e v, e ≠ '[' ∧ substitute (fixed old new) (d :: r) = e :: v := by
  cases hfind : fixed old new (d :: r) with
  | none => exact ⟨d, _, hd, substitute_cons_of_none hfind⟩
  | some x =>
    obtain ⟨⟨v, hs⟩, -⟩ := fixed_eq_some.mp hfind
    obtain ⟨e, new, rfl⟩ := List.exists_cons_of_ne_nil hnew
    have he : e ≠ '[' := fun he => hopening (he ▸ List.mem_cons_self)
    exact ⟨e, _, he, by rw [hs, substitute_old hold, List.cons_append]⟩

theorem opensLink_substitute_fixed (hold : old ≠ []) (hnew : new ≠ []) (hopening : '[' ∉ new)
    (hclosing : ']' ∉ old ++ new) {c : Char} {r : List Char} (h : opensLink (c :: r) = false) :
    opensLink (c :: substitute (fixed old new) r) = false := by
  by_cases hc : c = '['
  · subst hc
    rcases r with _ | ⟨d, r⟩
    · cases h
    · by_cases hd : d = '['
      · subst hd
        cases hfind : fixed old new ('[' :: r) with
        | none =>
          rw [substitute_cons_of_none hfind, opensLink,
            isUnended_substitute_fixed hold hnew hclosing]
          exact h
        | some x =>
          obtain ⟨⟨v, hs⟩, -⟩ := fixed_eq_some.mp hfind
          obtain ⟨e, new, rfl⟩ := List.exists_cons_of_ne_nil hnew
          rw [hs, substitute_old hold]
          exact opensLink_of_ne_second (fun he => hopening (he ▸ List.mem_cons_self)) _
      · obtain ⟨e, v, he, hsubstitute⟩ := substitute_fixed_cons hold hnew hopening hd r
        rw [hsubstitute]
        exact opensLink_of_ne_second he v
  · exact opensLink_of_ne hc _

theorem startsLink_substitute_fixed (hold : old ≠ []) (hnew : new ≠ []) (hopening : '[' ∉ new)
    {c : Char} {r : List Char} (h : startsLink (c :: r) = false) :
    startsLink (c :: substitute (fixed old new) r) = false := by
  by_cases hc : c = '['
  · subst hc
    rcases r with _ | ⟨d, r⟩
    · cases h
    · have hd : d ≠ '[' := by
        rintro rfl
        cases h
      obtain ⟨e, v, he, hsubstitute⟩ := substitute_fixed_cons hold hnew hopening hd r
      rw [hsubstitute]
      exact startsLink_of_ne_second he v
  · exact startsLink_of_ne hc _

/-- A text without brackets that is replaced by another one leaves no link open. -/
theorem isClosed_substitute_fixed (hold : old ≠ []) (hnew : new ≠ []) (hopening : '[' ∉ new)
    (hclosing : ']' ∉ old ++ new) {s : List Char} (h : IsClosed s) :
    IsClosed (substitute (fixed old new) s) := by
  induction s using fixed_induction new hold with
  | nil => exact isClosed_nil
  | char c r hnone ih =>
    obtain ⟨hopens, hr⟩ := isClosed_cons.mp h
    rw [substitute_cons_of_none hnone]
    exact isClosed_cons.mpr ⟨opensLink_substitute_fixed hold hnew hopening hclosing hopens, ih hr⟩
  | hit r ih =>
    rw [substitute_old hold]
    exact isClosed_append (isClosed_of_not_mem hopening) (ih (isClosed_of_append h))

theorem isLinkless_substitute_fixed (hold : old ≠ []) (hnew : new ≠ []) (hopening : '[' ∉ new)
    {s : List Char} (h : IsLinkless s) : IsLinkless (substitute (fixed old new) s) := by
  induction s using fixed_induction new hold with
  | nil => exact isLinkless_nil
  | char c r hnone ih =>
    obtain ⟨hstarts, hr⟩ := isLinkless_cons.mp h
    rw [substitute_cons_of_none hnone]
    exact isLinkless_cons.mpr ⟨startsLink_substitute_fixed hold hnew hopening hstarts, ih hr⟩
  | hit r ih =>
    rw [substitute_old hold]
    exact isLinkless_append hopening (ih (isLinkless_of_append h))

/-- The last character does not matter unless it is a bracket. -/
theorem isClosed_concat {c d : Char} (hc' : c ≠ ']') (hd : d ≠ '[') (hd' : d ≠ ']')
    {s : List Char} (h : IsClosed (s ++ [c])) : IsClosed (s ++ [d]) := by
  have hunended : ∀ r, isUnended (r ++ [d]) = isUnended (r ++ [c]) := by
    intro r
    induction r with
    | nil => simp [isUnended, hc', hd']
    | cons e r ih =>
      rw [List.cons_append, List.cons_append, isUnended, isUnended, ih]
      cases r <;> rfl
  induction s with
  | nil => exact isClosed_of_not_mem (by simpa using Ne.symm hd)
  | cons e s ih =>
    rw [List.cons_append] at h ⊢
    obtain ⟨hopens, hs⟩ := isClosed_cons.mp h
    refine isClosed_cons.mpr ⟨?_, ih hs⟩
    by_cases he : e = '['
    · subst he
      rcases s with _ | ⟨f, s⟩
      · exact opensLink_of_ne_second hd _
      · by_cases hf : f = '['
        · subst hf
          rw [List.cons_append, opensLink] at hopens ⊢
          rw [hunended, hopens]
        · exact opensLink_of_ne_second hf _
    · exact opensLink_of_ne he _

theorem isLinkless_concat {c d : Char} (hd : d ≠ '[') {s : List Char}
    (h : IsLinkless (s ++ [c])) : IsLinkless (s ++ [d]) := by
  induction s with
  | nil => exact isLinkless_of_not_mem (by simpa using Ne.symm hd)
  | cons e s ih =>
    rw [List.cons_append] at h ⊢
    obtain ⟨hstarts, hs⟩ := isLinkless_cons.mp h
    refine isLinkless_cons.mpr ⟨?_, ih hs⟩
    by_cases he : e = '['
    · subst he
      rcases s with _ | ⟨f, s⟩
      · exact startsLink_of_ne_second hd _
      · have hf : f ≠ '[' := by
          rintro rfl
          cases hstarts
        exact startsLink_of_ne_second hf _
    · exact startsLink_of_ne he _

end Text

/-- The letters of a ligature. -/
def spellOut (c : Char) : List Char :=
  if c = 'Æ' then ['A', 'e'] else if c = 'Œ' then ['O', 'e']
  else if c = 'æ' then ['a', 'e'] else if c = 'œ' then ['o', 'e'] else [c]

def isLigature (c : Char) : Bool := c ∈ ['Æ', 'Œ', 'æ', 'œ']

theorem spellOut_of_not_isLigature {c : Char} (h : isLigature c = false) : spellOut c = [c] := by
  simp only [isLigature, List.mem_cons, List.not_mem_nil, or_false, decide_eq_false_iff_not,
    not_or] at h
  simp [spellOut, h]

theorem length_flatMap_spellOut (s : List Char) :
    (s.flatMap spellOut).length = s.length + s.countP isLigature := by
  induction s with
  | nil => rfl
  | cons c s ih =>
    have hone : (spellOut c).length = 1 + if isLigature c then 1 else 0 := by
      unfold spellOut
      split_ifs <;> simp_all [isLigature]
    rw [List.flatMap_cons, List.length_append, ih, hone, List.length_cons, List.countP_cons]
    omega

/-- What is kept where two letters are joined is kept by the spelling with ligatures. -/
theorem ligate_preserves {P : String → Prop}
    (h : ∀ pair ∈ ligatures, ∀ form, P form → P (Text.replace pair.1 pair.2 form)) {form : String}
    (hform : P form) : P (ligate form) := by
  unfold ligate
  generalize ligatures = pairs at h ⊢
  induction pairs generalizing form with
  | nil => exact hform
  | cons pair rest ih =>
    obtain ⟨hpair, hrest⟩ := List.forall_mem_cons.mp h
    rw [List.foldl_cons]
    exact ih (hpair form hform) hrest

theorem ligatures_spec : ∀ pair ∈ ligatures, pair.1.toList ≠ [] ∧ pair.2.toList ≠ [] ∧
    '[' ∉ pair.2.toList ∧ ']' ∉ pair.1.toList ++ pair.2.toList ∧
    pair.2.toList.flatMap spellOut = pair.1.toList.flatMap spellOut := by
  decide

theorem flatMap_spellOut_ligate (form : String) :
    (ligate form).toList.flatMap spellOut = form.toList.flatMap spellOut := by
  refine ligate_preserves (P := fun f => f.toList.flatMap spellOut = _) ?_ rfl
  intro pair hpair f hf
  obtain ⟨hold, -, -, -, hspelt⟩ := ligatures_spec pair hpair
  rw [Text.replace, String.toList_ofList, Text.flatMap_substitute_fixed hold hspelt, hf]

theorem isClosed_ligate {form : String} (h : Text.IsClosed form.toList) :
    Text.IsClosed (ligate form).toList := by
  refine ligate_preserves (P := fun f => Text.IsClosed f.toList) ?_ h
  intro pair hpair f hf
  obtain ⟨hold, hnew, hopening, hclosing, -⟩ := ligatures_spec pair hpair
  rw [Text.replace, String.toList_ofList]
  exact Text.isClosed_substitute_fixed hold hnew hopening hclosing hf

theorem isLinkless_ligate {form : String} (h : Text.IsLinkless form.toList) :
    Text.IsLinkless (ligate form).toList := by
  refine ligate_preserves (P := fun f => Text.IsLinkless f.toList) ?_ h
  intro pair hpair f hf
  obtain ⟨hold, hnew, hopening, -⟩ := ligatures_spec pair hpair
  rw [Text.replace, String.toList_ofList]
  exact Text.isLinkless_substitute_fixed hold hnew hopening hf

theorem endsIn_iff {ending form : String} :
    Text.endsIn ending form ↔ ∃ s, form.toList = s ++ ending.toList := by
  unfold Text.endsIn
  rw [List.isSuffixOf_iff_suffix]
  exact ⟨fun ⟨s, hs⟩ => ⟨s, hs.symm⟩, fun ⟨s, hs⟩ => ⟨s, hs.symm⟩⟩

theorem toList_nasal {form : String} {s : List Char} (h : form.toList = s ++ ['m']) :
    (Text.dropEnding "m" form ++ "n").toList = s ++ ['n'] := by
  have hends : Text.endsIn "m" form := endsIn_iff.mpr ⟨s, h⟩
  unfold Text.dropEnding
  rw [if_pos hends, h]
  simp

theorem withNasal_of_not_endsIn {form : String} (h : ¬ Text.endsIn "m" form) :
    withNasal form = [form] :=
  if_neg h

theorem flatMap_withNasal_of_not_any {forms : List String}
    (h : ¬ forms.any (Text.endsIn "m")) : forms.flatMap withNasal = forms := by
  have hsame : ∀ form ∈ forms, withNasal form = [form] := fun form hform =>
    withNasal_of_not_endsIn fun hends => h (List.any_eq_true.mpr ⟨form, hform, hends⟩)
  rw [List.flatMap_congr hsame, List.flatMap_singleton']

theorem mem_withNasal {form variant : String} (h : variant ∈ withNasal form) : variant = form ∨
    ∃ s, form.toList = s ++ ['m'] ∧ variant.toList = s ++ ['n'] := by
  unfold withNasal at h
  split at h
  · rename_i hends
    obtain ⟨s, hs⟩ := endsIn_iff.mp hends
    simp only [List.mem_cons, List.not_mem_nil, or_false] at h
    rcases h with rfl | h
    · exact .inr ⟨s, hs, toList_nasal hs⟩
    · exact .inl h
  · simp only [List.mem_cons, List.not_mem_nil, or_false] at h
    exact .inl h

theorem isLinkless_of_mem_withNasal {form variant : String} (h : Text.IsLinkless form.toList)
    (hvariant : variant ∈ withNasal form) : Text.IsLinkless variant.toList := by
  rcases mem_withNasal hvariant with rfl | ⟨s, hs, hv⟩
  · exact h
  · rw [hs] at h
    rw [hv]
    exact Text.isLinkless_concat (by decide) h

theorem isClosed_of_mem_withNasal {form variant : String} (h : Text.IsClosed form.toList)
    (hvariant : variant ∈ withNasal form) : Text.IsClosed variant.toList := by
  rcases mem_withNasal hvariant with rfl | ⟨s, hs, hv⟩
  · exact h
  · rw [hs] at h
    rw [hv]
    exact Text.isClosed_concat (by decide) (by decide) (by decide) h

end Declension
