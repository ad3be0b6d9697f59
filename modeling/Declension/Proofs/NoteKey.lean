import Declension.Proofs.Slot
import Declension.Tables
import Mathlib.Tactic.IntervalCases

/-!
# The keys of notes

A note on a form is written under the name of its slot and the place of the form, counted from one.
Main statement: `NoteKey.ofText_form`, by which slot and place are read back from that key.
-/
namespace Declension.NoteKey

theorem head?_toDigits_ne {n : ℕ} (h : 0 < n) : (Nat.toDigits 10 n).head? ≠ some '0' := by
  induction n using Nat.strongRecOn with
  | ind n ih =>
    by_cases hsmall : n < 10
    · rw [Nat.toDigits_of_lt_base hsmall]
      interval_cases n <;> decide
    · have hquotient := ih (n / 10) (by omega) (by omega)
      rw [Nat.toDigits_of_base_le (by decide) (by omega)]
      cases hdigits : Nat.toDigits 10 (n / 10) with
      | nil => exact absurd hdigits Nat.toDigits_ne_nil
      | cons d ds => rwa [hdigits] at hquotient

theorem positive?_toDigits {n : ℕ} (h : 0 < n) : positive? (Nat.toDigits 10 n) = some n := by
  have hhead := head?_toDigits_ne h
  have hall : (Nat.toDigits 10 n).all Char.isDigit :=
    List.all_eq_true.mpr fun c hc => Nat.isDigit_of_mem_toDigits (by decide) (by decide) hc
  have hvalue := Nat.ofDigitChars_ten_toDigits (n := n)
  simp only [Nat.ofDigitChars_eq_foldl, Nat.mul_comm 10] at hvalue
  unfold positive?
  split
  next hdigits => exact absurd hdigits Nat.toDigits_ne_nil
  next rest hdigits => exact absurd (by rw [hdigits]; rfl) hhead
  next => rw [if_pos hall, hvalue]

/-- The name of a slot ends where the digits behind it begin. -/
theorem slot_eq_of_append {s t : Slot} {ds es : List Char} (hds : ds.all Char.isDigit)
    (hes : es.all Char.isDigit) (h : s.name.toList ++ ds = t.name.toList ++ es) : s = t := by
  have hall : (Slot.all.all fun s => s.name.toList.all (!Char.isDigit ·)) = true := by
    decide +kernel
  have hname : ∀ s ∈ Slot.all, ∀ c ∈ s.name.toList, (!c.isDigit) = true := fun s hs =>
    List.all_eq_true.mp (List.all_eq_true.mp hall s hs)
  have htake : ∀ (s : Slot) (ds : List Char), ds.all Char.isDigit →
      (s.name.toList ++ ds).takeWhile (!Char.isDigit ·) = s.name.toList := by
    intro s ds hds
    have hnone : ds.takeWhile (!Char.isDigit ·) = [] := by
      cases ds with
      | nil => rfl
      | cons d ds =>
        have hd : d.isDigit := List.all_eq_true.mp hds d List.mem_cons_self
        rw [List.takeWhile_cons_of_neg (by simpa using hd)]
    rw [List.takeWhile_append_of_pos (hname s s.mem_all), hnone, List.append_nil]
  have hnames := congrArg (List.takeWhile (!Char.isDigit ·)) h
  rw [htake s ds hds, htake t es hes] at hnames
  exact Slot.name_injective (String.toList_injective hnames)

theorem all_isDigit_of_positive? {s : List Char} {n : ℕ} (h : positive? s = some n) :
    s.all Char.isDigit := by
  unfold positive? at h
  split at h
  · cases h
  · cases h
  · split at h
    · assumption
    · cases h

theorem findSome?_eq {α β : Type} {f : α → Option β} {l : List α} {b : β}
    (h : ∀ a ∈ l, ∀ c, f a = some c → c = b) {a : α} (ha : a ∈ l) (hfa : f a = some b) :
    l.findSome? f = some b := by
  cases hfound : l.findSome? f with
  | none =>
    rw [List.findSome?_eq_none_iff.mp hfound a ha] at hfa
    cases hfa
  | some c =>
    obtain ⟨a', ha', hc⟩ := List.exists_of_findSome?_eq_some hfound
    rw [h a' ha' c hc]

theorem ofText_form (slot : Slot) (place : ℕ) :
    ofText (slot.name ++ toString (place + 1)) = form slot place := by
  have hdigits : (Nat.toDigits 10 (place + 1)).all Char.isDigit :=
    all_isDigit_of_positive? (positive?_toDigits (Nat.succ_pos place))
  have htext : (slot.name ++ toString (place + 1)).toList =
      slot.name.toList ++ Nat.toDigits 10 (place + 1) := by
    rw [String.toList_append, Nat.toString_eq_ofList_toDigits, String.toList_ofList]
  unfold ofText
  simp only [Text.startsWith, htext]
  rw [findSome?_eq (b := form slot place) (a := slot)]
  · rfl
  · intro t _ key hkey
    split at hkey
    next hprefix =>
      obtain ⟨rest, hrest⟩ := List.isPrefixOf_iff_prefix.mp hprefix
      rw [← hrest, ← String.length_toList, List.drop_left] at hkey
      obtain ⟨n, hn, rfl⟩ := Option.map_eq_some_iff.mp hkey
      obtain rfl := slot_eq_of_append (all_isDigit_of_positive? hn) hdigits hrest
      rw [List.append_cancel_left hrest, positive?_toDigits (Nat.succ_pos place)] at hn
      rw [← Option.some.inj hn]
      rfl
    next => cases hkey
  · exact slot.mem_all
  · have hprefix : slot.name.toList.isPrefixOf
        (slot.name.toList ++ Nat.toDigits 10 (place + 1)) := by
      rw [List.isPrefixOf_iff_prefix]
      exact List.prefix_append _ _
    rw [if_pos hprefix, ← String.length_toList, List.drop_left,
      positive?_toDigits (Nat.succ_pos place)]
    rfl

end Declension.NoteKey
