import Declension.Distinct
import Mathlib.Data.List.Basic

/-!
# Lists grown without repetition

What `addNew` adds, in closed form, and its laws: adding in two steps is adding once, and the
places of what is there already do not change.
-/
namespace Declension
variable {α : Type} [DecidableEq α]

/-- The new items are those not there yet, each at its first occurrence. -/
theorem addNew_eq (items more : List α) :
    addNew items more = items ++ (more.filter (· ∉ items)).eraseDups := by
  induction more generalizing items with
  | nil => simp
  | cons a more ih =>
    rw [addNew_cons, ih]
    by_cases ha : a ∈ items
    · simp [ha]
    · have hstep : (more.filter (· ∉ items)).filter (fun b => !b == a) =
          more.filter (· ∉ items ++ [a]) := by
        rw [List.filter_filter]
        apply List.filter_congr
        intro b _
        by_cases hb : b = a <;> simp [hb]
      rw [if_neg ha, List.filter_cons_of_pos (by simpa using ha), List.eraseDups_cons, hstep,
        List.append_assoc]
      rfl

theorem prefix_addNew (items more : List α) : items <+: addNew items more := by
  rw [addNew_eq]
  exact List.prefix_append _ _

theorem addNew_of_subset {items more : List α} (h : more ⊆ items) : addNew items more = items := by
  have hnone : more.filter (· ∉ items) = [] := by
    rw [List.filter_eq_nil_iff]
    intro a ha
    simpa using h ha
  rw [addNew_eq, hnone, List.eraseDups_nil, List.append_nil]

theorem addNew_append (items more rest : List α) :
    addNew items (more ++ rest) = addNew (addNew items more) rest := by
  simp only [addNew, List.foldl_append]

theorem addNew_assoc (items more rest : List α) :
    addNew (addNew items more) rest = addNew items (addNew more rest) := by
  induction rest generalizing more with
  | nil => rfl
  | cons a rest ih =>
    rw [addNew_cons, addNew_cons]
    by_cases ha : a ∈ more
    · have hin : a ∈ addNew items more := by simp [ha]
      rw [if_pos hin, if_pos ha, ih]
    · rw [if_neg ha, ← ih, addNew_append items more [a]]
      rfl

theorem nodup_addNew {items : List α} (h : items.Nodup) (more : List α) :
    (addNew items more).Nodup := by
  induction more generalizing items with
  | nil => exact h
  | cons a more ih =>
    rw [addNew_cons]
    by_cases ha : a ∈ items
    · rw [if_pos ha]
      exact ih h
    · rw [if_neg ha]
      apply ih
      rw [List.nodup_append]
      refine ⟨h, by simp, ?_⟩
      intro b hb c hc he
      rw [List.mem_singleton.mp hc] at he
      exact ha (he ▸ hb)

theorem eraseDups_of_nodup {items : List α} (h : items.Nodup) : items.eraseDups = items := by
  induction items with
  | nil => rfl
  | cons a rest ih =>
    obtain ⟨hnot, hrest⟩ := List.nodup_cons.mp h
    have hkeep : rest.filter (fun b => !b == a) = rest := by
      rw [List.filter_eq_self]
      intro b hb
      have hne : b ≠ a := fun he => hnot (he ▸ hb)
      simpa using hne
    rw [List.eraseDups_cons, hkeep, ih hrest]

theorem addNew_of_nodup (items : List α) {more : List α} (h : more.Nodup) :
    addNew items more = items ++ more.filter (· ∉ items) := by
  rw [addNew_eq, eraseDups_of_nodup (h.filter _)]

/-- New items stay new under a map that keeps items apart. -/
theorem addNew_map {β : Type} [DecidableEq β] {f : α → β} (hf : Function.Injective f)
    (items more : List α) : addNew (items.map f) (more.map f) = (addNew items more).map f := by
  induction more generalizing items with
  | nil => rfl
  | cons a more ih =>
    rw [List.map_cons, addNew_cons, addNew_cons, ← ih]
    by_cases ha : a ∈ items
    · rw [if_pos ha, if_pos (List.mem_map_of_mem ha)]
    · rw [if_neg ha, if_neg (mt (List.mem_map_of_injective hf).mp ha), List.map_append]
      rfl

theorem idxOf_addNew_of_mem {a : α} {items : List α} (h : a ∈ items) (more : List α) :
    (addNew items more).idxOf a = items.idxOf a := by
  rw [addNew_eq]
  exact List.idxOf_append_of_mem h

/-- Nothing is listed twice that was not listed twice at the start. -/
theorem one_lt_count_of_addNew {a : α} {items more : List α}
    (h : 1 < (addNew items more).count a) : 1 < items.count a := by
  induction more generalizing items with
  | nil => exact h
  | cons b more ih =>
    rw [addNew_cons] at h
    by_cases hb : b ∈ items
    · rw [if_pos hb] at h
      exact ih h
    · rw [if_neg hb] at h
      have hcount := ih h
      rw [List.count_append] at hcount
      by_cases hab : b = a
      · have hzero : items.count a = 0 := List.count_eq_zero.mpr (hab ▸ hb)
        have hone : [b].count a = 1 := by simp [hab]
        omega
      · have hzero : [b].count a = 0 := by simp [hab]
        omega

end Declension
