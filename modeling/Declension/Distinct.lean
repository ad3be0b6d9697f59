/-!
Lists grown without repetition: what is there already is not added again.
-/
namespace Declension

/-- Adds what is not there yet, in order. -/
def addNew {α : Type} [DecidableEq α] (items more : List α) : List α :=
  more.foldl (fun items a => if a ∈ items then items else items ++ [a]) items

variable {α : Type} [DecidableEq α]

@[simp] theorem addNew_nil (items : List α) : addNew items [] = items := rfl

theorem addNew_cons (items : List α) (a : α) (more : List α) :
    addNew items (a :: more) = addNew (if a ∈ items then items else items ++ [a]) more := rfl

@[simp] theorem mem_addNew {a : α} (items more : List α) :
    a ∈ addNew items more ↔ a ∈ items ∨ a ∈ more := by
  induction more generalizing items with
  | nil => simp
  | cons b more ih =>
    rw [addNew_cons, ih]
    by_cases hb : b ∈ items
    · simp only [hb, if_true, List.mem_cons]
      constructor
      · rintro (h | h) <;> simp [h]
      · rintro (h | rfl | h) <;> simp_all
    · simp only [hb, if_false, List.mem_append, List.mem_cons, List.not_mem_nil, or_false]
      exact or_assoc

end Declension
