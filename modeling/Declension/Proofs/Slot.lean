import Declension.Slot
import Mathlib.Logic.Function.Basic

/-!
# Slots, their names and their numbers

A name tells its slot, and a slot and its mirror lie in different numbers.
-/
namespace Declension

theorem Number.eq_other_iff {k n : Number} : k = n.other ↔ k ≠ n := by
  cases k <;> cases n <;> decide

namespace Slot

theorem ofName?_name (s : Slot) : ofName? s.name = some s := by
  rcases s with ⟨c, n, g⟩ | ⟨n, g⟩
  · cases c <;> cases n <;> rcases g with _ | g <;> try cases g
    all_goals decide
  · cases n <;> rcases g with _ | g <;> try cases g
    all_goals decide

theorem name_injective : Function.Injective name := by
  intro s t h
  have hs := ofName?_name s
  rw [h, ofName?_name t] at hs
  exact (Option.some.inj hs).symm

theorem name_of_ofName? {name : String} {s : Slot} (h : ofName? name = some s) :
    s.name = name := by
  have hfound := List.find?_some h
  simpa using hfound

theorem name_linked (n : Number) (g : Option Gender) :
    (linked n g).name = "linked_" ++ (cell .nom n g).name := by
  cases n <;> rcases g with _ | g <;> try cases g
  all_goals decide

theorem number_mirror_eq_iff {s : Slot} {n : Number} : s.mirror.number = n ↔ s.number ≠ n := by
  rw [number_mirror]
  cases s.number <;> cases n <;> decide

theorem mirror_eq_iff {s t : Slot} : s.mirror = t ↔ t.mirror = s := by
  constructor
  · rintro rfl
    exact mirror_mirror s
  · rintro rfl
    exact mirror_mirror t

theorem nodup_run (isAdj : Bool) : (run isAdj).Nodup := by
  cases isAdj <;> decide

theorem mirror_mem_run {isAdj : Bool} {s : Slot} :
    s.mirror ∈ run isAdj ↔ s ∈ run isAdj := by
  have hmem : ∀ s ∈ run isAdj, s.mirror ∈ run isAdj := by
    cases isAdj <;> decide
  constructor
  · intro h
    have hback := hmem _ h
    rwa [mirror_mirror] at hback
  · exact hmem s

end Slot
end Declension
