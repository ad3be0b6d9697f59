import Declension.Cell
import Declension.Proofs.OrderedMap

/-!
# Cells as lists of noted forms

A cell keeps its forms and the notes on them apart. Here it is read as one list in which every
form carries its notes. Stringing two cells together is then the product of two lists, so it is
associative and has a unit, and a note can only move together with its form.
-/
namespace Declension

/-- A form with the notes on it. -/
abbrev NotedForm := String × List String

namespace NotedForm

/-- A form behind another one, with the notes of both. -/
def join (x y : NotedForm) : NotedForm := (x.1 ++ y.1, x.2 ++ y.2)

/-- The form of the unit cell. -/
def empty : NotedForm := ("", [])

@[simp] theorem join_empty (x : NotedForm) : x.join empty = x := by
  simp [join, empty]

@[simp] theorem empty_join (x : NotedForm) : empty.join x = x := by
  simp [join, empty]

theorem join_join (x y : NotedForm) : (x.join y).join = x.join ∘ y.join := by
  funext z
  simp only [join, Function.comp_apply, String.append_assoc, List.append_assoc]

/-- Every form of the first list before every form of the second, the second varying faster. -/
def product (xs ys : List NotedForm) : List NotedForm := xs.flatMap fun x => ys.map x.join

@[simp] theorem product_nil_left (ys : List NotedForm) : product [] ys = [] := rfl

theorem product_cons (x : NotedForm) (xs ys : List NotedForm) :
    product (x :: xs) ys = ys.map x.join ++ product xs ys := rfl

@[simp] theorem product_empty_right (xs : List NotedForm) : product xs [empty] = xs := by
  simp [product]

@[simp] theorem product_empty_left (xs : List NotedForm) : product [empty] xs = xs := by
  have h : empty.join = id := funext empty_join
  simp [product, h]

theorem product_assoc (xs ys zs : List NotedForm) :
    product (product xs ys) zs = product xs (product ys zs) := by
  simp only [product, List.flatMap_assoc, List.flatMap_map, List.map_flatMap, List.map_map,
    join_join]

theorem length_product (xs ys : List NotedForm) :
    (product xs ys).length = xs.length * ys.length := by
  simp [product, List.length_flatMap]

/-- The place of a pair: the place in the first list counts whole turns of the second. -/
theorem getElem?_product (xs ys : List NotedForm) (i j : ℕ) (hj : j < ys.length) :
    (product xs ys)[i * ys.length + j]? = xs[i]?.bind fun x => ys[j]?.map x.join := by
  induction xs generalizing i with
  | nil => simp
  | cons x xs ih =>
    rw [product_cons]
    cases i with
    | zero =>
      rw [Nat.zero_mul, Nat.zero_add, List.getElem?_append_left (by simpa using hj)]
      simp
    | succ i =>
      have hle : (ys.map x.join).length ≤ (i + 1) * ys.length + j := by
        rw [List.length_map, Nat.succ_mul]
        omega
      have hsub : (i + 1) * ys.length + j - (ys.map x.join).length = i * ys.length + j := by
        rw [List.length_map, Nat.succ_mul]
        omega
      rw [List.getElem?_append_right hle, hsub, ih]
      simp

end NotedForm

namespace Cell
open NotedForm OrderedMap

/-- The forms of a cell, each with its notes. -/
def noted (c : Cell) : List NotedForm := c.forms.mapIdx fun place form => (form, c.notesAt place)

@[simp] theorem length_noted (c : Cell) : c.noted.length = c.forms.length := by
  simp [noted]

theorem getElem?_noted (c : Cell) (place : ℕ) :
    c.noted[place]? = c.forms[place]?.map fun form => (form, c.notesAt place) := by
  simp [noted]

@[simp] theorem map_fst_noted (c : Cell) : c.noted.map Prod.fst = c.forms := by
  apply List.ext_getElem?
  intro place
  simp [getElem?_noted, Function.comp_def]

@[simp] theorem noted_unit : unit.noted = [NotedForm.empty] := rfl

/-- Notes stored by place: those of the places below `n` that have any, in order. -/
def placed (n : ℕ) (f : ℕ → List String) : List (ℕ × List String) :=
  (List.range n).filterMap fun place =>
    if (f place).isEmpty then none else some (place, f place)

theorem find_placed (n : ℕ) (f : ℕ → List String) (k : ℕ) :
    find k (placed n f) = if k < n ∧ f k ≠ [] then some (f k) else none := by
  rw [placed, find_filterMap_range]
  · by_cases hk : k < n <;> by_cases hf : f k = [] <;> simp [hk, hf]
  · intro p e he
    split at he
    · cases he
    · cases he
      rfl

theorem mem_placed {n : ℕ} {f : ℕ → List String} {place : ℕ} {notes : List String} :
    (place, notes) ∈ placed n f ↔ place < n ∧ f place = notes ∧ notes ≠ [] := by
  simp only [placed, List.mem_filterMap, List.mem_range]
  constructor
  · rintro ⟨p, hp, h⟩
    split at h
    · cases h
    · rename_i hne
      cases h
      exact ⟨hp, rfl, by simpa using hne⟩
  · rintro ⟨hp, rfl, hne⟩
    exact ⟨place, hp, by simp [hne]⟩

theorem placed_congr {n : ℕ} {f g : ℕ → List String} (h : ∀ place < n, f place = g place) :
    placed n f = placed n g := by
  apply List.filterMap_congr
  intro place hp
  rw [h place (List.mem_range.mp hp)]

/-- Notes are stored in the order of their places, only on forms, and never empty. -/
def IsNormal (c : Cell) : Prop := c.notes.entries = placed c.forms.length c.notesAt

theorem IsNormal.get?_notes {c : Cell} (h : c.IsNormal) (place : ℕ) :
    c.notes.get? place =
      if place < c.forms.length ∧ c.notesAt place ≠ [] then some (c.notesAt place) else none := by
  rw [OrderedMap.get?, h, find_placed]

theorem IsNormal.notesAt_of_length_le {c : Cell} (h : c.IsNormal) {place : ℕ}
    (hp : c.forms.length ≤ place) : c.notesAt place = [] := by
  have hnot : ¬ place < c.forms.length := by omega
  rw [notesAt, h.get?_notes]
  simp [hnot]

/-- A normal cell is told by its forms and their notes. -/
theorem IsNormal.ext_noted {a b : Cell} (ha : a.IsNormal) (hb : b.IsNormal)
    (h : a.noted = b.noted) : a = b := by
  have hforms : a.forms = b.forms := by rw [← map_fst_noted a, h, map_fst_noted]
  have hnotes : ∀ place < a.forms.length, a.notesAt place = b.notesAt place := by
    intro place hp
    have hg := congrArg (fun l => l[place]?) h
    have hb' : place < b.forms.length := hforms ▸ hp
    simp only [getElem?_noted, List.getElem?_eq_getElem hp, List.getElem?_eq_getElem hb',
      Option.map_some, Option.some.injEq, Prod.mk.injEq] at hg
    exact hg.2
  have hentries : a.notes.entries = b.notes.entries := by
    rw [ha, hb, ← hforms]
    exact placed_congr hnotes
  obtain ⟨forms, ⟨entries⟩⟩ := a
  obtain ⟨forms', ⟨entries'⟩⟩ := b
  simp only at hforms hentries
  rw [hforms, hentries]

theorem isNormal_unit : unit.IsNormal := rfl

theorem isNormal_blank : blank.IsNormal := rfl

@[simp] theorem length_forms_append (a b : Cell) :
    (a.append b).forms.length = a.forms.length * b.forms.length := by
  simp [append, List.length_flatMap]

theorem entries_append (a b : Cell) :
    (a.append b).notes.entries = placed (a.forms.length * b.forms.length) fun place =>
      a.notesAt (place / b.forms.length) ++ b.notesAt (place % b.forms.length) := rfl

theorem notesAt_append (a b : Cell) {place : ℕ}
    (hp : place < a.forms.length * b.forms.length) :
    (a.append b).notesAt place =
      a.notesAt (place / b.forms.length) ++ b.notesAt (place % b.forms.length) := by
  rw [notesAt, OrderedMap.get?, entries_append, find_placed]
  by_cases hn : a.notesAt (place / b.forms.length) ++ b.notesAt (place % b.forms.length) = []
  · simp only [hn, ne_eq, not_true, and_false, if_false, Option.getD_none]
  · simp only [hp, hn, ne_eq, not_false_iff, and_true, if_true, Option.getD_some]

theorem isNormal_append (a b : Cell) : (a.append b).IsNormal := by
  unfold IsNormal
  rw [entries_append, length_forms_append]
  apply placed_congr
  intro place hp
  exact (notesAt_append a b hp).symm

theorem forms_append_eq_product (a b : Cell) :
    (a.append b).forms = (product a.noted b.noted).map Prod.fst := by
  simp only [append, product, List.map_flatMap, List.map_map, Function.comp_def, join]
  rw [← map_fst_noted a, ← map_fst_noted b, List.flatMap_map]
  simp only [List.map_map, Function.comp_def]

/-- Stringing cells together pairs their noted forms. -/
@[simp] theorem noted_append (a b : Cell) : (a.append b).noted = product a.noted b.noted := by
  apply List.ext_getElem?
  intro k
  by_cases hk : k < a.forms.length * b.forms.length
  · have hb : 0 < b.forms.length := by
      rcases Nat.eq_zero_or_pos b.forms.length with h | h
      · simp [h] at hk
      · exact h
    have hi : k / b.forms.length < a.forms.length := (Nat.div_lt_iff_lt_mul hb).mpr hk
    have hj : k % b.forms.length < b.forms.length := Nat.mod_lt k hb
    have hsplit : k = k / b.forms.length * b.noted.length + k % b.forms.length := by
      rw [length_noted, Nat.mul_comm]
      exact (Nat.div_add_mod k b.forms.length).symm
    have hpair : (product a.noted b.noted)[k]? =
        some (join (a.forms[k / b.forms.length], a.notesAt (k / b.forms.length))
          (b.forms[k % b.forms.length], b.notesAt (k % b.forms.length))) := by
      conv_lhs => rw [hsplit]
      rw [getElem?_product _ _ _ _ (by simpa using hj), getElem?_noted, getElem?_noted,
        List.getElem?_eq_getElem hi, List.getElem?_eq_getElem hj]
      rfl
    rw [getElem?_noted, forms_append_eq_product, List.getElem?_map, hpair, notesAt_append a b hk]
    rfl
  · rw [List.getElem?_eq_none (by simpa using hk),
      List.getElem?_eq_none (by simpa [length_product] using hk)]

theorem append_assoc (a b c : Cell) : (a.append b).append c = a.append (b.append c) := by
  apply (isNormal_append _ _).ext_noted (isNormal_append _ _)
  simp only [noted_append, product_assoc]

theorem IsNormal.append_unit {c : Cell} (h : c.IsNormal) : c.append unit = c := by
  apply (isNormal_append _ _).ext_noted h
  simp

end Cell
end Declension
