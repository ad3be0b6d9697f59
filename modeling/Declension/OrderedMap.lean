/-!
Finite maps that remember the order in which their keys were first given. A key given again keeps
its place and takes the new value.
-/
namespace Declension

structure OrderedMap (κ α : Type) where
  entries : List (κ × α)
  deriving Repr, DecidableEq

namespace OrderedMap
variable {κ α β : Type} [DecidableEq κ]

instance : EmptyCollection (OrderedMap κ α) := ⟨⟨[]⟩⟩

def find (k : κ) : List (κ × α) → Option α
  | [] => none
  | (l, v) :: r => if l = k then some v else find k r

/-- The value under a key. -/
def get? (m : OrderedMap κ α) (k : κ) : Option α := find k m.entries

def contains (m : OrderedMap κ α) (k : κ) : Bool := (m.get? k).isSome

def keys (m : OrderedMap κ α) : List κ := m.entries.map (·.1)

def put (k : κ) (v : α) : List (κ × α) → List (κ × α)
  | [] => [(k, v)]
  | (l, w) :: r => if l = k then (k, v) :: r else (l, w) :: put k v r

/-- Gives a key a value; a new key goes to the end. -/
def insert (m : OrderedMap κ α) (k : κ) (v : α) : OrderedMap κ α := ⟨put k v m.entries⟩

/-- Takes a key out. -/
def erase (m : OrderedMap κ α) (k : κ) : OrderedMap κ α :=
  ⟨m.entries.filter fun (l, _) => l ≠ k⟩

/-- Changes the value under a key, if there is one. -/
def modify (m : OrderedMap κ α) (k : κ) (f : α → α) : OrderedMap κ α :=
  ⟨m.entries.map fun (l, v) => if l = k then (l, f v) else (l, v)⟩

/-- Inserts pairs one after the other. -/
def insertMany (m : OrderedMap κ α) (pairs : List (κ × α)) : OrderedMap κ α :=
  pairs.foldl (fun m (k, v) => m.insert k v) m

def ofList (pairs : List (κ × α)) : OrderedMap κ α :=
  (∅ : OrderedMap κ α).insertMany pairs

omit [DecidableEq κ] in
@[simp] theorem entries_empty : (∅ : OrderedMap κ α).entries = [] := rfl

@[simp] theorem get?_empty (k : κ) : (∅ : OrderedMap κ α).get? k = none := rfl

theorem find_put (k l : κ) (v : α) (m : List (κ × α)) :
    find l (put k v m) = if k = l then some v else find l m := by
  induction m with
  | nil => simp [put, find]
  | cons e r ih =>
    obtain ⟨a, w⟩ := e
    by_cases h : a = k
    · subst h; by_cases hl : a = l <;> simp [put, find, hl]
    · by_cases hl : a = l
      · subst hl; simp [put, find, h, Ne.symm h]
      · simp [put, find, h, hl, ih]

@[simp] theorem get?_insert (m : OrderedMap κ α) (k l : κ) (v : α) :
    (m.insert k v).get? l = if k = l then some v else m.get? l :=
  find_put k l v m.entries

theorem find_map (k l : κ) (f : α → α) (m : List (κ × α)) :
    find l (m.map fun (j, v) => if j = k then (j, f v) else (j, v)) =
      if k = l then (find l m).map f else find l m := by
  induction m with
  | nil => simp [find]
  | cons e r ih =>
    obtain ⟨a, w⟩ := e
    by_cases h : a = k
    · subst h; by_cases hl : a = l <;> simp_all [find]
    · by_cases hl : a = l
      · subst hl; simp [find, h, Ne.symm h]
      · simp [find, h, hl, ih]

@[simp] theorem get?_modify (m : OrderedMap κ α) (k l : κ) (f : α → α) :
    (m.modify k f).get? l = if k = l then (m.get? l).map f else m.get? l :=
  find_map k l f m.entries

theorem find_filter_ne (k l : κ) (m : List (κ × α)) :
    find l (m.filter fun (j, _) => j ≠ k) = if k = l then none else find l m := by
  induction m with
  | nil => simp [find]
  | cons e r ih =>
    obtain ⟨a, w⟩ := e
    by_cases h : a = k
    · subst h; by_cases hl : a = l <;> simp_all [find]
    · by_cases hl : a = l
      · subst hl; simp [find, h, Ne.symm h]
      · simp_all [find]

@[simp] theorem get?_erase (m : OrderedMap κ α) (k l : κ) :
    (m.erase k).get? l = if k = l then none else m.get? l :=
  find_filter_ne k l m.entries

end OrderedMap
end Declension
