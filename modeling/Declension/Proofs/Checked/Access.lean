import Declension.Fault
import Declension.Proofs.NamedSheet
import Declension.Proofs.Outcome

/-!
# Accesses that may go wrong

The types of the library keep a word from filling a slot that does not exist and a list from being
read beyond its end. Here is what can happen without them: a computation may end with a fault of
its own, as elsewhere, or because an access went wrong. `Refines` says that a computation of this
kind ends as one of the library does, so that none of its accesses goes wrong.
-/
namespace Declension

/-- Why a computation whose accesses are checked ends early. -/
inductive Crash where
  | fault (f : Fault)
  /-- An edit that a sheet of forms refuses. -/
  | sheet (f : FormSheet.Fault)
  /-- A key that a map does not have. -/
  | noKey
  /-- A place that a list does not have. -/
  | noItem (place : ℕ)
  /-- Nothing, or a value of another shape, where a value is used. -/
  | wrongShape
  /-- A value that a record does not take. -/
  | invalid (value : String)

namespace Checked
variable {α β γ δ : Type}

/-- A computation of the library among those whose accesses are checked. -/
def liftFault : Except Fault α → Except Crash α
  | .ok a => .ok a
  | .error f => .error (.fault f)

/-- The item at a place of a list. -/
def item (l : List α) (place : ℕ) : Except Crash α :=
  match l[place]? with
  | some a => .ok a
  | none => .error (.noItem place)

/-- The last item of a list. -/
def lastItem (l : List α) : Except Crash α :=
  match l.getLast? with
  | some a => .ok a
  | none => .error (.noItem 0)

/-- The value under a key. -/
def value {κ : Type} [DecidableEq κ] (m : OrderedMap κ α) (key : κ) : Except Crash α :=
  match m.get? key with
  | some a => .ok a
  | none => .error .noKey

/-- A value where there may be none. -/
def present : Option α → Except Crash α
  | some a => .ok a
  | none => .error .wrongShape

/-- The value that a record takes for a name, if it takes one. -/
def valid (ofName? : String → Option α) : Option String → Except Crash (Option α)
  | none => .ok none
  | some name =>
    match ofName? name with
    | some a => .ok (some a)
    | none => .error (.invalid name)

/-- The sheet after an edit. -/
def edit (m : NamedSheet) (s : FormSheet.Step) : Except Crash NamedSheet :=
  match m.step s with
  | (m, .ok _) => .ok m
  | (_, .error f) => .error (.sheet f)

def write (m : NamedSheet) (name : String) (forms : List String) : Except Crash NamedSheet :=
  edit m (.set name (some forms))

theorem item_eq_ok {l : List α} {place : ℕ} {a : α} (h : l[place]? = some a) :
    item l place = .ok a := by
  rw [item, h]

theorem lastItem_append (l : List α) (a : α) : lastItem (l ++ [a]) = .ok a := by
  rw [lastItem, List.getLast?_append_of_ne_nil _ (List.cons_ne_nil a []), List.getLast?_singleton]

theorem value_eq_ok {κ : Type} [DecidableEq κ] {m : OrderedMap κ α} {key : κ} {a : α}
    (h : m.get? key = some a) : value m key = .ok a := by
  rw [value, h]

theorem valid_map {ofName? : String → Option α} {name : α → String}
    (h : ∀ a, ofName? (name a) = some a) (a? : Option α) : valid ofName? (a?.map name) = .ok a? := by
  cases a? with
  | none => rfl
  | some a =>
    rw [Option.map_some, valid, h a]

/-- A computation with checked accesses ends as one of the library does: with a result related to
that of the other, or with the same fault. -/
inductive Refines (R : α → β → Prop) : Except Crash α → Except Fault β → Prop
  | ok {a : α} {b : β} (h : R a b) : Refines R (.ok a) (.ok b)
  | error (f : Fault) : Refines R (.error (.fault f)) (.error f)

namespace Refines
variable {R : α → β → Prop} {S : γ → δ → Prop}

theorem of_eq {x : Except Crash α} {y : Except Fault β} {a : α} {b : β} (hx : x = .ok a)
    (hy : y = .ok b) (h : R a b) : Refines R x y := by
  rw [hx, hy]
  exact .ok h

theorem lift {R : α → α → Prop} (h : ∀ a, R a a) (x : Except Fault α) :
    Refines R (liftFault x) x := by
  cases x with
  | ok a => exact .ok (h a)
  | error f => exact .error f

theorem refl (x : Except Fault α) : Refines Eq (liftFault x) x :=
  lift (fun _ => rfl) x

theorem bind {x : Except Crash α} {y : Except Fault β} {f : α → Except Crash γ}
    {g : β → Except Fault δ} (h : Refines R x y) (hfg : ∀ a b, R a b → Refines S (f a) (g b)) :
    Refines S (x >>= f) (y >>= g) := by
  cases h with
  | ok hab => exact hfg _ _ hab
  | error f => exact .error f

theorem bind_eq {x : Except Crash α} {y : Except Fault α} {f : α → Except Crash γ}
    {g : α → Except Fault δ} (h : Refines Eq x y) (hfg : ∀ a, Refines S (f a) (g a)) :
    Refines S (x >>= f) (y >>= g) := by
  refine h.bind ?_
  rintro a _ rfl
  exact hfg a

theorem mono {R' : α → β → Prop} {x : Except Crash α} {y : Except Fault β} (h : Refines R x y)
    (hR : ∀ a b, y = .ok b → R a b → R' a b) : Refines R' x y := by
  cases h with
  | ok hab => exact .ok (hR _ _ rfl hab)
  | error f => exact .error f

theorem map {x : Except Crash α} {y : Except Fault β} {f : α → γ} {g : β → δ}
    (h : Refines R x y) (hfg : ∀ a b, R a b → S (f a) (g b)) : Refines S (f <$> x) (g <$> y) := by
  cases h with
  | ok hab => exact .ok (hfg _ _ hab)
  | error f => exact .error f

/-- A step that the library does not make may come first, if it goes well. -/
theorem bind_left {x : Except Crash α} {a : α} (h : x = .ok a) {f : α → Except Crash γ}
    {y : Except Fault δ} (hf : Refines S (f a) y) : Refines S (x >>= f) y := by
  rw [h]
  exact hf

/-- Beside its result the library may give more, which is not looked at again. -/
theorem bind_lift {x : Except Crash α} {y : Except Fault β} {g : β → Except Fault γ}
    (h : Refines R x y) :
    Refines (fun ac c => ac.2 = c ∧ ∃ b, R ac.1 b ∧ g b = .ok c)
      (x >>= fun a => liftFault (y >>= g) >>= fun c => .ok (a, c)) (y >>= g) := by
  cases h with
  | @ok a b hab =>
    cases hc : g b with
    | ok c =>
      rw [show ((.ok b : Except Fault β) >>= g) = .ok c from hc]
      exact .ok ⟨rfl, b, hab, hc⟩
    | error f =>
      rw [show ((.ok b : Except Fault β) >>= g) = .error f from hc]
      exact .error f
  | error f => exact .error f

theorem mapM {f : α → Except Crash γ} {g : β → Except Fault δ} {as : List α} {bs : List β}
    (h : List.Forall₂ (fun a b => Refines S (f a) (g b)) as bs) :
    Refines (List.Forall₂ S) (as.mapM f) (bs.mapM g) := by
  induction h with
  | nil => exact .ok .nil
  | cons hab _ ih =>
    rw [List.mapM_cons, List.mapM_cons]
    exact hab.bind fun c d hcd => ih.bind fun cs ds hrest => .ok (.cons hcd hrest)

theorem mapM_eq {f : α → Except Crash γ} {g : α → Except Fault γ}
    (h : ∀ a, Refines Eq (f a) (g a)) (as : List α) : Refines Eq (as.mapM f) (as.mapM g) := by
  refine (mapM (List.forall₂_same.mpr fun a _ => h a)).mono ?_
  intro cs ds _ hcs
  rwa [List.forall₂_eq_eq_eq] at hcs

theorem foldlM {ι κ : Type} {f : α → ι → Except Crash α} {g : β → κ → Except Fault β}
    {is : List ι} {ks : List κ}
    (h : List.Forall₂ (fun i k => ∀ a b, R a b → Refines R (f a i) (g b k)) is ks) {a : α} {b : β}
    (hab : R a b) : Refines R (is.foldlM f a) (ks.foldlM g b) := by
  induction h generalizing a b with
  | nil => exact .ok hab
  | cons hik _ ih =>
    rw [List.foldlM_cons, List.foldlM_cons]
    exact (hik a b hab).bind fun _ _ => ih

/-- A computation that carries along what it has found ends as one that lists it. -/
theorem foldlM_mapM {σ ι : Type} {P : σ → List β → Prop} {f : σ → ι → Except Crash σ}
    {g : ι → Except Fault β}
    (hstep : ∀ st found i, P st found →
      Refines (fun st' b => P st' (found ++ [b])) (f st i) (g i))
    (is : List ι) {st : σ} {found : List β} (h : P st found) :
    Refines (fun st' more => P st' (found ++ more)) (is.foldlM f st) (is.mapM g) := by
  induction is generalizing st found with
  | nil => exact .ok (by rwa [List.reverse_nil, List.append_nil])
  | cons i is ih =>
    rw [List.foldlM_cons, List.mapM_cons]
    refine (hstep st found i h).bind fun st' b hst' => ?_
    have hrest := (ih hst').map (f := id) (g := (b :: ·))
      (S := fun st'' more => P st'' (found ++ more)) fun st'' more hst'' => by
        rwa [List.append_assoc] at hst''
    rw [id_map] at hrest
    exact hrest

theorem exists_of_ok {x : Except Crash α} {b : β} (h : Refines R x (.ok b)) :
    ∃ a, x = .ok a ∧ R a b := by
  cases h with
  | ok hab => exact ⟨_, rfl, hab⟩

theorem eq_error {x : Except Crash α} {f : Fault} (h : Refines R x (.error f)) :
    x = .error (.fault f) := by
  cases h
  rfl

/-- Such a computation fails only with a fault. -/
theorem eq_fault {x : Except Crash α} {y : Except Fault β} (h : Refines R x y) {c : Crash}
    (hc : x = .error c) : ∃ f, c = .fault f ∧ y = .error f := by
  cases h with
  | ok hab => cases hc
  | error f => exact ⟨f, (Except.error.inj hc).symm, rfl⟩

end Refines

/-- The forms of slots on a sheet kept under names. -/
def sheet (m : FormMap) : NamedSheet := (FormSheet.ofMap m).byName

/-- Rows of slots under the names of the slots. -/
def names (rows : List (Slot × α)) : List (String × α) :=
  rows.map fun row => (row.1.name, row.2)

theorem names_append (rows more : List (Slot × α)) :
    names (rows ++ more) = names rows ++ names more :=
  List.map_append

theorem get?_sheet (m : FormMap) (slot : Slot) :
    (sheet m).get? slot.name = (m.get? slot).map some := by
  rw [sheet, FormSheet.get?_byName, FormSheet.get?_ofMap]

theorem join_get?_sheet (m : FormMap) (slot : Slot) :
    ((sheet m).get? slot.name).join = m.get? slot := by
  rw [get?_sheet]
  cases m.get? slot <;> rfl

theorem write_sheet (m : FormMap) (slot : Slot) (forms : List String) :
    write (sheet m) slot.name forms = .ok (sheet (m.insert slot forms)) := by
  have hset : (sheet m).set slot.name (some forms) = (sheet (m.insert slot forms), .ok none) := by
    rw [sheet, sheet, FormSheet.set_name_byName, FormSheet.ofMap_insert]
  rw [write, edit, NamedSheet.step, hset]

theorem keys_ofMap (m : FormMap) : (FormSheet.ofMap m).keys = m.keys := by
  simp [FormSheet.ofMap, OrderedMap.mapValues, OrderedMap.keys, Function.comp_def]

/-- A pass over the slots of a sheet comes out by names as it does by slots. -/
theorem edit_sheet {m m' : FormMap} (h : m.keys.Nodup) {s : FormSheet.Step}
    {r : Option (List String)} (hs : (FormSheet.ofMap m).step s = (FormSheet.ofMap m', .ok r)) :
    edit (sheet m) s = .ok (sheet m') := by
  rw [← keys_ofMap] at h
  rw [edit, sheet, FormSheet.step_byName h, hs]
  rfl

/-- A pass gives no slot a second entry. -/
theorem nodup_of_step {m m' : FormMap} (h : m.keys.Nodup) {s : FormSheet.Step}
    {r : Option (List String)} (hs : (FormSheet.ofMap m).step s = (FormSheet.ofMap m', .ok r)) :
    m'.keys.Nodup := by
  rw [← keys_ofMap] at h ⊢
  have hkept := FormSheet.nodup_keys_step h s
  rwa [hs] at hkept

/-- Writes rows one after the other. -/
def fill (m : NamedSheet) (rows : List (String × List String)) : Except Crash NamedSheet :=
  rows.foldlM (fun m row => write m row.1 row.2) m

theorem fill_sheet (m : FormMap) (rows : List (Slot × List String)) :
    fill (sheet m) (names rows) = .ok (sheet (m.insertMany rows)) := by
  induction rows generalizing m with
  | nil => rfl
  | cons row rows ih =>
    have hrest := ih (m.insert row.1 row.2)
    rw [fill, names, List.map_cons, List.foldlM_cons, write_sheet]
    exact hrest

end Checked
end Declension
