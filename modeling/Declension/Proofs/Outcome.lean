import Mathlib.Data.List.Forall2

/-!
# Computations that may fail

How a computation in steps succeeds, and what it can fail with. `FailsOnly P x` bounds the errors
of a computation; a computation put together from steps inherits the bound of its steps. `Agree R`
compares two computations, again step by step.
-/
namespace Declension
variable {ε α β : Type}

theorem bind_eq_ok {x : Except ε α} {f : α → Except ε β} {b : β} :
    (x >>= f) = .ok b ↔ ∃ a, x = .ok a ∧ f a = .ok b := by
  cases x with
  | error e => simp [bind, Except.bind]
  | ok a => simp [bind, Except.bind]

theorem exists_ok_of_isOk {x : Except ε α} (h : x.isOk) : ∃ a, x = .ok a := by
  cases x with
  | error e => cases h
  | ok a => exact ⟨a, rfl⟩

theorem exists_error_of_isOk_eq_false {x : Except ε α} (h : x.isOk = false) :
    ∃ e, x = .error e := by
  cases x with
  | error e => exact ⟨e, rfl⟩
  | ok a => cases h

theorem toOption_bind (x : Except ε α) (f : α → Except ε β) :
    (x >>= f).toOption = x.toOption.bind fun a => (f a).toOption := by
  cases x <;> rfl

/-- Working through a list succeeds just if every step does, with the values of the steps. -/
theorem mapM_eq_ok {f : α → Except ε β} {l : List α} {bs : List β} :
    l.mapM f = .ok bs ↔ List.Forall₂ (fun a b => f a = .ok b) l bs := by
  induction l generalizing bs with
  | nil =>
    rw [List.mapM_nil, List.forall₂_nil_left_iff]
    exact ⟨fun h => (Except.ok.inj h).symm, fun h => h ▸ rfl⟩
  | cons a l ih =>
    rw [List.mapM_cons, bind_eq_ok, List.forall₂_cons_left_iff]
    constructor
    · rintro ⟨b, hb, h⟩
      obtain ⟨rest, hrest, h⟩ := bind_eq_ok.mp h
      exact ⟨b, rest, hb, ih.mp hrest, (Except.ok.inj h).symm⟩
    · rintro ⟨b, rest, hb, hrest, rfl⟩
      exact ⟨b, hb, bind_eq_ok.mpr ⟨rest, ih.mpr hrest, rfl⟩⟩

/-- Copies of one step fail as it does, and yield copies. -/
theorem mapM_replicate (f : α → Except ε β) (a : α) (n : ℕ) :
    (List.replicate (n + 1) a).mapM f = List.replicate (n + 1) <$> f a := by
  cases h : f a with
  | error e =>
    rw [List.replicate_succ, List.mapM_cons, h]
    rfl
  | ok b =>
    refine mapM_eq_ok.mpr ?_
    induction n with
    | zero => exact .cons h .nil
    | succ n ih => exact .cons h ih

/-- What every step of a walk preserves holds behind its last step. -/
theorem foldlM_preserves {P : β → Prop} {g : β → α → Except ε β} {l : List α}
    (hg : ∀ b, ∀ a ∈ l, ∀ b', P b → g b a = .ok b' → P b') {b b' : β} (hb : P b)
    (h : l.foldlM g b = .ok b') : P b' := by
  induction l generalizing b with
  | nil =>
    cases h
    exact hb
  | cons a l ih =>
    rw [List.foldlM_cons] at h
    obtain ⟨c, hc, h⟩ := bind_eq_ok.mp h
    exact ih (fun b x hx => hg b x (List.mem_cons_of_mem a hx)) (hg b a List.mem_cons_self c hb hc)
      h

theorem exists_foldlM {g : β → α → Except ε β} (hg : ∀ b a, ∃ b', g b a = .ok b') (l : List α)
    (b : β) : ∃ b', l.foldlM g b = .ok b' := by
  induction l generalizing b with
  | nil => exact ⟨b, rfl⟩
  | cons a l ih =>
    obtain ⟨c, hc⟩ := hg b a
    obtain ⟨b', hb'⟩ := ih c
    rw [List.foldlM_cons]
    exact ⟨b', bind_eq_ok.mpr ⟨c, hc, hb'⟩⟩

/-- A walk of which the steps have one error, each on a condition of its own. -/
theorem foldlM_eq_error {Q : α → Prop} {e : ε} {g : β → α → Except ε β} {l : List α}
    (h : ∀ a ∈ l, ∀ b f, g b a = .error f ↔ f = e ∧ Q a) {b : β} {f : ε} :
    l.foldlM g b = .error f ↔ f = e ∧ ∃ a ∈ l, Q a := by
  induction l generalizing b with
  | nil => simp [pure, Except.pure]
  | cons a l ih =>
    obtain ⟨ha, hrest⟩ := List.forall_mem_cons.mp h
    rw [List.foldlM_cons, List.exists_mem_cons_iff]
    cases hstep : g b a with
    | error f' =>
      obtain ⟨rfl, hQ⟩ := (ha b f').mp hstep
      exact ⟨fun h => ⟨(Except.error.inj h).symm, .inl hQ⟩, fun h => h.1 ▸ rfl⟩
    | ok c =>
      have hnot : ¬ Q a := by
        intro hQ
        rw [(ha b e).mpr ⟨rfl, hQ⟩] at hstep
        cases hstep
      rw [or_iff_right hnot]
      exact ih hrest

theorem mapM_congr {f g : α → Except ε β} {l : List α} (h : ∀ a ∈ l, f a = g a) :
    l.mapM f = l.mapM g := by
  induction l with
  | nil => rfl
  | cons a l ih =>
    obtain ⟨ha, hrest⟩ := List.forall_mem_cons.mp h
    rw [List.mapM_cons, List.mapM_cons, ha, ih hrest]

/-- Working through a list fails as its first step that fails. -/
theorem mapM_eq_error {f : α → Except ε β} {l : List α} {e : ε} :
    l.mapM f = .error e ↔ ∃ before a after, l = before ++ a :: after ∧
      (∀ b ∈ before, ∃ v, f b = .ok v) ∧ f a = .error e := by
  induction l with
  | nil =>
    constructor
    · intro h
      cases h
    · rintro ⟨before, a, after, h, _⟩
      simp at h
  | cons a l ih =>
    rw [List.mapM_cons]
    cases ha : f a with
    | error e' =>
      constructor
      · intro h
        cases h
        exact ⟨[], a, l, rfl, by simp, ha⟩
      · rintro ⟨before, a', after, hl, hbefore, ha'⟩
        cases before with
        | nil =>
          rw [← (List.cons.inj hl).1, ha] at ha'
          cases ha'
          rfl
        | cons b before =>
          obtain ⟨v, hv⟩ := hbefore b List.mem_cons_self
          rw [← (List.cons.inj hl).1, ha] at hv
          cases hv
    | ok v =>
      have hstep : (l.mapM f >>= fun bs => pure (v :: bs)) = .error e ↔ l.mapM f = .error e := by
        cases l.mapM f <;> simp [bind, Except.bind, pure, Except.pure]
      refine hstep.trans (ih.trans ?_)
      constructor
      · rintro ⟨before, a', after, rfl, hbefore, ha'⟩
        exact ⟨a :: before, a', after, rfl, List.forall_mem_cons.mpr ⟨⟨v, ha⟩, hbefore⟩, ha'⟩
      · rintro ⟨before, a', after, hl, hbefore, ha'⟩
        cases before with
        | nil =>
          rw [← (List.cons.inj hl).1, ha] at ha'
          cases ha'
        | cons b before =>
          exact ⟨before, a', after, (List.cons.inj hl).2,
            fun c hc => hbefore c (List.mem_cons_of_mem b hc), ha'⟩

theorem map_eq_ok {x : Except ε α} {g : α → β} {b : β} :
    g <$> x = .ok b ↔ ∃ a, x = .ok a ∧ g a = b := by
  cases x <;> simp [Functor.map, Except.map]

theorem map_eq_error {x : Except ε α} {g : α → β} {e : ε} :
    g <$> x = .error e ↔ x = .error e := by
  cases x <;> simp [Functor.map, Except.map]

theorem mapM_eq_some {f : α → Option β} {l : List α} {bs : List β} :
    l.mapM f = some bs ↔ List.Forall₂ (fun a b => f a = some b) l bs := by
  induction l generalizing bs with
  | nil =>
    rw [List.mapM_nil, List.forall₂_nil_left_iff]
    exact ⟨fun h => (Option.some.inj h).symm, fun h => h ▸ rfl⟩
  | cons a l ih =>
    rw [List.mapM_cons, List.forall₂_cons_left_iff]
    constructor
    · intro h
      obtain ⟨b, hb, h⟩ := Option.bind_eq_some_iff.mp h
      obtain ⟨rest, hrest, h⟩ := Option.bind_eq_some_iff.mp h
      exact ⟨b, rest, hb, ih.mp hrest, (Option.some.inj h).symm⟩
    · rintro ⟨b, rest, hb, hrest, rfl⟩
      rw [hb, ih.mpr hrest]
      rfl

theorem map_eq_of_forall₂ {γ : Type} {R : α → β → Prop} {f : α → γ} {g : β → γ} {as : List α}
    {bs : List β} (h : List.Forall₂ R as bs) (hR : ∀ a b, R a b → f a = g b) :
    as.map f = bs.map g := by
  induction h with
  | nil => rfl
  | cons hab _ ih => rw [List.map_cons, List.map_cons, hR _ _ hab, ih]

theorem flatMap_eq_of_forall₂ {γ : Type} {R : α → β → Prop} {f : α → List γ} {g : β → List γ}
    {as : List α} {bs : List β} (h : List.Forall₂ R as bs) (hR : ∀ a b, R a b → f a = g b) :
    as.flatMap f = bs.flatMap g := by
  rw [List.flatMap_def, List.flatMap_def, map_eq_of_forall₂ h hR]

theorem all_eq_of_forall₂ {R : α → β → Prop} {f : α → Bool} {g : β → Bool} {as : List α}
    {bs : List β} (h : List.Forall₂ R as bs) (hR : ∀ a b, R a b → f a = g b) :
    as.all f = bs.all g := by
  induction h with
  | nil => rfl
  | cons hab _ ih => rw [List.all_cons, List.all_cons, hR _ _ hab, ih]

theorem any_eq_of_forall₂ {R : α → β → Prop} {f : α → Bool} {g : β → Bool} {as : List α}
    {bs : List β} (h : List.Forall₂ R as bs) (hR : ∀ a b, R a b → f a = g b) :
    as.any f = bs.any g := by
  induction h with
  | nil => rfl
  | cons hab _ ih => rw [List.any_cons, List.any_cons, hR _ _ hab, ih]

theorem exists_mem_of_forall₂ {R : α → β → Prop} {as : List α} {bs : List β} {b : β}
    (h : List.Forall₂ R as bs) (hb : b ∈ bs) : ∃ a ∈ as, R a b := by
  induction h with
  | nil => cases hb
  | cons hab _ ih =>
    rcases List.mem_cons.mp hb with rfl | hb
    · exact ⟨_, List.mem_cons_self, hab⟩
    · obtain ⟨a, ha, hab⟩ := ih hb
      exact ⟨a, List.mem_cons_of_mem _ ha, hab⟩

theorem exists_forall₂ {R : α → β → Prop} {as : List α} (h : ∀ a ∈ as, ∃ b, R a b) :
    ∃ bs, List.Forall₂ R as bs := by
  induction as with
  | nil => exact ⟨[], .nil⟩
  | cons a as ih =>
    obtain ⟨⟨b, hb⟩, hrest⟩ := List.forall_mem_cons.mp h
    obtain ⟨bs, hbs⟩ := ih hrest
    exact ⟨b :: bs, .cons hb hbs⟩

theorem forall_mem_of_forall₂ {R : α → β → Prop} {P : β → Prop} {as : List α} {bs : List β}
    (h : List.Forall₂ R as bs) (hP : ∀ a b, R a b → P b) : ∀ b ∈ bs, P b := by
  intro b hb
  obtain ⟨a, _, hab⟩ := exists_mem_of_forall₂ h hb
  exact hP a b hab

/-- Whatever the computation fails with satisfies `P`. -/
def FailsOnly (P : ε → Prop) (x : Except ε α) : Prop := ∀ f, x = .error f → P f

namespace FailsOnly
variable {P : ε → Prop}

theorem ok (a : α) : FailsOnly P (.ok a : Except ε α) := by
  intro f h
  cases h

theorem error {f : ε} (h : P f) : FailsOnly P (.error f : Except ε α) := by
  intro g hg
  cases hg
  exact h

theorem bind {x : Except ε α} {g : α → Except ε β} (hx : FailsOnly P x)
    (hg : ∀ a, FailsOnly P (g a)) : FailsOnly P (x >>= g) := by
  cases x with
  | error f =>
    intro e he
    cases he
    exact hx f rfl
  | ok a => exact hg a

theorem map {x : Except ε α} (hx : FailsOnly P x) (g : α → β) : FailsOnly P (g <$> x) := by
  cases x with
  | error f =>
    intro e he
    cases he
    exact hx f rfl
  | ok a => exact ok (g a)

theorem mapM {g : α → Except ε β} (hg : ∀ a, FailsOnly P (g a)) (l : List α) :
    FailsOnly P (l.mapM g) := by
  induction l with
  | nil => exact ok []
  | cons a l ih =>
    rw [List.mapM_cons]
    exact bind (hg a) fun b => bind ih fun rest => ok (b :: rest)

theorem foldlM {g : β → α → Except ε β} (hg : ∀ b a, FailsOnly P (g b a)) (l : List α) (b : β) :
    FailsOnly P (l.foldlM g b) := by
  induction l generalizing b with
  | nil => exact ok b
  | cons a l ih =>
    rw [List.foldlM_cons]
    exact bind (hg b a) ih

end FailsOnly

/-- Two computations that fail alike, or both yield something, related by `R`. -/
inductive Agree (R : α → β → Prop) : Except ε α → Except ε β → Prop
  | error (f : ε) : Agree R (.error f) (.error f)
  | ok {a : α} {b : β} : R a b → Agree R (.ok a) (.ok b)

namespace Agree
variable {γ δ : Type} {R : α → β → Prop} {S : γ → δ → Prop}

theorem refl {R : α → α → Prop} (h : ∀ a, R a a) (x : Except ε α) : Agree R x x := by
  cases x with
  | error f => exact .error f
  | ok a => exact .ok (h a)

theorem bind {x : Except ε α} {y : Except ε β} {f : α → Except ε γ} {g : β → Except ε δ}
    (h : Agree R x y) (hfg : ∀ a b, R a b → Agree S (f a) (g b)) :
    Agree S (x >>= f) (y >>= g) := by
  cases h with
  | error e => exact .error e
  | ok hab => exact hfg _ _ hab

theorem toOption {x : Except ε α} {y : Except ε β} (h : Agree R x y) :
    Option.Rel R x.toOption y.toOption := by
  cases h with
  | error e => exact .none
  | ok hab => exact .some hab

theorem mapM {f : α → Except ε γ} {g : β → Except ε δ} {as : List α} {bs : List β}
    (h : List.Forall₂ (fun a b => Agree S (f a) (g b)) as bs) :
    Agree (List.Forall₂ S) (as.mapM f) (bs.mapM g) := by
  induction h with
  | nil => exact .ok .nil
  | cons hab _ ih =>
    rw [List.mapM_cons, List.mapM_cons]
    exact hab.bind fun c d hcd => ih.bind fun cs ds hrest => .ok (.cons hcd hrest)

theorem foldlM {ι : Type} {f : α → ι → Except ε α} {g : β → ι → Except ε β}
    (h : ∀ a b i, R a b → Agree R (f a i) (g b i)) (l : List ι) {a : α} {b : β} (hab : R a b) :
    Agree R (l.foldlM f a) (l.foldlM g b) := by
  induction l generalizing a b with
  | nil => exact .ok hab
  | cons i l ih =>
    rw [List.foldlM_cons, List.foldlM_cons]
    exact (h a b i hab).bind fun _ _ => ih

theorem map_eq {f : α → γ} {g : β → γ} {x : Except ε α} {y : Except ε β}
    (h : Agree (fun a b => f a = g b) x y) : f <$> x = g <$> y := by
  cases h with
  | error e => rfl
  | ok hab => exact congrArg Except.ok hab

theorem mapM_same {f : α → Except ε γ} {g : α → Except ε δ} {as : List α}
    (h : ∀ a ∈ as, Agree S (f a) (g a)) : Agree (List.Forall₂ S) (as.mapM f) (as.mapM g) :=
  .mapM (List.forall₂_same.mpr h)

end Agree

end Declension
