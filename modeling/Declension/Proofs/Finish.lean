import Declension.Proofs.NumberMirror

/-!
# The passes over the forms of a word, slot by slot

Before a word enters its run, its nominatives are written with links, its forms are spelt with
ligatures and given their variants in -n, and a word of one number has this copied onto the other.
Every slot of the run goes through the middle two passes form by form: what a form becomes does not
depend on its slot, nor on the other forms there.
-/
namespace Declension

namespace Slot

theorem isLinked_agreeing (g : Gender) (s : Slot) : (s.agreeing g).isLinked = s.isLinked := by
  cases s <;> rfl

theorem number_isLinked_of_masculine? {s t : Slot} (ht : s.masculine? = some t) :
    t.number = s.number ∧ t.isLinked = s.isLinked := by
  rcases s with ⟨c, n, g⟩ | ⟨n, g⟩
  all_goals
    rcases g with _ | g
    · cases ht
    · cases g <;> cases ht <;> exact ⟨rfl, rfl⟩

theorem mem_run_of_masculine? {s t : Slot} (hs : s ∈ run true) (ht : s.masculine? = some t) :
    t ∈ run true := by
  have hall : ∀ s ∈ run true, s.masculine?.all (· ∈ run true) := by decide
  simpa [ht] using hall s hs

end Slot

namespace FormMap

theorem get?_foldl_modify (f : List String → List String) {slots : List Slot} (h : slots.Nodup)
    (m : FormMap) (slot : Slot) :
    (slots.foldl (fun m s => m.modify s f) m).get? slot =
      if slot ∈ slots then (m.get? slot).map f else m.get? slot := by
  rw [OrderedMap.foldl_modify_eq f h, OrderedMap.get?_mapWithKey]
  by_cases hslot : slot ∈ slots <;> simp [hslot]

theorem get?_ligate (isAdj : Bool) (m : FormMap) (slot : Slot) : (m.ligate isAdj).get? slot =
    if slot ∈ Slot.run isAdj then (m.get? slot).map (·.map Declension.ligate)
    else m.get? slot :=
  get?_foldl_modify _ (Slot.nodup_run isAdj) m slot

theorem get?_addNasals (isAdj : Bool) (m : FormMap) (slot : Slot) :
    (m.addNasals isAdj).get? slot =
      if slot ∈ Slot.run isAdj then (m.get? slot).map (·.flatMap withNasal)
      else m.get? slot :=
  get?_foldl_modify _ (Slot.nodup_run isAdj) m slot

end FormMap

namespace Segment
variable {s : Segment} {isAdj : Bool} {num : Option NumberUse} {gender : Option Gender}
  {m : FormMap} {slot : Slot}

/-- The lemma takes its links; any other form has none. -/
def relink (s : Segment) (form : String) : String :=
  if form = s.word then s.linkedWord else form

theorem get?_foldl_relink (s : Segment) (slots : List (Number × Option Gender)) (m : FormMap) :
    (∀ c n g, (slots.foldl (fun m (n, g) =>
        match m.get? (.cell .nom n g) with
        | some forms => m.insert (.linked n g) (forms.map s.relink)
        | none => m) m).get? (.cell c n g) = m.get? (.cell c n g)) ∧
      ∀ n g, (slots.foldl (fun m (n, g) =>
        match m.get? (.cell .nom n g) with
        | some forms => m.insert (.linked n g) (forms.map s.relink)
        | none => m) m).get? (.linked n g) =
          if (n, g) ∈ slots ∧ m.contains (.cell .nom n g) then
            (m.get? (.cell .nom n g)).map (·.map s.relink)
          else m.get? (.linked n g) := by
  induction slots generalizing m with
  | nil => simp
  | cons entry slots ih =>
    obtain ⟨k, x⟩ := entry
    rw [List.foldl_cons]
    cases hforms : m.get? (.cell .nom k x) with
    | none =>
      simp only [hforms]
      refine ⟨(ih m).1, ?_⟩
      intro n g
      rw [(ih m).2 n g]
      by_cases hentry : (n, g) = (k, x)
      · cases hentry
        simp [OrderedMap.contains, hforms]
      · simp [hentry]
    | some forms =>
      simp only [hforms]
      obtain ⟨hplain, hlinked⟩ := ih (m.insert (.linked k x) (forms.map s.relink))
      constructor
      · intro c n g
        rw [hplain, OrderedMap.get?_insert, if_neg (by simp)]
      · intro n g
        rw [hlinked]
        simp only [OrderedMap.contains, OrderedMap.get?_insert, Slot.linked.injEq, reduceCtorEq,
          if_false]
        by_cases hentry : k = n ∧ x = g
        · obtain ⟨rfl, rfl⟩ := hentry
          simp [hforms]
        · have hne : ¬ (n = k ∧ g = x) := fun h => hentry ⟨h.1.symm, h.2.symm⟩
          simp [hentry, hne]

theorem get?_addLinked_cell (s : Segment) (m : FormMap) (c : Case) (n : Number)
    (g : Option Gender) : (s.addLinked m).get? (.cell c n g) = m.get? (.cell c n g) :=
  (get?_foldl_relink s (Slot.lemmaSlots s.isAdj) m).1 c n g

theorem get?_addLinked_linked (s : Segment) {m : FormMap} {n : Number} {g : Option Gender}
    (h : (n, g) ∈ Slot.lemmaSlots s.isAdj) (hempty : m.get? (.linked n g) = none) :
    (s.addLinked m).get? (.linked n g) = (m.get? (.cell .nom n g)).map (·.map s.relink) := by
  refine ((get?_foldl_relink s (Slot.lemmaSlots s.isAdj) m).2 n g).trans ?_
  cases hforms : m.get? (.cell .nom n g) with
  | none => simp [OrderedMap.contains, hforms, hempty]
  | some forms => simp [OrderedMap.contains, hforms, h]

/-- A form in the spelling of the word. -/
def spell (s : Segment) (form : String) : String :=
  if s.tags.has .lig then ligate form else form

/-- What a form of the word is turned into: itself in its spelling, behind its variant in -n. -/
def variants (s : Segment) (form : String) : List String :=
  if s.tags.has .sufn then withNasal (s.spell form) else [s.spell form]

theorem variants_ne_nil (s : Segment) (form : String) : s.variants form ≠ [] := by
  unfold variants withNasal
  split
  · split <;> simp
  · simp

theorem variants_of_plain (hlig : s.tags.has .lig = false) (hsufn : s.tags.has .sufn = false) :
    s.variants = fun form => [form] := by
  funext form
  simp [variants, spell, hlig, hsufn]

/-- The forms of a word before one number is copied onto the other. -/
def rework (s : Segment) (m : FormMap) : FormMap :=
  let m := s.addLinked m
  let m := if s.tags.has .lig then m.ligate s.isAdj else m
  if s.tags.has .sufn then m.addNasals s.isAdj else m

theorem finish_eq (s : Segment) (num : Option NumberUse) (m : FormMap) :
    s.finish num m = mirrorOnly s.isAdj num (s.rework m) := rfl

theorem get?_rework (h : slot ∈ Slot.run s.isAdj) :
    (s.rework m).get? slot = ((s.addLinked m).get? slot).map (·.flatMap s.variants) := by
  have hspell : (if s.tags.has .lig then (s.addLinked m).ligate s.isAdj
      else s.addLinked m).get? slot = ((s.addLinked m).get? slot).map (·.map s.spell) := by
    unfold spell
    split
    · rw [FormMap.get?_ligate, if_pos h]
    · simp
  unfold rework variants
  dsimp only
  split
  · rw [FormMap.get?_addNasals, if_pos h, hspell, Option.map_map]
    simp only [Function.comp_def, List.flatMap_map]
  · simp only [hspell, List.map_eq_flatMap]

theorem get?_rework_of_not_mem (h : slot ∉ Slot.run s.isAdj) :
    (s.rework m).get? slot = (s.addLinked m).get? slot := by
  unfold rework
  cases s.tags.has .lig <;> cases s.tags.has .sufn <;>
    simp [FormMap.get?_ligate, FormMap.get?_addNasals, h]

theorem get?_mirrorOnly (h : ∀ n, num.bind NumberUse.only? = some n → slot.number = n) :
    (mirrorOnly isAdj num m).get? slot = m.get? slot := by
  unfold mirrorOnly
  cases hnum : num.bind NumberUse.only? with
  | none => rfl
  | some n =>
    rw [FormMap.get?_mirrorNumber, if_neg]
    rw [h n hnum]
    exact fun hboth => hboth.1 rfl

/-- What the agreeing slots and the masculine share with a slot, the slot that is read shares. -/
theorem source_eq_of_agreeing {α : Type} (f : Slot → α) (s : Segment) (isAdj : Bool)
    (gender : Option Gender) (m : FormMap) (slot : Slot)
    (hagreeing : ∀ g, f (slot.agreeing g) = f slot)
    (hmasculine : ∀ t, slot.masculine? = some t → f t = f slot) :
    f (s.source isAdj gender m slot) = f slot := by
  unfold source
  split
  · cases ht : slot.masculine? with
    | none => rfl
    | some t =>
      dsimp only
      split
      · rfl
      · exact hmasculine t ht
  · split
    · split <;> exact hagreeing _
    · rfl

theorem number_source (s : Segment) (isAdj : Bool) (gender : Option Gender) (m : FormMap)
    (slot : Slot) : (s.source isAdj gender m slot).number = slot.number := by
  apply source_eq_of_agreeing Slot.number
  · intro g
    cases slot <;> rfl
  · exact fun t ht => (Slot.number_isLinked_of_masculine? ht).1

theorem isLinked_source (s : Segment) (isAdj : Bool) (gender : Option Gender) (m : FormMap)
    (slot : Slot) : (s.source isAdj gender m slot).isLinked = slot.isLinked := by
  apply source_eq_of_agreeing Slot.isLinked
  · exact fun g => Slot.isLinked_agreeing g slot
  · exact fun t ht => (Slot.number_isLinked_of_masculine? ht).2

theorem forms_finish (h : slot ∈ Slot.run s.isAdj) (hplain : slot.isLinked = false)
    (hnumber : ∀ n, num.bind NumberUse.only? = some n → slot.number = n) :
    (s.finish num m).forms slot = (m.forms slot).flatMap s.variants := by
  cases slot with
  | linked n g => cases hplain
  | cell c n g =>
    unfold FormMap.forms
    rw [finish_eq, get?_mirrorOnly hnumber, get?_rework h, get?_addLinked_cell]
    cases m.get? (.cell c n g) <;> rfl

/-- The number and gender a word has in its run: its own, else those of the run. -/
def numberIn (s : Segment) (run : Summary) : Option NumberUse :=
  s.num.map NumberUse.ofNumber <|> run.num

def genderIn (s : Segment) (run : Summary) : Option Gender := s.gender <|> run.gender

/-- What a word declines to in its run. -/
def paradigmIn (e : Engine) (pos : String) (isAdj : Bool) (run : Summary) (s : Segment) :
    Except Fault Paradigm :=
  s.paradigm e (s.lexeme pos isAdj (s.numberIn run) (s.genderIn run) run.loc)

/-- The slot of the word that fills a slot of its run. -/
def readAt (s : Segment) (isAdj : Bool) (run : Summary) (p : Paradigm) (slot : Slot) : Slot :=
  s.source isAdj (s.genderIn run) (s.finish (s.numberIn run) p.forms) slot

theorem forms_contribution (s : Segment) (isAdj : Bool) (run : Summary) (p : Paradigm)
    (slot : Slot) :
    ((s.contribution isAdj (s.numberIn run) (s.genderIn run) p).cell slot).forms =
      ((s.finish (s.numberIn run) p.forms).forms (s.readAt isAdj run p slot)).map
        ((if slot.isLinked then s.linkedLead else s.lead) ++ ·) := rfl

theorem readAt_mem_run {run : Summary} {p : Paradigm}
    (hfit : s.misfit? isAdj (s.genderIn run) = none) (hslot : slot ∈ Slot.run isAdj)
    (hplain : slot.isLinked = false) : s.readAt isAdj run p slot ∈ Slot.run s.isAdj := by
  have hadjective : ∀ {t : Slot} {g : Gender}, t ∈ Slot.run false → t.isLinked = false →
      t.agreeing g ∈ Slot.run true := fun ht hplain =>
    Slot.agreeing_mem_run ht (.inr (by rw [Slot.isLinked_agreeing, hplain]))
  unfold readAt source
  unfold misfit? at hfit
  cases isAdj with
  | true =>
    have hadj : s.isAdj = true := by
      by_contra hnoun
      simp [hnoun] at hfit
    rw [hadj]
    simp only [if_true]
    cases hmasculine : slot.masculine? with
    | none => exact hslot
    | some t =>
      dsimp only
      split
      · exact hslot
      · exact Slot.mem_run_of_masculine? hslot hmasculine
  | false =>
    simp only [Bool.false_eq_true, if_false]
    cases hadj : s.isAdj with
    | false => exact hslot
    | true =>
      cases hgender : s.genderIn run with
      | none => simp [hadj, hgender] at hfit
      | some g =>
        dsimp only
        split
        · exact hadjective hslot hplain
        · exact hadjective hslot hplain

end Segment

/-- A run of one word is what the word gives to it. -/
theorem Run.compose_word {e : Engine} {pos : String} {isAdj : Bool} {r : Run} {s : Segment}
    {c : Composition} (hword : r.nodes = [.piece (.word s)]) :
    r.compose e pos isAdj = .ok c ↔ ∃ p, s.paradigmIn e pos isAdj r.summary = .ok p ∧
      s.misfit? isAdj (s.genderIn r.summary) = none ∧
      Composition.unit.append (s.contribution isAdj (s.numberIn r.summary) (s.genderIn r.summary)
        p) = c := by
  rw [compose_eq_ok, hword]
  constructor
  · rintro ⟨parts, hparts, rfl⟩
    cases hparts with
    | cons hpart hrest =>
      cases hrest
      obtain ⟨p, hp, hfit, rfl⟩ := Segment.compose_eq_ok.mp hpart
      exact ⟨p, hp, hfit, rfl⟩
  · rintro ⟨p, hp, hfit, rfl⟩
    exact ⟨_, .cons (Segment.compose_eq_ok.mpr ⟨p, hp, hfit, rfl⟩) .nil, rfl⟩

end Declension
