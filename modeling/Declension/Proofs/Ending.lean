import Declension.Paradigm
import Declension.Proofs.OrderedMap
import Declension.Proofs.Outcome

/-!
# Endings

What an ending says of the words that have it. Main statements: `Ending.eq_append_of_base?`, by
which an ending that is spelled out is what follows the base, and `Atom.mem_words`, by which a shape
without a span is that of finitely many texts.
-/
namespace Declension

namespace Text

/-- A line is what stands before an ending, and the ending. -/
theorem before_eq_some_iff {ending s front : String} : before ending s = some front ↔
    line s.toList = front.toList ++ ending.toList ∧ '\n' ∉ front.toList := by
  have htake : ∀ chars, (chars ++ ending.toList).take
      ((chars ++ ending.toList).length - ending.toList.length) = chars := fun chars => by
    simp
  simp only [before, beforeChars, Option.map_eq_some_iff, Option.ite_none_right_eq_some,
    Option.some.injEq]
  constructor
  · rintro ⟨_, ⟨⟨hends, hbreak⟩, rfl⟩, rfl⟩
    obtain ⟨chars, hchars⟩ := List.isSuffixOf_iff_suffix.mp hends
    rw [← hchars, htake] at hbreak ⊢
    exact ⟨by rw [String.toList_ofList], by rwa [String.toList_ofList]⟩
  · rintro ⟨hbody, hbreak⟩
    rw [hbody, htake]
    exact ⟨_, ⟨⟨List.isSuffixOf_iff_suffix.mpr (List.suffix_append _ _), hbreak⟩, rfl⟩,
      String.ofList_toList⟩

theorem line_eq_self {s : List Char} (h : '\n' ∉ s) : line s = s :=
  if_neg fun hlast => h (List.mem_of_getLast? hlast)

theorem eq_append_of_before {ending s front : String} (hline : '\n' ∉ s.toList)
    (h : before ending s = some front) : s = front ++ ending := by
  obtain ⟨hbody, _⟩ := before_eq_some_iff.mp h
  rw [← String.toList_inj, ← line_eq_self hline, hbody, String.toList_append]

theorem isSuffix_line_of_before {ending s front : String} (h : before ending s = some front) :
    ending.toList <:+ line s.toList := by
  rw [(before_eq_some_iff.mp h).1]
  exact List.suffix_append _ _

theorem before_eq_none {a b s front : String} (h : before a s = some front)
    (hab : ¬ a.toList <:+ b.toList) (hba : ¬ b.toList <:+ a.toList) : before b s = none := by
  cases hb : before b s with
  | none => rfl
  | some other =>
    have hsuffix := List.suffix_or_suffix_of_suffix (isSuffix_line_of_before h)
      (isSuffix_line_of_before hb)
    exact absurd hsuffix (not_or.mpr ⟨hab, hba⟩)

end Text

namespace Atom

theorem fits_nil {s : List Char} : fits [] s ↔ s = [] :=
  List.isEmpty_iff

theorem fits_one {c d : Char} {rest : List Atom} {s : List Char} :
    fits (one c :: rest) (d :: s) ↔ c = d ∧ fits rest s := by
  have h : fits (one c :: rest) (d :: s) = (decide (c = d) && fits rest s) := rfl
  rw [h, Bool.and_eq_true, decide_eq_true_eq]

theorem fits_oneOf {ranges : List (Char × Char)} {d : Char} {rest : List Atom} {s : List Char} :
    fits (oneOf ranges :: rest) (d :: s) ↔
      (∃ range ∈ ranges, range.1 ≤ d ∧ d ≤ range.2) ∧ fits rest s := by
  have h : fits (oneOf ranges :: rest) (d :: s) =
      (ranges.any (fun range => decide (range.1 ≤ d) && decide (d ≤ range.2)) &&
        fits rest s) := rfl
  rw [h, Bool.and_eq_true, List.any_eq_true]
  simp only [Bool.and_eq_true, decide_eq_true_eq]

theorem fits_maybe {c : Char} {rest : List Atom} {s : List Char} :
    fits (maybe c :: rest) s ↔ fits rest s ∨ ∃ r, s = c :: r ∧ fits rest r := by
  cases s with
  | nil =>
    have h : fits (maybe c :: rest) [] = (fits rest [] || false) := rfl
    simp [h]
  | cons d s =>
    have h : fits (maybe c :: rest) (d :: s) =
        (fits rest (d :: s) || (decide (c = d) && fits rest s)) := rfl
    rw [h, Bool.or_eq_true, Bool.and_eq_true, decide_eq_true_eq]
    refine or_congr_right ⟨?_, ?_⟩
    · rintro ⟨rfl, hfits⟩
      exact ⟨s, rfl, hfits⟩
    · rintro ⟨r, hr, hfits⟩
      cases hr
      exact ⟨rfl, hfits⟩

theorem someEnd_iff {test : List Char → Bool} {s : List Char} : someEnd test s ↔
    ∃ front back, s = front ++ back ∧ '\n' ∉ front ∧ test back := by
  induction s with
  | nil =>
    constructor
    · exact fun h => ⟨[], [], rfl, List.not_mem_nil, h⟩
    · rintro ⟨front, back, hs, _, h⟩
      obtain ⟨rfl, rfl⟩ := List.append_eq_nil_iff.mp hs.symm
      exact h
  | cons c s ih =>
    have hstep : someEnd test (c :: s) = (test (c :: s) || (c ≠ '\n' && someEnd test s)) := rfl
    rw [hstep, Bool.or_eq_true, Bool.and_eq_true, decide_eq_true_eq, ih]
    constructor
    · rintro (h | ⟨hc, front, back, rfl, hfront, h⟩)
      · exact ⟨[], c :: s, rfl, List.not_mem_nil, h⟩
      · exact ⟨c :: front, back, rfl, by simp [hfront, hc.symm], h⟩
    · rintro ⟨front, back, hs, hfront, h⟩
      cases front with
      | nil => exact .inl (hs ▸ h)
      | cons d front =>
        obtain ⟨rfl, rfl⟩ := List.cons.inj hs
        obtain ⟨hc, hfront⟩ := not_or.mp (mt List.mem_cons.mpr hfront)
        exact .inr ⟨Ne.symm hc, front, back, rfl, hfront, h⟩

theorem fits_span {rest : List Atom} {s : List Char} : fits (span :: rest) s ↔
    ∃ front back, s = front ++ back ∧ '\n' ∉ front ∧ fits rest back := by
  have h : fits (span :: rest) s = someEnd (fits rest) s := by cases s <;> rfl
  rw [h, someEnd_iff]

/-- The one character that an atom stands for. -/
def char? : Atom → Option Char
  | one c => some c
  | _ => none

/-- A text that fits atoms which are all spelled out is their spelling. -/
theorem fits_iff_eq {atoms : List Atom} {spelling s : List Char}
    (hspelling : atoms.mapM char? = some spelling) : fits atoms s ↔ s = spelling := by
  induction atoms generalizing spelling s with
  | nil =>
    cases hspelling
    exact fits_nil
  | cons atom atoms ih =>
    rw [mapM_eq_some, List.forall₂_cons_left_iff] at hspelling
    obtain ⟨c, rest, hc, hrest, rfl⟩ := hspelling
    cases atom with
    | one c' =>
      cases hc
      cases s with
      | nil => exact iff_of_false Bool.false_ne_true (List.cons_ne_nil _ _).symm
      | cons d s => rw [fits_one, ih (mapM_eq_some.mpr hrest), List.cons.injEq, eq_comm]
    | oneOf => cases hc
    | maybe => cases hc
    | span => cases hc

/-- The texts that have the shape of a list of atoms, if the atoms tell every character. -/
def words : List Atom → Option (List (List Char))
  | [] => some [[]]
  | one c :: rest => (words rest).map (·.map (c :: ·))
  | oneOf ranges :: rest =>
    if ranges.all fun (a, b) => a = b then
      (words rest).map fun ws => ranges.flatMap fun (a, _) => ws.map (a :: ·)
    else none
  | maybe c :: rest => (words rest).map fun ws => ws ++ ws.map (c :: ·)
  | span :: _ => none

theorem mem_words {atoms : List Atom} {ws : List (List Char)} {s : List Char}
    (hws : words atoms = some ws) (h : fits atoms s) : s ∈ ws := by
  induction atoms generalizing ws s with
  | nil =>
    cases hws
    exact List.mem_singleton.mpr (fits_nil.mp h)
  | cons atom atoms ih =>
    cases atom with
    | one c =>
      obtain ⟨rest, hrest, rfl⟩ := Option.map_eq_some_iff.mp hws
      cases s with
      | nil => cases h
      | cons d s =>
        obtain ⟨hd, hfits⟩ := fits_one.mp h
        rw [← hd]
        exact List.mem_map_of_mem (ih hrest hfits)
    | oneOf ranges =>
      rw [words] at hws
      split at hws
      · rename_i hsingle
        obtain ⟨rest, hrest, rfl⟩ := Option.map_eq_some_iff.mp hws
        cases s with
        | nil => cases h
        | cons d s =>
          obtain ⟨⟨⟨a, b⟩, hmem, hle, hge⟩, hfits⟩ := fits_oneOf.mp h
          have hab : a = b := by simpa using List.all_eq_true.mp hsingle (a, b) hmem
          have hd : a = d := Char.le_antisymm hle (hab ▸ hge)
          rw [List.mem_flatMap]
          exact ⟨(a, b), hmem, hd ▸ List.mem_map_of_mem (ih hrest hfits)⟩
      · cases hws
    | maybe c =>
      obtain ⟨rest, hrest, rfl⟩ := Option.map_eq_some_iff.mp hws
      rw [List.mem_append]
      rcases fits_maybe.mp h with hfits | ⟨r, rfl, hfits⟩
      · exact .inl (ih hrest hfits)
      · exact .inr (List.mem_map_of_mem (ih hrest hfits))
    | span => cases hws

end Atom

namespace Ending

/-- Whether two endings are written alike, as plain text or as a shape. -/
def agrees : Ending → Ending → Bool
  | plain a, plain b => a = b
  | shaped front back, shaped front' back' => front = front' && back = back'
  | _, _ => false

theorem eq_of_agrees {x e : Ending} (h : x.agrees e) : x = e := by
  cases x <;> cases e <;> simp_all [agrees]

/-- What follows the base, if the ending spells it out. -/
def tail? : Ending → Option String
  | plain tail => some tail
  | shaped _ tail => (tail.mapM Atom.char?).map String.ofList
  | pattern _ _ => none

theorem exists_of_base?_shaped {base tail : List Atom} {word front : String}
    (h : (shaped base tail).base? word = some front) :
    ∃ back : List Char, Text.line word.toList = front.toList ++ back ∧
      Atom.fits base front.toList ∧ Atom.fits tail back := by
  simp only [base?] at h
  obtain ⟨k, hk, rfl⟩ := Option.map_eq_some_iff.mp h
  have hfits := List.find?_some hk
  rw [Bool.and_eq_true] at hfits
  exact ⟨(Text.line word.toList).drop k, by simp, by simpa using hfits.1, hfits.2⟩

/-- A shape that leaves no end takes the whole line. -/
theorem base?_shaped_nil {base : List Atom} {word front : String} :
    (shaped base []).base? word = some front ↔
      front.toList = Text.line word.toList ∧ Atom.fits base front.toList := by
  simp only [base?]
  generalize Text.line word.toList = body
  constructor
  · intro h
    obtain ⟨k, hk, rfl⟩ := Option.map_eq_some_iff.mp h
    have hfits := List.find?_some hk
    rw [Bool.and_eq_true, Atom.fits_nil, List.drop_eq_nil_iff] at hfits
    obtain ⟨hbase, hlength⟩ := hfits
    rw [String.toList_ofList]
    exact ⟨List.take_of_length_le hlength, hbase⟩
  · rintro ⟨hfront, hfits⟩
    have hfind : (List.range (body.length + 1)).reverse.find? (fun k =>
        Atom.fits base (body.take k) && Atom.fits [] (body.drop k)) = some body.length := by
      rw [List.range_succ, List.reverse_append, List.reverse_singleton, List.singleton_append]
      apply List.find?_cons_of_pos
      rw [List.take_length, List.drop_length, ← hfront, hfits]
      rfl
    rw [hfind, Option.map_some, List.take_length, ← hfront, String.ofList_toList]

/-- A shape of any front with a spelling behind it takes the words that end in the spelling. -/
theorem base?_span {atoms : List Atom} {spelling : List Char}
    (hspelling : atoms.mapM Atom.char? = some spelling) (word : String) :
    (shaped (.span :: atoms) []).base? word =
      (Text.before (.ofList spelling) word).map (· ++ .ofList spelling) := by
  ext front
  simp only [base?_shaped_nil, Atom.fits_span, Atom.fits_iff_eq hspelling, Option.map_eq_some_iff,
    Text.before_eq_some_iff, String.toList_ofList]
  constructor
  · rintro ⟨hline, chars, _, hchars, hbreak, rfl⟩
    refine ⟨String.ofList chars, ?_, ?_⟩
    · rw [String.toList_ofList, ← hline, hchars]
      exact ⟨rfl, hbreak⟩
    · rw [← String.toList_inj, String.toList_append, String.toList_ofList, String.toList_ofList,
        hchars]
  · rintro ⟨base, ⟨hline, hbreak⟩, rfl⟩
    rw [String.toList_append, String.toList_ofList]
    exact ⟨hline.symm, _, _, rfl, hbreak, rfl⟩

theorem eq_append_of_base? {e : Ending} {word base tail : String} (hline : '\n' ∉ word.toList)
    (htail : e.tail? = some tail) (h : e.base? word = some base) : word = base ++ tail := by
  cases e with
  | plain t =>
    cases htail
    exact Text.eq_append_of_before hline h
  | shaped front back =>
    obtain ⟨spelling, hspelling, rfl⟩ := Option.map_eq_some_iff.mp htail
    obtain ⟨rest, hword, _, hfits⟩ := exists_of_base?_shaped h
    rw [← String.toList_inj, ← Text.line_eq_self hline, hword,
      (Atom.fits_iff_eq hspelling).mp hfits]
    simp
  | pattern text find => cases htail

end Ending

theorem firstWithBase_append {base? : EndingEntry → Option String} {front : List EndingEntry}
    (h : ∀ e ∈ front, base? e = none) (back : List EndingEntry) :
    firstWithBase base? (front ++ back) = firstWithBase base? back := by
  induction front with
  | nil => rfl
  | cons e front ih =>
    obtain ⟨he, hfront⟩ := List.forall_mem_cons.mp h
    rw [List.cons_append, firstWithBase, he]
    exact ih hfront

/-- The first entry with a base is the one that finds it where no entry before it finds any. -/
theorem firstWithBase_eq_some_iff {base? : EndingEntry → Option String}
    {entries : List EndingEntry} {e : EndingEntry} {base : String} :
    firstWithBase base? entries = some (e, base) ↔
      ∃ front back, entries = front ++ e :: back ∧ (∀ s ∈ front, base? s = none) ∧
        base? e = some base := by
  constructor
  · intro h
    induction entries with
    | nil => cases h
    | cons entry entries ih =>
      rw [firstWithBase] at h
      split at h
      · rename_i found hfound
        cases h
        exact ⟨[], entries, rfl, fun _ hs => absurd hs List.not_mem_nil, hfound⟩
      · rename_i hnone
        obtain ⟨front, back, rfl, hfront, hbase⟩ := ih h
        exact ⟨entry :: front, back, rfl, List.forall_mem_cons.mpr ⟨hnone, hfront⟩, hbase⟩
  · rintro ⟨front, back, rfl, hfront, hbase⟩
    rw [firstWithBase_append hfront, firstWithBase, hbase]

theorem mem_of_firstWithBase {base? : EndingEntry → Option String} {entries : List EndingEntry}
    {e : EndingEntry} {base : String} (h : firstWithBase base? entries = some (e, base)) :
    e ∈ entries ∧ base? e = some base := by
  obtain ⟨front, back, rfl, _, hbase⟩ := firstWithBase_eq_some_iff.mp h
  exact ⟨by simp, hbase⟩

/-- The words that an entry reads, each with its base, if they are finitely many. -/
def EndingEntry.words (e : EndingEntry) : Option (List (String × String)) :=
  match e.ending with
  | .plain _ | .pattern _ _ => none
  | .shaped front back => do
    let fronts ← Atom.words front
    let backs ← Atom.words back
    return fronts.flatMap fun f => backs.map fun b => (String.ofList f, String.ofList (f ++ b))

theorem EndingEntry.mem_words {e : EndingEntry} {ws : List (String × String)} {base word : String}
    (hws : e.words = some ws) (hline : '\n' ∉ word.toList)
    (hbase : e.ending.base? word = some base) : (base, word) ∈ ws := by
  unfold EndingEntry.words at hws
  split at hws
  · cases hws
  · cases hws
  · rename_i front back hending
    obtain ⟨fronts, hfronts, hws⟩ := Option.bind_eq_some_iff.mp hws
    obtain ⟨backs, hbacks, hws⟩ := Option.bind_eq_some_iff.mp hws
    rw [hending] at hbase
    obtain ⟨b, hword, hfront, hback⟩ := Ending.exists_of_base?_shaped hbase
    have hpair : (base, word) = (String.ofList base.toList, String.ofList (base.toList ++ b)) := by
      rw [← hword, Text.line_eq_self hline, String.ofList_toList, String.ofList_toList]
    cases hws
    rw [hpair]
    exact List.mem_flatMap.mpr ⟨_, Atom.mem_words hfronts hfront,
      List.mem_map_of_mem (Atom.mem_words hbacks hback)⟩

namespace FormMap
open OrderedMap

theorem find_inflect (stem : String) (rows : Rows) (slot : Slot) :
    find slot (inflect stem rows).reverse =
      (find slot rows.reverse).map fun tails => tails.map (stem ++ ·) := by
  rw [inflect, ← List.map_reverse]
  exact find_map_values _ _ _

theorem get?_inflect (stem : String) (rows : Rows) (slot : Slot) :
    (ofList (inflect stem rows)).get? slot =
      (find slot rows.reverse).map fun tails => tails.map (stem ++ ·) :=
  (get?_ofList _ _).trans (find_inflect stem rows slot)

end FormMap

/-- The traits that tell how a word is declined, and that no field of a specification gives: all
but number, place and the genders of living beings. -/
def Trait.isKind (x : Trait) : Bool := x ∉ [.M, .F, .sg, .pl, .both, .loc]

namespace Lexeme

/-- A word of which nothing is known but its traits and place. -/
def ofTags (tags : TagSet) (loc : Bool) : Lexeme := { stem := "", tags, loc, pos := "" }

/-- Two words of the same kind are declined alike on their stems. -/
structure SameKind (w v : Lexeme) : Prop where
  has : ∀ x : Trait, x.isKind → w.has x = v.has x
  loc : w.loc = v.loc

end Lexeme
end Declension
