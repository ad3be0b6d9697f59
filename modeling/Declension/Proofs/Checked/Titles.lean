import Declension.Proofs.Checked.Access
import Declension.Title

/-!
# Titles put together by places

The title of an alternant is found by going through the subtitles of its branches by their places.
Main statement: `alternantTitle_eq`, by which every place is there and every pair that is taken
apart is one.
-/
namespace Declension.Checked
open Title (agreement common lonePair? factored? rendered)

/-- A text whose first letter, if it has one, is in lower case. -/
def lowerFirst (s : String) : Except Crash String :=
  if s = "" then .ok s
  else do return Text.lower (← item s.toList 0) ++ String.ofList (s.toList.drop 1)

/-- A sentence as it stands at a place among several: only the last keeps its stop, only the first
its capital. -/
def sentence (count : ℕ) : String × ℕ → Except Crash String
  | (s, place) =>
    let s := if place + 1 < count then Text.dropEnding "." s else s
    if 0 < place then lowerFirst s else .ok s

/-- Makes one sentence out of several. -/
def joinSentences (joiner : String) (sentences : List String) : Except Crash String := do
  return Text.join joiner (← sentences.zipIdx.mapM (sentence sentences.length))

/-- How far a further list agrees with the first, of which `left` subtitles from a place on are
still to be looked at. -/
def agreeing (first subtitles : List Subtitle) : ℕ → ℕ → Except Crash ℕ
  | 0, place => .ok place
  | left + 1, place =>
    if subtitles.length ≤ place then .ok place
    else do
      if (← item subtitles place) ≠ (← item first place) then return place
      else agreeing first subtitles left (place + 1)

/-- How many subtitles all the lists start with in common. -/
def commonCount (lists : List (List Subtitle)) : Except Crash ℕ := do
  let first ← if lists.isEmpty then .ok [] else item lists 0
  (lists.drop 1).foldlM (fun n subtitles => agreeing first subtitles n 0) first.length

/-- The two parts of a subtitle that has two. -/
def parts : Subtitle → Except Crash (String × String)
  | .pair front back => .ok (front, back)
  | .phrase _ => .error .wrongShape

def isPhrase : Subtitle → Bool
  | .phrase _ => true
  | .pair _ _ => false

/-- What pairs share: a front, a back. -/
structure Shared where
  front : Option String := none
  back : Option String := none

namespace Shared

def isVoid (shared : Shared) : Bool := (given shared.front).isNone && (given shared.back).isNone

/-- What a further pair shares as well. -/
def narrow (shared : Shared) (front back : String) : Shared where
  front := if shared.front = some front then shared.front else none
  back := if shared.back = some back then shared.back else none

end Shared

/-- What the pairs share that are left of the lists after `n` subtitles; nothing, if of one list
something else is left. -/
def sharedParts (n : ℕ) : ℕ → Shared → List (List Subtitle) → Except Crash Shared
  | _, shared, [] => .ok shared
  | place, shared, subtitles :: rest =>
    if subtitles.length ≠ n + 1 then .ok {}
    else do
      if isPhrase (← item subtitles n) then return {}
      let (front, back) ← parts (← item subtitles n)
      if place = 0 then sharedParts n 1 ⟨some front, some back⟩ rest
      else
        let shared := shared.narrow front back
        if shared.isVoid then return shared else sharedParts n (place + 1) shared rest

/-- What the lists have apart after `n` subtitles. -/
def apart (n : ℕ) (lists : List (List Subtitle)) : Except Crash String := do
  let shared ← sharedParts n 0 {} lists
  match given shared.front, given shared.back with
  | some front, _ =>
    let backs ← lists.mapM fun subtitles => do return (← parts (← item subtitles n)).2
    return front ++ Text.join " or " backs
  | none, some back =>
    let fronts ← lists.mapM fun subtitles => do return (← parts (← item subtitles n)).1
    return Text.join " or " fronts ++ back
  | none, none =>
    return if lists.all (·.length ≤ n) then ""
      else Text.join " or " (lists.map fun subtitles =>
        if subtitles.length ≤ n then "otherwise" else rendered (subtitles.drop n))

def numberWord (n : ℕ) : Except Crash String :=
  if n < Title.numberWords.length then item Title.numberWords n else .ok (toString n)

/-- What is told of several stems. -/
def stemRemark (stems : List String) : Except Crash (List String) :=
  if 1 < stems.length then do return [(← numberWord stems.length) ++ " different stems"]
  else .ok []

/-- The title of an alternant. -/
def alternantTitle (title : String) (lists : List (List Subtitle)) (stems : List String) :
    Except Crash String := do
  let n ← commonCount lists
  let shared := rendered ((lists.headD []).take n)
  let remarks := [shared, ← apart n lists].filter (· ≠ "")
  let counted ← stemRemark stems
  let remarks := remarks ++ counted
  return if remarks.isEmpty then title else title ++ " (" ++ Text.join "; " remarks ++ ")"

section Sentences

theorem lowerFirst_eq (s : String) : lowerFirst s = .ok (Text.uncapitalize s) := by
  unfold lowerFirst Text.uncapitalize
  cases hs : s.toList with
  | nil => rw [if_pos (String.toList_eq_nil_iff.mp hs), String.toList_eq_nil_iff.mp hs]
  | cons c r =>
    have hne : s ≠ "" := by
      rintro rfl
      cases hs
    rw [if_neg hne]
    rfl

theorem sentence_succ (count place : ℕ) (s : String) : sentence count (s, place + 1) =
    .ok (Text.uncapitalize (if place + 2 < count then Text.dropEnding "." s else s)) :=
  lowerFirst_eq _

theorem mapM_sentence (rest : List String) (count place : ℕ) (h : place + 1 + rest.length = count) :
    (rest.zipIdx (place + 1)).mapM (sentence count) = .ok (Title.continued rest) := by
  induction rest generalizing place with
  | nil => rfl
  | cons s rest ih =>
    rw [List.zipIdx_cons, List.mapM_cons, sentence_succ]
    rw [List.length_cons] at h
    have hrest := ih (place + 1) (by omega)
    cases rest with
    | nil =>
      rw [if_neg (by rw [List.length_nil] at h; omega)]
      rfl
    | cons t rest =>
      rw [if_pos (by rw [List.length_cons] at h; omega)]
      exact bind_eq_ok.mpr ⟨_, rfl, bind_eq_ok.mpr ⟨_, hrest, rfl⟩⟩

theorem joinSentences_eq (joiner : String) (sentences : List String) :
    joinSentences joiner sentences = .ok (Title.joinSentences joiner sentences) := by
  unfold joinSentences
  cases sentences with
  | nil => rfl
  | cons first rest =>
    have hrest := mapM_sentence rest (first :: rest).length 0 (by rw [List.length_cons]; omega)
    have hfirst : sentence (first :: rest).length (first, 0) =
        .ok (if rest = [] then first else Text.dropEnding "." first) := by
      cases rest <;> rfl
    have hall : (first :: rest).zipIdx.mapM (sentence (first :: rest).length) =
        .ok ((if rest = [] then first else Text.dropEnding "." first) :: Title.continued rest) := by
      rw [List.zipIdx_cons, List.mapM_cons]
      exact bind_eq_ok.mpr ⟨_, hfirst, bind_eq_ok.mpr ⟨_, hrest, rfl⟩⟩
    refine bind_eq_ok.mpr ⟨_, hall, ?_⟩
    cases rest <;> rfl

end Sentences

section Common

theorem agreeing_eq (first subtitles : List Subtitle) (left place : ℕ)
    (h : place + left ≤ first.length) : agreeing first subtitles left place =
      .ok (place + min left (agreement (first.drop place) (subtitles.drop place))) := by
  induction left generalizing place with
  | zero => simp [agreeing]
  | succ left ih =>
    unfold agreeing
    have hplace : place < first.length := by omega
    rw [List.drop_eq_getElem_cons hplace]
    by_cases hlength : subtitles.length ≤ place
    · rw [if_pos hlength, List.drop_eq_nil_of_le hlength]
      simp [agreement]
    · have hlt : place < subtitles.length := by omega
      rw [if_neg hlength, List.drop_eq_getElem_cons hlt, agreement,
        item_eq_ok (List.getElem?_eq_getElem hlt), item_eq_ok (List.getElem?_eq_getElem hplace)]
      by_cases heq : first[place] = subtitles[place]
      · have hrest := ih (place + 1) (by omega)
        rw [if_pos heq, heq]
        refine (if_neg (not_not.mpr rfl)).trans ?_
        rw [hrest]
        congr 1
        omega
      · rw [if_neg heq]
        exact if_pos (Ne.symm heq)

theorem foldlM_agreeing (first : List Subtitle) (rest : List (List Subtitle)) {n : ℕ}
    (h : n ≤ first.length) :
    rest.foldlM (fun n subtitles => agreeing first subtitles n 0) n =
      (.ok (rest.foldl (fun n other => min n (agreement first other)) n) : Except Crash ℕ) := by
  induction rest generalizing n with
  | nil => rfl
  | cons subtitles rest ih =>
    have hagree := agreeing_eq first subtitles n 0 (by omega)
    rw [Nat.zero_add, List.drop_zero, List.drop_zero] at hagree
    rw [List.foldlM_cons, List.foldl_cons, hagree]
    exact ih (le_trans (min_le_left _ _) h)

theorem commonCount_eq (lists : List (List Subtitle)) :
    commonCount lists = .ok (common lists) := by
  cases lists with
  | nil => rfl
  | cons first rest => exact foldlM_agreeing first rest le_rfl

end Common

section Apart
variable {n : ℕ} {subtitles : List Subtitle}

/-- What is left of a list after `n` subtitles is one pair, or it is not. -/
theorem lonePair?_cases (n : ℕ) (subtitles : List Subtitle) :
    (lonePair? n subtitles = none ∧ (subtitles.length = n + 1 →
      ∃ text, item subtitles n = .ok (.phrase text))) ∨
    ∃ front back, lonePair? n subtitles = some (front, back) ∧ subtitles.length = n + 1 ∧
      item subtitles n = .ok (.pair front back) := by
  by_cases hlength : subtitles.length = n + 1
  · have hlt : n < subtitles.length := by omega
    have hdrop : subtitles.drop n = [subtitles[n]] := by
      rw [List.drop_eq_getElem_cons hlt, List.drop_eq_nil_of_le (by omega)]
    have hitem := item_eq_ok (List.getElem?_eq_getElem hlt)
    cases hlast : subtitles[n] with
    | phrase text =>
      rw [hlast] at hdrop hitem
      exact .inl ⟨by rw [lonePair?, hdrop], fun _ => ⟨text, hitem⟩⟩
    | pair front back =>
      rw [hlast] at hdrop hitem
      exact .inr ⟨front, back, by rw [lonePair?, hdrop], hlength, hitem⟩
  · refine .inl ⟨?_, fun h => absurd h hlength⟩
    unfold lonePair?
    split
    · rename_i hdrop
      have hcount := congrArg List.length hdrop
      rw [List.length_drop, List.length_singleton] at hcount
      omega
    · rfl

theorem sharedParts_of_none {place : ℕ} {shared : Shared} {rest : List (List Subtitle)}
    (h : lonePair? n subtitles = none) :
    sharedParts n place shared (subtitles :: rest) = .ok {} := by
  rcases lonePair?_cases n subtitles with ⟨_, hphrase⟩ | ⟨front, back, hpair, _⟩
  · unfold sharedParts
    by_cases hlength : subtitles.length = n + 1
    · obtain ⟨text, htext⟩ := hphrase hlength
      rw [if_neg (not_not.mpr hlength), htext]
      rfl
    · rw [if_pos hlength]
  · rw [h] at hpair
    cases hpair

theorem sharedParts_of_some {place : ℕ} {shared : Shared} {rest : List (List Subtitle)}
    {front back : String} (h : lonePair? n subtitles = some (front, back)) :
    sharedParts n place shared (subtitles :: rest) =
      if place = 0 then sharedParts n 1 ⟨some front, some back⟩ rest
      else if (shared.narrow front back).isVoid then .ok (shared.narrow front back)
      else sharedParts n (place + 1) (shared.narrow front back) rest := by
  rcases lonePair?_cases n subtitles with ⟨hnone, _⟩ | ⟨front', back', hpair, hlength, hitem⟩
  · rw [h] at hnone
    cases hnone
  · rw [h] at hpair
    cases hpair
    rw [sharedParts, if_neg (not_not.mpr hlength), hitem]
    rfl

/-- The lists of which one pair is left with a part `x`. -/
def allHave (n : ℕ) (part : String × String → String) (lists : List (List Subtitle)) (x : String) :
    Bool :=
  lists.all fun subtitles => (lonePair? n subtitles).map part = some x

theorem given_narrow (shared : Shared) (front back : String) :
    given (shared.narrow front back).front = (given shared.front).filter (· = front) ∧
      given (shared.narrow front back).back = (given shared.back).filter (· = back) := by
  have hnarrow : ∀ (part : Option String) (x : String),
      given (if part = some x then part else none) = (given part).filter (· = x) := by
    intro part x
    by_cases hx : part = some x
    · rw [if_pos hx, hx]
      by_cases hy : x = "" <;> simp [given, Option.filter_some, hy]
    · rw [if_neg hx]
      refine (Option.filter_eq_none_iff.mpr fun y hy heq => hx ?_).symm
      obtain ⟨hpart, _⟩ := Option.filter_eq_some_iff.mp hy
      rw [hpart, of_decide_eq_true heq]
  exact ⟨hnarrow _ _, hnarrow _ _⟩

theorem allHave_cons {part : String × String → String} {pair : String × String}
    (h : lonePair? n subtitles = some pair) (rest : List (List Subtitle)) :
    allHave n part (subtitles :: rest) = fun x => decide (x = part pair) && allHave n part rest x := by
  funext x
  rw [allHave, List.all_cons, h]
  simp [allHave, eq_comm]

/-- What is shared in the end is what was shared before, if every further list has it. -/
theorem given_sharedParts (place : ℕ) (shared : Shared) (lists : List (List Subtitle)) :
    ∃ found, sharedParts n (place + 1) shared lists = .ok found ∧
      given found.front = (given shared.front).filter (allHave n Prod.fst lists) ∧
      given found.back = (given shared.back).filter (allHave n Prod.snd lists) := by
  induction lists generalizing place shared with
  | nil =>
    have hall : ∀ (part : String × String → String) (found : Option String),
        found = found.filter (allHave n part []) := by
      intro part found
      cases found <;> rfl
    exact ⟨shared, rfl, hall _ _, hall _ _⟩
  | cons subtitles rest ih =>
    cases hpair : lonePair? n subtitles with
    | none =>
      refine ⟨{}, sharedParts_of_none hpair, ?_, ?_⟩ <;> simp [allHave, hpair, given]
    | some pair =>
      obtain ⟨hfront, hback⟩ := given_narrow shared pair.1 pair.2
      rw [sharedParts_of_some hpair, if_neg (Nat.succ_ne_zero place),
        allHave_cons hpair, allHave_cons hpair, ← Option.filter_filter, ← Option.filter_filter,
        ← hfront, ← hback]
      by_cases hvoid : (shared.narrow pair.1 pair.2).isVoid
      · obtain ⟨hnofront, hnoback⟩ : given (shared.narrow pair.1 pair.2).front = none ∧
            given (shared.narrow pair.1 pair.2).back = none := by
          simpa [Shared.isVoid] using hvoid
        rw [if_pos hvoid, hnofront, hnoback]
        exact ⟨_, rfl, hnofront, hnoback⟩
      · rw [if_neg hvoid]
        exact ih (place + 1) _

/-- Where one pair is left of every list, the parts of those pairs can be read off. -/
theorem mapM_parts {lists : List (List Subtitle)} {pairs : List (String × String)}
    (h : lists.mapM (lonePair? n) = some pairs) (part : String × String → String) :
    lists.mapM (fun subtitles => do return part (← parts (← item subtitles n))) =
      (.ok (pairs.map part) : Except Crash (List String)) := by
  refine mapM_eq_ok.mpr (List.forall₂_map_right_iff.mpr ((mapM_eq_some.mp h).imp ?_))
  intro subtitles pair hpair
  rcases lonePair?_cases n subtitles with ⟨hnone, _⟩ | ⟨front, back, hpair', _, hitem⟩
  · rw [hpair] at hnone
    cases hnone
  · rw [hpair] at hpair'
    cases hpair'
    rw [hitem]
    rfl

theorem allHave_of_mapM {lists : List (List Subtitle)} {pairs : List (String × String)}
    (h : lists.mapM (lonePair? n) = some pairs) (part : String × String → String) (x : String) :
    allHave n part lists x = pairs.all (part · = x) := by
  refine all_eq_of_forall₂ (mapM_eq_some.mp h) fun subtitles pair hpair => ?_
  simp [hpair]

theorem allHave_of_mapM_eq_none {lists : List (List Subtitle)}
    (h : lists.mapM (lonePair? n) = none) (part : String × String → String) (x : String) :
    allHave n part lists x = false := by
  rw [Bool.eq_false_iff]
  intro hall
  obtain ⟨pairs, hpairs⟩ := exists_forall₂ (R := fun l pair => lonePair? n l = some pair)
    fun subtitles hmem => by
      obtain ⟨pair, hpair, _⟩ := Option.map_eq_some_iff.mp
        (of_decide_eq_true (List.all_eq_true.mp hall subtitles hmem))
      exact ⟨pair, hpair⟩
  rw [mapM_eq_some.mpr hpairs] at h
  cases h

/-- Where something else than a pair is left of a list, nothing is shared. -/
theorem sharedParts_of_mapM_eq_none {lists : List (List Subtitle)}
    (h : lists.mapM (lonePair? n) = none) : ∃ found, sharedParts n 0 {} lists = .ok found ∧
      given found.front = none ∧ given found.back = none := by
  cases lists with
  | nil => cases h
  | cons first rest =>
    cases hpair : lonePair? n first with
    | none => exact ⟨{}, sharedParts_of_none hpair, rfl, rfl⟩
    | some pair =>
      have hrest : rest.mapM (lonePair? n) = none := by
        cases hrest : rest.mapM (lonePair? n) with
        | none => rfl
        | some pairs =>
          rw [List.mapM_cons, hpair, hrest] at h
          cases h
      obtain ⟨found, hfound, hfront, hback⟩ :=
        given_sharedParts (n := n) 0 ⟨some pair.1, some pair.2⟩ rest
      refine ⟨found, (sharedParts_of_some hpair).trans hfound, ?_, ?_⟩
      · rw [hfront]
        exact Option.filter_eq_none_iff.mpr fun x _ => by simp [allHave_of_mapM_eq_none hrest]
      · rw [hback]
        exact Option.filter_eq_none_iff.mpr fun x _ => by simp [allHave_of_mapM_eq_none hrest]

/-- Where pairs are left, a front or back of the first is shared that is that of them all. -/
theorem sharedParts_of_mapM {lists : List (List Subtitle)} {pair : String × String}
    {pairs : List (String × String)} (h : lists.mapM (lonePair? n) = some (pair :: pairs)) :
    ∃ found, sharedParts n 0 {} lists = .ok found ∧
      given found.front = (given (some pair.1)).filter (fun x => pairs.all (·.1 = x)) ∧
      given found.back = (given (some pair.2)).filter (fun x => pairs.all (·.2 = x)) := by
  cases mapM_eq_some.mp h with
  | @cons first _ rest _ hpair hpairs =>
    have hrest := mapM_eq_some.mpr hpairs
    obtain ⟨found, hfound, hfront, hback⟩ :=
      given_sharedParts (n := n) 0 ⟨some pair.1, some pair.2⟩ rest
    refine ⟨found, (sharedParts_of_some hpair).trans hfound, ?_, ?_⟩
    · rw [hfront, funext (allHave_of_mapM hrest Prod.fst)]
    · rw [hback, funext (allHave_of_mapM hrest Prod.snd)]

theorem given_filter {x : String} {p : String → Bool} :
    (given (some x)).filter p = if x ≠ "" ∧ p x then some x else none := by
  by_cases hx : x = "" <;> simp [given, Option.filter_some, hx]

theorem apart_eq (n : ℕ) (lists : List (List Subtitle)) :
    apart n lists = .ok (Title.apart n lists) := by
  unfold apart Title.apart
  cases hpairs : lists.mapM (lonePair? n) with
  | none =>
    obtain ⟨found, hfound, hfront, hback⟩ := sharedParts_of_mapM_eq_none hpairs
    refine bind_eq_ok.mpr ⟨found, hfound, ?_⟩
    rw [hfront, hback]
    rfl
  | some pairs =>
    cases pairs with
    | nil =>
      cases mapM_eq_some.mp hpairs
      rfl
    | cons pair pairs =>
      obtain ⟨found, hfound, hfront, hback⟩ := sharedParts_of_mapM hpairs
      have hparts := mapM_parts hpairs
      refine bind_eq_ok.mpr ⟨found, hfound, ?_⟩
      rw [hfront, hback, given_filter, given_filter, Option.bind_some, factored?]
      by_cases hsame : pair.1 ≠ "" ∧ pairs.all (·.1 = pair.1)
      · rw [if_pos hsame, if_pos hsame]
        exact bind_eq_ok.mpr ⟨_, hparts Prod.snd, rfl⟩
      · rw [if_neg hsame, if_neg hsame]
        by_cases hends : pair.2 ≠ "" ∧ pairs.all (·.2 = pair.2)
        · rw [if_pos hends, if_pos hends]
          exact bind_eq_ok.mpr ⟨_, hparts Prod.fst, rfl⟩
        · rw [if_neg hends, if_neg hends]
          rfl

end Apart

theorem numberWord_eq (n : ℕ) : numberWord n = .ok (Title.numberWord n) := by
  unfold numberWord Title.numberWord
  by_cases h : n < Title.numberWords.length
  · rw [if_pos h, item_eq_ok (List.getElem?_eq_getElem h), List.getElem?_eq_getElem h]
    rfl
  · rw [if_neg h, List.getElem?_eq_none (Nat.le_of_not_lt h)]
    rfl

theorem alternantTitle_eq (title : String) (lists : List (List Subtitle)) (stems : List String) :
    alternantTitle title lists stems = .ok (Title.ofAlternant title lists stems) := by
  unfold alternantTitle Title.ofAlternant
  have hcounted : stemRemark stems =
      .ok (if 1 < stems.length then [Title.numberWord stems.length ++ " different stems"] else []) := by
    unfold stemRemark
    rw [numberWord_eq]
    split <;> rfl
  refine bind_eq_ok.mpr ⟨_, commonCount_eq lists, bind_eq_ok.mpr ⟨_, apart_eq _ lists, ?_⟩⟩
  exact bind_eq_ok.mpr ⟨_, hcounted, rfl⟩

end Declension.Checked
