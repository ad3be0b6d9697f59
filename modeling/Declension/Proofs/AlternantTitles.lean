import Declension.Proofs.Outcome
import Declension.Title
import Mathlib.Data.List.Infix

/-!
# Titles of alternants

Branches that are titled together have their subtitles told once as far as they agree. What sets
the branches apart is told behind that: a part that all their pairs share is told once, else the
rest of each branch is. Main statement: `ofAlternant_eq_remarked`.
-/
namespace Declension.Title

section Agreement
variable {α : Type} [DecidableEq α]

theorem length_le_agreement {shared as bs : List α} (has : shared <+: as) :
    shared.length ≤ agreement as bs ↔ shared <+: bs := by
  induction shared generalizing as bs with
  | nil => simp
  | cons a shared ih =>
    obtain ⟨as, rfl⟩ := has
    cases bs with
    | nil => simp [agreement]
    | cons b bs =>
      rw [List.cons_append, agreement, List.cons_prefix_cons]
      by_cases hab : a = b
      · rw [if_pos hab, List.length_cons, Nat.succ_le_succ_iff, ih (List.prefix_append shared as)]
        simp [hab]
      · simp [hab]

omit [DecidableEq α] in
theorem le_foldl_min {f : List α → ℕ} {k n : ℕ} {lists : List (List α)} :
    k ≤ lists.foldl (fun n other => min n (f other)) n ↔ k ≤ n ∧ ∀ other ∈ lists, k ≤ f other := by
  induction lists generalizing n with
  | nil => simp
  | cons other lists ih => rw [List.foldl_cons, ih, Nat.le_min, List.forall_mem_cons, and_assoc]

end Agreement

/-- Whether a list is the longest that all of the lists start with. -/
def IsShared (shared : List Subtitle) (lists : List (List Subtitle)) : Prop :=
  ∀ other, other <+: shared ↔ ∀ subtitles ∈ lists, other <+: subtitles

variable {shared : List Subtitle} {lists : List (List Subtitle)}

theorem IsShared.isPrefix (h : IsShared shared lists) :
    ∀ subtitles ∈ lists, shared <+: subtitles :=
  (h shared).mp (List.prefix_refl shared)

theorem IsShared.unique (h : IsShared shared lists) {other : List Subtitle}
    (hother : IsShared other lists) : other = shared := by
  have hle := (h other).mpr hother.isPrefix
  have hge := (hother shared).mpr h.isPrefix
  exact hle.eq_of_length (Nat.le_antisymm hle.length_le hge.length_le)

theorem isShared_take_common (first : List Subtitle) (rest : List (List Subtitle)) :
    IsShared (first.take (common (first :: rest))) (first :: rest) := by
  intro other
  rw [List.prefix_take_iff, List.forall_mem_cons]
  refine and_congr_right fun hfirst => ?_
  rw [common, le_foldl_min, and_iff_right hfirst.length_le]
  exact forall₂_congr fun subtitles _ => length_le_agreement hfirst

theorem common_le_length (first : List Subtitle) (rest : List (List Subtitle)) :
    common (first :: rest) ≤ first.length := by
  exact (le_foldl_min.mp (le_refl (common (first :: rest)))).1

/-- Whether one pair is left of every list, and all the pairs have one front. -/
def SharesFront (shared : List Subtitle) (lists : List (List Subtitle)) : Prop :=
  ∃ (front : String) (backs : List String), front ≠ "" ∧
    lists = backs.map fun back => shared ++ [.pair front back]

/-- Whether one pair is left of every list, and all the pairs have one back. -/
def SharesBack (shared : List Subtitle) (lists : List (List Subtitle)) : Prop :=
  ∃ (back : String) (fronts : List String), back ≠ "" ∧
    lists = fronts.map fun front => shared ++ [.pair front back]

/-- What is told of a list behind what it shares with the others. -/
def restText (shared subtitles : List Subtitle) : String :=
  if subtitles.length ≤ shared.length then "otherwise" else rendered (subtitles.drop shared.length)

/-- What is told of lists behind what they share: a common part of their pairs once, with the other
parts as alternatives, else the rest of each, and nothing if none of them goes on. -/
inductive IsApart (shared : List Subtitle) (lists : List (List Subtitle)) : String → Prop where
  | front (front : String) (backs : List String) (hfront : front ≠ "")
    (hlists : lists = backs.map fun back => shared ++ [.pair front back]) :
    IsApart shared lists (front ++ Text.join " or " backs)
  | back (back : String) (fronts : List String) (hnone : ¬ SharesFront shared lists)
    (hback : back ≠ "") (hlists : lists = fronts.map fun front => shared ++ [.pair front back]) :
    IsApart shared lists (Text.join " or " fronts ++ back)
  | rests (hfront : ¬ SharesFront shared lists) (hback : ¬ SharesBack shared lists)
    (hlonger : ∃ subtitles ∈ lists, shared.length < subtitles.length) :
    IsApart shared lists (Text.join " or " (lists.map (restText shared)))
  | same (hsame : ∀ subtitles ∈ lists, subtitles.length ≤ shared.length) : IsApart shared lists ""

/-- One of the cases is that of the lists. -/
theorem exists_isApart (shared : List Subtitle) (lists : List (List Subtitle)) :
    ∃ remark, IsApart shared lists remark := by
  by_cases hfront : SharesFront shared lists
  · obtain ⟨front, backs, hne, hlists⟩ := hfront
    exact ⟨_, .front front backs hne hlists⟩
  · by_cases hback : SharesBack shared lists
    · obtain ⟨back, fronts, hne, hlists⟩ := hback
      exact ⟨_, .back back fronts hfront hne hlists⟩
    · by_cases hlonger : ∃ subtitles ∈ lists, shared.length < subtitles.length
      · exact ⟨_, .rests hfront hback hlonger⟩
      · push Not at hlonger
        exact ⟨_, .same hlonger⟩

theorem lonePair?_eq_some {subtitles : List Subtitle} {pair : String × String}
    (h : shared <+: subtitles) : lonePair? shared.length subtitles = some pair ↔
      subtitles = shared ++ [.pair pair.1 pair.2] := by
  obtain ⟨rest, rfl⟩ := h
  unfold lonePair?
  rw [List.drop_left, List.append_cancel_left_eq]
  split
  · simp [Prod.ext_iff]
  · rename_i hno
    exact iff_of_false (fun h => nomatch h) (hno _ _)

/-- One pair is left of every list just if the lists are what is shared with a pair each. -/
theorem mapM_lonePair?_eq_some {pairs : List (String × String)}
    (h : ∀ subtitles ∈ lists, shared <+: subtitles) :
    lists.mapM (lonePair? shared.length) = some pairs ↔
      lists = pairs.map fun pair => shared ++ [.pair pair.1 pair.2] := by
  rw [mapM_eq_some]
  constructor
  · intro hpairs
    induction hpairs with
    | nil => rfl
    | cons hpair _ ih =>
      obtain ⟨hsub, hrest⟩ := List.forall_mem_cons.mp h
      rw [List.map_cons, ← ih hrest, ← (lonePair?_eq_some hsub).mp hpair]
  · rintro rfl
    refine List.forall₂_map_left_iff.mpr (List.forall₂_same.mpr fun pair _ => ?_)
    exact (lonePair?_eq_some (List.prefix_append shared _)).mpr rfl

theorem factored?_front {front : String} {backs : List String} (hne : backs ≠ [])
    (hfront : front ≠ "") :
    factored? (backs.map (front, ·)) = some (front ++ Text.join " or " backs) := by
  obtain ⟨back, backs, rfl⟩ := List.exists_cons_of_ne_nil hne
  simp [factored?, hfront, Function.comp_def]

theorem factored?_back {back : String} {fronts : List String} (hne : fronts ≠ [])
    (hback : back ≠ "")
    (hno : ∀ front ≠ "", ∃ other ∈ fronts, other ≠ front) :
    factored? (fronts.map (·, back)) = some (Text.join " or " fronts ++ back) := by
  obtain ⟨front, fronts, rfl⟩ := List.exists_cons_of_ne_nil hne
  have hfront : ¬ (front ≠ "" ∧ (fronts.map (·, back)).all (·.1 = front)) := by
    rintro ⟨hne, hall⟩
    obtain ⟨other, hmem, hother⟩ := hno front hne
    rcases List.mem_cons.mp hmem with rfl | hmem
    · exact hother rfl
    · simp at hall
      exact hother (hall _ hmem)
  rw [List.map_cons, factored?, if_neg hfront]
  simp [hback, Function.comp_def]

/-- Pairs are told together only if they have one front or one back. -/
theorem exists_of_factored? {pairs : List (String × String)} {text : String}
    (h : factored? pairs = some text) :
    (∃ (front : String) (backs : List String), front ≠ "" ∧ pairs = backs.map (front, ·)) ∨
      ∃ (back : String) (fronts : List String), back ≠ "" ∧ pairs = fronts.map (·, back) := by
  unfold factored? at h
  split at h
  · cases h
  · rename_i front back rest
    split at h
    · rename_i hfront
      refine .inl ⟨front, back :: rest.map (·.2), hfront.1, ?_⟩
      rw [List.map_cons, List.map_map]
      congr 1
      refine (List.map_id rest).symm.trans (List.map_congr_left fun pair hmem => ?_)
      exact Prod.ext (of_decide_eq_true (List.all_eq_true.mp hfront.2 pair hmem)) rfl
    · split at h
      · rename_i hback
        refine .inr ⟨back, front :: rest.map (·.1), hback.1, ?_⟩
        rw [List.map_cons, List.map_map]
        congr 1
        refine (List.map_id rest).symm.trans (List.map_congr_left fun pair hmem => ?_)
        exact Prod.ext rfl (of_decide_eq_true (List.all_eq_true.mp hback.2 pair hmem))
      · cases h

theorem apart_of_factored? {pairs : List (String × String)} {text : String}
    (h : IsShared shared lists)
    (hlists : lists = pairs.map fun pair => shared ++ [.pair pair.1 pair.2])
    (htext : factored? pairs = some text) : apart shared.length lists = text := by
  rw [apart, (mapM_lonePair?_eq_some h.isPrefix).mpr hlists, Option.bind_some, htext]

theorem apart_of_not_shares (h : IsShared shared lists) (hfront : ¬ SharesFront shared lists)
    (hback : ¬ SharesBack shared lists) : apart shared.length lists =
      if lists.all (·.length ≤ shared.length) then ""
      else Text.join " or " (lists.map (restText shared)) := by
  have hnone : (lists.mapM (lonePair? shared.length)).bind factored? = none := by
    by_contra hsome
    obtain ⟨text, htext⟩ := Option.ne_none_iff_exists'.mp hsome
    obtain ⟨pairs, hpairs, htext⟩ := Option.bind_eq_some_iff.mp htext
    rw [mapM_lonePair?_eq_some h.isPrefix] at hpairs
    rcases exists_of_factored? htext with ⟨front, backs, hne, rfl⟩ | ⟨back, fronts, hne, rfl⟩
    · exact hfront ⟨front, backs, hne, by rw [hpairs, List.map_map]; rfl⟩
    · exact hback ⟨back, fronts, hne, by rw [hpairs, List.map_map]; rfl⟩
  rw [apart, hnone]
  rfl

/-- What is told of lists apart from what they share is what sets them apart. -/
theorem apart_eq_of_isApart (hne : lists ≠ []) (h : IsShared shared lists) {remark : String}
    (hapart : IsApart shared lists remark) : apart shared.length lists = remark := by
  cases hapart with
  | front front backs hfront hlists =>
    have hbacks : backs ≠ [] := by
      rintro rfl
      exact hne hlists
    have hpairs : lists =
        (backs.map (front, ·)).map fun pair => shared ++ [.pair pair.1 pair.2] := by
      rw [hlists, List.map_map]
      rfl
    exact apart_of_factored? h hpairs (factored?_front hbacks hfront)
  | back back fronts hnone hback hlists =>
    have hfronts : fronts ≠ [] := by
      rintro rfl
      exact hne hlists
    have hpairs : lists =
        (fronts.map (·, back)).map fun pair => shared ++ [.pair pair.1 pair.2] := by
      rw [hlists, List.map_map]
      rfl
    refine apart_of_factored? h hpairs (factored?_back hfronts hback fun front hfront => ?_)
    -- were all the fronts the same, the lists would share that
    by_contra hall
    push Not at hall
    refine hnone ⟨front, fronts.map fun _ => back, hfront, ?_⟩
    rw [hlists, List.map_map]
    exact List.map_congr_left fun other hmem => by rw [hall other hmem]; rfl
  | rests hfront hback hlonger =>
    have hgoes : ¬ lists.all (·.length ≤ shared.length) := by
      obtain ⟨subtitles, hmem, hlt⟩ := hlonger
      intro hall
      have hle := of_decide_eq_true (List.all_eq_true.mp hall subtitles hmem)
      omega
    rw [apart_of_not_shares h hfront hback, if_neg hgoes]
  | same hsame =>
    obtain ⟨subtitles, hmem⟩ := List.exists_mem_of_ne_nil lists hne
    have hall : lists.all (·.length ≤ shared.length) :=
      List.all_eq_true.mpr fun subtitles hmem => decide_eq_true (hsame subtitles hmem)
    have hlength := hsame subtitles hmem
    rw [apart_of_not_shares h, if_pos hall]
    · rintro ⟨front, backs, -, rfl⟩
      obtain ⟨back, -, rfl⟩ := List.mem_map.mp hmem
      rw [List.length_append, List.length_singleton] at hlength
      omega
    · rintro ⟨back, fronts, -, rfl⟩
      obtain ⟨front, -, rfl⟩ := List.mem_map.mp hmem
      rw [List.length_append, List.length_singleton] at hlength
      omega

/-- A title with remarks behind it; empty ones are left out. -/
def remarked (title : String) (remarks : List String) : String :=
  let told := remarks.filter (· ≠ "")
  if told = [] then title else title ++ " (" ++ Text.join "; " told ++ ")"

/-- What is told of the stems: how many there are, if they are several. -/
def stemRemark (stems : List String) : String :=
  if 2 ≤ stems.length then numberWord stems.length ++ " different stems" else ""

theorem ofAlternant_cons (title : String) (first : List Subtitle) (rest : List (List Subtitle))
    (stems : List String) : ofAlternant title (first :: rest) stems =
      remarked title [rendered (first.take (common (first :: rest))),
        apart (common (first :: rest)) (first :: rest), stemRemark stems] := by
  have hstems : (if 1 < stems.length then [numberWord stems.length ++ " different stems"] else []) =
      [stemRemark stems].filter (· ≠ "") := by
    unfold stemRemark
    split
    · rw [if_pos (by omega), List.filter_cons_of_pos, List.filter_nil]
      simp
    · rw [if_neg (by omega)]
      rfl
  unfold ofAlternant remarked
  dsimp only
  rw [hstems, ← List.filter_append]
  simp only [List.isEmpty_iff]
  rfl

/-- The title of an alternant tells what the subtitles of all branches start with, then what sets
the branches apart, then how many stems they have. -/
theorem ofAlternant_eq_remarked (title : String) (hne : lists ≠ []) (stems : List String) :
    ∃! shared, IsShared shared lists ∧ ∃! remark, IsApart shared lists remark ∧
      ofAlternant title lists stems =
        remarked title [rendered shared, remark, stemRemark stems] := by
  obtain ⟨first, rest, rfl⟩ := List.exists_cons_of_ne_nil hne
  have hshared := isShared_take_common first rest
  have hlength : (first.take (common (first :: rest))).length = common (first :: rest) :=
    List.length_take_of_le (common_le_length first rest)
  have hapart : ∀ remark, IsApart (first.take (common (first :: rest))) (first :: rest) remark →
      apart (common (first :: rest)) (first :: rest) = remark := by
    intro remark h
    rw [← apart_eq_of_isApart hne hshared h, hlength]
  obtain ⟨remark, hremark⟩ := exists_isApart (first.take (common (first :: rest))) (first :: rest)
  refine ⟨_, ⟨hshared, remark, ⟨hremark, ?_⟩, ?_⟩, fun other h => hshared.unique h.1⟩
  · rw [ofAlternant_cons, hapart remark hremark]
  · rintro other ⟨hother, -⟩
    rw [← hapart other hother, ← hapart remark hremark]

/-- Two branches that differ in the ending of a case, with one stem. -/
theorem ofAlternant_eq_remarked_of_endings :
    [[.phrase "neuter", .pair "dative plural in " "'-ibus'"],
      [.phrase "neuter", .pair "dative plural in " "'-ubus'"]] ≠ ([] : List (List Subtitle)) ∧
    ofAlternant "fourth-declension noun" [[.phrase "neuter", .pair "dative plural in " "'-ibus'"],
      [.phrase "neuter", .pair "dative plural in " "'-ubus'"]] ["corn"] =
        "fourth-declension noun (neuter; dative plural in '-ibus' or '-ubus')" := by
  have hne : [[.phrase "neuter", .pair "dative plural in " "'-ibus'"],
      [.phrase "neuter", .pair "dative plural in " "'-ubus'"]] ≠ ([] : List (List Subtitle)) := by
    decide
  obtain ⟨shared, ⟨hshared, remark, ⟨hremark, htitle⟩, -⟩, -⟩ :=
    ofAlternant_eq_remarked "fourth-declension noun" hne ["corn"]
  have hneuter : shared = [.phrase "neuter"] := (isShared_take_common _ _).unique hshared
  subst hneuter
  refine ⟨hne, htitle.trans ?_⟩
  rw [← apart_eq_of_isApart hne hshared hremark]
  decide

end Declension.Title
