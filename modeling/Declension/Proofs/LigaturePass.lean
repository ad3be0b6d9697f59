import Declension.Proofs.Ligatures
import Declension.Proofs.Sheet
import Mathlib.Data.List.Perm.Basic

/-!
# Ligatures beside the other passes

All four pairs of letters end in the same letter, which none starts with and no ligature is. So no
ligature makes up a new pair, pairs do not overlap, and it is all one in which order they are
joined. A form in -m keeps its ending, and so does any other form; hence the pass commutes with
the variants in -n, and with the copy of one number onto the other. Main statement:
`FormMap.ligate_laws`.
-/
namespace Declension

namespace Text
variable {a b e l k : Char}

theorem fixed_eq_none_iff {old new s : List Char} : fixed old new s = none ↔ ¬ old <+: s := by
  simp [fixed]

theorem substitute_fixed_of_not_infix {old new s : List Char} (h : ¬ old <:+: s) :
    substitute (fixed old new) s = s :=
  substitute_of_none fun _ _ hv => fixed_eq_none_iff.mpr fun hstart =>
    h (hstart.isInfix.trans hv.isInfix)

/-- A character that no replaced text ends in stays at the end. -/
theorem substitute_fixed_concat {old new : List Char} {d : Char} (hold : old ≠ []) (hd : d ∉ old)
    (s : List Char) :
    substitute (fixed old new) (s ++ [d]) = substitute (fixed old new) s ++ [d] := by
  have hlast : ∀ r, old <+: r ++ [d] → old <+: r := by
    intro r hstart
    rcases List.prefix_concat_iff.mp hstart with rfl | hstart
    · exact absurd (List.mem_append_right r List.mem_cons_self) hd
    · exact hstart
  induction s using fixed_induction new hold with
  | nil =>
    rw [List.nil_append, substitute_cons_of_none, substitute_nil, List.nil_append]
    exact fixed_eq_none_iff.mpr fun hstart => hold (List.prefix_nil.mp (hlast [] hstart))
  | char c r hnone ih =>
    have hnone' : fixed old new (c :: (r ++ [d])) = none :=
      fixed_eq_none_iff.mpr fun hstart => fixed_eq_none_iff.mp hnone (hlast (c :: r) hstart)
    rw [List.cons_append, substitute_cons_of_none hnone', ih, substitute_cons_of_none hnone,
      List.cons_append]
  | hit r ih =>
    rw [List.append_assoc, substitute_old hold, ih, substitute_old hold, List.append_assoc]

/-- A text in which two letters become a third wherever they stand together. -/
def joinPair (a e l : Char) (s : List Char) : List Char := substitute (fixed [a, e] [l]) s

theorem joinPair_pair (r : List Char) : joinPair a e l (a :: e :: r) = l :: joinPair a e l r :=
  substitute_old (List.cons_ne_nil a [e]) r

theorem joinPair_cons {c : Char} {r : List Char} (h : ¬ [a, e] <+: c :: r) :
    joinPair a e l (c :: r) = c :: joinPair a e l r :=
  substitute_cons_of_none (fixed_eq_none_iff.mpr h)

theorem joinPair_cons_of_ne {c : Char} (h : c ≠ a) (r : List Char) :
    joinPair a e l (c :: r) = c :: joinPair a e l r :=
  joinPair_cons fun hstart => h (List.cons_prefix_cons.mp hstart).1.symm

theorem joinPair_induction {P : List Char → Prop} (nil : P [])
    (char : ∀ c r, ¬ [a, e] <+: c :: r → P r → P (c :: r))
    (pair : ∀ r, P r → P (a :: e :: r)) (s : List Char) : P s := by
  induction s using fixed_induction [] (List.cons_ne_nil a [e]) with
  | nil => exact nil
  | char c r hnone ih => exact char c r (fixed_eq_none_iff.mp hnone) ih
  | hit r ih => exact pair r ih

theorem head?_joinPair {d : Char} (ha : d ≠ a) (hl : d ≠ l) (s : List Char) :
    (joinPair a e l s).head? = some d ↔ s.head? = some d := by
  induction s using joinPair_induction (a := a) (e := e) with
  | nil => rfl
  | char c r hnone _ => rw [joinPair_cons hnone, List.head?_cons, List.head?_cons]
  | pair r _ => simp [joinPair_pair, Ne.symm ha, Ne.symm hl]

theorem pair_prefix_iff {c : Char} {r : List Char} :
    [a, e] <+: c :: r ↔ a = c ∧ r.head? = some e := by
  cases r <;> simp [List.cons_prefix_cons, eq_comm]

theorem pair_prefix_joinPair_iff (ha : e ≠ a) (hl : e ≠ l) {c : Char} {r : List Char} :
    [b, e] <+: c :: joinPair a e l r ↔ [b, e] <+: c :: r := by
  rw [pair_prefix_iff, pair_prefix_iff, head?_joinPair ha hl]

/-- Once two letters are joined, they stand together no more. -/
theorem not_infix_joinPair (ha : e ≠ a) (hl : e ≠ l) (hla : l ≠ a) (s : List Char) :
    ¬ [a, e] <:+: joinPair a e l s := by
  induction s using joinPair_induction (a := a) (e := e) with
  | nil => simp [joinPair]
  | char c r hnone ih =>
    rw [joinPair_cons hnone, List.infix_cons_iff, pair_prefix_joinPair_iff ha hl, not_or]
    exact ⟨hnone, ih⟩
  | pair r ih =>
    rw [joinPair_pair, List.infix_cons_iff, pair_prefix_iff, not_or]
    exact ⟨fun h => hla h.1.symm, ih⟩

/-- Pairs with one second letter are joined in any order. -/
theorem joinPair_comm (hab : a ≠ b) (ha : e ≠ a) (hb : e ≠ b) (hl : e ≠ l) (hk : e ≠ k)
    (hlb : l ≠ b) (hka : k ≠ a) (s : List Char) :
    joinPair b e k (joinPair a e l s) = joinPair a e l (joinPair b e k s) := by
  induction s using joinPair_induction (a := a) (e := e) with
  | nil => rfl
  | pair r ih =>
    rw [joinPair_pair, joinPair_cons_of_ne hlb, joinPair_cons_of_ne hab, joinPair_cons_of_ne hb,
      joinPair_pair, ih]
  | char c r hnone ih =>
    rw [joinPair_cons hnone]
    by_cases hother : [b, e] <+: c :: r
    · obtain ⟨rfl, hhead⟩ := pair_prefix_iff.mp hother
      obtain ⟨v, rfl⟩ := List.head?_eq_some_iff.mp hhead
      rw [joinPair_cons_of_ne ha, joinPair_cons_of_ne hb, joinPair_cons_of_ne hb,
        joinPair_cons_of_ne ha] at ih
      rw [joinPair_cons_of_ne ha, joinPair_pair, joinPair_pair, joinPair_cons_of_ne hka,
        (List.cons.inj ih).2]
    · rw [joinPair_cons (mt (pair_prefix_joinPair_iff ha hl).mp hother), ih, joinPair_cons hother,
        joinPair_cons (mt (pair_prefix_joinPair_iff hb hk).mp hnone)]

end Text

/-- A form in which pairs of letters are joined one after the other. -/
def ligateBy (pairs : List (String × String)) (form : String) : String :=
  pairs.foldl (fun form (plain, joined) => Text.replace plain joined form) form

theorem ligateBy_cons (pair : String × String) (pairs : List (String × String)) (form : String) :
    ligateBy (pair :: pairs) form = ligateBy pairs (Text.replace pair.1 pair.2 form) :=
  rfl

theorem ligateBy_concat (pairs : List (String × String)) (pair : String × String) (form : String) :
    ligateBy (pairs ++ [pair]) form = Text.replace pair.1 pair.2 (ligateBy pairs form) :=
  List.foldl_append

theorem exists_of_mem_ligatures {pair : String × String} (h : pair ∈ ligatures) :
    ∃ first joined, pair.1.toList = [first, 'e'] ∧ pair.2.toList = [joined] ∧
      'e' ≠ first ∧ isLigature first = false ∧ isLigature joined := by
  simp only [ligatures, List.mem_cons, List.not_mem_nil, or_false] at h
  rcases h with rfl | rfl | rfl | rfl
  · exact ⟨'A', 'Æ', by decide⟩
  · exact ⟨'O', 'Œ', by decide⟩
  · exact ⟨'a', 'æ', by decide⟩
  · exact ⟨'o', 'œ', by decide⟩

theorem eq_of_head?_eq : ∀ pair ∈ ligatures, ∀ other ∈ ligatures,
    pair.1.toList.head? = other.1.toList.head? → pair = other := by
  decide

theorem ne_of_isLigature {c d : Char} (hc : isLigature c) (hd : isLigature d = false) : c ≠ d := by
  rintro rfl
  rw [hd] at hc
  cases hc

theorem toList_replace_of_pair {first joined : Char} {pair : String × String}
    (hplain : pair.1.toList = [first, 'e']) (hjoined : pair.2.toList = [joined]) (form : String) :
    (Text.replace pair.1 pair.2 form).toList = Text.joinPair first 'e' joined form.toList := by
  rw [Text.replace, String.toList_ofList, hplain, hjoined, Text.joinPair]

theorem replace_comm {pair other : String × String} (hpair : pair ∈ ligatures)
    (hother : other ∈ ligatures) (form : String) :
    Text.replace other.1 other.2 (Text.replace pair.1 pair.2 form) =
      Text.replace pair.1 pair.2 (Text.replace other.1 other.2 form) := by
  by_cases hsame : pair = other
  · rw [hsame]
  · obtain ⟨a, l, hplain, hjoined, ha, ha', hl⟩ := exists_of_mem_ligatures hpair
    obtain ⟨b, k, hplain', hjoined', hb, hb', hk⟩ := exists_of_mem_ligatures hother
    have hab : a ≠ b := by
      rintro rfl
      exact hsame (eq_of_head?_eq pair hpair other hother (by rw [hplain, hplain']))
    have hle : 'e' ≠ l := (ne_of_isLigature hl (by decide)).symm
    have hke : 'e' ≠ k := (ne_of_isLigature hk (by decide)).symm
    apply String.toList_injective
    rw [toList_replace_of_pair hplain' hjoined', toList_replace_of_pair hplain hjoined,
      toList_replace_of_pair hplain hjoined, toList_replace_of_pair hplain' hjoined']
    exact Text.joinPair_comm hab ha hb hle hke (ne_of_isLigature hl hb') (ne_of_isLigature hk ha')
      form.toList

theorem ligateBy_perm {pairs : List (String × String)} (h : pairs.Perm ligatures) (form : String) :
    ligateBy pairs form = ligate form := by
  refine h.foldl_eq' (fun pair hpair other hother form => ?_) form
  exact replace_comm (h.subset hpair) (h.subset hother) form

theorem not_infix_ligate {pair : String × String} (h : pair ∈ ligatures) (form : String) :
    ¬ pair.1.toList <:+: (ligate form).toList := by
  have hlast : (ligatures.erase pair ++ [pair]).Perm ligatures :=
    List.perm_append_comm.trans (List.perm_cons_erase h).symm
  obtain ⟨a, l, hplain, hjoined, ha, ha', hl⟩ := exists_of_mem_ligatures h
  rw [← ligateBy_perm hlast, ligateBy_concat, toList_replace_of_pair hplain hjoined, hplain]
  exact Text.not_infix_joinPair ha (ne_of_isLigature hl (by decide)).symm
    (ne_of_isLigature hl ha') _

theorem ligate_of_not_infix {form : String}
    (h : ∀ pair ∈ ligatures, ¬ pair.1.toList <:+: form.toList) : ligate form = form := by
  refine ligate_preserves (P := (· = form)) (fun pair hpair f hf => ?_) rfl
  rw [hf, Text.replace, Text.substitute_fixed_of_not_infix (h pair hpair), String.ofList_toList]

theorem ligate_ligate (form : String) : ligate (ligate form) = ligate form :=
  ligate_of_not_infix fun _ hpair => not_infix_ligate hpair form

theorem replace_push {old new : String} {d : Char} (hold : old.toList ≠ []) (hd : d ∉ old.toList)
    (form : String) : Text.replace old new (form.push d) = (Text.replace old new form).push d := by
  apply String.toList_injective
  rw [Text.replace, String.toList_ofList, String.toList_push, String.toList_push,
    Text.substitute_fixed_concat hold hd, Text.replace, String.toList_ofList]

theorem ligateBy_push {pairs : List (String × String)} {d : Char}
    (h : ∀ pair ∈ pairs, pair.1.toList ≠ [] ∧ d ∉ pair.1.toList) (form : String) :
    ligateBy pairs (form.push d) = (ligateBy pairs form).push d := by
  induction pairs generalizing form with
  | nil => rfl
  | cons pair pairs ih =>
    obtain ⟨hpair, hpairs⟩ := List.forall_mem_cons.mp h
    rw [ligateBy_cons, replace_push hpair.1 hpair.2, ih hpairs, ligateBy_cons]

theorem endsIn_m_iff {form : String} : Text.endsIn "m" form ↔ ∃ front : String,
    form = front.push 'm' := by
  rw [endsIn_iff]
  constructor
  · rintro ⟨front, hfront⟩
    refine ⟨String.ofList front, String.toList_injective ?_⟩
    rw [hfront, String.toList_push, String.toList_ofList]
    simp
  · rintro ⟨front, rfl⟩
    exact ⟨front.toList, String.toList_push 'm'⟩

theorem withNasal_push (front : String) :
    withNasal (front.push 'm') = [front.push 'n', front.push 'm'] := by
  have hends : Text.endsIn "m" (front.push 'm') := endsIn_m_iff.mpr ⟨front, rfl⟩
  have hnasal : Text.dropEnding "m" (front.push 'm') ++ "n" = front.push 'n' := by
    apply String.toList_injective
    rw [toList_nasal (String.toList_push 'm'), String.toList_push]
  rw [withNasal, if_pos hends, hnasal]

theorem getLast?_spellOut (c : Char) :
    (spellOut c).getLast? = some (if isLigature c then 'e' else c) := by
  unfold spellOut
  split_ifs <;> simp_all [isLigature]

/-- Ligatures do not bring a form to end in -m. -/
theorem endsIn_of_ligate {form : String} (h : Text.endsIn "m" (ligate form)) :
    Text.endsIn "m" form := by
  obtain ⟨front, hfront⟩ := endsIn_iff.mp h
  have hspelt := congrArg List.getLast? (flatMap_spellOut_ligate form)
  have hm : (spellOut 'm').getLast? = some 'm' := by decide
  rw [hfront, List.flatMap_append] at hspelt
  rcases List.eq_nil_or_concat' form.toList with hnil | ⟨s, c, hs⟩
  · rw [hnil] at hspelt
    simp [hm] at hspelt
  · rw [hs] at hspelt
    have hlast : some 'm' = some (if isLigature c then 'e' else c) := by
      simpa [hm, getLast?_spellOut] using hspelt
    split at hlast
    · cases hlast
    · cases hlast
      exact endsIn_iff.mpr ⟨s, hs⟩

theorem withNasal_ligate (form : String) :
    withNasal (ligate form) = (withNasal form).map ligate := by
  by_cases h : Text.endsIn "m" form
  · obtain ⟨front, rfl⟩ := endsIn_m_iff.mp h
    have hm : ligate (front.push 'm') = (ligate front).push 'm' :=
      ligateBy_push (by decide) front
    have hn : ligate (front.push 'n') = (ligate front).push 'n' :=
      ligateBy_push (by decide) front
    rw [hm, withNasal_push, withNasal_push, List.map_cons, List.map_cons, hm, hn, List.map_nil]
  · rw [withNasal_of_not_endsIn h, withNasal_of_not_endsIn (mt endsIn_of_ligate h),
      List.map_singleton]

namespace FormMap

theorem forms_mapWithKey {f : Slot → List String → List String} {slot : Slot}
    (hnil : f slot [] = []) (m : FormMap) :
    forms (m.mapWithKey f) slot = f slot (m.forms slot) := by
  rw [forms, OrderedMap.get?_mapWithKey, forms]
  cases m.get? slot with
  | none => exact hnil.symm
  | some list => rfl

/-- Spells every filled slot with the given pairs joined, one after the other. -/
def ligateBy (pairs : List (String × String)) (isAdj : Bool) (m : FormMap) : FormMap :=
  (Slot.run isAdj).foldl (fun m s => m.modify s (·.map (Declension.ligateBy pairs))) m

theorem ligate_eq (isAdj : Bool) (m : FormMap) : m.ligate isAdj =
    m.mapWithKey fun s forms =>
      if s ∈ Slot.run isAdj then forms.map Declension.ligate else forms :=
  OrderedMap.foldl_modify_eq _ (Slot.nodup_run isAdj) m

theorem addNasals_eq (isAdj : Bool) (m : FormMap) : m.addNasals isAdj =
    m.mapWithKey fun s forms => if s ∈ Slot.run isAdj then forms.flatMap withNasal else forms :=
  OrderedMap.foldl_modify_eq _ (Slot.nodup_run isAdj) m

theorem forms_ligate (isAdj : Bool) (m : FormMap) (slot : Slot) : (m.ligate isAdj).forms slot =
    if slot ∈ Slot.run isAdj then (m.forms slot).map Declension.ligate else m.forms slot := by
  rw [ligate_eq, forms_mapWithKey (by simp)]

theorem ligateBy_of_perm {pairs : List (String × String)} (h : pairs.Perm ligatures)
    (isAdj : Bool) (m : FormMap) : m.ligateBy pairs isAdj = m.ligate isAdj := by
  have hform : Declension.ligateBy pairs = Declension.ligate := funext (ligateBy_perm h)
  rw [ligateBy, hform, ligate]

theorem ligate_idem (isAdj : Bool) (m : FormMap) :
    (m.ligate isAdj).ligate isAdj = m.ligate isAdj := by
  rw [ligate_eq, ligate_eq, OrderedMap.mapWithKey_mapWithKey]
  congr 1
  funext s forms
  split
  · simp [ligate_ligate]
  · rfl

theorem ligate_addNasals (isAdj : Bool) (m : FormMap) :
    (m.ligate isAdj).addNasals isAdj = (m.addNasals isAdj).ligate isAdj := by
  rw [ligate_eq, addNasals_eq, addNasals_eq, ligate_eq, OrderedMap.mapWithKey_mapWithKey,
    OrderedMap.mapWithKey_mapWithKey]
  congr 1
  funext s forms
  split
  · rw [List.flatMap_map, List.map_flatMap]
    exact congrArg (forms.flatMap ·) (funext withNasal_ligate)
  · rfl

theorem mirrorSlot_mapWithKey {f : Slot → List String → List String} {s : Slot}
    (hnil : f s [] = []) (hmirror : f s.mirror = f s) (n : Number) (m : FormMap) :
    mirrorSlot n (m.mapWithKey f) s = (mirrorSlot n m s).mapWithKey f := by
  unfold mirrorSlot
  split
  · rw [forms_mapWithKey hnil, OrderedMap.mapWithKey_insert, hmirror]
  · rfl

theorem foldl_mirrorSlot_mapWithKey {f : Slot → List String → List String} {slots : List Slot}
    (h : ∀ s ∈ slots, f s [] = [] ∧ f s.mirror = f s) (n : Number) (m : FormMap) :
    slots.foldl (mirrorSlot n) (m.mapWithKey f) = (slots.foldl (mirrorSlot n) m).mapWithKey f := by
  induction slots generalizing m with
  | nil => rfl
  | cons s slots ih =>
    obtain ⟨⟨hnil, hmirror⟩, hslots⟩ := List.forall_mem_cons.mp h
    rw [List.foldl_cons, mirrorSlot_mapWithKey hnil hmirror, ih hslots, List.foldl_cons]

theorem ligate_mirrorNumber (n : Number) (isAdj : Bool) (m : FormMap) :
    (m.ligate isAdj).mirrorNumber n isAdj = (m.mirrorNumber n isAdj).ligate isAdj := by
  rw [ligate_eq, ligate_eq]
  refine foldl_mirrorSlot_mapWithKey (fun s hs => ?_) n m
  simp [hs, Slot.mirror_mem_run.mpr hs]

theorem ligate_mirrorOnly (num : Option NumberUse) (isAdj : Bool) (m : FormMap) :
    Segment.mirrorOnly isAdj num (m.ligate isAdj) =
      (Segment.mirrorOnly isAdj num m).ligate isAdj := by
  unfold Segment.mirrorOnly
  cases num.bind NumberUse.only? with
  | none => rfl
  | some n => exact ligate_mirrorNumber n isAdj m

/-- After the pass no pair of letters is left to join, in whichever order the pairs were joined; a
second pass changes nothing. It does not matter whether variants in -n are added, or one number
copied, before or after it. No slot gains or loses a form. -/
theorem ligate_laws (isAdj : Bool) (m : FormMap) :
    (∀ slot ∈ Slot.run isAdj, ∀ form ∈ (m.ligate isAdj).forms slot,
      ∀ letters ∈ ["Ae", "Oe", "ae", "oe"], ¬ letters.toList <:+: form.toList) ∧
    (m.ligate isAdj).ligate isAdj = m.ligate isAdj ∧
    (∀ pairs, pairs.Perm ligatures → m.ligateBy pairs isAdj = m.ligate isAdj) ∧
    (m.ligate isAdj).addNasals isAdj = (m.addNasals isAdj).ligate isAdj ∧
    (∀ num, Segment.mirrorOnly isAdj num (m.ligate isAdj) =
      (Segment.mirrorOnly isAdj num m).ligate isAdj) ∧
    ∀ slot, ((m.ligate isAdj).forms slot).length = (m.forms slot).length := by
  refine ⟨?_, ligate_idem isAdj m, fun pairs h => ligateBy_of_perm h isAdj m,
    ligate_addNasals isAdj m, fun num => ligate_mirrorOnly num isAdj m, ?_⟩
  · intro slot hslot form hform letters hletters
    rw [forms_ligate, if_pos hslot] at hform
    obtain ⟨plain, -, rfl⟩ := List.mem_map.mp hform
    have hpair : ∀ letters ∈ ["Ae", "Oe", "ae", "oe"], ∃ pair ∈ ligatures, pair.1 = letters := by
      decide
    obtain ⟨pair, hmem, rfl⟩ := hpair letters hletters
    exact not_infix_ligate hmem plain
  · intro slot
    rw [forms_ligate]
    split
    · rw [List.length_map]
    · rfl

theorem ligate_laws_of_aetas :
    let m : FormMap := .ofList [(.sg .nom, ["aetas"]), (.sg .acc, ["aetatem", "Poenam"])]
    Slot.sg .acc ∈ Slot.run false ∧ "Pœnam" ∈ (m.ligate false).forms (.sg .acc) ∧
      "oe" ∈ ["Ae", "Oe", "ae", "oe"] ∧ ¬ "oe".toList <:+: "Pœnam".toList ∧
      ligatures.reverse.Perm ligatures ∧
      m.ligateBy ligatures.reverse false = m.ligate false ∧
      ((m.ligate false).addNasals false).forms (.sg .acc) =
        ["ætaten", "ætatem", "Pœnan", "Pœnam"] := by
  intro m
  have hslot : Slot.sg .acc ∈ Slot.run false := by decide
  have hform : "Pœnam" ∈ (m.ligate false).forms (.sg .acc) := by decide +kernel
  have hletters : "oe" ∈ ["Ae", "Oe", "ae", "oe"] := by decide
  have hforms : ((m.ligate false).addNasals false).forms (.sg .acc) =
      ["ætaten", "ætatem", "Pœnan", "Pœnam"] := by decide +kernel
  obtain ⟨hjoined, -, horder, -⟩ := ligate_laws false m
  have hgone := hjoined _ hslot _ hform _ hletters
  have hsame := horder _ (List.reverse_perm ligatures)
  exact ⟨hslot, hform, hletters, hgone, List.reverse_perm ligatures, hsame, hforms⟩

end FormMap

end Declension
