import Declension.Proofs.NumberMirror
import Declension.Proofs.Reading

/-!
# Marks for what a word lacks

A word is declined by the traits it has. What it is marked as lacking is told in its subtitles, and
so in titles, and nowhere else: two words that agree in their traits have the same forms, notes,
categories and footnotes. Main statement: `compose_lacking`, for words that are marked by hand and
for the branches of an alternant, which are marked for what sets them apart.
-/
namespace Declension

/-- The same paradigm under other subtitles. -/
inductive Paradigm.Retitled (p : Paradigm) : Paradigm → Prop
  | mk (subtitles : List Subtitle) : Retitled p { p with subtitles }

/-- The same composition under other titles and subtitles. -/
inductive Composition.Retitled (c : Composition) : Composition → Prop
  | mk (titles : List String) (subtitles : List Subtitle) : Retitled c { c with titles, subtitles }

theorem Paradigm.Retitled.of_eq {p q : Paradigm} (h : { p with subtitles := q.subtitles } = q) :
    p.Retitled q :=
  h ▸ .mk q.subtitles

theorem Paradigm.Retitled.refl (p : Paradigm) : p.Retitled p := .mk p.subtitles

theorem Paradigm.Retitled.same {p q : Paradigm} (h : p = q) : p.Retitled q := h ▸ .refl p

namespace Composition

theorem Retitled.refl (c : Composition) : c.Retitled c := .mk c.titles c.subtitles

theorem Retitled.append {a b c d : Composition} (h : a.Retitled b) (hcd : c.Retitled d) :
    (a.append c).Retitled (b.append d) := by
  cases h
  cases hcd
  exact .mk _ _

theorem Retitled.concat {cs ds : List Composition} (h : List.Forall₂ Retitled cs ds) :
    (Composition.concat cs).Retitled (Composition.concat ds) :=
  List.rel_foldl (fun _ _ hab _ _ hcd => hab.append hcd) (.refl unit) h

theorem Retitled.blankNumber {c d : Composition} (h : c.Retitled d) (n : Number) :
    (c.blankNumber n).Retitled (d.blankNumber n) := by
  cases h
  exact .mk _ _

namespace Retitled
variable {c d : Composition} (h : c.Retitled d)
include h

theorem cell : c.cell = d.cell := by
  cases h
  rfl

theorem categories : c.categories = d.categories := by
  cases h
  rfl

theorem footnotes : c.footnotes = d.footnotes := by
  cases h
  rfl

theorem voc : c.voc = d.voc := by
  cases h
  rfl

theorem noneut : c.noneut = d.noneut := by
  cases h
  rfl

end Retitled

end Composition

namespace Lexeme

/-- Two words with the same stems, use and traits; what they lack may be marked differently. -/
structure Alike (v w : Lexeme) : Prop where
  stem : v.stem = w.stem
  oblique : v.oblique = w.oblique
  num : v.num = w.num
  gender : v.gender = w.gender
  loc : v.loc = w.loc
  pos : v.pos = w.pos
  has : ∀ t, v.has t = w.has t

theorem Alike.obliqueStem {v w : Lexeme} (h : v.Alike w) : v.obliqueStem = w.obliqueStem := by
  simp only [Lexeme.obliqueStem, h.stem, h.oblique]

theorem Alike.has_add {v w : Lexeme} (h : v.Alike w) (x t : Trait) :
    (v.tags.add (.has x)).has t = (w.tags.add (.has x)).has t := by
  have ht : v.tags.has t ↔ w.tags.has t := Bool.eq_iff_iff.mp (h.has t)
  rw [TagSet.has_iff, TagSet.has_iff] at ht
  rw [Bool.eq_iff_iff, TagSet.has_iff, TagSet.has_iff, TagSet.mem_add, TagSet.mem_add, ht]

end Lexeme

namespace Noun
variable {v w : Lexeme}

theorem retitled_first (h : v.Alike w) : (first v).Retitled (first w) := by
  apply Paradigm.Retitled.of_eq
  simp only [first, First.endings, h.stem, h.loc, h.has]

theorem Second.hasOldGenitive_of_alike (h : v.Alike w) : hasOldGenitive v = hasOldGenitive w := by
  simp only [hasOldGenitive, h.has]

theorem Second.isIStem_of_alike (h : v.Alike w) : isIStem v = isIStem w := by
  simp only [isIStem, h.has]

theorem retitled_second (h : v.Alike w) (o : Options) : (second o v).Retitled (second o w) := by
  apply Paradigm.Retitled.of_eq
  simp only [second, Second.onStem, Second.onOblique, Second.notes, Second.neuterType,
    Second.hasOldGenitive_of_alike h, Second.isIStem_of_alike h, h.stem, h.obliqueStem, h.loc, h.has]

theorem retitled_fourth (h : v.Alike w) : (fourth v).Retitled (fourth w) := by
  apply Paradigm.Retitled.of_eq
  simp only [fourth, Fourth.endings, h.stem, h.loc, h.has]

theorem fifth_of_alike (h : v.Alike w) : fifth v = fifth w := by
  simp only [fifth, Fifth.endings, Fifth.stem, h.stem, h.loc, h.has]

theorem invariable_of_alike (h : v.Alike w) : invariable v = invariable w := by
  simp only [invariable, h.stem, h.loc]

theorem indeclinable_of_alike (h : v.Alike w) : indeclinable v = indeclinable w := by
  simp only [indeclinable, h.stem]

theorem irregular_of_alike (h : v.Alike w) (t : Tables) : irregular t v = irregular t w := by
  simp only [irregular, h.stem, h.pos]

namespace Third

theorem greek?_of_alike (h : v.Alike w) : greek? v = greek? w := by
  simp only [greek?, h.has]

theorem greekStem_of_alike (h : v.Alike w) : greekStem v = greekStem w := by
  simp only [greekStem, greek?_of_alike h, h.stem]

theorem bareStem_of_alike (h : v.Alike w) (stem : String) : bareStem v stem = bareStem w stem := by
  simp only [bareStem, h.has]

theorem accusative?_of_alike (h : v.Alike w) : accusative? v = accusative? w := by
  simp only [accusative?, h.has]

theorem ablative?_of_alike (h : v.Alike w) : ablative? v = ablative? w := by
  simp only [ablative?, h.has]

theorem isIStem_of_alike (h : v.Alike w) : isIStem v = isIStem w := by
  simp only [isIStem, accusative?_of_alike h, ablative?_of_alike h, h.has]

theorem forms_of_alike (h : v.Alike w) (o : Options) (greekStem bareStem : String) :
    forms o v greekStem bareStem = forms o w greekStem bareStem := by
  simp only [forms, greekForms, kindForms, iStem, isIStem_of_alike h, greek?_of_alike h,
    accusative?_of_alike h, ablative?_of_alike h, h.stem, h.obliqueStem, h.loc, h.has]

theorem notes_of_alike (h : v.Alike w) : notes v = notes w := by
  simp only [notes, greek?_of_alike h, h.stem, h.has]

end Third

theorem agree_third (h : v.Alike w) (o : Options) :
    Agree Paradigm.Retitled (third o v) (third o w) := by
  unfold third
  rw [Third.greekStem_of_alike h]
  refine (Agree.refl (fun _ => rfl) _).bind ?_
  rintro greek _ rfl
  rw [Third.bareStem_of_alike h]
  refine (Agree.refl (fun _ => rfl) _).bind ?_
  rintro bare _ rfl
  apply Agree.ok
  rw [Third.forms_of_alike h, Third.notes_of_alike h]
  exact .mk _

/-- A noun is declined by what it has, not by what it lacks. -/
theorem agree_decline (h : v.Alike w) (e : Engine) (c : Class) :
    Agree Paradigm.Retitled (decline e v c) (decline e w c) := by
  cases c with
  | first => exact .ok (retitled_first h)
  | second => exact .ok (retitled_second h e.options)
  | third => exact agree_third h e.options
  | fourth => exact .ok (retitled_fourth h)
  | fifth => exact .ok (.same (fifth_of_alike h))
  | invariable => exact .ok (.same (invariable_of_alike h))
  | indeclinable => exact .ok (.same (indeclinable_of_alike h))
  | irregular =>
    simp only [decline, irregular_of_alike h]
    exact Agree.refl Paradigm.Retitled.refl _

end Noun

namespace Adjective
variable {v w : Lexeme}

theorem indeclinable_of_alike (h : v.Alike w) : indeclinable v = indeclinable w := by
  simp only [indeclinable, h.stem, h.pos]

theorem FirstSecond.stem_of_alike (h : v.Alike w) : stem v = stem w := by
  simp only [stem, h.stem, h.obliqueStem, h.has]

theorem FirstSecond.isGreek_of_alike (h : v.Alike w) : isGreek v = isGreek w := by
  simp only [isGreek, h.has]

theorem agree_firstSecond (h : v.Alike w) :
    Agree Paradigm.Retitled (firstSecond v) (firstSecond w) := by
  have hr : FirstSecond.rType? v = FirstSecond.rType? w := by
    simp only [FirstSecond.rType?, h.stem, h.has]
  unfold firstSecond
  rw [hr]
  refine (Agree.refl (fun _ => rfl) _).bind ?_
  rintro r _ rfl
  apply Agree.ok
  apply Paradigm.Retitled.of_eq
  simp only [FirstSecond.forms, FirstSecond.endings, FirstSecond.stem_of_alike h,
    FirstSecond.title, FirstSecond.categories, FirstSecond.isGreek_of_alike h, h.stem, h.gender,
    h.pos, h.has]

theorem firstFirst_of_alike (h : v.Alike w) : firstFirst v = firstFirst w := by
  simp only [firstFirst, h.stem, h.pos]

theorem secondSecond_of_alike (h : v.Alike w) : secondSecond v = secondSecond w := by
  simp only [secondSecond, h.stem, h.pos, h.has]

theorem ThirdOne.isInEs_of_alike (h : v.Alike w) : isInEs v = isInEs w := by
  simp only [isInEs, h.stem, h.obliqueStem]

theorem ThirdOne.forms_of_alike (h : v.Alike w) : forms v = forms w := by
  simp only [forms, isInEs_of_alike h, h.stem, h.obliqueStem, h.has]

theorem ThirdOne.notes_of_alike (h : v.Alike w) : notes v = notes w := by
  simp only [notes, isInEs_of_alike h, h.has]

theorem retitled_thirdOne (h : v.Alike w) : (thirdOne v).Retitled (thirdOne w) := by
  apply Paradigm.Retitled.of_eq
  simp only [thirdOne, ThirdOne.forms_of_alike h, ThirdOne.notes_of_alike h, thirdTitle, h.gender,
    h.pos]

theorem Comparative.asThirdOne_alike (h : v.Alike w) : (asThirdOne v).Alike (asThirdOne w) where
  stem := by simp only [asThirdOne, h.stem]
  oblique := by simp only [asThirdOne, h.stem]
  num := h.num
  gender := h.gender
  loc := h.loc
  pos := h.pos
  has := h.has_add .par

theorem comparative_of_alike (h : v.Alike w) : comparative v = comparative w := by
  simp only [comparative, ThirdOne.forms_of_alike (Comparative.asThirdOne_alike h),
    ThirdOne.notes_of_alike (Comparative.asThirdOne_alike h), h.stem, h.pos]

theorem retitled_participle (h : v.Alike w) (o : Options) :
    (participle o v).Retitled (participle o w) := by
  apply Paradigm.Retitled.of_eq
  simp only [participle, ThirdOne.forms_of_alike h, ThirdOne.notes_of_alike h,
    Participle.endings, Participle.ablative, h.obliqueStem, h.pos, h.has]

theorem thirdTwo_of_alike (h : v.Alike w) : thirdTwo v = thirdTwo w := by
  simp only [thirdTwo, thirdTitle, h.stem, h.gender, h.pos]

theorem thirdThree_of_alike (h : v.Alike w) : thirdThree v = thirdThree w := by
  simp only [thirdThree, thirdTitle, h.stem, h.obliqueStem, h.gender, h.pos]

theorem asPronominal_alike (h : v.Alike w) (stem : String) :
    (asPronominal v stem).Alike (asPronominal w stem) where
  stem := rfl
  oblique := rfl
  num := h.num
  gender := h.gender
  loc := h.loc
  pos := h.pos
  has := h.has_add .ius

theorem agree_demonstrative (h : v.Alike w) (stem neuter : String) :
    Agree Paradigm.Retitled (demonstrative v stem neuter) (demonstrative w stem neuter) := by
  unfold demonstrative
  refine (agree_firstSecond (asPronominal_alike h stem)).bind ?_
  rintro p _ ⟨subtitles⟩
  apply Agree.ok
  rw [h.stem]
  exact .mk subtitles

theorem agree_irregular (h : v.Alike w) (t : Tables) :
    Agree Paradigm.Retitled (irregular t v) (irregular t w) := by
  unfold irregular
  rw [h.stem, h.pos]
  split
  · exact agree_demonstrative h _ _
  · exact Agree.refl Paradigm.Retitled.refl _

/-- An adjective is declined by what it has, not by what it lacks. -/
theorem agree_decline (h : v.Alike w) (e : Engine) (c : Class) :
    Agree Paradigm.Retitled (decline e v c) (decline e w c) := by
  cases c with
  | indeclinable => exact .ok (.same (indeclinable_of_alike h))
  | firstSecond => exact agree_firstSecond h
  | firstFirst => exact .ok (.same (firstFirst_of_alike h))
  | secondSecond => exact .ok (.same (secondSecond_of_alike h))
  | thirdOne => exact .ok (retitled_thirdOne h)
  | comparative => exact .ok (.same (comparative_of_alike h))
  | participle => exact .ok (retitled_participle h e.options)
  | thirdTwo => exact .ok (.same (thirdTwo_of_alike h))
  | thirdThree => exact .ok (.same (thirdThree_of_alike h))
  | irregular => exact agree_irregular h e.tables

end Adjective

namespace Segment

/-- The word marked as lacking more. -/
def lacking (s : Segment) (extra : List Tag) : Segment :=
  { s with tags := s.tags ++ extra.map .lacks }

variable (s : Segment) (extra : List Tag)

theorem has_lacking (t : Trait) : (s.lacking extra).tags.has t = s.tags.has t := by
  simp [lacking, TagSet.has]

theorem lexeme_lacking_alike (pos : String) (isAdj : Bool) (num : Option NumberUse)
    (gender : Option Gender) (loc : Bool) :
    (s.lexeme pos isAdj num gender loc).Alike
      ((s.lacking extra).lexeme pos isAdj num gender loc) where
  stem := rfl
  oblique := rfl
  num := rfl
  gender := rfl
  loc := rfl
  pos := rfl
  has t := (has_lacking s extra t).symm

theorem agree_decline_lacking {v w : Lexeme} (h : v.Alike w) (e : Engine) :
    Agree Paradigm.Retitled (s.decline e v) ((s.lacking extra).decline e w) := by
  unfold decline
  rw [show (s.lacking extra).isAdj = s.isAdj from rfl,
    show (s.lacking extra).decl = s.decl from rfl]
  split
  · split
    · exact Adjective.agree_decline h e _
    · exact .error _
  · split
    · exact Noun.agree_decline h e _
    · exact .error _

/-- The title of a noun is that of its class; only its remarks tell what the noun lacks. -/
theorem agree_withTitle_lacking {p q : Paradigm} (h : p.Retitled q) (t : Tables) :
    Agree Paradigm.Retitled (s.withTitle t p) ((s.lacking extra).withTitle t q) := by
  obtain ⟨subtitles⟩ := h
  unfold withTitle
  dsimp only
  rw [show (s.lacking extra).isAdj = s.isAdj from rfl]
  split
  · exact .ok (.mk subtitles)
  · refine (Agree.refl (fun _ => rfl) (s.nounTitle t)).bind ?_
    rintro title _ rfl
    exact .ok (.mk _)

/-- A word declines alike whatever it is marked as lacking, but for its subtitles. -/
theorem agree_paradigm_lacking (e : Engine) (pos : String) (isAdj : Bool)
    (num : Option NumberUse) (gender : Option Gender) (loc : Bool) :
    Agree Paradigm.Retitled (s.paradigm e (s.lexeme pos isAdj num gender loc))
      ((s.lacking extra).paradigm e ((s.lacking extra).lexeme pos isAdj num gender loc)) := by
  unfold paradigm
  have halike := s.lexeme_lacking_alike extra pos isAdj num gender loc
  refine (s.agree_decline_lacking extra halike e).bind fun p q hpq => ?_
  refine (s.agree_withTitle_lacking extra hpq e.tables).bind fun p q hpq => ?_
  obtain ⟨subtitles⟩ := hpq
  exact .ok (.mk _)

theorem finish_lacking (num : Option NumberUse) (m : FormMap) :
    (s.lacking extra).finish num m = s.finish num m := by
  simp only [finish, has_lacking]
  rfl

theorem retitled_contribution_lacking {p q : Paradigm} (h : p.Retitled q) (isAdj : Bool)
    (num : Option NumberUse) (gender : Option Gender) :
    (s.contribution isAdj num gender p).Retitled
      ((s.lacking extra).contribution isAdj num gender q) := by
  obtain ⟨subtitles⟩ := h
  unfold contribution
  simp only [finish_lacking, has_lacking]
  exact .mk _ _

/-- A word gives the same to its run whatever it is marked as lacking, but for titles. -/
theorem agree_compose_lacking (e : Engine) (pos : String) (isAdj : Bool) (run : Summary) :
    Agree Composition.Retitled (s.compose e pos isAdj run)
      ((s.lacking extra).compose e pos isAdj run) := by
  unfold compose
  refine (s.agree_paradigm_lacking extra e pos isAdj _ _ run.loc).bind fun p q hpq => ?_
  rw [show (s.lacking extra).misfit? isAdj ((s.lacking extra).gender <|> run.gender) =
    s.misfit? isAdj (s.gender <|> run.gender) from rfl]
  split
  · exact .error _
  · exact .ok (s.retitled_contribution_lacking extra hpq isAdj _ _)

end Segment

variable (e : Engine) (pos : String) (isAdj : Bool)

theorem Composition.mergedCell_of_retitled {cs ds : List Composition}
    (h : List.Forall₂ Composition.Retitled cs ds) :
    mergedCell cs = mergedCell ds := by
  funext slot
  cases h with
  | nil => rfl
  | cons hfirst hrest =>
    rw [mergedCell_cons, mergedCell_cons, hfirst.cell,
      map_eq_of_forall₂ hrest fun _ _ hcd => congrFun hcd.cell slot]

namespace Alternant
variable (a : Alternant) (run : Summary)

theorem agree_markPiece (all : TagSet) (p : Piece) :
    Agree Composition.Retitled (p.compose e pos isAdj run)
      ((markPiece all p).compose e pos isAdj run) := by
  cases p with
  | literal l => exact Agree.refl Composition.Retitled.refl _
  | word s =>
    by_cases hs : s.decl = ""
    · rw [markPiece, if_pos hs]
      exact Agree.refl Composition.Retitled.refl _
    · rw [markPiece, if_neg hs]
      exact s.agree_compose_lacking (all.filter (!s.tags.contains ·)) e pos isAdj run

theorem agree_compose_markRun (all : TagSet) (b : PlainRun) :
    Agree Composition.Retitled (b.compose e pos isAdj) ((markRun all b).compose e pos isAdj) := by
  unfold PlainRun.compose
  refine (Agree.mapM ?_).bind fun cs ds h => .ok (.concat h)
  rw [markRun, List.forall₂_map_right_iff, List.forall₂_same]
  exact fun p _ => agree_markPiece e pos isAdj b.summary all p

/-- Declines an alternant with the given branches in the place of its own. -/
def composeAs (branches : List PlainRun) : Except Fault Composition := do
  let composed ← branches.mapM fun b => composeBranch e pos isAdj (a.settle run b)
  if composed.isEmpty then throw .emptyAlternant
  return a.contribution isAdj run composed

theorem compose_eq_composeAs : a.compose e pos isAdj run = a.composeAs e pos isAdj run a.marked :=
  rfl

theorem agree_composeBranch_mark (all : TagSet) (b : PlainRun) :
    Agree Composition.Retitled (composeBranch e pos isAdj b)
      (composeBranch e pos isAdj (markRun all b)) := by
  unfold composeBranch
  refine (agree_compose_markRun e pos isAdj all b).bind fun c d hcd => ?_
  dsimp only [markRun]
  split
  · exact .ok (hcd.blankNumber _)
  · exact .ok hcd

theorem agree_composed (branches : List PlainRun) (all : TagSet) :
    Agree (List.Forall₂ Composition.Retitled)
      (branches.mapM fun b => composeBranch e pos isAdj (a.settle run b))
      ((branches.map (markRun all)).mapM fun b => composeBranch e pos isAdj (a.settle run b)) := by
  apply Agree.mapM
  rw [List.forall₂_map_right_iff, List.forall₂_same]
  exact fun b _ => agree_composeBranch_mark e pos isAdj all (a.settle run b)

theorem retitled_contribution {cs ds : List Composition}
    (h : List.Forall₂ Composition.Retitled cs ds) :
    (a.contribution isAdj run cs).Retitled (a.contribution isAdj run ds) := by
  unfold contribution
  rw [Composition.mergedCell_of_retitled h,
    flatMap_eq_of_forall₂ h fun _ _ hcd => hcd.categories,
    flatMap_eq_of_forall₂ h fun _ _ hcd => hcd.footnotes,
    all_eq_of_forall₂ h fun _ _ hcd => hcd.voc, any_eq_of_forall₂ h fun _ _ hcd => hcd.noneut]
  exact .mk _ _

/-- An alternant gives the same to its run whether or not its branches are marked, but for its
title. -/
theorem agree_compose :
    Agree Composition.Retitled (a.composeAs e pos isAdj run a.branches)
      (a.compose e pos isAdj run) := by
  rw [compose_eq_composeAs]
  unfold marked
  split
  · exact Agree.refl Composition.Retitled.refl _
  · unfold composeAs mark
    refine (a.agree_composed e pos isAdj run a.branches _).bind fun cs ds h => ?_
    cases h with
    | nil => exact .error _
    | cons hfirst hrest => exact .ok (a.retitled_contribution isAdj run (.cons hfirst hrest))

end Alternant

/-- What words are marked as lacking shows in titles only. A word that is marked declines as it does
unmarked, or fails as it does; and an alternant whose branches are marked for what sets them apart
gives the same to its run as if they were not. -/
theorem compose_lacking :
    (∀ (s : Segment) (extra : List Tag) (num : Option NumberUse) (gender : Option Gender)
        (loc : Bool), Agree Paradigm.Retitled
      (s.paradigm e (s.lexeme pos isAdj num gender loc))
      ((s.lacking extra).paradigm e ((s.lacking extra).lexeme pos isAdj num gender loc))) ∧
    ∀ (a : Alternant) (run : Summary), Agree Composition.Retitled
      (a.composeAs e pos isAdj run a.branches) (a.compose e pos isAdj run) :=
  ⟨fun s extra num gender loc => s.agree_paradigm_lacking extra e pos isAdj num gender loc,
    fun a run => a.agree_compose e pos isAdj run⟩

end Declension
