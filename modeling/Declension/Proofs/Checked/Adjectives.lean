import Declension.Adjective
import Declension.Proofs.Checked.Nouns

/-!
# Adjectives written under names

What each class of adjectives writes under the names of slots. Some names are put together from
those of a case and a gender. Main statement: `adjective_refines`, by which the sheet comes out as
the forms of the adjective.
-/
namespace Declension.Checked

/-- One form under every case of both numbers in the masculine. -/
def indeclinableAdjective (w : Lexeme) : NamedRows :=
  (["nom", "gen", "dat", "acc", "abl", "loc", "voc"].flatMap fun case =>
    [case ++ "_sg_m", case ++ "_pl_m"]).map fun slot => (slot, [w.stem])

namespace FirstSecond

def rows (e : Adjective.FirstSecond.Endings) : NamedRows := [
  ("nom_sg_m", [e.us]), ("nom_sg_f", [e.a]), ("nom_sg_n", [e.um]),
  ("nom_pl_m", ["ī"]), ("nom_pl_f", ["ae"]), ("nom_pl_n", ["a"]),
  ("gen_sg_m", ["ī"]), ("gen_sg_f", [e.ae]), ("gen_sg_n", ["ī"]),
  ("gen_pl_m", ["ōrum"]), ("gen_pl_f", ["ārum"]), ("gen_pl_n", ["ōrum"]),
  ("dat_sg_m", ["ō"]), ("dat_sg_f", ["ae"]), ("dat_sg_n", ["ō"]),
  ("dat_pl_m", ["īs"]), ("dat_pl_f", ["īs"]), ("dat_pl_n", ["īs"]),
  ("acc_sg_m", [e.um]), ("acc_sg_f", [e.am]), ("acc_sg_n", [e.um]),
  ("acc_pl_m", ["ōs"]), ("acc_pl_f", ["ās"]), ("acc_pl_n", ["a"]),
  ("abl_sg_m", ["ō"]), ("abl_sg_f", [e.longA]), ("abl_sg_n", ["ō"]),
  ("abl_pl_m", ["īs"]), ("abl_pl_f", ["īs"]), ("abl_pl_n", ["īs"]),
  ("voc_sg_m", ["e"]), ("voc_sg_f", [e.a]), ("voc_sg_n", [e.um]),
  ("voc_pl_m", ["ī"]), ("voc_pl_f", ["ae"]), ("voc_pl_n", ["a"]),
  ("loc_sg_m", ["ī"]), ("loc_sg_f", ["ae"]), ("loc_sg_n", ["ī"]),
  ("loc_pl_m", ["īs"]), ("loc_pl_f", ["īs"]), ("loc_pl_n", ["īs"])]

theorem names_rows (e : Adjective.FirstSecond.Endings) :
    names (Adjective.FirstSecond.rows e) = rows e := by
  simp [names, Adjective.FirstSecond.rows, rows, Slot.name, Slot.suffix, Case.name, Number.name,
    Gender.name]

/-- The pronominal genitive and dative in the three genders. -/
def pronominal : NamedRows :=
  ["m", "f", "n"].flatMap fun gender =>
    [("gen_sg_" ++ gender, [Adjective.FirstSecond.eitherI ++ "us"]), ("dat_sg_" ++ gender, ["ī"])]

def hicType (stem : String) : NamedRows :=
  let (oc, longOc) := if stem = "ill" then ("uc", "ūc") else ("oc", "ōc")
  [("nom_sg_m", ["ic"]), ("nom_sg_f", ["aec"]), ("nom_sg_n", [oc]), ("nom_pl_n", ["aec"]),
    ("gen_sg_m", ["uius"]), ("gen_sg_f", ["uius"]), ("gen_sg_n", ["uius"]),
    ("dat_sg_m", ["uic"]), ("dat_sg_f", ["uic"]), ("dat_sg_n", ["uic"]),
    ("acc_sg_m", ["unc"]), ("acc_sg_f", ["anc"]), ("acc_sg_n", [oc]), ("acc_pl_n", ["aec"]),
    ("abl_sg_m", ["ōc"]), ("abl_sg_f", ["āc"]), ("abl_sg_n", [longOc])]

theorem names_hicType (stem : String) :
    names (Adjective.FirstSecond.hicType stem) = hicType stem := by
  unfold Adjective.FirstSecond.hicType hicType
  by_cases h : stem = "ill"
  · rw [if_pos h]
    rfl
  · rw [if_neg h]
    rfl

end FirstSecond

def firstSecond (w : Lexeme) : Except Crash NamedSheet := do
  let _ ← liftFault (Adjective.FirstSecond.rType? w)
  let stem := Adjective.FirstSecond.stem w
  fill ∅ <|
    inflected stem (FirstSecond.rows (Adjective.FirstSecond.endings w))
      ++ (if w.has .er then [("nom_sg_m", [w.stem]), ("voc_sg_m", [w.stem])] else [])
      ++ (if w.has .ius then inflected stem FirstSecond.pronominal else [])
      ++ (if stem = "me" then [("voc_sg_m", ["mī"])] else [])
      ++ if w.has .ic then inflected stem (FirstSecond.hicType stem) else []

theorem firstSecond_refines (w : Lexeme) :
    Refines (fun m p => m = sheet p.forms) (firstSecond w) (Adjective.firstSecond w) := by
  refine (Refines.lift (fun _ => rfl) (Adjective.FirstSecond.rType? w)).bind ?_
  rintro r _ rfl
  have hpronominal : names Adjective.FirstSecond.pronominal = FirstSecond.pronominal :=
    rfl
  have her : names [(Slot.sgm .nom, [w.stem]), (Slot.sgm .voc, [w.stem])] =
      [("nom_sg_m", [w.stem]), ("voc_sg_m", [w.stem])] :=
    names_pair (by decide) (by decide) _ _
  have hme : names [(Slot.sgm .voc, ["mī"])] = [("voc_sg_m", ["mī"])] := rfl
  refine refines_of_names ?_ (by rw [Adjective.FirstSecond.forms])
  simp only [names_append, names_inflect, apply_ite names, FirstSecond.names_rows,
    FirstSecond.names_hicType, hpronominal, her, hme, names_nil]

def firstFirst : NamedRows := [
  ("nom_sg_m", ["a"]), ("nom_pl_m", ["ae"]), ("gen_sg_m", ["ae"]), ("gen_pl_m", ["ārum"]),
  ("dat_sg_m", ["ae"]), ("dat_pl_m", ["īs"]), ("acc_sg_m", ["am"]), ("acc_sg_n", ["a"]),
  ("acc_pl_m", ["ās"]), ("acc_pl_n", ["ae"]), ("abl_sg_m", ["ā"]), ("abl_pl_m", ["īs"]),
  ("loc_sg_m", ["ae"]), ("loc_pl_m", ["īs"]), ("voc_sg_m", ["a"]), ("voc_pl_m", ["ae"])]

def secondSecond (greek : Bool) : NamedRows :=
  let (us, um, plural) := if greek then ("os", "on", "oe") else ("us", "um", "ī")
  [("nom_sg_m", [us]), ("nom_sg_n", [um]), ("nom_pl_m", [plural]), ("nom_pl_n", ["a"]),
    ("gen_sg_m", ["ī"]), ("gen_sg_n", ["ī"]), ("gen_pl_m", ["ōrum"]), ("gen_pl_n", ["ōrum"]),
    ("dat_sg_m", ["ō"]), ("dat_sg_n", ["ō"]), ("dat_pl_m", ["īs"]), ("dat_pl_n", ["īs"]),
    ("acc_sg_m", [um]), ("acc_sg_n", [um]), ("acc_pl_m", ["ōs"]), ("acc_pl_n", ["a"]),
    ("abl_sg_m", ["ō"]), ("abl_sg_n", ["ō"]), ("abl_pl_m", ["īs"]), ("abl_pl_n", ["īs"]),
    ("loc_sg_m", ["ī"]), ("loc_sg_n", ["ī"]), ("loc_pl_m", ["īs"]), ("loc_pl_n", ["īs"]),
    ("voc_sg_m", ["e"]), ("voc_sg_n", [um]), ("voc_pl_m", [plural]), ("voc_pl_n", ["a"])]

theorem names_firstFirst : names Adjective.FirstFirst.endings = firstFirst := rfl

theorem names_secondSecond (greek : Bool) :
    names (Adjective.SecondSecond.endings greek) = secondSecond greek := by
  cases greek <;> rfl

namespace ThirdOne

def oblique : NamedRows := [
  ("nom_pl_m", ["ēs"]), ("nom_pl_n", ["ia"]), ("gen_sg_m", ["is"]), ("gen_sg_n", ["is"]),
  ("gen_pl_m", ["ium"]), ("gen_pl_n", ["ium"]), ("dat_sg_m", ["ī"]), ("dat_sg_n", ["ī"]),
  ("dat_pl_m", ["ibus"]), ("dat_pl_n", ["ibus"]), ("acc_sg_m", ["em"]), ("acc_pl_m", ["ēs"]),
  ("acc_pl_n", ["ia"]), ("abl_sg_m", ["ī"]), ("abl_sg_n", ["ī"]), ("abl_pl_m", ["ibus"]),
  ("abl_pl_n", ["ibus"]), ("loc_sg_m", ["ī"]), ("loc_sg_n", ["ī"]), ("loc_pl_m", ["ibus"]),
  ("loc_pl_n", ["ibus"]), ("voc_pl_m", ["ēs"]), ("voc_pl_n", ["ia"])]

def parisyllabic : NamedRows := [
  ("nom_pl_n", ["a"]), ("gen_pl_m", ["um"]), ("gen_pl_n", ["um"]), ("abl_sg_m", ["e"]),
  ("abl_sg_n", ["e"]), ("loc_sg_m", ["ī", "e"]), ("loc_sg_n", ["ī", "e"]), ("acc_pl_n", ["a"]),
  ("voc_pl_n", ["a"])]

def greekCells : List String := ["nom_sg_n", "acc_sg_n", "voc_sg_m", "voc_sg_n"]

end ThirdOne

def thirdOne (w : Lexeme) : NamedRows :=
  (["m", "n"].flatMap fun gender => ["nom_sg_" ++ gender, "voc_sg_" ++ gender]).map
      (fun slot => (slot, [w.stem]))
    ++ [("acc_sg_n", [w.stem])]
    ++ inflected w.obliqueStem ThirdOne.oblique
    ++ (if w.has .par then inflected w.obliqueStem ThirdOne.parisyllabic else [])
    ++ if Adjective.ThirdOne.isInEs w && w.has .greek then
        ThirdOne.greekCells.map fun slot => (slot, [w.obliqueStem ++ "es", w.obliqueStem ++ "ēs"])
      else []

theorem names_thirdOne (w : Lexeme) : names (Adjective.ThirdOne.forms w) = thirdOne w := by
  have hdirect : Adjective.ThirdOne.direct.map Slot.name =
      (["m", "n"].flatMap fun gender => ["nom_sg_" ++ gender, "voc_sg_" ++ gender])
        ++ ["acc_sg_n"] :=
    rfl
  have hoblique : names Adjective.ThirdOne.oblique = ThirdOne.oblique := rfl
  have hpar : names Adjective.ThirdOne.parisyllabic = ThirdOne.parisyllabic := rfl
  have hgreek : Adjective.ThirdOne.greekCells.map Slot.name = ThirdOne.greekCells :=
    rfl
  rw [Adjective.ThirdOne.forms, thirdOne]
  simp only [names_append, names_inflect, apply_ite names, names_const, hdirect, hoblique, hpar,
    hgreek, names_nil, List.map_append, List.map_singleton]
  rfl

/-- Comparatives write over the neuter. -/
def comparative (w : Lexeme) : NamedRows :=
  thirdOne (Adjective.Comparative.asThirdOne w)
    ++ ["nom_sg_n", "acc_sg_n", "voc_sg_n"].map fun slot => (slot, [w.stem ++ "us"])

def participle (o : Options) (w : Lexeme) : NamedRows :=
  thirdOne w
    ++ inflected w.obliqueStem
      ((if o.suppressAdjPtcForms then
          [("abl_sg_m", if w.has .ptc then ["e"] else ["ī"]),
            ("abl_sg_n", if w.has .ptc then ["e"] else ["ī"])]
        else ["abl_sg_m", "abl_sg_n"].map fun slot => (slot, ["e", "ī"]))
      ++ [("acc_pl_m", ["ēs", "īs"])])

def thirdTwo (w : Lexeme) : NamedRows := inflected w.stem [
  ("nom_sg_m", ["is"]), ("nom_sg_n", ["e"]), ("nom_pl_m", ["ēs"]), ("nom_pl_n", ["ia"]),
  ("gen_sg_m", ["is"]), ("gen_sg_n", ["is"]), ("gen_pl_m", ["ium"]), ("gen_pl_n", ["ium"]),
  ("dat_sg_m", ["ī"]), ("dat_sg_n", ["ī"]), ("dat_pl_m", ["ibus"]), ("dat_pl_n", ["ibus"]),
  ("acc_sg_m", ["em"]), ("acc_sg_n", ["e"]), ("acc_pl_m", ["ēs", "īs"]), ("acc_pl_n", ["ia"]),
  ("abl_sg_m", ["ī"]), ("abl_sg_n", ["ī"]), ("abl_pl_m", ["ibus"]), ("abl_pl_n", ["ibus"]),
  ("loc_sg_m", ["ī"]), ("loc_sg_n", ["ī"]), ("loc_pl_m", ["ibus"]), ("loc_pl_n", ["ibus"]),
  ("voc_sg_m", ["is"]), ("voc_sg_n", ["e"]), ("voc_pl_m", ["ēs"]), ("voc_pl_n", ["ia"])]

namespace ThirdThree

def nominatives : NamedRows := [
  ("nom_sg_f", ["is"]), ("nom_sg_n", ["e"]), ("nom_pl_m", ["ēs"]), ("nom_pl_f", ["ēs"]),
  ("nom_pl_n", ["ia"]), ("voc_sg_f", ["is"]), ("voc_sg_n", ["e"]), ("voc_pl_m", ["ēs"]),
  ("voc_pl_f", ["ēs"]), ("voc_pl_n", ["ia"])]

def common : NamedRows :=
  ["m", "f", "n"].flatMap fun gender => [
    ("gen_sg_" ++ gender, ["is"]), ("gen_pl_" ++ gender, ["ium"]),
    ("dat_sg_" ++ gender, ["ī"]), ("dat_pl_" ++ gender, ["ibus"]),
    ("abl_sg_" ++ gender, ["ī"]), ("abl_pl_" ++ gender, ["ibus"]),
    ("loc_sg_" ++ gender, ["ī"]), ("loc_pl_" ++ gender, ["ibus"])]

def accusatives : NamedRows := [
  ("acc_sg_m", ["em"]), ("acc_sg_f", ["em"]), ("acc_sg_n", ["e"]), ("acc_pl_m", ["ēs"]),
  ("acc_pl_f", ["ēs"]), ("acc_pl_n", ["ia"])]

end ThirdThree

def thirdThree (w : Lexeme) : NamedRows :=
  [("nom_sg_m", [w.stem]), ("voc_sg_m", [w.stem])]
    ++ inflected w.obliqueStem
      (ThirdThree.nominatives ++ ThirdThree.common ++ ThirdThree.accusatives)

/-- The stems of the demonstratives. -/
def demonstratives : OrderedMap String String :=
  ⟨[("ille", "ill"), ("iste", "ist"), ("ipse", "ips")]⟩

def demonstrativeNeuters : OrderedMap String String :=
  ⟨[("ille", "illud"), ("iste", "istud"), ("ipse", "ipsum")]⟩

def irregularAdjective (e : Engine) (w : Lexeme) : Except Crash NamedSheet := do
  if demonstratives.contains w.stem then
    let m ← firstSecond (Adjective.asPronominal w (← value demonstratives w.stem))
    let m ← write m "nom_sg_m" [w.stem]
    let m ← write m "nom_sg_n" [← value demonstrativeNeuters w.stem]
    write m "acc_sg_n" [← value demonstrativeNeuters w.stem]
  else
    let p ← Engine.lookup e.adjectives w.stem (.unknownIrregularAdjective w.stem)
    fill ∅ (p.formsFor w.stem)

/-- Writes the forms of an adjective of a class. -/
def adjective (e : Engine) (w : Lexeme) : Adjective.Class → Except Crash NamedSheet
  | .indeclinable => fill ∅ (indeclinableAdjective w)
  | .firstSecond => firstSecond w
  | .firstFirst => fill ∅ (inflected w.stem firstFirst)
  | .secondSecond => fill ∅ (inflected w.stem (secondSecond (w.has .greek)))
  | .thirdOne => fill ∅ (thirdOne w)
  | .comparative => fill ∅ (comparative w)
  | .participle => fill ∅ (participle e.options w)
  | .thirdTwo => fill ∅ (thirdTwo w)
  | .thirdThree => fill ∅ (thirdThree w)
  | .irregular => irregularAdjective e w

theorem names_indeclinableAdjective (w : Lexeme) :
    names ([.nom, .gen, .dat, .acc, .abl, .loc, .voc].flatMap fun c =>
      [(Slot.sgm c, [w.stem]), (Slot.plm c, [w.stem])]) = indeclinableAdjective w := by
  have hslots : (([.nom, .gen, .dat, .acc, .abl, .loc, .voc].flatMap fun c =>
      [Slot.sgm c, Slot.plm c]).map Slot.name) =
        ["nom", "gen", "dat", "acc", "abl", "loc", "voc"].flatMap fun case =>
          [case ++ "_sg_m", case ++ "_pl_m"] :=
    rfl
  rw [indeclinableAdjective, ← hslots, ← names_const]
  rfl

theorem names_comparative (w : Lexeme) :
    names (Adjective.ThirdOne.forms (Adjective.Comparative.asThirdOne w)
      ++ Adjective.Comparative.neuter w.stem) = comparative w := by
  have hslots : [Slot.sgn .nom, Slot.sgn .acc, Slot.sgn .voc].map Slot.name =
      ["nom_sg_n", "acc_sg_n", "voc_sg_n"] :=
    rfl
  rw [names_append, names_thirdOne, comparative, ← hslots, ← names_const]
  rfl

theorem names_participle (o : Options) (w : Lexeme) :
    names (Adjective.ThirdOne.forms w
      ++ FormMap.inflect w.obliqueStem (Adjective.Participle.endings o w)) = participle o w := by
  have hendings : ∀ forms : List String, names [(Slot.sgm .abl, forms), (Slot.sgn .abl, forms),
      (Slot.plm .acc, ["ēs", "īs"])] =
        [("abl_sg_m", forms), ("abl_sg_n", forms), ("acc_pl_m", ["ēs", "īs"])] := by
    intro forms
    have hablative : (Slot.sgm .abl).name = "abl_sg_m" := by decide
    rw [names_cons hablative]
    exact congrArg _ (names_pair (by decide) (by decide) _ _)
  rw [names_append, names_inflect, names_thirdOne, participle, Adjective.Participle.endings,
    hendings, Adjective.Participle.ablative]
  cases o.suppressAdjPtcForms <;> rfl

theorem names_thirdTwo (w : Lexeme) :
    names (FormMap.inflect w.stem Adjective.ThirdTwo.endings) = thirdTwo w := by
  rw [names_inflect, thirdTwo]
  exact congrArg (inflected w.stem) rfl

theorem names_thirdThree (w : Lexeme) :
    names ([(Slot.sgm .nom, [w.stem]), (Slot.sgm .voc, [w.stem])]
      ++ FormMap.inflect w.obliqueStem (Adjective.ThirdThree.nominatives
        ++ Adjective.ThirdThree.common ++ Adjective.ThirdThree.accusatives)) = thirdThree w := by
  have hmasculine : names [(Slot.sgm .nom, [w.stem]), (Slot.sgm .voc, [w.stem])] =
      [("nom_sg_m", [w.stem]), ("voc_sg_m", [w.stem])] :=
    names_pair (by decide) (by decide) _ _
  have hendings : names (Adjective.ThirdThree.nominatives ++ Adjective.ThirdThree.common
      ++ Adjective.ThirdThree.accusatives) =
        ThirdThree.nominatives ++ ThirdThree.common ++ ThirdThree.accusatives :=
    rfl
  rw [names_append, names_inflect, hmasculine, hendings]
  rfl

/-- The demonstratives have their neuters. -/
theorem lookup_demonstratives (word : String) :
    (∃ stem neuter, Adjective.demonstratives.lookup word = some (stem, neuter) ∧
      demonstratives.get? word = some stem ∧ demonstrativeNeuters.get? word = some neuter) ∨
    (Adjective.demonstratives.lookup word = none ∧ demonstratives.get? word = none) := by
  by_cases hille : word = "ille"
  · subst hille
    exact .inl ⟨_, _, rfl, rfl, rfl⟩
  by_cases histe : word = "iste"
  · subst histe
    exact .inl ⟨_, _, rfl, rfl, rfl⟩
  by_cases hipse : word = "ipse"
  · subst hipse
    exact .inl ⟨_, _, rfl, rfl, rfl⟩
  refine .inr ⟨?_, ?_⟩
  · simp [Adjective.demonstratives, List.lookup_cons, beq_eq_false_iff_ne.mpr hille,
      beq_eq_false_iff_ne.mpr histe, beq_eq_false_iff_ne.mpr hipse]
  · simp [demonstratives, OrderedMap.get?, OrderedMap.find, Ne.symm hille, Ne.symm histe,
      Ne.symm hipse]

theorem demonstrative_refines (w : Lexeme) (stem neuter : String) :
    Refines (fun m p => m = sheet p.forms)
      (do
        let m ← firstSecond (Adjective.asPronominal w stem)
        let m ← write m "nom_sg_m" [w.stem]
        let m ← write m "nom_sg_n" [neuter]
        write m "acc_sg_n" [neuter])
      (Adjective.demonstrative w stem neuter) := by
  refine (firstSecond_refines (Adjective.asPronominal w stem)).bind ?_
  rintro _ p rfl
  refine .bind_left (write_named p.forms (.sgm .nom) (by decide) _) ?_
  refine .bind_left (write_named _ (.sgn .nom) (by decide) _) ?_
  rw [write_named _ (.sgn .acc) (by decide)]
  exact .ok rfl

theorem irregularAdjective_refines {e : Engine} (he : e.Accepted) (w : Lexeme) :
    Refines (fun m p => m = sheet p.forms) (irregularAdjective e w)
      (Adjective.irregular e.tables w) := by
  unfold irregularAdjective Adjective.irregular OrderedMap.contains
  rcases lookup_demonstratives w.stem with ⟨stem, neuter, hlookup, hstem, hneuter⟩ | ⟨hlookup, hnone⟩
  · rw [hlookup, value_eq_ok hstem, value_eq_ok hneuter, hstem]
    exact demonstrative_refines w stem neuter
  · rw [hlookup, hnone]
    refine (Engine.irregularAdjective_refines he w.stem).bind fun p q hpq => ?_
    have hkeys : (q.formsFor w.stem).keys.Nodup := by
      rw [Adjective.keys_formsFor]
      exact NamedParadigm.nodup_of_validate hpq
    exact refines_of_names (NamedParadigm.names_of_validate hpq w.stem)
      (OrderedMap.ofList_of_nodup hkeys).symm

theorem adjective_refines {e : Engine} (he : e.Accepted) (w : Lexeme) (c : Adjective.Class) :
    Refines (fun m p => m = sheet p.forms) (adjective e w c)
      (Adjective.decline e.toEngine w c) := by
  cases c with
  | indeclinable =>
    exact refines_of_names (names_indeclinableAdjective w) (by rw [Adjective.indeclinable])
  | firstSecond => exact firstSecond_refines w
  | firstFirst =>
    have hnames : names (FormMap.inflect w.stem Adjective.FirstFirst.endings) =
        inflected w.stem firstFirst := by
      rw [names_inflect, names_firstFirst]
    exact refines_of_names hnames (by rw [Adjective.firstFirst])
  | secondSecond =>
    have hnames : names (FormMap.inflect w.stem (Adjective.SecondSecond.endings (w.has .greek))) =
        inflected w.stem (secondSecond (w.has .greek)) := by
      rw [names_inflect, names_secondSecond]
    exact refines_of_names hnames (by rw [Adjective.secondSecond])
  | thirdOne => exact refines_of_names (names_thirdOne w) (by rw [Adjective.thirdOne])
  | comparative => exact refines_of_names (names_comparative w) (by rw [Adjective.comparative])
  | participle =>
    exact refines_of_names (names_participle e.options w) (by rw [Adjective.participle])
  | thirdTwo => exact refines_of_names (names_thirdTwo w) (by rw [Adjective.thirdTwo])
  | thirdThree => exact refines_of_names (names_thirdThree w) (by rw [Adjective.thirdThree])
  | irregular => exact irregularAdjective_refines he w

end Declension.Checked
