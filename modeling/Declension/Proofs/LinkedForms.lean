import Declension.Proofs.Composition
import Declension.Proofs.Finish
import Declension.Proofs.Ligatures
import Declension.Proofs.RunParts
import Declension.Proofs.TidyForms

/-!
# The linked nominatives of a run

The linked nominatives of a run are its nominatives, in the same order, with links: taking the
links off gives the plain ones. They are put together from leads and lemmas with links, so every
part has to close the links it opens, and the passes over the forms of a word have to do the same
to the linked lemma as to the plain one. Main statement: `Run.unlink_forms`, with the neuter
`templum` for a pass that does not.
-/
namespace Declension

/-- The linked forms are the plain ones with links, and no link is left open in them. -/
structure AreLinked (linked plain : List String) : Prop where
  unlink : linked.map Text.unlink = plain
  closed : ∀ form ∈ linked, Text.IsClosed form.toList

namespace AreLinked
variable {linked plain linked' plain' : List String}

theorem nil : AreLinked [] [] := ⟨rfl, by simp⟩

theorem single {text : String} (h : Text.IsClosed text.toList) :
    AreLinked [text] [Text.unlink text] := ⟨rfl, by simpa using h⟩

theorem of_linkless {forms : List String} (h : ∀ form ∈ forms, Text.IsLinkless form.toList) :
    AreLinked forms forms where
  unlink := by
    rw [List.map_congr_left fun form hform => Text.unlink_of_isLinkless (h form hform)]
    exact List.map_id' forms
  closed form hform := Text.isClosed_of_isLinkless (h form hform)

theorem flatMap {forms : List String} {f g : String → List String}
    (h : ∀ form ∈ forms, AreLinked (f form) (g form)) :
    AreLinked (forms.flatMap f) (forms.flatMap g) where
  unlink := by
    rw [List.map_flatMap]
    exact List.flatMap_congr fun form hform => (h form hform).unlink
  closed form hform := by
    obtain ⟨a, ha, hform⟩ := List.mem_flatMap.mp hform
    exact (h a ha).closed form hform

/-- Links are taken off a part after part. -/
theorem append (h : AreLinked linked plain) (h' : AreLinked linked' plain') :
    AreLinked (linked.flatMap fun form => linked'.map (form ++ ·))
      (plain.flatMap fun form => plain'.map (form ++ ·)) where
  unlink := by
    rw [List.map_flatMap, ← h.unlink, List.flatMap_map]
    refine List.flatMap_congr fun form hform => ?_
    rw [← h'.unlink, List.map_map, List.map_map]
    exact List.map_congr_left fun other _ => Text.unlink_append (h.closed form hform) other
  closed form hform := by
    obtain ⟨front, hfront, hform⟩ := List.mem_flatMap.mp hform
    obtain ⟨back, hback, rfl⟩ := List.mem_map.mp hform
    rw [String.toList_append]
    exact Text.isClosed_append (h.closed front hfront) (h'.closed back hback)

theorem withLead {lead : String} (hlead : Text.IsClosed lead.toList)
    (h : AreLinked linked plain) :
    AreLinked (linked.map (lead ++ ·)) (plain.map (Text.unlink lead ++ ·)) := by
  simpa using (single hlead).append h

end AreLinked

/-- Whether only the lemma holds links: a linked nominative is given only beside the plain one, and
no link starts in a nominative that is not the lemma. -/
structure Paradigm.LinksInLemma (p : Paradigm) (word : String) : Prop where
  linked : ∀ n g, p.forms.contains (.linked n g) → p.forms.contains (.cell .nom n g)
  linkless : ∀ n g, ∀ form ∈ p.forms.forms (.cell .nom n g), form ≠ word →
    Text.IsLinkless form.toList

/-- With tidy tables a word without brackets in its stems has links in the lemma alone. -/
theorem Segment.linksInLemma_paradigm {e : Engine} (ht : e.tables.AreTidy) {pos : String}
    {isAdj : Bool} {run : Summary} {s : Segment} {p : Paradigm}
    (hends : Noun.Third.dropsS s.stem → Text.endsIn "s" s.stem)
    (hstems : ∀ stem ∈ s.stem :: s.oblique.toList, '[' ∉ stem.toList)
    (h : s.paradigmIn e pos isAdj run = .ok p) : p.LinksInLemma s.word := by
  have hbare : (s.lexeme pos isAdj (s.numberIn run) (s.genderIn run) run.loc).BracketsImply
      False :=
    Lexeme.bracketsImply_of_stems (hstems s.stem (by simp)) fun text htext =>
      hstems text (List.mem_cons_of_mem _ (Option.mem_toList.mpr htext))
  have htidy := Segment.areTidy_paradigm ht hbare hends h
  constructor
  · intro n g hcontains
    obtain ⟨forms, hforms⟩ := Option.isSome_iff_exists.mp hcontains
    have hplain := (htidy _ _ hforms).plain
    cases hplain
  · intro n g form hform _
    exact Text.isLinkless_of_not_mem (htidy.bare rfl form hform)

namespace Slot

theorem nominative_mem_run {isAdj : Bool} {n : Number} {g : Option Gender}
    (h : (n, g) ∈ lemmaSlots isAdj) : .cell .nom n g ∈ run isAdj := by
  have hall : ∀ isAdj, ∀ entry ∈ lemmaSlots isAdj, .cell .nom entry.1 entry.2 ∈ run isAdj := by
    decide
  exact hall isAdj _ h

/-- The gender whose nominatives are linked in a run. -/
def lemmaGender (isAdj : Bool) : Option Gender := if isAdj then some .m else none

end Slot

namespace Segment
variable {s : Segment} {form variant : String}

theorem isLinkless_variants (h : Text.IsLinkless form.toList) :
    ∀ variant ∈ s.variants form, Text.IsLinkless variant.toList := by
  have hspell : Text.IsLinkless (s.spell form).toList := by
    unfold spell
    split
    · exact isLinkless_ligate h
    · exact h
  unfold variants
  split
  · exact fun variant hvariant => isLinkless_of_mem_withNasal hspell hvariant
  · simpa using hspell

theorem isClosed_variants (h : Text.IsClosed form.toList) :
    ∀ variant ∈ s.variants form, Text.IsClosed variant.toList := by
  have hspell : Text.IsClosed (s.spell form).toList := by
    unfold spell
    split
    · exact isClosed_ligate h
    · exact h
  unfold variants
  split
  · exact fun variant hvariant => isClosed_of_mem_withNasal hspell hvariant
  · simpa using hspell

/-- What the passes make of the linked forms, and of the plain ones. -/
theorem areLinked_variants (hclosed : Text.IsClosed s.linkedWord.toList)
    (hvariants : (s.variants s.linkedWord).map Text.unlink = s.variants s.word)
    {forms : List String} (h : ∀ form ∈ forms, form ≠ s.word → Text.IsLinkless form.toList) :
    AreLinked ((forms.map s.relink).flatMap s.variants) (forms.flatMap s.variants) := by
  rw [List.flatMap_map]
  refine .flatMap fun form hform => ?_
  unfold relink
  split
  · rename_i hword
    rw [hword]
    exact ⟨hvariants, isClosed_variants hclosed⟩
  · exact .of_linkless (isLinkless_variants (h form hform ‹_›))

/-- Whether the passes keep the linked nominatives of a number in step with the plain ones: they do
to the linked lemma what they do to the plain one, and an adjective that is not read in the
masculine, the only gender whose linked nominatives they reach, is left as it is. -/
structure LinksFollow (s : Segment) (isAdj : Bool) (run : Summary) (n : Number) : Prop where
  variants : (s.variants s.linkedWord).map Text.unlink = s.variants s.word
  gender : isAdj = false → s.isAdj = true → s.genderIn run ≠ some .m →
    (s.numberIn run).bind NumberUse.only? ≠ some n.other ∧ s.tags.has .lig = false ∧
      s.tags.has .sufn = false

section Passes
variable {m : FormMap} {num : Option NumberUse} {n : Number} {g : Option Gender}

theorem get?_addLinked_of_contains (hslot : (n, g) ∈ Slot.lemmaSlots s.isAdj)
    (hlinked : m.contains (.linked n g) → m.contains (.cell .nom n g)) :
    (s.addLinked m).get? (.linked n g) = (m.get? (.cell .nom n g)).map (·.map s.relink) := by
  cases hget : m.get? (.linked n g) with
  | none => exact s.get?_addLinked_linked hslot hget
  | some forms =>
    have hcontains := hlinked (by simp [OrderedMap.contains, hget])
    exact ((get?_foldl_relink s (Slot.lemmaSlots s.isAdj) m).2 n g).trans
      (if_pos ⟨hslot, hcontains⟩)

/-- The linked slots that the passes reach, and those of words that they leave alone. -/
theorem get?_rework_linked (hslot : (n, g) ∈ Slot.lemmaSlots s.isAdj)
    (hlinked : m.contains (.linked n g) → m.contains (.cell .nom n g))
    (hreached : .linked n g ∈ Slot.run s.isAdj ∨
      s.tags.has .lig = false ∧ s.tags.has .sufn = false) :
    (s.rework m).get? (.linked n g) =
      (m.get? (.cell .nom n g)).map fun forms => (forms.map s.relink).flatMap s.variants := by
  have hget := get?_addLinked_of_contains hslot hlinked
  by_cases hrun : .linked n g ∈ Slot.run s.isAdj
  · rw [get?_rework hrun, hget, Option.map_map]
    rfl
  · obtain ⟨hlig, hsufn⟩ := hreached.resolve_left hrun
    rw [get?_rework_of_not_mem hrun, hget]
    simp [variants_of_plain hlig hsufn]

theorem get?_rework_nominative (hslot : (n, g) ∈ Slot.lemmaSlots s.isAdj) :
    (s.rework m).get? (.cell .nom n g) =
      (m.get? (.cell .nom n g)).map (·.flatMap s.variants) := by
  rw [get?_rework (Slot.nominative_mem_run hslot), get?_addLinked_cell]

/-- The passes before one number is copied onto the other. -/
theorem areLinked_rework {p : Paradigm} (hlemma : p.LinksInLemma s.word)
    (hclosed : Text.IsClosed s.linkedWord.toList)
    (hvariants : (s.variants s.linkedWord).map Text.unlink = s.variants s.word)
    (hslot : (n, g) ∈ Slot.lemmaSlots s.isAdj)
    (hreached : .linked n g ∈ Slot.run s.isAdj ∨
      s.tags.has .lig = false ∧ s.tags.has .sufn = false) :
    AreLinked ((s.rework p.forms).forms (.linked n g))
      ((s.rework p.forms).forms (.cell .nom n g)) := by
  have hlinkless := hlemma.linkless n g
  unfold FormMap.forms at hlinkless ⊢
  rw [get?_rework_linked hslot (hlemma.linked n g) hreached, get?_rework_nominative hslot]
  cases hget : p.forms.get? (.cell .nom n g) with
  | none => exact .nil
  | some forms =>
    rw [hget] at hlinkless
    exact areLinked_variants hclosed hvariants hlinkless

theorem get?_finish_of_number {slot : Slot} (hnum : num.bind NumberUse.only? ≠ some n.other)
    (hslot : slot.number = n) : (s.finish num m).get? slot = (s.rework m).get? slot := by
  rw [finish_eq, get?_mirrorOnly]
  intro k hk
  rw [hslot]
  cases n <;> cases k <;> simp_all [Number.other]

/-- A word that the passes leave alone has a linked nominative where it has the plain one. -/
theorem contains_finish_linked {p : Paradigm} (hlemma : p.LinksInLemma s.word)
    (hslot : (n, g) ∈ Slot.lemmaSlots s.isAdj)
    (hleft : num.bind NumberUse.only? ≠ some n.other ∧ s.tags.has .lig = false ∧
      s.tags.has .sufn = false) :
    (s.finish num p.forms).contains (.linked n g) =
      (s.finish num p.forms).contains (.cell .nom n g) := by
  unfold OrderedMap.contains
  rw [get?_finish_of_number hleft.1 rfl, get?_finish_of_number hleft.1 rfl,
    get?_rework_linked hslot (hlemma.linked n g) (.inr hleft.2), get?_rework_nominative hslot,
    Option.isSome_map, Option.isSome_map]

/-- A number that is copied onto the other takes its linked nominatives along. -/
theorem areLinked_finish {p : Paradigm} (hlemma : p.LinksInLemma s.word)
    (hclosed : Text.IsClosed s.linkedWord.toList)
    (hvariants : (s.variants s.linkedWord).map Text.unlink = s.variants s.word)
    (hslot : (n, g) ∈ Slot.lemmaSlots s.isAdj)
    (hreached : .linked n g ∈ Slot.run s.isAdj ∨ num.bind NumberUse.only? ≠ some n.other ∧
      s.tags.has .lig = false ∧ s.tags.has .sufn = false) :
    AreLinked ((s.finish num p.forms).forms (.linked n g))
      ((s.finish num p.forms).forms (.cell .nom n g)) := by
  by_cases hnum : num.bind NumberUse.only? = some n.other
  · have hrun := hreached.resolve_right fun h => h.1 hnum
    have hother : (n.other, g) ∈ Slot.lemmaSlots s.isAdj := by
      have hall : ∀ isAdj, ∀ entry ∈ Slot.lemmaSlots isAdj,
          (entry.1.other, entry.2) ∈ Slot.lemmaSlots isAdj := by
        decide
      exact hall _ _ hslot
    have hcopied : ∀ slot ∈ Slot.run s.isAdj, slot.number = n →
        (s.finish num p.forms).forms slot = (s.rework p.forms).forms slot.mirror := by
      intro slot hmem hn
      have hne : slot.number ≠ n.other := by
        rw [hn]
        cases n <;> simp [Number.other]
      unfold FormMap.forms
      rw [finish_eq, mirrorOnly, hnum]
      simp only [FormMap.get?_mirrorNumber]
      rw [if_pos ⟨hne, Slot.mirror_mem_run.mpr hmem⟩]
      rfl
    rw [hcopied _ hrun rfl, hcopied _ (Slot.nominative_mem_run hslot) rfl]
    exact areLinked_rework hlemma hclosed hvariants hother
      (.inl (Slot.mirror_mem_run.mpr hrun))
  · unfold FormMap.forms
    rw [get?_finish_of_number hnum rfl, get?_finish_of_number hnum rfl]
    exact areLinked_rework hlemma hclosed hvariants hslot (hreached.imp_right (·.2))

end Passes

/-- The linked nominative and the plain one are read in the same gender. -/
theorem exists_readAt {isAdj : Bool} {run : Summary} {n : Number} {p : Paradigm}
    (hfit : s.misfit? isAdj (s.genderIn run) = none) (hlemma : p.LinksInLemma s.word)
    (hfollow : s.LinksFollow isAdj run n) :
    ∃ g, (n, g) ∈ Slot.lemmaSlots s.isAdj ∧
      s.readAt isAdj run p (.linked n (Slot.lemmaGender isAdj)) = .linked n g ∧
      s.readAt isAdj run p (.cell .nom n (Slot.lemmaGender isAdj)) = .cell .nom n g ∧
      (.linked n g ∈ Slot.run s.isAdj ∨
        (s.numberIn run).bind NumberUse.only? ≠ some n.other ∧ s.tags.has .lig = false ∧
          s.tags.has .sufn = false) := by
  have hslots : ∀ n : Number, .linked n none ∈ Slot.run false ∧
      .linked n (some .m) ∈ Slot.run true ∧ (n, none) ∈ Slot.lemmaSlots false := by
    intro n
    cases n <;> decide
  have hgenders : ∀ g, (n, some g) ∈ Slot.lemmaSlots true := by
    intro g
    cases n <;> cases g <;> decide
  obtain ⟨hnoun, hmasculine, hnone⟩ := hslots n
  unfold misfit? at hfit
  unfold readAt source
  cases isAdj with
  | true =>
    have hadj : s.isAdj = true := by
      by_contra hnot
      simp [hnot] at hfit
    rw [hadj]
    exact ⟨some .m, hgenders .m, rfl, rfl, .inl hmasculine⟩
  | false =>
    cases hadj : s.isAdj with
    | false => exact ⟨none, hnone, rfl, rfl, .inl hnoun⟩
    | true =>
      cases hgender : s.genderIn run with
      | none => simp [hadj, hgender] at hfit
      | some g =>
        by_cases hg : g = .m
        · subst hg
          exact ⟨some .m, hgenders .m, ite_self _, ite_self _, .inl hmasculine⟩
        · have hleft := hfollow.gender rfl hadj (by simpa [hgender] using hg)
          have hcontains : (s.finish (s.numberIn run) p.forms).contains (.linked n (some g)) = _ :=
            contains_finish_linked hlemma (hadj ▸ hgenders g) hleft
          cases hfilled : (s.finish (s.numberIn run) p.forms).contains (.cell .nom n (some g)) with
          | true =>
            rw [hfilled] at hcontains
            refine ⟨some g, hgenders g, ?_, ?_, .inr hleft⟩
            · simp [Slot.agreeing, hcontains]
            · simp [Slot.agreeing, hfilled]
          | false =>
            rw [hfilled] at hcontains
            refine ⟨some .m, hgenders .m, ?_, ?_, .inl hmasculine⟩
            · simp [Slot.agreeing, hcontains]
            · simp [Slot.agreeing, hfilled]

theorem areLinked_contribution {isAdj : Bool} {run : Summary} {n : Number} {p : Paradigm}
    (hshown : s.ShowsPlain) (hlead : Text.IsClosed s.linkedLead.toList)
    (hclosed : Text.IsClosed s.linkedWord.toList)
    (hfit : s.misfit? isAdj (s.genderIn run) = none) (hlemma : p.LinksInLemma s.word)
    (hfollow : s.LinksFollow isAdj run n) :
    AreLinked
      ((s.contribution isAdj (s.numberIn run) (s.genderIn run) p).cell
        (.linked n (Slot.lemmaGender isAdj))).forms
      ((s.contribution isAdj (s.numberIn run) (s.genderIn run) p).cell
        (.cell .nom n (Slot.lemmaGender isAdj))).forms := by
  obtain ⟨g, hslot, hlinked, hplain, hreached⟩ := exists_readAt hfit hlemma hfollow
  rw [forms_contribution, forms_contribution, hlinked, hplain]
  have hword := areLinked_finish hlemma hclosed hfollow.variants hslot hreached
  have hwhole := hword.withLead hlead
  rw [← hshown.lead] at hwhole
  exact hwhole

end Segment

/-- Whether every link of a piece ends in the text it starts in. -/
def Piece.ClosesLinks : Piece → Prop
  | word s => Text.IsClosed s.linkedLead.toList ∧ Text.IsClosed s.linkedWord.toList
  | literal l => Text.IsClosed l.linkedText.toList

/-- Parts that are in step are in step when they are strung together. -/
theorem Composition.areLinked_concat {linked plain : Slot} {parts : List Composition}
    (h : ∀ part ∈ parts, AreLinked (part.cell linked).forms (part.cell plain).forms) :
    AreLinked ((concat parts).cell linked).forms ((concat parts).cell plain).forms := by
  have hfold : ∀ done : Composition, AreLinked (done.cell linked).forms (done.cell plain).forms →
      AreLinked ((parts.foldl append done).cell linked).forms
        ((parts.foldl append done).cell plain).forms := by
    induction parts with
    | nil => exact fun done hdone => hdone
    | cons part parts ih =>
      obtain ⟨hpart, hparts⟩ := List.forall_mem_cons.mp h
      exact fun done hdone => ih hparts _ (hdone.append hpart)
  exact hfold unit (.of_linkless (by decide : ∀ form ∈ [""], Text.IsLinkless form.toList))

/-- Linked forms differ from plain forms only by links. In a run without alternants whose links
each end in the lead, lemma or plain text they start in, the linked nominatives of a number lose
their links to become the plain ones, in the same order, if the passes over the forms of its words
keep their linked nominatives in step. -/
theorem Run.unlink_forms {e : Engine} {pos text : String} {isAdj : Bool} {r : Run}
    {c : Composition} (hread : Run.read e.tables text = .ok r)
    (hpieces : ∀ node ∈ r.nodes, ∃ p, node = .piece p) (h : r.compose e pos isAdj = .ok c)
    (hclosed : ∀ p, .piece p ∈ r.nodes → p.ClosesLinks)
    (hlemma : ∀ s, .piece (.word s) ∈ r.nodes → ∀ p,
      s.paradigmIn e pos isAdj r.summary = .ok p → p.LinksInLemma s.word)
    (n : Number) (hfollow : ∀ s, .piece (.word s) ∈ r.nodes → s.LinksFollow isAdj r.summary n) :
    (c.cell (.linked n (Slot.lemmaGender isAdj))).forms.map Text.unlink =
      (c.cell (.cell .nom n (Slot.lemmaGender isAdj))).forms := by
  have hshown := Run.showsPlain_of_read hread
  obtain ⟨parts, hparts, rfl⟩ := (compose_eq_ok e pos isAdj).mp h
  refine (Composition.areLinked_concat fun part hpart => ?_).unlink
  obtain ⟨node, hnode, hmade⟩ := exists_mem_of_forall₂ hparts hpart
  obtain ⟨piece, rfl⟩ := hpieces node hnode
  cases piece with
  | literal l =>
    cases hmade
    have hplain : l.text = Text.unlink l.linkedText := hshown (.literal l) hnode
    have hliteral := AreLinked.single (hclosed (.literal l) hnode)
    rw [← hplain] at hliteral
    exact hliteral
  | word s =>
    obtain ⟨p, hp, hfit, rfl⟩ := Segment.compose_eq_ok.mp hmade
    obtain ⟨hlead, hword⟩ := hclosed (.word s) hnode
    exact Segment.areLinked_contribution (hshown (.word s) hnode) hlead hword hfit
      (hlemma s hnode p hp) (hfollow s hnode)

/-- A feminine noun with an adjective, both linked, and the link of the latter under another
name. -/
theorem Run.unlink_forms_of_res_publica :
    ∃ r c, Run.read .latin "[[rēs]]<5> [[publicus|pūblica]]<1&2+>" = .ok r ∧
      (∀ node ∈ r.nodes, ∃ p, node = .piece p) ∧ r.compose ⟨.latin, {}⟩ "nouns" false = .ok c ∧
      (∀ p, .piece p ∈ r.nodes → p.ClosesLinks) ∧
      (∀ s, .piece (.word s) ∈ r.nodes → ∀ p,
        s.paradigmIn ⟨.latin, {}⟩ "nouns" false r.summary = .ok p → p.LinksInLemma s.word) ∧
      (∀ s, .piece (.word s) ∈ r.nodes → s.LinksFollow false r.summary .sg) ∧
      (c.cell (.linked .sg none)).forms = ["[[rēs]] [[publicus|pūblica]]"] ∧
      (c.cell (.linked .sg none)).forms.map Text.unlink = (c.cell (.sg .nom)).forms := by
  obtain ⟨r, noun, adjective, c, hr, hnodes, hc, hclosed, hstems, hvariants, hleft, hforms⟩ :
      ∃ r noun adjective c, Run.read .latin "[[rēs]]<5> [[publicus|pūblica]]<1&2+>" = .ok r ∧
        r.nodes = [.piece (.word noun), .piece (.word adjective)] ∧
        r.compose ⟨.latin, {}⟩ "nouns" false = .ok c ∧
        (∀ s ∈ [noun, adjective], Text.IsClosed s.linkedLead.toList ∧
          Text.IsClosed s.linkedWord.toList) ∧
        (∀ s ∈ [noun, adjective], (Noun.Third.dropsS s.stem → Text.endsIn "s" s.stem) ∧
          ∀ stem ∈ s.stem :: s.oblique.toList, '[' ∉ stem.toList) ∧
        (∀ s ∈ [noun, adjective], (s.variants s.linkedWord).map Text.unlink = s.variants s.word) ∧
        (∀ s ∈ [noun, adjective], (s.numberIn r.summary).bind NumberUse.only? = none ∧
          s.tags.has .lig = false ∧ s.tags.has .sufn = false) ∧
        (c.cell (.linked .sg none)).forms = ["[[rēs]] [[publicus|pūblica]]"] :=
    ⟨_, _, _, _, rfl, rfl, rfl, by decide +kernel, by decide +kernel, by decide +kernel,
      by decide +kernel, by decide +kernel⟩
  have hpiece : ∀ p, .piece p ∈ r.nodes → ∃ s ∈ [noun, adjective], p = .word s := by
    simp [hnodes]
  have hword : ∀ s, .piece (.word s) ∈ r.nodes → s ∈ [noun, adjective] := by
    simp [hnodes]
  have hpieces : ∀ node ∈ r.nodes, ∃ p, node = .piece p := by
    simp [hnodes]
  have hends : ∀ p, .piece p ∈ r.nodes → p.ClosesLinks := by
    intro p hp
    obtain ⟨s, hs, rfl⟩ := hpiece p hp
    exact hclosed s hs
  have hlemma : ∀ s, .piece (.word s) ∈ r.nodes → ∀ p,
      s.paradigmIn ⟨.latin, {}⟩ "nouns" false r.summary = .ok p → p.LinksInLemma s.word :=
    fun s hs p hp => Segment.linksInLemma_paradigm Tables.areTidy_latin (hstems s (hword s hs)).1
      (hstems s (hword s hs)).2 hp
  have hfollow : ∀ s, .piece (.word s) ∈ r.nodes → s.LinksFollow false r.summary .sg := by
    intro s hs
    obtain ⟨hnum, htags⟩ := hleft s (hword s hs)
    exact ⟨hvariants s (hword s hs), fun _ _ _ => ⟨by simp [hnum], htags⟩⟩
  exact ⟨r, c, hr, hpieces, hc, hends, hlemma, hfollow, hforms,
    unlink_forms (e := ⟨.latin, {}⟩) hr hpieces hc hends hlemma .sg hfollow⟩

/-- Beside a feminine noun an adjective is spelt with ligatures, but not its linked nominatives. -/
theorem Run.not_unlink_forms_of_res_caerulea :
    ∃ r c, Run.read .latin "rēs<5> caerulea<1&2+.lig>" = .ok r ∧
      r.compose ⟨.latin, {}⟩ "nouns" false = .ok c ∧
      (c.cell (.linked .sg none)).forms = ["rēs caerulea"] ∧
      (c.cell (.sg .nom)).forms = ["rēs cærulea"] ∧
      (c.cell (.linked .sg none)).forms.map Text.unlink ≠ (c.cell (.sg .nom)).forms :=
  ⟨_, _, rfl, rfl, by decide +kernel, by decide +kernel, by decide +kernel⟩

end Declension
