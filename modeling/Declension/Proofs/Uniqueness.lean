import Declension.Proofs.Alternatives
import Declension.Proofs.Finish
import Declension.Proofs.RunParts
import Declension.Proofs.TidyForms

/-!
# No form twice

The tables of Latin list no form twice in a slot, and the passes over the forms of a word keep
different forms apart: a link adds more characters than the forms of a nominative differ by, a
ligature can be spelt out again, and a variant in -n tells the form in -m it belongs to. What it
does not tell is whether it was listed beside that form. Main statement: `Run.nodup_forms`, with
the accusative of `puppis` for what happens where it was.
-/
namespace Declension

/-- The second text is the variant in -n of the first one. -/
def HasNasal (text variant : List Char) : Prop :=
  ∃ front, text = front ++ ['m'] ∧ variant = front ++ ['n']

instance (text variant : List Char) : Decidable (HasNasal text variant) :=
  decidable_of_iff (text = text.dropLast ++ ['m'] ∧ variant = text.dropLast ++ ['n'])
    ⟨fun h => ⟨_, h⟩, fun ⟨front, htext, hvariant⟩ => by simp [htext, hvariant]⟩

/-- Whether no text of a list is the variant in -n of another. -/
def NasalsApart (texts : List (List Char)) : Prop :=
  ∀ text ∈ texts, ∀ other ∈ texts, ¬ HasNasal text other

instance (texts : List (List Char)) : Decidable (NasalsApart texts) :=
  inferInstanceAs (Decidable (∀ text ∈ texts, ∀ other ∈ texts, ¬ HasNasal text other))

namespace Segment
variable {s : Segment} {form other variant : String}

/-- A text of the word with its ligatures spelt out. -/
def unspell (s : Segment) (text : List Char) : List Char :=
  if s.tags.has .lig then text.flatMap spellOut else text

theorem unspell_spell (s : Segment) (form : String) :
    s.unspell (s.spell form).toList = s.unspell form.toList := by
  unfold unspell spell
  split
  · exact flatMap_spellOut_ligate form
  · rfl

theorem unspell_append (s : Segment) (front back : List Char) :
    s.unspell (front ++ back) = s.unspell front ++ s.unspell back := by
  unfold unspell
  split
  · exact List.flatMap_append
  · rfl

theorem unspell_singleton {c : Char} (hc : isLigature c = false) : s.unspell [c] = [c] := by
  simp [unspell, spellOut_of_not_isLigature hc]

theorem length_unspell (s : Segment) (text : List Char) : (s.unspell text).length =
    text.length + if s.tags.has .lig then text.countP isLigature else 0 := by
  unfold unspell
  split
  · exact length_flatMap_spellOut text
  · rfl

theorem mem_variants (h : variant ∈ s.variants form) : variant = s.spell form ∨
    s.tags.has .sufn ∧ HasNasal (s.spell form).toList variant.toList := by
  unfold variants at h
  split at h
  · exact (mem_withNasal h).imp_right fun hnasal => ⟨‹_›, hnasal⟩
  · exact .inl (List.mem_singleton.mp h)

theorem hasNasal_unspell (s : Segment) {text other : List Char} (h : HasNasal text other) :
    HasNasal (s.unspell text) (s.unspell other) := by
  obtain ⟨front, rfl, rfl⟩ := h
  refine ⟨s.unspell front, ?_, ?_⟩
  · rw [unspell_append, unspell_singleton (by decide)]
  · rw [unspell_append, unspell_singleton (by decide)]

theorem length_unspell_variant (h : variant ∈ s.variants form) :
    (s.unspell variant.toList).length = (s.unspell form.toList).length := by
  rcases mem_variants h with rfl | ⟨-, hnasal⟩
  · rw [unspell_spell]
  · obtain ⟨front, hform, hvariant⟩ := hasNasal_unspell s hnasal
    rw [← unspell_spell s form, hform, hvariant]
    simp

theorem disjoint_variants_of_length
    (h : (s.unspell form.toList).length ≠ (s.unspell other.toList).length) :
    List.Disjoint (s.variants form) (s.variants other) := fun _ hform hother =>
  h ((length_unspell_variant hform).symm.trans (length_unspell_variant hother))

/-- Different forms have no variant in common, unless one is the variant in -n of the other. -/
theorem disjoint_variants (hne : s.unspell form.toList ≠ s.unspell other.toList)
    (hnasal : s.tags.has .sufn → ¬ HasNasal (s.unspell form.toList) (s.unspell other.toList) ∧
      ¬ HasNasal (s.unspell other.toList) (s.unspell form.toList)) :
    List.Disjoint (s.variants form) (s.variants other) := by
  have hspell : s.spell form ≠ s.spell other := by
    intro heq
    exact hne (by rw [← unspell_spell, heq, unspell_spell])
  intro variant hv hv'
  rcases mem_variants hv with rfl | ⟨hsufn, hn⟩ <;> rcases mem_variants hv' with heq | ⟨hsufn, hn'⟩
  · exact hspell heq
  · have hunspelt := hasNasal_unspell s hn'
    rw [unspell_spell, unspell_spell] at hunspelt
    exact (hnasal hsufn).2 hunspelt
  · have hunspelt := hasNasal_unspell s hn
    rw [heq, unspell_spell, unspell_spell] at hunspelt
    exact (hnasal hsufn).1 hunspelt
  · obtain ⟨front, hm, hn⟩ := hn
    obtain ⟨front', hm', hn'⟩ := hn'
    have hfront : front = front' := (List.append_inj' (hn.symm.trans hn') rfl).1
    exact hspell (String.toList_injective (hm.trans (hfront ▸ hm'.symm)))

theorem nodup_variants (s : Segment) (form : String) : (s.variants form).Nodup := by
  unfold variants withNasal
  split
  · split
    · rename_i hends
      obtain ⟨front, hfront⟩ := endsIn_iff.mp hends
      rw [List.nodup_cons]
      refine ⟨fun hmem => ?_, List.nodup_singleton _⟩
      have heq := congrArg String.toList (List.mem_singleton.mp hmem)
      rw [toList_nasal hfront, hfront] at heq
      simp at heq
    · exact List.nodup_singleton _
  · exact List.nodup_singleton _

/-- Different forms of the list have no variant in common. -/
def KeepsApart (s : Segment) (forms : List String) : Prop :=
  forms.Pairwise fun form other => List.Disjoint (s.variants form) (s.variants other)

theorem KeepsApart.nodup_flatMap {forms : List String} (h : s.KeepsApart forms) :
    (forms.flatMap s.variants).Nodup :=
  List.nodup_flatMap.mpr ⟨fun form _ => s.nodup_variants form, h⟩

theorem KeepsApart.nodup {forms : List String} (h : s.KeepsApart forms) : forms.Nodup := by
  refine h.imp fun {form other} hdisjoint heq => ?_
  obtain ⟨variant, hvariant⟩ := List.exists_mem_of_ne_nil _ (s.variants_ne_nil form)
  exact hdisjoint hvariant (heq ▸ hvariant)

/-- The forms of a list with the ligatures spelt out that are put in. -/
def unspelt (s : Segment) (forms : List String) : List (List Char) :=
  forms.map fun form => s.unspell form.toList

/-- The passes tell the forms of a list apart: if ligatures are put in, the forms do not differ in
them alone, and if variants in -n are, none is there beside its form. -/
structure IsApart (s : Segment) (forms : List String) : Prop where
  lig : s.tags.has .lig → (s.unspelt forms).Nodup
  nasal : s.tags.has .sufn → NasalsApart (s.unspelt forms)

section Apart
variable {forms : List String}

theorem IsApart.disjoint (h : s.IsApart forms) (hform : form ∈ forms) (hother : other ∈ forms)
    (hne : form ≠ other) : List.Disjoint (s.variants form) (s.variants other) := by
  have hunspelt : ∀ form ∈ forms, s.unspell form.toList ∈ s.unspelt forms := fun form hform =>
    List.mem_map_of_mem hform
  apply disjoint_variants
  · intro heq
    by_cases hlig : s.tags.has .lig
    · exact hne (List.inj_on_of_nodup_map (h.lig hlig) hform hother heq)
    · exact hne (String.toList_injective (by simpa [unspell, hlig] using heq))
  · exact fun hsufn => ⟨h.nasal hsufn _ (hunspelt form hform) _ (hunspelt other hother),
      h.nasal hsufn _ (hunspelt other hother) _ (hunspelt form hform)⟩

theorem keepsApart_of_nodup (hnodup : forms.Nodup) (h : s.IsApart forms) : s.KeepsApart forms :=
  hnodup.pairwise_of_forall_ne fun _ hform _ hother hne => h.disjoint hform hother hne

/-- A link that is put on the lemma makes it longer than the other forms of its nominative. -/
theorem keepsApart_relink (hword : s.word = Text.unlink s.linkedWord) (hnodup : forms.Nodup)
    (h : s.IsApart forms)
    (hnear : ∀ form ∈ forms, ∀ other ∈ forms, IsNear form.toList other.toList) :
    s.KeepsApart (forms.map s.relink) := by
  by_cases hsame : s.linkedWord = s.word
  · have hrelink : forms.map s.relink = forms := by
      refine List.map_id'' (fun form => ?_) forms
      unfold relink
      split
      · exact hsame.trans (Eq.symm ‹_›)
      · rfl
    rw [hrelink]
    exact keepsApart_of_nodup hnodup h
  · have hlong : s.word.length + 4 ≤ s.linkedWord.length := by
      rw [hword] at hsame ⊢
      exact (Text.length_unlink s.linkedWord).resolve_left (Ne.symm hsame)
    have hligatures : s.word.toList.countP isLigature ≤ s.linkedWord.toList.countP isLigature :=
      hword ▸ (Text.unlink_sublist s.linkedWord).countP_le
    have hlonger : ∀ other ∈ forms, s.word ∈ forms →
        (s.unspell other.toList).length < (s.unspell s.linkedWord.toList).length := by
      intro other hother hmem
      obtain ⟨hlength, -, hcount⟩ := hnear other hother s.word hmem
      rw [length_unspell, length_unspell]
      simp only [String.length_toList] at hlength ⊢
      split <;> omega
    unfold KeepsApart
    rw [List.pairwise_map]
    refine hnodup.pairwise_of_forall_ne fun form hform other hother hne => ?_
    unfold relink
    split_ifs with hf ho ho
    · exact absurd (hf.trans ho.symm) hne
    · exact disjoint_variants_of_length (hlonger other hother (hf ▸ hform)).ne'
    · exact disjoint_variants_of_length (hlonger form hform (ho ▸ hother)).ne
    · exact h.disjoint hform hother hne

end Apart

theorem keepsApart_nil : s.KeepsApart [] := List.Pairwise.nil

section Passes
variable {brackets : Prop} {m : FormMap} {num : Option NumberUse}

theorem keepsApart_addLinked (hword : s.word = Text.unlink s.linkedWord) (hm : m.AreTidy brackets)
    (hapart : ∀ slot, s.IsApart (m.forms slot)) (slot : Slot) :
    s.KeepsApart ((s.addLinked m).forms slot) := by
  have hplain : ∀ slot, s.KeepsApart (m.forms slot) := fun slot =>
    keepsApart_of_nodup (hm.nodup slot) (hapart slot)
  obtain ⟨hcell, hlinked⟩ := get?_foldl_relink s (Slot.lemmaSlots s.isAdj) m
  cases slot with
  | cell c n g =>
    have hsame : (s.addLinked m).forms (.cell c n g) = m.forms (.cell c n g) :=
      congrArg (·.getD []) (hcell c n g)
    exact hsame ▸ hplain _
  | linked n g =>
    have hget : (s.addLinked m).get? (.linked n g) = _ := hlinked n g
    unfold FormMap.forms
    rw [hget]
    split
    · cases hforms : m.get? (.cell .nom n g) with
      | none => exact keepsApart_nil
      | some forms =>
        have hrow := hm _ forms hforms
        refine keepsApart_relink hword hrow.nodup ?_ fun _ hform _ hother => ?_
        · simpa [FormMap.forms, hforms] using hapart (.cell .nom n g)
        · exact hrow.isNear rfl hform hother
    · exact hplain (.linked n g)

theorem nodup_finish (hword : s.word = Text.unlink s.linkedWord) (hm : m.AreTidy brackets)
    (hapart : ∀ slot, s.IsApart (m.forms slot)) (slot : Slot) :
    ((s.finish num m).forms slot).Nodup := by
  have hrework : ∀ slot, ((s.rework m).forms slot).Nodup := by
    intro slot
    have hlinked := keepsApart_addLinked hword hm hapart slot
    unfold FormMap.forms at hlinked ⊢
    by_cases hrun : slot ∈ Slot.run s.isAdj
    · rw [get?_rework hrun]
      cases hget : (s.addLinked m).get? slot with
      | none => exact List.nodup_nil
      | some forms =>
        rw [hget] at hlinked
        exact hlinked.nodup_flatMap
    · rw [get?_rework_of_not_mem hrun]
      exact hlinked.nodup
  rw [finish_eq]
  unfold mirrorOnly
  split
  · unfold FormMap.forms
    rw [FormMap.get?_mirrorNumber]
    split
    · exact hrework slot.mirror
    · exact hrework slot
  · exact hrework slot

end Passes

end Segment

/-- A run of one word, read and declined by the tables of Latin, lists no form twice, unless its
stem is to drop an -s behind which there is a line break, or forms of its paradigm differ in
ligatures alone and ligatures are put in, or one in -m is listed beside its variant in -n and the
word gets such variants. -/
theorem Run.nodup_forms {o : Options} {pos text : String} {isAdj : Bool} {r : Run} {s : Segment}
    {p : Paradigm} {c : Composition} (hread : Run.read .latin text = .ok r)
    (hword : r.nodes = [.piece (.word s)]) (h : r.compose ⟨.latin, o⟩ pos isAdj = .ok c)
    (hp : s.paradigmIn ⟨.latin, o⟩ pos isAdj r.summary = .ok p)
    (hends : Noun.Third.dropsS s.stem → Text.endsIn "s" s.stem)
    (hlig : s.tags.has .lig → ∀ slot, (s.unspelt (p.forms.forms slot)).Nodup)
    (hnasal : s.tags.has .sufn → ∀ slot, NasalsApart (s.unspelt (p.forms.forms slot)))
    (slot : Slot) :
    (c.cell slot).forms.Nodup := by
  obtain ⟨q, hq, hfit, rfl⟩ := (compose_word hword).mp h
  cases hp.symm.trans hq
  have hshown : s.ShowsPlain := Run.showsPlain_of_read hread (.word s) (by simp [hword])
  have himply : (s.lexeme pos isAdj (s.numberIn r.summary) (s.genderIn r.summary)
      r.summary.loc).BracketsImply True :=
    ⟨fun _ => trivial, fun _ => trivial⟩
  have htidy := Segment.areTidy_paradigm Tables.areTidy_latin himply hends hp
  have hapart : ∀ slot, s.IsApart (p.forms.forms slot) := fun slot =>
    ⟨fun hl => hlig hl slot, fun hsufn => hnasal hsufn slot⟩
  simp only [Composition.append, Composition.unit, Cell.forms_unit_append]
  rw [Segment.forms_contribution]
  exact (Segment.nodup_finish hshown.word htidy hapart _).map fun _ _ heq =>
    (String.append_right_inj _).mp heq

/-- The noun `praeceps`, linked and spelt with ligatures, with two forms in the accusative. -/
theorem Run.nodup_forms_praeceps :
    ∃ r s p c, Run.read .latin "[[praeceps]]/praecipit<3.lig.sufn>" = .ok r ∧
      r.nodes = [.piece (.word s)] ∧ r.compose ⟨.latin, {}⟩ "nouns" false = .ok c ∧
      s.paradigmIn ⟨.latin, {}⟩ "nouns" false r.summary = .ok p ∧
      (Noun.Third.dropsS s.stem → Text.endsIn "s" s.stem) ∧
      (s.tags.has .lig → ∀ slot, (s.unspelt (p.forms.forms slot)).Nodup) ∧
      (s.tags.has .sufn → ∀ slot, NasalsApart (s.unspelt (p.forms.forms slot))) ∧
      (c.cell (.sg .acc)).forms = ["præcipiten", "præcipitem"] ∧
      ∀ slot, (c.cell slot).forms.Nodup := by
  obtain ⟨r, s, p, c, hr, hword, hc, hp, hends, hlig, hnasal, hforms⟩ :
      ∃ r s p c, Run.read .latin "[[praeceps]]/praecipit<3.lig.sufn>" = .ok r ∧
        r.nodes = [.piece (.word s)] ∧ r.compose ⟨.latin, {}⟩ "nouns" false = .ok c ∧
        s.paradigmIn ⟨.latin, {}⟩ "nouns" false r.summary = .ok p ∧
        (Noun.Third.dropsS s.stem → Text.endsIn "s" s.stem) ∧
        (∀ slot ∈ Slot.all, (s.unspelt (p.forms.forms slot)).Nodup) ∧
        (∀ slot ∈ Slot.all, NasalsApart (s.unspelt (p.forms.forms slot))) ∧
        (c.cell (.sg .acc)).forms = ["præcipiten", "præcipitem"] :=
    ⟨_, _, _, _, rfl, rfl, rfl, rfl, by decide +kernel, by decide +kernel, by decide +kernel,
      by decide +kernel⟩
  have hlig : s.tags.has .lig → ∀ slot, (s.unspelt (p.forms.forms slot)).Nodup :=
    fun _ slot => hlig slot slot.mem_all
  have hnasal : s.tags.has .sufn → ∀ slot, NasalsApart (s.unspelt (p.forms.forms slot)) :=
    fun _ slot => hnasal slot slot.mem_all
  exact ⟨r, s, p, c, hr, hword, hc, hp, hends, hlig, hnasal, hforms,
    fun slot => nodup_forms hr hword hc hp hends hlig hnasal slot⟩

/-- The accusatives of `puppis` are in -im and -in, and the one in -im gets a variant in -in as
well. -/
theorem Run.not_nodup_forms_puppis :
    ∃ r s c, Run.read .latin "puppis<3.I.acc_im_in.sufn>" = .ok r ∧
      r.nodes = [.piece (.word s)] ∧ r.compose ⟨.latin, {}⟩ "nouns" false = .ok c ∧
      (c.cell (.sg .acc)).forms = ["puppin", "puppim", "puppin"] ∧
      ¬ (c.cell (.sg .acc)).forms.Nodup :=
  ⟨_, _, _, rfl, rfl, rfl, by decide +kernel, by decide +kernel⟩

end Declension
