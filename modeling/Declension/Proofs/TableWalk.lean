import Mathlib.Data.Nat.Find
import Declension.Proofs.AdjectiveCitation
import Declension.Proofs.ImpliedTags

/-!
# Walks over ending tables

A noun or adjective is read by the first entry of a table that is not excluded by what is written,
finds a base in the word, and agrees with its oblique stem. The more is written, the more entries
are excluded, so that a walk which still finds an entry finds it no earlier. Main statement:
`walk_antitone`.
-/
namespace Declension

/-- What a walk over a table reads. -/
inductive WordKind where
  | noun | adjective
  deriving DecidableEq, Repr

/-- What is written excludes an entry: plurals are read by entries for plurals only, no tag of an
entry may go against what is written, and an entry for adjectives may bar tags from being
written. -/
inductive Excludes (written : TagSet) (e : EndingEntry) : WordKind → Prop
  | plural {k : WordKind} (h : .has .pl ∈ written) (hentry : .has .pl ∉ e.tags) :
      Excludes written e k
  | contradicted {u : Tag} (hu : u ∈ e.tags) (h : Contradicts written u) :
      Excludes written e .noun
  | vetoed {u : Tag} (hu : u ∈ e.tags) (h : .veto u ∈ written) : Excludes written e .adjective
  | barred {u : Tag} (hu : .veto u ∈ e.tags) (h : u ∈ written) : Excludes written e .adjective

/-- An entry reads a word from a base. No base of a noun is empty, and an empty base of an adjective
asks for no oblique stem. -/
structure Fits (k : WordKind) (word : String) (oblique : Option String) (written : TagSet)
    (e : EndingEntry) (base : String) : Prop where
  admitted : ¬ Excludes written e k
  ends : e.ending.base? word = some base
  nonempty : k = .noun → base ≠ ""
  agrees : ∀ tail ∈ e.obliqueTail, base = "" ∨ oblique = some (base ++ tail)

section Mono
variable {written more : TagSet} {e : EndingEntry} {k : WordKind} {u : Tag}
  (hmore : written ⊆ more)

include hmore

theorem Contradicts.mono (h : Contradicts written u) : Contradicts more u := by
  cases h with
  | vetoed h => exact .vetoed (hmore h)
  | neuter h => exact .neuter (h.imp (hmore ·) (hmore ·))
  | masculine h => exact .masculine (hmore h)
  | feminine h => exact .feminine (hmore h)
  | singular h => exact .singular (hmore h)
  | plural h => exact .plural (hmore h)

theorem Excludes.mono (h : Excludes written e k) : Excludes more e k := by
  cases h with
  | plural h hentry => exact .plural (hmore h) hentry
  | contradicted hu h => exact .contradicted hu (h.mono hmore)
  | vetoed hu h => exact .vetoed hu (hmore h)
  | barred hu h => exact .barred hu (hmore h)

theorem Fits.anti {word base : String} {oblique : Option String}
    (h : Fits k word oblique more e base) : Fits k word oblique written e base where
  admitted hexcludes := h.admitted (hexcludes.mono hmore)
  ends := h.ends
  nonempty := h.nonempty
  agrees := h.agrees

end Mono

namespace EndingEntry
variable {e : EndingEntry} {written : TagSet} {word base : String} {oblique : Option String}

theorem missesPlural_iff : e.missesPlural written ↔ .has .pl ∈ written ∧ .has .pl ∉ e.tags := by
  simp [missesPlural, TagSet.has]

theorem nounExcluded_iff : e.nounExcluded written ↔ Excludes written e .noun := by
  rw [nounExcluded, Bool.or_eq_true, missesPlural_iff, List.any_eq_true]
  constructor
  · rintro (⟨h, hentry⟩ | ⟨u, hu, hclash⟩)
    · exact .plural h hentry
    · exact .contradicted hu (nounClash_iff.mp hclash)
  · intro h
    cases h with
    | plural h hentry => exact .inl ⟨h, hentry⟩
    | contradicted hu h => exact .inr ⟨_, hu, nounClash_iff.mpr h⟩

theorem adjectiveClash_iff {u : Tag} : adjectiveClash written u ↔
    .veto u ∈ written ∨ ∃ v, u = .veto v ∧ v ∈ written := by
  cases u <;> simp [adjectiveClash]

theorem adjectiveExcluded_iff : e.adjectiveExcluded written ↔ Excludes written e .adjective := by
  rw [adjectiveExcluded, Bool.or_eq_true, missesPlural_iff, List.any_eq_true]
  constructor
  · rintro (⟨h, hentry⟩ | ⟨u, hu, hclash⟩)
    · exact .plural h hentry
    · rcases adjectiveClash_iff.mp hclash with h | ⟨v, rfl, h⟩
      · exact .vetoed hu h
      · exact .barred hu h
  · intro h
    cases h with
    | plural h hentry => exact .inl ⟨h, hentry⟩
    | vetoed hu h => exact .inr ⟨_, hu, adjectiveClash_iff.mpr (.inl h)⟩
    | barred hu h => exact .inr ⟨_, hu, adjectiveClash_iff.mpr (.inr ⟨_, rfl, h⟩)⟩

theorem wantsOblique_iff :
    e.wantsOblique base oblique ↔ ∀ tail ∈ e.obliqueTail, oblique = some (base ++ tail) := by
  unfold wantsOblique
  cases e.obliqueTail with
  | none => simp
  | some tail => simp [eq_comm]

theorem nounBase?_iff_fits :
    e.nounBase? word oblique written = some base ↔ Fits .noun word oblique written e base := by
  have hopen : e.nounExcluded written = false ↔ ¬ Excludes written e .noun := by
    rw [← nounExcluded_iff, Bool.not_eq_true]
  constructor
  · intro h
    unfold nounBase? at h
    split at h
    · cases h
    · rename_i hexcluded
      obtain ⟨h, hwants⟩ := Option.filter_eq_some_iff.mp h
      obtain ⟨hbase, hne⟩ := Option.filter_eq_some_iff.mp h
      refine ⟨hopen.mp (by simpa using hexcluded), hbase, fun _ => by simpa using hne, ?_⟩
      exact fun tail htail => .inr (wantsOblique_iff.mp hwants tail htail)
  · intro h
    have hne : base ≠ "" := h.nonempty rfl
    have hwants : e.wantsOblique base oblique :=
      wantsOblique_iff.mpr fun tail htail => (h.agrees tail htail).resolve_left hne
    rw [nounBase?, hopen.mpr h.admitted, if_neg Bool.false_ne_true, h.ends]
    simp [Option.filter, hne, hwants]

theorem adjectiveBase?_iff_fits : e.adjectiveBase? word oblique written = some base ↔
    Fits .adjective word oblique written e base := by
  have hopen : e.adjectiveExcluded written = false ↔ ¬ Excludes written e .adjective := by
    rw [← adjectiveExcluded_iff, Bool.not_eq_true]
  rw [adjectiveBase?_eq_some_iff, hopen, wantsOblique_iff]
  constructor
  · rintro ⟨hadmitted, hbase, hwants⟩
    refine ⟨hadmitted, hbase, nofun, fun tail htail => ?_⟩
    exact hwants.imp_right fun h => h tail htail
  · intro h
    refine ⟨h.admitted, h.ends, ?_⟩
    by_cases hempty : base = ""
    · exact .inl hempty
    · exact .inr fun tail htail => (h.agrees tail htail).resolve_left hempty

end EndingEntry

/-- The entry at a place of a list reads a word from a base, and none before it reads the word. -/
structure IsFirst (fits : EndingEntry → String → Prop) (entries : List EndingEntry) (i : ℕ)
    (e : EndingEntry) (base : String) : Prop where
  entry : entries[i]? = some e
  reads : fits e base
  first : ∀ j < i, ∀ d, entries[j]? = some d → ∀ b, ¬ fits d b

section First
variable {fits fits' : EndingEntry → String → Prop} {entries : List EndingEntry} {i : ℕ}
  {e : EndingEntry} {base : String}

theorem exists_isFirst (hentry : entries[i]? = some e) (h : fits e base) :
    ∃ j ≤ i, ∃ d b, IsFirst fits entries j d b := by
  classical
  have hexists : ∃ j, ∃ d b, entries[j]? = some d ∧ fits d b := ⟨i, e, base, hentry, h⟩
  obtain ⟨d, b, hd, hb⟩ := Nat.find_spec hexists
  refine ⟨Nat.find hexists, Nat.find_min' hexists ⟨e, base, hentry, h⟩, d, b, hd, hb, ?_⟩
  intro j hj d' hd' b' hb'
  exact Nat.find_min hexists hj ⟨d', b', hd', hb'⟩

theorem IsFirst.anti (hfits : ∀ d b, fits' d b → fits d b) (h : IsFirst fits entries i e base)
    (hstill : fits' e base) : IsFirst fits' entries i e base where
  entry := h.entry
  reads := hstill
  first j hj d hd b hb := h.first j hj d hd b (hfits d b hb)

theorem firstWithBase_iff_isFirst {base? : EndingEntry → Option String}
    (hfits : ∀ d b, base? d = some b ↔ fits d b) :
    firstWithBase base? entries = some (e, base) ↔ ∃ i, IsFirst fits entries i e base := by
  rw [firstWithBase_eq_some_iff]
  constructor
  · rintro ⟨front, back, rfl, hfront, hbase⟩
    refine ⟨front.length, by simp, (hfits e base).mp hbase, fun j hj d hd b hb => ?_⟩
    rw [List.getElem?_append_left hj] at hd
    have hnone := hfront d (List.mem_of_getElem? hd)
    rw [(hfits d b).mpr hb] at hnone
    cases hnone
  · rintro ⟨i, h⟩
    obtain ⟨hi, rfl⟩ := List.getElem?_eq_some_iff.mp h.entry
    refine ⟨entries.take i, entries.drop (i + 1), ?_, fun d hd => ?_, (hfits _ _).mpr h.reads⟩
    · rw [List.getElem_cons_drop, List.take_append_drop]
    · obtain ⟨j, hj, rfl⟩ := List.mem_take_iff_getElem.mp hd
      rw [Option.eq_none_iff_forall_ne_some]
      intro b hb
      exact h.first j (by omega) _ (List.getElem?_eq_getElem _) b ((hfits _ _).mp hb)

end First

/-- What an entry of an adjective makes of a base. -/
def EndingEntry.reading (e : EndingEntry) (t : Tables) (table : EndingTable)
    (oblique : Option String) (fallback base : String) : Classification where
  stem := (stemsBy t table.obliqueRule e.deriver base oblique).1
  oblique := (stemsBy t table.obliqueRule e.deriver base oblique).2
  decl := (table.named e).getD fallback
  tags := e.positiveTags

section Walk
variable {t : Tables} {table : EndingTable} {entries : List EndingEntry} {word fallback : String}
  {oblique : Option String} {written : TagSet}

theorem matchNoun_eq_some_iff {found : String × List Tag} :
    matchNoun entries word oblique written = some found ↔ ∃ i e base,
      IsFirst (Fits .noun word oblique written) entries i e base ∧ found = (base, e.tags) := by
  have hfits : ∀ (d : EndingEntry) b, d.nounBase? word oblique written = some b ↔
      Fits .noun word oblique written d b := fun _ _ => EndingEntry.nounBase?_iff_fits
  rw [matchNoun, Option.map_eq_some_iff]
  constructor
  · rintro ⟨⟨e, base⟩, hfirst, rfl⟩
    obtain ⟨i, hi⟩ := (firstWithBase_iff_isFirst hfits).mp hfirst
    exact ⟨i, e, base, hi, rfl⟩
  · rintro ⟨i, e, base, hi, rfl⟩
    exact ⟨(e, base), (firstWithBase_iff_isFirst hfits).mpr ⟨i, hi⟩, rfl⟩

theorem matchAdjective_eq_some_iff {found : Classification} :
    matchAdjective t table word oblique fallback written = some found ↔ ∃ i e base,
      IsFirst (Fits .adjective word oblique written) table.entries i e base ∧
        found = e.reading t table oblique fallback base := by
  have hfits : ∀ (d : EndingEntry) b, d.adjectiveBase? word oblique written = some b ↔
      Fits .adjective word oblique written d b := fun _ _ => EndingEntry.adjectiveBase?_iff_fits
  constructor
  · intro h
    obtain ⟨⟨e, base⟩, hfirst, _⟩ := Option.map_eq_some_iff.mp h
    rw [matchAdjective_of_first hfirst] at h
    obtain ⟨i, hi⟩ := (firstWithBase_iff_isFirst hfits).mp hfirst
    exact ⟨i, e, base, hi, (Option.some.inj h).symm⟩
  · rintro ⟨i, e, base, hi, rfl⟩
    exact matchAdjective_of_first ((firstWithBase_iff_isFirst hfits).mpr ⟨i, hi⟩)

end Walk

/-- A walk chooses the first entry that fits. If more is written, a walk that finds an entry would
have found one before, at the same place or an earlier one, and the result is the same as long as
the entry chosen before is not excluded. -/
theorem walk_antitone (t : Tables) (table : EndingTable) (word fallback : String)
    (oblique : Option String) {written more : TagSet} (hmore : written ⊆ more) :
    (∀ tags found, matchNoun table.entries word oblique tags = some found ↔ ∃ i e base,
      IsFirst (Fits .noun word oblique tags) table.entries i e base ∧ found = (base, e.tags)) ∧
    (∀ tags found, matchAdjective t table word oblique fallback tags = some found ↔ ∃ i e base,
      IsFirst (Fits .adjective word oblique tags) table.entries i e base ∧
        found = e.reading t table oblique fallback base) ∧
    (∀ k i e base, IsFirst (Fits k word oblique more) table.entries i e base →
      ∃ j ≤ i, ∃ d b, IsFirst (Fits k word oblique written) table.entries j d b) ∧
    (∀ i e base, IsFirst (Fits .noun word oblique written) table.entries i e base →
      ¬ Excludes more e .noun →
        matchNoun table.entries word oblique more = matchNoun table.entries word oblique written) ∧
    (∀ i e base, IsFirst (Fits .adjective word oblique written) table.entries i e base →
      ¬ Excludes more e .adjective → matchAdjective t table word oblique fallback more =
        matchAdjective t table word oblique fallback written) := by
  -- the first entry is still the first one while it is admitted, as no other one is admitted anew
  have hsame : ∀ k i e base, IsFirst (Fits k word oblique written) table.entries i e base →
      ¬ Excludes more e k → IsFirst (Fits k word oblique more) table.entries i e base := by
    intro k i e base h hadmitted
    have hfits : Fits k word oblique more e base :=
      ⟨hadmitted, h.reads.ends, h.reads.nonempty, h.reads.agrees⟩
    exact h.anti (fun _ _ hb => hb.anti hmore) hfits
  refine ⟨fun _ _ => matchNoun_eq_some_iff, fun _ _ => matchAdjective_eq_some_iff, ?_, ?_, ?_⟩
  · intro k i e base h
    exact exists_isFirst h.entry (h.reads.anti hmore)
  · intro i e base h hadmitted
    have hmatch := hsame .noun i e base h hadmitted
    rw [matchNoun_eq_some_iff.mpr ⟨i, e, base, h, rfl⟩,
      matchNoun_eq_some_iff.mpr ⟨i, e, base, hmatch, rfl⟩]
  · intro i e base h hadmitted
    have hmatch := hsame .adjective i e base h hadmitted
    rw [matchAdjective_eq_some_iff.mpr ⟨i, e, base, h, rfl⟩,
      matchAdjective_eq_some_iff.mpr ⟨i, e, base, hmatch, rfl⟩]

/-- Without the entries in -ius the son is read by the entry for -us, which is a later one. -/
theorem walk_antitone_of_filius : ([] : TagSet) ⊆ [.veto (.has .ius)] ∧
    matchNoun Latin.nounSecond.entries "fīlius" none [] = some ("fīl", [.has .M, .has .ius]) ∧
    matchNoun Latin.nounSecond.entries "fīlius" none [.veto (.has .ius)] =
      some ("fīli", [.has .M]) ∧
    ∃ i e base,
      IsFirst (Fits .noun "fīlius" none [.veto (.has .ius)]) Latin.nounSecond.entries i e base ∧
      ∃ j ≤ i, ∃ d b, IsFirst (Fits .noun "fīlius" none []) Latin.nounSecond.entries j d b := by
  have hmore : ([] : TagSet) ⊆ [.veto (.has .ius)] := List.nil_subset _
  obtain ⟨hnoun, _, hearlier, _⟩ :=
    walk_antitone Tables.latin Latin.nounSecond "fīlius" "2" none hmore
  have hfound : matchNoun Latin.nounSecond.entries "fīlius" none [.veto (.has .ius)] =
      some ("fīli", [.has .M]) := by decide +kernel
  obtain ⟨i, e, base, hfirst, _⟩ := (hnoun _ _).mp hfound
  exact ⟨hmore, by decide +kernel, hfound, i, e, base, hfirst, hearlier _ i e base hfirst⟩

end Declension
