import Declension.Inflection
import Declension.Proofs.OrderedMap
import Declension.Proofs.Outcome
import Declension.Proofs.Sheet
import Declension.Tables.Reader

/-!
# What validated tables hold

A document gives forms by the names of slots, and is taken only if every name is in the vocabulary.
Where the irregular adjectives fill every slot once, so does every word that is declined.
-/
namespace Declension

/-- Every slot of an irregular adjective is filled once. -/
def Tables.FillsOnce (t : Tables) : Prop := ∀ p ∈ t.irregularAdjectives, p.forms.keys.Nodup

namespace Tables

theorem list?_eq_some {α : Type} {item : Json → Option α} {v : Json} {values : List α}
    (h : Json.list? item v = some values) : ∀ a ∈ values, ∃ w, item w = some a := by
  cases v with
  | arr items => exact forall_mem_of_forall₂ (mapM_eq_some.mp h) fun w _ hw => ⟨w, hw⟩
  | _ => cases h

theorem optionalList?_eq_some {α : Type} {key : String} {item : Json → Option α} {v : Json}
    {values : List α} (h : Json.optional? key [] (Json.list? item) v = some values) :
    ∀ a ∈ values, ∃ w, item w = some a := by
  unfold Json.optional? at h
  split at h
  · exact list?_eq_some h
  · cases h
    intro a ha
    cases ha

theorem byName?_eq_some {α : Type} {item : Json → Option α} {v : Json} {m : OrderedMap String α}
    (h : byName? item v = some m) : ∀ e ∈ m.entries, ∃ w, item w = some e.2 := by
  obtain ⟨pairs, hpairs, rfl⟩ := Option.map_eq_some_iff.mp h
  intro e he
  cases v with
  | obj members =>
    obtain ⟨member, _, hmember⟩ := exists_mem_of_forall₂ (mapM_eq_some.mp hpairs)
      (OrderedMap.mem_of_mem_ofList he)
    obtain ⟨a, ha, rfl⟩ := Option.map_eq_some_iff.mp hmember
    exact ⟨member.2, ha⟩
  | _ => cases hpairs

theorem isKnown_of_tag? {v : Json} {tag : Tag} (h : tag? v = some tag) : tag.isKnown := by
  obtain ⟨_, _, h⟩ := Option.bind_eq_some_iff.mp h
  exact (Option.filter_eq_some_iff.mp h).2

theorem isKnown_of_entry? [Expressions] {v : Json} {entry : EndingEntry}
    (h : entry? v = some entry) : ∀ tag ∈ entry.tags, tag.isKnown := by
  unfold entry? at h
  simp only [Option.bind_eq_bind, Option.bind_eq_some_iff] at h
  obtain ⟨_, _, _, _, _, _, tags, htags, _, _, h⟩ := h
  cases h
  intro tag htag
  obtain ⟨_, hread⟩ := optionalList?_eq_some htags tag htag
  exact isKnown_of_tag? hread

theorem isKnown_of_endingTable? [Expressions] {v : Json} {table : EndingTable}
    (h : endingTable? v = some table) : ∀ entry ∈ table.entries, ∀ tag ∈ entry.tags,
      tag.isKnown := by
  simp only [endingTable?, Option.bind_eq_bind, Option.bind_eq_some_iff] at h
  obtain ⟨_, _, _, _, entries, hentries, h⟩ := h
  cases h
  obtain ⟨_, _, hlist⟩ := Option.bind_eq_some_iff.mp hentries
  intro entry hentry
  obtain ⟨_, hread⟩ := list?_eq_some hlist entry hentry
  exact isKnown_of_entry? hread

/-- The names under which a document gives forms are those of the slots that are filled. -/
theorem name_of_slotForms? {members : List (String × Json)} {m : FormMap}
    (h : slotForms? (.obj members) = some m) :
    ∀ name ∈ members.map Prod.fst, ∃ slot ∈ m.keys, slot.name = name := by
  obtain ⟨forms, hforms, h⟩ := Option.bind_eq_some_iff.mp h
  obtain ⟨slots, hslots, h⟩ := Option.bind_eq_some_iff.mp h
  cases h
  have hread : members.map Prod.fst = forms.map Prod.fst := by
    apply map_eq_of_forall₂ (mapM_eq_some.mp hforms)
    intro member form hmember
    obtain ⟨texts, _, rfl⟩ := Option.map_eq_some_iff.mp hmember
    rfl
  have hknown : forms.map Prod.fst = slots.map fun e => e.1.name := by
    apply map_eq_of_forall₂ (mapM_eq_some.mp hslots)
    intro form entry hentry
    obtain ⟨slot, hslot, rfl⟩ := Option.map_eq_some_iff.mp hentry
    exact (Slot.name_of_ofName? hslot).symm
  intro name hname
  rw [hread, hknown] at hname
  obtain ⟨e, he, rfl⟩ := List.mem_map.mp hname
  exact ⟨e.1, OrderedMap.mem_keys_insertMany.mpr (.inr (List.mem_map_of_mem he)), rfl⟩

theorem forms_of_irregularParadigm? {v : Json} {p : IrregularParadigm}
    (h : irregularParadigm? v = some p) : Json.required? "forms" slotForms? v = some p.forms := by
  simp only [irregularParadigm?, Option.bind_eq_bind, Option.bind_eq_some_iff] at h
  obtain ⟨_, _, _, _, _, _, forms, hforms, _, _, _, _, _, _, _, _, h⟩ := h
  cases h
  exact hforms

/-- What sections of tables are read as, where tags or slots are checked. -/
structure ReadsSections [Expressions] (v : Json) (t : Tables) : Prop where
  nounEndings :
    Json.required? "noun_endings" (byName? endingTable?) v = some t.nounEndings
  adjectiveEndings :
    Json.required? "adjective_endings" (byName? endingTable?) v = some t.adjectiveEndings
  irregularNounTags :
    Json.optional? "irregular_noun_tags" ∅ (byName? (Json.list? tag?)) v = some t.irregularNounTags
  irregularNouns :
    Json.optional? "irregular_nouns" [] (Json.list? irregularParadigm?) v = some t.irregularNouns
  irregularAdjectives : Json.optional? "irregular_adjectives" []
    (Json.list? irregularParadigm?) v = some t.irregularAdjectives

theorem readsSections_of_ofSections? [Expressions] {v : Json} {t : Tables}
    (h : ofSections? v = some t) : ReadsSections v t := by
  simp only [ofSections?, Option.bind_eq_bind, Option.bind_eq_some_iff] at h
  obtain ⟨_, _, nouns, hnouns, adjectives, hadjectives, _, _, _, _, tags, htags, _, _, irregular,
    hirregular, irregularAdjectives, hirregularAdjectives, _, _, h⟩ := h
  cases h
  exact ⟨hnouns, hadjectives, htags, hirregular, hirregularAdjectives⟩

section Irregular
variable {t : Tables} {word : String} {q : IrregularParadigm}

theorem irregularNoun_eq_ok :
    t.irregularNoun word = .ok q ↔ t.irregularNouns.find? (word ∈ ·.words) = some q := by
  unfold irregularNoun
  cases t.irregularNouns.find? (word ∈ ·.words) <;> simp

theorem mem_of_irregularNoun (h : t.irregularNoun word = .ok q) : q ∈ t.irregularNouns :=
  List.mem_of_find?_eq_some (irregularNoun_eq_ok.mp h)

theorem irregularAdjective_eq_ok :
    t.irregularAdjective word = .ok q ↔ t.irregularAdjectives.find? (word ∈ ·.words) = some q := by
  unfold irregularAdjective
  cases t.irregularAdjectives.find? (word ∈ ·.words) <;> simp

theorem mem_of_irregularAdjective (h : t.irregularAdjective word = .ok q) :
    q ∈ t.irregularAdjectives :=
  List.mem_of_find?_eq_some (irregularAdjective_eq_ok.mp h)

end Irregular

end Tables

namespace Noun
open OrderedMap

theorem Third.nodup_addLocative {m : FormMap} (h : m.keys.Nodup) :
    (Third.addLocative m).keys.Nodup :=
  nodup_keys_insert (nodup_keys_insert h _ _) _ _

theorem Third.nodup_keys_forms (o : Options) (w : Lexeme) (greekStem bareStem : String) :
    (Third.forms o w greekStem bareStem).keys.Nodup := by
  simp only [Third.forms]
  split
  · exact Third.nodup_addLocative (nodup_keys_ofList _)
  · exact nodup_keys_ofList _

theorem Fourth.nodup_addLocative {m : FormMap} (h : m.keys.Nodup) :
    (Fourth.addLocative m).keys.Nodup :=
  nodup_keys_insert (nodup_keys_insert h _ _) _ _

theorem nodup_keys_fourth (w : Lexeme) : (fourth w).forms.keys.Nodup := by
  simp only [fourth]
  split
  · exact Fourth.nodup_addLocative (nodup_keys_ofList _)
  · exact nodup_keys_ofList _

theorem nodup_keys_decline {e : Engine} {w : Lexeme} {c : Class} {p : Paradigm}
    (h : decline e w c = .ok p) : p.forms.keys.Nodup := by
  cases c with
  | third =>
    obtain ⟨greek, _, h⟩ := bind_eq_ok.mp h
    obtain ⟨bare, _, h⟩ := bind_eq_ok.mp h
    exact Except.ok.inj h ▸ Third.nodup_keys_forms e.options w greek bare
  | fourth => exact Except.ok.inj h ▸ nodup_keys_fourth w
  | irregular =>
    obtain ⟨q, _, h⟩ := bind_eq_ok.mp h
    rw [← Except.ok.inj h]
    exact nodup_keys_ofList _
  | _ =>
    rw [← Except.ok.inj h]
    simp only [first, second, fifth, invariable, indeclinable]
    exact nodup_keys_ofList _

end Noun

namespace Adjective
open OrderedMap

theorem nodup_keys_firstSecond {w : Lexeme} {p : Paradigm} (h : firstSecond w = .ok p) :
    p.forms.keys.Nodup := by
  obtain ⟨r, _, h⟩ := bind_eq_ok.mp h
  have hforms : p.forms = FirstSecond.forms w := by rw [← Except.ok.inj h]
  rw [hforms]
  simp only [FirstSecond.forms]
  exact nodup_keys_ofList _

theorem keys_formsFor (p : IrregularParadigm) (word : String) :
    (p.formsFor word).keys = p.forms.keys := by
  simp [IrregularParadigm.formsFor, keys, Function.comp_def]

theorem get?_formsFor (p : IrregularParadigm) (word : String) (slot : Slot) :
    (p.formsFor word).get? slot =
      (p.forms.get? slot).map (·.map (IrregularParadigm.fill word)) :=
  get?_mapValues (fun forms : List String => forms.map (IrregularParadigm.fill word)) p.forms slot

theorem nodup_keys_irregular {t : Tables} (ht : t.FillsOnce) {w : Lexeme} {p : Paradigm}
    (h : irregular t w = .ok p) : p.forms.keys.Nodup := by
  unfold irregular at h
  split at h
  · obtain ⟨q, hq, h⟩ := bind_eq_ok.mp h
    cases h
    exact nodup_keys_insertMany (nodup_keys_firstSecond hq) _
  · obtain ⟨q, hq, h⟩ := bind_eq_ok.mp h
    cases h
    rw [keys_formsFor]
    exact ht _ (Tables.mem_of_irregularAdjective hq)

theorem nodup_keys_decline {e : Engine} (ht : e.tables.FillsOnce) {w : Lexeme} {c : Class}
    {p : Paradigm} (h : decline e w c = .ok p) : p.forms.keys.Nodup := by
  cases c with
  | firstSecond => exact nodup_keys_firstSecond h
  | irregular => exact nodup_keys_irregular ht h
  | _ =>
    rw [← Except.ok.inj h]
    simp only [indeclinable, firstFirst, secondSecond, thirdOne, comparative, participle,
      thirdTwo, thirdThree]
    exact nodup_keys_ofList _

end Adjective

namespace Segment

theorem forms_withTitle {t : Tables} {s : Segment} {p q : Paradigm}
    (h : s.withTitle t p = .ok q) : q.forms = p.forms := by
  unfold withTitle at h
  split at h
  · cases h
    rfl
  · obtain ⟨title, _, h⟩ := bind_eq_ok.mp h
    cases h
    rfl

theorem exists_decline_of_paradigm {e : Engine} {s : Segment} {w : Lexeme} {p : Paradigm}
    (h : s.paradigm e w = .ok p) : ∃ q, s.decline e w = .ok q ∧ p.forms = q.forms := by
  obtain ⟨q, hq, h⟩ := bind_eq_ok.mp h
  obtain ⟨r, hr, h⟩ := bind_eq_ok.mp h
  refine ⟨q, hq, ?_⟩
  rw [← forms_withTitle hr, ← Except.ok.inj h]

/-- A word fills every slot once. -/
theorem nodup_keys_paradigm {e : Engine} (ht : e.tables.FillsOnce) {s : Segment} {w : Lexeme}
    {p : Paradigm} (h : s.paradigm e w = .ok p) : p.forms.keys.Nodup := by
  obtain ⟨q, hq, hforms⟩ := exists_decline_of_paradigm h
  rw [hforms]
  unfold decline at hq
  split at hq
  · split at hq
    · exact Adjective.nodup_keys_decline ht hq
    · cases hq
  · split at hq
    · exact Noun.nodup_keys_decline hq
    · cases hq

end Segment
end Declension
