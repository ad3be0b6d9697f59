import Declension.Proofs.Checked.Records
import Declension.Tables.Latin
import Declension.Wikitext

/-!
# What declining a template may fail with

Every step of reading and declining fails with a fault of the template, or for want of an ending
table that the step looks up under a fixed name. Main statement: `fault_of_declineText`, by which
only the template is to blame where no table is lacking, and no slot name is ever refused.
-/
namespace Declension

/-- The names under which ending tables of nouns and adjectives are looked up. -/
def Tables.nounKeys : List String := ["1", "2", "3-greek", "3-non-neuter", "3-neuter", "4", "5"]
def Tables.adjectiveKeys : List String := ["1&2", "3", "default"]

/-- What the template or the tables are to blame for: a fault of the template, or an ending table
that is lacking. -/
inductive Fault.IsDue (t : Tables) : Fault → Prop
  | template {f : Fault} (h : f.isOfTemplate) : IsDue t f
  | noun {key : String} (h : key ∈ Tables.nounKeys) (hget : t.nounEndings.get? key = none) :
    IsDue t (.missingTable key)
  | adjective {key : String} (h : key ∈ Tables.adjectiveKeys)
    (hget : t.adjectiveEndings.get? key = none) : IsDue t (.missingTable key)

/-- The computation fails only with what is due to the template or the tables. -/
abbrev FailsDuly {α : Type} (t : Tables) (x : Except Fault α) : Prop := FailsOnly (Fault.IsDue t) x

variable {t : Tables}

theorem failsDuly_error {α : Type} {f : Fault} (h : f.isOfTemplate) :
    FailsDuly t (.error f : Except Fault α) :=
  .error (.template h)

namespace Tables

theorem failsDuly_nounTable {key : String} (h : key ∈ nounKeys) :
    FailsDuly t (t.nounTable key) := by
  unfold nounTable
  split
  · exact .ok _
  · exact .error (.noun h ‹_›)

theorem failsDuly_adjectiveTable {key : String} (h : key ∈ adjectiveKeys) :
    FailsDuly t (t.adjectiveTable key) := by
  unfold adjectiveTable
  split
  · exact .ok _
  · exact .error (.adjective h ‹_›)

theorem failsDuly_irregularNoun (word : String) : FailsDuly t (t.irregularNoun word) := by
  unfold irregularNoun
  split
  · exact .ok _
  · exact failsDuly_error rfl

theorem failsDuly_irregularAdjective (word : String) :
    FailsDuly t (t.irregularAdjective word) := by
  unfold irregularAdjective
  split
  · exact .ok _
  · exact failsDuly_error rfl

theorem failsDuly_pronoun (word : Option String) : FailsDuly t (t.pronoun word) := by
  unfold pronoun
  split
  · exact .ok _
  · exact failsDuly_error rfl

theorem failsDuly_classifyThirdPlural (word : String) (oblique : Option String)
    (written : TagSet) : FailsDuly t (classifyThirdPlural word oblique written) := by
  unfold classifyThirdPlural
  split
  · unfold classifyGreekPlural
    split
    · exact .ok _
    · exact .ok _
    · exact .ok _
    · exact failsDuly_error rfl
  · split
    · exact .ok _
    · exact failsDuly_error rfl

theorem failsDuly_classifyThird (word : String) (oblique : Option String) (written : TagSet) :
    FailsDuly t (t.classifyThird word oblique written) := by
  unfold classifyThird
  split
  · exact failsDuly_classifyThirdPlural word oblique written
  · split
    · exact .bind (failsDuly_nounTable (by decide)) fun _ => .ok _
    · split
      · refine .bind (failsDuly_nounTable (by decide)) fun table => ?_
        split
        · exact .ok _
        · exact .bind (failsDuly_nounTable (by decide)) fun _ => .ok _
      · exact .bind (failsDuly_nounTable (by decide)) fun _ => .ok _

theorem failsDuly_classifyByTable {decl : String} (h : decl ∈ nounKeys) (word : String)
    (oblique : Option String) (written : TagSet) :
    FailsDuly t (t.classifyByTable word oblique decl written) := by
  unfold classifyByTable
  refine .bind (failsDuly_nounTable h) fun table => ?_
  split
  · exact .ok _
  · exact failsDuly_error rfl

theorem failsDuly_classifyLongO (word : String) (written : TagSet) :
    FailsDuly t (classifyLongO word written) := by
  unfold classifyLongO
  split
  · exact .ok _
  · exact failsDuly_error rfl

theorem failsDuly_classifyNoun (word : String) (oblique : Option String) (decl : String)
    (written : TagSet) : FailsDuly t (t.classifyNoun word oblique decl written) := by
  unfold classifyNoun
  split
  · have hkey : decl ∈ nounKeys := by simp [nounKeys, *]
    exact .bind (failsDuly_classifyByTable hkey word oblique written) fun _ => .ok _
  · split
    · exact failsDuly_classifyThird word oblique written
    · split
      · exact failsDuly_classifyLongO word written
      · split
        · have hkey : decl ∈ nounKeys := by
            rename_i h
            simp only [Bool.or_eq_true, decide_eq_true_eq] at h
            rcases h with (h | h) | h <;> simp [nounKeys, h]
          exact .bind (failsDuly_classifyByTable hkey word oblique written) fun _ => .ok _
        · split
          · exact .ok _
          · split
            · exact .ok _
            · exact .ok _

theorem failsDuly_guessAdjective (word : String) (oblique : Option String) (written : TagSet) :
    FailsDuly t (t.guessAdjective word oblique written) := by
  unfold guessAdjective
  refine .bind (failsDuly_adjectiveTable (by decide)) fun table => ?_
  dsimp only
  split
  · exact .ok _
  · refine .bind (failsDuly_adjectiveTable (by decide)) fun table => ?_
    split
    · exact .ok _
    · exact failsDuly_error rfl

/-- The table of a class that has none of its own is the default one. -/
theorem failsDuly_adjectiveTableOr (decl : String) :
    FailsDuly t
      (t.adjectiveTable (if t.adjectiveEndings.contains decl then decl else "default")) := by
  by_cases h : t.adjectiveEndings.contains decl
  · rw [if_pos h]
    obtain ⟨table, htable⟩ := Option.isSome_iff_exists.mp h
    rw [adjectiveTable, htable]
    exact .ok table
  · rw [if_neg h]
    exact failsDuly_adjectiveTable (by decide)

theorem failsDuly_classifyAdjective (word : String) (oblique : Option String) (decl : String)
    (written : TagSet) : FailsDuly t (t.classifyAdjective word oblique decl written) := by
  unfold classifyAdjective
  split
  · exact failsDuly_guessAdjective word oblique written
  · split
    · split
      · exact failsDuly_guessAdjective word oblique _
      · exact failsDuly_guessAdjective word oblique written
    · split
      · exact .ok _
      · refine .bind (failsDuly_adjectiveTableOr decl) fun table => ?_
        split
        · exact .ok _
        · exact failsDuly_error rfl

end Tables

theorem failsDuly_readTag (s : String) : FailsDuly t (readTag s) := by
  unfold readTag
  dsimp only
  split
  · exact .ok _
  · exact failsDuly_error rfl

theorem failsDuly_splitStems (stems : List Char) (text : String) :
    FailsDuly t (splitStems stems text) := by
  unfold splitStems
  split
  · exact failsDuly_error rfl
  · exact failsDuly_error rfl
  · exact .ok _
  · exact .ok _
  · exact failsDuly_error rfl

theorem failsDuly_adjectiveSegment (word linkedWord : String) (oblique : Option String)
    (decl : String) (tags : TagSet) :
    FailsDuly t (adjectiveSegment t word linkedWord oblique decl tags) :=
  .bind (Tables.failsDuly_classifyAdjective word oblique decl tags) fun _ => .ok _

theorem failsDuly_nounSegment (word linkedWord : String) (oblique : Option String)
    (decl : String) (tags : TagSet) :
    FailsDuly t (nounSegment t word linkedWord oblique decl tags) :=
  .bind (Tables.failsDuly_classifyNoun word oblique decl tags) fun _ => .ok _

theorem failsDuly_readSegment (text : String) : FailsDuly t (Segment.read t text) := by
  unfold Segment.read
  dsimp only
  cases splitSpec? text.toList with
  | none => exact failsDuly_error (f := .missingSpec text) rfl
  | some parts =>
    refine .bind (.ok _) fun parts => .bind (failsDuly_splitStems _ text) fun stems => ?_
    cases Text.fieldsChars '.' parts.2
    all_goals
      refine .bind (.mapM (fun _ => failsDuly_readTag _) _) fun tags => ?_
      dsimp only
      split
      · exact failsDuly_adjectiveSegment _ _ _ _ _
      · split
        · exact failsDuly_error (f := .missingClass text) rfl
        · exact failsDuly_nounSegment _ _ _ _ _

theorem failsDuly_readLiteral (s : List Char) : FailsDuly t (readLiteral s) := by
  unfold readLiteral
  split
  · exact failsDuly_error rfl
  · exact .ok _

theorem failsDuly_readWord (lead word : List Char) : FailsDuly t (readWord t lead word) :=
  .bind (failsDuly_readLiteral lead) fun _ => .bind (failsDuly_readSegment _) fun _ => .ok _

theorem failsDuly_readPlainRun (text : List Char) : FailsDuly t (PlainRun.read t text) := by
  unfold PlainRun.read
  refine .bind (.mapM (fun _ => failsDuly_readWord _ _) _) fun segments => ?_
  split
  · exact .ok _
  · exact .bind (failsDuly_readLiteral _) fun _ => .ok _

theorem failsDuly_addBranch (a b : Summary) : FailsDuly t (a.addBranch b) := by
  unfold Summary.addBranch
  split
  · split
    · exact .ok _
    · exact failsDuly_error rfl
  · exact .ok _
  · exact .ok _

theorem failsDuly_readBranches (done : Alternant) (texts : List (List Char)) :
    FailsDuly t (readBranches t done texts) := by
  induction texts generalizing done with
  | nil => exact .ok done
  | cons text texts ih =>
    rw [readBranches]
    exact .bind (failsDuly_readPlainRun text) fun _ =>
      .bind (failsDuly_addBranch _ _) fun _ => ih _

theorem failsDuly_readAlternant (text : List Char) : FailsDuly t (Alternant.read t text) := by
  unfold Alternant.read
  split
  · exact failsDuly_error rfl
  · split
    · exact .ok _
    · exact .bind (failsDuly_readPlainRun _) fun _ => failsDuly_readBranches _ _

theorem failsDuly_addPlain (done : Run) (text : List Char) :
    FailsDuly t (addPlain t done text) := by
  unfold addPlain
  split
  · exact .ok _
  · exact .bind (failsDuly_readPlainRun text) fun _ => .ok _

theorem failsDuly_addAlternant (done : Run) (part : List Char × List Char) :
    FailsDuly t (addAlternant t done part) :=
  .bind (failsDuly_readAlternant part.1) fun _ => failsDuly_addPlain _ _

theorem failsDuly_readRun (text : String) : FailsDuly t (Run.read t text) := by
  unfold Run.read
  dsimp only
  split
  · exact failsDuly_error (f := .unterminatedAlternant text) rfl
  · exact .bind (failsDuly_addPlain _ _) fun _ => .foldlM failsDuly_addAlternant _ _

theorem failsDuly_stemBefore (form ending : String) : FailsDuly t (stemBefore form ending) := by
  unfold stemBefore
  split
  · exact .ok _
  · exact failsDuly_error rfl

namespace Noun

theorem failsDuly_third (o : Options) (w : Lexeme) : FailsDuly t (third o w) := by
  have hgreek : FailsDuly t (Third.greekStem w) := by
    unfold Third.greekStem
    split
    · exact failsDuly_stemBefore _ _
    · exact failsDuly_stemBefore _ _
    · exact .ok _
  have hbare : ∀ greekStem, FailsDuly t (Third.bareStem w greekStem) := by
    intro greekStem
    unfold Third.bareStem
    split
    · exact failsDuly_stemBefore _ _
    · exact .ok _
  exact .bind hgreek fun greekStem => .bind (hbare greekStem) fun _ => .ok _

theorem failsDuly_decline (o : Options) (w : Lexeme) (c : Class) :
    FailsDuly t (decline ⟨t, o⟩ w c) := by
  cases c with
  | third => exact failsDuly_third o w
  | irregular => exact .bind (Tables.failsDuly_irregularNoun w.stem) fun _ => .ok _
  | _ => exact .ok _

end Noun

namespace Adjective

theorem failsDuly_firstSecond (w : Lexeme) : FailsDuly t (firstSecond w) := by
  refine .bind ?_ fun _ => .ok _
  unfold FirstSecond.rType?
  split
  · exact .ok _
  · split
    · exact .ok _
    · split
      · exact .ok _
      · exact failsDuly_error rfl

theorem failsDuly_irregular (w : Lexeme) : FailsDuly t (irregular t w) := by
  unfold irregular
  split
  · exact .bind (failsDuly_firstSecond _) fun _ => .ok _
  · exact .bind (Tables.failsDuly_irregularAdjective w.stem) fun _ => .ok _

theorem failsDuly_decline (o : Options) (w : Lexeme) (c : Class) :
    FailsDuly t (decline ⟨t, o⟩ w c) := by
  cases c with
  | firstSecond => exact failsDuly_firstSecond w
  | irregular => exact failsDuly_irregular w
  | _ => exact .ok _

end Adjective

variable (o : Options) (pos : String) (isAdj : Bool)

namespace Segment

theorem failsDuly_decline (s : Segment) (w : Lexeme) : FailsDuly t (s.decline ⟨t, o⟩ w) := by
  unfold Segment.decline
  split
  · split
    · exact Adjective.failsDuly_decline o w _
    · exact failsDuly_error rfl
  · split
    · exact Noun.failsDuly_decline o w _
    · exact failsDuly_error rfl

theorem failsDuly_nounTitle (s : Segment) : FailsDuly t (s.nounTitle t) := by
  unfold nounTitle
  split
  · exact .ok _
  · split
    · exact .ok _
    · split
      · exact .ok _
      · exact failsDuly_error rfl

theorem failsDuly_withTitle (s : Segment) (p : Paradigm) : FailsDuly t (s.withTitle t p) := by
  unfold withTitle
  split
  · exact .ok _
  · exact .bind (s.failsDuly_nounTitle) fun _ => .ok _

theorem failsDuly_paradigm (s : Segment) (w : Lexeme) : FailsDuly t (s.paradigm ⟨t, o⟩ w) :=
  .bind (s.failsDuly_decline o w) fun p => .bind (s.failsDuly_withTitle p) fun _ => .ok _

/-- Whatever word does not fit, the fault is the template's. -/
theorem isOfTemplate_of_misfit? {s : Segment} {gender : Option Gender} {f : Fault}
    (h : s.misfit? isAdj gender = some f) : f.isOfTemplate := by
  unfold misfit? at h
  split at h
  · cases h
    rfl
  · split at h
    · cases h
      rfl
    · cases h

theorem failsDuly_compose (run : Summary) (s : Segment) :
    FailsDuly t (s.compose ⟨t, o⟩ pos isAdj run) := by
  refine .bind (s.failsDuly_paradigm o _) fun p => ?_
  cases h : s.misfit? isAdj (s.gender <|> run.gender) with
  | some f => exact failsDuly_error (isOfTemplate_of_misfit? isAdj h)
  | none => exact .ok _

end Segment

theorem Piece.failsDuly_compose (run : Summary) (p : Piece) :
    FailsDuly t (p.compose ⟨t, o⟩ pos isAdj run) := by
  cases p with
  | word s => exact s.failsDuly_compose o pos isAdj run
  | literal l => exact .ok _

theorem PlainRun.failsDuly_compose (r : PlainRun) :
    FailsDuly t (r.compose ⟨t, o⟩ pos isAdj) :=
  .bind (.mapM (Piece.failsDuly_compose o pos isAdj r.summary) _) fun _ => .ok _

theorem Alternant.failsDuly_compose (run : Summary) (a : Alternant) :
    FailsDuly t (a.compose ⟨t, o⟩ pos isAdj run) := by
  have hbranch : ∀ b, FailsDuly t (composeBranch ⟨t, o⟩ pos isAdj (a.settle run b)) := fun b =>
    .bind (PlainRun.failsDuly_compose o pos isAdj _) fun _ => .ok _
  refine .bind (.mapM hbranch _) fun composed => ?_
  cases composed with
  | nil => exact failsDuly_error (f := .emptyAlternant) rfl
  | cons first rest => exact .ok _

theorem Node.failsDuly_compose (run : Summary) (n : Node) :
    FailsDuly t (n.compose ⟨t, o⟩ pos isAdj run) := by
  cases n with
  | piece p => exact p.failsDuly_compose o pos isAdj run
  | alternant a => exact a.failsDuly_compose o pos isAdj run

theorem Run.failsDuly_compose (r : Run) : FailsDuly t (r.compose ⟨t, o⟩ pos isAdj) :=
  .bind (.mapM (Node.failsDuly_compose o pos isAdj r.summary) _) fun _ => .ok _

theorem NounRecord.failsDuly_ofArguments (args : Arguments) :
    FailsDuly t (NounRecord.ofArguments ⟨t, o⟩ args pos) :=
  .bind (failsDuly_readRun _) fun _ =>
    .bind (Run.failsDuly_compose o pos false _) fun _ => .ok _

theorem AdjectiveRecord.failsDuly_ofArguments (args : Arguments) :
    FailsDuly t (AdjectiveRecord.ofArguments ⟨t, o⟩ args pos) := by
  refine .bind (failsDuly_readRun _) fun _ =>
    .bind (Run.failsDuly_compose o pos true _) fun _ => ?_
  dsimp only
  split
  · exact .ok _
  · exact .ok _

theorem TemplateKind.failsDuly_decline (args : Arguments) (kind : TemplateKind) :
    FailsDuly t (kind.decline ⟨t, o⟩ args) := by
  cases kind with
  | noun => exact .map (NounRecord.failsDuly_ofArguments o _ args) _
  | adjective => exact .map (AdjectiveRecord.failsDuly_ofArguments o _ args) _
  | gerund => exact .map (NounRecord.failsDuly_ofArguments o _ _) _
  | pronoun => exact .map (.bind (Tables.failsDuly_pronoun _) fun _ => .ok _) _

theorem failsDuly_declineArguments (args : Arguments) :
    FailsDuly t (declineArguments ⟨t, o⟩ args) := by
  unfold declineArguments
  dsimp only
  split
  · exact TemplateKind.failsDuly_decline o args _
  · exact failsDuly_error rfl

theorem failsDuly_readArguments [Wikitext.Library] (text : String) : FailsDuly t (Arguments.read text) := by
  unfold Arguments.read
  split
  · exact .ok _
  · exact failsDuly_error rfl

theorem failsDuly_declineText [Wikitext.Library] (text : String) :
    FailsDuly t (declineText ⟨t, o⟩ text) :=
  .bind (failsDuly_readArguments text) fun args => failsDuly_declineArguments o args

namespace Fault

theorem kind_of_isOfTemplate {f : Fault} (h : f.isOfTemplate) :
    f.kind ∈ [Kind.template, .grammar, .classification, .registry, .agreement] := by
  cases hkind : f.kind with
  | tables => simp [isOfTemplate, hkind] at h
  | _ => decide

/-- Where no ending table is lacking, the template is to blame. -/
theorem IsDue.isOfTemplate {f : Fault} (h : f.IsDue t)
    (hnoun : ∀ key ∈ Tables.nounKeys, t.nounEndings.contains key)
    (hadjective : ∀ key ∈ Tables.adjectiveKeys, t.adjectiveEndings.contains key) :
    f.isOfTemplate := by
  cases h with
  | template h => exact h
  | @noun key hkey hget =>
    have hcontains := hnoun key hkey
    rw [OrderedMap.contains, hget] at hcontains
    cases hcontains
  | @adjective key hkey hget =>
    have hcontains := hadjective key hkey
    rw [OrderedMap.contains, hget] at hcontains
    cases hcontains

/-- The name of an ending table does not read like the refusal of a slot. -/
theorem key_ne_unknownSlot {key : String} (h : key ∈ Tables.nounKeys ++ Tables.adjectiveKeys)
    (name : String) : key ≠ (FormSheet.Fault.unknownSlot name).message := by
  have hshort : ∀ key ∈ Tables.nounKeys ++ Tables.adjectiveKeys,
      key.length < "Invalid nominal form ".length := by decide
  have hlength : (FormSheet.Fault.unknownSlot name).message.length =
      "Invalid nominal form ".length + name.length := String.length_append _ _
  intro heq
  have hlt := hshort key h
  rw [heq, hlength] at hlt
  omega

theorem IsDue.message_ne {f : Fault} (h : f.IsDue t) (hkind : f.kind = .tables) (name : String) :
    f.message ≠ (FormSheet.Fault.unknownSlot name).message := by
  cases h with
  | template h => simp [Fault.isOfTemplate, hkind] at h
  | noun hkey _ => exact key_ne_unknownSlot (List.mem_append_left _ hkey) name
  | adjective hkey _ => exact key_ne_unknownSlot (List.mem_append_right _ hkey) name

end Fault

/-- By the Latin tables, declining a text with every access checked fails only with a fault of the
template. By any tables that are validated it fails otherwise only for want of an ending table: no
slot is refused. Either way it ends as declining the text does. -/
theorem fault_of_declineText [Wikitext.Library] [Expressions] :
    (∀ (o : Options) (text : String),
      Checked.Refines (fun n r => n = .ofDeclined r)
        (Checked.declineText (.ofTables .latin o) text) (declineText ⟨.latin, o⟩ text) ∧
      ∀ c, Checked.declineText (.ofTables .latin o) text = .error c → ∃ f, c = .fault f ∧
        f.kind ∈ [Fault.Kind.template, .grammar, .classification, .registry, .agreement]) ∧
    ∀ (v : Json) (t : Tables), Tables.ofSections? v = some t → ∀ o : Options,
      ∃ e, Checked.Engine.ofDocument? v t o = some e ∧ ∀ text : String,
        Checked.Refines (fun n r => n = .ofDeclined r)
          (Checked.declineText e text) (declineText ⟨t, o⟩ text) ∧
        ∀ c, Checked.declineText e text = .error c → ∃ f, c = .fault f ∧ f.IsDue t ∧
          (f.kind = .tables →
            ∀ name, f.message ≠ (FormSheet.Fault.unknownSlot name).message) := by
  constructor
  · intro o text
    have hrefines := Checked.declineText_refines (Checked.Engine.accepted_latin o) text
    refine ⟨hrefines, ?_⟩
    intro c hc
    obtain ⟨f, rfl, hf⟩ := hrefines.eq_fault hc
    refine ⟨f, rfl, Fault.kind_of_isOfTemplate ?_⟩
    exact (failsDuly_declineText o text f hf).isOfTemplate (by decide) (by decide)
  · intro v t ht o
    obtain ⟨e, he, haccepted, hengine⟩ := Checked.Engine.exists_of_ofSections? ht o
    refine ⟨e, he, ?_⟩
    intro text
    have hrefines := Checked.declineText_refines haccepted text
    rw [hengine] at hrefines
    refine ⟨hrefines, ?_⟩
    intro c hc
    obtain ⟨f, rfl, hf⟩ := hrefines.eq_fault hc
    have hdue := failsDuly_declineText o text f hf
    exact ⟨f, rfl, hdue, hdue.message_ne⟩

/-- Sections that know one irregular adjective and no class of nouns. -/
def duoSections : Json := .obj [("stem2_patterns", .arr []), ("noun_endings", .obj []),
  ("adjective_endings", .obj [("default", .obj [("entries", .arr [.obj [("ending", .str "")]])])]),
  ("declension_names", .obj []),
  ("irregular_adjectives", .arr [.obj [("lemmas", .arr [.str "duo"]), ("forms", .obj
    [("nom_pl_m", .arr [.str "duo"]), ("gen_pl_m", .arr [.str "duōrum"])])]])]

/-- A template that does not say its class fails by the Latin tables. By tables that know one
irregular adjective and no class of nouns, the adjective is declined and a noun fails. -/
theorem fault_of_declineText_of_duo :
    letI : Wikitext.Library := Wikitext.reader
    letI : Expressions := .blank
    ∃ f t e r, Checked.declineText (.ofTables .latin {}) "\x7b\x7bla-ndecl|amīcus<>\x7d\x7d" =
        .error (.fault f) ∧
      f.kind ∈ [Fault.Kind.template, .grammar, .classification, .registry, .agreement] ∧
      Tables.ofSections? duoSections = some t ∧
      Checked.Engine.ofDocument? duoSections t {} = some e ∧
      Checked.declineText e "\x7b\x7bla-adecl|duo<irreg+.lig>\x7d\x7d" = .ok (.ofDeclined r) ∧
      Checked.declineText e "\x7b\x7bla-ndecl|puer<2>\x7d\x7d" =
        .error (.fault (.missingTable "2")) ∧
      ∀ name, "2" ≠ (FormSheet.Fault.unknownSlot name).message := by
  have hfails : (@declineText Wikitext.reader ⟨.latin, {}⟩
      "\x7b\x7bla-ndecl|amīcus<>\x7d\x7d").isOk = false := by
    decide +kernel
  obtain ⟨t, ht, hdeclines, hnoun⟩ : ∃ t, @Tables.ofSections? .blank duoSections = some t ∧
      (@declineText Wikitext.reader ⟨t, {}⟩
        "\x7b\x7bla-adecl|duo<irreg+.lig>\x7d\x7d").isOk = true ∧
      @declineText Wikitext.reader ⟨t, {}⟩ "\x7b\x7bla-ndecl|puer<2>\x7d\x7d" =
        .error (.missingTable "2") :=
    ⟨_, rfl, by decide +kernel, by decide +kernel⟩
  let _ : Wikitext.Library := Wikitext.reader
  let _ : Expressions := .blank
  obtain ⟨hlatin, haccepted⟩ := fault_of_declineText
  obtain ⟨e, he, hall⟩ := haccepted duoSections t ht {}
  obtain ⟨f, hf⟩ := exists_error_of_isOk_eq_false hfails
  obtain ⟨r, hr⟩ := exists_ok_of_isOk hdeclines
  obtain ⟨hends, hkinds⟩ := hlatin {} "\x7b\x7bla-ndecl|amīcus<>\x7d\x7d"
  have hfault := (hf ▸ hends).eq_error
  obtain ⟨_, ⟨⟩, hkind⟩ := hkinds _ hfault
  obtain ⟨_, hdeclined, rfl⟩ :=
    (hr ▸ (hall "\x7b\x7bla-adecl|duo<irreg+.lig>\x7d\x7d").1).exists_of_ok
  have hmissing := (hnoun ▸ (hall "\x7b\x7bla-ndecl|puer<2>\x7d\x7d").1).eq_error
  obtain ⟨_, ⟨⟩, _, hmessage⟩ := (hall _).2 _ hmissing
  exact ⟨f, t, e, r, hfault, hkind, ht, he, hdeclined, hmissing, hmessage rfl⟩

/-- A paradigm that is used without a look at its names has a slot refused. -/
example :
    let e := { Checked.Engine.ofTables .latin {} with
      adjectives := [⟨{ words := ["duo"], forms := ∅ }, [("nom_pl_x", ["duo"])]⟩] }
    (match @Checked.declineText Wikitext.reader e "\x7b\x7bla-adecl|duo<irreg+>\x7d\x7d" with
      | .error (.sheet (.unknownSlot name)) => name
      | _ => "") = "nom_pl_x" := by
  decide +kernel

end Declension
