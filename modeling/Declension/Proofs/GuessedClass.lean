import Declension.Proofs.AdjectiveCitation

/-!
# Guessed classes of adjectives

A class is guessed by two tables, and each class has a table of its own, written apart from these:
with other entries in another order. An entry of a guess that decides is still answered by the same
stems in the table of its class, since the entries there that come earlier are refused as well.
Main statement: `Tables.classifyAdjective_of_guess`.
-/
namespace Declension

namespace Ending

/-- What every word with this ending ends in. -/
def back? : Ending → Option String
  | plain tail => some tail
  | shaped (.span :: atoms) [] => (atoms.mapM Atom.char?).map String.ofList
  | shaped _ _ | pattern _ _ => none

theorem isSome_base?_iff {e : Ending} {back : String} (hback : e.back? = some back)
    (word : String) : (e.base? word).isSome ↔ (Text.before back word).isSome := by
  unfold back? at hback
  split at hback
  · cases hback
    rfl
  · obtain ⟨spelling, hspelling, rfl⟩ := Option.map_eq_some_iff.mp hback
    rw [base?_span hspelling, Option.isSome_map]
  all_goals cases hback

/-- No word has both endings. -/
def apart (e x : Ending) : Bool :=
  match e.back?, x.back? with
  | some a, some b => !a.toList.isSuffixOf b.toList && !b.toList.isSuffixOf a.toList
  | _, _ => false

theorem base?_eq_none_of_apart {e x : Ending} {word : String} (hapart : e.apart x)
    (h : (e.base? word).isSome) : x.base? word = none := by
  unfold apart at hapart
  split at hapart
  · rename_i a b ha hb
    simp only [Bool.and_eq_true, Bool.not_eq_true', ← Bool.not_eq_true,
      List.isSuffixOf_iff_suffix] at hapart
    obtain ⟨front, hfront⟩ := Option.isSome_iff_exists.mp ((isSome_base?_iff ha word).mp h)
    have hnone := Text.before_eq_none hfront hapart.1 hapart.2
    rw [← Option.not_isSome_iff_eq_none, isSome_base?_iff hb, hnone]
    exact Bool.false_ne_true
  · cases hapart

/-- Whether an ending is a shape that takes a line as a whole. -/
def isWhole : Ending → Bool
  | shaped (.span :: atoms) [] => (atoms.mapM Atom.char?).any ('\n' ∉ ·)
  | _ => false

theorem base?_empty_of_isWhole {e : Ending} {word base : String} (hwhole : e.isWhole)
    (h : e.base? word = some base) : (plain "").base? word = some base := by
  unfold isWhole at hwhole
  split at hwhole
  · obtain ⟨spelling, hspelling, hbreak⟩ := (Option.any_eq_true _ _).mp hwhole
    rw [base?_span hspelling] at h
    obtain ⟨front, hfront, rfl⟩ := Option.map_eq_some_iff.mp h
    obtain ⟨hline, hfront⟩ := Text.before_eq_some_iff.mp hfront
    rw [decide_eq_true_eq] at hbreak
    exact Text.before_eq_some_iff.mpr ⟨by simpa using hline, by simpa using ⟨hfront, hbreak⟩⟩
  · cases hwhole

/-- Whether an ending finds the bases that another one finds: it is the same, or it takes any line
where the other takes a line as a whole. -/
def covers (x e : Ending) : Bool := x.agrees e || (x.agrees (plain "") && e.isWhole)

theorem base?_of_covers {x e : Ending} {word base : String} (hcovers : x.covers e)
    (h : e.base? word = some base) : x.base? word = some base := by
  simp only [covers, Bool.or_eq_true, Bool.and_eq_true] at hcovers
  rcases hcovers with hagrees | ⟨hagrees, hwhole⟩
  · rwa [eq_of_agrees hagrees]
  · rw [eq_of_agrees hagrees]
    exact base?_empty_of_isWhole hwhole h

end Ending

namespace EndingEntry
variable {e x r : EndingEntry} {word base : String} {oblique : Option String} {written : TagSet}
  {seen : List EndingEntry}

/-- An entry that covers another: it wants the same oblique stem and none but tags of the other,
and reads plurals if the other does. -/
def covers (x e : EndingEntry) : Bool :=
  x.ending.covers e.ending && x.obliqueTail = e.obliqueTail && x.tags.all (· ∈ e.tags) &&
    (x.isPlural || !e.isPlural)

theorem tags_subset_of_covers (hcovers : x.covers e) : x.tags ⊆ e.tags := by
  simp only [covers, Bool.and_eq_true, decide_eq_true_eq, List.all_eq_true] at hcovers
  exact hcovers.1.2

theorem adjectiveBase?_of_covers (hcovers : x.covers e)
    (h : e.adjectiveBase? word oblique written = some base) :
    x.adjectiveBase? word oblique written = some base := by
  simp only [covers, Bool.and_eq_true, Bool.or_eq_true, Bool.not_eq_true', decide_eq_true_eq,
    List.all_eq_true] at hcovers
  obtain ⟨⟨⟨hending, htail⟩, htags⟩, hplural⟩ := hcovers
  obtain ⟨hopen, hbase, hwants⟩ := adjectiveBase?_eq_some_iff.mp h
  obtain ⟨hpl, hclash⟩ := adjectiveExcluded_eq_false_iff.mp hopen
  refine adjectiveBase?_eq_some_iff.mpr ⟨adjectiveExcluded_eq_false_iff.mpr ⟨fun hmem => ?_,
    fun u hu => hclash u (htags u hu)⟩, Ending.base?_of_covers hending hbase, ?_⟩
  · have hother := hpl hmem
    simpa [hother] using hplural
  · rwa [wantsOblique, htail]

/-- Whether only a plural could keep an entry from a word that `e` takes. -/
def refusesPlural (r e : EndingEntry) : Bool :=
  !r.isPlural && r.ending.back?.isSome && r.ending.back? = e.ending.back? &&
    r.obliqueTail = none && r.tags.all (· ∈ e.tags)

theorem mem_written_of_refusesPlural (hrefuses : r.refusesPlural e)
    (h : e.adjectiveBase? word oblique written = some base)
    (hr : r.adjectiveBase? word oblique written = none) : .has .pl ∈ written := by
  simp only [refusesPlural, Bool.and_eq_true, decide_eq_true_eq, List.all_eq_true] at hrefuses
  obtain ⟨⟨⟨⟨_, hback⟩, hsame⟩, htail⟩, htags⟩ := hrefuses
  obtain ⟨back, hback⟩ := Option.isSome_iff_exists.mp hback
  obtain ⟨hopen, hbase, _⟩ := adjectiveBase?_eq_some_iff.mp h
  obtain ⟨_, hclash⟩ := adjectiveExcluded_eq_false_iff.mp hopen
  obtain ⟨found, hfound⟩ : ∃ found, r.ending.base? word = some found := by
    rw [← Option.isSome_iff_exists, Ending.isSome_base?_iff hback,
      ← Ending.isSome_base?_iff (hsame ▸ hback), hbase]
    rfl
  by_contra hpl
  have hopen : r.adjectiveExcluded written = false :=
    adjectiveExcluded_eq_false_iff.mpr ⟨fun hmem => absurd hmem hpl,
      fun u hu => hclash u (htags u hu)⟩
  have htakes : r.adjectiveBase? word oblique written = some found :=
    adjectiveBase?_eq_some_iff.mpr ⟨hopen, hfound, .inr (by simp [wantsOblique, htail])⟩
  rw [hr] at htakes
  cases htakes

/-- Whether an entry takes no word that `e` takes and the entries `seen` refuse: the endings are
apart, one of these covers it, or it reads no plurals and one of these has told that the word is
one. -/
def isRefused (seen : List EndingEntry) (e x : EndingEntry) : Bool :=
  e.ending.apart x.ending || seen.any (·.covers x) ||
    (!x.isPlural && seen.any (·.refusesPlural e))

theorem adjectiveBase?_eq_none_of_isRefused (hrefused : isRefused seen e x)
    (h : e.adjectiveBase? word oblique written = some base)
    (hseen : ∀ r ∈ seen, r.adjectiveBase? word oblique written = none) :
    x.adjectiveBase? word oblique written = none := by
  simp only [isRefused, Bool.or_eq_true, Bool.and_eq_true, Bool.not_eq_true',
    List.any_eq_true] at hrefused
  refine Option.eq_none_iff_forall_ne_some.mpr fun found hfound => ?_
  obtain ⟨hopen, hx, _⟩ := adjectiveBase?_eq_some_iff.mp hfound
  rcases hrefused with (hapart | ⟨r, hr, hcovers⟩) | ⟨hplural, r, hr, hrefuses⟩
  · obtain ⟨_, he, _⟩ := adjectiveBase?_eq_some_iff.mp h
    rw [Ending.base?_eq_none_of_apart hapart (he ▸ rfl)] at hx
    cases hx
  · have htakes := adjectiveBase?_of_covers hcovers hfound
    rw [hseen r hr] at htakes
    cases htakes
  · have hpl := mem_written_of_refusesPlural hrefuses h (hseen r hr)
    rw [(adjectiveExcluded_eq_false_iff.mp hopen).1 hpl] at hplural
    cases hplural

end EndingEntry

namespace EndingTable
variable {t : Tables} {table guesses : EndingTable} {e x : EndingEntry} {word fallback : String}
  {oblique : Option String} {written : TagSet} {found : Classification} {base : String}

/-- The first entry of a table that may take a word which `e` takes and the entries `seen`
refuse. -/
def heir? (table : EndingTable) (seen : List EndingEntry) (e : EndingEntry) :
    Option EndingEntry :=
  table.entries.find? fun x => !EndingEntry.isRefused seen e x

theorem firstWithBase_heir {seen : List EndingEntry} (hheir : table.heir? seen e = some x)
    (hcovers : x.covers e) (h : e.adjectiveBase? word oblique written = some base)
    (hseen : ∀ r ∈ seen, r.adjectiveBase? word oblique written = none) :
    firstWithBase (·.adjectiveBase? word oblique written) table.entries = some (x, base) := by
  obtain ⟨_, front, back, hsplit, hfront⟩ := List.find?_eq_some_iff_append.mp hheir
  refine firstWithBase_eq_some_iff.mpr ⟨front, back, hsplit, fun r hr => ?_,
    EndingEntry.adjectiveBase?_of_covers hcovers h⟩
  exact EndingEntry.adjectiveBase?_eq_none_of_isRefused (by simpa using hfront r hr) h hseen

/-- Whether a table goes on from the entry that decides in another one as that table does, and
names its class. -/
def answers (table guesses : EndingTable) (seen : List EndingEntry) (e : EndingEntry)
    (decl : String) : Bool :=
  table.obliqueRule = guesses.obliqueRule &&
    (table.heir? seen e).any fun x =>
      x.covers e && x.deriver = e.deriver && (table.named x).getD decl = decl

theorem exists_matchAdjective_of_answers {front back : List EndingEntry}
    (hsplit : guesses.entries = front ++ e :: back)
    (hfront : ∀ r ∈ front, r.adjectiveBase? word oblique written = none)
    (he : e.adjectiveBase? word oblique written = some base)
    (h : matchAdjective t guesses word oblique fallback written = some found)
    (hanswers : table.answers guesses front e found.decl) :
    ∃ tags ⊆ found.tags, matchAdjective t table word oblique found.decl written =
      some { found with tags } := by
  have hfirst : firstWithBase (·.adjectiveBase? word oblique written) guesses.entries =
      some (e, base) := firstWithBase_eq_some_iff.mpr ⟨front, back, hsplit, hfront, he⟩
  simp only [answers, Bool.and_eq_true, decide_eq_true_eq, Option.any_eq_true] at hanswers
  obtain ⟨hrule, x, hheir, ⟨hcovers, hderiver⟩, hdecl⟩ := hanswers
  have hheir := firstWithBase_heir hheir hcovers he hfront
  rw [matchAdjective_of_first hfirst] at h
  obtain rfl := Option.some.inj h
  refine ⟨x.positiveTags, ?_, ?_⟩
  · exact List.filter_subset _ (EndingEntry.tags_subset_of_covers hcovers)
  · rw [matchAdjective_of_first hheir, hderiver, hrule, hdecl]

end EndingTable

namespace Tables
variable {t : Tables} {word : String} {oblique : Option String} {written : TagSet}
  {found : Classification}

/-- The table that reads the adjectives of a class. -/
def classTable (t : Tables) (decl : String) : Except Fault EndingTable :=
  t.adjectiveTable (if t.adjectiveEndings.contains decl then decl else "default")

theorem classifyAdjective_of_match {table : EndingTable} {decl : String} (hclass : namesClass decl)
    (hzero : decl ≠ "0") (htable : t.classTable decl = .ok table)
    (h : matchAdjective t table word oblique decl written = some found) :
    t.classifyAdjective word oblique decl written = .ok found := by
  have hne : decl ≠ "" := by
    rintro rfl
    cases hclass
  rw [classifyAdjective, if_neg hne, if_neg (by simp [hclass]), if_neg hzero]
  change (t.classTable decl >>= _) = _
  have hbind : ∀ next : EndingTable → Except Fault Classification,
      t.classTable decl >>= next = next table := fun next => by
    rw [htable]
    rfl
  rw [hbind, h]

/-- Whether each entry of a table of guesses names a class, and the table of the class answers
where the entry decides. -/
def answersGuesses (t : Tables) (guesses : EndingTable) : Bool :=
  (List.range guesses.entries.length).all fun i =>
    guesses.entries[i]?.all fun e =>
      (guesses.named e).any fun decl =>
        namesClass decl && decl ≠ "0" && match t.classTable decl with
          | .ok table => table.answers guesses (guesses.entries.take i) e decl
          | .error _ => false

theorem exists_classifyAdjective_of_answersGuesses {guesses : EndingTable}
    (hguesses : t.answersGuesses guesses)
    (h : matchAdjective t guesses word oblique "" written = some found) :
    ∃ tags ⊆ found.tags, t.classifyAdjective word oblique found.decl written =
      .ok { found with tags } := by
  obtain ⟨⟨e, base⟩, hfirst, _⟩ := Option.map_eq_some_iff.mp h
  obtain ⟨front, back, hsplit, hfront, he⟩ := firstWithBase_eq_some_iff.mp hfirst
  have hdecl : found.decl = (guesses.named e).getD "" := by
    rw [matchAdjective_of_first hfirst] at h
    rw [← Option.some.inj h]
  have hentry := List.all_eq_true.mp hguesses front.length (by simp [hsplit])
  simp only [hsplit, List.getElem?_append_right (Nat.le_refl _), Nat.sub_self,
    List.getElem?_cons_zero, Option.all_some, List.take_left', Option.any_eq_true] at hentry
  obtain ⟨decl, hnamed, hclass⟩ := hentry
  rw [hnamed, Option.getD_some] at hdecl
  subst hdecl
  simp only [Bool.and_eq_true, decide_eq_true_eq] at hclass
  obtain ⟨⟨hnames, hzero⟩, hclass⟩ := hclass
  split at hclass
  · rename_i table htable
    obtain ⟨tags, htags, hmatch⟩ :=
      EndingTable.exists_matchAdjective_of_answers hsplit hfront he h hclass
    exact ⟨tags, htags, classifyAdjective_of_match hnames hzero htable hmatch⟩
  · cases hclass

theorem answersGuesses_latin : latin.answersGuesses Latin.adjectiveFirstSecond ∧
    latin.answersGuesses Latin.adjectiveThird := by
  decide +kernel

/-- Where the class of an adjective is guessed, naming it gives the same stems and the same class.
No trait comes of it that the guess does not tell. -/
theorem classifyAdjective_of_guess
    (h : latin.classifyAdjective word oblique "" written = .ok found) :
    ∃ tags ⊆ found.tags, latin.classifyAdjective word oblique found.decl written =
      .ok { found with tags } := by
  obtain ⟨hfirst, hthird⟩ := answersGuesses_latin
  obtain ⟨key, hkey, table, htable, hmatch⟩ := exists_table_of_guessAdjective h
  simp only [List.mem_cons, List.not_mem_nil, or_false] at hkey
  rcases hkey with rfl | rfl
  · obtain rfl : Latin.adjectiveFirstSecond = table := Except.ok.inj htable
    exact exists_classifyAdjective_of_answersGuesses hfirst hmatch
  · obtain rfl : Latin.adjectiveThird = table := Except.ok.inj htable
    exact exists_classifyAdjective_of_answersGuesses hthird hmatch

/-- A plural in -ēs, which the table of its class reads by the ending alone. -/
theorem classifyAdjective_of_guess_fortes :
    latin.classifyAdjective "fortēs" none "" [.has .pl] =
        .ok ⟨"fort", some "fort", "3-2", [.has .pl, .has .I]⟩ ∧
      ∃ tags ⊆ [Tag.has .pl, .has .I], latin.classifyAdjective "fortēs" none "3-2" [.has .pl] =
        .ok ⟨"fort", some "fort", "3-2", tags⟩ := by
  have h : latin.classifyAdjective "fortēs" none "" [.has .pl] =
      .ok ⟨"fort", some "fort", "3-2", [.has .pl, .has .I]⟩ := rfl
  exact ⟨h, classifyAdjective_of_guess h⟩

end Tables
end Declension
