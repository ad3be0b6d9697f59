import Declension.Proofs.Ledger

/-!
# Runs with a limit

A run that is given a limit looks at it between pages only, so it books the page with the last entry
asked for to its end. Main statement: `process_limit`, by which such a run books what comes before
that entry, the entry, and what stands behind it on its page.
-/
namespace Declension

section Library
variable [Wikitext.Library]

namespace Dump
variable {e : Engine}

/-- The templates up to the `n`-th that can be declined; all, if there are fewer. -/
def upTo (e : Engine) : ℕ → List (String × String) → List (String × String)
  | 0, _ => []
  | _ + 1, [] => []
  | n + 1, t :: ts => t :: upTo e (if (entryOf? e t).isSome then n else n + 1) ts

/-- The templates behind the `n`-th that can be declined. -/
def behind (e : Engine) (n : ℕ) (ts : List (String × String)) : List (String × String) :=
  ts.drop (upTo e n ts).length

/-- The templates of a page with its title. -/
def ofPage (p : Page) : List (String × String) := p.templates.map (p.title, ·)

/-- How many entries a list of templates makes. -/
def entryCount (e : Engine) (ts : List (String × String)) : ℕ := (ts.filterMap (entryOf? e)).length

/-- The templates that stand behind the `n`-th entry of a dump on its page. -/
def overrun (e : Engine) : ℕ → List Page → List (String × String)
  | _, [] => []
  | n, p :: pages =>
    if n ≤ entryCount e (ofPage p) then behind e n (ofPage p)
    else overrun e (n - entryCount e (ofPage p)) pages

theorem upTo_append_behind (n : ℕ) (ts : List (String × String)) :
    upTo e n ts ++ behind e n ts = ts := by
  induction ts generalizing n with
  | nil => cases n <;> rfl
  | cons t ts ih =>
    cases n with
    | zero => rfl
    | succ n =>
      have h := ih (if (entryOf? e t).isSome then n else n + 1)
      simpa [upTo, behind] using h

/-- Of the templates up to the `n`-th entry there are the first `n` entries. -/
theorem entries_upTo (n : ℕ) (ts : List (String × String)) :
    (upTo e n ts).filterMap (entryOf? e) = (ts.filterMap (entryOf? e)).take n := by
  induction ts generalizing n with
  | nil => cases n <;> rfl
  | cons t ts ih =>
    cases n with
    | zero => rfl
    | succ n =>
      rw [upTo, List.filterMap_cons, List.filterMap_cons, ih]
      cases entryOf? e t <;> simp

/-- Templates that make enough entries hold all up to the `n`-th, and else the rest is to come. -/
theorem upTo_append {n : ℕ} (ts us : List (String × String)) :
    upTo e n (ts ++ us) = if n ≤ entryCount e ts then upTo e n ts
      else ts ++ upTo e (n - entryCount e ts) us := by
  induction ts generalizing n with
  | nil => cases n <;> simp [entryCount, upTo]
  | cons t ts ih =>
    cases n with
    | zero => simp [upTo]
    | succ n =>
      rw [List.cons_append, upTo, ih, upTo]
      cases ht : entryOf? e t <;> simp [entryCount, ht] <;> split <;> rfl

/-- What is booked are the templates of whole pages. -/
theorem exists_upTo_append_overrun (n : ℕ) (pages : List Page) :
    ∃ m, upTo e n (templates pages) ++ overrun e n pages = templates (pages.take m) := by
  induction pages generalizing n with
  | nil => exact ⟨0, by cases n <;> rfl⟩
  | cons p pages ih =>
    have htemplates : templates (p :: pages) = ofPage p ++ templates pages := templates_cons p pages
    rw [htemplates, upTo_append, overrun]
    split
    · exact ⟨1, by simp [upTo_append_behind, templates, ofPage]⟩
    · obtain ⟨m, hm⟩ := ih (n - entryCount e (ofPage p))
      refine ⟨m + 1, ?_⟩
      rw [List.append_assoc, hm]
      exact (templates_cons p _).symm

end Dump

namespace Ledger
open Dump
variable {e : Engine}

/-- The counter tells how many entries are booked. -/
def IsCounted (l : Ledger) : Prop := l.count = l.entries.length

theorem isCounted_addTemplate {l l' : Ledger} {title template : String} (hl : l.IsCounted)
    (h : l.addTemplate e title template = .ok l') : l'.IsCounted := by
  unfold addTemplate at h
  split at h
  · cases h
    unfold addEntry
    dsimp only
    split <;> simpa [IsCounted, tell] using hl
  · split at h
    · cases h
      exact hl
    · cases h

theorem isCounted_addPage {l l' : Ledger} {p : Page} (hl : l.IsCounted)
    (h : l.addPage e p = .ok l') : l'.IsCounted := by
  unfold addPage at h
  dsimp only at h
  generalize hstart : (if (l.scanned + 1) % 10000 = 0 then _ else _) = start at h
  have hsame : start.IsCounted := by
    rw [← hstart]
    split <;> exact hl
  split at h
  · exact foldlM_preserves (fun l template _ l' => isCounted_addTemplate) hsame h
  · cases h
    exact hsame

omit [Wikitext.Library] in
theorem isFull_iff {n : ℕ} (hn : 0 < n) {l : Ledger} : l.isFull (some n) ↔ n ≤ l.count := by
  have hne : n ≠ 0 := by omega
  simp [isFull, hne]

theorem addPages_of_isFull {limit : Option Int} {l : Ledger} (h : l.isFull limit)
    (pages : List Page) : l.addPages e limit pages = .ok l := by
  cases pages with
  | nil => rfl
  | cons p pages => rw [addPages, if_pos h]

/-- A run that still has `k` entries to book reads on to the end of the page with the last. -/
theorem exists_addPages_limit {n : ℕ} {pages : List Page} {l all : Ledger} (hl : l.IsCounted)
    {k : ℕ} (hk : 0 < k) (hn : l.count + k = n) (h : l.addPages e none pages = .ok all) :
    ∃ l', l.addPages e (some n) pages = .ok l' ∧
      Books e l l' (upTo e k (templates pages) ++ overrun e k pages) := by
  induction pages generalizing l k with
  | nil =>
    refine ⟨l, rfl, ?_⟩
    cases k <;> exact .of_same rfl rfl
  | cons p pages ih =>
    rw [addPages_cons (by simp [isFull])] at h
    obtain ⟨next, hnext, h⟩ := bind_eq_ok.mp h
    have hpos : 0 < n := by omega
    have hopen : ¬ l.isFull (some n) := fun hfull => by
      have hle := (isFull_iff hpos).mp hfull
      omega
    have hbooked := books_of_addPage hnext
    have hcounted := isCounted_addPage hl hnext
    have hcount : next.count = l.count + entryCount e (ofPage p) := by
      have hlength := congrArg List.length hbooked.entries
      rw [List.length_append, List.length_reverse, List.length_reverse] at hlength
      rw [hcounted, hl, hlength]
      rfl
    have htemplates : templates (p :: pages) = ofPage p ++ templates pages := templates_cons p pages
    rw [addPages_cons hopen, htemplates, upTo_append, overrun]
    split
    next hlast =>
      have hfull : next.isFull (some n) := (isFull_iff hpos).mpr (by omega)
      refine ⟨next, bind_eq_ok.mpr ⟨next, hnext, addPages_of_isFull hfull pages⟩, ?_⟩
      rw [upTo_append_behind]
      exact hbooked
    next hmore =>
      obtain ⟨l', hl', hrest⟩ := ih hcounted (k := k - entryCount e (ofPage p)) (by omega)
        (by omega) h
      refine ⟨l', bind_eq_ok.mpr ⟨next, hnext, hl'⟩, ?_⟩
      rw [List.append_assoc]
      exact hbooked.trans hrest

end Ledger

namespace Dump
variable {e : Engine} {path : String} {pages : List Page}

/-- A run before its first page. -/
def start (path : String) : Ledger := { told := ["🚀 Starting ingestion from " ++ path ++ "...\n"] }

theorem process_eq_ok {limit : Option Int} {d : Dictionary} {told : String} :
    process e path limit (some pages) = .ok (d, told) ↔
      ∃ l, (start path).addPages e limit pages = .ok l ∧ l.dictionary = d ∧
        String.join l.told.reverse = told := by
  refine bind_eq_ok.trans (exists_congr fun l => and_congr_right fun _ => ?_)
  simp [pure, Except.pure]

theorem exists_process (o : Options) (path : String) (pages : List Page) :
    ∃ full told, process ⟨.latin, o⟩ path none (some pages) = .ok (full, told) := by
  obtain ⟨l, hl, -⟩ :=
    Ledger.addPages_books (fun _ _ => isOfTemplate_of_latin o) (start path) pages
  exact ⟨_, _, process_eq_ok.mpr ⟨l, hl, rfl, rfl⟩⟩

/-- A run with a limit of `n` books the first `n` entries, the failures that precede the last of
these, and whatever stands behind that on its page. If nothing does, it books no more. -/
theorem process_limit {n : ℕ} (hn : 1 ≤ n) {full : Dictionary} {toldFull : String}
    (h : process e path none (some pages) = .ok (full, toldFull)) :
    ∃ d told, process e path (some n) (some pages) = .ok (d, told) ∧
      d.entries = full.entries.take n ++ (overrun e n pages).filterMap (entryOf? e) ∧
      d.failures = (upTo e n (templates pages)).filterMap (failureOf? e) ++
        (overrun e n pages).filterMap (failureOf? e) ∧
      (∃ m, upTo e n (templates pages) ++ overrun e n pages = templates (pages.take m)) ∧
      (d.entries = full.entries.take n ∧
        d.failures = (upTo e n (templates pages)).filterMap (failureOf? e) ↔
          overrun e n pages = []) := by
  obtain ⟨all, hall, rfl, -⟩ := process_eq_ok.mp h
  have hfull : all.dictionary.entries = (templates pages).filterMap (entryOf? e) :=
    (Ledger.books_of_addPages hall).entries
  have hcounted : (start path).IsCounted := rfl
  obtain ⟨l, hl, hbooked⟩ := Ledger.exists_addPages_limit hcounted hn (Nat.zero_add n) hall
  have hentries : l.dictionary.entries =
      all.dictionary.entries.take n ++ (overrun e n pages).filterMap (entryOf? e) := by
    rw [hfull, ← entries_upTo, ← List.filterMap_append]
    exact hbooked.entries
  have hfailures : l.dictionary.failures = (upTo e n (templates pages)).filterMap (failureOf? e) ++
      (overrun e n pages).filterMap (failureOf? e) := by
    rw [← List.filterMap_append]
    exact hbooked.failures
  refine ⟨l.dictionary, _, process_eq_ok.mpr ⟨l, hl, rfl, rfl⟩, hentries, hfailures,
    exists_upTo_append_overrun n pages, ?_⟩
  rw [hentries, hfailures, List.append_right_eq_self, List.append_right_eq_self]
  have hlength := length_entries_add_failures e (overrun e n pages)
  constructor
  · rintro ⟨hentries, hfailures⟩
    rw [hentries, hfailures] at hlength
    exact List.eq_nil_of_length_eq_zero hlength.symm
  · intro hnone
    simp [hnone]

end Dump
end Library

namespace Dump

/-- With one entry asked for, the failure before it is booked and the next page is not read. -/
theorem process_limit_of_ego_and_tu :
    letI : Wikitext.Library := Wikitext.reader
    let pages : List Page :=
      [⟨"ego", "\x7b\x7bla-ndecl|x<9>\x7d\x7d \x7b\x7bla-decl-ppron|ego\x7d\x7d"⟩,
        ⟨"tū", "\x7b\x7bla-decl-ppron|tū\x7d\x7d"⟩]
    ∃ full toldFull, 1 ≤ 1 ∧
      process ⟨.latin, {}⟩ "dump.xml" none (some pages) = .ok (full, toldFull) ∧
      ∃ d told, process ⟨.latin, {}⟩ "dump.xml" (some 1) (some pages) = .ok (d, told) ∧
        d.entries = full.entries.take 1 ∧
        d.failures =
          (upTo ⟨.latin, {}⟩ 1 (templates pages)).filterMap (failureOf? ⟨.latin, {}⟩) := by
  intro pages
  have hnone : @overrun Wikitext.reader ⟨.latin, {}⟩ 1 pages = [] := by decide +kernel
  let _ : Wikitext.Library := Wikitext.reader
  obtain ⟨full, toldFull, h⟩ := exists_process {} "dump.xml" pages
  obtain ⟨d, told, hd, -, -, -, hexact⟩ := process_limit (n := 1) (Nat.le_refl 1) h
  obtain ⟨hentries, hfailures⟩ := hexact.mpr hnone
  exact ⟨full, toldFull, Nat.le_refl 1, h, d, told, hd, hentries, hfailures⟩

/-- Both pronouns of a page are booked where one entry is asked for. -/
theorem not_process_limit_of_ego_tu :
    letI : Wikitext.Library := Wikitext.reader
    let pages : List Page :=
      [⟨"pronouns", "\x7b\x7bla-decl-ppron|ego\x7d\x7d \x7b\x7bla-decl-ppron|tū\x7d\x7d"⟩]
    ∃ full toldFull d told,
      process ⟨.latin, {}⟩ "dump.xml" none (some pages) = .ok (full, toldFull) ∧
      process ⟨.latin, {}⟩ "dump.xml" (some 1) (some pages) = .ok (d, told) ∧
      d.entries ≠ full.entries.take 1 := by
  intro pages
  have hcount :
      (@process Wikitext.reader ⟨.latin, {}⟩ "dump.xml" (some 1) (some pages)).toOption.map
        (·.1.entries.length) = some 2 := by
    decide +kernel
  let _ : Wikitext.Library := Wikitext.reader
  obtain ⟨full, toldFull, h⟩ := exists_process {} "dump.xml" pages
  cases hd : process ⟨.latin, {}⟩ "dump.xml" (some 1) (some pages) with
  | error f =>
    rw [hd] at hcount
    cases hcount
  | ok r =>
    rw [hd] at hcount
    refine ⟨full, toldFull, r.1, r.2, h, rfl, fun hentries => ?_⟩
    have hlength : (full.entries.take 1).length = 2 := by
      rw [← hentries]
      exact Option.some.inj hcount
    rw [List.length_take] at hlength
    omega

end Dump
end Declension
