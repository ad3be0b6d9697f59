import Declension.Proofs.Ledger
import Declension.Proofs.Scan
import Declension.Proofs.Wikitext

/-!
# Pages that are looked into

Pages whose text lacks the mark of Latin templates are passed over. If the library lists templates
as they stand in their page, a page with a Latin template whose name is written right behind the
braces bears the mark. Main statement: `process_eq_processAll`, by which a run that looks into every
page books the same, unless on some page all Latin templates have white space before their names.
-/
namespace Declension

/-- Whether a library lists templates as they stand in the text, each with its name as written
behind the braces that open it, white space included. -/
structure Wikitext.Library.ListsAsWritten (library : Library) : Prop where
  source : ∀ text, ∀ c ∈ library.allCalls text, c.source.toList <:+: text.toList
  name : ∀ text, ∀ c ∈ library.allCalls text,
    '\x7b' :: '\x7b' :: c.name.toList <+: c.source.toList

theorem Wikitext.listsAsWritten_reader : reader.ListsAsWritten := by
  have hin : ∀ (text : String), ∀ c ∈ reader.allCalls text,
      ∃ t : Template, t.IsIn text.toList ∧ c.source.toList = t.source ∧ c.name.toList = t.name := by
    intro text c hc
    obtain ⟨t, ht, rfl⟩ := List.mem_map.mp hc
    exact ⟨t, isIn_of_mem_allTemplates ht, String.toList_ofList, String.toList_ofList⟩
  constructor
  · intro text c hc
    obtain ⟨t, ht, hsource, -⟩ := hin text c hc
    exact hsource ▸ ht.1
  · intro text c hc
    obtain ⟨t, ht, hsource, hname⟩ := hin text c hc
    rw [hsource, hname]
    exact ht.2

section Library
variable [library : Wikitext.Library]

namespace Page

/-- Some template of the page has a Latin name without white space before it. -/
def IsMarked (p : Page) : Prop :=
  ∃ c ∈ Wikitext.Library.allCalls p.text, "la-".toList <+: c.name.toList

instance (p : Page) : Decidable p.IsMarked := inferInstanceAs (Decidable (∃ c ∈ _, _))

theorem isCandidate_of_isMarked (hlibrary : library.ListsAsWritten) {p : Page} (h : p.IsMarked) :
    p.isCandidate := by
  obtain ⟨c, hc, hname⟩ := h
  have hmark : latinMark.toList <+: '\x7b' :: '\x7b' :: c.name.toList := by
    obtain ⟨r, hr⟩ := hname
    exact ⟨r, by rw [← hr]; rfl⟩
  exact Text.occurs_iff.mpr
    ((hmark.trans (hlibrary.name _ c hc)).isInfix.trans (hlibrary.source _ c hc))

end Page

namespace Dump

/-- The supported templates of all pages in order, each with the title of its page. -/
def declinable (pages : List Page) : List (String × String) :=
  pages.flatMap fun p => p.supported.map (p.title, ·)

end Dump

namespace Ledger
variable {e : Engine}

/-- Books the templates of every page, whether it bears the mark or not. -/
def addAllPages (e : Engine) (l : Ledger) (pages : List Page) : Except Fault Ledger :=
  pages.foldlM (fun l p => (Page.declensionTemplates p.text).foldlM (addTemplate e p.title) l) l

/-- A run over all pages books the templates of all. -/
theorem books_of_addAllPages {pages : List Page} {l l' : Ledger}
    (h : l.addAllPages e pages = .ok l') : Books e l l' (Dump.declinable pages) := by
  induction pages generalizing l with
  | nil =>
    cases h
    exact .of_same rfl rfl
  | cons p pages ih =>
    rw [addAllPages, List.foldlM_cons] at h
    obtain ⟨next, hnext, h⟩ := bind_eq_ok.mp h
    rw [Page.declensionTemplates_eq_supported] at hnext
    exact (books_of_addTemplates hnext).trans (ih h)

omit library in
theorem dictionary_congr {l l' : Ledger} (hentries : l.entries = l'.entries)
    (hfailures : l.failures = l'.failures) : l.dictionary = l'.dictionary := by
  rw [dictionary, dictionary, hentries, hfailures]

theorem agree_addTemplate (title template : String) {l l' : Ledger}
    (h : l.dictionary = l'.dictionary) :
    Agree (fun l l' : Ledger => l.dictionary = l'.dictionary) (l.addTemplate e title template)
      (l'.addTemplate e title template) := by
  obtain ⟨hentries, hfailures⟩ : l.entries = l'.entries ∧ l.failures = l'.failures := by
    simpa [dictionary] using h
  unfold addTemplate
  split
  · exact .ok (dictionary_congr (by simp [hentries]) (by simp [hfailures]))
  · split
    · exact .ok (dictionary_congr hentries (by simp [hfailures]))
    · exact .error _

theorem agree_addPage {p : Page}
    (hp : Page.declensionTemplates p.text ≠ [] → p.isCandidate) {l l' : Ledger}
    (h : l.dictionary = l'.dictionary) :
    Agree (fun l l' : Ledger => l.dictionary = l'.dictionary) (l.addPage e p)
      ((Page.declensionTemplates p.text).foldlM (addTemplate e p.title) l') := by
  unfold addPage
  dsimp only
  generalize hstart : (if (l.scanned + 1) % 10000 = 0 then _ else _) = start
  have hsame : start.dictionary = l'.dictionary := by
    rw [← h, ← hstart]
    split <;> rfl
  split
  · exact .foldlM (fun l l' template => agree_addTemplate p.title template) _ hsame
  next hpassed =>
    have hnone : Page.declensionTemplates p.text = [] := by
      by_contra hsome
      exact hpassed (hp hsome)
    rw [hnone]
    exact .ok hsame

theorem agree_addPages {pages : List Page}
    (hpages : ∀ p ∈ pages, Page.declensionTemplates p.text ≠ [] → p.isCandidate) {l l' : Ledger}
    (h : l.dictionary = l'.dictionary) :
    Agree (fun l l' : Ledger => l.dictionary = l'.dictionary) (l.addPages e none pages)
      (l'.addAllPages e pages) := by
  induction pages generalizing l l' with
  | nil => exact .ok h
  | cons p pages ih =>
    obtain ⟨hp, hrest⟩ := List.forall_mem_cons.mp hpages
    rw [addPages_cons (by simp [isFull]), addAllPages, List.foldlM_cons]
    exact (agree_addPage hp h).bind fun _ _ => ih hrest

end Ledger

namespace Dump

/-- The dictionary of a dump if every page is looked into. -/
def processAll (e : Engine) (pages : List Page) : Except Fault Dictionary :=
  Ledger.dictionary <$> Ledger.addAllPages e {} pages

theorem entries_of_processAll {e : Engine} {pages : List Page} {d : Dictionary}
    (h : processAll e pages = .ok d) :
    d.entries = (declinable pages).filterMap (entryOf? e) ∧
      d.failures = (declinable pages).filterMap (failureOf? e) := by
  rw [processAll] at h
  cases hl : Ledger.addAllPages e {} pages with
  | error f =>
    rw [hl] at h
    cases h
  | ok l =>
    rw [hl] at h
    cases h
    exact ⟨(Ledger.books_of_addAllPages hl).entries, (Ledger.books_of_addAllPages hl).failures⟩

/-- Passing pages over loses nothing where every page with a supported template bears a Latin
template whose name is not set off by white space: all supported templates are booked. -/
theorem process_eq_processAll (hlibrary : library.ListsAsWritten) (e : Engine) (path : String)
    {pages : List Page} (h : ∀ p ∈ pages, p.supported ≠ [] → p.IsMarked) :
    Prod.fst <$> process e path none (some pages) = processAll e pages ∧
      ∀ d told, process e path none (some pages) = .ok (d, told) →
        d.entries = (declinable pages).filterMap (entryOf? e) ∧
          d.failures = (declinable pages).filterMap (failureOf? e) := by
  have hcandidates : ∀ p ∈ pages, Page.declensionTemplates p.text ≠ [] → p.isCandidate := by
    intro p hp hsome
    rw [Page.declensionTemplates_eq_supported] at hsome
    exact Page.isCandidate_of_isMarked hlibrary (h p hp hsome)
  have hstart : Ledger.dictionary { told := ["🚀 Starting ingestion from " ++ path ++ "...\n"] } =
      Ledger.dictionary {} := rfl
  have hagree := Ledger.agree_addPages (e := e) hcandidates hstart
  have hsame : Prod.fst <$> process e path none (some pages) = processAll e pages := by
    rw [processAll, ← hagree.map_eq]
    unfold process
    simp
  refine ⟨hsame, fun d told hprocess => entries_of_processAll ?_⟩
  rw [← hsame, hprocess]
  rfl

end Dump
end Library

namespace Dump

/-- The page of rēs is looked into for its headword, the page of girl is not. -/
theorem process_eq_processAll_of_res :
    letI : Wikitext.Library := Wikitext.reader
    let pages : List Page :=
      [⟨"rēs", "\x7b\x7bla-noun|rēs<5>\x7d\x7d\n\x7b\x7b la-ndecl |rēs<5>\x7d\x7d"⟩,
        ⟨"girl", "\x7b\x7ben-noun\x7d\x7d"⟩]
    Wikitext.reader.ListsAsWritten ∧ (∀ p ∈ pages, p.supported ≠ [] → p.IsMarked) ∧
      Prod.fst <$> process ⟨.latin, {}⟩ "dump.xml" none (some pages) =
        processAll ⟨.latin, {}⟩ pages ∧
      declinable pages = [("rēs", "\x7b\x7b la-ndecl |rēs<5>\x7d\x7d")] := by
  intro pages
  have h : ∀ p ∈ pages,
      @Page.supported Wikitext.reader p ≠ [] → @Page.IsMarked Wikitext.reader p := by
    decide +kernel
  let _ : Wikitext.Library := Wikitext.reader
  exact ⟨Wikitext.listsAsWritten_reader, h,
    (process_eq_processAll Wikitext.listsAsWritten_reader _ _ h).1, by decide +kernel⟩

/-- A page with its only Latin template set off by white space is passed over, although the library
lists the template as it is written. -/
theorem not_process_eq_processAll_of_res :
    letI : Wikitext.Library := Wikitext.reader
    let pages : List Page := [⟨"rēs", "\x7b\x7b la-ndecl |rēs<5>\x7d\x7d"⟩]
    Wikitext.reader.ListsAsWritten ∧
      Prod.fst <$> process ⟨.latin, {}⟩ "dump.xml" none (some pages) ≠
        processAll ⟨.latin, {}⟩ pages := by
  intro pages
  refine ⟨Wikitext.listsAsWritten_reader, fun h => ?_⟩
  have hcount := congrArg
    (fun d : Except Fault Dictionary => d.toOption.map (·.entries.length)) h
  revert hcount
  decide +kernel

end Dump
end Declension
