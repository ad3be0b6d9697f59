import Declension.Dump
import Declension.Proofs.Faults
import Declension.Proofs.Scan
import Declension.Wikitext
import Mathlib.Data.List.Infix

/-!
# What is booked for a dump

A run over a dump books template after template, each as an entry or as a failure and none twice.
What a template is booked as is told by its own text and the title of its page. Main statement:
`process_books_each`, by which the dictionary of a dump is told by the list of its templates.
-/
namespace Declension

theorem TemplateKind.isSome_ofName? (s : String) : (ofName? s).isSome ↔
    s ∈ ["la-ndecl", "la-adecl", "la-decl-gerund", "la-decl-ppron"] := by
  constructor
  · intro h
    obtain ⟨kind, hkind⟩ := Option.isSome_iff_exists.mp h
    have hname : kind.name = s := by simpa using List.find?_some hkind
    rw [← hname]
    cases kind <;> decide
  · intro h
    have hall : ∀ s ∈ ["la-ndecl", "la-adecl", "la-decl-gerund", "la-decl-ppron"],
        (ofName? s).isSome := by decide
    exact hall s h

namespace Ledger

@[simp] theorem entries_tell (l : Ledger) (text : String) : (l.tell text).entries = l.entries := rfl

@[simp] theorem failures_tell (l : Ledger) (text : String) :
    (l.tell text).failures = l.failures := rfl

@[simp] theorem entries_addEntry (l : Ledger) (entry : Entry) :
    (l.addEntry entry).entries = entry :: l.entries := by
  unfold addEntry
  dsimp only
  split <;> rfl

@[simp] theorem failures_addEntry (l : Ledger) (entry : Entry) :
    (l.addEntry entry).failures = l.failures := by
  unfold addEntry
  dsimp only
  split <;> rfl

end Ledger

section Library
variable [Wikitext.Library]

namespace Page

/-- The supported templates of a page in the order in which the library lists them. -/
def supported (p : Page) : List String :=
  ((Wikitext.Library.allCalls p.text).filter fun c =>
    Text.trim c.name ∈ ["la-ndecl", "la-adecl", "la-decl-gerund", "la-decl-ppron"]).map
      Wikitext.Call.source

theorem declensionTemplates_eq_supported (p : Page) :
    declensionTemplates p.text = p.supported := by
  unfold declensionTemplates supported
  congr 1
  refine List.filter_congr fun c _ => ?_
  rw [Bool.eq_iff_iff, TemplateKind.isSome_ofName?, decide_eq_true_eq]
  rfl

/-- The templates of a page that are declined: the supported ones, if the mark of Latin templates
stands in the text. -/
def templates (p : Page) : List String :=
  if "\x7b\x7bla-".toList <:+: p.text.toList then p.supported else []

theorem templates_of_isCandidate {p : Page} (h : p.isCandidate) :
    p.templates = declensionTemplates p.text := by
  have hmark : "\x7b\x7bla-".toList <:+: p.text.toList := Text.occurs_iff.mp h
  rw [templates, if_pos hmark, declensionTemplates_eq_supported]

theorem templates_of_not_isCandidate {p : Page} (h : ¬ p.isCandidate) : p.templates = [] :=
  if_neg fun hmark => h (Text.occurs_iff.mpr hmark)

end Page

namespace Dump

/-- The templates of a dump in order, each with the title of its page. -/
def templates (pages : List Page) : List (String × String) :=
  pages.flatMap fun p => p.templates.map (p.title, ·)

/-- The entry of a template that can be declined. -/
def entryOf? (e : Engine) (t : String × String) : Option Entry :=
  match declineText e t.2 with
  | .ok declension => some ⟨t.1, t.2, declension⟩
  | .error _ => none

/-- The failure of a template that cannot. -/
def failureOf? (e : Engine) (t : String × String) : Option Failure :=
  match declineText e t.2 with
  | .ok _ => none
  | .error f => some ⟨t.1, t.2, f.message⟩

theorem templates_cons (p : Page) (pages : List Page) :
    templates (p :: pages) = p.templates.map (p.title, ·) ++ templates pages :=
  List.flatMap_cons

/-- Of every template there is either an entry or a failure. -/
theorem length_entries_add_failures (e : Engine) (l : List (String × String)) :
    (l.filterMap (entryOf? e)).length + (l.filterMap (failureOf? e)).length = l.length := by
  induction l with
  | nil => rfl
  | cons t l ih =>
    rw [List.filterMap_cons, List.filterMap_cons, List.length_cons]
    cases h : declineText e t.2 with
    | ok declension =>
      simp only [entryOf?, failureOf?, h, List.length_cons] at ih ⊢
      omega
    | error f =>
      simp only [entryOf?, failureOf?, h, List.length_cons] at ih ⊢
      omega

end Dump

theorem isOfTemplate_of_latin (o : Options) {text : String} {f : Fault}
    (h : declineText ⟨.latin, o⟩ text = .error f) : f.isOfTemplate :=
  (failsDuly_declineText o text f h).isOfTemplate (by decide) (by decide)

namespace Ledger
open Dump

/-- Between two states of a ledger the templates of a list are booked, in order and nothing else. -/
structure Books (e : Engine) (l l' : Ledger) (ts : List (String × String)) : Prop where
  entries : l'.entries.reverse = l.entries.reverse ++ ts.filterMap (entryOf? e)
  failures : l'.failures.reverse = l.failures.reverse ++ ts.filterMap (failureOf? e)

namespace Books
variable {e : Engine} {l l' l'' : Ledger} {ts us : List (String × String)}

theorem of_same (hentries : l'.entries = l.entries) (hfailures : l'.failures = l.failures) :
    Books e l l' [] :=
  ⟨by simp [hentries], by simp [hfailures]⟩

theorem trans (h : Books e l l' ts) (h' : Books e l' l'' us) : Books e l l'' (ts ++ us) where
  entries := by rw [h'.entries, h.entries, List.filterMap_append, List.append_assoc]
  failures := by rw [h'.failures, h.failures, List.filterMap_append, List.append_assoc]

end Books

theorem addPages_cons {limit : Option Int} {l : Ledger} (h : ¬ l.isFull limit) (e : Engine)
    (p : Page) (pages : List Page) :
    l.addPages e limit (p :: pages) = l.addPage e p >>= fun l => l.addPages e limit pages := by
  rw [addPages, if_neg h]
  cases l.addPage e p <;> rfl

/-! What a run has booked, if it has come to its end. -/

section Booked
variable {e : Engine} {l l' : Ledger}

theorem books_of_addTemplate {title template : String}
    (h : l.addTemplate e title template = .ok l') : Books e l l' [(title, template)] := by
  unfold addTemplate at h
  cases hdeclined : declineText e template with
  | ok declension =>
    rw [hdeclined] at h
    cases h
    exact ⟨by simp [entryOf?, hdeclined], by simp [failureOf?, hdeclined]⟩
  | error f =>
    rw [hdeclined] at h
    dsimp only at h
    split at h
    · cases h
      exact ⟨by simp [entryOf?, hdeclined], by simp [failureOf?, hdeclined]⟩
    · cases h

theorem books_of_addTemplates {title : String} {templates : List String}
    (h : templates.foldlM (addTemplate e title) l = .ok l') :
    Books e l l' (templates.map (title, ·)) := by
  induction templates generalizing l with
  | nil =>
    cases h
    exact .of_same rfl rfl
  | cons template templates ih =>
    rw [List.foldlM_cons] at h
    obtain ⟨next, hnext, h⟩ := bind_eq_ok.mp h
    exact (books_of_addTemplate hnext).trans (ih h)

theorem books_of_addPage {p : Page} (h : l.addPage e p = .ok l') :
    Books e l l' (p.templates.map (p.title, ·)) := by
  unfold addPage at h
  dsimp only at h
  generalize hstart : (if (l.scanned + 1) % 10000 = 0 then _ else _) = start at h
  have hsame : Books e l start [] := by
    rw [← hstart]
    split <;> exact .of_same rfl rfl
  split at h
  next hcandidate =>
    rw [Page.templates_of_isCandidate hcandidate]
    exact hsame.trans (books_of_addTemplates h)
  next hcandidate =>
    cases h
    rw [Page.templates_of_not_isCandidate hcandidate]
    exact hsame

/-- Without a limit all pages are booked. -/
theorem books_of_addPages {pages : List Page} (h : l.addPages e none pages = .ok l') :
    Books e l l' (Dump.templates pages) := by
  induction pages generalizing l with
  | nil =>
    cases h
    exact .of_same rfl rfl
  | cons p pages ih =>
    rw [addPages_cons (by simp [isFull])] at h
    obtain ⟨next, hnext, h⟩ := bind_eq_ok.mp h
    rw [templates_cons]
    exact (books_of_addPage hnext).trans (ih h)

end Booked

/-! If only templates are to blame, a run comes to its end. -/

section Run
variable {e : Engine} (he : ∀ text f, declineText e text = .error f → f.isOfTemplate)
include he

theorem exists_addTemplate (title : String) (l : Ledger) (template : String) :
    ∃ l', l.addTemplate e title template = .ok l' := by
  unfold addTemplate
  cases h : declineText e template with
  | ok declension => exact ⟨_, rfl⟩
  | error f =>
    dsimp only
    rw [if_pos (he template f h)]
    exact ⟨_, rfl⟩

theorem exists_addPage (l : Ledger) (p : Page) : ∃ l', l.addPage e p = .ok l' := by
  unfold addPage
  dsimp only
  split
  · exact exists_foldlM (fun l template => exists_addTemplate he p.title l template) _ _
  · exact ⟨_, rfl⟩

theorem addPages_books (l : Ledger) (pages : List Page) :
    ∃ l', l.addPages e none pages = .ok l' ∧ Books e l l' (Dump.templates pages) := by
  have hok : ∃ l', l.addPages e none pages = .ok l' := by
    induction pages generalizing l with
    | nil => exact ⟨l, rfl⟩
    | cons p pages ih =>
      obtain ⟨next, hnext⟩ := exists_addPage he l p
      obtain ⟨l', hl'⟩ := ih next
      rw [addPages_cons (by simp [isFull])]
      exact ⟨l', bind_eq_ok.mpr ⟨next, hnext, hl'⟩⟩
  obtain ⟨l', hl'⟩ := hok
  exact ⟨l', hl', books_of_addPages hl'⟩

end Run
end Ledger

/-- By the Latin tables a run over a dump comes to its end, and every template of the dump is booked
once: the entries are those of the templates that can be declined, in order, the failures those of
the others. -/
theorem Dump.process_books_each (o : Options) (path : String) (pages : List Page) :
    ∃ d told, process ⟨.latin, o⟩ path none (some pages) = .ok (d, told) ∧
      d.entries = (templates pages).filterMap (entryOf? ⟨.latin, o⟩) ∧
      d.failures = (templates pages).filterMap (failureOf? ⟨.latin, o⟩) ∧
      d.entries.length + d.failures.length = (templates pages).length := by
  obtain ⟨l, hl, hbooked⟩ := Ledger.addPages_books (fun _ _ => isOfTemplate_of_latin o)
    { told := ["🚀 Starting ingestion from " ++ path ++ "...\n"] } pages
  have hentries : l.dictionary.entries = (templates pages).filterMap (entryOf? ⟨.latin, o⟩) :=
    hbooked.entries
  have hfailures : l.dictionary.failures = (templates pages).filterMap (failureOf? ⟨.latin, o⟩) :=
    hbooked.failures
  refine ⟨_, _, bind_eq_ok.mpr ⟨l, hl, rfl⟩, hentries, hfailures, ?_⟩
  rw [hentries, hfailures]
  exact length_entries_add_failures _ _

end Library

/-- A template inside another, a template that cannot be declined, and a page without the mark. -/
theorem Dump.process_books_each_of_puella :
    letI : Wikitext.Library := Wikitext.reader
    let pages : List Page := [
      ⟨"puella", "\x7b\x7bla-noun|puella<1>\x7d\x7d\n" ++
        "\x7b\x7btop|\x7b\x7bla-decl-ppron|ego\x7d\x7d|\x7b\x7b la-ndecl|x<9>\x7d\x7d\x7d\x7d"⟩,
      ⟨"rēs", "\x7b\x7b la-ndecl|rēs<5>\x7d\x7d"⟩]
    ∃ d told, process ⟨.latin, {}⟩ "dump.xml" none (some pages) = .ok (d, told) ∧
      d.entries.map (fun r => (r.title, r.template)) =
        [("puella", "\x7b\x7bla-decl-ppron|ego\x7d\x7d")] ∧
      d.failures =
        [⟨"puella", "\x7b\x7b la-ndecl|x<9>\x7d\x7d", "Unrecognized declension '9'"⟩] := by
  let _ : Wikitext.Library := Wikitext.reader
  intro pages
  obtain ⟨d, told, h, hentries, hfailures, -⟩ := process_books_each {} "dump.xml" pages
  refine ⟨d, told, h, ?_, ?_⟩
  · rw [hentries]
    decide +kernel
  · rw [hfailures]
    decide +kernel

end Declension
