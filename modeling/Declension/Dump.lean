import Declension.Record.Dispatch

/-!
Dumps of a dictionary: pages with templates in their text. Every declension template of a page is
declined; what came of it is booked under the title of the page.
-/
namespace Declension

structure Page where
  title : String
  text : String
  deriving DecidableEq, Repr

structure Entry where
  title : String
  /-- The template as written. -/
  template : String
  declension : Declined
  deriving DecidableEq, Repr

structure Failure where
  title : String
  template : String
  error : String
  deriving DecidableEq, Repr

namespace Page

/-- A text with its line ends as a markup reader gives them: a carriage return, with or without a
line feed behind it, is a line feed. -/
def plainLines : List Char → List Char
  | '\r' :: '\n' :: r => '\n' :: plainLines r
  | '\r' :: r => '\n' :: plainLines r
  | c :: r => c :: plainLines r
  | [] => []

/-- The page of an element with a title and a text, either of which may be missing. -/
def ofElement (title text : Option String) : Page :=
  let read (s : Option String) : String := String.ofList (plainLines (s.getD "").toList)
  ⟨read title, read text⟩

/-- What every Latin template starts with. -/
def latinMark : String := "\x7b\x7bla-"

/-- Whether Latin templates are looked for in the page. -/
def isCandidate (p : Page) : Bool := Text.occurs latinMark.toList p.text.toList

variable [Wikitext.Library]

/-- The declension templates of a text, as written. -/
def declensionTemplates (text : String) : List String :=
  ((Wikitext.Library.allCalls text).filter fun c =>
    (TemplateKind.ofName? c.callName).isSome).map Wikitext.Call.source

/-- The names of the Latin templates of a text. -/
def latinNames (text : String) : List String :=
  ((Wikitext.Library.allCalls text).map Wikitext.Call.callName).filter (Text.startsWith "la-")

end Page

/-- What a run over a dump has booked so far, newest first, and what it has told the user. -/
structure Ledger where
  entries : List Entry := []
  failures : List Failure := []
  count : Nat := 0
  scanned : Nat := 0
  told : List String := []
  deriving DecidableEq, Repr

namespace Ledger

def tell (l : Ledger) (text : String) : Ledger := { l with told := text :: l.told }

/-- Books a declined template; every hundredth is told. -/
def addEntry (l : Ledger) (entry : Entry) : Ledger :=
  let count := l.count + 1
  let l := { l with entries := entry :: l.entries, count }
  if count % 100 = 0 then
    l.tell ("✅ Processed " ++ toString count ++ " words..." ++ entry.title ++ "...\r")
  else l

section Booking
variable [Wikitext.Library]

/-- Declines and books one template. A fault of the tables is none of the template and stops the
run. -/
def addTemplate (e : Engine) (title : String) (l : Ledger) (template : String) :
    Except Fault Ledger :=
  match declineText e template with
  | .ok declension => .ok (l.addEntry ⟨title, template, declension⟩)
  | .error f =>
    if f.isOfTemplate then .ok { l with failures := ⟨title, template, f.message⟩ :: l.failures }
    else .error f

/-- Books the templates of a page; every ten thousandth page is told. -/
def addPage (e : Engine) (l : Ledger) (p : Page) : Except Fault Ledger :=
  let scanned := l.scanned + 1
  let l := { l with scanned }
  let l := if scanned % 10000 = 0 then
      l.tell ("DEBUG: Scanned " ++ toString scanned ++ " pages... Current: '" ++ p.title ++ "'\r")
    else l
  if p.isCandidate then (Page.declensionTemplates p.text).foldlM (addTemplate e p.title) l
  else .ok l

/-- Whether enough is booked; a limit of zero is none. -/
def isFull (limit : Option Int) (l : Ledger) : Bool :=
  match limit with
  | some n => n ≠ 0 && n ≤ l.count
  | none => false

/-- Books page after page until the limit is reached. -/
def addPages (e : Engine) (limit : Option Int) : Ledger → List Page → Except Fault Ledger
  | l, [] => .ok l
  | l, p :: rest =>
    if l.isFull limit then .ok l
    else match l.addPage e p with
      | .ok l => addPages e limit l rest
      | .error f => .error f

end Booking
end Ledger

/-- The entries and failures of a dump, in order. -/
structure Dictionary where
  entries : List Entry := []
  failures : List Failure := []
  deriving DecidableEq, Repr

def Ledger.dictionary (l : Ledger) : Dictionary := ⟨l.entries.reverse, l.failures.reverse⟩

namespace Dump
variable [Wikitext.Library]

/-- Declines the templates of a dump; without a dump there is nothing to decline. The text is what
the user is told. -/
def process (e : Engine) (path : String) (limit : Option Int) (pages : Option (List Page)) :
    Except Fault (Dictionary × String) :=
  let start : Ledger := { told := ["🚀 Starting ingestion from " ++ path ++ "...\n"] }
  match pages with
  | none =>
    .ok ({}, String.join
      (start.tell "⚠️  Wiktionary file not found. Skipping ingestion.\n").told.reverse)
  | some pages => do
    let l ← start.addPages e limit pages
    return (l.dictionary, String.join l.told.reverse)

/-- How often each Latin template occurs, in the order of first occurrence. -/
structure Census where
  counts : OrderedMap String Nat := ∅
  scanned : Nat := 0
  /-- What the user was told, newest first. -/
  told : List String := []
  deriving DecidableEq, Repr

namespace Census

def addName (counts : OrderedMap String Nat) (name : String) : OrderedMap String Nat :=
  counts.insert name ((counts.get? name).getD 0 + 1)

/-- Counts the templates of a page with Latin ones; every thousandth such page is told. -/
def addPage (c : Census) (p : Page) : Census :=
  let scanned := c.scanned + 1
  { counts := (Page.latinNames p.text).foldl addName c.counts
    scanned
    told := if scanned % 1000 = 0 then ("Scanned " ++ toString scanned ++ " pages...\r") :: c.told
      else c.told }

/-- Counts page after page until `limit` pages with Latin templates are counted. -/
def addPages (limit : Int) : Census → List Page → Census
  | c, [] => c
  | c, p :: rest =>
    if p.isCandidate then
      let c := c.addPage p
      if limit ≤ c.scanned then c else addPages limit c rest
    else addPages limit c rest

end Census

/-- Counts the Latin templates of a dump. The text is what the user is told. -/
def discover (path : String) (limit : Int) (pages : Option (List Page)) :
    OrderedMap String Nat × String :=
  let start : Census := { told := ["🕵️  Discovering templates in " ++ path ++ "...\n"] }
  match pages with
  | none => (∅, String.join ("⚠️  File not found.\n" :: start.told).reverse)
  | some pages =>
    let c := start.addPages limit pages
    (c.counts, String.join c.told.reverse)

end Dump
end Declension
