import Declension.CommandLine
import Declension.Dump.Layout
import Declension.Json.Printer
import Declension.Options
import Declension.Tables.Latin
import Declension.Wikitext

/-!
What a command does: it declines one template, counts the templates of a dump, or declines a dump
into a file. The files it reads are given, and the file it writes is part of the outcome.
-/
namespace Declension.CommandLine

/-- Commands find templates with the reader of this program. -/
instance : Wikitext.Library := Wikitext.reader

/-- The tables of commands need no expressions. -/
instance : Expressions := .blank

/-- The files a command may read, and where it may write. -/
structure Files where
  /-- The document of an options file. -/
  document? : String → Option Json
  /-- The pages of a dump. -/
  pages? : String → Option (List Page)
  /-- Whether there is a directory to write a file in. -/
  canWrite : String → Bool

/-- What is left behind by a command that ran. -/
structure Outcome where
  code : Nat
  out : String := ""
  err : String := ""
  /-- The file written, with its text. -/
  written : Option (String × String) := none
  deriving DecidableEq, Repr

/-- Why a command stopped. -/
inductive Failure where
  | exit (e : Exit)
  | missingFile (path : String)
  | options (f : Options.Fault)
  | tables (f : Fault)
  deriving DecidableEq, Repr

/-- A path without empty steps and steps on the spot. -/
def cleanPath (path : String) : String :=
  let root := match path.toList with
    | '/' :: '/' :: '/' :: _ => "/"
    | '/' :: '/' :: _ => "//"
    | '/' :: _ => "/"
    | _ => ""
  let steps := (Text.fields '/' path).filter fun step => step ≠ "" && step ≠ "."
  if root = "" && steps.isEmpty then "." else root ++ Text.join "/" steps

/-- The options of a command: those of its file, and the one that the command line can add. -/
def loadOptions (files : Files) (s : Settings) : Except Failure Options := do
  let o ← match s.options.filter (· ≠ "") with
    | none => .ok {}
    | some path =>
      match files.document? path with
      | none => .error (.missingFile path)
      | some v => (Options.ofJson v).mapError .options
  return if s.populateAllTerminations then { o with populateAllTerminations := true } else o

/-- Declines one template. -/
def runTemplate (e : Engine) (template : String) : Except Failure Outcome :=
  match declineText e template with
  | .ok d => .ok { code := 0, out := d.toJson.pretty ++ "\n" }
  | .error f =>
    if f.isOfTemplate then .ok { code := 1, err := "❌ " ++ f.message ++ "\n" }
    else .error (.tables f)

def padded (width : Nat) (n : Nat) : String :=
  let digits := toString n
  String.ofList (List.replicate (width - digits.length) ' ') ++ digits

/-- The counts of a dump, the most frequent template first. -/
def statistics (counts : OrderedMap String Nat) : String :=
  "\n📊 Template Statistics:\n" ++
    String.join ((counts.entries.mergeSort fun a b => b.2 ≤ a.2).map fun (name, count) =>
      padded 5 count ++ " : " ++ name ++ "\n")

/-- How many pages are counted if no limit is given. -/
def discoverLimit (limit : Option Int) : Int := (limit.filter (· ≠ 0)).getD 50000

/-- Declines a dump into a file. -/
def runDump (e : Engine) (files : Files) (s : Settings) (pages : List Page) :
    Except Failure Outcome := do
  let (dictionary, told) ← (Dump.process e s.dump s.limit (some pages)).mapError .tables
  if !files.canWrite s.output then throw (.missingFile s.output)
  return {
    code := 0
    out := told ++ "\n✅ Exported " ++ toString dictionary.entries.length ++ " declensions ("
      ++ toString dictionary.failures.length ++ " failed) to " ++ cleanPath s.output ++ "\n"
    written := some (s.output, dictionary.toJson.pretty) }

def banner : String := "🏭 Latin nominal pipeline: declining dump...\n"

/-- Carries out a command. -/
def runSettings (files : Files) (s : Settings) : Except Failure Outcome := do
  let e : Engine := { tables := .latin, options := ← loadOptions files s }
  match s.template.filter (· ≠ "") with
  | some template => runTemplate e template
  | none =>
    match files.pages? s.dump with
    | none => return { code := 1, out := banner ++ "❌ Dump not found.\n" }
    | some pages =>
      if s.discover then
        let (counts, told) := Dump.discover s.dump (discoverLimit s.limit) (some pages)
        return { code := 0, out := banner ++ told ++ statistics counts }
      else
        let o ← runDump e files s pages
        return { o with out := banner ++ o.out }

/-- Carries out a command line. -/
def run (files : Files) (args : List String) : Except Failure Outcome :=
  match read args with
  | .ok s => runSettings files s
  | .error e => .error (.exit e)

end Declension.CommandLine
