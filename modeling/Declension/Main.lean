import Declension.CommandLine.Run
import Declension.Dump.Markup
import Declension.Json.Reader

/-!
The command: it reads the files that its arguments name, runs, and prints and writes what comes of
it.
-/
namespace Declension.CommandLine

def usage : String := "usage: declension [-h] [--dump DUMP] [--output OUTPUT] [--limit LIMIT]
                  [--discover] [--options OPTIONS]
                  [--populate-all-terminations] [-v]
                  [template]
"

/-- The text of a file, if there is one. -/
def readFile? (path : String) : IO (Option String) := do
  try
    return some (← IO.FS.readFile path)
  catch _ => return none

def canCreate (path : String) : IO Bool := do
  try
    IO.FS.withFile path .append fun _ => pure ()
    return true
  catch _ => return false

/-- The files that settings name. -/
def filesOf (s : Settings) : IO Files := do
  let document := (← readFile? (s.options.getD "")).bind Json.parse?
  let isDumpRead := s.template.getD "" = ""
  let markup ← if isDumpRead then readFile? s.dump else pure none
  let isWritten := markup.isSome && !s.discover
  let canWrite ← if isWritten then canCreate s.output else pure true
  return {
    document? := fun _ => document
    pages? := fun _ => markup.map Dump.pages
    canWrite := fun _ => canWrite }

def stop (f : Failure) : IO UInt32 := do
  match f with
  | .exit .help => IO.print usage; return 0
  | .exit .usage => IO.eprint usage; return 2
  | .missingFile path => IO.eprintln ("❌ No such file: " ++ path); return 1
  | .options _ => IO.eprintln "❌ The options file holds no options"; return 1
  | .tables f => IO.eprintln ("❌ " ++ f.message); return 1

def finish (o : Outcome) : IO UInt32 := do
  IO.print o.out
  IO.eprint o.err
  if let some (path, text) := o.written then IO.FS.writeFile path text
  return o.code.toUInt32

end Declension.CommandLine

open Declension.CommandLine in
def main (args : List String) : IO UInt32 := do
  match read args with
  | .error e => stop (.exit e)
  | .ok s =>
    match runSettings (← filesOf s) s with
    | .ok o => finish o
    | .error f => stop f
