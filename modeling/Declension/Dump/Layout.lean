import Declension.Dump
import Declension.Record.Layout

/-!
The dictionary of a dump as a JSON document.
-/
namespace Declension

def Entry.toJson (e : Entry) : Json :=
  .obj [("title", .str e.title), ("template", .str e.template),
    ("declension", e.declension.toJson)]

def Failure.toJson (f : Failure) : Json :=
  .obj [("title", .str f.title), ("template", .str f.template), ("error", .str f.error)]

def Dictionary.toJson (d : Dictionary) : Json :=
  .obj [("version", .num 1), ("entries", .arr (d.entries.map Entry.toJson)),
    ("failures", .arr (d.failures.map Failure.toJson))]

end Declension
