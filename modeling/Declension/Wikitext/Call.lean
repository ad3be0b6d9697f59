import Declension.Arguments
import Declension.Fault
import Declension.Text.Blank
import Declension.Text.Quoted
import Declension.Wikitext.Library

/-!
The arguments of a template by name.
-/
namespace Declension

namespace Wikitext

/-- The name of a template without white space around it. -/
def Call.callName (c : Call) : String := Text.trim c.name

/-- The argument that a parameter gives. Its name is trimmed, and its value if the name is
written. -/
def Field.argument (f : Field) : String × String :=
  (Text.trim f.name, if f.isNamed then Text.trim f.value else f.value)

/-- The arguments of a template, its name under zero. -/
def Call.arguments (c : Call) : Arguments :=
  .ofList (("0", c.callName) :: c.fields.map Field.argument)

end Wikitext

/-- A text without its line breaks. -/
def Text.unbroken (s : String) : String :=
  String.ofList (s.toList.filter fun c => c ≠ '\r' && c ≠ '\n')

/-- The arguments of the first template of a text. Line breaks do not count. -/
def Arguments.read [Wikitext.Library] (text : String) : Except Fault Arguments :=
  match Wikitext.Library.outerCalls (Text.unbroken text) with
  | c :: _ => .ok c.arguments
  | [] => .error (.noTemplate (Text.quoted text))

end Declension
