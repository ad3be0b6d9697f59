/-!
What a library of wikitext tells of a text: the templates in it, with their names and parameters.
The program leaves the grammar of wikitext to such a library.
-/
namespace Declension.Wikitext

/-- A parameter of a template as the library tells it. -/
structure Field where
  /-- The name as written, or the number of a parameter without a name. -/
  name : String
  value : String
  /-- Whether the name is written. -/
  isNamed : Bool
  deriving DecidableEq, Repr

/-- A template as the library tells it. -/
structure Call where
  /-- The whole template as written. -/
  source : String
  name : String
  fields : List Field
  deriving DecidableEq, Repr

/-- A library that finds the templates of texts. -/
class Library where
  /-- The templates that stand in nothing else. -/
  outerCalls : String → List Call
  /-- All templates, those inside others included. -/
  allCalls : String → List Call

end Declension.Wikitext
