import Declension.Paradigm

/-!
How titles name the part of speech of an adjective.
-/
namespace Declension.Adjective

/-- Whether the plural of a noun adds -es. -/
def addsEs (plural : String) : Bool :=
  match (Text.line plural.toList).reverse with
  | 's' :: 'e' :: 'x' :: _ => true
  | 's' :: 'e' :: 'h' :: c :: _ => c = 'c' || c = 's'
  | _ => false

/-- The name of one word out of the name of the whole part of speech. -/
def singular (plural : String) : String :=
  Text.dropEnding (if addsEs plural then "es" else "s") plural

/-- A third-declension adjective is named for its terminations unless a noun governs its gender. -/
def thirdTitle (w : Lexeme) (terminations : String) : String :=
  match w.gender with
  | some _ => "third-declension " ++ singular w.pos
  | none => "third-declension " ++ terminations ++ "-termination " ++ singular w.pos

end Declension.Adjective
