/-!
Why a word, a run or a template cannot be declined.
-/
namespace Declension

inductive Fault where
  /-- No template in the text. -/
  | noTemplate (shown : String)
  | unknownTemplate (name : String)
  | unterminatedAlternant (text : String)
  | invalidAlternant (text : String)
  | mixedAlternant
  | missingSpec (text : String)
  | tooManyStems (stems : String)
  | missingWord (text : String)
  | missingClass (text : String)
  | unknownTag (name : String)
  | strayBracket (text : String)
  | endingNotLongO (word : String)
  | endingNotGreekPlural (word : String)
  | endingNotPlural (word : String)
  | nounEnding (decl word : String)
  | adjectiveEnding (word : String)
  | adjectiveEndingIn (decl word : String)
  | formEnding (form ending : String)
  | stemNotInR (stem : String)
  | unknownIrregularNoun (word : String)
  | unknownIrregularAdjective (word : String)
  | unknownPronoun (word : Option String)
  | unknownClass (decl : String)
  | untitledClass (decl : String)
  | nounInAdjective (word : String)
  | genderUnknown (word : String)
  | emptyAlternant
  /-- The tables lack an ending table; the fault lies with the tables, not with the template. -/
  | missingTable (key : String)
  deriving DecidableEq, Repr

namespace Fault

/-- What a fault is about. -/
inductive Kind where
  | template | grammar | classification | registry | agreement | tables
  deriving DecidableEq, Repr

def kind : Fault → Kind
  | noTemplate _ | unknownTemplate _ => .template
  | unterminatedAlternant _ | invalidAlternant _ | mixedAlternant | missingSpec _
  | tooManyStems _ | missingWord _ | missingClass _ | unknownTag _ | strayBracket _ => .grammar
  | endingNotLongO _ | endingNotGreekPlural _ | endingNotPlural _ | nounEnding _ _
  | adjectiveEnding _ | adjectiveEndingIn _ _ | formEnding _ _ | stemNotInR _ => .classification
  | unknownIrregularNoun _ | unknownIrregularAdjective _ | unknownPronoun _ | unknownClass _
  | untitledClass _ => .registry
  | nounInAdjective _ | genderUnknown _ | emptyAlternant => .agreement
  | missingTable _ => .tables

/-- The fault as told to the user. -/
def message : Fault → String
  | noTemplate shown => "No template found in " ++ shown
  | unknownTemplate name => "Unknown template " ++ name
  | unterminatedAlternant text => "Unterminated alternant in '" ++ text ++ "'"
  | invalidAlternant text => "Invalid alternant spec: " ++ text
  | mixedAlternant => "Saw both noun and adjective alternants; not allowed"
  | missingSpec text => "Segment '" ++ text ++ "' has no inflection spec in angle brackets"
  | tooManyStems stems => "Too many stems, at most 2 should be given: " ++ stems
  | missingWord text => "No lemma in segment '" ++ text ++ "'"
  | missingClass text => "Noun segment '" ++ text ++ "' needs a declension class"
  | unknownTag name => "Invalid nominal type '" ++ name ++ "'"
  | strayBracket text => "Unterminated or stray inflection spec in '" ++ text ++ "'"
  | endingNotLongO word =>
    "Declension-4 noun of subtype .echo, .argo or .Callisto should end in -ō: " ++ word
  | endingNotGreekPlural word => "Unrecognized ending for declension-3 plural Greek noun: " ++ word
  | endingNotPlural word => "Unrecognized ending for declension-3 plural noun: " ++ word
  | nounEnding decl word => "Unrecognized ending for declension-" ++ decl ++ " noun: " ++ word
  | adjectiveEnding word => "Unrecognized ending for adjective: " ++ word
  | adjectiveEndingIn decl word =>
    "Unrecognized ending for declension-" ++ decl ++ " adjective: " ++ word
  | formEnding form ending => "Form " ++ form ++ " should end in -" ++ ending
  | stemNotInR stem => "Unrecognized '-r' stem (doesn't end in '-er' or '-ur'): " ++ stem
  | unknownIrregularNoun word => "Stem " ++ word ++ " not recognized."
  | unknownIrregularAdjective word => "Adjective '" ++ word ++ "' not recognized"
  | unknownPronoun word => "Unknown ppron lemma: " ++ word.getD "None"
  | unknownClass decl => "Unrecognized declension '" ++ decl ++ "'"
  | untitledClass decl => "Don't recognize noun declension " ++ decl
  | nounInAdjective word =>
    "Can't decline noun '" ++ word ++ "' when overall term is an adjective"
  | genderUnknown word =>
    "Declining modifying adjective " ++ word ++ " but don't know gender of associated noun"
  | emptyAlternant => "Alternant without any branch"
  | missingTable key => key

/-- Whether the fault lies with the template rather than with the tables. -/
def isOfTemplate (f : Fault) : Bool := f.kind ≠ .tables

end Fault
end Declension
