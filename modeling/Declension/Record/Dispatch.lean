import Declension.Record.Adjective
import Declension.Record.Noun
import Declension.Record.Pronoun
import Declension.Wikitext.Call

/-!
Declining a template by its name.
-/
namespace Declension

/-- The templates that are declined. -/
inductive TemplateKind where
  | noun | adjective | gerund | pronoun
  deriving DecidableEq, Repr

namespace TemplateKind

def all : List TemplateKind := [noun, adjective, gerund, pronoun]

def name : TemplateKind → String
  | noun => "la-ndecl"
  | adjective => "la-adecl"
  | gerund => "la-decl-gerund"
  | pronoun => "la-decl-ppron"

def ofName? (s : String) : Option TemplateKind := all.find? (·.name = s)

/-- Declines a template of the kind. -/
def decline (e : Engine) (args : Arguments) : TemplateKind → Except Fault Declined
  | noun => .noun <$> NounRecord.ofArguments e args
  | adjective => .adjective <$> AdjectiveRecord.ofArguments e args
  | gerund => .noun <$> NounRecord.ofGerundArguments e args
  | pronoun => .pronoun <$> PronounRecord.ofArguments e args

end TemplateKind

/-- Declines the template of that name, which stands among the arguments under zero. -/
def declineArguments (e : Engine) (args : Arguments) : Except Fault Declined :=
  let name := args.getD "0" ""
  match TemplateKind.ofName? name with
  | some kind => kind.decline e args
  | none => .error (.unknownTemplate name)

/-- Declines the first template of a text. -/
def declineText [Wikitext.Library] (e : Engine) (text : String) : Except Fault Declined := do
  declineArguments e (← Arguments.read text)

end Declension
