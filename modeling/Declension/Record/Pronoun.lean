import Declension.Record

/-!
Records of personal pronouns.
-/
namespace Declension.PronounRecord

/-- Looks up the pronoun of a template; without a word it is ego. -/
def ofArguments (e : Engine) (args : Arguments) : Except Fault PronounRecord := do
  let p ← e.tables.pronoun (args.get? "1")
  return ⟨p.forms, p.person, p.num⟩

end Declension.PronounRecord
