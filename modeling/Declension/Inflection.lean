import Declension.Adjective
import Declension.Noun
import Declension.Run

/-!
Declining the words of a run: each is declined by its class and gets the title it has on its own.
-/
namespace Declension

namespace Segment

/-- The word in the use that its run makes of it. An adjective beside nouns is titled as an
adjective. -/
def lexeme (s : Segment) (pos : String) (isAdj : Bool) (num : Option NumberUse)
    (gender : Option Gender) (loc : Bool) : Lexeme where
  stem := s.stem
  oblique := s.oblique
  tags := s.tags
  num := num
  gender := gender
  loc := loc
  pos := if isAdj || !s.isAdj then pos else "adjectives"

/-- Declines the word by its class. -/
def decline (e : Engine) (s : Segment) (w : Lexeme) : Except Fault Paradigm :=
  if s.isAdj then
    match Adjective.Class.ofName? s.decl with
    | some c => Adjective.decline e w c
    | none => .error (.unknownClass s.decl)
  else
    match Noun.Class.ofName? s.decl with
    | some c => Noun.decline e w c
    | none => .error (.unknownClass s.decl)

/-- The class that a noun shows in its title. -/
def apparentClass (s : Segment) : String := s.headword.nearest?.getD s.headword.text

/-- The title of a noun by its class. -/
def nounTitle (t : Tables) (s : Segment) : Except Fault String :=
  match given (t.classNames.get? s.apparentClass) with
  | some name => .ok (name ++ "-declension noun")
  | none =>
    if s.apparentClass = "irreg" then .ok "irregular noun"
    else if s.apparentClass = "indecl" || s.apparentClass = "0" then .ok "indeclinable noun"
    else .error (.untitledClass s.apparentClass)

/-- Titles a noun by its class, unless its paradigm has a title; an irregular noun without other
remarks is called irregular. -/
def withTitle (t : Tables) (s : Segment) (p : Paradigm) : Except Fault Paradigm :=
  if s.isAdj || p.title.isSome then .ok p
  else do
    let title ← s.nounTitle t
    let subtitles := if s.headword.nearest?.isSome && p.subtitles.isEmpty
      then [.phrase "irregular"] else p.subtitles
    return { p with title := some title, subtitles }

def nasalSubtitle : String := " 'm' optionally → 'n' in compounds"

/-- What the word declines to. -/
def paradigm (e : Engine) (s : Segment) (w : Lexeme) : Except Fault Paradigm := do
  let p ← s.withTitle e.tables (← s.decline e w)
  let nasal := remark w .sufn (.pair "with" nasalSubtitle) (.pair "without" nasalSubtitle)
  return { p with subtitles := p.subtitles ++ nasal }

end Segment
end Declension
