import Declension.Tables.Endings
import Declension.Tables.IrregularNouns
import Declension.Tables.IrregularAdjectives
import Declension.Tables.Pronouns

/-!
All the tables of Latin nominal declension.
-/
namespace Declension

namespace Latin

def classNames : OrderedMap String String := ⟨[
  ("1", "first"), ("2", "second"), ("3", "third"), ("4", "fourth"), ("5", "fifth")]⟩

/-- The class an irregular noun comes nearest to. -/
def irregularNounClasses : OrderedMap String String := ⟨[
  ("bōs", "3"), ("cherub", "irreg"), ("deus", "2"), ("Deus", "2"), ("domus", "4,2"),
  ("Iēsus", "4"), ("Jēsus", "4"), ("Iēsūs", "4"), ("Jēsūs", "4"), ("iūgerum", "2,3"),
  ("jūgerum", "2,3"), ("sūs", "3"), ("ēthos", "3"), ("Athōs", "2"), ("lexis", "3"),
  ("vēnum", "4,2"), ("vīs", "3")]⟩

/-- Traits that come with an irregular noun. -/
def irregularNounTags : OrderedMap String (List Tag) := ⟨[
  ("domus", [.has .loc]), ("Deus", [.has .sg]), ("Iēsus", [.has .sg]), ("Jēsus", [.has .sg]),
  ("Athōs", [.has .sg]), ("vēnum", [.has .sg])]⟩

/-- The class an irregular adjective or pronoun comes nearest to. -/
def irregularAdjectiveClasses : OrderedMap String String := ⟨[
  ("duo", "irreg+"), ("ambō", "irreg+"), ("mīlle", "3-1+"), ("plūs", "3-1+"), ("is", "1&2+"),
  ("īdem", "1&2+"), ("ille", "1&2+"), ("ipse", "1&2+"), ("iste", "1&2+"), ("quis", "irreg+"),
  ("quī", "irreg+"), ("quisquis", "irreg+")]⟩

end Latin

/-- The tables of Latin. -/
def Tables.latin : Tables where
  obliquePatterns := Latin.obliquePatterns
  nounEndings := Latin.nounEndings
  adjectiveEndings := Latin.adjectiveEndings
  classNames := Latin.classNames
  irregularNounClasses := Latin.irregularNounClasses
  irregularNounTags := Latin.irregularNounTags
  irregularAdjectiveClasses := Latin.irregularAdjectiveClasses
  irregularNouns := Latin.irregularNouns
  irregularAdjectives := Latin.irregularAdjectives
  pronouns := Latin.pronouns

end Declension
