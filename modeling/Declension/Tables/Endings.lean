import Declension.Tables

/-!
The ending tables of Latin nouns and adjectives. Within a table the first entry that applies wins,
so the more specific endings come first.
-/
namespace Declension.Latin

/-- A capital Latin letter, plain or with a mark of length. -/
def capital : Atom := .oneOf [
  ('A', 'Z'), ('Ā', 'Ā'), ('Ē', 'Ē'), ('Ī', 'Ī'), ('Ō', 'Ō'), ('Ū', 'Ū'), ('Ȳ', 'Ȳ'), ('Ă', 'Ă'),
  ('Ĕ', 'Ĕ'), ('Ĭ', 'Ĭ'), ('Ŏ', 'Ŏ'), ('Ŭ', 'Ŭ')]

/-- A small Latin letter, plain or with a mark of length. -/
def small : Atom := .oneOf [
  ('a', 'z'), ('ā', 'ā'), ('ē', 'ē'), ('ī', 'ī'), ('ō', 'ō'), ('ū', 'ū'), ('ȳ', 'ȳ'), ('ă', 'ă'),
  ('ĕ', 'ĕ'), ('ĭ', 'ĭ'), ('ŏ', 'ŏ'), ('ŭ', 'ŭ')]

/-- Oblique stems of third-declension lemmas, guessed from the ending. -/
def obliquePatterns : List (String × String) := [
  ("tūdō", "tūdin"), ("is", ""), ("ēs", ""), ("āns", "ant"), ("ēns", "ent"), ("ōns", "ont"),
  ("ceps", "cipit"), ("us", "or"), ("ex", "ic"), ("ma", "mat"), ("e", ""), ("al", "āl"),
  ("ar", "ār"), ("men", "min"), ("er", "r"), ("or", "ōr"), ("gō", "gin"), ("ō", "ōn"),
  ("ps", "p"), ("bs", "b"), ("s", "t"), ("x", "c")]

/-- First-declension nouns. -/
def nounFirst : EndingTable where
  entries := [
    { ending := .plain "ām", tags := [.has .F, .has .am] },
    { ending := .plain "ās", tags := [.has .M, .has .Greek, .has .Ma] },
    { ending := .plain "ēs", tags := [.has .M, .has .Greek, .has .Me] },
    { ending := .plain "ē", tags := [.has .F, .has .Greek] },
    { ending := .plain "ae", tags := [.has .F, .has .pl] },
    { ending := .plain "a", tags := [.has .F] }]

/-- Second-declension nouns. -/
def nounSecond : EndingTable where
  entries := [
    { ending := .shaped [.span, .one 'r'] [], tags := [.has .M, .has .er] },
    { ending := .shaped [.span, .one 'v'] [.one 'o', .one 's'], tags := [.has .M, .has .vos] },
    { ending := .shaped [.span, .one 'v'] [.one 'o', .one 'm'], tags := [.has .N, .has .vom] },
    { ending := .plain "os", tags := [.has .M, .has .Greek] },
    { ending := .plain "os", tags := [.has .N, .has .Greek, .has .us] },
    { ending := .plain "on", tags := [.has .N, .has .Greek] },
    { ending := .shaped [capital, .span] [.one 'i', .one 'u', .one 's'],
      tags := [.has .M, .has .ius, .has .voci, .has .sg] },
    { ending := .plain "ius", tags := [.has .M, .has .ius] },
    { ending := .plain "ium", tags := [.has .N, .has .ium] },
    { ending := .plain "us", tags := [.has .M] },
    { ending := .plain "us", tags := [.has .N, .has .us] },
    { ending := .plain "um", tags := [.has .N] },
    { ending := .plain "iī", tags := [.has .M, .has .ius, .has .pl] },
    { ending := .plain "ia", tags := [.has .N, .has .ium, .has .pl] },
    { ending := .plain "ī", tags := [.has .M, .has .pl] },
    { ending := .plain "ī", tags := [.has .N, .has .us, .has .pl] },
    { ending := .plain "a", tags := [.has .N, .has .pl] }]

/-- Third-declension nouns of Greek type. -/
def nounThirdGreek : EndingTable where
  entries := [
    { ending := .plain "is", obliqueTail := some "", tags := [.has .I] },
    { ending := .plain "ēr", tags := [.has .er] },
    { ending := .plain "ōn", tags := [.has .on] }]

/-- Third-declension nouns that are not neuter. -/
def nounThirdNonNeuter : EndingTable where
  entries := [
    { ending := .shaped [capital, .span, .one 'p', .one 'o', .one 'l'] [.one 'i', .one 's'],
      obliqueTail := some "", tags := [.has .F, .has .polis, .has .sg, .has .loc] },
    { ending := .plain "tūdō", obliqueTail := some "tūdin", tags := [.has .F] },
    { ending := .plain "tās", obliqueTail := some "tāt", tags := [.has .F] },
    { ending := .plain "tūs", obliqueTail := some "tūt", tags := [.has .F] },
    { ending := .plain "tiō", obliqueTail := some "tiōn", tags := [.has .F] },
    { ending := .plain "siō", obliqueTail := some "siōn", tags := [.has .F] },
    { ending := .plain "xiō", obliqueTail := some "xiōn", tags := [.has .F] },
    { ending := .plain "gō", obliqueTail := some "gin", tags := [.has .F] },
    { ending := .plain "or", obliqueTail := some "ōr", tags := [.has .M] },
    { ending := .plain "trīx", obliqueTail := some "trīc", tags := [.has .F] },
    { ending := .plain "trix", obliqueTail := some "trīc", tags := [.has .F] },
    { ending := .plain "is", obliqueTail := some "", tags := [.has .I] },
    { ending := .shaped [small, .span] [.one 'ē', .one 's'], obliqueTail := some "",
      tags := [.has .I] }]

/-- Neuter nouns of the third declension. -/
def nounThirdNeuter : EndingTable where
  entries := [
    { ending := .plain "us", obliqueTail := some "or", tags := [.has .N] },
    { ending := .plain "us", obliqueTail := some "er", tags := [.has .N] },
    { ending := .plain "ma", obliqueTail := some "mat", tags := [.has .N] },
    { ending := .plain "men", obliqueTail := some "min", tags := [.has .N] },
    { ending := .shaped [capital, .span] [.one 'e'], obliqueTail := some "",
      tags := [.has .N, .has .sg] },
    { ending := .plain "e", obliqueTail := some "", tags := [.has .N, .has .I, .has .pure] },
    { ending := .plain "al", obliqueTail := some "āl", tags := [.has .N, .has .I, .has .pure] },
    { ending := .plain "ar", obliqueTail := some "ār", tags := [.has .N, .has .I, .has .pure] }]

/-- Fourth-declension nouns. -/
def nounFourth : EndingTable where
  entries := [
    { ending := .plain "us", tags := [.has .M] },
    { ending := .plain "ū", tags := [.has .N] },
    { ending := .plain "ūs", tags := [.has .M, .has .pl] },
    { ending := .plain "ua", tags := [.has .N, .has .pl] }]

/-- Fifth-declension nouns. -/
def nounFifth : EndingTable where
  entries := [
    { ending := .plain "iēs", tags := [.has .F, .has .i] },
    { ending := .plain "iēs", tags := [.has .F, .has .i, .has .pl] },
    { ending := .plain "ēs", tags := [.has .F] },
    { ending := .plain "ēs", tags := [.has .F, .has .pl] }]

/-- The noun tables by class. -/
def nounEndings : OrderedMap String EndingTable := ⟨[
  ("1", nounFirst),
  ("2", nounSecond),
  ("3-greek", nounThirdGreek),
  ("3-non-neuter", nounThirdNonNeuter),
  ("3-neuter", nounThirdNeuter),
  ("4", nounFourth),
  ("5", nounFifth)]⟩

/-- Adjectives of the first and second declension. -/
def adjectiveFirstSecond : EndingTable where
  decl := some "1&2"
  obliqueRule := some .base
  entries := [
    { ending := .plain "us" },
    { ending := .plain "a" },
    { ending := .plain "um" },
    { ending := .plain "ī", tags := [.has .pl] },
    { ending := .plain "ae", tags := [.has .pl] },
    { ending := .plain "a", tags := [.has .pl] },
    { ending := .plain "os", tags := [.has .greekA, .veto (.has .greekE)] },
    { ending := .plain "os", tags := [.has .greekE, .veto (.has .greekA)] },
    { ending := .plain "ē", tags := [.has .greekE, .veto (.has .greekA)] },
    { ending := .plain "on", tags := [.has .greekA, .veto (.has .greekE)] },
    { ending := .plain "on", tags := [.has .greekE, .veto (.has .greekA)] },
    { ending := .shaped [.span, .one 'e', .one 'r'] [], tags := [.has .er] },
    { ending := .shaped [.span, .one 'u', .one 'r'] [], tags := [.has .er] },
    { ending := .shaped [.one 'h'] [.one 'i', .one 'c'], tags := [.has .ic] }]

/-- Third-declension adjectives whose class is still open. -/
def adjectiveThird : EndingTable where
  obliqueRule := some .guess
  entries := [
    { ending := .shaped [.span, .one 'e', .one 'r'] [], decl := some "3-3" },
    { ending := .plain "is", decl := some "3-2" },
    { ending := .plain "e", decl := some "3-2" },
    { ending := .shaped [.span, .oneOf [('i', 'i'), ('j', 'j')]] [.one 'o', .one 'r'],
      decl := some "3-C" },
    { ending := .shaped [.one 'm', .one 'i', .one 'n'] [.one 'o', .one 'r'],
      decl := some "3-C" },
    { ending := .shaped [.span, .one 'ē', .one 's'] [], decl := some "3-1", tags := [.has .I] },
    { ending := .shaped [.span, .one 'ē', .one 's'] [], decl := some "3-1",
      tags := [.has .par] },
    { ending := .shaped [.span, .oneOf [('i', 'i'), ('j', 'j')]] [.one 'ō', .one 'r', .one 'ē', .one 's'],
      decl := some "3-C", tags := [.has .pl] },
    { ending := .shaped [.one 'm', .one 'i', .one 'n'] [.one 'ō', .one 'r', .one 'ē', .one 's'],
      decl := some "3-C", tags := [.has .pl] },
    { ending := .plain "ēs", decl := some "3-2", tags := [.has .pl, .has .I] },
    { ending := .plain "ēs", decl := some "3-1", tags := [.has .pl, .has .par],
      deriver := some .baseAsOblique },
    { ending := .plain "ia", decl := some "3-2", tags := [.has .pl, .has .I] },
    { ending := .plain "a", decl := some "3-1", tags := [.has .pl, .has .par],
      deriver := some .baseAsOblique },
    { ending := .plain "", decl := some "3-1", tags := [.has .I] },
    { ending := .plain "", decl := some "3-1", tags := [.has .par] }]

/-- Adjectives of the first declension only. -/
def adjectiveFirstFirst : EndingTable where
  decl := some "1-1"
  entries := [
    { ending := .plain "a" },
    { ending := .plain "ae", tags := [.has .pl] }]

/-- Adjectives of the second declension only. -/
def adjectiveSecondSecond : EndingTable where
  decl := some "2-2"
  entries := [
    { ending := .plain "us" },
    { ending := .plain "um" },
    { ending := .plain "ī", tags := [.has .pl] },
    { ending := .plain "a", tags := [.has .pl] },
    { ending := .plain "os", tags := [.has .greek] },
    { ending := .plain "on", tags := [.has .greek] },
    { ending := .plain "oe", tags := [.has .greek, .has .pl] }]

/-- Adjectives of one termination. -/
def adjectiveThirdOne : EndingTable where
  decl := some "3-1"
  obliqueRule := some .guess
  entries := [
    { ending := .shaped [.span, .one 'ē', .one 's'] [], tags := [.has .I] },
    { ending := .shaped [.span, .one 'ē', .one 's'] [], tags := [.has .par] },
    { ending := .plain "ēs", tags := [.has .pl, .has .I], deriver := some .baseAsOblique },
    { ending := .plain "ēs", tags := [.has .pl, .has .par], deriver := some .baseAsOblique },
    { ending := .plain "ia", tags := [.has .pl, .has .I], deriver := some .baseAsOblique },
    { ending := .plain "a", tags := [.has .pl, .has .par], deriver := some .baseAsOblique },
    { ending := .plain "", tags := [.has .I] },
    { ending := .plain "", tags := [.has .par] }]

/-- Adjectives of two terminations. -/
def adjectiveThirdTwo : EndingTable where
  decl := some "3-2"
  obliqueRule := some .guess
  entries := [
    { ending := .plain "is" },
    { ending := .plain "e" },
    { ending := .plain "ēs" },
    { ending := .plain "ēs", tags := [.has .pl] },
    { ending := .plain "ia", tags := [.has .pl] }]

/-- Comparatives. -/
def adjectiveComparative : EndingTable where
  decl := some "3-C"
  obliqueRule := some .guess
  entries := [
    { ending := .shaped [.span, .oneOf [('i', 'i'), ('j', 'j')]] [.one 'o', .one 'r'] },
    { ending := .shaped [.one 'm', .one 'i', .one 'n'] [.one 'o', .one 'r'] },
    { ending := .shaped [.span, .oneOf [('i', 'i'), ('j', 'j')]] [.one 'ō', .one 'r', .one 'ē', .one 's'],
      tags := [.has .pl] },
    { ending := .shaped [.one 'm', .one 'i', .one 'n'] [.one 'ō', .one 'r', .one 'ē', .one 's'],
      tags := [.has .pl] }]

/-- Irregular adjectives and pronouns. -/
def adjectiveIrregular : EndingTable where
  entries := [
    { ending := .shaped [.one 'd', .one 'u', .one 'o'] [], tags := [.has .pl] },
    { ending := .shaped [.one 'a', .one 'm', .one 'b', .one 'ō'] [], tags := [.has .pl] },
    { ending := .shaped [.one 'm', .one 'ī', .one 'l', .maybe 'l', .one 'i', .one 'a'] [],
      tags := [.has .N, .has .pl], deriver := some (.constant "mīlle") },
    { ending := .shaped [.one 'e', .one 'a'] [], deriver := some (.constant "is") },
    { ending := .shaped [.one 'i', .one 'd'] [], deriver := some (.constant "is") },
    { ending := .shaped [.oneOf [('e', 'e'), ('i', 'i')], .one 'ī'] [], tags := [.has .pl],
      deriver := some (.constant "is") },
    { ending := .shaped [.one 'e', .one 'a', .maybe 'e'] [], tags := [.has .pl],
      deriver := some (.constant "is") },
    { ending := .shaped [.one 'e', .one 'a', .one 'd', .one 'e', .one 'm'] [],
      deriver := some (.constant "īdem") },
    { ending := .shaped [.oneOf [('ī', 'ī'), ('i', 'i')], .one 'd', .one 'e', .one 'm'] [],
      deriver := some (.constant "īdem") },
    { ending := .shaped [.one 'ī', .one 'd', .one 'e', .one 'm'] [], tags := [.has .pl] },
    { ending := .shaped [.one 'e', .one 'a', .maybe 'e', .one 'd', .one 'e', .one 'm'] [],
      tags := [.has .pl], deriver := some (.constant "īdem") },
    { ending := .shaped [.one 'i', .oneOf [('l', 'l'), ('p', 'p'), ('s', 's')], .oneOf [('l', 'l'), ('s', 's'), ('t', 't')]] [.one 'a'],
      deriver := some (.append "e") },
    { ending := .shaped [.one 'i', .oneOf [('l', 'l'), ('s', 's')], .oneOf [('l', 'l'), ('t', 't')]] [.one 'u', .one 'd'],
      deriver := some (.append "e") },
    { ending := .shaped [.one 'i', .one 'p', .one 's', .one 'u', .one 'm'] [],
      deriver := some (.constant "ipse") },
    { ending := .shaped [.one 'i', .oneOf [('l', 'l'), ('p', 'p'), ('s', 's')], .oneOf [('l', 'l'), ('s', 's'), ('t', 't')]] [.one 'ī'],
      tags := [.has .pl], deriver := some (.append "e") },
    { ending := .shaped [.one 'i', .oneOf [('l', 'l'), ('p', 'p'), ('s', 's')], .oneOf [('l', 'l'), ('s', 's'), ('t', 't')]] [.one 'a', .maybe 'e'],
      tags := [.has .pl], deriver := some (.append "e") },
    { ending := .shaped [.one 'q', .one 'u', .one 'ī'] [] },
    { ending := .shaped [.one 'q', .one 'u', .one 'ī'] [], tags := [.has .pl] },
    { ending := .shaped [.one 'q', .one 'u', .one 'a', .one 'e'] [],
      deriver := some (.constant "quī") },
    { ending := .shaped [.one 'q', .one 'u', .one 'a', .one 'e'] [], tags := [.has .pl],
      deriver := some (.constant "quī") },
    { ending := .shaped [.one 'q', .one 'u', .one 'i', .one 'd'] [],
      deriver := some (.constant "quis") },
    { ending := .shaped [.one 'q', .one 'u', .one 'o', .one 'd'] [],
      deriver := some (.constant "quī") },
    { ending := .shaped [.one 'q', .one 'u', .one 'i', .oneOf [('c', 'c'), ('d', 'd')], .one 'q', .one 'u', .one 'i', .one 'd'] [],
      deriver := some (.constant "quisquis") },
    { ending := .shaped [.one 'q', .one 'u', .one 'ī', .one 'q', .one 'u', .one 'ī'] [],
      tags := [.has .pl], deriver := some (.constant "quisquis") },
    { ending := .shaped [.one 'q', .one 'u', .one 'a', .one 'e', .one 'q', .one 'u', .one 'a', .one 'e'] [],
      tags := [.has .pl], deriver := some (.constant "quisquis") },
    { ending := .plain "" }]

/-- Any other class: only plural lemmas need their stem worked out. -/
def adjectiveOtherClass : EndingTable where
  obliqueRule := some .guess
  entries := [
    { ending := .plain "ēs", tags := [.has .pl], deriver := some .baseAsOblique },
    { ending := .plain "ia", tags := [.has .pl], deriver := some .baseAsOblique },
    { ending := .plain "" }]

/-- The adjective tables by class. -/
def adjectiveEndings : OrderedMap String EndingTable := ⟨[
  ("1&2", adjectiveFirstSecond),
  ("3", adjectiveThird),
  ("1-1", adjectiveFirstFirst),
  ("2-2", adjectiveSecondSecond),
  ("3-1", adjectiveThirdOne),
  ("3-2", adjectiveThirdTwo),
  ("3-C", adjectiveComparative),
  ("irreg", adjectiveIrregular),
  ("default", adjectiveOtherClass)]⟩

end Declension.Latin
