import Declension.Tables

/-!
Irregular Latin adjectives and pronouns. The demonstratives ille, iste and ipse follow the first
and second declension and are not listed here.
-/
namespace Declension.Latin

def isPluralNote : String :=
  "The nom./dat./abl. plural forms regularly developed into a monosyllable  " ++
    "/iː(s)/, with later remodelling - compare the etymology of deus. This /iː/ was " ++
    "normally spelled as EI during and as II after the Republic; a disyllabic 'iī', " ++
    "spelled II, Iꟾ, apears in Silver Age poetry, while disyllabic 'eīs' is only " ++
    "post-Classical. Other spellings include EEI(S), EIEI(S), IEI(S)."

def isDativeNote : String :=
  "The dat. singular is found spelled EIEI (here represented as 'ēī') and scanned " ++
    "as two longs in Plautus, but also as a monosyllable. The latter is its normal " ++
    "scansion in Classical. Other spellings include EEI, IEI."

/-- Notes on the forms of is, which hold for idem too. -/
def isNotes : OrderedMap NoteKey String := ⟨[
  (.form (.plm .nom) 0, isPluralNote), (.form (.sgm .dat) 0, isDativeNote),
  (.form (.sgf .dat) 0, isDativeNote), (.form (.sgn .dat) 0, isDativeNote),
  (.form (.plm .dat) 0, isPluralNote), (.form (.plf .dat) 0, isPluralNote),
  (.form (.pln .dat) 0, isPluralNote), (.form (.plm .abl) 0, isPluralNote),
  (.form (.plf .abl) 0, isPluralNote), (.form (.pln .abl) 0, isPluralNote)]⟩

def duo : IrregularParadigm where
  words := ["duo"]
  title := some "numeral"
  forms := ⟨[
    (.plm .nom, ["duo"]), (.plf .nom, ["duae"]), (.pln .nom, ["duo"]), (.plm .gen, ["duōrum"]),
    (.plf .gen, ["duārum"]), (.pln .gen, ["duōrum"]), (.plm .dat, ["duōbus"]),
    (.plf .dat, ["duābus"]), (.pln .dat, ["duōbus"]), (.plm .acc, ["duōs", "duo"]),
    (.plf .acc, ["duās"]), (.pln .acc, ["duo"]), (.plm .abl, ["duōbus"]), (.plf .abl, ["duābus"]),
    (.pln .abl, ["duōbus"]), (.plm .voc, ["duo"]), (.plf .voc, ["duae"]), (.pln .voc, ["duo"])]⟩
  footnote := "Note: The genitive masculine and neuter can also be found in the contracted " ++
    "form 'duum' (also spelt 'duûm')."

def ambo : IrregularParadigm where
  words := ["ambō"]
  title := some "irregular adjective"
  forms := ⟨[
    (.plm .nom, ["ambō"]), (.plf .nom, ["ambae"]), (.pln .nom, ["ambō"]),
    (.plm .gen, ["ambōrum"]), (.plf .gen, ["ambārum"]), (.pln .gen, ["ambōrum"]),
    (.plm .dat, ["ambōbus"]), (.plf .dat, ["ambābus"]), (.pln .dat, ["ambōbus"]),
    (.plm .acc, ["ambōs", "ambō"]), (.plf .acc, ["ambās"]), (.pln .acc, ["ambō"]),
    (.plm .abl, ["ambōbus"]), (.plf .abl, ["ambābus"]), (.pln .abl, ["ambōbus"]),
    (.plm .voc, ["ambō"]), (.plf .voc, ["ambae"]), (.pln .voc, ["ambō"])]⟩

def mille : IrregularParadigm where
  words := ["mīlle"]
  title := some "semi-indeclinable numeral"
  forms := ⟨[
    (.sgm .nom, ["mīlle"]), (.plm .nom, ["mīlia", "mīllia"]), (.sgm .gen, ["mīlle"]),
    (.plm .gen, ["mīlium", "mīllium"]), (.sgm .dat, ["mīlle"]),
    (.plm .dat, ["mīlibus", "mīllibus"]), (.sgm .acc, ["mīlle"]),
    (.plm .acc, ["mīlia", "mīllia"]), (.sgm .abl, ["mīlle"]),
    (.plm .abl, ["mīlibus", "mīllibus"]), (.sgm .voc, ["mīlle"]), (.plm .voc, ["mīlia", "mīllia"])]⟩

def plus : IrregularParadigm where
  words := ["plūs"]
  title := some "irregular third-declension comparative adjective"
  forms := ⟨[
    (.sgm .nom, [""]), (.sgn .nom, ["plūs"]), (.plm .nom, ["plūrēs"]), (.pln .nom, ["plūra"]),
    (.sgm .gen, [""]), (.sgn .gen, ["plūris"]), (.plm .gen, ["plūrium"]),
    (.pln .gen, ["plūrium"]), (.sgm .dat, [""]), (.sgn .dat, [""]), (.plm .dat, ["plūribus"]),
    (.pln .dat, ["plūribus"]), (.sgm .acc, [""]), (.sgn .acc, ["plūs"]), (.plm .acc, ["plūrēs"]),
    (.pln .acc, ["plūra"]), (.sgm .abl, [""]), (.sgn .abl, ["plūre"]), (.plm .abl, ["plūribus"]),
    (.pln .abl, ["plūribus"]), (.sgm .voc, [""]), (.sgn .voc, ["plūs"]), (.plm .voc, ["plūrēs"]),
    (.pln .voc, ["plūra"])]⟩
  footnote := "Note: Singular forms take the genitive of the whole and do not function as " ++
    "adjectives."
  categories := [
    "Latin third declension \x7bpos\x7d",
    "Latin third declension \x7bpos\x7d of one termination"]

def isEa : IrregularParadigm where
  words := ["is"]
  title := some "demonstrative pronoun"
  forms := ⟨[
    (.sgm .nom, ["is"]), (.sgf .nom, ["ea"]), (.sgn .nom, ["id"]), (.plm .nom, ["ī", "iī", "eī"]),
    (.plf .nom, ["eae"]), (.pln .nom, ["ea"]), (.sgm .gen, ["eius"]), (.sgf .gen, ["eius"]),
    (.sgn .gen, ["eius"]), (.plm .gen, ["eōrum"]), (.plf .gen, ["eārum"]), (.pln .gen, ["eōrum"]),
    (.sgm .dat, ["ei", "ēī"]), (.sgf .dat, ["ei", "ēī"]), (.sgn .dat, ["ei", "ēī"]),
    (.plm .dat, ["īs", "iīs", "eīs"]), (.plf .dat, ["īs", "iīs", "eīs"]),
    (.pln .dat, ["īs", "iīs", "eīs"]), (.sgm .acc, ["eum"]), (.sgf .acc, ["eam"]),
    (.sgn .acc, ["id"]), (.plm .acc, ["eōs"]), (.plf .acc, ["eās"]), (.pln .acc, ["ea"]),
    (.sgm .abl, ["eō"]), (.sgf .abl, ["eā"]), (.sgn .abl, ["eō"]),
    (.plm .abl, ["īs", "iīs", "eīs"]), (.plf .abl, ["īs", "iīs", "eīs"]),
    (.pln .abl, ["īs", "iīs", "eīs"])]⟩
  notes := isNotes
  voc := false

def idem : IrregularParadigm where
  words := ["īdem"]
  title := some "demonstrative pronoun"
  forms := ⟨[
    (.sgm .nom, ["īdem"]), (.sgf .nom, ["eadem"]), (.sgn .nom, ["idem"]), (.plm .nom, ["īdem"]),
    (.plf .nom, ["eaedem"]), (.pln .nom, ["eadem"]), (.sgm .gen, ["eiusdem"]),
    (.sgf .gen, ["eiusdem"]), (.sgn .gen, ["eiusdem"]), (.plm .gen, ["eōrundem", "eōrumdem"]),
    (.plf .gen, ["eārundem", "eārumdem"]), (.pln .gen, ["eōrundem", "eōrumdem"]),
    (.sgm .dat, ["eidem", "ēīdem"]), (.sgf .dat, ["eidem", "ēīdem"]),
    (.sgn .dat, ["eidem", "ēīdem"]), (.plm .dat, ["īsdem", "iīsdem", "eīsdem"]),
    (.plf .dat, ["īsdem", "iīsdem", "eīsdem"]), (.pln .dat, ["īsdem", "iīsdem", "eīsdem"]),
    (.sgm .acc, ["eundem", "eumdem"]), (.sgf .acc, ["eandem", "eamdem"]), (.sgn .acc, ["idem"]),
    (.plm .acc, ["eōsdem"]), (.plf .acc, ["eāsdem"]), (.pln .acc, ["eadem"]),
    (.sgm .abl, ["eōdem"]), (.sgf .abl, ["eādem"]), (.sgn .abl, ["eōdem"]),
    (.plm .abl, ["īsdem", "iīsdem", "eīsdem"]), (.plf .abl, ["īsdem", "iīsdem", "eīsdem"]),
    (.pln .abl, ["īsdem", "iīsdem", "eīsdem"])]⟩
  notes := isNotes
  voc := false

def quis : IrregularParadigm where
  words := ["quis"]
  title := some "relative/interrogative pronoun"
  forms := ⟨[
    (.sgm .nom, ["quis"]), (.sgf .nom, ["quis", "quae"]), (.sgn .nom, ["quid"]),
    (.plm .nom, ["quī"]), (.plf .nom, ["quae"]), (.pln .nom, ["quae"]), (.sgm .gen, ["cuius"]),
    (.sgf .gen, ["cuius"]), (.sgn .gen, ["cuius"]), (.plm .gen, ["quōrum"]),
    (.plf .gen, ["quārum"]), (.pln .gen, ["quōrum"]), (.sgm .dat, ["cui"]), (.sgf .dat, ["cui"]),
    (.sgn .dat, ["cui"]), (.plm .dat, ["quibus", "quīs"]), (.plf .dat, ["quibus", "quīs"]),
    (.pln .dat, ["quibus", "quīs"]), (.sgm .acc, ["quem"]), (.sgf .acc, ["quem", "quam"]),
    (.sgn .acc, ["quid"]), (.plm .acc, ["quōs"]), (.plf .acc, ["quās"]), (.pln .acc, ["quae"]),
    (.sgm .abl, ["quō"]), (.sgf .abl, ["quō", "quā"]), (.sgn .abl, ["quō"]),
    (.plm .abl, ["quibus", "quīs"]), (.plf .abl, ["quibus", "quīs"]),
    (.pln .abl, ["quibus", "quīs"])]⟩
  voc := false

def qui : IrregularParadigm where
  words := ["quī"]
  title := some "relative/interrogative pronoun"
  forms := ⟨[
    (.sgm .nom, ["quī"]), (.sgf .nom, ["quae"]), (.sgn .nom, ["quod"]), (.plm .nom, ["quī"]),
    (.plf .nom, ["quae"]), (.pln .nom, ["quae"]), (.sgm .gen, ["cuius"]), (.sgf .gen, ["cuius"]),
    (.sgn .gen, ["cuius"]), (.plm .gen, ["quōrum"]), (.plf .gen, ["quārum"]),
    (.pln .gen, ["quōrum"]), (.sgm .dat, ["cui"]), (.sgf .dat, ["cui"]), (.sgn .dat, ["cui"]),
    (.plm .dat, ["quibus", "quīs"]), (.plf .dat, ["quibus", "quīs"]),
    (.pln .dat, ["quibus", "quīs"]), (.sgm .acc, ["quem"]), (.sgf .acc, ["quam"]),
    (.sgn .acc, ["quod"]), (.plm .acc, ["quōs"]), (.plf .acc, ["quās"]), (.pln .acc, ["quae"]),
    (.sgm .abl, ["quō"]), (.sgf .abl, ["quā"]), (.sgn .abl, ["quō"]),
    (.plm .abl, ["quibus", "quīs"]), (.plf .abl, ["quibus", "quīs"]),
    (.pln .abl, ["quibus", "quīs"])]⟩
  voc := false

def quisquis : IrregularParadigm where
  words := ["quisquis"]
  title := some "relative/interrogative pronoun"
  forms := ⟨[
    (.sgm .nom, ["quisquis"]), (.sgf .nom, ["quisquis"]), (.sgn .nom, ["quidquid", "quicquid"]),
    (.plm .nom, ["quīquī"]), (.plf .nom, ["quaequae"]), (.pln .nom, ["quaequae"]),
    (.sgm .gen, ["cuiuscuius"]), (.sgf .gen, ["cuiuscuius"]), (.sgn .gen, ["cuiuscuius"]),
    (.plm .gen, ["quōrumquōrum"]), (.plf .gen, ["quārumquārum"]), (.pln .gen, ["quōrumquōrum"]),
    (.sgm .dat, ["cuicui"]), (.sgf .dat, ["cuicui"]), (.sgn .dat, ["cuicui"]),
    (.plm .dat, ["quibusquibus", "quīsquīs"]), (.plf .dat, ["quibusquibus", "quīsquīs"]),
    (.pln .dat, ["quibusquibus", "quīsquīs"]), (.sgm .acc, ["quemquem"]),
    (.sgf .acc, ["quamquam"]), (.sgn .acc, ["quidquid", "quicquid"]), (.plm .acc, ["quōsquōs"]),
    (.plf .acc, ["quāsquās"]), (.pln .acc, ["quaequae"]), (.sgm .abl, ["quōquō"]),
    (.sgf .abl, ["quāquā"]), (.sgn .abl, ["quōquō"]), (.plm .abl, ["quibusquibus", "quīsquīs"]),
    (.plf .abl, ["quibusquibus", "quīsquīs"]), (.pln .abl, ["quibusquibus", "quīsquīs"]),
    (.sgm .voc, ["quisquis"]), (.sgf .voc, ["quisquis"]), (.sgn .voc, ["quidquid", "quicquid"]),
    (.plm .voc, ["quīquī"]), (.plf .voc, ["quaequae"]), (.pln .voc, ["quaequae"])]⟩

/-- The irregular adjectives in the order they are looked up. -/
def irregularAdjectives : List IrregularParadigm := [
  duo, ambo, mille, plus, isEa, idem, quis, qui, quisquis]

end Declension.Latin
