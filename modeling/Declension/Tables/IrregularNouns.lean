import Declension.Tables

/-!
Irregular Latin nouns. A slot left out has no form.
-/
namespace Declension.Latin

def bos : IrregularParadigm where
  words := ["bōs"]
  forms := ⟨[
    (.sg .nom, ["bōs"]), (.sg .gen, ["bovis"]), (.sg .dat, ["bovī"]), (.sg .acc, ["bovem"]),
    (.sg .abl, ["bove"]), (.sg .voc, ["bōs"]), (.pl .nom, ["bovēs"]), (.pl .gen, ["boum"]),
    (.pl .dat, ["bōbus", "būbus"]), (.pl .acc, ["bovēs"]), (.pl .abl, ["bōbus", "būbus"]),
    (.pl .voc, ["bovēs"])]⟩

def cherub : IrregularParadigm where
  words := ["cherub"]
  title := some "mostly indeclinable"
  subtitles := [.phrase "with a distinct plural"]
  forms := ⟨[
    (.sg .nom, ["cherub"]), (.sg .gen, ["cherub"]), (.sg .dat, ["cherub"]),
    (.sg .acc, ["cherub"]), (.sg .abl, ["cherub"]), (.sg .voc, ["cherub"]),
    (.pl .nom, ["cherubim", "cherubin"]), (.pl .gen, ["cherubim", "cherubin"]),
    (.pl .dat, ["cherubim", "cherubin"]), (.pl .acc, ["cherubim", "cherubin"]),
    (.pl .abl, ["cherubim", "cherubin"]), (.pl .voc, ["cherubim", "cherubin"])]⟩

def deus : IrregularParadigm where
  words := ["deus"]
  forms := ⟨[
    (.sg .nom, ["deus"]), (.sg .gen, ["deī"]), (.sg .dat, ["deō"]), (.sg .acc, ["deum"]),
    (.sg .abl, ["deō"]), (.sg .voc, ["deus"]), (.pl .nom, ["dī", "diī", "deī"]),
    (.pl .gen, ["deōrum", "deûm", "divom"]), (.pl .dat, ["dīs", "diīs", "deīs"]),
    (.pl .acc, ["deōs"]), (.pl .abl, ["dīs", "diīs", "deīs"]), (.pl .voc, ["dī", "diī", "deī"])]⟩

def theDeus : IrregularParadigm where
  words := ["Deus"]
  forms := ⟨[
    (.sg .nom, ["Deus"]), (.sg .gen, ["Deī"]), (.sg .dat, ["Deō"]), (.sg .acc, ["Deum"]),
    (.sg .abl, ["Deō"]), (.sg .voc, ["Deus"])]⟩

def domus : IrregularParadigm where
  words := ["domus"]
  title := some "fourth/second-declension noun"
  forms := ⟨[
    (.sg .nom, ["domus"]), (.sg .gen, ["domūs", "domī"]), (.sg .dat, ["domuī", "domō", "domū"]),
    (.sg .acc, ["domum"]), (.sg .abl, ["domū", "domō"]), (.sg .voc, ["domus"]),
    (.sg .loc, ["domī"]), (.pl .nom, ["domūs"]), (.pl .gen, ["domuum", "domōrum"]),
    (.pl .dat, ["domibus"]), (.pl .acc, ["domūs", "domōs"]), (.pl .abl, ["domibus"]),
    (.pl .voc, ["domūs"]), (.pl .loc, ["domibus"])]⟩

def iesus : IrregularParadigm where
  words := ["Iēsus", "Jēsus", "Iēsūs", "Jēsūs"]
  subtitles := [.phrase "highly irregular"]
  forms := ⟨[
    (.sg .nom, ["\x7blemma\x7d"]), (.sg .gen, ["\x7binitial\x7dēsū"]),
    (.sg .dat, ["\x7binitial\x7dēsū"]), (.sg .acc, ["\x7binitial\x7dēsum"]),
    (.sg .abl, ["\x7binitial\x7dēsū"]), (.sg .voc, ["\x7binitial\x7dēsū"])]⟩

def iugerum : IrregularParadigm where
  words := ["iūgerum", "jūgerum"]
  title := some "second–third-declension hybrid noun"
  subtitles := [.phrase "neuter"]
  forms := ⟨[
    (.sg .nom, ["\x7binitial\x7dūgerum"]), (.sg .gen, ["\x7binitial\x7dūgerī"]),
    (.sg .dat, ["\x7binitial\x7dūgerō"]), (.sg .acc, ["\x7binitial\x7dūgerum"]),
    (.sg .abl, ["\x7binitial\x7dūgerō"]), (.sg .voc, ["\x7binitial\x7dūgerum"]),
    (.pl .nom, ["\x7binitial\x7dūgera"]), (.pl .gen, ["\x7binitial\x7dūgerum"]),
    (.pl .dat, ["\x7binitial\x7dūgeribus"]), (.pl .acc, ["\x7binitial\x7dūgera"]),
    (.pl .abl, ["\x7binitial\x7dūgeribus", "\x7binitial\x7dūgerīs"]),
    (.pl .voc, ["\x7binitial\x7dūgera"])]⟩
  notes := ⟨[(.form (.pl .abl) 1, "Once only, in:<br/>M. Terentius Varro, 'Res Rusticae', bk I, ch. x")]⟩

def sus : IrregularParadigm where
  words := ["sūs"]
  forms := ⟨[
    (.sg .nom, ["sūs"]), (.sg .gen, ["suis"]), (.sg .dat, ["suī"]), (.sg .acc, ["suem"]),
    (.sg .abl, ["sue"]), (.sg .voc, ["sūs"]), (.pl .nom, ["suēs"]), (.pl .gen, ["suum"]),
    (.pl .dat, ["suibus", "sūbus", "subus"]), (.pl .acc, ["suēs"]),
    (.pl .abl, ["suibus", "sūbus", "subus"]), (.pl .voc, ["suēs"])]⟩

def ethos : IrregularParadigm where
  words := ["ēthos"]
  subtitles := [.phrase "irregular", .phrase "Greek-type"]
  forms := ⟨[
    (.sg .nom, ["ēthos"]), (.sg .gen, ["ētheos"]), (.sg .acc, ["ēthos"]), (.sg .voc, ["ēthos"]),
    (.pl .nom, ["ēthea", "ēthē"]), (.pl .dat, ["ēthesi", "ēthesin"]),
    (.pl .acc, ["ēthea", "ēthē"]), (.pl .abl, ["ēthesi", "ēthesin"]),
    (.pl .voc, ["ēthea", "ēthē"])]⟩

def lexis : IrregularParadigm where
  words := ["lexis"]
  subtitles := [.phrase "irregular", .phrase "Greek-type"]
  forms := ⟨[
    (.sg .nom, ["lexis"]), (.sg .gen, ["lexeōs"]), (.pl .acc, ["lexeis"])]⟩

def athos : IrregularParadigm where
  words := ["Athōs"]
  subtitles := [.phrase "highly irregular", .phrase "Greek-type"]
  forms := ⟨[
    (.sg .nom, ["Athōs"]), (.sg .gen, ["Athō"]), (.sg .dat, ["Athō"]),
    (.sg .acc, ["Athō", "Athōn"]), (.sg .abl, ["Athō"]), (.sg .voc, ["Athōs"])]⟩

def venum : IrregularParadigm where
  words := ["vēnum"]
  title := some "fourth/second-declension noun"
  subtitles := [.phrase "defective"]
  forms := ⟨[
    (.sg .dat, ["vēnuī", "vēnō"]), (.sg .acc, ["vēnum"])]⟩

def vis : IrregularParadigm where
  words := ["vīs"]
  subtitles := [.phrase "irregular", .phrase "defective"]
  forms := ⟨[
    (.sg .nom, ["vīs"]), (.sg .gen, ["*vīs"]), (.sg .dat, ["*vī"]), (.sg .acc, ["vim"]),
    (.sg .abl, ["vī"]), (.sg .voc, ["vīs"]), (.pl .nom, ["vīrēs"]), (.pl .gen, ["vīrium"]),
    (.pl .dat, ["vīribus"]), (.pl .acc, ["vīrēs", "vīrīs"]), (.pl .abl, ["vīribus"]),
    (.pl .voc, ["vīrēs"])]⟩

/-- The irregular nouns in the order they are looked up. -/
def irregularNouns : List IrregularParadigm := [
  bos, cherub, deus, theDeus, domus, iesus, iugerum, sus, ethos, lexis, athos, venum, vis]

end Declension.Latin
