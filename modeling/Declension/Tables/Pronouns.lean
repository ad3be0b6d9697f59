import Declension.Tables

/-!
The Latin personal pronouns. An empty word means ego.
-/
namespace Declension.Latin

def pronouns : List PronounParadigm := [
  { word := "ego", aliases := [""], person := .first, num := .sg,
    forms := ⟨[("nom_sg", ["ego"]), ("acc_sg", ["mē"]), ("gen_sg", ["meī"]), ("dat_sg", ["mihi"]),
      ("abl_sg", ["mē"])]⟩ },
  { word := "nōs", person := .first, num := .pl,
    forms := ⟨[("nom_pl", ["nōs"]), ("acc_pl", ["nōs"]), ("gen_pl", ["nostrum", "nostrī"]),
      ("dat_pl", ["nōbīs"]), ("abl_pl", ["nōbīs"])]⟩ },
  { word := "tū", person := .second, num := .sg,
    forms := ⟨[("nom_sg", ["tū"]), ("acc_sg", ["tē"]), ("gen_sg", ["tuī"]),
      ("dat_sg", ["tibi", "tibī"]), ("abl_sg", ["tē"])]⟩ },
  { word := "vōs", person := .second, num := .pl,
    forms := ⟨[("nom_pl", ["vōs"]), ("acc_pl", ["vōs"]), ("gen_pl", ["vestrum", "vestrī"]),
      ("dat_pl", ["vōbīs"]), ("abl_pl", ["vōbīs"])]⟩ },
  { word := "sē", person := .third, num := .both,
    forms := ⟨[("acc_sg", ["sē", "sēsē"]), ("gen_sg", ["suī"]), ("dat_sg", ["sibi"]),
      ("abl_sg", ["sē", "sēsē"]), ("acc_pl", ["sē", "sēsē"]), ("gen_pl", ["suī"]),
      ("dat_pl", ["sibi"]), ("abl_pl", ["sē", "sēsē"])]⟩ }]

end Declension.Latin
