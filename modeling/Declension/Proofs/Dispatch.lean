import Declension.Proofs.OrderedMap
import Declension.Record.Dispatch
import Declension.Tables.Latin
import Declension.Wikitext

/-!
# What a template is declined as

The name of a template stands among its arguments under zero, where a parameter that is itself named
zero takes its place. Main statement: `declineText_by_name`, by which a template is declined by its
own name as long as it keeps it.
-/
namespace Declension

namespace Wikitext

/-- The value that a parameter gives under a key: trimmed, if its name is written. -/
def Field.valueFor? (key : String) (f : Field) : Option String :=
  if Text.trim f.name = key then some (if f.isNamed then Text.trim f.value else f.value) else none

theorem values_arguments (key : String) (fields : List Field) :
    ((fields.map Field.argument).filter (·.1 = key)).map Prod.snd =
      fields.filterMap (Field.valueFor? key) := by
  induction fields with
  | nil => rfl
  | cons f fields ih =>
    by_cases h : Text.trim f.name = key <;> simp [Field.argument, Field.valueFor?, h, ih]

theorem Call.get?_arguments_zero (c : Call) :
    c.arguments.get? "0" =
      some ((c.fields.filterMap (Field.valueFor? "0")).getLast?.getD c.callName) := by
  rw [arguments, OrderedMap.get?_ofList_eq_getLast?, List.filter_cons_of_pos (by simp),
    List.map_cons, values_arguments, List.getLast?_cons]

/-- No parameter named zero takes the place of the name; of several the last counts. -/
def Call.KeepsName (c : Call) : Prop :=
  ∀ v ∈ (c.fields.filterMap (Field.valueFor? "0")).getLast?, v = c.callName

instance (c : Call) : Decidable c.KeepsName :=
  inferInstanceAs (Decidable (∀ v ∈ (c.fields.filterMap _).getLast?, v = c.callName))

theorem Call.keepsName_iff {c : Call} : c.KeepsName ↔ c.arguments.get? "0" = some c.callName := by
  rw [c.get?_arguments_zero, KeepsName]
  cases (c.fields.filterMap (Field.valueFor? "0")).getLast? <;> simp

end Wikitext

open Wikitext

section Dispatch
variable [Library]

theorem Arguments.read_eq_ok {text : String} {c : Call}
    (h : (Library.outerCalls (Text.unbroken text)).head? = some c) :
    Arguments.read text = .ok c.arguments := by
  obtain ⟨rest, hrest⟩ := List.head?_eq_some_iff.mp h
  rw [read, hrest]

/-- Declines a template as one of the given name. -/
def declineAs (e : Engine) (name : String) (args : Arguments) : Except Fault Declined :=
  match TemplateKind.ofName? name with
  | some kind => kind.decline e args
  | none => .error (.unknownTemplate name)

theorem declineText_eq {text : String} {args : Arguments} (h : Arguments.read text = .ok args)
    (e : Engine) : declineText e text = declineAs e (args.getD "0" "") args := by
  rw [declineText, h]
  rfl

/-- The first template that the library finds in a text has its name under zero just if it keeps it,
and is then declined by that name, whatever its parameters. -/
theorem declineText_by_name {text : String} {c : Call}
    (hc : (Library.outerCalls (Text.unbroken text)).head? = some c) (e : Engine) :
    ∃ args, Arguments.read text = .ok args ∧ (args.get? "0" = some c.callName ↔ c.KeepsName) ∧
      (c.KeepsName → declineText e text = declineAs e c.callName args) := by
  have hread := Arguments.read_eq_ok hc
  refine ⟨c.arguments, hread, c.keepsName_iff.symm, fun hkeeps => ?_⟩
  rw [declineText_eq hread, Arguments.getD, c.keepsName_iff.mp hkeeps]
  rfl

end Dispatch

/-- A noun is declined as one where the second parameter named zero gives the name back. -/
theorem declineText_by_name_of_puella :
    letI : Library := reader
    let text := "\x7b\x7bla-ndecl|0=x|puella<1>|num=sg|0= la-ndecl\x7d\x7d"
    let c : Call := ⟨text, "la-ndecl", [⟨"0", "x", true⟩, ⟨"1", "puella<1>", false⟩,
      ⟨"num", "sg", true⟩, ⟨"0", " la-ndecl", true⟩]⟩
    (Library.outerCalls (Text.unbroken text)).head? = some c ∧ c.KeepsName ∧
      ∃ args, Arguments.read text = .ok args ∧ args.get? "0" = some "la-ndecl" ∧
        declineText ⟨.latin, {}⟩ text = declineAs ⟨.latin, {}⟩ "la-ndecl" args := by
  let _ : Library := reader
  intro text c
  have hc : (Library.outerCalls (Text.unbroken text)).head? = some c := by decide +kernel
  have hkeeps : c.KeepsName := by decide +kernel
  have hname : c.callName = "la-ndecl" := by decide +kernel
  obtain ⟨args, hread, hzero, hdeclined⟩ := declineText_by_name hc ⟨.latin, {}⟩
  rw [hname] at hzero hdeclined
  exact ⟨hc, hkeeps, args, hread, hzero.mpr hkeeps, hdeclined hkeeps⟩

/-- A parameter that is named zero takes the place of the name. -/
theorem not_declineText_by_name_of_zero :
    letI : Library := reader
    let text := "\x7b\x7bla-ndecl|puella<1>|0=x\x7d\x7d"
    let c : Call := ⟨text, "la-ndecl", [⟨"1", "puella<1>", false⟩, ⟨"0", "x", true⟩]⟩
    (Library.outerCalls (Text.unbroken text)).head? = some c ∧
      declineText ⟨.latin, {}⟩ text = .error (.unknownTemplate "x") := by
  let _ : Library := reader
  intro text c
  have hc : (Library.outerCalls (Text.unbroken text)).head? = some c := by decide +kernel
  have hget : c.arguments.getD "0" "" = "x" := by decide +kernel
  have hkind : TemplateKind.ofName? "x" = none := by decide
  refine ⟨hc, ?_⟩
  rw [declineText_eq (Arguments.read_eq_ok hc), hget, declineAs, hkind]

end Declension
