import Declension.FormSheet
import Declension.Main
import Declension.Slot.Name
import Declension.Tables.Layout
import Declension.Tables.Reader
import Declension.Proofs.Composition
import Declension.Proofs.Alternatives
import Declension.Proofs.Expansion
import Declension.Proofs.Sheet
import Declension.Proofs.Validation
import Declension.Proofs.Faults
import Declension.Proofs.WrittenRun
import Declension.Proofs.NumberMirror
import Declension.Proofs.NounCitation
import Declension.Proofs.AdjectiveCitation
import Declension.Proofs.Footnotes
import Declension.Proofs.RecordNotes
import Declension.Proofs.LinkedForms
import Declension.Proofs.Uniqueness
import Declension.Proofs.Copies
import Declension.Proofs.Lacking
import Declension.Proofs.Suppression
import Declension.Proofs.AngleBrackets
import Declension.Proofs.Ledger
import Declension.Proofs.RecordForms
import Declension.Proofs.Parentheses
import Declension.Proofs.Candidates
import Declension.Proofs.Limit
import Declension.Proofs.WrittenTemplate
import Declension.Proofs.Syncretism
import Declension.Proofs.Completeness
import Declension.Proofs.Neuter
import Declension.Proofs.ImpliedTags
import Declension.Proofs.GuessedClass
import Declension.Proofs.Hint
import Declension.Proofs.NounTitles
import Declension.Proofs.TableWalk
import Declension.Proofs.SettledTags
import Declension.Proofs.NotedForms
import Declension.Proofs.Compounds
import Declension.Proofs.RunSummaries
import Declension.Proofs.Overrides
import Declension.Proofs.AlternantTitles
import Declension.Proofs.AdjectiveOverrides
import Declension.Proofs.Columns
import Declension.Proofs.TableSections
import Declension.Proofs.LigaturePass
import Declension.Proofs.NamedSheet
