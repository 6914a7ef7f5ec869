import Sentential.Argument
import Sentential.Desk.Unplaced
import Sentential.Inspection
import Sentential.Main
import Sentential.Package
import Sentential.Session
import Sentential.Proofs.Grammar
import Sentential.Proofs.Scanning
import Sentential.Proofs.Printing
import Sentential.Proofs.Meaning
import Sentential.Proofs.Drafts
import Sentential.Proofs.RuleDrafts
import Sentential.Proofs.Runs
import Sentential.Proofs.Entailment
import Sentential.Proofs.CanonicalText
import Sentential.Proofs.Classification
import Sentential.Proofs.Counterexamples
import Sentential.Proofs.Soundness
import Sentential.Proofs.GuardedRules
import Sentential.Proofs.Completion
import Sentential.Proofs.Replay
import Sentential.Proofs.SearchOutcome
import Sentential.Proofs.Tabulation
import Sentential.Proofs.Numbering
import Sentential.Proofs.Exploration
import Sentential.Proofs.Agreement
import Sentential.Proofs.Verdicts
import Sentential.Proofs.Textbook
import Sentential.Proofs.StepLimit
import Sentential.Proofs.StatusTimer
import Sentential.Proofs.Dependencies
import Sentential.Proofs.Application
import Sentential.Proofs.Equivalence
import Sentential.Proofs.ProofTable
import Sentential.Proofs.Acceptance
import Sentential.Proofs.Parentheses
import Sentential.Proofs.Applicability
import Sentential.Proofs.TextTable
import Sentential.Proofs.Entries
import Sentential.Proofs.Escaping
import Sentential.Proofs.PremiseOrder
import Sentential.Proofs.ReadingProgress
import Sentential.Proofs.Joining
import Sentential.Proofs.Letters
import Sentential.Proofs.LatexNormalForm
import Sentential.Proofs.Unmatched
