import Sentential.Content
import Sentential.Text.LetterCase

/-! The rules of inference, with the names that they are called by. -/

namespace Sentential

/-- What is shown of a rule. -/
structure Heading where
  name : String
  abbreviation : String
  description : String
deriving DecidableEq, Repr

namespace Heading

/-- The name with its abbreviation. -/
def label (h : Heading) : String :=
  s!"{h.name} ({h.abbreviation})"

/-- A heading alone does not say to what the rule can be applied. -/
def accepts (_ : Heading) : Except Failure Bool :=
  .error (.unstated "can_apply")

/-- A heading alone does not say what the rule derives. -/
def apply (_ : Heading) : Except Failure (Option Sentence) :=
  .error (.unstated "apply")

end Heading

/-- The rules of inference. -/
inductive Rule where
  | modusPonens
  | modusTollens
  | hypotheticalSyllogism
  | disjunctiveSyllogism
  | conjunctionIntroduction
  | conjunctionElimination
  | addition
  | simplification
  | biconditionalIntroduction
  | biconditionalElimination
  | doubleNegation
  | deMorganConjunction
  | deMorganDisjunction
  | transposition
  | implication
  | exportation
  | resolution
  | absorption
  | constructiveDilemma
deriving DecidableEq, Repr

namespace Rule

/-- All rules, in the order in which they are listed and tried. -/
def all : List Rule :=
  [modusPonens, modusTollens, hypotheticalSyllogism, disjunctiveSyllogism, conjunctionIntroduction,
   conjunctionElimination, addition, simplification, biconditionalIntroduction,
   biconditionalElimination, doubleNegation, deMorganConjunction, deMorganDisjunction,
   transposition, implication, exportation, resolution, absorption, constructiveDilemma]

/-- What is shown of the rule. -/
def heading : Rule → Heading
  | modusPonens => ⟨"Modus Ponens", "MP", "If P→Q and P are true, then Q is true"⟩
  | modusTollens => ⟨"Modus Tollens", "MT", "If P→Q and ¬Q are true, then ¬P is true"⟩
  | hypotheticalSyllogism =>
    ⟨"Hypothetical Syllogism", "HS", "If P→Q and Q→R are true, then P→R is true"⟩
  | disjunctiveSyllogism =>
    ⟨"Disjunctive Syllogism", "DS", "If P∨Q and ¬P are true, then Q is true"⟩
  | conjunctionIntroduction =>
    ⟨"Conjunction Introduction", "CI", "If P and Q are true, then P∧Q is true"⟩
  | conjunctionElimination =>
    ⟨"Conjunction Elimination", "CE", "If P∧Q is true, then P and Q are each true individually"⟩
  | addition => ⟨"Addition", "ADD", "If P is true, then P∨Q is true"⟩
  | simplification =>
    ⟨"Simplification", "SIMP", "If P∧Q is true, then P or Q is true individually"⟩
  | biconditionalIntroduction =>
    ⟨"Biconditional Introduction", "BI", "If P→Q and Q→P are true, then P↔Q is true"⟩
  | biconditionalElimination =>
    ⟨"Biconditional Elimination", "BE", "If P↔Q is true, then P→Q and Q→P are true"⟩
  | doubleNegation => ⟨"Double Negation", "DN", "If ¬¬P is true, then P is true"⟩
  | deMorganConjunction => ⟨"De Morgan's Law 1", "DML1", "¬(P∧Q) is equivalent to ¬P∨¬Q"⟩
  | deMorganDisjunction => ⟨"De Morgan's Law 2", "DML2", "¬(P∨Q) is equivalent to ¬P∧¬Q"⟩
  | transposition => ⟨"Transposition", "TRANS", "P→Q is equivalent to ¬Q→¬P"⟩
  | implication => ⟨"Implication", "IMPL", "P→Q is equivalent to ¬P∨Q"⟩
  | exportation => ⟨"Exportation", "EXP", "P→(Q→R) is equivalent to (P∧Q)→R"⟩
  | resolution => ⟨"Resolution", "RES", "If P∨Q and ¬P∨R are true, then Q∨R is true"⟩
  | absorption => ⟨"Absorption", "ABS", "If P→Q is true, then P→(P∧Q) is true"⟩
  | constructiveDilemma =>
    ⟨"Constructive Dilemma", "CD", "If P→Q, R→S and P∨R are true, then Q∨S is true"⟩

/-- The rule's name. -/
def name (rule : Rule) : String :=
  rule.heading.name

/-- The rule with the given name or abbreviation, whatever the case of its letters. -/
def byName? (text : String) : Option Rule :=
  all.find? fun rule =>
    Text.lower rule.name == Text.lower text ||
      Text.lower rule.heading.abbreviation == Text.lower text

/-- The rule with the given abbreviation, compared in upper case. -/
def byAbbreviation? (text : String) : Option Rule :=
  all.find? fun rule => Text.upper rule.heading.abbreviation == Text.upper text

/-- The rule that a text calls. -/
def called? (text : String) : Option Rule :=
  (byName? text).or (byAbbreviation? text)

end Rule

end Sentential
