import Sentential.Failure

/-! What a line of a proof or a column of a table may hold: a sentence, as a rule, but any other
value may have been put there. -/

namespace Sentential

/-- A sentence or another value. -/
inductive Content where
  | sentence (s : Sentence)
  | other (value : Value)
deriving Repr

namespace Content

/-- The formula, if the sentence has one; another value is asked for one in vain. -/
def formula? : Content → Except Failure (Option Formula)
  | sentence s => .ok s.formula
  | other value => .error (.notSentence value "ast")

/-- The formula, where one is needed. -/
def formula : Content → Except Failure Formula
  | sentence s =>
    match s.formula with
    | some f => .ok f
    | none => .error .noFormula
  | other value => .error (.notSentence value "ast")

/-- The sentence, where its letters are needed. -/
def withLetters : Content → Except Failure Sentence
  | sentence s => .ok s
  | other value => .error (.notSentence value "get_atomic_propositions")

/-- The sentence, where its value is needed. -/
def withValue : Content → Except Failure Sentence
  | sentence s => .ok s
  | other value => .error (.notSentence value "evaluate")

/-- The text that the content is shown as. -/
def text : Content → List Char
  | sentence s => s.text
  | other value => value.shown.toList

/-- The text that the content is shown as, as a string. -/
def shown (c : Content) : String :=
  String.ofList c.text

/-- Sentences are the same if their formulas are; a sentence is no other value. -/
def same : Content → Content → Bool
  | sentence s, sentence t => s.sameFormula t
  | other v, other w => v.same w
  | _, _ => false

end Content

end Sentential
