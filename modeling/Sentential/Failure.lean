import Sentential.Sentence

/-! Why an operation cannot be carried out at all, as opposed to an operation that declines with a
message. -/

namespace Sentential

/-- The causes. -/
inductive Failure where
  /-- A text is not a sentence. -/
  | unreadable (cause : ParseError)
  /-- A sentence has no value. -/
  | valueless (cause : EvalError)
  /-- A sentence without formula stands where its formula is taken apart. -/
  | noFormula
  /-- A value stands where a sentence is needed; the feature is what is asked of it. -/
  | notSentence (value : Value) (feature : String)
  /-- A value stands where a list is needed. -/
  | notList (value : Value)
  /-- A position lies outside of a list. -/
  | outOfRange
  /-- A rule has only a heading. -/
  | unstated (feature : String)
deriving Repr

/-- What the user is told. -/
def Failure.message : Failure → String
  | unreadable cause => cause.message
  | valueless cause => cause.message
  | noFormula => "'NoneType' object is not subscriptable"
  | notSentence value feature => s!"'{value.kind}' object has no attribute '{feature}'"
  | notList value => s!"'{value.kind}' object is not iterable"
  | outOfRange => "list index out of range"
  | unstated feature => s!"Subclasses must implement {feature}"

end Sentential
