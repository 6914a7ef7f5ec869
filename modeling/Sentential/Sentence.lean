import Sentential.Formula.Evaluation
import Sentential.Formula.Parser
import Sentential.Formula.Printer

/-! Sentences: a formula together with the text that it was read from. Sentences are shown by their
text in a canonical spelling, which keeps the user's parentheses. -/

namespace Sentential

/-- A sentence. One that was read has the formula that its text writes and the letters of that
formula; a sentence can also have lost its text or its formula, or list other letters. -/
structure Sentence where
  /-- The text as entered, without blanks at its ends. -/
  source : List Char
  formula : Option Formula
  /-- The letters that the sentence is evaluated over, in increasing order. -/
  letters : List Char
deriving DecidableEq, Repr

namespace Sentence

/-- Reads a sentence. -/
def read (text : List Char) : Except ParseError Sentence :=
  let source := Text.trim text
  if source.isEmpty then .error .blankText
  else match Formula.parse source with
    | .error e => .error e
    | .ok f => .ok { source, formula := some f, letters := f.letters }

/-- The text with the signs of the connectives in place of their ASCII spellings, but for the
negation sign, which stays. The arrows are set off by spaces. -/
def spelled : List Char → List Char
  | [] => []
  | '<' :: '-' :: '>' :: rest => ' ' :: '↔' :: ' ' :: spelled rest
  | '-' :: '>' :: rest => ' ' :: '→' :: ' ' :: spelled rest
  | '&' :: rest => '∧' :: spelled rest
  | '|' :: rest => '∨' :: spelled rest
  | '^' :: rest => '⊕' :: spelled rest
  | c :: rest => c :: spelled rest

/-- The canonical spelling of a text. -/
def canonical (source : List Char) : List Char :=
  Text.squeeze (spelled source)

/-- The written form of the sentence's formula, empty if there is none. -/
def printed (s : Sentence) : List Char :=
  match s.formula with
  | some f => f.print
  | none => []

/-- The text that the sentence is shown as. -/
def text (s : Sentence) : List Char :=
  if s.source.isEmpty then s.printed else canonical s.source

/-- The text that the sentence is shown as, as a string. -/
def shown (s : Sentence) : String :=
  String.ofList s.text

/-- The sentence as a record of its text. -/
def record (s : Sentence) : String :=
  s!"Formula('{String.ofList s.source}')"

/-- Two sentences say the same if their formulas are the same, whatever their texts. -/
def sameFormula (s t : Sentence) : Bool :=
  s.formula = t.formula

/-- The parts of the sentence's formula as sentences of their own, each read from its written
form. -/
def parts (s : Sentence) : Except ParseError (List Sentence) :=
  match s.formula with
  | none => .ok []
  | some f => f.parts.mapM fun part => read part.print

/-- The value of the sentence under an assignment, which has to have a value for each letter that
the sentence lists. -/
def evaluate {α : Type} [TruthLike α] (values : Assignment α) (s : Sentence) :
    Except EvalError α :=
  match s.formula with
  | none => .error .noFormula
  | some f =>
    match s.letters.find? fun c => (values.lookup c).isNone with
    | some c => .error (.unassigned c)
    | none => f.evaluate values

end Sentence

end Sentential
