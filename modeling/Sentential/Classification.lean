import Sentential.Sentence

/-! Sentences by their truth values: always true, always false, or neither; and whether two
sentences always agree. Every check goes through all assignments of truth values to a list of
letters, in whatever order the letters are listed; an assignment under which a sentence has no
value speaks against every property. -/

namespace Sentential

/-- All assignments of truth values to the letters: first those that make the first letter true. -/
def assignments : List Char → List (Assignment Bool)
  | [] => [[]]
  | c :: rest =>
    (assignments rest).map ((c, true) :: ·) ++ (assignments rest).map ((c, false) :: ·)

namespace Sentence

/-- The sentence has a value under the assignment and is true. -/
def holdsUnder (values : Assignment Bool) (s : Sentence) : Bool :=
  match s.evaluate values with
  | .ok b => b
  | .error _ => false

/-- The sentence has a value under the assignment and is false. -/
def failsUnder (values : Assignment Bool) (s : Sentence) : Bool :=
  match s.evaluate values with
  | .ok b => !b
  | .error _ => false

/-- The sentence is true under all assignments to the letters. -/
def isTautologyOver (letters : List Char) (s : Sentence) : Bool :=
  (assignments letters).all fun values => s.holdsUnder values

/-- The sentence is false under all assignments to the letters. -/
def isContradictionOver (letters : List Char) (s : Sentence) : Bool :=
  (assignments letters).all fun values => s.failsUnder values

/-- The sentence is always true. -/
def isTautology (s : Sentence) : Bool :=
  s.isTautologyOver s.letters

/-- The sentence is always false. -/
def isContradiction (s : Sentence) : Bool :=
  s.isContradictionOver s.letters

/-- The sentence is neither true under all assignments to the letters nor false under all. -/
def isContingentOver (letters : List Char) (s : Sentence) : Bool :=
  !(s.isTautologyOver letters || s.isContradictionOver letters)

/-- The sentence is neither always true nor always false. -/
def isContingent (s : Sentence) : Bool :=
  s.isContingentOver s.letters

end Sentence

/-- The kinds of sentences. -/
inductive Classification where
  | tautology
  | contradiction
  | contingent
deriving DecidableEq, Repr

/-- The name of the kind. -/
def Classification.name : Classification → String
  | tautology => "tautology"
  | contradiction => "contradiction"
  | contingent => "contingent"

namespace Sentence

/-- The kind of the sentence, by the assignments to the letters. -/
def classifyOver (letters : List Char) (s : Sentence) : Classification :=
  if s.isTautologyOver letters then .tautology
  else if s.isContradictionOver letters then .contradiction
  else .contingent

/-- The kind of the sentence. -/
def classify (s : Sentence) : Classification :=
  s.classifyOver s.letters

/-- The letters of several sentences. -/
def lettersOf (sentences : List Sentence) : List Char :=
  sentences.foldr (fun s letters => Formula.mergeLetters s.letters letters) []

/-- Two sentences have the same value under the assignment. -/
def agreeUnder (values : Assignment Bool) (s t : Sentence) : Bool :=
  match s.evaluate values, t.evaluate values with
  | .ok a, .ok b => a == b
  | _, _ => false

/-- Two sentences have the same value under all assignments to the letters. -/
def isEquivalentOver (letters : List Char) (s t : Sentence) : Bool :=
  (assignments letters).all fun values => agreeUnder values s t

/-- Two sentences always have the same value. -/
def isEquivalentTo (s t : Sentence) : Bool :=
  isEquivalentOver (lettersOf [s, t]) s t

end Sentence

end Sentential
