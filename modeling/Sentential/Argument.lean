import Sentential.Classification

/-! Arguments: premises and a conclusion. An argument can be unfit for a proof, and it can have a
counterexample, which makes the premises true and the conclusion false. -/

namespace Sentential.Argument

/-- What a check of premises and conclusion finds. -/
inductive Finding where
  | noPremises
  | noConclusion
  | tautologicalConclusion
  | contradictoryPremises
  | fit
deriving DecidableEq, Repr

/-- Whether a proof may be tried. -/
def Finding.isValid : Finding → Bool
  | tautologicalConclusion | fit => true
  | noPremises | noConclusion | contradictoryPremises => false

/-- What the user is told. -/
def Finding.message : Finding → String
  | noPremises => "At least one premise is required"
  | noConclusion => "Conclusion is required"
  | tautologicalConclusion => "Warning: Conclusion is a tautology (always true)"
  | contradictoryPremises => "Premises are contradictory (no valid truth assignment)"
  | fit => "Valid premises and conclusion"

/-- All sentences are true under the assignment. -/
def allHold (values : Assignment Bool) (sentences : List Sentence) : Bool :=
  sentences.all fun s => s.holdsUnder values

/-- Some assignment to the letters makes all sentences true. -/
def isConsistentOver (letters : List Char) (sentences : List Sentence) : Bool :=
  (assignments letters).any fun values => allHold values sentences

/-- Weighs premises and a conclusion, by the assignments to `own` for the conclusion alone and to
`letters` for the premises. Premises that contradict each other are accepted for a conclusion that
is always true. -/
def weighOver (own letters : List Char) (premises : List Sentence) (conclusion : Sentence) :
    Finding :=
  if conclusion.isTautologyOver own then .tautologicalConclusion
  else if isConsistentOver letters premises then .fit
  else .contradictoryPremises

/-- Checks premises and conclusion. -/
def check (premises : List Sentence) (conclusion : Option Sentence) : Finding :=
  if premises.isEmpty then .noPremises
  else match conclusion with
    | none => .noConclusion
    | some goal => weighOver goal.letters (Sentence.lettersOf (premises ++ [goal])) premises goal

/-- The first assignment to the letters that makes the premises true and the conclusion false. -/
def counterexampleOver (letters : List Char) (premises : List Sentence) (conclusion : Sentence) :
    Option (Assignment Bool) :=
  (assignments letters).find? fun values =>
    allHold values premises && conclusion.failsUnder values

/-- An assignment to the letters of the argument that makes the premises true and the conclusion
false. -/
def counterexample (premises : List Sentence) (conclusion : Sentence) : Option (Assignment Bool) :=
  counterexampleOver (Sentence.lettersOf (premises ++ [conclusion])) premises conclusion

end Sentential.Argument
