import Sentential.Proof

/-! What can be asked of a proof: the steps that a step rests on, whether the proof holds up, and
the whole of it as a text. As in the reading of formulas, no limit on nested calls is modelled: the
depth in `restsOnWithin` counts steps in a chain of references, and `restsOn` allows for every chain
that does not repeat a step. -/

namespace Sentential.Proof

/-- The steps that a step rests on, each once: those that it refers to and whatever these rest on in
turn. References are followed wherever they lead; there is no answer if that takes more than so many
steps in a row. -/
def restsOnWithin (p : Proof) : Nat → Int → Option (List Int)
  | 0, _ => none
  | depth + 1, index =>
    match p.step? index with
    | none => some []
    | some s =>
      s.references.numbers.foldlM (fun found n => do
        let further ← p.restsOnWithin depth n
        return (n :: further).foldr List.insert found) []

/-- The steps that a step rests on, in increasing order. A chain of references that does not come
back to where it was is no longer than the proof. -/
def restsOn (p : Proof) (index : Int) : List Int :=
  ((p.restsOnWithin (p.steps.length + 1) index).getD []).mergeSort

/-- What a review of a proof finds. -/
inductive Finding where
  | noConclusion
  | noPremises
  | falsePremise (index : Int)
  | incomplete
  | valid
deriving DecidableEq, Repr

/-- What the user is told. -/
def Finding.message : Finding → String
  | noConclusion => "No conclusion set"
  | noPremises => "No premises provided"
  | falsePremise index => s!"Step {index} claims to be premise but isn't"
  | incomplete => "Proof is incomplete - conclusion not reached"
  | valid => "Proof is valid"

/-- Whether a step that counts as a premise has the formula of none. -/
def isFalsePremise (p : Proof) (s : Step) : Bool :=
  s.isPremise && !p.premises.any fun q => s.content.same (.sentence q)

/-- Reviews a proof. Derived steps are taken on trust. -/
def review (p : Proof) : Finding :=
  if p.conclusion.isNone then .noConclusion
  else if p.premises.isEmpty then .noPremises
  else match p.steps.find? p.isFalsePremise with
    | some s => .falsePremise s.index
    | none => if p.isComplete then .valid else .incomplete

/-- The whole proof as a text, with or without the steps that each step refers to. -/
def shown (p : Proof) (withReferences : Bool) : String :=
  let premises := (p.steps.filter Step.isPremise).map fun s => s!"  {s.index}. {s.content.shown}"
  let goal :=
    match p.conclusion with
    | none => []
    | some s => [s!"\nConclusion to prove: {s.shown}"]
  let steps := p.steps.map fun s => "  " ++ if withReferences then s.shown else s.brief
  let verdict :=
    if p.isComplete then "✓ PROOF COMPLETE - Conclusion has been derived!"
    else "✗ PROOF INCOMPLETE - Conclusion not yet reached"
  Text.join "\n"
    (["PROOF DERIVATION", Text.ruled 50 '=', "\nPremises:"] ++ premises ++ goal ++
      ["\nProof Steps:"] ++ steps ++ ["\n" ++ Text.ruled 50 '=', verdict])

end Sentential.Proof
