import Sentential.Desk
import Sentential.Proof.Search

/-! Working on the proof: searching for one, applying a rule by hand, and showing the steps. -/

namespace Sentential.Desk

/-- Shows the proof on its pane. If a step cannot be shown, neither are those after it, nor a
verdict. -/
def showProof (d : Desk) : Desk × Except Failure Unit :=
  match d.proofPane.clear.addSteps d.session.proof.steps with
  | (pane, .error cause) => ({ d with proofPane := pane }, .error cause)
  | (pane, .ok ()) =>
    let pane :=
      if d.session.proof.isComplete then pane.setResult "Conclusion is VALID" "green"
      else pane.setResult "Proof incomplete" "gray"
    ({ d with proofPane := pane }, .ok ())

/-- Searches for a proof and shows the one that is found. Tells whether there is one to show, and
what the user is told. -/
def prove (d : Desk) : Desk × Bool × String :=
  match d.session.proof.search Proof.defaultLimit with
  | (proof, .error cause) => (d.withProof proof, false, cause.message)
  | (proof, .ok result) =>
    if result.success then
      match (d.withProof proof).showProof with
      | (d, .error cause) => (d, false, cause.message)
      | (d, .ok ()) => (d, true, result.message)
    else (d.withProof proof, false, result.message)

/-- Searches for a proof, or only shows what there is, as the mode demands. -/
def execute (d : Desk) : Desk :=
  if d.session.proof.premises.isEmpty then d.showError "proof" "No premises provided"
  else if d.session.proof.conclusion.isNone then d.showError "proof" "No conclusion set"
  else if d.mode = .automatic then
    match d.prove with
    | (d, true, _) =>
      let d := d.showInfo "Proof complete!"
      { d with proofPane := d.proofPane.setResult "Conclusion is VALID" "green" }
    | (d, false, message) =>
      let d := d.showError "proof" message
      { d with proofPane := d.proofPane.setResult "Conclusion is FALSE" "red" }
  else
    match d.showProof with
    | (d, .error cause) => d.showError "execution" cause.message
    | (d, .ok ()) => d.showInfo "Manual mode: Select steps and apply rules"

/-- Applies a rule by hand, and shows the proof if that derived a step. -/
def applyRule (name : String) (selected : References) (d : Desk) :
    Desk × Except Failure (Bool × String) :=
  match d.session.proof.applyCalled {} name selected with
  | .failed cause => (d, .error cause)
  | .refused cause => (d, .ok (false, cause.message))
  | .derived rule proof =>
    match (d.withProof proof).showProof with
    | (d, .error cause) => (d, .error cause)
    | (d, .ok ()) => (d, .ok (true, Proof.ruleApplied rule))

/-- Clears the proof and its pane. -/
def clearProof (d : Desk) : Desk :=
  { d.withProof .empty with proofPane := d.proofPane.clear }

/-- What a summary of a proof says. -/
structure Summary where
  steps : Nat
  premises : Nat
  isComplete : Bool
  conclusion : Option String
deriving DecidableEq, Repr

/-- The summary of the proof. -/
def summary (d : Desk) : Summary :=
  let p := d.session.proof
  { steps := p.steps.length
    premises := (p.steps.filter Step.isPremise).length
    isComplete := p.isComplete
    conclusion := p.conclusion.map Sentence.shown }

end Sentential.Desk
