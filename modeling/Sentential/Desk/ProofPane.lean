import Sentential.Desk.Label
import Sentential.Proof

/-! The pane that shows the steps of a proof and the verdict on it. -/

namespace Sentential

/-- The references as they are listed. The characters of a text and the items of a list are listed
like numbers; no other value can be. -/
def References.listed : References → Except Failure (List String)
  | steps numbers => .ok (numbers.map fun n => toString n)
  | stray (.text s) => .ok (s.toList.map fun c => c.toString)
  | stray (.list items) => .ok (items.map Value.shown)
  | stray value => .error (.notList value)

namespace Desk

/-- The pane. -/
structure ProofPane where
  lines : List String := []
  result : Label := ⟨"Conclusion is VALID / FALSE", "gray"⟩
deriving Repr

namespace ProofPane

/-- The text on the pane. -/
def text (p : ProofPane) : String :=
  Text.lines p.lines

/-- Adds a line. -/
def addLine (number formula justification : String) (references : List String) (p : ProofPane) :
    ProofPane :=
  let listed := Text.join ", " references
  let reason := if references.isEmpty then justification else s!"{justification} [{listed}]"
  { p with lines := p.lines ++ [s!"{number}. {formula} ({reason})"] }

/-- Adds a step. -/
def addStep (s : Step) (p : ProofPane) : Except Failure ProofPane :=
  match s.references.listed with
  | .error cause => .error cause
  | .ok references =>
    .ok (p.addLine (toString s.index) s.content.shown s.justification.text references)

/-- Adds steps, up to the first one that cannot be shown. -/
def addSteps : List Step → ProofPane → ProofPane × Except Failure Unit
  | [], p => (p, .ok ())
  | s :: rest, p =>
    match p.addStep s with
    | .error cause => (p, .error cause)
    | .ok p => addSteps rest p

/-- The colour of a verdict when none is given. -/
def usualColour : String := "green"

/-- Sets the verdict. -/
def setResult (text colour : String) (p : ProofPane) : ProofPane :=
  { p with result := ⟨text, colour⟩ }

/-- Takes everything off the pane. -/
def clear (_ : ProofPane) : ProofPane :=
  { lines := [], result := ⟨"", "gray"⟩ }

end ProofPane

end Desk

end Sentential
