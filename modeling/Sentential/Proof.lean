import Sentential.Rule.Conclusion
import Sentential.Text.Layout

/-! Proofs: premises, a conclusion to reach, and numbered steps. A proof starts with the premises as
its first steps; every other step names the rule that derived it and the steps it was derived
from. -/

namespace Sentential

/-- Why a step stands in a proof. -/
inductive Justification where
  | premise
  | rule (rule : Rule)
  /-- Whatever else was stated for a step. -/
  | stated (text : String)
deriving DecidableEq, Repr

namespace Justification

/-- The justification as shown. -/
def text : Justification → String
  | premise => "Premise"
  | rule r => r.name
  | stated text => text

/-- The justification that a text states. -/
def ofText (text : String) : Justification :=
  if text = "Premise" then premise else stated text

end Justification

/-- The steps that a step refers to. -/
inductive References where
  | steps (numbers : List Int)
  /-- A value that is no list. -/
  | stray (value : Value)
deriving Repr

/-- The numbers of the steps referred to; there are none in a value that is no list. -/
def References.numbers : References → List Int
  | steps numbers => numbers
  | stray _ => []

/-- Numbers in a row, as shown. -/
def listedNumbers (numbers : List Int) : String :=
  Text.join ", " (numbers.map fun n => toString n)

/-- A step of a proof. -/
structure Step where
  index : Int
  content : Content
  justification : Justification
  references : References := .steps []
deriving Repr

namespace Step

/-- The justification with the steps referred to. -/
def reason (s : Step) : String :=
  match s.references.numbers with
  | [] => s.justification.text
  | numbers => s!"{s.justification.text} [{listedNumbers numbers}]"

/-- The step as shown. -/
def shown (s : Step) : String :=
  s!"{s.index}. {s.content.shown} ({s.reason})"

/-- The step as shown without the steps it refers to. -/
def brief (s : Step) : String :=
  s!"{s.index}. {s.content.shown} ({s.justification.text})"

/-- The step as a record of its parts. -/
def record (s : Step) : String :=
  s!"ProofStep({s.index}, '{s.content.shown}', '{s.justification.text}')"

/-- Whether the step is a premise. -/
def isPremise (s : Step) : Bool :=
  s.justification = .premise

end Step

/-- A proof. -/
structure Proof where
  premises : List Sentence := []
  steps : List Step := []
  conclusion : Option Sentence := none
  /-- The number of the next step. -/
  next : Int := 1
  /-- Whether the conclusion was found among the steps when it was last looked for. -/
  isComplete : Bool := false
deriving Repr

/-- Why a proof declines a change. -/
inductive Refusal where
  | notSentence
  | duplicatePremise
  | unknownRule (name : String)
  | unselectable (cause : Failure)
  | missingStep (index : Int)
  | inapplicable (rule : Rule)
  | nothingDerived
  | misapplied (cause : Failure)
  | alreadyDerived
deriving Repr

/-- What the user is told. -/
def Refusal.message : Refusal → String
  | notSentence => "Invalid formula object"
  | duplicatePremise => "Premise already exists"
  | unknownRule name => s!"Unknown rule: {name}"
  | unselectable cause => s!"Error getting formulas: {cause.message}"
  | missingStep index => s!"Step {index} not found"
  | inapplicable rule => s!"Rule {rule.name} cannot be applied to selected steps"
  | nothingDerived => "Rule application failed"
  | misapplied cause => s!"Error applying rule: {cause.message}"
  | alreadyDerived => "This formula already exists in the proof"

namespace Proof

/-- A proof with nothing in it. -/
def empty : Proof := {}

/-- Whether a step has the given text. -/
def hasText (p : Proof) (text : List Char) : Bool :=
  p.steps.any fun s => s.content.text = text

/-- The proof after looking for the conclusion among the steps, by its text. -/
def refreshed (p : Proof) : Proof :=
  match p.conclusion with
  | none => p
  | some goal => { p with isComplete := p.hasText goal.text }

/-- The proof with one more step. -/
def addStep (p : Proof) (content : Content) (justification : Justification)
    (references : List Int) : Proof :=
  { p with
    steps := p.steps ++ [⟨p.next, content, justification, .steps references⟩]
    next := p.next + 1 }

/-- Adds a premise, unless one with the same text is there. The conclusion is not looked for. -/
def addPremise (p : Proof) : Content → Except Refusal Proof
  | .other _ => .error .notSentence
  | .sentence s =>
    if p.premises.any fun q => q.text = s.text then .error .duplicatePremise
    else .ok { p.addStep (.sentence s) .premise [] with premises := p.premises ++ [s] }

/-- What the user is told about an added premise. -/
def premiseAdded : String := "Premise added successfully"

/-- Sets the conclusion and looks for it. -/
def setConclusion (p : Proof) : Content → Except Refusal Proof
  | .other _ => .error .notSentence
  | .sentence s => .ok { p with conclusion := some s }.refreshed

/-- What the user is told about the conclusion. -/
def conclusionSet : String := "Conclusion set successfully"

/-- The first step with the given number. -/
def step? (p : Proof) (index : Int) : Option Step :=
  p.steps.find? fun s => s.index = index

/-- The contents of the steps with the given numbers. -/
def contents (p : Proof) : List Int → Except Refusal (List Content)
  | [] => .ok []
  | index :: rest =>
    match p.step? index with
    | none => .error (.missingStep index)
    | some s =>
      match p.contents rest with
      | .error cause => .error cause
      | .ok contents => .ok (s.content :: contents)

end Proof

/-- What comes of applying a rule. -/
inductive Derivation where
  /-- The rule has added a step to the proof. -/
  | derived (rule : Rule) (proof : Proof)
  | refused (cause : Refusal)
  /-- The rule could not even be tested. -/
  | failed (cause : Failure)
deriving Repr

namespace Proof

/-- Applies a rule to steps. A sentence with the text of a step is not derived again. -/
def apply (p : Proof) (choices : Choices) (rule : Rule) (indices : List Int) : Derivation :=
  match p.contents indices with
  | .error cause => .refused cause
  | .ok contents =>
    match rule.accepts contents with
    | .error cause => .failed cause
    | .ok false => .refused (.inapplicable rule)
    | .ok true =>
      match rule.apply choices contents with
      | .error cause => .refused (.misapplied cause)
      | .ok none => .refused .nothingDerived
      | .ok (some s) =>
        if p.hasText s.text then .refused .alreadyDerived
        else .derived rule (p.addStep (.sentence s) (.rule rule) indices).refreshed

/-- What the user is told about a derived step. -/
def ruleApplied (rule : Rule) : String :=
  s!"Applied {rule.name} successfully"

/-- Applies the rule that a text calls to what was selected. -/
def applyCalled (p : Proof) (choices : Choices) (name : String) (selected : References) :
    Derivation :=
  match Rule.called? name with
  | none => .refused (.unknownRule name)
  | some rule =>
    match selected with
    | .stray value => .refused (.unselectable (.notList value))
    | .steps indices => p.apply choices rule indices

end Proof

end Sentential
