import Sentential.Proof

/-! The search for a proof. In each round every rule is tried on all steps, pairs of steps or
triples of steps; what is derived joins the steps at once and is met again by the pairs and triples
still to come. The limit on the number of steps is looked at between rounds only. -/

namespace Sentential.Proof

/-- Why a round ends early. -/
inductive Halt where
  /-- The rule derived the conclusion. -/
  | reached (rule : Rule)
  | failed (cause : Failure)
deriving Repr

/-- A round under way: the proof so far and the number of steps that the round has added. -/
structure Walk where
  proof : Proof
  added : Nat := 0
  halt : Option Halt := none
deriving Repr

namespace Walk

/-- Tries a rule on steps, and tells whether it derived something. -/
def attempt (w : Walk) (choices : Choices) (rule : Rule) (indices : List Int) : Walk × Bool :=
  match w.halt with
  | some _ => (w, false)
  | none =>
    match w.proof.apply choices rule indices with
    | .derived _ p =>
      ({ proof := p, added := w.added + 1,
         halt := if p.isComplete then some (.reached rule) else none }, true)
    | .refused _ => (w, false)
    | .failed cause => ({ w with halt := some (.failed cause) }, false)

/-- Tries a rule on orders of steps until one derives something. -/
def attemptOrders (rule : Rule) : List (List Int) → Walk → Walk
  | [], w => w
  | indices :: rest, w =>
    match w.attempt {} rule indices with
    | (w, true) => w
    | (w, false) => attemptOrders rule rest w

/-- Tries a rule on each step that there was at the start, with each of the choices. -/
def overSteps (rule : Rule) (choices : List Choices) (w : Walk) : Walk :=
  w.proof.steps.foldl
    (fun w s => choices.foldl (fun w c => (w.attempt c rule [s.index]).1) w) w

/-- Tries a rule on a step, the one at position `i`, with each step after it. -/
def overPairsWith (rule : Rule) (first : Step) (i : Nat) (w : Walk) : Walk :=
  (w.proof.steps.drop (i + 1)).foldl
    (fun w second =>
      attemptOrders rule [[first.index, second.index], [second.index, first.index]] w) w

/-- Tries a rule on all pairs whose first step was there at the start. -/
def overPairs (rule : Rule) (w : Walk) : Walk :=
  w.proof.steps.zipIdx.foldl (fun w (first, i) => overPairsWith rule first i w) w

/-- Tries a rule on two steps, the second at position `j`, with each step after them. -/
def overTriplesWith (rule : Rule) (first second : Step) (j : Nat) (w : Walk) : Walk :=
  (w.proof.steps.drop (j + 1)).foldl
    (fun w third =>
      attemptOrders rule
        [[first.index, second.index, third.index], [first.index, third.index, second.index],
         [second.index, third.index, first.index]] w) w

/-- Tries a rule on all triples whose first step was there at the start. -/
def overTriples (rule : Rule) (w : Walk) : Walk :=
  w.proof.steps.zipIdx.foldl
    (fun w (first, i) =>
      ((w.proof.steps.drop (i + 1)).zipIdx (i + 1)).foldl
        (fun w (second, j) => overTriplesWith rule first second j w) w) w

/-- Tries a rule in all the ways that the search knows. Addition is never tried. -/
def tryRule (w : Walk) (rule : Rule) : Walk :=
  match rule with
  | .addition => w
  | .doubleNegation => overSteps rule [{ mode := .eliminate }] w
  | .modusPonens | .modusTollens | .hypotheticalSyllogism | .disjunctiveSyllogism
  | .conjunctionIntroduction | .biconditionalIntroduction | .resolution => overPairs rule w
  | .constructiveDilemma => overTriples rule w
  | .conjunctionElimination | .simplification =>
    overSteps rule [{ side := .left }, { side := .right }] w
  | .biconditionalElimination =>
    overSteps rule [{ direction := .forward }, { direction := .backward }] w
  | .deMorganConjunction | .deMorganDisjunction | .transposition | .implication | .exportation
  | .absorption => overSteps rule [{}] w

end Walk

/-- A round: every rule in turn. -/
def round (p : Proof) : Walk :=
  Rule.all.foldl Walk.tryRule { proof := p }

/-- How a search ends. -/
inductive SearchResult where
  | noConclusion
  | noPremises
  | alreadyComplete
  /-- The rule derived the conclusion. -/
  | reached (rule : Rule)
  | complete
  | exhausted
deriving DecidableEq, Repr

namespace SearchResult

/-- Whether the conclusion is reached. -/
def success : SearchResult → Bool
  | alreadyComplete | reached _ | complete => true
  | noConclusion | noPremises | exhausted => false

/-- What the user is told. -/
def message : SearchResult → String
  | noConclusion => "No conclusion set"
  | noPremises => "No premises provided"
  | alreadyComplete => "Proof already complete"
  | reached rule => s!"Proof complete! Used {rule.name}"
  | complete => "Proof complete!"
  | exhausted => "Could not complete proof within the step limit."

end SearchResult

/-- The result of a search that has come to its end. -/
def settled (p : Proof) : SearchResult :=
  if p.isComplete then .complete else .exhausted

/-- Repeats a kind of round until the conclusion is reached, a round adds nothing, or the number of
steps added has come to the limit. A round that is followed by another has added a step, so the
limit also bounds the number of rounds. -/
def repeatRounds (round : Proof → Walk) (limit : Int) (added : Nat) (p : Proof) :
    Proof × Except Failure SearchResult :=
  if (added : Int) < limit ∧ p.isComplete = false then
    match round p with
    | { proof, halt := some (.reached rule), .. } => (proof, .ok (.reached rule))
    | { proof, halt := some (.failed cause), .. } => (proof, .error cause)
    | { proof, added := 0, halt := none } => (proof, .ok proof.settled)
    | { proof, added := more + 1, halt := none } =>
      repeatRounds round limit (added + (more + 1)) proof
  else (p, .ok p.settled)
termination_by (limit - added).toNat
decreasing_by omega

/-- Searches for a proof of the conclusion. -/
def search (limit : Int) (p : Proof) : Proof × Except Failure SearchResult :=
  if p.conclusion.isNone then (p, .ok .noConclusion)
  else if p.premises.isEmpty then (p, .ok .noPremises)
  else if p.isComplete then (p, .ok .alreadyComplete)
  else repeatRounds round limit 0 p

/-- The limit when none is given. -/
def defaultLimit : Int := 50

end Sentential.Proof
