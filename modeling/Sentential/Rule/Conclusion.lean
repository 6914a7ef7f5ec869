import Sentential.Rule.Pattern

/-! What a rule derives. The conclusion is put together as a text from the written parts of the
premises, and then read as a sentence of its own. -/

namespace Sentential

/-- A side of a conjunction. -/
inductive Side where
  | left
  | right
deriving DecidableEq, Repr

/-- A direction of a biconditional. -/
inductive Direction where
  | forward
  | backward
deriving DecidableEq, Repr

/-- What is done with a double negation. -/
inductive NegationMode where
  | eliminate
  | introduce
deriving DecidableEq, Repr

/-- The choices that some rules leave open. -/
structure Choices where
  /-- The side that conjunction elimination and simplification keep. -/
  side : Side := .left
  direction : Direction := .forward
  mode : NegationMode := .eliminate
  /-- What addition joins; it is meant to be the text of a sentence. -/
  added : Value := .text "B"
deriving Repr

/-- The side that a value chooses: any other than "left" chooses the right. -/
def Side.ofValue : Value → Side
  | .text "left" => .left
  | _ => .right

/-- The direction that a value chooses: any other than "forward" goes backward. -/
def Direction.ofValue : Value → Direction
  | .text "forward" => .forward
  | _ => .backward

/-- What a value chooses to do: any other than "eliminate" introduces. -/
def NegationMode.ofValue : Value → NegationMode
  | .text "eliminate" => .eliminate
  | _ => .introduce

namespace Rule

open Formula (inParens wrap joined)

/-- The text of a formula's negation: all but a letter are put in parentheses. -/
def negated (f : Formula) : List Char :=
  '¬' :: wrap (f.head != .letter) f.print

/-- The first conclusion that two premises have in one order or the other. -/
def firstOrder (derive : Content → Content → Except Failure (Option (List Char)))
    (f g : Content) : Except Failure (Option (List Char)) := do
  match ← derive f g with
  | some text => return some text
  | none => derive g f

/-- The consequent of the second premise, if the first is its antecedent. -/
def consequentText (f g : Content) : Except Failure (Option (List Char)) := do
  match ← g.formula? with
  | some (.binary .implies p q) => return if (← f.formula) = p then some q.print else none
  | _ => return none

/-- The negated antecedent of the first premise, if the second denies its consequent. -/
def deniedText (f g : Content) : Except Failure (Option (List Char)) := do
  match ← f.formula? with
  | some (.binary .implies p q) =>
    match ← g.formula? with
    | some (.not r) => return if r = q then some (negated p) else none
    | _ => return none
  | _ => return none

/-- The side of the first premise that the second does not deny. -/
def remainingText (f g : Content) : Except Failure (Option (List Char)) := do
  match ← f.formula? with
  | some (.binary .or p q) =>
    match ← g.formula? with
    | some (.not r) =>
      return if r = p then some q.print else if r = q then some p.print else none
    | _ => return none
  | _ => return none

/-- The sides of two conditionals as a text. -/
def conditionalText (derive : Formula → Formula → Formula → Formula → List Char)
    (f g : Content) : Except Failure (Option (List Char)) := do
  match ← f.formula? with
  | some (.binary .implies p q) =>
    match ← g.formula? with
    | some (.binary .implies r s) => return some (derive p q r s)
    | _ => return none
  | _ => return none

/-- The premise's text as a side of a conjunction. -/
def conjunct (f : Content) : Except Failure (List Char) := do
  let p ← f.formula
  return wrap (joinedBy .implies p || joinedBy .iff p || joinedBy .or p || joinedBy .xor p) f.text

/-- Whether a formula has to be put in parentheses as a side of a disjunction. -/
def isLoose (f : Formula) : Bool :=
  joinedBy .implies f || joinedBy .iff f

/-- The text that addition joins: in parentheses if it is a sentence that needs them, and as it is
if it is no sentence. -/
def addedText : Value → List Char
  | .text s =>
    match Sentence.read s.toList with
    | .ok { formula := some f, .. } => wrap (isLoose f) s.toList
    | _ => s.toList
  | value => value.shown.toList

/-- What is left of two disjunctions after the first pair of complementary sides. -/
def resolvent (p q r s : Formula) : Option (List Char) :=
  if complementary p r then some (joined q.print .or s.print)
  else if complementary p s then some (joined q.print .or r.print)
  else if complementary q r then some (joined p.print .or s.print)
  else if complementary q s then some (joined p.print .or r.print)
  else none

/-- The text that a single premise's formula gives. -/
def fromFormula (derive : Formula → Option (List Char)) (f : Content) :
    Except Failure (Option (List Char)) := do
  match ← f.formula? with
  | some p => return derive p
  | none => return none

/-- The kept side of a conjunction. -/
def keptSide (side : Side) : Formula → Option (List Char)
  | .binary .and p q =>
    match side with
    | .left => some p.print
    | .right => some q.print
  | _ => none

/-- One direction of a biconditional. -/
def oneDirection (direction : Direction) : Formula → Option (List Char)
  | .binary .iff p q =>
    match direction with
    | .forward => some (joined p.print .implies q.print)
    | .backward => some (joined q.print .implies p.print)
  | _ => none

/-- De Morgan's law for the connective `c` with the dual connective `d`, in both directions. -/
def deMorganText (c d : Connective) : Formula → Option (List Char)
  | .not (.binary op p q) => if op = c then some (joined (negated p) d (negated q)) else none
  | .binary op (.not p) (.not q) =>
    if op = d then some ('¬' :: inParens (joined p.print c q.print)) else none
  | _ => none

/-- The transposed conditional; from two negated sides the negations go. -/
def transposed : Formula → Option (List Char)
  | .binary .implies (.not q) (.not p) => some (joined p.print .implies q.print)
  | .binary .implies p q => some (joined (negated q) .implies (negated p))
  | _ => none

/-- A conditional as a disjunction, or such a disjunction as a conditional. -/
def materialText : Formula → Option (List Char)
  | .binary .implies p q => some (joined (negated p) .or q.print)
  | .binary .or (.not p) q => some (joined p.print .implies q.print)
  | _ => none

/-- A nested conditional with its conditions joined, or joined conditions taken apart. -/
def exported : Formula → Option (List Char)
  | .binary .implies p (.binary .implies q r) =>
    some (joined (inParens (joined p.print .and q.print)) .implies r.print)
  | .binary .implies (.binary .and p q) r =>
    some (joined p.print .implies (inParens (joined q.print .implies r.print)))
  | _ => none

/-- A conditional with its antecedent added to the consequent, or taken out of it again. -/
def absorbed : Formula → Option (List Char)
  | .binary .implies p (.binary .and q r) =>
    if q = p then some (joined p.print .implies r.print)
    else if r = p then some (joined p.print .implies q.print)
    else none
  | .binary .implies p q =>
    some (joined p.print .implies (inParens (joined p.print .and q.print)))
  | _ => none

/-- The consequents of a dilemma, in the order of the disjunction. -/
def dilemmaText (formulas : List Formula) : Option (List Char) :=
  match conditionals formulas, lastDisjunction? formulas with
  | [(p, q), (r, s)], some (a, b) =>
    if a = p && b = r then some (joined q.print .or s.print)
    else some (joined s.print .or q.print)
  | _, _ => none

/-- The premise without its double negation, or with one. -/
def doubleNegationText (mode : NegationMode) (f : Content) :
    Except Failure (Option (List Char)) := do
  match mode with
  | .eliminate =>
    match ← f.formula? with
    | some (.not (.not p)) => return some p.print
    | _ => return none
  | .introduce =>
    let p ← f.formula
    return some ('¬' :: '¬' :: wrap (p.head != .letter) f.text)

/-- The text of what the rule derives from premises that it accepts. -/
def conclusion (choices : Choices) : Rule → List Content → Except Failure (Option (List Char))
  | modusPonens, [f, g] => firstOrder consequentText f g
  | modusTollens, [f, g] => firstOrder deniedText f g
  | hypotheticalSyllogism, [f, g] =>
    conditionalText (fun p q r s =>
      if q = r then joined p.print .implies s.print else joined r.print .implies q.print) f g
  | disjunctiveSyllogism, [f, g] => firstOrder remainingText f g
  | conjunctionIntroduction, [f, g] => do
    let left ← conjunct f
    let right ← conjunct g
    return some (joined left .and right)
  | conjunctionElimination, [f] => fromFormula (keptSide choices.side) f
  | addition, [f] => do
    let p ← f.formula
    return some (joined (wrap (isLoose p) f.text) .or (addedText choices.added))
  | simplification, [f] => fromFormula (keptSide choices.side) f
  | biconditionalIntroduction, [f, g] =>
    conditionalText (fun p q _ _ => joined p.print .iff q.print) f g
  | biconditionalElimination, [f] => fromFormula (oneDirection choices.direction) f
  | doubleNegation, [f] => doubleNegationText choices.mode f
  | deMorganConjunction, [f] => fromFormula (deMorganText .and .or) f
  | deMorganDisjunction, [f] => fromFormula (deMorganText .or .and) f
  | transposition, [f] => fromFormula transposed f
  | implication, [f] => fromFormula materialText f
  | exportation, [f] => fromFormula exported f
  | resolution, [f, g] => do
    match ← f.formula? with
    | some (.binary .or p q) =>
      match ← g.formula? with
      | some (.binary .or r s) => return resolvent p q r s
      | _ => return none
    | _ => return none
  | absorption, [f] => fromFormula absorbed f
  | constructiveDilemma, [f, g, h] => return dilemmaText (← [f, g, h].mapM Content.formula)
  | _, _ => .ok none

/-- What the rule derives from the premises: nothing if it does not accept them, or if the choices
leave nothing to derive. -/
def apply (choices : Choices) (rule : Rule) (premises : List Content) :
    Except Failure (Option Sentence) := do
  if ← rule.accepts premises then
    match ← rule.conclusion choices premises with
    | none => return none
    | some text =>
      match Sentence.read text with
      | .ok s => return some s
      | .error cause => .error (.unreadable cause)
  else return none

end Rule

end Sentential
