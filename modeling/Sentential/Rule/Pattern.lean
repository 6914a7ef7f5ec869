import Sentential.Rule

/-! To what a rule can be applied. Rules for two premises take them in either order. -/

namespace Sentential.Rule

/-- A test that two premises pass in one order or the other. -/
def inEitherOrder (test : Content → Content → Except Failure Bool) (f g : Content) :
    Except Failure Bool := do
  if ← test f g then return true
  test g f

/-- The second premise is a conditional with the first as antecedent. -/
def affirms (f g : Content) : Except Failure Bool := do
  match ← g.formula? with
  | some (.binary .implies p _) => return (← f.formula) = p
  | _ => return false

/-- The first premise is a conditional and the second denies its consequent. -/
def denies (f g : Content) : Except Failure Bool := do
  match ← f.formula? with
  | some (.binary .implies _ q) =>
    match ← g.formula? with
    | some (.not r) => return r = q
    | _ => return false
  | _ => return false

/-- The first premise is a disjunction and the second denies one side of it. -/
def excludes (f g : Content) : Except Failure Bool := do
  match ← f.formula? with
  | some (.binary .or p q) =>
    match ← g.formula? with
    | some (.not r) => return r = p || r = q
    | _ => return false
  | _ => return false

/-- Both premises are conditionals whose sides pass the test. -/
def bothConditional (test : Formula → Formula → Formula → Formula → Bool) (f g : Content) :
    Except Failure Bool := do
  match ← f.formula? with
  | some (.binary .implies p q) =>
    match ← g.formula? with
    | some (.binary .implies r s) => return test p q r s
    | _ => return false
  | _ => return false

/-- One formula is the negation of the other. -/
def complementary (f g : Formula) : Bool :=
  f = .not g || g = .not f

/-- Both premises are disjunctions, and a side of one is the negation of a side of the other. -/
def clash (f g : Content) : Except Failure Bool := do
  match ← f.formula? with
  | some (.binary .or p q) =>
    match ← g.formula? with
    | some (.binary .or r s) =>
      return complementary p r || complementary p s || complementary q r || complementary q s
    | _ => return false
  | _ => return false

/-- The sides of the conditionals among the formulas. -/
def conditionals : List Formula → List (Formula × Formula)
  | [] => []
  | .binary .implies p q :: rest => (p, q) :: conditionals rest
  | _ :: rest => conditionals rest

/-- The sides of the last disjunction among the formulas. -/
def lastDisjunction? : List Formula → Option (Formula × Formula)
  | [] => none
  | .binary .or p q :: rest => some ((lastDisjunction? rest).getD (p, q))
  | _ :: rest => lastDisjunction? rest

/-- Two of the formulas are conditionals, and the last disjunction joins their antecedents. -/
def isDilemma (formulas : List Formula) : Bool :=
  match conditionals formulas, lastDisjunction? formulas with
  | [(p, _), (r, _)], some (a, b) => (a = p && b = r) || (a = r && b = p)
  | _, _ => false

/-- Whether the premise has a formula that passes the test. -/
def shaped (test : Formula → Bool) (f : Content) : Except Failure Bool := do
  match ← f.formula? with
  | some p => return test p
  | none => return false

/-- The test for a premise of De Morgan's law for the connective `c`: a negated pair, or a pair of
negations joined by the dual connective `d`. -/
def isDeMorgan (c d : Connective) : Formula → Bool
  | .not (.binary op _ _) => op = c
  | .binary op (.not _) (.not _) => op = d
  | _ => false

/-- A formula whose top connective is the given one. -/
def joinedBy (c : Connective) : Formula → Bool
  | .binary op _ _ => op = c
  | _ => false

/-- A conditional, or a disjunction with a negation on its left. -/
def isMaterial : Formula → Bool
  | .binary .implies _ _ => true
  | .binary .or (.not _) _ => true
  | _ => false

/-- A conditional with a conditional on its right or a conjunction on its left. -/
def isNested : Formula → Bool
  | .binary .implies p q => joinedBy .implies q || joinedBy .and p
  | _ => false

/-- Whether the rule can be applied to the premises. -/
def accepts : Rule → List Content → Except Failure Bool
  | modusPonens, [f, g] => inEitherOrder affirms f g
  | modusTollens, [f, g] => inEitherOrder denies f g
  | hypotheticalSyllogism, [f, g] => bothConditional (fun p q r s => q = r || s = p) f g
  | disjunctiveSyllogism, [f, g] => inEitherOrder excludes f g
  | conjunctionIntroduction, [_, _] => .ok true
  | conjunctionElimination, [f] => shaped (joinedBy .and) f
  | addition, [_] => .ok true
  | simplification, [f] => shaped (joinedBy .and) f
  | biconditionalIntroduction, [f, g] => bothConditional (fun p q r s => p = s && q = r) f g
  | biconditionalElimination, [f] => shaped (joinedBy .iff) f
  | doubleNegation, [f] => do
    let _ ← f.formula?
    return true
  | deMorganConjunction, [f] => shaped (isDeMorgan .and .or) f
  | deMorganDisjunction, [f] => shaped (isDeMorgan .or .and) f
  | transposition, [f] => shaped (joinedBy .implies) f
  | implication, [f] => return isMaterial (← f.formula)
  | exportation, [f] => shaped isNested f
  | resolution, [f, g] => clash f g
  | absorption, [f] => shaped (joinedBy .implies) f
  | constructiveDilemma, [f, g, h] => return isDilemma (← [f, g, h].mapM Content.formula)
  | _, _ => .ok false

end Sentential.Rule
