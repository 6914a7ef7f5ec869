import Sentential.Formula
import Sentential.Value

/-! Two ways to find the value of a formula. `Formula.eval` is the meaning of the connectives: it
takes a truth value for every letter. `Formula.evaluate` takes values for some letters only, and of
any type whose values can be read as true or false; it stops at the first letter without one. -/

namespace Sentential

/-- Types whose values stand for truth or falsehood. -/
class TruthLike (α : Type) where
  holds : α → Bool
  ofBool : Bool → α
  same : α → α → Bool

instance : TruthLike Bool where
  holds b := b
  ofBool b := b
  same a b := a == b

instance : TruthLike Value where
  holds := Value.holds
  ofBool := Value.bool
  same := Value.same

/-- Values for letters. -/
abbrev Assignment (α : Type) := List (Char × α)

/-- Why a formula has no value. -/
inductive EvalError where
  /-- There is no formula. -/
  | noFormula
  /-- A letter that the sentence lists has no value. -/
  | unassigned (letter : Char)
  /-- A letter of the formula that the sentence does not list has no value. -/
  | unlisted (letter : Char)
deriving DecidableEq, Repr

/-- What the user is told. -/
def EvalError.message : EvalError → String
  | noFormula => "No formula to evaluate"
  | unassigned c => s!"No truth value provided for proposition {c}"
  | unlisted c => s!"'{c}'"

/-- The truth value of two truth values joined by a connective. -/
def Connective.truth : Connective → Bool → Bool → Bool
  | and, a, b => a && b
  | or, a, b => a || b
  | implies, a, b => !a || b
  | iff, a, b => a == b
  | xor, a, b => a != b
  | nand, a, b => !(a && b)
  | nor, a, b => !(a || b)

/-- The value of two values joined by a connective. A conjunction and a disjunction have the value
of one of the two, and a conditional that of its right side unless the left side fails. -/
def Connective.value {α : Type} [TruthLike α] : Connective → α → α → α
  | and, a, b => if TruthLike.holds a then b else a
  | or, a, b => if TruthLike.holds a then a else b
  | implies, a, b => if TruthLike.holds a then b else TruthLike.ofBool true
  | iff, a, b => TruthLike.ofBool (TruthLike.same a b)
  | xor, a, b => TruthLike.ofBool (!TruthLike.same a b)
  | nand, a, b => TruthLike.ofBool (!(TruthLike.holds a && TruthLike.holds b))
  | nor, a, b => TruthLike.ofBool (!(TruthLike.holds a || TruthLike.holds b))

namespace Formula

/-- The truth value of the formula when each letter has the truth value that `v` gives it. -/
def eval (v : Char → Bool) : Formula → Bool
  | letter c => v c
  | not f => !f.eval v
  | binary c f g => c.truth (f.eval v) (g.eval v)

/-- The value of the formula under an assignment, from the left to the right. -/
def evaluate {α : Type} [TruthLike α] (values : Assignment α) : Formula → Except EvalError α
  | letter c =>
    match values.lookup c with
    | some a => .ok a
    | none => .error (.unlisted c)
  | not f => do
    let a ← f.evaluate values
    return TruthLike.ofBool (!TruthLike.holds a)
  | binary c f g => do
    let a ← f.evaluate values
    let b ← g.evaluate values
    return c.value a b

end Formula

end Sentential
