import Sentential.Formula

/-! The written form of a formula. A part is put in parentheses where its connective binds more
loosely than the one above it, and always under a conditional or a biconditional. A part of the same
level is written bare on both sides, so a chain grouped to the right is written as one grouped to
the left. -/

namespace Sentential

/-- What stands at the top of a formula, or of something that is no formula. -/
inductive Head where
  | letter
  | not
  | binary (connective : Connective)
  | unknown
deriving DecidableEq, Repr

/-- Whether a part with the head `child` is put in parentheses under the head `parent`. -/
def Head.parenthesized (child parent : Head) : Bool :=
  match child, parent with
  | .letter, _ => false
  | .not, _ => false
  | _, .binary .implies => true
  | _, .binary .iff => true
  | .binary c, .binary p => p.level < c.level
  | .unknown, .binary _ => true
  | _, _ => false

namespace Formula

/-- The head of a formula. -/
def head : Formula → Head
  | letter _ => .letter
  | not _ => .not
  | binary c _ _ => .binary c

/-- The text in parentheses. -/
def inParens (text : List Char) : List Char :=
  '(' :: (text ++ [')'])

/-- The text, in parentheses if asked for. -/
def wrap (parens : Bool) (text : List Char) : List Char :=
  if parens then inParens text else text

/-- Two texts with a connective between them. -/
def joined (left : List Char) (c : Connective) (right : List Char) : List Char :=
  left ++ ' ' :: c.symbol :: ' ' :: right

/-- The written form of a formula. -/
def print : Formula → List Char
  | letter c => [c]
  | not f =>
    '¬' :: wrap (f.head != .letter && f.head != .not) f.print
  | binary c f g =>
    joined (wrap (f.head.parenthesized (.binary c)) f.print) c
      (wrap (g.head.parenthesized (.binary c)) g.print)

end Formula

end Sentential
