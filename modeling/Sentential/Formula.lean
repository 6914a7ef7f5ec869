/-! Formulas of propositional logic: letters, negation and seven binary connectives. -/

namespace Sentential

/-- The binary connectives. -/
inductive Connective where
  | and
  | or
  | implies
  | iff
  | xor
  | nand
  | nor
deriving DecidableEq, Repr

namespace Connective

/-- The sign that a formula is written with. -/
def symbol : Connective → Char
  | and => '∧'
  | or => '∨'
  | implies => '→'
  | iff => '↔'
  | xor => '⊕'
  | nand => '↑'
  | nor => '↓'

/-- The name of the connective in messages and in the outline of a formula. -/
def name : Connective → String
  | and => "AND"
  | or => "OR"
  | implies => "IMPLIES"
  | iff => "IFF"
  | xor => "XOR"
  | nand => "NAND"
  | nor => "NOR"

/-- How loosely the connective binds. Levels 0 and 1 belong to letters with parentheses and to
negation; a connective of a lower level is grouped before one of a higher level. -/
def level : Connective → Nat
  | and | nand => 2
  | xor => 3
  | or | nor => 4
  | implies => 5
  | iff => 6

end Connective

/-- A formula. -/
inductive Formula where
  | letter (name : Char)
  | not (operand : Formula)
  | binary (connective : Connective) (left right : Formula)
deriving DecidableEq, Repr

namespace Formula

/-- Inserts a letter into an increasing list of letters, once. -/
def insertLetter (c : Char) : List Char → List Char
  | [] => [c]
  | d :: rest =>
    if c < d then c :: d :: rest
    else if c = d then d :: rest
    else d :: insertLetter c rest

/-- The letters of two increasing lists, as one increasing list. -/
def mergeLetters (xs ys : List Char) : List Char :=
  xs.foldr insertLetter ys

/-- The letters that occur in the formula, each once, in increasing order. -/
def letters : Formula → List Char
  | letter c => [c]
  | not f => f.letters
  | binary _ f g => mergeLetters f.letters g.letters

/-- The formula and all its parts, each before its own parts and the left part before the right. -/
def parts : Formula → List Formula
  | letter c => [letter c]
  | not f => not f :: f.parts
  | binary c f g => binary c f g :: (f.parts ++ g.parts)

/-- The outline of the formula: its connectives' names and its letters, each connective before what
it joins. -/
def outline : Formula → List String
  | letter c => [c.toString]
  | not f => "NOT" :: f.outline
  | binary c f g => c.name :: (f.outline ++ g.outline)

end Formula

end Sentential
