import Sentential.Formula
import Sentential.Text.Blank
import Sentential.Text.Capital

/-! Tokens, and how a text is divided into them. Every connective has a sign of its own and most
have a second spelling in ASCII; the two arrows are spelled with several characters. -/

namespace Sentential

/-- The smallest units of a written formula. -/
inductive Token where
  | letter (name : Char)
  | not
  | binary (connective : Connective)
  | lparen
  | rparen
deriving DecidableEq, Repr

namespace Token

/-- The kind of the token, as messages name it. -/
def kind : Token → String
  | letter _ => "PROP"
  | not => "NOT"
  | binary c => c.name
  | lparen => "LPAREN"
  | rparen => "RPAREN"

/-- The character that the token is shown as, whichever way it was spelled. -/
def symbol : Token → Char
  | letter c => c
  | not => '¬'
  | binary c => c.symbol
  | lparen => '('
  | rparen => ')'

/-- The token that a single character spells. -/
def ofChar? (c : Char) : Option Token :=
  if Text.isCapital c then some (letter c)
  else match c with
    | '∧' | '&' => some (binary .and)
    | '∨' | '|' => some (binary .or)
    | '¬' | '~' => some not
    | '→' => some (binary .implies)
    | '↔' => some (binary .iff)
    | '⊕' | '^' => some (binary .xor)
    | '↑' => some (binary .nand)
    | '↓' => some (binary .nor)
    | '(' => some lparen
    | ')' => some rparen
    | _ => none

end Token

/-- Why a text is not a sentence. -/
inductive ParseError where
  /-- The text is blank. -/
  | blankText
  /-- There are no tokens. -/
  | noTokens
  /-- No token begins with this character. -/
  | badCharacter (c : Char) (position : Nat)
  /-- The tokens end where a formula should begin. -/
  | endOfTokens
  /-- The token stands where a formula should begin. -/
  | misplaced (token : Token)
  /-- A formula in parentheses is not followed by the closing one. -/
  | unclosed
  /-- The token, counted from the first, follows a complete formula. -/
  | leftover (position : Nat) (token : Token)
deriving DecidableEq, Repr

/-- What the user is told. -/
def ParseError.message : ParseError → String
  | blankText => "Formula cannot be empty or whitespace-only"
  | noTokens => "Empty expression"
  | badCharacter c position => s!"Invalid character '{c}' at position {position}"
  | endOfTokens => "Unexpected end of expression"
  | misplaced token => s!"Unexpected token: {token.symbol}"
  | unclosed => "Missing closing parenthesis"
  | leftover position token =>
    s!"Unexpected token at position {position}: ('{token.kind}', '{token.symbol}')"

namespace Token

/-- The tokens of the rest of a text whose first character has the given position. -/
def scanFrom : Nat → List Char → Except ParseError (List Token)
  | _, [] => .ok []
  | i, '-' :: '>' :: rest => (binary .implies :: ·) <$> scanFrom (i + 2) rest
  | i, '<' :: '-' :: '>' :: rest => (binary .iff :: ·) <$> scanFrom (i + 3) rest
  | i, c :: rest =>
    if Text.isBlank c then scanFrom (i + 1) rest
    else match ofChar? c with
      | some token => (token :: ·) <$> scanFrom (i + 1) rest
      | none => .error (.badCharacter c i)

/-- The tokens of a text; blanks only separate them. -/
def scan (text : List Char) : Except ParseError (List Token) :=
  scanFrom 0 text

end Token

end Sentential
