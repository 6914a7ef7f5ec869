import Sentential.Token

/-! From tokens to formulas. `readLevel n` reads a formula whose connectives outside parentheses
have at most level `n`; a chain of connectives of one level groups to the left, except that of
conditionals, which groups to the right. Each reading leaves fewer tokens than it was given, which
is why the reading of a nested formula ends. Calls may be nested to any depth, here and in every
other recursion of this library: a call stack of limited size, which would break off the reading of
formulas nested more deeply than it allows, is not modelled. -/

namespace Sentential.Formula

/-- A formula from the front of `tokens` with the tokens after it, which are fewer. -/
abbrev Reading (tokens : List Token) :=
  { result : Formula × List Token // result.2.length < tokens.length }

/-- A formula completed with tokens from the front of `tokens`, possibly none. -/
abbrev Completion (tokens : List Token) :=
  { result : Formula × List Token // result.2.length ≤ tokens.length }

mutual
/-- Reads a formula of at most the given level: a letter or a formula in parentheses at level 0,
also negations at level 1, and one more kind of chain at each level above. -/
def readLevel : (level : Nat) → (tokens : List Token) → Except ParseError (Reading tokens)
  | 0, [] => .error .endOfTokens
  | 0, .letter c :: rest => .ok ⟨(.letter c, rest), by simp⟩
  | 0, .lparen :: rest =>
    match readLevel 6 rest with
    | .error e => .error e
    | .ok ⟨(f, .rparen :: after), h⟩ => .ok ⟨(f, after), by simp at h ⊢; omega⟩
    | .ok _ => .error .unclosed
  | 0, .rparen :: _ => .error (.misplaced .rparen)
  | 0, .not :: _ => .error (.misplaced .not)
  | 0, .binary c :: _ => .error (.misplaced (.binary c))
  | 1, .not :: rest =>
    match readLevel 1 rest with
    | .error e => .error e
    | .ok ⟨(f, after), h⟩ => .ok ⟨(.not f, after), by simp at h ⊢; omega⟩
  | 1, tokens => readLevel 0 tokens
  | level + 2, tokens =>
    match readLevel (level + 1) tokens with
    | .error e => .error e
    | .ok ⟨(f, rest), h⟩ =>
      match readChain (level + 2) f rest with
      | .error e => .error e
      | .ok ⟨result, h'⟩ => .ok ⟨result, by simp at h; omega⟩
termination_by level tokens => (tokens.length, level)
decreasing_by
  · exact Prod.Lex.left _ _ (by simp)
  · exact Prod.Lex.left _ _ (by simp)
  · exact Prod.Lex.right _ (by omega)
  · exact Prod.Lex.right _ (by omega)
  · exact Prod.Lex.left _ _ h

/-- Joins to `left` what follows it by connectives of exactly the given level. -/
def readChain (level : Nat) (left : Formula) :
    (tokens : List Token) → Except ParseError (Completion tokens)
  | [] => .ok ⟨(left, []), by simp⟩
  | .binary c :: rest =>
    if c.level = level then
      if c = .implies then
        match readLevel level rest with
        | .error e => .error e
        | .ok ⟨(right, after), h⟩ => .ok ⟨(.binary c left right, after), by simp at h ⊢; omega⟩
      else
        match readLevel (level - 1) rest with
        | .error e => .error e
        | .ok ⟨(right, after), h⟩ =>
          match readChain level (.binary c left right) after with
          | .error e => .error e
          | .ok ⟨result, h'⟩ => .ok ⟨result, by simp at h ⊢; omega⟩
    else .ok ⟨(left, .binary c :: rest), by simp⟩
  | token :: rest => .ok ⟨(left, token :: rest), by simp⟩
termination_by tokens => (tokens.length, level)
decreasing_by
  · exact Prod.Lex.left _ _ (by simp)
  · exact Prod.Lex.left _ _ (by simp)
  · exact Prod.Lex.left _ _ (Nat.lt_succ_of_lt h)
end

/-- The formula that a list of tokens writes. -/
def ofTokens (tokens : List Token) : Except ParseError Formula :=
  if tokens.isEmpty then .error .noTokens
  else match readLevel 6 tokens with
    | .error e => .error e
    | .ok ⟨(f, []), _⟩ => .ok f
    | .ok ⟨(_, token :: rest), _⟩ =>
      .error (.leftover (tokens.length - (rest.length + 1)) token)

/-- The formula that a text writes. -/
def parse (text : List Char) : Except ParseError Formula :=
  match Token.scan text with
  | .error e => .error e
  | .ok tokens => ofTokens tokens

end Sentential.Formula
