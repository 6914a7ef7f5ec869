import Sentential.Sentence

/-! Checks on a text before it is read as a sentence: which characters cannot occur in one, whether
the parentheses match, and whether the text is a sentence at all. -/

namespace Sentential.Inspection

/-- The characters that an entry may have. Letters beyond ASCII are not among them, although a
sentence may have them; the equality sign is, although no token has it. -/
def isAccepted (c : Char) : Bool :=
  ('A' ≤ c && c ≤ 'Z') || "∧&∨|¬~→-↔<⊕^↑↓>=() \t\n\r".toList.contains c

/-- The other characters of a text with their positions; `i` is that of the first. -/
def strayFrom (i : Nat) : List Char → List (Char × Nat)
  | [] => []
  | c :: rest =>
    if isAccepted c then strayFrom (i + 1) rest else (c, i) :: strayFrom (i + 1) rest

/-- The characters of a text that an entry may not have, with their positions. -/
def strayCharacters (text : List Char) : List (Char × Nat) :=
  strayFrom 0 text

/-- What a check of parentheses finds. -/
inductive Balance where
  | balanced
  /-- The closing parenthesis at this position closes nothing. -/
  | extraClose (position : Nat)
  /-- The opening parenthesis at this position is never closed. -/
  | extraOpen (position : Nat)
deriving DecidableEq, Repr

/-- What the user is told. -/
def Balance.message : Balance → String
  | balanced => "Parentheses balanced"
  | extraClose position => s!"Unmatched closing parenthesis at position {position}"
  | extraOpen position => s!"Unmatched opening parenthesis at position {position}"

/-- Checks the rest of a text; `i` is the position of its first character, and `opened` has the
positions of the parentheses open before it, the last opened first. -/
def balanceFrom (i : Nat) (opened : List Nat) : List Char → Balance
  | [] =>
    match opened.getLast? with
    | none => .balanced
    | some position => .extraOpen position
  | '(' :: rest => balanceFrom (i + 1) (i :: opened) rest
  | ')' :: rest =>
    match opened with
    | [] => .extraClose i
    | _ :: opened => balanceFrom (i + 1) opened rest
  | _ :: rest => balanceFrom (i + 1) opened rest

/-- Checks that the parentheses of a text match. The first closing parenthesis without partner is
reported, or else the first opening one. -/
def balance (text : List Char) : Balance :=
  balanceFrom 0 [] text

/-- Why a text is not well formed. -/
inductive FormError where
  | empty
  | unbalanced (balance : Balance)
  | unreadable (cause : ParseError)
deriving DecidableEq, Repr

/-- What the user is told. -/
def FormError.message : FormError → String
  | empty => "Empty expression"
  | unbalanced balance => balance.message
  | unreadable cause => s!"Parse error: {cause.message}"

/-- Checks that a text is a sentence. Parentheses are checked first. -/
def wellFormed (text : List Char) : Except FormError Unit :=
  let source := Text.trim text
  if source.isEmpty then .error .empty
  else if balance source ≠ .balanced then .error (.unbalanced (balance source))
  else match Sentence.read source with
    | .error cause => .error (.unreadable cause)
    | .ok _ => .ok ()

/-- What the user is told about a text. -/
def formReport (text : List Char) : Bool × String :=
  match wellFormed text with
  | .ok () => (true, "Well-formed formula")
  | .error cause => (false, cause.message)

end Sentential.Inspection
