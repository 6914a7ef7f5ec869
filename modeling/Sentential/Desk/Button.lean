import Sentential.Desk.Menu
import Sentential.Keyed

/-! The buttons of the desk, and a register under which they can be found and disabled. -/

namespace Sentential.Desk

/-- The buttons. -/
inductive Button where
  | menu (menu : Menu)
  /-- The button that adds a premise; the one for a conclusion has the same text and comes later. -/
  | add
  | letter (c : Char)
  /-- A connective or a parenthesis. -/
  | sign (c : Char)
  | execute
  | tabulate
  | exportTable
  | clearAll
deriving DecidableEq, Repr

namespace Button

/-- The signs that have buttons. -/
def signs : List Char :=
  ['(', ')', '¬', '∧', '∨', '⊕', '→', '↔', '↑', '↓']

/-- The button with a single character on it. -/
def ofChar? (c : Char) : Option Button :=
  if 'A' ≤ c ∧ c ≤ 'Z' then some (letter c)
  else if c ∈ signs then some (sign c)
  else none

/-- The first button with a text on it. -/
def ofText? (text : String) : Option Button :=
  match text with
  | "Options" => some (menu .options)
  | "Instructions" => some (menu .instructions)
  | "Add to list" => some add
  | "EXECUTE PROOF" => some execute
  | "Generate Truth Table" => some tabulate
  | "Export truth table to\nfile" => some exportTable
  | "CLEAR ALL" => some clearAll
  | _ =>
    match text.toList with
    | [c] => ofChar? c
    | _ => none

end Button

/-- What a button is registered as. -/
inductive Role where
  | action
  | proposition
  | connective
deriving DecidableEq, Repr

/-- The register of buttons. -/
structure Register where
  named : List ((Role × String) × Button) := []
  /-- The buttons that stand for rules and are disabled together. -/
  rules : List Button := []
  disabled : List Button := []
deriving Repr

namespace Register

/-- Registers a button under a name. -/
def add (role : Role) (name : String) (button : Button) (r : Register) : Register :=
  { r with named := Keyed.put (role, name) button r.named }

/-- Registers a button as one of a rule. -/
def addRule (button : Button) (r : Register) : Register :=
  { r with rules := r.rules ++ [button] }

/-- The button registered under a name. -/
def find? (r : Register) (role : Role) (name : String) : Option Button :=
  r.named.lookup (role, name)

/-- Whether there is a button under a name that is not disabled. -/
def isEnabled (r : Register) (role : Role) (name : String) : Bool :=
  match r.find? role name with
  | none => false
  | some button => button ∉ r.disabled

/-- Enables the buttons of rules. -/
def enableRules (r : Register) : Register :=
  { r with disabled := r.disabled.filter fun button => button ∉ r.rules }

/-- Disables the buttons of rules. -/
def disableRules (r : Register) : Register :=
  { r with disabled := r.disabled ++ r.rules }

end Register

end Sentential.Desk
