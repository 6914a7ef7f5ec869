import Sentential.Desk.Menu
import Sentential.Keyed

/-! What can be attached to a desk from outside: actions for menu entries, actions to be run on a
change of mode, and buttons for proofs by hand. An attached action leaves a mark each time it is
run. -/

namespace Sentential.Desk

/-- An attached action. -/
structure Recorder where
  /-- What it says when it breaks off, if it does. -/
  raises : Option String := none
deriving DecidableEq, Repr

/-- What is behind an entry of a menu. -/
inductive Behind where
  /-- The desk's own action. -/
  | own
  | nothing
  | attached (recorder : Recorder)
deriving DecidableEq, Repr

/-- The places for actions to be run on a change of mode. -/
inductive Hook where
  | enableControls
  | enableRules
  | showMode
  | resetProof
  | disableControls
  | disableRules
  | resetSelection
deriving DecidableEq, Repr

namespace Hook

/-- All places. -/
def all : List Hook :=
  [enableControls, enableRules, showMode, resetProof, disableControls, disableRules, resetSelection]

/-- The name of the place, which the action's mark starts with. -/
def name : Hook → String
  | enableControls => "enable_manual_mode_controls"
  | enableRules => "enable_rule_buttons"
  | showMode => "show_mode_info"
  | resetProof => "reset_for_manual_mode"
  | disableControls => "disable_manual_mode_controls"
  | disableRules => "disable_rule_buttons"
  | resetSelection => "reset_manual_state"

/-- The place of a name. -/
def byName? (name : String) : Option Hook :=
  all.find? fun h => h.name = name

end Hook

/-- What is attached to a desk. -/
structure Attachments where
  /-- What is behind the menus in place of the desk's own actions. -/
  entries : List (Action × Behind) := []
  /-- A place may be taken by nothing. -/
  hooks : List (Hook × Option Recorder) := []
  /-- Whether there is a button that sends the premises to the proof. -/
  hasSendButton : Bool := false
  /-- Whether there is a button that applies the chosen rule. -/
  hasApplyButton : Bool := false
  /-- The rules that have buttons. -/
  ruleButtons : List String := []
  /-- Whether the buttons of the rules choose rules. -/
  rulesConnected : Bool := false
  /-- The marks that attached actions left. -/
  marks : List (List String) := []
deriving Repr

namespace Attachments

/-- What is behind an action of the menus. The desk has no action of its own for preferences. -/
def behind (a : Attachments) (action : Action) : Behind :=
  match a.entries.lookup action with
  | some behind => behind
  | none => if action = .preferences then .nothing else .own

/-- Puts something behind an action of the menus. -/
def setBehind (action : Action) (behind : Behind) (a : Attachments) : Attachments :=
  { a with entries := Keyed.put action behind a.entries }

/-- Attaches an action, or nothing, to a place. -/
def setHook (hook : Hook) (recorder : Option Recorder) (a : Attachments) : Attachments :=
  { a with hooks := Keyed.put hook recorder a.hooks }

/-- Puts up buttons for rules. -/
def setRuleButtons (rules : List String) (a : Attachments) : Attachments :=
  { a with ruleButtons := rules, rulesConnected := false }

/-- Leaves a mark. -/
def mark (words : List String) (a : Attachments) : Attachments :=
  { a with marks := a.marks ++ [words] }

/-- Wipes the marks out. -/
def wiped (a : Attachments) : Attachments :=
  { a with marks := [] }

end Attachments

end Sentential.Desk
