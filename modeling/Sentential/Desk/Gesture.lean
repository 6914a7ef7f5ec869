import Sentential.Desk.Choosing
import Sentential.Desk.Entering

/-! What the user does at the desk, and the desk at the start. -/

namespace Sentential.Desk

/-- The desk at the start: it has just been set to automatic work. -/
def start : Desk :=
  ({} : Desk).changeMode .automatic

/-- Presses a button. A menu's button only opens the menu. -/
def press (button : Button) (d : Desk) : Desk :=
  match button with
  | .menu _ => d
  | .add => d.addByKey .premise
  | .letter c => d.insert c.toString
  | .sign c => d.insertSign c.toString
  | .execute => d.execute
  | .tabulate => d.tabulate
  | .exportTable => d.exportTable
  | .clearAll => d.clearAll

/-- Whether there is anything behind a button. -/
def responds (d : Desk) : Button → Bool
  | .add => d.premises.isConnected
  | _ => true

/-- What the user can do. -/
inductive Gesture where
  /-- Types a text in a place. -/
  | type (slot : Slot) (text : String)
  /-- Enters what is typed in a place, by key or button. -/
  | add (slot : Slot)
  /-- Turns to a place, or to none. -/
  | turnTo (target : Option Slot)
  | press (button : Button)
  /-- Chooses an entry of a menu. -/
  | choose (action : Action)
  | chooseMode (mode : Mode)
  /-- Waits until the time of a message is over. -/
  | wait
deriving DecidableEq, Repr

/-- What a gesture does. -/
def act (d : Desk) : Gesture → Desk
  | .type slot text => d.type slot text
  | .add slot => d.addByKey slot
  | .turnTo target => d.turnTo target
  | .press button => d.press button
  | .choose action => d.choose action
  | .chooseMode mode => d.chooseMode mode
  | .wait => { d with messages := d.messages.expire }

/-- The desk after a gesture, during which the user gives the answers. -/
def respond (d : Desk) (gesture : Gesture) (answers : List Answer) : Desk :=
  (d.expecting answers).act gesture

end Sentential.Desk
