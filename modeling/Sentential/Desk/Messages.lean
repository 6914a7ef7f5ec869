import Sentential.Desk.Fault
import Sentential.Desk.StatusLine

/-! Messages to the user: the status line, a record of the messages, and a timer that clears the
line. The status line can also be written without them, and then neither the record nor the timer
knows of it. -/

namespace Sentential.Desk

/-- The kinds of messages. -/
inductive Severity where
  | error
  | warning
  | info
deriving DecidableEq, Repr

/-- The name of the kind. -/
def Severity.name : Severity → String
  | error => "error"
  | warning => "warning"
  | info => "info"

/-- A message on record. -/
structure Notice where
  severity : Severity
  text : String
deriving DecidableEq, Repr

/-- The messages of the desk. -/
structure Messages where
  status : StatusLine := {}
  history : List Notice := []
  /-- After how many seconds the line is cleared, if it is going to be. -/
  timer : Option Nat := none
deriving Repr

namespace Messages

/-- How many messages are kept on record. -/
def capacity : Nat := 100

/-- Puts a message on record. The oldest one goes when there is no room. -/
def record (notice : Notice) (m : Messages) : Messages :=
  let history := m.history ++ [notice]
  { m with history := if capacity < history.length then history.drop 1 else history }

/-- Stops the timer. -/
def stopTimer (m : Messages) : Messages :=
  { m with timer := none }

/-- Tells of an error. The line shows what kind of error it is and files that under the text; it
stays until something else is shown. -/
def showError (kind text : String) (m : Messages) : Messages :=
  let m := m.stopTimer.record ⟨.error, s!"{kind}: {text}"⟩
  { m with status := m.status.showError (some text) kind }

/-- Tells of a warning: it comes on record, but never on the line. -/
def showWarning (kind text : String) (m : Messages) : Messages × Fault :=
  (m.stopTimer.record ⟨.warning, s!"{kind}: {text}"⟩, .topicalWarning)

/-- How long a message is shown, in seconds. -/
def infoTime : Nat := 3

/-- Shows a message for some time. -/
def showInfo (text : String) (m : Messages) : Messages :=
  let m := m.stopTimer.record ⟨.info, text⟩
  { m with status := m.status.showInfo text, timer := some infoTime }

/-- Clears the line. -/
def clear (m : Messages) : Messages :=
  { m with status := m.status.clearAll, timer := none }

/-- What the timer does when its time has come. -/
def expire (m : Messages) : Messages :=
  match m.timer with
  | none => m
  | some _ => m.clear

/-- Clears the record. -/
def clearHistory (m : Messages) : Messages :=
  { m with history := [] }

end Messages

end Sentential.Desk
