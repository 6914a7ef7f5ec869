import Sentential.Desk.Label
import Sentential.Keyed

/-! The line at the bottom of the desk: one message, a warning sign, and a window with details for
long messages. It also files the errors that were shown, by topic. -/

namespace Sentential.Desk

/-- The status line. -/
structure StatusLine where
  label : Label := { text := "Ready" }
  /-- Whether the warning sign is shown. -/
  hasSign : Bool := false
  /-- The errors on file, by topic; an error may have none. -/
  errors : List (Option String × String) := []
  /-- Whether the window with details is open. -/
  hasDetails : Bool := false
deriving Repr

namespace StatusLine

/-- Messages longer than this are also shown in the window with details. -/
def detailLength : Nat := 50

/-- Shows an error and files it under a topic. -/
def showError (topic : Option String) (message : String) (s : StatusLine) : StatusLine :=
  { label := ⟨s!"Error: {message}", "red"⟩
    hasSign := true
    errors := Keyed.put topic message s.errors
    hasDetails := s.hasDetails || detailLength < message.length }

/-- Shows a warning. -/
def showWarning (message : String) (s : StatusLine) : StatusLine :=
  { s with label := ⟨s!"Warning: {message}", "orange"⟩ }

/-- Shows a message and takes the warning sign away. -/
def showInfo (message : String) (s : StatusLine) : StatusLine :=
  { s with label := ⟨message, "black"⟩, hasSign := false }

/-- The line with no errors and nothing to tell. -/
def clearAll (_ : StatusLine) : StatusLine :=
  { label := ⟨"Ready", "black"⟩ }

/-- Takes the error of a topic off the file. The line is cleared with the last one. -/
def clear (topic : Option String) (s : StatusLine) : StatusLine :=
  let errors := Keyed.erase topic s.errors
  if errors.isEmpty then s.clearAll else { s with errors }

end StatusLine

end Sentential.Desk
