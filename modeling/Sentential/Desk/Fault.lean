import Sentential.Failure
import Sentential.Files

/-! Why a request to the desk breaks off. Some features have a place on the desk and nothing behind
it: whatever asks for one of them breaks off. -/

namespace Sentential.Desk

/-- The parts of the desk that can be asked for a feature they lack. -/
inductive Part where
  | controller
  | proofControl
  | menuBar
  | window
deriving DecidableEq, Repr

/-- The name of the part in messages. -/
def Part.name : Part → String
  | controller => "MainController"
  | proofControl => "ProofController"
  | menuBar => "MenuBar"
  | window => "MainWindow"

/-- The causes. -/
inductive Fault where
  | failure (cause : Failure)
  /-- A part lacks a feature. -/
  | lacking (part : Part) (feature : String)
  /-- A warning with a topic of its own has no place on the status line. -/
  | topicalWarning
  /-- The table on display has nothing to write. -/
  | nothingToWrite
  | unwritable (cause : FileError)
  /-- There is no desk to start with. -/
  | noView
  /-- What an attached action says when it breaks off by itself. -/
  | raised (text : String)
  /-- Nothing stands where an attached action should. -/
  | noAction
deriving Repr

/-- What the user is told. -/
def Fault.message : Fault → String
  | failure cause => cause.message
  | lacking part feature => s!"'{part.name}' object has no attribute '{feature}'"
  | topicalWarning => "ErrorDisplay.show_warning() takes 2 positional arguments but 3 were given"
  | nothingToWrite => "No truth table data to export"
  | unwritable cause => cause.message
  | noView => "View not set. Call set_view() first."
  | raised text => text
  | noAction => "'NoneType' object is not callable"

end Sentential.Desk
