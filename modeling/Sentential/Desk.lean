import Sentential.Desk.Attachments
import Sentential.Desk.Button
import Sentential.Desk.Dialog
import Sentential.Desk.Guide
import Sentential.Desk.Listing
import Sentential.Desk.Messages
import Sentential.Desk.Mode
import Sentential.Desk.ProofPane
import Sentential.Desk.TablePane
import Sentential.Session

/-! The desk at which the user works: a session, the panes that show it, and what the user has typed
and chosen. The panes keep their own copies of what they show. -/

namespace Sentential

/-- The two places where sentences are entered. -/
inductive Desk.Slot where
  | premise
  | conclusion
deriving DecidableEq, Repr

/-- The desk. -/
structure Desk where
  session : Session := {}
  mode : Desk.Mode := .automatic
  premises : Desk.Listing := {}
  conclusions : Desk.Listing := {}
  /-- The sentences entered as premises. -/
  enteredPremises : List Sentence := []
  /-- The sentences entered as conclusions. -/
  enteredConclusions : List Sentence := []
  proofPane : Desk.ProofPane := {}
  tablePane : Desk.TablePane := {}
  messages : Desk.Messages := {}
  guide : String := Desk.Guide.start
  /-- The place that the user is typing in. -/
  focus : Option Desk.Slot := none
  buttons : Desk.Register := {}
  attachments : Desk.Attachments := {}
  /-- How many watchers wait for a change of mode. -/
  watchers : Nat := 0
  /-- Whether a project was begun, so that there is a file to ask for. -/
  hasProject : Bool := false
  /-- The dialogs shown since the last request. -/
  dialogs : List Desk.Dialog := []
  /-- What the user is going to answer. -/
  answers : List Desk.Answer := []
  /-- What was printed since the last request. -/
  printed : String := ""
deriving Repr

namespace Desk

/-- The desk before a request, with the answers that the user is going to give. -/
def expecting (answers : List Answer) (d : Desk) : Desk :=
  { d with dialogs := [], answers, printed := "" }

/-- Prints a line. -/
def print (line : String) (d : Desk) : Desk :=
  { d with printed := d.printed ++ line ++ "\n" }

/-- Shows a dialog that asks nothing. -/
def notify (dialog : Dialog) (d : Desk) : Desk :=
  { d with dialogs := d.dialogs ++ [dialog] }

/-- Shows a dialog and takes the next answer. A user with no answers left declines. -/
def ask (dialog : Dialog) (d : Desk) : Answer × Desk :=
  (d.answers.headD (.choice false),
    { d with dialogs := d.dialogs ++ [dialog], answers := d.answers.tail })

/-- Tells of an error. -/
def showError (kind text : String) (d : Desk) : Desk :=
  { d with messages := d.messages.showError kind text }

/-- Shows a message. -/
def showInfo (text : String) (d : Desk) : Desk :=
  { d with messages := d.messages.showInfo text }

/-- Writes on the status line, without record and timer. -/
def withStatus (write : StatusLine → StatusLine) (d : Desk) : Desk :=
  { d with messages := { d.messages with status := write d.messages.status } }

/-- The list of a place. -/
def listing (d : Desk) : Slot → Listing
  | .premise => d.premises
  | .conclusion => d.conclusions

/-- Changes the list of a place. -/
def withListing (slot : Slot) (change : Listing → Listing) (d : Desk) : Desk :=
  match slot with
  | .premise => { d with premises := change d.premises }
  | .conclusion => { d with conclusions := change d.conclusions }

/-- Changes the field of a place. -/
def withField (slot : Slot) (change : Field → Field) (d : Desk) : Desk :=
  d.withListing slot fun l => { l with field := change l.field }

/-- Puts a proof in place of the session's. -/
def withProof (proof : Proof) (d : Desk) : Desk :=
  { d with session := { d.session with proof } }

/-- Clears everything, if the user agrees. -/
def clearAll (d : Desk) : Desk :=
  match d.ask (.question "Clear All" "Are you sure you want to clear all data?") with
  | (answer, d) =>
    if answer.agrees then
      { d with
        session := { d.session with proof := .empty, table := none }
        premises := d.premises.clear
        conclusions := d.conclusions.clear
        enteredPremises := []
        enteredConclusions := []
        proofPane := d.proofPane.clear
        tablePane := d.tablePane.clear
      }.showInfo "All data cleared"
    else d

end Desk

end Sentential
