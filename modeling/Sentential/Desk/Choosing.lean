import Sentential.Desk.Switching
import Sentential.Desk.Tabulating
import Sentential.Package

/-! The actions behind the menus. -/

namespace Sentential.Desk

/-- What the user is told about the program from the menu. -/
def aboutText : String :=
  "Graphical Propositional Logic Calculator\n\n" ++
  s!"Version {Package.version}\nCreated by {Package.author}\n" ++
  "Part of a final year, university project in Computer Science\n\n" ++
  "A tool for learning and applying propositional logic.\n\n" ++
  "Built with Python and Tkinter"

/-- What the user is told about the program in short. -/
def shortAboutText : String :=
  "Graphical Propositional Logic Calculator\n\n" ++
  s!"Version {Package.version}\nCreated by {Package.author}\n\n" ++
  "A tool for learning and applying propositional logic."

/-- Tells about the program in short. -/
def showAbout (d : Desk) : Desk :=
  d.notify (.info "About GPLC" shortAboutText)

/-- Begins a project. The user may decline to clear the desk. -/
def newProject (d : Desk) : Desk :=
  { d.clearAll with hasProject := true }.showInfo "New project created"

/-- Asks for a file to read. None can be read. -/
def openProject (d : Desk) : Desk × Except Fault Unit :=
  match d.ask .openFile with
  | (answer, d) =>
    if answer.agrees then (d, .error (.lacking .controller "handle_load_project")) else (d, .ok ())

/-- Asks for a file to write. None can be written. -/
def saveProjectAs (d : Desk) : Desk × Except Fault Unit :=
  match d.ask .saveFile with
  | (answer, d) =>
    if answer.agrees then (d, .error (.lacking .controller "handle_save_project")) else (d, .ok ())

/-- Saves the project, which never has a file yet. -/
def saveProject (d : Desk) : Desk × Except Fault Unit :=
  if d.hasProject then d.saveProjectAs
  else (d, .error (.lacking .controller "current_file"))

/-- Asks whether to clear everything, and then once more. -/
def clearAllTwice (d : Desk) : Desk :=
  match d.ask (.question "Clear All" "Are you sure you want to clear all data?") with
  | (answer, d) => if answer.agrees then d.clearAll else d

/-- Asks for the preferences. There are none. -/
def showPreferences (d : Desk) : Desk × Except Fault Unit :=
  (d, .error (.lacking .menuBar "show_preferences_dialog"))

/-- The desk's own actions. -/
def perform (action : Action) (d : Desk) : Desk × Except Fault Unit :=
  match action with
  | .new => (d.newProject, .ok ())
  | .openFile => d.openProject
  | .save => d.saveProject
  | .saveAs => d.saveProjectAs
  | .exportProof =>
    (d.notify (.info "Export Proof" "Proof export not yet implemented"), .ok ())
  | .exportTable => (d, .error (.lacking .controller "truth_table_panel"))
  | .exit => (d, .ok ())
  | .clearAll => (d.clearAll, .ok ())
  | .preferences => d.showPreferences
  | .automaticMode => (d.changeMode .automatic, .ok ())
  | .manualMode => (d.changeMode .manual, .ok ())
  | .help => (d.showInfo "Help documentation can be found in the docs folder", .ok ())
  | .tutorial => (d.notify (.info "Tutorial" "Interactive tutorial coming soon!"), .ok ())
  | .about => (d.notify (.info "About GPLC" aboutText), .ok ())

/-- Shows in a dialog that an action broke off. -/
def settle : Desk × Except Fault Unit → Desk
  | (d, .ok ()) => d
  | (d, .error fault) => d.notify (.error "Error" s!"Action failed: {fault.message}")

/-- Runs what is behind an action of the menus. -/
def choose (action : Action) (d : Desk) : Desk :=
  match d.attachments.behind action with
  | .own => settle (d.perform action)
  | .nothing => d.notify (.info "Not Implemented" s!"{action.title} not yet implemented")
  | .attached r => settle (d.runRecorder [action.name] r)

/-- The format that is used where one could be asked for. -/
def exportFormat : String := "text"

/-- Attaches something to the action of a name; nothing happens if there is none. -/
def attachKnown (name : String) (r : Recorder) (d : Desk) : Desk :=
  match Action.byName? name with
  | none => d
  | some action => { d with attachments := d.attachments.setBehind action (.attached r) }

/-- Attaches something to the action of a name, which has to be there. -/
def attachNamed (name : String) (r : Recorder) (d : Desk) : Except Fault Desk :=
  match Action.byName? name with
  | none => .error (.lacking .menuBar s!"set_{name}_callback")
  | some _ => .ok (d.attachKnown name r)

end Sentential.Desk
