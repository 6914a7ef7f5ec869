/-! The menus of the desk and the actions behind their entries. -/

namespace Sentential.Desk

/-- The actions that a menu can offer. -/
inductive Action where
  | new
  | openFile
  | save
  | saveAs
  | exportProof
  | exportTable
  | exit
  | clearAll
  | preferences
  | automaticMode
  | manualMode
  | help
  | tutorial
  | about
deriving DecidableEq, Repr

namespace Action

/-- All actions. -/
def all : List Action :=
  [new, openFile, save, saveAs, exportProof, exportTable, exit, clearAll, preferences,
   automaticMode, manualMode, help, tutorial, about]

/-- The name that an action goes by. -/
def name : Action → String
  | new => "new"
  | openFile => "open"
  | save => "save"
  | saveAs => "save_as"
  | exportProof => "export_proof"
  | exportTable => "export_table"
  | exit => "exit"
  | clearAll => "clear_all"
  | preferences => "preferences"
  | automaticMode => "auto_mode"
  | manualMode => "manual_mode"
  | help => "help"
  | tutorial => "tutorial"
  | about => "about"

/-- The action of a name. -/
def byName? (name : String) : Option Action :=
  all.find? fun a => a.name = name

/-- The name as a title. -/
def title : Action → String
  | new => "New"
  | openFile => "Open"
  | save => "Save"
  | saveAs => "Save As"
  | exportProof => "Export Proof"
  | exportTable => "Export Table"
  | exit => "Exit"
  | clearAll => "Clear All"
  | preferences => "Preferences"
  | automaticMode => "Auto Mode"
  | manualMode => "Manual Mode"
  | help => "Help"
  | tutorial => "Tutorial"
  | about => "About"

end Action

/-- The menus. -/
inductive Menu where
  | options
  | instructions
deriving DecidableEq, Repr

namespace Menu

/-- The entries of a menu and of the menus under it. -/
def entries : Menu → List (String × Action)
  | options =>
    [("New", .new), ("Open...", .openFile), ("Save", .save), ("Save As...", .saveAs),
     ("Export Proof...", .exportProof), ("Export Truth Table...", .exportTable),
     ("Clear All", .clearAll), ("Preferences...", .preferences), ("Exit", .exit)]
  | instructions => [("Help", .help), ("Tutorial", .tutorial), ("About GPLC", .about)]

/-- The action behind an entry. -/
def action? (menu : Menu) (label : String) : Option Action :=
  menu.entries.lookup label

end Menu

end Sentential.Desk
