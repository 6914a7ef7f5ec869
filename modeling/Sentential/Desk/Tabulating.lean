import Sentential.Desk

/-! Making, showing and writing truth tables. -/

namespace Sentential.Desk

/-- Shows the session's table on its pane. -/
def showTable (d : Desk) : Desk :=
  match d.session.table with
  | none => { d with tablePane := d.tablePane.clear }
  | some t =>
    { d with tablePane := d.tablePane.populate t.headers (t.digits.map (·.map Value.text)) }

/-- Shows a table that was made, and says what came of making it. A table that could not be made
leaves the pane as it is. -/
def settleTable (d : Desk) (made : Session × Except Failure (Option Table)) :
    Desk × Bool × String :=
  let d := { d with session := made.1 }
  match made.2 with
  | .error cause => (d, false, cause.message)
  | .ok table =>
    match Session.tableReport table with
    | (true, message) => (d.showTable, true, message)
    | (false, message) => (d, false, message)

/-- Makes the table of the contents. -/
def tabulateContents (contents : List Content) (d : Desk) : Desk × Bool × String :=
  d.settleTable (d.session.tabulate contents)

/-- Makes the table of the proof. -/
def tabulateProof (d : Desk) : Desk × Bool × String :=
  d.settleTable d.session.tabulateProof

/-- Tells the user what came of making a table. -/
def reportTable : Desk × Bool × String → Desk
  | (d, true, message) => d.showInfo message
  | (d, false, message) => d.showError "table" message

/-- Makes a table of what there is. -/
def tabulate (d : Desk) : Desk :=
  let p := d.session.proof
  if !p.steps.isEmpty then reportTable d.tabulateProof
  else match p.premises ++ p.conclusion.toList with
    | [] => d.showError "validation" "No formulas to generate table from"
    | first :: rest => reportTable (d.tabulateContents ((first :: rest).map .sentence))

/-- Clears the table and its pane. -/
def clearTable (d : Desk) : Desk :=
  { d with session := { d.session with table := none }, tablePane := d.tablePane.clear }

/-- What the user is told when no file is chosen. -/
def exportCancelled : String := "Export cancelled"

/-- Writes the table to a file; the user is asked for one if the path is empty. -/
def writeTable (kind : Export.Kind) (path : String) (d : Desk) : Desk × Bool × String :=
  let (path, d) :=
    if path = "" then
      let (answer, d) := d.ask .saveFile
      (answer.file, d)
    else (path, d)
  if path = "" then (d, false, exportCancelled)
  else
    let (session, success, message) := d.session.exportTo kind "" path
    ({ d with session }, success, message)

/-- Writes the table to a file, as the user chooses. Nothing is said about a file in LaTeX. -/
def exportTable (d : Desk) : Desk :=
  if d.session.table.isNone then d.showError "export" Export.ExportError.noTable.message
  else
    let (latex, d) := d.ask (.question "Export Format" "Export as LaTeX? (No = Text format)")
    let (answer, d) := d.ask .saveFile
    if answer.file = "" then d
    else if latex.agrees then (d.writeTable .tableLatex answer.file).1
    else match d.writeTable .tableText answer.file with
      | (d, true, message) => d.showInfo message
      | (d, false, message) => d.showError "export" message

/-- Writes the table to a file and reports success in any case. -/
def exportTableTo (kind : Export.Kind) (path : String) (d : Desk) : Desk :=
  (d.writeTable kind path).1.showInfo s!"Truth table exported to {path}"

/-- How large a table is. -/
structure Extent where
  letters : Nat
  rows : Nat
  sentences : Nat
deriving DecidableEq, Repr

/-- The extent of the table, if there is one. -/
def extent? (d : Desk) : Option Extent :=
  d.session.table.map fun t => ⟨t.letters.length, t.rows.length, t.sentences.length⟩

/-- Writes what the pane shows to a file. -/
def writePane (render : TablePane → String) (path : String) (d : Desk) :
    Desk × Except Fault Unit :=
  match d.tablePane.write render path d.session.files with
  | .error fault => (d, .error fault)
  | .ok files => ({ d with session := { d.session with files } }, .ok ())

end Sentential.Desk
