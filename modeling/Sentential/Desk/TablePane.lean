import Sentential.Desk.Fault
import Sentential.Keyed
import Sentential.Table.Document

/-! The pane that shows a table. What it shows is text, and can be written to a file as it is. -/

namespace Sentential.Desk

/-- The pane. -/
structure TablePane where
  headers : List String := []
  rows : List (List String) := []
  /-- The widths of the columns by their headers. They stay when the pane is cleared. -/
  widths : List (String × Int) := []
  /-- The position of the row that is highlighted. -/
  selected : Option Nat := none
deriving Repr

namespace TablePane

/-- Takes the table off the pane. -/
def clear (p : TablePane) : TablePane :=
  { widths := p.widths }

/-- The width of a column as its header asks for it. -/
def headerWidth (header : String) : Int :=
  max 80 (10 * header.length : Nat)

/-- Sets the headers, and the widths of the columns by them. -/
def setHeaders (headers : List String) (p : TablePane) : TablePane :=
  { p with
    headers
    widths := headers.foldl (fun widths h => Keyed.put h (headerWidth h) widths) p.widths }

/-- A cell as shown. -/
def cellText : Value → String
  | .bool true => "1"
  | .bool false => "0"
  | value => value.shown

/-- Adds a row. -/
def addRow (cells : List Value) (p : TablePane) : TablePane :=
  { p with rows := p.rows ++ [cells.map cellText] }

/-- Shows a table in place of the old one. -/
def populate (headers : List String) (rows : List (List Value)) (p : TablePane) : TablePane :=
  rows.foldl (fun p row => p.addRow row) (p.clear.setHeaders headers)

/-- Highlights a row, if there is one at the position. -/
def highlight (i : Int) (p : TablePane) : TablePane :=
  if 0 ≤ i ∧ i < p.rows.length then { p with selected := some i.toNat } else p

/-- Sets the widths of the first columns. -/
def setWidths (widths : List Int) (p : TablePane) : TablePane :=
  { p with
    widths := (p.headers.zip widths).foldl (fun all (h, w) => Keyed.put h w all) p.widths }

/-- The width that a column needs for its header and its cells. -/
def neededWidth (p : TablePane) (header : String) : Int :=
  let j := p.headers.idxOf header
  let longest := (p.rows.map fun row => (row[j]?.getD "").length).foldl max header.length
  (10 * longest + 20 : Nat)

/-- Gives every column the width it needs. -/
def fitWidths (p : TablePane) : TablePane :=
  { p with
    widths := p.headers.foldl (fun all h => Keyed.put h (p.neededWidth h) all) p.widths }

/-- The table on the pane as plain text. -/
def toText (p : TablePane) : String :=
  let header := Text.join " | " p.headers
  Text.lines
    ([header, Text.ruled header.length '-'] ++ p.rows.map fun row => Text.join " | " row)

/-- Cells in LaTeX. -/
def latexCells (cells : List String) : List String :=
  cells.map fun cell => String.ofList (Text.Latex.inDisplay cell.toList)

/-- The table on the pane in LaTeX. -/
def toLatex (p : TablePane) : String :=
  Text.lines
    (["\\begin\x7btable\x7d[h]", "\\centering",
      "\\begin\x7btabular\x7d\x7b" ++ Table.columnSpec p.headers.length ++ "\x7d", "\\hline",
      Table.latexRow (latexCells p.headers), "\\hline"] ++
      p.rows.map (fun row => Table.latexRow (latexCells row)) ++
      ["\\hline", "\\end\x7btabular\x7d", "\\caption\x7bTruth Table\x7d",
       "\\label\x7btab:truth_table\x7d", "\\end\x7btable\x7d"])

/-- Writes the table on the pane to a file. -/
def write (render : TablePane → String) (path : String) (files : Files) (p : TablePane) :
    Except Fault Files :=
  if p.headers.isEmpty || p.rows.isEmpty then .error .nothingToWrite
  else match files.write path (render p) with
    | .error cause => .error (.unwritable cause)
    | .ok files => .ok files

end TablePane

end Sentential.Desk
