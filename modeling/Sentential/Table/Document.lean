import Sentential.Table
import Sentential.Text.Latex

/-! A truth table as a document, in plain text with aligned columns and in LaTeX. -/

namespace Sentential.Table

/-- The width of the column at a position: the longest of its header and cells. -/
def width (t : Table) (header : String) (j : Nat) : Nat :=
  (t.rows.map fun row => ((row[j]?.map mark).getD "").length).foldl max header.length

/-- The widths of the columns. -/
def widths (t : Table) : List Nat :=
  t.headers.zipIdx.map fun (header, j) => t.width header j

/-- A line of cells, each centred in its column. -/
def barred (widths : List Nat) (cells : List String) : String :=
  "|" ++ (List.zipWith
    (fun w (cell : String) => " " ++ String.ofList (Text.centre w cell.toList) ++ " |")
    widths cells).foldr (· ++ ·) ""

/-- The line between the header and the rows. -/
def separator (widths : List Nat) : String :=
  "+" ++ (widths.map fun w => Text.ruled (w + 2) '-' ++ "+").foldr (· ++ ·) ""

/-- The table in plain text. -/
def toText (t : Table) : String :=
  let ws := t.widths
  Text.lines
    (["TRUTH TABLE", Text.ruled 80 '=', "", barred ws t.headers, separator ws] ++
      t.rows.map (fun row => barred ws (row.map mark)) ++ [separator ws])

/-- A cell in LaTeX. -/
def latexMark : Value → String
  | .bool true => "$\\mathbf\x7bT\x7d$"
  | .bool false => "$\\mathbf\x7bF\x7d$"
  | .null => "-"
  | value => value.shown

/-- The alignment of so many columns, with lines between them. -/
def columnSpec (n : Nat) : String :=
  "|" ++ (List.replicate n "c|").foldr (· ++ ·) ""

/-- Cells as a row of a LaTeX table. -/
def latexRow (cells : List String) : String :=
  Text.join " & " cells ++ " \\\\"

/-- The table as a LaTeX document. -/
def toLatex (t : Table) : String :=
  let headers := t.headers.map fun h => String.ofList (Text.Latex.inExport h.toList)
  Text.lines
    (["\\documentclass\x7barticle\x7d", "\\usepackage\x7barray\x7d", "\\usepackage\x7bbooktabs\x7d",
      "\\begin\x7bdocument\x7d", "", "\\begin\x7btable\x7d[h]", "\\centering",
      "\\caption\x7bTruth Table\x7d",
      "\\begin\x7btabular\x7d\x7b" ++ columnSpec headers.length ++ "\x7d", "\\hline",
      latexRow headers, "\\hline\\hline"] ++
      t.rows.flatMap (fun row => [latexRow (row.map latexMark), "\\hline"]) ++
      ["\\end\x7btabular\x7d", "\\end\x7btable\x7d", "", "\\end\x7bdocument\x7d"])

end Sentential.Table
