import Sentential.Proof
import Sentential.Table.Document
import Sentential.Text.Latex

/-! A proof as a document, in plain text and in LaTeX, and a LaTeX document with a truth table
beside the proof's heading. -/

namespace Sentential.Proof

/-- The proof in plain text, with the time at which it was written. -/
def toText (p : Proof) (time : String) : String :=
  let premises := p.steps.filter Step.isPremise
  let premiseLines :=
    if premises.isEmpty then ["  (No premises)"]
    else premises.map fun s => s!"  {s.index}. {s.content.shown}"
  let goal :=
    match p.conclusion with
    | none => "  (No conclusion set)"
    | some s => "  " ++ s.shown
  let stepLine (s : Step) : String :=
    String.ofList (Text.padLeft 3 (toString s.index).toList) ++ ". " ++
      String.ofList (Text.padRight 40 s.content.text) ++ "  " ++ s.reason
  let verdict :=
    if p.isComplete then "✓ PROOF COMPLETE - Conclusion successfully derived!"
    else "✗ PROOF INCOMPLETE - Conclusion not yet reached."
  Text.lines
    (["PROPOSITIONAL LOGIC PROOF", Text.ruled 60 '=', "Generated on: " ++ time, Text.ruled 60 '=',
      "", "PREMISES:"] ++ premiseLines ++
      ["", "CONCLUSION TO PROVE:", goal, "", "PROOF STEPS:", Text.ruled 60 '-'] ++
      p.steps.map stepLine ++ ["", Text.ruled 60 '=', verdict])

/-- The commands that a document defines for the connectives. -/
def latexCommands : List String :=
  ["", "% Custom commands for logical operators",
   "\\newcommand\x7b\\limplies\x7d\x7b\\rightarrow\x7d",
   "\\newcommand\x7b\\liff\x7d\x7b\\leftrightarrow\x7d",
   "\\newcommand\x7b\\lnot\x7d\x7b\\neg\x7d",
   "\\newcommand\x7b\\land\x7d\x7b\\wedge\x7d",
   "\\newcommand\x7b\\lor\x7d\x7b\\vee\x7d",
   "\\newcommand\x7b\\lxor\x7d\x7b\\oplus\x7d",
   "\\newcommand\x7b\\lnand\x7d\x7b\\uparrow\x7d",
   "\\newcommand\x7b\\lnor\x7d\x7b\\downarrow\x7d",
   "", "\\begin\x7bdocument\x7d", ""]

/-- The first lines of a document. -/
def latexPreamble : List String :=
  "\\documentclass[11pt]\x7barticle\x7d" ::
    ["amsmath", "amssymb", "array", "booktabs", "longtable"].map fun package =>
      "\\usepackage\x7b" ++ package ++ "\x7d"

/-- A text as a formula between dollar signs. -/
def latexFormula (text : List Char) : String :=
  "$" ++ String.ofList (Text.Latex.inProof text) ++ "$"

/-- A string with the underscores escaped. -/
def escapeUnderscores (s : String) : String :=
  String.ofList (Text.Latex.replaceChar '_' ['\\', '_'] s.toList)

/-- The proof as a LaTeX document. -/
def toLatex (p : Proof) : String :=
  let premises := p.steps.filter Step.isPremise
  let premiseLines :=
    if premises.isEmpty then ["\\item[] (No premises)"]
    else premises.map fun s => "\\item " ++ latexFormula s.content.text
  let goal :=
    match p.conclusion with
    | none => "(No conclusion set)"
    | some s => latexFormula s.text
  let stepLine (s : Step) : String :=
    s!"{s.index}. & {latexFormula s.content.text} & {escapeUnderscores s.reason} \\\\"
  let verdict :=
    if p.isComplete then
      "\\textbf\x7b\\color\x7bgreen\x7d✓ Proof Complete\x7d -- " ++
        "The conclusion has been successfully derived from the premises."
    else
      "\\textbf\x7b\\color\x7bred\x7d✗ Proof Incomplete\x7d -- " ++
        "The conclusion has not yet been reached."
  Text.lines
    (latexPreamble ++ latexCommands ++
      ["\\section*\x7bPropositional Logic Proof\x7d", "", "\\subsection*\x7bPremises\x7d",
       "\\begin\x7benumerate\x7d"] ++ premiseLines ++
      ["\\end\x7benumerate\x7d", "", "\\subsection*\x7bConclusion to Prove\x7d", goal, "",
       "\\subsection*\x7bProof Derivation\x7d", "\\begin\x7blongtable\x7d\x7br l l\x7d",
       "\\toprule", "Step & Formula & Justification \\\\", "\\midrule", "\\endhead"] ++
      p.steps.map stepLine ++
      ["\\bottomrule", "\\end\x7blongtable\x7d", "", "\\subsection*\x7bResult\x7d", verdict, "",
       "\\end\x7bdocument\x7d"])

/-- A digit of a table in bold. -/
def boldMark (digit : String) : String :=
  if digit = "1" then "\\textbf\x7bT\x7d"
  else if digit = "0" then "\\textbf\x7bF\x7d"
  else digit

/-- The part of a document that shows a table: on its side if it has more than 8 columns, and in
small print if it has more than 10. -/
def latexTable (t : Table) : List String :=
  let headers := t.headers.map fun h => latexFormula h.toList
  let when (condition : Bool) (line : String) : List String := if condition then [line] else []
  when (headers.length > 8) "\\begin\x7blandscape\x7d" ++
    ["\\begin\x7btable\x7d[h]", "\\centering"] ++
    when (headers.length > 10) "\\small" ++
    ["\\begin\x7btabular\x7d\x7b" ++ Table.columnSpec headers.length ++ "\x7d", "\\hline",
     Table.latexRow headers, "\\hline\\hline"] ++
    t.digits.flatMap (fun row => [Table.latexRow (row.map boldMark), "\\hline"]) ++
    ["\\end\x7btabular\x7d", "\\end\x7btable\x7d"] ++
    when (headers.length > 8) "\\end\x7blandscape\x7d"

/-- A LaTeX document with a section for a proof, which is left empty, and one for a table. -/
def latexWithTable (table : Option Table) : String :=
  Text.lines
    (latexPreamble ++ ["\\usepackage[margin=1in]\x7bgeometry\x7d", "\\usepackage\x7bcolor\x7d"] ++
      latexCommands ++
      ["\\title\x7bPropositional Logic: Proof and Truth Table\x7d", "\\date\x7b\\today\x7d",
       "\\maketitle", "", "\\section\x7bProof Derivation\x7d", "", "\\section\x7bTruth Table\x7d",
       ""] ++
      (match table with
        | none => ["No truth table has been generated."]
        | some t => latexTable t) ++
      ["", "\\end\x7bdocument\x7d"])

end Sentential.Proof
