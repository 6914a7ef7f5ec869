import Sentential.Text.Blank

/-! Formulas in LaTeX. There are three notations, one for proofs, one for exported tables and one
for the table on display. Each replaces characters one after another, so a later replacement also
acts on what an earlier one wrote. -/

namespace Sentential.Text.Latex

/-- A text with every occurrence of a character replaced. -/
def replaceChar (old : Char) (new : List Char) (text : List Char) : List Char :=
  text.flatMap fun c => if c = old then new else [c]

/-- A text with all replacements of a table made, one after another. -/
def replaceInTurn (table : List (Char × List Char)) (text : List Char) : List Char :=
  table.foldl (fun text entry => replaceChar entry.1 entry.2 text) text

/-- The commands for the connectives in proofs. -/
def proofCommands : List (Char × List Char) :=
  [('∧', "\\land".toList), ('∨', "\\lor".toList), ('¬', "\\lnot ".toList),
   ('→', "\\limplies".toList), ('↔', "\\liff".toList), ('⊕', "\\lxor".toList),
   ('↑', "\\lnand".toList), ('↓', "\\lnor".toList)]

/-- A text with runs of spaces made single spaces. -/
def singleSpaced : List Char → List Char
  | [] => []
  | ' ' :: ' ' :: rest => singleSpaced (' ' :: rest)
  | c :: rest => c :: singleSpaced rest

/-- A formula's text for a proof: commands set off by single spaces. -/
def inProof (text : List Char) : List Char :=
  let spaced := proofCommands.map fun (c, command) => (c, ' ' :: (command ++ [' ']))
  trim (singleSpaced (replaceInTurn spaced text))

/-- The characters that LaTeX treats specially, escaped. -/
def specials : List (Char × List Char) :=
  [('&', "\\&".toList), ('%', "\\%".toList), ('$', "\\$".toList), ('#', "\\#".toList),
   ('_', "\\_".toList), ('\x7b', "\\\x7b".toList), ('\x7d', "\\\x7d".toList),
   ('~', "\\textasciitilde\x7b\x7d".toList), ('^', "\\textasciicircum\x7b\x7d".toList),
   ('\\', "\\textbackslash\x7b\x7d".toList)]

/-- The replacements in an exported table, where commands are set in mathematics. -/
def exportTable : List (Char × List Char) :=
  specials ++
  [('∧', "$\\land$".toList), ('∨', "$\\lor$".toList), ('¬', "$\\neg$".toList),
   ('→', "$\\rightarrow$".toList), ('↔', "$\\leftrightarrow$".toList), ('⊕', "$\\oplus$".toList),
   ('↑', "$\\uparrow$".toList), ('↓', "$\\downarrow$".toList)]

/-- The replacements in the table on display, where commands are bare. -/
def displayTable : List (Char × List Char) :=
  specials ++
  [('∧', "\\land".toList), ('∨', "\\lor".toList), ('¬', "\\neg".toList),
   ('→', "\\rightarrow".toList), ('↔', "\\leftrightarrow".toList), ('⊕', "\\oplus".toList),
   ('↑', "\\uparrow".toList), ('↓', "\\downarrow".toList)]

/-- A text for an exported table. -/
def inExport (text : List Char) : List Char :=
  replaceInTurn exportTable text

/-- A text for the table on display. -/
def inDisplay (text : List Char) : List Char :=
  replaceInTurn displayTable text

end Sentential.Text.Latex
