import Sentential.Files
import Sentential.Proof.Document

/-! Writing proofs and tables to files. Proofs make the directories that they need, but tables do
not. -/

namespace Sentential.Export

/-- What is written. -/
inductive Kind where
  | proofText
  | proofLatex
  | tableText
  | tableLatex
  | combinedLatex
deriving DecidableEq, Repr

/-- Why nothing is written. -/
inductive ExportError where
  | noTable
  | unwritable (cause : FileError)
deriving DecidableEq, Repr

/-- What the user is told. -/
def ExportError.message : ExportError → String
  | noTable => "No truth table to export"
  | unwritable cause => s!"Export failed: {cause.message}"

/-- What the user is told about a written file. -/
def Kind.written (kind : Kind) (path : String) : String :=
  match kind with
  | proofText => s!"Proof exported successfully to {path}"
  | proofLatex => s!"Proof exported to LaTeX: {path}"
  | tableText | tableLatex => s!"Truth table exported to {path}"
  | combinedLatex => s!"Combined proof and truth table exported to: {path}"

/-- Writes a document whose directories have to be there. -/
def writeIn (files : Files) (path content : String) : Files × Except ExportError Unit :=
  match files.write path content with
  | .error cause => (files, .error (.unwritable cause))
  | .ok files => (files, .ok ())

/-- Writes a document and makes the directories that are missing. -/
def writeWithDirectories (files : Files) (path content : String) :
    Files × Except ExportError Unit :=
  match files.ensureDirectory path with
  | (files, .error cause) => (files, .error (.unwritable cause))
  | (files, .ok ()) => writeIn files path content

/-- Writes a table, if there is one. -/
def writeTable (files : Files) (path : String) (table : Option Table) (render : Table → String) :
    Files × Except ExportError Unit :=
  match table with
  | none => (files, .error .noTable)
  | some t => writeIn files path (render t)

/-- Writes a proof or a table to a file, with the time at which it is done. -/
def run (kind : Kind) (time : String) (proof : Proof) (table : Option Table) (path : String)
    (files : Files) : Files × Except ExportError Unit :=
  match kind with
  | .proofText => writeWithDirectories files path (proof.toText time)
  | .proofLatex => writeWithDirectories files path proof.toLatex
  | .tableText => writeTable files path table Table.toText
  | .tableLatex => writeTable files path table Table.toLatex
  | .combinedLatex => writeWithDirectories files path (Proof.latexWithTable table)

end Sentential.Export
