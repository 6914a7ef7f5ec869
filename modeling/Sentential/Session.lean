import Sentential.Export
import Sentential.Proof.Review
import Sentential.Proof.Search

/-! A working session: one proof, at most one truth table, and files. -/

namespace Sentential

/-- The state of a session. -/
structure Session where
  proof : Proof := {}
  table : Option Table := none
  files : Files := {}
deriving Repr

namespace Session

/-- Makes the table of the contents. Without any the old table stays; it goes if one of them is no
sentence. -/
def tabulate (s : Session) (contents : List Content) : Session × Except Failure (Option Table) :=
  match Table.ofContents? contents with
  | .error cause => ({ s with table := none }, .error cause)
  | .ok none => (s, .ok none)
  | .ok (some t) => ({ s with table := some t }, .ok (some t))

/-- Makes the table of the proof. The old table goes in any case. -/
def tabulateProof (s : Session) : Session × Except Failure (Option Table) :=
  { s with table := none }.tabulate (Table.columnsOf s.proof)

/-- What the user is told about a request for a table. -/
def tableReport : Option Table → Bool × String
  | none => (false, Table.nothingToTabulate)
  | some t => (true, t.generated)

/-- Puts a value into a cell of the table. -/
def putCell (s : Session) (row column : Int) (value : Value) : Except Failure Session :=
  match s.table with
  | none => .error .outOfRange
  | some t =>
    match t.put row column value with
    | .error cause => .error cause
    | .ok t => .ok { s with table := some t }

/-- The rows that make a sentence of the table true; there are none without a table. -/
def rowsWhereTrue (s : Session) (i : Int) : Except Failure (List Nat) :=
  match s.table with
  | none => .ok []
  | some t => t.rowsWhereTrue i

/-- Whether all rows make a sentence of the table true; none do without a table. -/
def isTautology (s : Session) (i : Int) : Except Failure Bool :=
  match s.table with
  | none => .ok false
  | some t => t.isTautology i

/-- Whether all rows make a sentence of the table false; none do without a table. -/
def isContradiction (s : Session) (i : Int) : Except Failure Bool :=
  match s.table with
  | none => .ok false
  | some t => t.isContradiction i

/-- Puts a step into the proof as it is. -/
def inject (s : Session) (step : Step) : Session :=
  { s with proof := { s.proof with steps := s.proof.steps ++ [step] } }

/-- Writes the proof or the table to a file, and tells what came of it. -/
def exportTo (s : Session) (kind : Export.Kind) (time path : String) :
    Session × Bool × String :=
  match Export.run kind time s.proof s.table path s.files with
  | (files, .ok ()) => ({ s with files }, true, kind.written path)
  | (files, .error cause) => ({ s with files }, false, cause.message)

end Session

end Sentential
