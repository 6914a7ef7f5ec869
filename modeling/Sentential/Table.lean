import Sentential.Classification
import Sentential.Proof

/-! Truth tables: a column for each letter and each sentence, and a row for each assignment of truth
values to the letters. -/

namespace Sentential

/-- A truth table. -/
structure Table where
  letters : List Char
  sentences : List Sentence
  /-- A cell without truth value holds nothing; any value may be put into a cell. -/
  rows : List (List Value)
deriving Repr

namespace Table

/-- A sentence's cell in the row of an assignment. -/
def cell (values : Assignment Bool) (s : Sentence) : Value :=
  match s.evaluate values with
  | .ok b => .bool b
  | .error _ => .null

/-- The row of an assignment. -/
def row (sentences : List Sentence) (values : Assignment Bool) : List Value :=
  values.map (fun entry => .bool entry.2) ++ sentences.map (cell values)

/-- The table of the sentences. -/
def ofSentences (sentences : List Sentence) : Table :=
  let letters := Sentence.lettersOf sentences
  { letters, sentences, rows := (assignments letters).map (row sentences) }

/-- The table of the contents; there is none of no contents. -/
def ofContents? (contents : List Content) : Except Failure (Option Table) :=
  if contents.isEmpty then .ok none
  else match contents.mapM Content.withLetters with
    | .error cause => .error cause
    | .ok sentences => .ok (some (ofSentences sentences))

/-- What the user is told when there is nothing to tabulate. -/
def nothingToTabulate : String := "No formulas provided"

/-- What the user is told about the table. -/
def generated (t : Table) : String :=
  s!"Generated truth table with {t.rows.length} rows"

/-- Adds the contents whose text is not there yet, in order. -/
def addNew (columns : List Content) : List Content → List Content
  | [] => columns
  | c :: rest =>
    if columns.any fun d => d.text = c.text then addNew columns rest
    else addNew (columns ++ [c]) rest

/-- What a proof has to tabulate: the premises, the derived steps and the conclusion, each text
once. -/
def columnsOf (p : Proof) : List Content :=
  addNew []
    (p.premises.map .sentence ++
      ((p.steps.filter fun s => !s.isPremise).map fun s => s.content) ++
      p.conclusion.toList.map .sentence)

/-- The texts above the columns. -/
def headers (t : Table) : List String :=
  t.letters.map (fun c => c.toString) ++ t.sentences.map Sentence.shown

/-- A cell as the digits 1 and 0 show it. -/
def digit : Value → String
  | .bool true => "1"
  | .bool false => "0"
  | .null => "-"
  | value => value.shown

/-- The cells as digits. -/
def digits (t : Table) : List (List String) :=
  t.rows.map fun row => row.map digit

/-- A cell as the letters T and F show it. -/
def mark : Value → String
  | .bool true => "T"
  | .bool false => "F"
  | .null => "-"
  | value => value.shown

/-- The place of a position in a list of the given length; negative positions count from its end. -/
def place? (length : Nat) (position : Int) : Option Nat :=
  if 0 ≤ position then
    if position.toNat < length then some position.toNat else none
  else
    let fromStart := (length : Int) + position
    if 0 ≤ fromStart then some fromStart.toNat else none

/-- The table with a value put into a cell. -/
def put (t : Table) (row column : Int) (value : Value) : Except Failure Table :=
  match place? t.rows.length row with
  | none => .error .outOfRange
  | some i =>
    let cells := t.rows.getD i []
    match place? cells.length column with
    | none => .error .outOfRange
    | some j => .ok { t with rows := t.rows.set i (cells.set j value) }

/-- The cell of a row in the column of a sentence, by the sentence's position. A negative position
reaches the columns before the sentences'. -/
def cellAt (t : Table) (i : Int) (row : List Value) : Except Failure Value :=
  match place? row.length (t.letters.length + i) with
  | none => .error .outOfRange
  | some j => .ok (row.getD j .null)

/-- Whether a position is beyond the last sentence. -/
def isBeyond (t : Table) (i : Int) : Bool :=
  (t.sentences.length : Int) ≤ i

/-- Whether a cell is true. -/
def isTrue : Value → Bool
  | .bool b => b
  | _ => false

/-- Whether a cell is false. -/
def isFalse : Value → Bool
  | .bool b => !b
  | _ => false

/-- The positions of the rows that make a sentence true. -/
def rowsWhereTrue (t : Table) (i : Int) : Except Failure (List Nat) :=
  if t.isBeyond i then .ok []
  else match t.rows.mapM (t.cellAt i) with
    | .error cause => .error cause
    | .ok cells => .ok ((cells.zipIdx.filter fun entry => isTrue entry.1).map fun entry => entry.2)

/-- Whether all rows make a sentence true. -/
def isTautology (t : Table) (i : Int) : Except Failure Bool :=
  if t.isBeyond i then .ok false
  else match t.rows.mapM (t.cellAt i) with
    | .error cause => .error cause
    | .ok cells => .ok (cells.all isTrue)

/-- Whether all rows make a sentence false. -/
def isContradiction (t : Table) (i : Int) : Except Failure Bool :=
  if t.isBeyond i then .ok false
  else match t.rows.mapM (t.cellAt i) with
    | .error cause => .error cause
    | .ok cells => .ok (cells.all isFalse)

end Table

end Sentential
