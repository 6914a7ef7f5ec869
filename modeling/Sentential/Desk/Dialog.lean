/-! Dialogs: messages that the user confirms and questions that the user answers. -/

namespace Sentential.Desk

/-- A dialog as the user sees it. -/
inductive Dialog where
  | info (title text : String)
  | error (title text : String)
  | question (title text : String)
  /-- The choice of a file to write. -/
  | saveFile
  /-- The choice of a file to read. -/
  | openFile
deriving DecidableEq, Repr

/-- What the user answers. -/
inductive Answer where
  | choice (yes : Bool)
  | path (name : String)
deriving DecidableEq, Repr

namespace Answer

/-- Whether the user agrees, or chooses a file at all. -/
def agrees : Answer → Bool
  | choice yes => yes
  | path name => name ≠ ""

/-- The file that the user chooses; there is none if the name is empty. -/
def file : Answer → String
  | choice _ => ""
  | path name => name

end Answer

end Sentential.Desk
