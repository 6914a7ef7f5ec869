/-! Coloured texts on the desk. -/

namespace Sentential.Desk

/-- A text and its colour, which is empty until one is chosen. -/
structure Label where
  text : String
  colour : String := ""
deriving DecidableEq, Repr

end Sentential.Desk
