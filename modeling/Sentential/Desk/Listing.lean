import Sentential.Desk.Field

/-! A list of entered sentences with the field in which they are typed. -/

namespace Sentential.Desk

/-- The list. -/
structure Listing where
  field : Field := {}
  texts : List String := []
  /-- The lines shown: the texts with numbers. -/
  lines : List String := []
  /-- Whether the button and the key for adding do anything. -/
  isConnected : Bool := true
deriving Repr

namespace Listing

/-- Empties the field. -/
def resetField (l : Listing) : Listing :=
  { l with field := l.field.reset }

/-- Adds a text to the list and empties the field. Nothing and the placeholder are not added. -/
def add (text : String) (l : Listing) : Listing :=
  if text = "" ∨ text = placeholder then l
  else
    { l.resetField with
      texts := l.texts ++ [text]
      lines := l.lines ++ [s!"{l.texts.length + 1}. {text}"] }

/-- Empties the list and the field. -/
def clear (l : Listing) : Listing :=
  { l.resetField with texts := [], lines := [] }

end Listing

end Sentential.Desk
