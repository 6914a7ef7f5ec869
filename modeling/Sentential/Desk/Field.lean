/-! Fields for typing. An empty field shows a placeholder while it is not in use. -/

namespace Sentential.Desk

/-- What an empty field shows. -/
def placeholder : String := "Type here"

/-- A field. -/
structure Field where
  text : String := placeholder
  colour : String := ""
deriving DecidableEq, Repr

namespace Field

/-- The field without the placeholder. -/
def withoutPlaceholder (f : Field) : Field :=
  if f.text = placeholder then ⟨"", "black"⟩ else f

/-- The field with nothing but the placeholder. -/
def reset (_ : Field) : Field :=
  ⟨placeholder, "gray"⟩

/-- The field after the user turns to it. -/
def entered (f : Field) : Field :=
  f.withoutPlaceholder

/-- The field after the user turns away from it. -/
def left (f : Field) : Field :=
  if f.text = "" then f.reset else f

/-- What the user has typed. -/
def input (f : Field) : String :=
  if f.text = placeholder then "" else f.text

/-- The field with more text at its end. -/
def append (more : String) (f : Field) : Field :=
  { f with text := f.text ++ more }

end Field

end Sentential.Desk
