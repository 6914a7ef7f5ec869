/-! Texts of a given width, counted in characters. -/

namespace Sentential.Text

/-- So many spaces. -/
def spaces (n : Nat) : List Char :=
  List.replicate n ' '

/-- The text with spaces after it up to the width. -/
def padRight (width : Nat) (text : List Char) : List Char :=
  text ++ spaces (width - text.length)

/-- The text with spaces before it up to the width. -/
def padLeft (width : Nat) (text : List Char) : List Char :=
  spaces (width - text.length) ++ text

/-- The text in the middle of the width; an odd space goes after it. -/
def centre (width : Nat) (text : List Char) : List Char :=
  let gap := width - text.length
  spaces (gap / 2) ++ text ++ spaces (gap - gap / 2)

/-- Strings with a separator between each two. -/
def join (separator : String) : List String → String
  | [] => ""
  | [s] => s
  | s :: rest => s ++ separator ++ join separator rest

/-- The strings as lines, each ended. -/
def lines (rows : List String) : String :=
  rows.foldr (fun row rest => row ++ "\n" ++ rest) ""

/-- A line drawn with a character. -/
def ruled (n : Nat) (c : Char) : String :=
  String.ofList (List.replicate n c)

end Sentential.Text
