/-! A text between quotation marks, as messages show paths and items of lists: single marks unless
only double ones avoid an escape, and escapes for the mark, the backslash and control characters. -/

namespace Sentential.Text

/-- The last two hexadecimal digits of a number. -/
def hexByte (n : Nat) : List Char :=
  let digit (d : Nat) : Char := if d < 10 then Char.ofNat (48 + d) else Char.ofNat (87 + d)
  [digit (n / 16 % 16), digit (n % 16)]

/-- A character between the given quotation marks. -/
def escaped (mark c : Char) : List Char :=
  if c == mark || c == '\\' then ['\\', c]
  else if c == '\n' then ['\\', 'n']
  else if c == '\r' then ['\\', 'r']
  else if c == '\t' then ['\\', 't']
  else if c.toNat < 0x20 || (0x7f ≤ c.toNat && c.toNat ≤ 0xa0) || c.toNat == 0xad then
    '\\' :: 'x' :: hexByte c.toNat
  else [c]

/-- The text between quotation marks. -/
def quoted (text : String) : String :=
  let mark := if text.contains '\'' && !text.contains '"' then '"' else '\''
  String.ofList (mark :: (text.toList.flatMap (escaped mark) ++ [mark]))

end Sentential.Text
