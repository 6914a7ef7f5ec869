/-! Lower and upper case, as far as they can make a text equal to one of ASCII letters: beside the
ASCII letters, the characters whose full Unicode case mapping is ASCII. All other characters keep
themselves, so they never match an ASCII name. -/

namespace Sentential.Text

/-- The lower case of a character. The Kelvin sign is the one character outside ASCII whose lower
case is an ASCII letter. -/
def lowerChar (c : Char) : Char :=
  if c.toNat == 0x212a then 'k' else c.toLower

/-- The upper case of a character: several letters for the sharp s and the ligatures. -/
def upperChar (c : Char) : List Char :=
  match c.toNat with
  | 0xdf => ['S', 'S']
  | 0x131 => ['I']
  | 0x17f => ['S']
  | 0xfb00 => ['F', 'F']
  | 0xfb01 => ['F', 'I']
  | 0xfb02 => ['F', 'L']
  | 0xfb03 => ['F', 'F', 'I']
  | 0xfb04 => ['F', 'F', 'L']
  | 0xfb05 => ['S', 'T']
  | 0xfb06 => ['S', 'T']
  | _ => [c.toUpper]

/-- The text in lower case. -/
def lower (text : String) : String :=
  String.ofList (text.toList.map lowerChar)

/-- The text in upper case. -/
def upper (text : String) : String :=
  String.ofList (text.toList.flatMap upperChar)

end Sentential.Text
