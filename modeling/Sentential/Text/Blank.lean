/-! Blank characters and what is done with them: `trim` drops them at both ends of a text, and
`squeeze` also leaves a single space for every run of them inside. -/

namespace Sentential.Text

/-- The code points of the blank characters: those that Unicode 14 classes as white space, or as a
separator of paragraphs or segments in bidirectional text. -/
def blankCodes : List Nat :=
  [0x20, 0x9, 0xa, 0xb, 0xc, 0xd, 0x1c, 0x1d, 0x1e, 0x1f, 0x85, 0xa0, 0x1680, 0x2000, 0x2001,
   0x2002, 0x2003, 0x2004, 0x2005, 0x2006, 0x2007, 0x2008, 0x2009, 0x200a, 0x2028, 0x2029, 0x202f,
   0x205f, 0x3000]

/-- Whether a character is blank. -/
def isBlank (c : Char) : Bool :=
  blankCodes.contains c.toNat

/-- The text without the blanks at its two ends. -/
def trim (text : List Char) : List Char :=
  ((text.dropWhile isBlank).reverse.dropWhile isBlank).reverse

/-- The rest of a squeezed text; `gap` says that blanks were passed since the last character
written, which become one space if another character follows. -/
def squeezeFrom : Bool → List Char → List Char
  | _, [] => []
  | gap, c :: rest =>
    if isBlank c then squeezeFrom true rest
    else if gap then ' ' :: c :: squeezeFrom false rest
    else c :: squeezeFrom false rest

/-- The text with every run of blanks inside it made one space, and none at its ends. -/
def squeeze (text : List Char) : List Char :=
  squeezeFrom false (text.dropWhile isBlank)

end Sentential.Text
