/-! # Blank characters

  Three notions of blank occur: the blanks that separate the parts of a tag
  (ASCII only), the characters with the Unicode property `White_Space`, and the
  blanks and line ends of a script.
-/

namespace Provenance.Text

/-- The blanks that separate the parts of a tag. -/
def isTagBlank (c : Char) : Bool :=
  c = ' ' || c = '\t' || c = '\n' || c = '\x0c' || c = '\r'

/-- The characters with the property `White_Space`. -/
def isBlank (c : Char) : Bool :=
  let n := c.toNat
  (9 ≤ n && n ≤ 13) || n = 0x20 || n = 0x85 || n = 0xA0 || n = 0x1680 ||
    (0x2000 ≤ n && n ≤ 0x200A) || n = 0x2028 || n = 0x2029 || n = 0x202F ||
    n = 0x205F || n = 0x3000

/-- The characters that end a line of a script. -/
def isLineEnd (c : Char) : Bool :=
  c = '\n' || c = '\r' || c = '\u2028' || c = '\u2029'

/-- The characters between the tokens of a script that end no line.  Next to the
    blanks of the language this admits the next-line control, the zero-width
    space and the byte order mark. -/
def isScriptBlank (c : Char) : Bool :=
  let n := c.toNat
  n = 9 || n = 11 || n = 12 || n = 0x20 || n = 0x85 || n = 0xA0 || n = 0x1680 ||
    n = 0x180E || (0x2000 ≤ n && n ≤ 0x200B) || n = 0x202F || n = 0x205F ||
    n = 0x3000 || n = 0xFEFF

/-- A text without the blanks at its end. -/
def trimEnd (s : List Char) : List Char := (s.reverse.dropWhile isBlank).reverse

/-- A text without the blanks at either end. -/
def trim (s : List Char) : List Char := trimEnd (s.dropWhile isBlank)

end Provenance.Text
