import Provenance.Text.Size

/-! # Lines and columns

  A position names a place of a text by a line counted from one and a column
  counted from zero in UTF-16 units, the way tools for scripts report it.  A
  line ends at a line feed, at a carriage return that no line feed follows, and
  at the two separators U+2028 and U+2029.  Both numbers are kept in 32 bits, so
  they name the place itself only in texts below 2^32 bytes.
-/

namespace Provenance

/-- A place in a text. -/
structure Position where
  /-- Counted from one. -/
  line : Nat
  /-- Counted from zero in UTF-16 units. -/
  column : Nat
  /-- Counted from zero in bytes. -/
  offset : Nat
deriving DecidableEq, Repr

namespace Text

/-- Whether a line ends with `c` when `rest` follows it. -/
def endsLine (c : Char) (rest : List Char) : Bool :=
  c = '\n' || c = '\u2028' || c = '\u2029' || (c = '\r' && rest.head? != some '\n')

/-- The offsets at which a line starts after a line end of the text, where the
    text itself stands at `offset`. -/
def lineStartsFrom (offset : Nat) : List Char → List Nat
  | [] => []
  | c :: r =>
    let next := offset + c.utf8Size
    if endsLine c r then next :: lineStartsFrom next r else lineStartsFrom next r

/-- The offsets at which the lines of a text start, in order. -/
def lineStarts (s : List Char) : List Nat := 0 :: lineStartsFrom 0 s

end Text

/-- The lines of one text. -/
structure LineIndex where
  text : List Char
  starts : List Nat
  starts_eq : starts = Text.lineStarts text

/-- The lines of a text. -/
def LineIndex.ofText (text : List Char) : LineIndex where
  text
  starts := Text.lineStarts text
  starts_eq := rfl

/-- The position of a byte offset.  An offset past the end means the end, and
    one inside a character has column zero. -/
def LineIndex.position (index : LineIndex) (offset : Nat) : Position :=
  let offset := min offset (Text.byteSize index.text)
  let before := index.starts.filter (· ≤ offset)
  let start := before.getLast?.getD 0
  { line := before.length % UInt32.size
    column := ((Text.slice? index.text start offset).map Text.unitSize).getD 0 % UInt32.size
    offset }

end Provenance
