import Provenance.SourceMap
import Provenance.Text.Position

/-! # Splicing

  A splice buffer holds a text and insertions into it, each at a byte offset of
  the original text.  It is read out in one pass, as the edited text or as the
  source map of that text: one segment where an original stretch begins and one
  after each line feed inside it, none for what was inserted.

  Both readings fail exactly when an insertion lies inside a character.
-/

namespace Provenance

/-- An insertion: a byte offset of the original text and the new text. -/
structure Insertion where
  offset : Nat
  text : List Char
deriving DecidableEq, Repr

/-- A text with insertions in the order in which they were made. -/
structure SpliceBuffer where
  original : List Char
  insertions : List Insertion := []
deriving DecidableEq, Repr

namespace SpliceBuffer

/-! ## §1. Insertions -/

/-- Inserts a text before the character at an offset; an offset past the end
    means the end. -/
def insert (buffer : SpliceBuffer) (offset : Nat) (text : List Char) : SpliceBuffer :=
  { buffer with
    insertions := buffer.insertions ++ [⟨min offset (Text.byteSize buffer.original), text⟩] }

/-- Whether nothing was inserted. -/
def isEmpty (buffer : SpliceBuffer) : Bool := buffer.insertions.isEmpty

/-- Puts an insertion behind all that stand at its offset or before it. -/
def insertSorted (x : Insertion) : List Insertion → List Insertion
  | [] => [x]
  | y :: rest => if x.offset < y.offset then x :: y :: rest else y :: insertSorted x rest

/-- The insertions by offset; those at one offset keep their order. -/
def sorted (buffer : SpliceBuffer) : List Insertion :=
  buffer.insertions.foldl (fun sorted x => insertSorted x sorted) []

/-- A stretch of the original text and what is inserted behind it. -/
structure Chunk where
  /-- The byte offset at which the stretch starts. -/
  start : Nat
  text : List Char
  inserted : List Char
deriving DecidableEq, Repr

/-- Cuts a text that starts at byte `cursor` before each insertion; `none` where
    an insertion lies inside a character. -/
def cutAt (cursor : Nat) (rest : List Char) : List Insertion → Option (List Chunk)
  | [] => some [⟨cursor, rest, []⟩]
  | x :: more =>
    (Text.cut? (x.offset - cursor) rest).bind fun (text, rest) =>
      (cutAt x.offset rest more).map (⟨cursor, text, x.text⟩ :: ·)

/-- The stretches of the original text between the insertions. -/
def chunks? (buffer : SpliceBuffer) : Option (List Chunk) :=
  cutAt 0 buffer.original buffer.sorted

/-! ## §2. The edited text -/

/-- The original text with every insertion made. -/
def finish? (buffer : SpliceBuffer) : Option (List Char) :=
  buffer.chunks?.map fun chunks => chunks.flatMap fun chunk => chunk.text ++ chunk.inserted

/-! ## §3. The source map -/

/-- A place in the edited text; lines end at line feeds alone. -/
structure Cursor where
  line : Nat := 0
  column : Nat := 0
deriving DecidableEq, Repr

/-- The place behind a character. -/
def Cursor.advance (cursor : Cursor) (c : Char) : Cursor :=
  if c = '\n' then ⟨cursor.line + 1, 0⟩
  else ⟨cursor.line, cursor.column + Text.unitsOf c⟩

/-- The segments of a stretch whose text stands at byte `offset` of the original
    and at `cursor` of the edited text; `fresh` asks for one at once. -/
def segmentsOf (index : LineIndex) (offset : Nat) (cursor : Cursor) (fresh : Bool) :
    List Char → List Segment
  | [] => []
  | c :: r =>
    let rest := segmentsOf index (offset + c.utf8Size) (cursor.advance c) (c = '\n') r
    if fresh then
      let position := index.position offset
      { generatedLine := cursor.line, generatedColumn := cursor.column,
        line := position.line - 1, column := position.column } :: rest
    else rest

/-- The segments of all stretches. -/
def segmentsFrom (index : LineIndex) (cursor : Cursor) : List Chunk → List Segment
  | [] => []
  | chunk :: more =>
    segmentsOf index chunk.start cursor true chunk.text ++
      segmentsFrom index ((chunk.text ++ chunk.inserted).foldl Cursor.advance cursor) more

/-- The source map of the edited text. -/
def map? (buffer : SpliceBuffer) (path : String) : Option SourceMap :=
  buffer.chunks?.map fun chunks =>
    { path, source := String.ofList buffer.original,
      segments := segmentsFrom (LineIndex.ofText buffer.original) {} chunks }

end SpliceBuffer

end Provenance
