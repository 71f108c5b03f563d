import Provenance.Json.Basic

/-! # Source maps

  A source map lists, in the order of the generated text, places of it and the
  places of the source they stem from.  Its text packs the list into differences
  written in base 64, five bits to a digit, least significant first.
-/

namespace Provenance

/-- One place of the generated text with its place in the source; lines and
    columns count from zero. -/
structure Segment where
  generatedLine : Nat
  generatedColumn : Nat
  line : Nat
  column : Nat
  /-- The index of the name that the source has at this place, if it differs. -/
  name : Option Nat := none
deriving DecidableEq, Repr

/-- The map of a text that was generated from one source. -/
structure SourceMap where
  path : String
  source : String
  names : List String := []
  segments : List Segment
deriving DecidableEq, Repr

namespace SourceMap

/-! ## §1. Digits -/

/-- The digit of base 64 for a number below sixty-four. -/
def base64Digit (n : Nat) : Char :=
  Char.ofNat <|
    if n < 26 then 'A'.toNat + n
    else if n < 52 then 'a'.toNat + (n - 26)
    else if n < 62 then '0'.toNat + (n - 52)
    else if n = 62 then '+'.toNat
    else '/'.toNat

/-- A number in digits of five bits, least significant first; every digit but
    the last carries the continuation bit. -/
def encodeNat (n : Nat) : List Char :=
  if n < 32 then [base64Digit n] else base64Digit (32 + n % 32) :: encodeNat (n / 32)
termination_by n

/-- A difference: the lowest bit is its sign. -/
def encodeInt (n : Int) : List Char :=
  encodeNat (2 * n.natAbs + if n < 0 then 1 else 0)

/-! ## §2. Mappings -/

/-- What the differences of the next segment are taken from. -/
structure Previous where
  segment : Option Segment := none
  generatedLine : Nat := 0
  generatedColumn : Nat := 0
  line : Nat := 0
  column : Nat := 0
  name : Nat := 0

/-- The fields of a segment, as differences. -/
def encodeSegment (previous : Previous) (generatedColumn : Nat) (s : Segment) : List Char :=
  encodeInt ((s.generatedColumn : Int) - generatedColumn) ++ encodeInt 0 ++
    encodeInt ((s.line : Int) - previous.line) ++
    encodeInt ((s.column : Int) - previous.column) ++
    match s.name with
    | some name => encodeInt ((name : Int) - previous.name)
    | none => []

/-- The text of the segments that follow `previous`.  A semicolon ends each
    generated line, a comma stands between segments of one line, and a segment
    equal to the one before it on its line is left out. -/
def encodeSegments (previous : Previous) : List Segment → List Char
  | [] => []
  | s :: rest =>
    let next : Previous :=
      { segment := some s, generatedLine := s.generatedLine,
        generatedColumn := s.generatedColumn, line := s.line, column := s.column,
        name := s.name.getD previous.name }
    let lines := s.generatedLine - previous.generatedLine
    if lines = 0 then
      if previous.segment = some s then encodeSegments previous rest
      else
        (if previous.segment.isSome then [','] else []) ++
          encodeSegment previous previous.generatedColumn s ++ encodeSegments next rest
    else
      List.replicate lines ';' ++ encodeSegment previous 0 s ++ encodeSegments next rest

/-- The packed list of segments. -/
def mappings (map : SourceMap) : List Char := encodeSegments {} map.segments

/-- The map as a JSON document. -/
def toJson (map : SourceMap) : Json :=
  .object
    [("version", .number (.whole 3)),
     ("names", .array (map.names.map .string)),
     ("sources", .array [.string map.path]),
     ("sourcesContent", .array [.string map.source]),
     ("mappings", .string (String.ofList map.mappings))]

end SourceMap

end Provenance
