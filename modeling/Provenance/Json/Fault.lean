import Provenance.Json.Basic
import Provenance.Text.Printable

/-! # What is wrong with a document

  A fault is either one of syntax or a value that does not have the shape its
  reader asked for.  Faults found in a text also say where: by the line and the
  byte within it, both as counted when the fault was noticed.
-/

namespace Provenance.Json

/-! ## §1. Shapes -/

/-- What stands where something else was expected. -/
inductive Shape where
  | null
  | bool (value : Bool)
  | number (value : JsonNumber)
  | string (value : String)
  | sequence
  | map

/-- The shape of a document. -/
def shape : Json → Shape
  | .null => .null
  | .bool value => .bool value
  | .number value => .number value
  | .string value => .string value
  | .array _ => .sequence
  | .object _ => .map

/-- The words for a shape. -/
def Shape.describe : Shape → String
  | .null => "null"
  | .bool value => "boolean `" ++ (if value then "true" else "false") ++ "`"
  | .number (.whole value) => "integer `" ++ String.ofList (JsonNumber.whole value).write ++ "`"
  | .number value => "floating point `" ++ String.ofList value.write ++ "`"
  | .string value => "string " ++ String.ofList (Text.printable value.toList)
  | .sequence => "sequence"
  | .map => "map"

/-! ## §2. Faults -/

/-- What can be wrong with a document. -/
inductive Fault where
  | endInList
  | endInObject
  | endInString
  | endInValue
  | expectedColon
  | expectedListEnd
  | expectedObjectEnd
  | expectedWord
  | expectedValue
  | invalidEscape
  | invalidNumber
  | numberOutOfRange
  | controlCharacter
  | keyNotString
  | loneSurrogate
  | trailingComma
  | trailingCharacters
  | endOfSurrogate
  | tooDeep
  | wrongType (found : Shape) (expected : String)
  | wrongValue (found : Shape) (expected : String)
  | wrongLength (length : Nat) (expected : String)
  | duplicateField (name : String)
  | unknownVariant (name : String) (known : List String)

/-- Names in backquotes, joined the way a sentence lists alternatives. -/
def alternatives : List String → String
  | [] => ""
  | [name] => "`" ++ name ++ "`"
  | [first, second] => "`" ++ first ++ "` or `" ++ second ++ "`"
  | names => "one of " ++ ", ".intercalate (names.map fun name => "`" ++ name ++ "`")

/-- The words for a fault. -/
def Fault.message : Fault → String
  | .endInList => "EOF while parsing a list"
  | .endInObject => "EOF while parsing an object"
  | .endInString => "EOF while parsing a string"
  | .endInValue => "EOF while parsing a value"
  | .expectedColon => "expected `:`"
  | .expectedListEnd => "expected `,` or `]`"
  | .expectedObjectEnd => "expected `,` or `\x7d`"
  | .expectedWord => "expected ident"
  | .expectedValue => "expected value"
  | .invalidEscape => "invalid escape"
  | .invalidNumber => "invalid number"
  | .numberOutOfRange => "number out of range"
  | .controlCharacter =>
    "control character (\\u0000-\\u001F) found while parsing a string"
  | .keyNotString => "key must be a string"
  | .loneSurrogate => "lone leading surrogate in hex escape"
  | .trailingComma => "trailing comma"
  | .trailingCharacters => "trailing characters"
  | .endOfSurrogate => "unexpected end of hex escape"
  | .tooDeep => "recursion limit exceeded"
  | .wrongType found expected => "invalid type: " ++ found.describe ++ ", expected " ++ expected
  | .wrongValue found expected =>
    "invalid value: " ++ found.describe ++ ", expected " ++ expected
  | .wrongLength length expected =>
    "invalid length " ++ toString length ++ ", expected " ++ expected
  | .duplicateField name => "duplicate field `" ++ name ++ "`"
  | .unknownVariant name known =>
    "unknown variant `" ++ name ++ "`, expected " ++ alternatives known

/-- A fault in a text, at a byte offset. -/
structure LocatedFault where
  fault : Fault
  offset : Nat

/-- The line, counted from one, and the byte within the line of a byte offset,
    where only line feeds end a line. -/
def lineAndByte : List Char → Nat → Nat × Nat
  | [], offset => (1, offset)
  | c :: r, offset =>
    if offset = 0 then (1, 0)
    else if c = '\n' then
      let (line, byte) := lineAndByte r (offset - 1)
      (line + 1, byte)
    else
      let (line, byte) := lineAndByte r (offset - c.utf8Size)
      (line, if line = 1 then byte + min offset c.utf8Size else byte)

/-- The words for a fault in a text. -/
def LocatedFault.message (fault : LocatedFault) (source : List Char) : String :=
  let (line, byte) := lineAndByte source fault.offset
  fault.fault.message ++ " at line " ++ toString line ++ " column " ++ toString byte

end Provenance.Json
