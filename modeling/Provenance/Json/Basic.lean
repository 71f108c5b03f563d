import Provenance.Double

/-! # JSON documents

  The values of JSON and their compact text.  Whole numbers are kept apart from
  fractional ones, because the text of a fractional number keeps its point.
  The members of an object that was read are in the order of their keys.
-/

namespace Provenance

/-! ## §1. Values -/

/-- A number of a JSON document. -/
inductive JsonNumber where
  | whole (value : Int)
  | fractional (negative : Bool) (magnitude : Double)
deriving DecidableEq, Repr

/-- A JSON document. -/
inductive Json where
  | null
  | bool (value : Bool)
  | number (value : JsonNumber)
  | string (value : String)
  | array (items : List Json)
  | object (members : List (String × Json))
deriving Inhabited

namespace Json

/-! ## §2. Text -/

/-- Lower-case hexadecimal digits, as many as `width` asks for. -/
def lowerHex : Nat → Nat → List Char
  | 0, _ => []
  | width + 1, n => lowerHex width (n / 16) ++ [Nat.digitChar (n % 16)]

/-- A character of a string.  Quotes, backslashes and the controls below the
    space are escaped, all else is written as itself. -/
def escapeCharacter (c : Char) : List Char :=
  if c = '"' then ['\\', '"']
  else if c = '\\' then ['\\', '\\']
  else if c = '\x08' then ['\\', 'b']
  else if c = '\t' then ['\\', 't']
  else if c = '\n' then ['\\', 'n']
  else if c = '\x0c' then ['\\', 'f']
  else if c = '\r' then ['\\', 'r']
  else if c.toNat < 0x20 then '\\' :: 'u' :: lowerHex 4 c.toNat
  else [c]

/-- A string in quotes. -/
def quote (s : String) : List Char := '"' :: s.toList.flatMap escapeCharacter ++ ['"']

end Json

/-- The text of a number. -/
def JsonNumber.write : JsonNumber → List Char
  | .whole value =>
    if value < 0 then '-' :: Double.digitsOf value.natAbs else Double.digitsOf value.natAbs
  | .fractional negative magnitude =>
    if negative then '-' :: magnitude.jsonText else magnitude.jsonText

namespace Json

/-- Texts with commas between them. -/
def commaSeparated : List (List Char) → List Char
  | [] => []
  | [text] => text
  | text :: rest => text ++ ',' :: commaSeparated rest

mutual

/-- The compact text of a document. -/
def write : Json → List Char
  | .null => ['n', 'u', 'l', 'l']
  | .bool true => ['t', 'r', 'u', 'e']
  | .bool false => ['f', 'a', 'l', 's', 'e']
  | .number value => value.write
  | .string value => quote value
  | .array items => '[' :: commaSeparated (writeItems items) ++ [']']
  | .object members => '{' :: commaSeparated (writeMembers members) ++ ['}']

/-- The texts of the items of an array. -/
def writeItems : List Json → List (List Char)
  | [] => []
  | item :: rest => write item :: writeItems rest

/-- The texts of the members of an object. -/
def writeMembers : List (String × Json) → List (List Char)
  | [] => []
  | (key, value) :: rest => (quote key ++ ':' :: write value) :: writeMembers rest

end

/-- The compact text of a document, as a string. -/
def text (document : Json) : String := String.ofList document.write

/-- A member list in the order of the keys with one member more; a member of the
    same key is replaced. -/
def insertMember (key : String) (value : Json) : List (String × Json) → List (String × Json)
  | [] => [(key, value)]
  | (k, v) :: rest =>
    if key = k then (key, value) :: rest
    else if key < k then (key, value) :: (k, v) :: rest
    else (k, v) :: insertMember key value rest

end Json

end Provenance
