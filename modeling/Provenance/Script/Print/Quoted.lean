import Provenance.Script.Lexer

/-! # Strings in scripts

  A string is printed between double quotes, with escapes for its quotes, for the
  controls that have one, and for what a reader could take for a line end or for
  the end of a surrounding script.
-/

namespace Provenance.Script.Print

/-! ## §1. Ends of scripts -/

/-- Whether a text goes on with a word, whatever the case of its letters. -/
def startsWithWord (word s : List Char) : Bool :=
  (s.take word.length).map Char.toLower == word

/-- A text in which no end of a script stands: the slash of one is escaped. -/
def hideScriptEnd : List Char → List Char
  | '<' :: '/' :: r =>
    if startsWithWord ['s', 'c', 'r', 'i', 'p', 't'] r then '<' :: '\\' :: '/' :: hideScriptEnd r
    else '<' :: hideScriptEnd ('/' :: r)
  | c :: r => c :: hideScriptEnd r
  | [] => []
termination_by s => s.length

/-! ## §2. Escapes -/

/-- A character of a string in front of others. -/
def stringCharacter (c : Char) (rest : List Char) : List Char :=
  if c = '"' then ['\\', '"']
  else if c = '\\' then ['\\', '\\']
  else if c = '\n' then ['\\', 'n']
  else if c = '\r' then ['\\', 'r']
  else if c = '\x00' then
    if rest.head?.any Char.isDigit then ['\\', 'x', '0', '0'] else ['\\', '0']
  else if c = '\x07' then ['\\', 'x', '0', '7']
  else if c = '\x08' then ['\\', 'b']
  else if c = '\x0b' then ['\\', 'v']
  else if c = '\x0c' then ['\\', 'f']
  else if c = '\x1b' then ['\\', 'x', '1', 'B']
  else if c = '\u2028' then ['\\', 'u', '2', '0', '2', '8']
  else if c = '\u2029' then ['\\', 'u', '2', '0', '2', '9']
  else if c = '\xa0' then ['\\', 'x', 'A', '0']
  else [c]

/-- The characters of a string; `lone` says that marks in it name halves of pairs. -/
def stringCharacters (lone : Bool) : List Char → List Char
  | [] => []
  | '\uFFFD' :: a :: b :: x :: y :: r =>
    if lone then
      (if [a, b, x, y] = fourLowerHex 0xFFFD then ['\uFFFD'] else ['\\', 'u', a, b, x, y]) ++
        stringCharacters lone r
    else '\uFFFD' :: stringCharacters lone (a :: b :: x :: y :: r)
  | c :: r => stringCharacter c r ++ stringCharacters lone r
termination_by s => s.length

/-- A string in double quotes; `lone` says that marks in it name halves of pairs. -/
def stringText (value : String) (lone : Bool) : List Char :=
  '"' :: hideScriptEnd (stringCharacters lone value.toList) ++ ['"']

/-- The quote around the text of a directive, which has no escapes of its own: the
    one that its first quote is not. -/
def directiveQuote : List Char → Char
  | '\\' :: _ :: r => directiveQuote r
  | '"' :: _ => '\''
  | '\'' :: _ => '"'
  | _ :: r => directiveQuote r
  | [] => '"'

/-- A directive in quotes. -/
def directiveText (raw : String) : List Char :=
  let quote := directiveQuote raw.toList
  quote :: raw.toList ++ [quote]

/-- The value of an attribute in quotes.  It stands as it is, so that a value with
    double quotes is put between single ones. -/
def attributeText (value : String) : List Char :=
  let quote := if value.contains '"' then '\'' else '"'
  quote :: value.toList ++ [quote]

end Provenance.Script.Print
