/-! # Percent encoding

  A component of a URI is written in two steps: every byte outside the
  unreserved characters becomes a percent escape, and then the escapes of the
  five marks that a component may hold bare are put back.
-/

namespace Provenance.Text

/-- Upper-case hexadecimal digit of a number below sixteen. -/
def hexDigit (n : Nat) : Char :=
  Char.ofNat (if n < 10 then '0'.toNat + n else 'A'.toNat + (n - 10))

/-- The unreserved characters: ASCII letters, digits and `- _ . ~`. -/
def isUnreserved (c : Char) : Bool :=
  c.isAlphanum || c = '-' || c = '_' || c = '.' || c = '~'

/-- The escape of one byte. -/
def percentEscape (b : UInt8) : List Char :=
  ['%', hexDigit (b.toNat / 16), hexDigit (b.toNat % 16)]

/-- Escapes the bytes of every reserved character. -/
def percentEncode (s : List Char) : List Char :=
  s.flatMap fun c =>
    if isUnreserved c then [c] else (String.utf8EncodeChar c).flatMap percentEscape

/-- Replaces the occurrences of a pattern from left to right, dropping first
    `skip` characters that an occurrence has already covered. -/
def replaceFrom (pattern new : List Char) : Nat → List Char → List Char
  | _, [] => []
  | skip + 1, _ :: r => replaceFrom pattern new skip r
  | 0, c :: r =>
    if pattern.isPrefixOf (c :: r) then new ++ replaceFrom pattern new (pattern.length - 1) r
    else c :: replaceFrom pattern new 0 r

/-- Replaces every occurrence of a pattern that is not empty. -/
def replaceAll (pattern new s : List Char) : List Char := replaceFrom pattern new 0 s

/-- The escapes of the marks that a URI component holds bare. -/
def bareMarks : List (List Char × Char) :=
  [(['%', '2', '1'], '!'), (['%', '2', '7'], '\''), (['%', '2', '8'], '('),
   (['%', '2', '9'], ')'), (['%', '2', 'A'], '*')]

/-- A text as one component of a URI. -/
def encodeUriComponent (s : List Char) : List Char :=
  bareMarks.foldl (fun text mark => replaceAll mark.1 [mark.2] text) (percentEncode s)

end Provenance.Text
