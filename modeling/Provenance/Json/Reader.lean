import Provenance.Json.Fault

/-! # Reading documents

  A reader consumes the characters of a text and counts its bytes.  Values can
  be read for their content, or skipped; skipping checks less, since it neither
  pairs surrogates nor looks at the size of numbers.
-/

namespace Provenance.Json

/-! ## §1. The reader -/

/-- The text that is left and the byte offset at which it starts. -/
structure ReadState where
  rest : List Char
  offset : Nat := 0

/-- A step of reading. -/
abbrev Reader := StateT ReadState (Except LocatedFault)

namespace Reader

/-- Fails at the present offset. -/
def fail {α : Type} (fault : Fault) : Reader α := fun s => .error ⟨fault, s.offset⟩

/-- Fails behind the next byte, if there is one. -/
def failAhead {α : Type} (fault : Fault) : Reader α := fun s =>
  .error ⟨fault, if s.rest.isEmpty then s.offset else s.offset + 1⟩

/-- The next character, which stays. -/
def peek : Reader (Option Char) := fun s => .ok (s.rest.head?, s)

/-- Drops the next character. -/
def advance : Reader Unit := fun s =>
  match s.rest with
  | [] => .ok ((), s)
  | c :: r => .ok ((), ⟨r, s.offset + c.utf8Size⟩)

/-- The blanks of JSON. -/
def isJsonBlank (c : Char) : Bool := c = ' ' || c = '\n' || c = '\t' || c = '\r'

/-- The characters at the front of a list that satisfy a test, with what is left
    and the offset there. -/
def splitWhile (p : Char → Bool) : List Char → Nat → List Char × ReadState
  | [], offset => ([], ⟨[], offset⟩)
  | c :: r, offset =>
    if p c then
      let (taken, state) := splitWhile p r (offset + c.utf8Size)
      (c :: taken, state)
    else ([], ⟨c :: r, offset⟩)

/-- Takes the characters that satisfy a test. -/
def takeWhile (p : Char → Bool) : Reader (List Char) := fun s =>
  .ok (splitWhile p s.rest s.offset)

/-- Drops blanks and looks at the next character. -/
def peekToken : Reader (Option Char) := do
  let _ ← takeWhile isJsonBlank
  peek

/-- Reads the rest of a word whose first letter is read. -/
def word : List Char → Reader Unit
  | [] => pure ()
  | expected :: more => do
    match ← peek with
    | none => fail .endInValue
    | some c =>
      advance
      if c = expected then word more else fail .expectedWord

/-! ## §2. Numbers -/

/-- Appends digits to a significand for as long as it stays below 2^64: the
    significand and the digits that were not used. -/
def accumulate : Nat → List Char → Nat × List Char
  | n, [] => (n, [])
  | n, d :: rest =>
    let next := 10 * n + (d.toNat - '0'.toNat)
    if next < UInt64.size then accumulate next rest else (n, d :: rest)

/-- The nearest double to a product or quotient with a power of ten that is
    itself rounded first. -/
def scale? (x : Double) (exponent : Int) : Option Double := do
  let power ← Double.ofDecimal? 1 exponent.natAbs
  let (n, d) := x.ratio
  let (pn, pd) := power.ratio
  if 0 ≤ exponent then Double.ofRatio? (n * pn) (d * pd) else Double.ofRatio? (n * pd) (d * pn)

/-- The double of a significand and a decimal exponent.  Exponents below -308
    are reached in several divisions; `none` is a number out of range. -/
def assemble? : Nat → Double → Int → Option Double
  | 0, x, _ => some x
  | fuel + 1, x, exponent =>
    if exponent.natAbs ≤ 308 then scale? x exponent
    else if x.significand = 0 then some x
    else if 0 ≤ exponent then none
    else (scale? x (-308)).bind fun y => assemble? fuel y (exponent + 308)

/-- A fractional number of a significand and a decimal exponent. -/
def fractional (negative : Bool) (significand : Nat) (exponent : Int) : Reader JsonNumber :=
  match (Double.ofNat? significand).bind fun x => assemble? 8 x exponent with
  | some x => pure (.fractional negative x)
  | none => fail .numberOutOfRange

/-- Reads an exponent mark and its digits, if one follows. -/
def exponentPart : Reader Int := do
  match ← peek with
  | some c =>
    if c = 'e' || c = 'E' then
      advance
      let sign ← peek
      if sign = some '+' || sign = some '-' then advance
      let digits ← takeWhile Char.isDigit
      if digits.isEmpty then
        match ← peek with
        | none => fail .endInValue
        | some _ =>
          advance
          fail .invalidNumber
      else
        let value : Int := (String.ofList (digits.take 12)).toNat?.getD 0
        pure (if sign = some '-' then -value else value)
    else pure 0
  | none => pure 0

/-- Reads the number whose sign is read. -/
def number (negative : Bool) : Reader JsonNumber := do
  let start := (← get).offset
  let digits ← takeWhile Char.isDigit
  match digits with
  | [] =>
    match ← peek with
    | none => fail .endInValue
    | some _ =>
      advance
      fail .invalidNumber
  | '0' :: _ :: _ => throw ⟨.invalidNumber, start + 2⟩
  | _ =>
    let (whole, unused) := accumulate 0 digits
    let dropped : Int := unused.length
    match ← peek with
    | some '.' =>
      advance
      let places ← takeWhile Char.isDigit
      if places.isEmpty then
        match ← peek with
        | none => failAhead .endInValue
        | some _ => failAhead .invalidNumber
      else
        let (significand, spare) :=
          if unused.isEmpty then accumulate whole places else (whole, places)
        let exponent ← exponentPart
        let used : Int := (places.length : Int) - spare.length
        fractional negative significand (dropped - used + exponent)
    | some c =>
      if c = 'e' || c = 'E' then
        let exponent ← exponentPart
        fractional negative whole (dropped + exponent)
      else finish whole dropped
    | none => finish whole dropped
where
  /-- A number without a point and without an exponent. -/
  finish (whole : Nat) (dropped : Int) : Reader JsonNumber :=
    if dropped ≠ 0 then fractional negative whole dropped
    else if !negative then pure (.whole whole)
    else if whole = 0 || Nat.pow 2 63 < whole then fractional true whole 0
    else pure (.whole (-whole))

/-! ## §3. Strings -/

/-- The value of a hexadecimal digit. -/
def hexValue? (c : Char) : Option Nat :=
  if '0' ≤ c ∧ c ≤ '9' then some (c.toNat - '0'.toNat)
  else if 'a' ≤ c ∧ c ≤ 'f' then some (c.toNat - 'a'.toNat + 10)
  else if 'A' ≤ c ∧ c ≤ 'F' then some (c.toNat - 'A'.toNat + 10)
  else none

/-- Reads the four hexadecimal digits of an escape. -/
def fourHex : Reader Nat := fun s =>
  let bytes := s.rest.foldl (fun n c => n + c.utf8Size) 0
  if bytes < 4 then .error ⟨.endInString, s.offset + bytes⟩
  else
    let digits := (s.rest.take 4).mapM hexValue?
    match digits with
    | some [a, b, c, d] =>
      .ok (((a * 16 + b) * 16 + c) * 16 + d, ⟨s.rest.drop 4, s.offset + 4⟩)
    | _ => .error ⟨.invalidEscape, s.offset + 4⟩

/-- Reads a character that must follow a high surrogate. -/
def pairMark (expected : Char) : Reader Unit := do
  match ← peek with
  | none => fail .endInString
  | some c =>
    if c = expected then advance
    else fun s => .error ⟨.endOfSurrogate, s.offset + 1⟩

/-- Reads the digits of an escape by code unit, with those of its second half if
    it begins a pair. -/
def unicodeEscape (keep : Bool) : Reader Char := do
  let n ← fourHex
  if !keep then pure 'x'
  else if 0xDC00 ≤ n ∧ n ≤ 0xDFFF then fail .loneSurrogate
  else if n < 0xD800 ∨ 0xDBFF < n then pure (Char.ofNat n)
  else
    pairMark '\\'
    pairMark 'u'
    let low ← fourHex
    if low < 0xDC00 ∨ 0xDFFF < low then fail .loneSurrogate
    else pure (Char.ofNat ((n - 0xD800) * 0x400 + (low - 0xDC00) + 0x10000))

/-- Reads the part of an escape behind the backslash. -/
def escape (keep : Bool) : Reader Char := do
  match ← peek with
  | none => fail .endInString
  | some c =>
    if c = 'u' then
      advance
      unicodeEscape keep
    else if c.utf8Size ≠ 1 then fun s => .error ⟨.invalidEscape, s.offset + 1⟩
    else
      advance
      match c with
      | '"' => pure '"'
      | '\\' => pure '\\'
      | '/' => pure '/'
      | 'b' => pure '\x08'
      | 'f' => pure '\x0c'
      | 'n' => pure '\n'
      | 'r' => pure '\r'
      | 't' => pure '\t'
      | _ => fail .invalidEscape

/-- Reads the characters of a string up to its closing quote. -/
def characters (keep : Bool) : Nat → List Char → Reader String
  | 0, _ => fail .endInString
  | fuel + 1, read => do
    match ← peek with
    | none => fail .endInString
    | some c =>
      if c = '"' then
        advance
        pure (String.ofList read.reverse)
      else if c = '\\' then
        advance
        let c ← escape keep
        characters keep fuel (c :: read)
      else if c.toNat < 0x20 then
        advance
        fail .controlCharacter
      else
        advance
        characters keep fuel (c :: read)

/-- Reads a string whose opening quote is read. -/
def string (keep : Bool) : Reader String := do
  characters keep ((← get).rest.length + 1) []

/-! ## §4. Values -/

/-- Moves to the next item of a list; `false` at its end, which stays. -/
def nextItem (keep first : Bool) : Reader Bool := do
  match ← peekToken with
  | none => failAhead .endInList
  | some ']' => pure false
  | some ',' =>
    if first then pure true
    else
      advance
      match ← peekToken with
      | some ']' => failAhead (if keep then .trailingComma else .expectedValue)
      | some _ => pure true
      | none => failAhead .endInValue
  | some _ => if first then pure true else failAhead .expectedListEnd

/-- Moves to the next key of an object; `false` at its end, which stays. -/
def nextKey (keep first : Bool) : Reader Bool := do
  match ← peekToken with
  | none => failAhead .endInObject
  | some '}' => pure false
  | some c =>
    if c = ',' && !first then
      advance
      match ← peekToken with
      | some '"' => pure true
      | some '}' => failAhead (if keep then .trailingComma else .keyNotString)
      | some _ => failAhead .keyNotString
      | none => failAhead (if keep then .endInValue else .endInObject)
    else if !first then failAhead .expectedObjectEnd
    else if c = '"' then pure true
    else failAhead .keyNotString

/-- Reads the colon behind a key. -/
def colon : Reader Unit := do
  match ← peekToken with
  | some ':' => advance
  | some _ => failAhead .expectedColon
  | none => failAhead .endInObject

/-- Reads a number, and drops it unless it is kept. -/
def numberValue (keep negative : Bool) : Reader Json := fun s =>
  match number negative s with
  | .ok (value, s) => .ok (.number value, s)
  | .error fault =>
    match fault.fault, keep with
    | .numberOutOfRange, false => .ok (.null, ⟨s.rest.drop (fault.offset - s.offset), fault.offset⟩)
    | _, _ => .error fault

mutual

/-- Reads a value. `depth` bounds how deep values may nest. -/
def value (keep : Bool) : Nat → Nat → Reader Json
  | 0, _ => fail .tooDeep
  | fuel + 1, depth => do
    match ← peekToken with
    | none => failAhead .endInValue
    | some 'n' => advance; word ['u', 'l', 'l']; pure .null
    | some 't' => advance; word ['r', 'u', 'e']; pure (.bool true)
    | some 'f' => advance; word ['a', 'l', 's', 'e']; pure (.bool false)
    | some '-' => advance; numberValue keep true
    | some '"' => do
      advance
      let text ← string keep
      pure (.string text)
    | some '[' =>
      if keep && depth ≤ 1 then failAhead .tooDeep
      else
        advance
        let items ← items keep fuel (depth - 1) []
        pure (.array items)
    | some '{' =>
      if keep && depth ≤ 1 then failAhead .tooDeep
      else
        advance
        let members ← members keep fuel (depth - 1) true []
        pure (.object members)
    | some c => if c.isDigit then numberValue keep false else failAhead .expectedValue

/-- Reads the items of a list up to its end. -/
def items (keep : Bool) : Nat → Nat → List Json → Reader (List Json)
  | 0, _, _ => fail .tooDeep
  | fuel + 1, depth, read => do
    if ← nextItem keep read.isEmpty then
      let item ← value keep fuel depth
      items keep fuel depth (item :: read)
    else
      advance
      pure read.reverse

/-- Reads the members of an object up to its end. -/
def members (keep : Bool) : Nat → Nat → Bool → List (String × Json) → Reader (List (String × Json))
  | 0, _, _, _ => fail .tooDeep
  | fuel + 1, depth, first, read => do
    if ← nextKey keep first then
      advance
      let key ← string keep
      colon
      let item ← value keep fuel depth
      members keep fuel depth false (insertMember key item read)
    else
      advance
      pure read

end

/-- Reads a value as a document does: up to 127 values may enclose one. -/
def document : Reader Json := do value true (2 * (← get).rest.length + 2) 128

/-- Skips a value. -/
def skip : Reader Unit := do
  let _ ← value false (2 * (← get).rest.length + 2) 0

/-- Checks that nothing but blanks follows. -/
def finish : Reader Unit := do
  match ← peekToken with
  | none => pure ()
  | some _ => failAhead .trailingCharacters

end Reader

/-- Reads a text that holds one document. -/
def parse (source : List Char) : Except LocatedFault Json :=
  ((do let document ← Reader.document; Reader.finish; pure document : Reader Json).run
    ⟨source, 0⟩).map (·.1)

end Provenance.Json
