import Provenance.Script.Token
import Provenance.Text.Blank
import Provenance.Text.Identifier

/-! # Reading tokens

  Reading starts at a cursor and yields the next token with the cursor behind
  it.  Which characters make up a token can depend on what is expected there: a
  slash may start a regular expression, a closing brace may go on with a template
  literal, and markup has names, strings and texts of its own.  Each of these is
  a reader of its own, and the reader of a program chooses among them.

  Every reader is partial in the same way: `none` says that the text is not valid
  there.
-/

namespace Provenance.Script

open Text (Cursor isLineEnd isScriptBlank isIdentifierStart isIdentifierPart)

/-! ## §1. Blanks and comments -/

/-- What has been seen between two tokens. -/
structure Gap where
  lineBefore : Bool
  /-- The comments that can belong to the token behind the gap, latest first. -/
  pending : List Comment := []
  /-- What the comments say of effects. -/
  notes : List EffectNote := []

/-- A line ends.  A comment that began on the line of the token in front belongs
    to that token. -/
def Gap.endLine (gap : Gap) : Gap :=
  let pending := match gap.pending with
    | comment :: rest => if gap.lineBefore then { comment with lineBehind := true } :: rest else []
    | [] => []
  { gap with lineBefore := true, pending }

/-- A comment ends.  `afterOpening` says that the token in front lets a line comment
    behind it belong to the token behind that. -/
def Gap.addComment (gap : Gap) (afterOpening isLine : Bool) (text : List Char) : Gap :=
  let comment : Comment :=
    { text := String.ofList text, isLine, lineBefore := gap.lineBefore, lineBehind := isLine,
      owner := 0 }
  let gap := { gap with notes := comment.note?.toList ++ gap.notes }
  if isLine then
    if gap.lineBefore || afterOpening then
      { gap with lineBefore := true, pending := comment :: gap.pending }
    else { gap with lineBefore := true, pending := [] }
  else { gap with pending := comment :: gap.pending }

/-- Where in a gap reading is. -/
inductive GapMode where
  | blank
  /-- Inside a comment; its text so far is in reverse. -/
  | line (text : List Char)
  | block (text : List Char)

/-- Reads a gap: what it held, whether a block comment in it spans lines, and the
    text and the offset behind it. -/
def readGap (afterOpening : Bool) (offset : Nat) (gap : Gap) (spans : Bool) :
    GapMode → List Char → Option (Gap × Bool × Cursor)
  | .blank, [] => some (gap, spans, ⟨offset, []⟩)
  | .line text, [] => some (gap.addComment afterOpening true text.reverse, spans, ⟨offset, []⟩)
  | .block _, [] => none
  | .blank, '/' :: '/' :: r => readGap afterOpening (offset + 2) gap spans (.line ['/', '/']) r
  | .blank, '/' :: '*' :: r => readGap afterOpening (offset + 2) gap spans (.block ['*', '/']) r
  | .blank, c :: r =>
    if isLineEnd c then
      readGap afterOpening (offset + c.utf8Size) gap.endLine spans .blank r
    else if isScriptBlank c then readGap afterOpening (offset + c.utf8Size) gap spans .blank r
    else some (gap, spans, ⟨offset, c :: r⟩)
  | .line text, c :: r =>
    if isLineEnd c then
      readGap afterOpening (offset + c.utf8Size)
        (gap.addComment afterOpening true text.reverse) spans .blank r
    else readGap afterOpening (offset + c.utf8Size) gap spans (.line (c :: text)) r
  | .block text, '*' :: '/' :: r =>
    readGap afterOpening (offset + 2)
      (gap.addComment afterOpening false ('/' :: '*' :: text).reverse) spans .blank r
  | .block text, c :: r =>
    readGap afterOpening (offset + c.utf8Size) gap (spans || isLineEnd c) (.block (c :: text)) r

/-! ## §2. Escapes by code point -/

/-- The value of a hexadecimal digit. -/
def hexValue? (c : Char) : Option Nat :=
  if '0' ≤ c ∧ c ≤ '9' then some (c.toNat - '0'.toNat)
  else if 'a' ≤ c ∧ c ≤ 'f' then some (c.toNat - 'a'.toNat + 10)
  else if 'A' ≤ c ∧ c ≤ 'F' then some (c.toNat - 'A'.toNat + 10)
  else none

/-- Reads hexadecimal digits up to a closing brace, at least one. -/
def bracedHex? : Option Nat → List Char → Option (Nat × List Char)
  | value, '}' :: r => value.map fun n => (n, r)
  | value, c :: r => (hexValue? c).bind fun d => bracedHex? (some (value.getD 0 * 16 + d)) r
  | _, [] => none

/-- Reads four hexadecimal digits. -/
def fourHex? : List Char → Option (Nat × List Char)
  | a :: b :: c :: d :: r => do
    let a ← hexValue? a
    let b ← hexValue? b
    let c ← hexValue? c
    let d ← hexValue? d
    return (((a * 16 + b) * 16 + c) * 16 + d, r)
  | _ => none

/-- Reads the part of an escape behind `\u`: a code point, at most U+10FFFF. -/
def codePoint? : List Char → Option (Nat × List Char)
  | '{' :: r => (bracedHex? none r).filter fun (n, _) => n ≤ 0x10FFFF
  | r => fourHex? r

/-! ## §3. Words -/

/-- Reads the characters of a name: the name in reverse, whether it has an escape,
    and the rest. -/
def nameChars : Nat → List Char → Bool → List Char → Option (List Char × Bool × List Char)
  | 0, _, _, _ => none
  | fuel + 1, name, _, '\\' :: 'u' :: r => do
    let (n, r) ← codePoint? r
    let c ← if n.isValidChar then some (Char.ofNat n) else none
    if (if name.isEmpty then isIdentifierStart c else isIdentifierPart c) then
      nameChars fuel (c :: name) true r
    else none
  | _, _, _, '\\' :: _ => none
  | fuel + 1, name, escaped, c :: r =>
    if (if name.isEmpty then isIdentifierStart c else isIdentifierPart c) then
      nameChars fuel (c :: name) escaped r
    else some (name, escaped, c :: r)
  | _, name, escaped, [] => some (name, escaped, [])

/-- Reads a name that has at least one character. -/
def name? (s : List Char) : Option (List Char × Bool × List Char) :=
  (nameChars (s.length + 1) [] false s).bind fun (name, escaped, rest) =>
    if name.isEmpty then none else some (name.reverse, escaped, rest)

/-! ## §4. Numbers -/

/-- Reads digits with single underscores between them; none at all are read too.
    `behindDigit` says that an underscore may come. -/
def digitRun (p : Char → Bool) : Bool → List Char → List Char × List Char
  | _, [] => ([], [])
  | behindDigit, c :: r =>
    if p c then
      let (digits, rest) := digitRun p true r
      (c :: digits, rest)
    else if c = '_' && behindDigit && r.head?.any p then digitRun p false r
    else ([], c :: r)

/-- Reads the exponent of a number, if there is one. -/
def exponent? (s : List Char) : Option (List Char × List Char) :=
  match s with
  | c :: r =>
    if c = 'e' || c = 'E' then
      let (sign, r) := match r with
        | '-' :: r => (['-'], r)
        | '+' :: r => ([], r)
        | r => ([], r)
      match digitRun Char.isDigit false r with
      | ([], _) => none
      | (digits, rest) => some ('e' :: sign ++ digits, rest)
    else some ([], s)
  | [] => some ([], [])

/-- Whether a number can end before these characters. -/
def endsNumber : List Char → Bool
  | [] => true
  | c :: _ => !(isIdentifierPart c || c = '\\')

/-- The digits of a base. -/
def isBaseDigit (base : Nat) (c : Char) : Bool := (hexValue? c).any (· < base)

/-- A number: its text without underscores, and whether a mark says that it is a
    whole number of any size. -/
structure NumberText where
  text : List Char
  isBig : Bool := false

/-- Reads digits behind the mark of a base. -/
def basedNumber? (base : Nat) (mark : Char) (s : List Char) : Option (NumberText × List Char) :=
  match digitRun (isBaseDigit base) false s with
  | ([], _) => none
  | (digits, 'n' :: r) => if endsNumber r then some (⟨'0' :: mark :: digits, true⟩, r) else none
  | (digits, r) => if endsNumber r then some (⟨'0' :: mark :: digits, false⟩, r) else none

/-- Reads what can follow the whole part of a decimal number. -/
def decimalTail? (whole : List Char) (s : List Char) : Option (NumberText × List Char) := do
  let (fraction, r) := match s with
    | '.' :: r =>
      let (digits, rest) := digitRun Char.isDigit false r
      ('.' :: digits, rest)
    | r => ([], r)
  let (exponent, r) ← exponent? r
  if endsNumber r then some (⟨whole ++ fraction ++ exponent, false⟩, r) else none

/-- Reads a number that starts with a digit. -/
def number? : List Char → Option (NumberText × List Char)
  | '0' :: 'x' :: r | '0' :: 'X' :: r => basedNumber? 16 'x' r
  | '0' :: 'o' :: r | '0' :: 'O' :: r => basedNumber? 8 'o' r
  | '0' :: 'b' :: r | '0' :: 'B' :: r => basedNumber? 2 'b' r
  | '0' :: 'n' :: r => if endsNumber r then some (⟨['0'], true⟩, r) else none
  | '0' :: c :: r =>
    if c.isDigit then
      let digits := (c :: r).takeWhile Char.isDigit
      let rest := (c :: r).dropWhile Char.isDigit
      if digits.all fun d => d ≤ '7' then
        if endsNumber rest then some (⟨'0' :: 'o' :: digits, false⟩, rest) else none
      else decimalTail? digits rest
    else decimalTail? ['0'] (c :: r)
  | s =>
    match digitRun Char.isDigit false s with
    | ([], _) => none
    | (digits, 'n' :: r) => if endsNumber r then some (⟨digits, true⟩, r) else none
    | (digits, r) => decimalTail? digits r

/-! ## §5. Strings and templates -/

/-- A unit of the value of a string: a character, or half of a pair alone. -/
inductive StringUnit where
  | character (c : Char)
  | loneSurrogate (n : Nat)
deriving DecidableEq, Repr

/-- The unit of a code point. -/
def StringUnit.ofCodePoint (n : Nat) : StringUnit :=
  if n.isValidChar then .character (Char.ofNat n) else .loneSurrogate n

/-- Four lower-case hexadecimal digits. -/
def fourLowerHex (n : Nat) : List Char :=
  [Nat.digitChar (n / 0x1000 % 16), Nat.digitChar (n / 0x100 % 16), Nat.digitChar (n / 16 % 16),
   Nat.digitChar (n % 16)]

/-- Whether a unit is half of a pair. -/
def StringUnit.isLone : StringUnit → Bool
  | .loneSurrogate _ => true
  | .character _ => false

/-- The text of a string value.  Where halves of pairs stand alone, each is
    written as U+FFFD with four hexadecimal digits, and so is U+FFFD itself. -/
def textOfUnits (units : List StringUnit) : List Char :=
  if units.any StringUnit.isLone then
    units.flatMap fun
      | .loneSurrogate n => '\uFFFD' :: fourLowerHex n
      | .character c => if c = '\uFFFD' then '\uFFFD' :: fourLowerHex 0xFFFD else [c]
  else
    units.flatMap fun
      | .character c => [c]
      | .loneSurrogate _ => []

/-- Joins the code point of an escape with the escape behind it, if the two are
    the halves of a pair. -/
def pairEscape (n : Nat) (r : List Char) : Nat × List Char :=
  match r with
  | '\\' :: 'u' :: r' =>
    if 0xD800 ≤ n ∧ n ≤ 0xDBFF then
      match fourHex? r' with
      | some (low, rest) =>
        if 0xDC00 ≤ low ∧ low ≤ 0xDFFF then
          ((n - 0xD800) * 0x400 + (low - 0xDC00) + 0x10000, rest)
        else (n, r)
      | none => (n, r)
    else (n, r)
  | _ => (n, r)

/-- The value of an octal digit. -/
def octalValue? (c : Char) : Option Nat := (hexValue? c).filter (· < 8)

/-- Reads an octal escape whose first digit is `d`. -/
def octalEscape (d : Nat) (r : List Char) : Nat × List Char :=
  match r with
  | b :: r' =>
    match octalValue? b with
    | none => (d, r)
    | some e =>
      match r' with
      | c :: r'' =>
        match octalValue? c with
        | some f => if d < 4 then ((d * 8 + e) * 8 + f, r'') else (d * 8 + e, r')
        | none => (d * 8 + e, r')
      | [] => (d * 8 + e, r')
  | [] => (d, r)

/-- Reads the part of an escape behind the backslash: the unit it stands for, if
    it stands for one, and the rest.  A template admits no octal escapes. -/
def escape? (inTemplate : Bool) : List Char → Option (Option StringUnit × List Char)
  | [] => none
  | '\r' :: '\n' :: r => some (none, r)
  | 'u' :: '{' :: r => do
    let (n, r) ← codePoint? ('{' :: r)
    return (some (.ofCodePoint n), r)
  | 'u' :: r => do
    let (n, r) ← fourHex? r
    let (n, r) := pairEscape n r
    return (some (.ofCodePoint n), r)
  | 'x' :: a :: b :: r => do
    let a ← hexValue? a
    let b ← hexValue? b
    return (some (.ofCodePoint (a * 16 + b)), r)
  | 'x' :: _ => none
  | c :: r =>
    if isLineEnd c then some (none, r)
    else if c.isDigit then
      if inTemplate then
        if c = '0' && !(r.head?.any Char.isDigit) then some (some (.character '\x00'), r) else none
      else
        match octalValue? c with
        | some d =>
          let (n, r) := octalEscape d r
          some (some (.ofCodePoint n), r)
        | none => some (some (.character c), r)
    else
      let value := match c with
        | 'n' => '\n'
        | 't' => '\t'
        | 'r' => '\r'
        | 'b' => '\x08'
        | 'f' => '\x0c'
        | 'v' => '\x0b'
        | c => c
      some (some (.character value), r)

/-- Reads the units of a string up to its closing quote. -/
def stringUnits : Nat → Char → List StringUnit → List Char → Option (List StringUnit × List Char)
  | 0, _, _, _ => none
  | _, _, _, [] => none
  | fuel + 1, quote, units, c :: r =>
    if c = quote then some (units.reverse, r)
    else if c = '\\' then do
      let (unit, r) ← escape? false r
      stringUnits fuel quote (unit.toList ++ units) r
    else if c = '\n' || c = '\r' then none
    else stringUnits fuel quote (.character c :: units) r

/-- A part of a template literal. -/
structure TemplatePart where
  /-- The characters as they stand. -/
  raw : List Char
  /-- The value, unless an escape is not valid. -/
  cooked : Option (List StringUnit)
  isTail : Bool

/-- Reads a part of a template literal up to the mark behind it.  What was read is
    kept in reverse. -/
def templateChars : Nat → List Char → Option (List StringUnit) → List Char →
    Option (TemplatePart × List Char)
  | 0, _, _, _ => none
  | _, _, _, [] => none
  | _, raw, cooked, '`' :: r => some (⟨raw.reverse, cooked.map List.reverse, true⟩, r)
  | _, raw, cooked, '$' :: '{' :: r => some (⟨raw.reverse, cooked.map List.reverse, false⟩, r)
  | fuel + 1, raw, cooked, '\r' :: '\n' :: r =>
    templateChars fuel ('\n' :: '\r' :: raw) (cooked.map (.character '\n' :: ·)) r
  | fuel + 1, raw, cooked, '\r' :: r =>
    templateChars fuel ('\r' :: raw) (cooked.map (.character '\n' :: ·)) r
  | fuel + 1, raw, cooked, '\\' :: r =>
    match escape? true r with
    | some (unit, rest) =>
      let taken := r.take (r.length - rest.length)
      templateChars fuel (taken.reverse ++ '\\' :: raw) (cooked.map (unit.toList ++ ·)) rest
    | none =>
      match r with
      | c :: rest => templateChars fuel (c :: '\\' :: raw) none rest
      | [] => none
  | fuel + 1, raw, cooked, c :: r =>
    templateChars fuel (c :: raw) (cooked.map (.character c :: ·)) r

/-- Reads a part of a template literal. -/
def templatePart? (s : List Char) : Option (TemplatePart × List Char) :=
  templateChars (s.length + 1) [] (some []) s

/-- A text in which each line end is a line feed. -/
def unifyLineEnds : List Char → List Char
  | '\r' :: '\n' :: r => '\n' :: unifyLineEnds r
  | '\r' :: r => '\n' :: unifyLineEnds r
  | c :: r => c :: unifyLineEnds r
  | [] => []

/-- The text of a part of a template.  One whose escapes are not valid stands as it
    is, and in others the line ends are made one. -/
def TemplatePart.text (part : TemplatePart) : List Char :=
  if part.cooked.isSome then unifyLineEnds part.raw else part.raw

/-! ## §6. Regular expressions -/

/-- Reads the body of a regular expression up to its closing slash; `inClass` says
    that reading is inside brackets. -/
def regexBody : Bool → List Char → Option (List Char × List Char)
  | _, [] => none
  | inClass, '\\' :: c :: r =>
    if isLineEnd c then none
    else (regexBody inClass r).map fun parts => ('\\' :: c :: parts.1, parts.2)
  | inClass, c :: r =>
    if isLineEnd c || c = '\\' then none
    else if c = '/' && !inClass then some ([], r)
    else
      (regexBody (if c = '[' then true else if c = ']' then false else inClass) r).map
        fun parts => (c :: parts.1, parts.2)

/-- The flags of regular expressions. -/
def isRegexFlag (c : Char) : Bool := "dgimsuvy".toList.contains c

/-- Reads the flags of a regular expression, each at most once. -/
def regexFlags? (s : List Char) : Option (List Char × List Char) :=
  let flags := s.takeWhile isIdentifierPart
  if flags.all isRegexFlag ∧ flags.eraseDups = flags then
    some (flags, s.dropWhile isIdentifierPart)
  else none

/-! ## §7. Punctuators -/

/-- The punctuators, longer ones before those they start with.  A closing angle
    bracket is read alone, since it may end a list of types. -/
def punctuators : List (List Char) :=
  [">>>=", "...", "===", "!==", "**=", "<<=", "&&=", "||=", "??=",
   "=>", "==", "!=", "<=", "<<", "++", "--", "+=", "-=", "*=", "/=", "%=", "&=", "|=", "^=",
   "&&", "||", "??", "?.", "**",
   "\x7b", "\x7d", "(", ")", "[", "]", ";", ",", "<", ">", "+", "-", "*", "/", "%", "&", "|", "^",
   "!", "~", "?", ":", "=", "@", "."].map String.toList

/-- Reads a punctuator. -/
def punctuator? (s : List Char) : Option (List Char × List Char) :=
  match s with
  | '?' :: '.' :: d :: _ =>
    if d.isDigit then some (['?'], s.drop 1) else some (['?', '.'], s.drop 2)
  | '>' :: r => some (['>'], r)
  | _ =>
    punctuators.findSome? fun mark => (mark.isPrefixOf? s).map fun rest => (mark, rest)

/-! ## §8. Tokens -/

/-- The cursor at the rest of a text, of which `rest` is left. -/
def behind (c : Cursor) (rest : List Char) : Cursor :=
  c.past (c.rest.take (c.rest.length - rest.length)) rest

/-- A token that ends before `rest`. -/
def tokenTo (c : Cursor) (rest : List Char) (token : Token) : Token × Cursor :=
  let d := behind c rest
  ({ token with start := c.offset, stop := d.offset }, d)

/-- Reads a string with its opening quote. -/
def stringToken? (c : Cursor) (lineBefore : Bool) : Option (Token × Cursor) :=
  match c.rest with
  | quote :: r => do
    let (units, rest) ← stringUnits (r.length + 1) quote [] r
    return tokenTo c rest
      { kind := .string, text := String.ofList (textOfUnits units), lineBefore,
        hasHalves := units.any StringUnit.isLone }
  | [] => none

/-- Reads a part of a template literal whose first mark has one character. -/
def templateToken? (c : Cursor) (lineBefore : Bool) : Option (Token × Cursor) := do
  let (part, rest) ← templatePart? (c.rest.drop 1)
  return tokenTo c rest
    { kind := .template, text := String.ofList part.text, lineBefore,
      cooked := part.cooked.map fun units => String.ofList (textOfUnits units),
      isTail := part.isTail }

/-- Reads the token at a cursor, where no gap is. -/
def token? (c : Cursor) (lineBefore : Bool) : Option (Token × Cursor) :=
  match c.rest with
  | [] => some ({ kind := .eof, start := c.offset, stop := c.offset, lineBefore }, c)
  | '#' :: r => do
    let (name, _, rest) ← name? r
    return tokenTo c rest { kind := .privateWord, text := String.ofList name, lineBefore }
  | '`' :: _ => templateToken? c lineBefore
  | first :: r =>
    if first = '"' || first = '\'' then stringToken? c lineBefore
    else if first.isDigit || (first = '.' && r.head?.any Char.isDigit) then do
      let (number, rest) ←
        if first = '.' then decimalTail? ['0'] c.rest else number? c.rest
      return tokenTo c rest
        { kind := if number.isBig then .bigint else .number,
          text := String.ofList number.text, lineBefore }
    else if isIdentifierStart first || first = '\\' then do
      let (name, escaped, rest) ← name? c.rest
      return tokenTo c rest { kind := .word, text := String.ofList name, lineBefore, escaped }
    else do
      let (mark, rest) ← punctuator? c.rest
      return tokenTo c rest { kind := .punctuator, text := String.ofList mark, lineBefore }

/-- A token with the comments that belong to it. -/
structure Lexeme where
  token : Token
  /-- The cursor at the token. -/
  here : Cursor
  /-- The cursor behind the token. -/
  after : Cursor
  comments : List Comment

/-- Reads the next token behind a cursor, by a reader that knows whether a line
    ends in front.  `previous` is the token in front. -/
def lexemeBy? (read : Cursor → Bool → Option (Token × Cursor)) (c : Cursor) (previous : Token) :
    Option Lexeme := do
  let atStart := previous.kind = .eof
  let (gap, spans, d) ←
    readGap (previous.isMark "=" || previous.isMark "(") c.offset { lineBefore := atStart } false
      .blank c.rest
  let (token, after) ← read d (gap.lineBefore || spans)
  let comments := gap.pending.reverse.filter fun comment => comment.note?.isNone
  return {
    token := { token with notes := gap.notes }
    here := d
    after
    comments := comments.map fun comment => { comment with owner := d.offset } }

/-- Reads the next token behind a cursor.  `previous` is the token in front. -/
def lexeme? (c : Cursor) (previous : Token) : Option Lexeme := lexemeBy? token? c previous

/-! ## §9. Tokens of markup -/

/-- Reads the value of an attribute.  A string in it has no escapes, and its value
    is the text between its quotes. -/
def attributeToken? (c : Cursor) (lineBefore : Bool) : Option (Token × Cursor) :=
  match c.rest with
  | quote :: r =>
    if quote = '"' || quote = '\'' then
      match r.dropWhile (· ≠ quote) with
      | _ :: rest =>
        some (tokenTo c rest
          { kind := .string, text := String.ofList (r.takeWhile (· ≠ quote)), lineBefore })
      | [] => none
    else token? c lineBefore
  | [] => token? c lineBefore

/-- Whether a character ends a text between tags. -/
def endsMarkupText (c : Char) : Bool := c = '<' || c = '{'

/-- Reads a child of markup: the mark that opens a tag or an expression, or the
    text up to one, which has no closing mark in it. -/
def childToken? (c : Cursor) : Option (Token × Cursor) :=
  match c.rest with
  | [] => token? c false
  | first :: r =>
    if endsMarkupText first then
      some (tokenTo c r { kind := .punctuator, text := first.toString })
    else
      let text := c.rest.takeWhile fun d => !endsMarkupText d
      if text.contains '>' || text.contains '}' then none
      else
        some (tokenTo c (c.rest.dropWhile fun d => !endsMarkupText d)
          { kind := .markupText, text := String.ofList text })

/-- Reads the parts with hyphens in front that go on with a name of markup. -/
def nameTail (s : List Char) : List Char :=
  match s with
  | '-' :: r => r.dropWhile fun c => c = '-' || isIdentifierPart c
  | _ => s

end Provenance.Script
