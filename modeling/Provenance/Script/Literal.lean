import Provenance.Script.Parse

/-! # Literals

  The values of number literals, and the parsers of literals.
-/

namespace Provenance.Script

/-! ## §1. Numbers -/

/-- The number that digits of a base write. -/
def digitsValue (base : Nat) (digits : List Char) : Nat :=
  digits.foldl (fun n c => n * base + (hexValue? c).getD 0) 0

/-- How many digits of a base fit a word of 64 bits. -/
def wordDigits (base : Nat) : Nat :=
  if base = 16 then 16 else if base = 8 then 21 else 64

/-- The double that digits of a base write.  What does not fit a word is rounded
    after every digit. -/
def basedDouble? (base : Nat) (digits : List Char) : Option Double :=
  if digits.length ≤ wordDigits base then Double.ofNat? (digitsValue base digits)
  else
    digits.foldl
      (fun x c => x.bind fun x =>
        let (n, d) := x.ratio
        Double.ofRatio? (n * base + (hexValue? c).getD 0 * d) d)
      (some ⟨0, -1074⟩)

/-- The double of a decimal number: digits, a fraction and an exponent. -/
def decimalDouble? (text : List Char) : Option Double :=
  let whole := text.takeWhile Char.isDigit
  let rest := text.dropWhile Char.isDigit
  let (fraction, rest) := match rest with
    | '.' :: r => (r.takeWhile Char.isDigit, r.dropWhile Char.isDigit)
    | r => ([], r)
  let exponent : Int := match rest with
    | 'e' :: '-' :: digits => -(digitsValue 10 (digits.take 12) : Int)
    | 'e' :: digits => (digitsValue 10 (digits.take 12) : Int)
    | _ => 0
  Double.ofDecimal? (digitsValue 10 (whole ++ fraction)) (exponent - fraction.length)

/-- The value of a number literal without underscores; `none` is infinity. -/
def numberValue? (text : String) : Option Double :=
  match text.toList with
  | '0' :: 'x' :: digits => basedDouble? 16 digits
  | '0' :: 'o' :: digits => basedDouble? 8 digits
  | '0' :: 'b' :: digits => basedDouble? 2 digits
  | digits => decimalDouble? digits

/-- The decimal digits of a literal of any size. -/
def bigintDigits (text : String) : String :=
  let value := match text.toList with
    | '0' :: 'x' :: digits => digitsValue 16 digits
    | '0' :: 'o' :: digits => digitsValue 8 digits
    | '0' :: 'b' :: digits => digitsValue 2 digits
    | digits => digitsValue 10 digits
  String.ofList (Double.digitsOf value)

namespace Parse

/-! ## §2. Parsers -/

/-- A node for the current token, which is taken. -/
def leaf (form : Form) : Parse Tree := do
  let t ← token
  advance
  return .node ⟨t.start, t.stop⟩ form []

/-- A string. -/
def stringLiteral : Parse Tree := do
  let t ← token
  if t.kind == .string then leaf (.string t.text t.hasHalves) else failure

/-- A number, string, boolean or null. -/
def simpleLiteral? : Parse (Option Tree) := do
  let t ← token
  match t.kind with
  | .string => some <$> leaf (.string t.text t.hasHalves)
  | .number => some <$> leaf (.number (numberValue? t.text) (← writtenText))
  | .bigint => some <$> leaf (.bigint (bigintDigits t.text))
  | .word =>
    if t.isWord "true" then some <$> leaf (.boolean true)
    else if t.isWord "false" then some <$> leaf (.boolean false)
    else if t.isWord "null" then some <$> leaf .null
    else return none
  | _ => return none

/-- A regular expression at its first slash. -/
def regexLiteral : Parse Tree := do
  let s ← get
  let (body, rest) ← (regexBody false (s.here.rest.drop 1) : Option _)
  require !body.isEmpty
  let (flags, rest) ← (regexFlags? rest : Option _)
  let (token, after) := tokenTo s.here rest { s.token with text := "/" }
  relex token after
  leaf (.regex (String.ofList body) (String.ofList flags))

/-- The text of the current part of a template. -/
def templateText (isTagged : Bool) : Parse Tree := do
  let t ← token
  if t.cooked.isNone && !isTagged then note
  let stop := if t.isTail then t.stop - 1 else t.stop - 2
  return .node ⟨t.start + 1, stop⟩ (.templateText t.text t.cooked) []

/-- A template at its first part: texts and what stands between them in turn. -/
def templateParts (isTagged : Bool) (inner : Parse Tree) : Parse (List Tree) :=
  iterate (fun (parts : List Tree) => do
    let t ← token
    require (t.kind == .template)
    let text ← templateText isTagged
    advance
    if t.isTail then return .done (text :: parts).reverse
    else
      let value ← inner
      resumeTemplate
      return .next (value :: text :: parts)) []

/-- A template literal. -/
def templateLiteral (g : Grammar) (isTagged : Bool) : Parse Tree := do
  let first ← start
  let parts ← templateParts isTagged
    (within (fun c => { c with allowsIn := true }) g.expression)
  node first .template parts

/-! ## §3. Names -/

/-- A word of any kind as a name. -/
def anyName : Parse Tree := do
  let t ← token
  if t.kind == .word then leaf (.identifier t.text) else failure

/-- A name with a number sign. -/
def privateName : Parse Tree := do
  let t ← token
  if t.kind == .privateWord then leaf (.privateName t.text) else failure

/-- Whether a token can be a name here: it is not reserved, and is not an operator
    of the context. -/
def canBeName (t : Token) : Parse Bool := do
  let c ← context
  return t.isPlainName && !(c.allowsAwait && t.text == "await") &&
    !(c.allowsYield && t.text == "yield")

/-- A name that refers to something. -/
def reference : Parse Tree := do
  if ← canBeName (← token) then anyName else failure

/-- A name that is bound.  Where `await` or `yield` is an operator, binding it is
    a fault. -/
def binding : Parse Tree := do
  let t ← token
  require t.isPlainName
  unless ← canBeName t do note
  anyName

end Parse

end Provenance.Script
