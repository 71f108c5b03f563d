import Provenance.Double

/-! # Numbers in scripts

  A number is printed in the shortest of the forms that a script has for it: the
  digits with a point, a whole number in base sixteen, or digits with an exponent
  that counts from the last one.
-/

namespace Provenance.Script.Print

/-! ## §1. Forms -/

/-- The shorter of two texts, the first one if they are as long. -/
def shorter (a b : List Char) : List Char := if b.length < a.length then b else a

/-- The digits of a number in base sixteen behind their mark. -/
def hexText (n : Nat) : List Char := '0' :: 'x' :: Nat.toDigits 16 n

/-- An exponent behind its mark. -/
def exponentText (e : Int) : List Char :=
  'e' :: (if e < 0 then '-' :: Double.digitsOf e.natAbs else Double.digitsOf e.natAbs)

/-- A text without a zero in front of its point. -/
def dropLeadingZero : List Char → List Char
  | '0' :: '.' :: r => '.' :: r
  | s => s

/-- A text without the plus sign of its exponent. -/
def dropPlus : List Char → List Char
  | 'e' :: '+' :: r => 'e' :: r
  | c :: r => c :: dropPlus r
  | [] => []

/-- A fraction that starts with zeros, with an exponent in place of them. -/
def smallForm (s : List Char) : List Char :=
  match s with
  | '.' :: '0' :: r =>
    let digits := r.dropWhile (· = '0')
    shorter s (digits ++ exponentText (-((r.length : Int) + 1)))
  | _ => s

/-- A number that ends with zeros, with an exponent in place of them. -/
def largeForm (s : List Char) : List Char :=
  let base := (s.reverse.dropWhile (· = '0')).reverse
  if base.length < s.length then shorter s (base ++ exponentText (s.length - base.length : Nat))
  else s

/-- A number with a point and an exponent, with the point left out. -/
def pointlessForm (s : List Char) : List Char :=
  let whole := s.takeWhile (· ≠ '.')
  match s.dropWhile (· ≠ '.') with
  | '.' :: r =>
    let fraction := r.takeWhile (· ≠ 'e')
    let value (digits : List Char) : Int :=
      digits.foldl (fun n c => n * 10 + ((c.toNat : Int) - '0'.toNat)) 0
    match r.dropWhile (· ≠ 'e') with
    | 'e' :: '-' :: e =>
      shorter s (whole ++ fraction ++ exponentText (-(value e) - fraction.length))
    | 'e' :: e => shorter s (whole ++ fraction ++ exponentText (value e - fraction.length))
    | _ => s
  | [] => s
  | _ => s

/-! ## §2. The shortest form -/

/-- The whole numbers that are printed as they are. -/
def isSmallWhole (x : Double) : Bool :=
  match x.toNat? with
  | some n => n < 1000
  | none => false

/-- The shortest text of a number. -/
def numberText (x : Double) : List Char :=
  let plain := x.scriptText
  if isSmallWhole x then plain
  else
    let decimal := dropPlus (dropLeadingZero plain)
    match x.toNat? with
    | some n =>
      let hex := hexText n
      if hex.length < decimal.length then pointlessForm hex
      else pointlessForm (largeForm decimal)
    | none => pointlessForm (largeForm (smallForm decimal))

end Provenance.Script.Print
