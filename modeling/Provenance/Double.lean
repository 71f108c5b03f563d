/-! # Double-precision numbers

  A number of double precision is held exactly, as a whole number times a power
  of two, so that reading and writing it need whole-number arithmetic only.
  Magnitudes alone are modelled; a sign is kept beside them where one can occur.

  Writing starts from the shortest decimal: the fewest digits that read back as
  the same number, and of those the digits nearest to it.
-/

namespace Provenance

/-- The magnitude `significand * 2 ^ exponent` of a finite double.  The rounding
    below keeps the significand under 2^53 and the exponent at least -1074. -/
structure Double where
  significand : Nat
  exponent : Int
deriving DecidableEq, Repr

namespace Double

/-! ## §1. Rounding -/

/-- The quotient of two whole numbers, rounded to nearest with ties to even. -/
def roundDiv (num den : Nat) : Nat :=
  let q := num / den
  let twice := 2 * (num % den)
  if twice < den then q
  else if den < twice then q + 1
  else if q % 2 = 0 then q else q + 1

/-- Numerator and denominator of `num / (den * 2 ^ e)`. -/
def scaleDown (num den : Nat) (e : Int) : Nat × Nat :=
  if 0 ≤ e then (num, den * Nat.pow 2 e.toNat) else (num * Nat.pow 2 (-e).toNat, den)

/-- The double nearest to a ratio of whole numbers; `none` where that would be
    beyond the greatest double. -/
def ofRatio? (num den : Nat) : Option Double :=
  if num = 0 then some ⟨0, -1074⟩
  else
    let guess : Int := max (-1074) ((num.log2 : Int) - (den.log2 : Int) - 53)
    let fits (e : Int) : Bool :=
      let (n, d) := scaleDown num den e
      n / d < Nat.pow 2 53
    let e := if fits guess then guess else if fits (guess + 1) then guess + 1 else guess + 2
    let (n, d) := scaleDown num den e
    let m := roundDiv n d
    let rounded : Double := if m = Nat.pow 2 53 then ⟨Nat.pow 2 52, e + 1⟩ else ⟨m, e⟩
    if 971 < rounded.exponent then none else some rounded

/-- The double nearest to a whole number. -/
def ofNat? (n : Nat) : Option Double := ofRatio? n 1

/-- The double nearest to `digits * 10 ^ exponent`; `none` beyond the greatest. -/
def ofDecimal? (digits : Nat) (exponent : Int) : Option Double :=
  if digits = 0 then some ⟨0, -1074⟩
  else
    let magnitude : Int := (digits.log2 : Int) / 3 + exponent
    if 700 < magnitude then none
    else if magnitude < -700 then some ⟨0, -1074⟩
    else if 0 ≤ exponent then ofRatio? (digits * Nat.pow 10 exponent.toNat) 1
    else ofRatio? digits (Nat.pow 10 (-exponent).toNat)

/-- Numerator and denominator of the exact value. -/
def ratio (x : Double) : Nat × Nat :=
  if 0 ≤ x.exponent then (x.significand * Nat.pow 2 x.exponent.toNat, 1)
  else (x.significand, Nat.pow 2 (-x.exponent).toNat)

/-- The whole number that a double is equal to, if there is one. -/
def toNat? (x : Double) : Option Nat :=
  let (n, d) := x.ratio
  if n % d = 0 then some (n / d) else none

/-! ## §2. The shortest decimal -/

/-- A decimal `digits * 10 ^ exponent`. -/
structure Decimal where
  digits : Nat
  exponent : Int
deriving DecidableEq, Repr

/-- Numerator and denominator of `num / (den * 10 ^ e)`. -/
def scaleDecimal (num den : Nat) (e : Int) : Nat × Nat :=
  if 0 ≤ e then (num, den * Nat.pow 10 e.toNat) else (num * Nat.pow 10 (-e).toNat, den)

/-- The exponent of the first decimal digit of a ratio that is not zero. -/
def leadingExponent (num den : Nat) : Int :=
  let estimate : Int := (((num.log2 : Int) - (den.log2 : Int)) * 1233) / 4096
  let reached (e : Int) : Bool :=
    let (n, d) := scaleDecimal num den e
    d ≤ n
  if reached (estimate + 1) then estimate + 1
  else if reached estimate then estimate
  else if reached (estimate - 1) then estimate - 1
  else estimate - 2

/-- The reals that round to a double: the ends as numerators over one
    denominator, with the double's own numerator between them. -/
structure RoundingInterval where
  low : Nat
  value : Nat
  high : Nat
  den : Nat
  /-- Whether the ends round to the double too. -/
  closed : Bool

/-- The reals that round to `x`. -/
def roundingInterval (x : Double) : RoundingInterval :=
  let e := x.exponent - 2
  let scale := Nat.pow 2 e.toNat
  let isPower := x.significand = Nat.pow 2 52 && -1074 < x.exponent
  { low := (4 * x.significand - if isPower then 1 else 2) * scale
    value := 4 * x.significand * scale
    high := (4 * x.significand + 2) * scale
    den := Nat.pow 2 (-e).toNat
    closed := x.significand % 2 = 0 }

/-- Whether `digits * 10 ^ e` lies in the interval. -/
def RoundingInterval.contains (i : RoundingInterval) (digits : Nat) (e : Int) : Bool :=
  let (low, den) := scaleDecimal i.low i.den e
  let (high, _) := scaleDecimal i.high i.den e
  if i.closed then low ≤ digits * den && digits * den ≤ high
  else low < digits * den && digits * den < high

/-- The multiple of `10 ^ e` in the interval that is nearest to the value. -/
def RoundingInterval.nearest? (i : RoundingInterval) (e : Int) : Option Nat :=
  let (value, den) := scaleDecimal i.value i.den e
  let below := value / den
  let twice := 2 * (value % den)
  let preferUpper := den < twice || (den = twice && below % 2 = 1)
  let candidates := if preferUpper then [below + 1, below] else [below, below + 1]
  candidates.find? fun digits => 0 < digits && i.contains digits e

/-- A decimal without zeros at its end. -/
def Decimal.trimZeros : Nat → Decimal → Decimal
  | 0, d => d
  | fuel + 1, d =>
    if d.digits ≠ 0 ∧ d.digits % 10 = 0 then trimZeros fuel ⟨d.digits / 10, d.exponent + 1⟩
    else d

/-- The shortest decimal that reads back as `x`. -/
def shortest (x : Double) : Decimal :=
  if x.significand = 0 then ⟨0, 0⟩
  else
    let i := x.roundingInterval
    let lead := leadingExponent i.value i.den
    let tried := (List.range 17).findSome? fun (n : Nat) =>
      let e := lead - (n : Int)
      (i.nearest? e).map fun digits => (⟨digits, e⟩ : Decimal)
    Decimal.trimZeros 20 (tried.getD ⟨0, 0⟩)

/-! ## §3. Layouts -/

/-- The digits of a whole number. -/
def digitsOf (n : Nat) : List Char := Nat.toDigits 10 n

/-- A number of zeros. -/
def zeros (n : Nat) : List Char := List.replicate n '0'

/-- A decimal without an exponent mark: digits, with zeros and a point as they
    are needed. -/
def Decimal.positional (d : Decimal) : List Char :=
  let digits := digitsOf d.digits
  if 0 ≤ d.exponent then
    if d.digits = 0 then digits else digits ++ zeros d.exponent.toNat
  else
    let places := (-d.exponent).toNat
    if places < digits.length then
      digits.take (digits.length - places) ++ '.' :: digits.drop (digits.length - places)
    else '0' :: '.' :: zeros (places - digits.length) ++ digits

/-- A decimal with an exponent mark after the first digit and the fraction.
    `signed` asks for a plus sign on exponents that are not negative. -/
def Decimal.scientific (signed : Bool) (d : Decimal) : List Char :=
  let digits := digitsOf d.digits
  let e := d.exponent + (digits.length : Int) - 1
  let fraction := if digits.length = 1 then [] else '.' :: digits.drop 1
  let mark := if e < 0 then ['e', '-'] else if signed then ['e', '+'] else ['e']
  digits.take 1 ++ fraction ++ mark ++ digitsOf e.natAbs

/-- The exponent of the first digit. -/
def Decimal.lead (d : Decimal) : Int := d.exponent + ((digitsOf d.digits).length : Int) - 1

/-- The text in a JSON document: positional while the first digit stands at
    10^-5 to 10^15, and whole numbers then keep `.0`. -/
def jsonText (x : Double) : List Char :=
  let d := x.shortest
  if d.digits = 0 then ['0', '.', '0']
  else if -5 ≤ d.lead ∧ d.lead ≤ 15 then
    if 0 ≤ d.exponent then d.positional ++ ['.', '0'] else d.positional
  else d.scientific true

/-- The text that a script sees for the number: positional while the first digit
    stands at 10^-6 to 10^20. -/
def scriptText (x : Double) : List Char :=
  let d := x.shortest
  if d.digits = 0 then ['0']
  else if -7 < d.lead ∧ d.lead < 21 then d.positional
  else d.scientific true

/-- The text without an exponent, however long. -/
def plainText (x : Double) : List Char := x.shortest.positional

end Double

end Provenance
