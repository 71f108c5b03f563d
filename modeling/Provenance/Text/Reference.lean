/-! # Character references

  An attribute value is written with references such as `&quot;`.  Reading
  knows the five named references of XML and the numeric ones; writing escapes
  the two characters that a value in double quotes cannot hold as themselves.
-/

namespace Provenance.Text

/-! ## §1. Numbers in a base -/

/-- The value of a digit in bases up to sixteen. -/
def digitValue? (base : Nat) (c : Char) : Option Nat :=
  let value :=
    if '0' ≤ c ∧ c ≤ '9' then some (c.toNat - '0'.toNat)
    else if 'a' ≤ c ∧ c ≤ 'f' then some (c.toNat - 'a'.toNat + 10)
    else if 'A' ≤ c ∧ c ≤ 'F' then some (c.toNat - 'A'.toNat + 10)
    else none
  value.filter (· < base)

/-- The number that digits write, most significant first. -/
def ofDigits? (base : Nat) : List Char → Nat → Option Nat
  | [], acc => some acc
  | c :: r, acc => (digitValue? base c).bind fun d => ofDigits? base r (acc * base + d)

/-- A number below 2^32: one or more digits, which a plus sign may precede. -/
def readWord? (base : Nat) (s : List Char) : Option Nat :=
  let digits := match s with
    | '+' :: r => r
    | _ => s
  if digits.isEmpty then none else (ofDigits? base digits 0).filter (· < UInt32.size)

/-- The character of a scalar value. -/
def scalar? (n : Nat) : Option Char :=
  if n.isValidChar then some (Char.ofNat n) else none

/-! ## §2. Reading -/

/-- The character that a reference names by its text between `&` and `;`. -/
def namedCharacter? (name : List Char) : Option Char :=
  if name = ['a', 'm', 'p'] then some '&'
  else if name = ['l', 't'] then some '<'
  else if name = ['g', 't'] then some '>'
  else if name = ['q', 'u', 'o', 't'] then some '"'
  else if name = ['a', 'p', 'o', 's'] then some '\''
  else match name with
    | '#' :: 'x' :: digits => (readWord? 16 digits).bind scalar?
    | '#' :: 'X' :: digits => (readWord? 16 digits).bind scalar?
    | '#' :: digits => (readWord? 10 digits).bind scalar?
    | _ => none

/-- Splits a text at its first semicolon, which belongs to neither part. -/
def splitSemicolon? : List Char → Option (List Char × List Char)
  | [] => none
  | c :: r =>
    if c = ';' then some ([], r)
    else (splitSemicolon? r).map fun parts => (c :: parts.1, parts.2)

theorem length_of_splitSemicolon? {s a b : List Char} (h : splitSemicolon? s = some (a, b)) :
    b.length < s.length := by
  induction s generalizing a b with
  | nil => simp [splitSemicolon?] at h
  | cons c r ih =>
    rw [splitSemicolon?] at h
    split at h
    · simp only [Option.some.injEq, Prod.mk.injEq] at h
      simp [← h.2]
    · obtain ⟨⟨p, q⟩, hpq, heq⟩ := Option.map_eq_some_iff.1 h
      obtain ⟨_, rfl⟩ := Prod.mk.inj heq
      exact Nat.lt_succ_of_lt (ih hpq)

/-- Replaces each reference by the character it names, from left to right; any
    other ampersand stays. -/
def decodeReferences : List Char → List Char
  | [] => []
  | c :: r =>
    if c = '&' then
      match h : splitSemicolon? r with
      | some (name, rest) =>
        match namedCharacter? name with
        | some named =>
          have := length_of_splitSemicolon? h
          named :: decodeReferences rest
        | none => c :: decodeReferences r
      | none => c :: decodeReferences r
    else c :: decodeReferences r
termination_by s => s.length

/-! ## §3. Writing -/

/-- A character of a value in double quotes. -/
def escapeCharacter (c : Char) : List Char :=
  if c = '&' then ['&', 'a', 'm', 'p', ';']
  else if c = '"' then ['&', 'q', 'u', 'o', 't', ';']
  else [c]

/-- A value as it stands between double quotes. -/
def escapeValue (s : List Char) : List Char := s.flatMap escapeCharacter

end Provenance.Text
