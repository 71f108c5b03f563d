import Provenance.Json.Basic

/-! # Number texts

  The text of a number is a sign, digits without a zero in front, a fraction and
  an exponent, of which only the digits have to be there (`IsNumber`).  Such a
  text is read whole in front of anything that does not go on with it
  (`number?_append`), and every number is written as one (`isNumber_write`).
-/

namespace Provenance.Json

namespace Document

/-! ## §1. Reading a number -/

/-- A sign, if there is one. -/
def splitSign (isSign : Char → Bool) : List Char → List Char × List Char
  | [] => ([], [])
  | c :: r => if isSign c then ([c], r) else ([], c :: r)

/-- One or more digits. -/
def digits? (s : List Char) : Option (List Char × List Char) :=
  match s.takeWhile Char.isDigit with
  | [] => none
  | digits => some (digits, s.dropWhile Char.isDigit)

/-- The digits in front of the point: a zero stands alone. -/
def integer? (s : List Char) : Option (List Char × List Char) :=
  match s with
  | '0' :: r => some (['0'], r)
  | _ => digits? s

/-- A point and the digits behind it, if there is one. -/
def fraction? (s : List Char) : Option (List Char × List Char) :=
  match s with
  | '.' :: r => (digits? r).map fun (digits, r) => ('.' :: digits, r)
  | _ => some ([], s)

/-- A mark with an exponent, if there is one. -/
def exponent? (s : List Char) : Option (List Char × List Char) :=
  match s with
  | [] => some ([], [])
  | c :: r =>
    if c = 'e' || c = 'E' then
      let (sign, r) := splitSign (fun c => c = '+' || c = '-') r
      (digits? r).map fun (digits, r) => (c :: sign ++ digits, r)
    else some ([], c :: r)

/-- A number. -/
def number? (s : List Char) : Option (List Char × List Char) := do
  let (sign, s) := splitSign (fun c => c = '-') s
  let (integer, s) ← integer? s
  let (fraction, s) ← fraction? s
  let (exponent, s) ← exponent? s
  some (sign ++ (integer ++ (fraction ++ exponent)), s)

/-! ## §2. The grammar of numbers -/

/-- One or more digits. -/
def IsDigits (s : List Char) : Prop := s ≠ [] ∧ ∀ c ∈ s, c.isDigit = true

/-- The digits of a whole number: a zero, or digits that begin with another one. -/
inductive IsInteger : List Char → Prop where
  | zero : IsInteger ['0']
  | digits {s : List Char} (h : IsDigits s) (first : s.head? ≠ some '0') : IsInteger s

/-- A fraction, or nothing. -/
inductive IsFraction : List Char → Prop where
  | none : IsFraction []
  | point {s : List Char} (h : IsDigits s) : IsFraction ('.' :: s)

/-- An exponent with its sign, or nothing. -/
inductive IsExponent : List Char → Prop where
  | none : IsExponent []
  | mark {sign : Char} {s : List Char} (hsign : sign = '+' ∨ sign = '-') (h : IsDigits s) :
      IsExponent ('e' :: sign :: s)

/-- The text of a number. -/
inductive IsNumber : List Char → Prop where
  | parts {sign integer fraction exponent : List Char} (hsign : sign = [] ∨ sign = ['-'])
      (hinteger : IsInteger integer) (hfraction : IsFraction fraction)
      (hexponent : IsExponent exponent) : IsNumber (sign ++ (integer ++ (fraction ++ exponent)))

/-- The text does not go on with digits. -/
def EndsDigits (s : List Char) : Prop := ∀ c r, s = c :: r → c.isDigit = false

/-- The text does not go on with a number. -/
def EndsNumber (s : List Char) : Prop :=
  ∀ c r, s = c :: r → c.isDigit = false ∧ c ≠ '.' ∧ c ≠ 'e' ∧ c ≠ 'E'

theorem EndsNumber.endsDigits {s : List Char} (h : EndsNumber s) : EndsDigits s :=
  fun c r hs => (h c r hs).1

theorem digits?_append {digits s : List Char} (h : IsDigits digits) (hs : EndsDigits s) :
    digits? (digits ++ s) = some (digits, s) := by
  have htake : s.takeWhile Char.isDigit = [] := by
    cases s with
    | nil => rfl
    | cons c r => rw [List.takeWhile_cons_of_neg (by rw [hs c r rfl]; decide)]
  have hdrop : s.dropWhile Char.isDigit = s := by
    cases s with
    | nil => rfl
    | cons c r => rw [List.dropWhile_cons_of_neg (by rw [hs c r rfl]; decide)]
  unfold digits?
  rw [List.takeWhile_append_of_pos h.2, List.dropWhile_append_of_pos h.2, htake, hdrop,
    List.append_nil]
  cases digits with
  | nil => exact absurd rfl h.1
  | cons d digits => rfl

theorem integer?_append {integer s : List Char} (h : IsInteger integer) (hs : EndsDigits s) :
    integer? (integer ++ s) = some (integer, s) := by
  cases h with
  | zero => rfl
  | digits h first =>
    rw [← digits?_append h hs]
    unfold integer?
    split
    · next r heq =>
      -- the digits do not begin with a zero
      cases integer with
      | nil => exact absurd rfl h.1
      | cons d integer =>
        rw [List.cons_append] at heq
        exact absurd (congrArg some (List.cons.inj heq).1) first
    · rfl

theorem fraction?_append {fraction s : List Char} (h : IsFraction fraction) (hs : EndsDigits s)
    (hpoint : ∀ r, s ≠ '.' :: r) : fraction? (fraction ++ s) = some (fraction, s) := by
  cases h with
  | none =>
    rw [List.nil_append]
    unfold fraction?
    split
    · next r => exact absurd rfl (hpoint r)
    · rfl
  | point h =>
    rw [List.cons_append, fraction?, digits?_append h hs]
    rfl

theorem exponent?_append {exponent s : List Char} (h : IsExponent exponent)
    (hs : EndsNumber s) : exponent? (exponent ++ s) = some (exponent, s) := by
  cases h with
  | none =>
    cases s with
    | nil => rfl
    | cons c r =>
      obtain ⟨-, -, he, hE⟩ := hs c r rfl
      simp [exponent?, he, hE]
  | @mark sign digits hsign h =>
    have hdigits := digits?_append h hs.endsDigits
    rcases hsign with rfl | rfl <;> simp [exponent?, splitSign, hdigits]

/-- A number is read in front of anything that does not go on with it. -/
theorem number?_append {text s : List Char} (h : IsNumber text) (hs : EndsNumber s) :
    number? (text ++ s) = some (text, s) := by
  obtain @⟨sign, integer, fraction, exponent, hsign, hinteger, hfraction, hexponent⟩ := h
  have hexp : EndsDigits (exponent ++ s) ∧ ∀ r, exponent ++ s ≠ '.' :: r := by
    cases hexponent with
    | none => exact ⟨hs.endsDigits, fun r heq => (hs '.' r heq).2.1 rfl⟩
    | mark hsign hdigits =>
      constructor
      · rintro c r heq
        obtain ⟨rfl, -⟩ := List.cons.inj heq
        decide
      · intro r heq
        exact absurd (List.cons.inj heq).1 (by decide)
  have hfrac : EndsDigits (fraction ++ (exponent ++ s)) := by
    cases hfraction with
    | none => exact hexp.1
    | point hdigits =>
      rintro c r heq
      obtain ⟨rfl, -⟩ := List.cons.inj heq
      decide
  have hread := integer?_append hinteger hfrac
  have hsplit : splitSign (fun c => c = '-') (sign ++ (integer ++ (fraction ++ (exponent ++ s)))) =
      (sign, integer ++ (fraction ++ (exponent ++ s))) := by
    rcases hsign with rfl | rfl
    · -- the first digit is not taken for a sign
      cases hinteger with
      | zero => rfl
      | digits h first =>
        cases integer with
        | nil => exact absurd rfl h.1
        | cons d integer =>
          have hd : d ≠ '-' := by
            rintro rfl
            exact absurd (h.2 '-' List.mem_cons_self) (by decide)
          simp [splitSign, hd]
    · rfl
  simp only [number?, List.append_assoc, hsplit, hread, fraction?_append hfraction hexp.1 hexp.2,
    exponent?_append hexponent hs, Option.bind_eq_bind, Option.bind_some]

/-- A number begins with a sign or a digit. -/
theorem IsNumber.eq_cons {text : List Char} (h : IsNumber text) :
    ∃ c r, text = c :: r ∧ (c = '-' ∨ c.isDigit = true) := by
  obtain @⟨sign, integer, fraction, exponent, hsign, hinteger, -, -⟩ := h
  rcases hsign with rfl | rfl
  · cases hinteger with
    | zero => exact ⟨'0', _, rfl, .inr (by decide)⟩
    | digits h first =>
      cases integer with
      | nil => exact absurd rfl h.1
      | cons d integer => exact ⟨d, _, rfl, .inr (h.2 d List.mem_cons_self)⟩
  · exact ⟨'-', _, rfl, .inl rfl⟩

/-! ## §3. Written numbers -/

theorem isDigit_digitChar : ∀ n, n < 10 → (Nat.digitChar n).isDigit = true := by decide

theorem isDigits_digitsOf (n : Nat) : IsDigits (Double.digitsOf n) := by
  unfold Double.digitsOf
  induction n using Nat.strongRecOn with
  | ind n ih =>
    by_cases hn : n < 10
    · rw [Nat.toDigits_of_lt_base hn]
      refine ⟨List.cons_ne_nil _ _, fun c hc => ?_⟩
      rw [List.mem_singleton.1 hc]
      exact isDigit_digitChar n hn
    · rw [Nat.toDigits_of_base_le (by decide) (Nat.le_of_not_lt hn)]
      obtain ⟨hne, hdigits⟩ := ih (n / 10) (by omega)
      refine ⟨by simp, fun c hc => ?_⟩
      rcases List.mem_append.1 hc with hc | hc
      · exact hdigits c hc
      · rw [List.mem_singleton.1 hc]
        exact isDigit_digitChar _ (Nat.mod_lt n (by decide))

theorem digitChar_ne_zero : ∀ n, n < 10 → n ≠ 0 → Nat.digitChar n ≠ '0' := by decide

theorem head?_append_of_ne_nil {a b : List Char} (h : a ≠ []) : (a ++ b).head? = a.head? := by
  cases a with
  | nil => exact absurd rfl h
  | cons c a => rfl

/-- The digits of a number that is not zero do not begin with a zero. -/
theorem head?_digitsOf {n : Nat} (hn : n ≠ 0) : (Double.digitsOf n).head? ≠ some '0' := by
  unfold Double.digitsOf
  induction n using Nat.strongRecOn with
  | ind n ih =>
    by_cases hlt : n < 10
    · rw [Nat.toDigits_of_lt_base hlt]
      intro h
      exact digitChar_ne_zero n hlt hn (Option.some.inj h)
    · have hne : Nat.toDigits 10 (n / 10) ≠ [] := (isDigits_digitsOf (n / 10)).1
      rw [Nat.toDigits_of_base_le (by decide) (Nat.le_of_not_lt hlt), head?_append_of_ne_nil hne]
      exact ih (n / 10) (by omega) (by omega)

theorem isInteger_digitsOf (n : Nat) : IsInteger (Double.digitsOf n) := by
  by_cases hn : n = 0
  · subst hn
    exact .zero
  · exact .digits (isDigits_digitsOf n) (head?_digitsOf hn)

theorem IsDigits.append {a b : List Char} (ha : IsDigits a) (hb : ∀ c ∈ b, c.isDigit = true) :
    IsDigits (a ++ b) := by
  refine ⟨List.append_ne_nil_of_left_ne_nil ha.1 b, fun c hc => ?_⟩
  rcases List.mem_append.1 hc with hc | hc
  · exact ha.2 c hc
  · exact hb c hc

theorem IsDigits.drop {digits : List Char} (h : IsDigits digits) {n : Nat}
    (hn : n < digits.length) : IsDigits (digits.drop n) := by
  refine ⟨?_, fun c hc => h.2 c (List.mem_of_mem_drop hc)⟩
  rw [Ne, List.drop_eq_nil_iff]
  omega

/-- The first digits of a number that does not begin with a zero. -/
theorem isInteger_take {digits : List Char} (h : IsDigits digits)
    (hfirst : digits.head? ≠ some '0') {n : Nat} (hn : n ≠ 0) : IsInteger (digits.take n) := by
  refine .digits ⟨?_, fun c hc => h.2 c (List.mem_of_mem_take hc)⟩ ?_
  · rw [Ne, List.take_eq_nil_iff]
    intro hnil
    rcases hnil with hnil | hnil
    · exact hn hnil
    · exact h.1 hnil
  · rwa [List.head?_take, if_neg hn]

theorem isDigit_of_mem_zeros {n : Nat} {c : Char} (h : c ∈ Double.zeros n) : c.isDigit = true := by
  rw [List.eq_of_mem_replicate h]
  decide

theorem isDigits_zero : IsDigits ['0'] := by
  refine ⟨List.cons_ne_nil _ _, fun c hc => ?_⟩
  rw [List.mem_singleton.1 hc]
  decide

/-- A number without its sign. -/
def IsMagnitude (s : List Char) : Prop :=
  ∃ integer fraction exponent, IsInteger integer ∧ IsFraction fraction ∧ IsExponent exponent ∧
    s = integer ++ (fraction ++ exponent)

theorem isMagnitude_zero : IsMagnitude ['0', '.', '0'] :=
  ⟨['0'], ['.', '0'], [], .zero, .point isDigits_zero, .none, rfl⟩

/-- A decimal without an exponent mark that is a whole number. -/
theorem isInteger_positional {d : Double.Decimal} (hd : d.digits ≠ 0) (he : 0 ≤ d.exponent) :
    IsInteger d.positional := by
  have hdigits := isDigits_digitsOf d.digits
  simp only [Double.Decimal.positional, if_pos he, if_neg hd]
  refine .digits (hdigits.append fun c hc => isDigit_of_mem_zeros hc) ?_
  rw [head?_append_of_ne_nil hdigits.1]
  exact head?_digitsOf hd

/-- A decimal without an exponent mark that has a fraction. -/
theorem isMagnitude_positional {d : Double.Decimal} (hd : d.digits ≠ 0) (he : ¬ 0 ≤ d.exponent) :
    IsMagnitude d.positional := by
  have hdigits := isDigits_digitsOf d.digits
  simp only [Double.Decimal.positional, if_neg he]
  split
  · -- the point stands between the digits
    generalize hplaces : (Double.digitsOf d.digits).length - (-d.exponent).toNat = places
    refine ⟨_, _, [], isInteger_take (n := places) hdigits (head?_digitsOf hd) (by omega),
      .point (hdigits.drop (n := places) (by omega)), .none, ?_⟩
    rw [List.append_nil]
  · generalize (-d.exponent).toNat - (Double.digitsOf d.digits).length = places
    have hfraction : IsDigits (Double.zeros places ++ Double.digitsOf d.digits) := by
      refine ⟨List.append_ne_nil_of_right_ne_nil _ hdigits.1, fun c hc => ?_⟩
      rcases List.mem_append.1 hc with hc | hc
      · exact isDigit_of_mem_zeros hc
      · exact hdigits.2 c hc
    refine ⟨['0'], _, [], .zero, .point hfraction, .none, ?_⟩
    rw [List.append_nil]
    rfl

theorem isMagnitude_scientific {d : Double.Decimal} (hd : d.digits ≠ 0) :
    IsMagnitude (d.scientific true) := by
  have hdigits := isDigits_digitsOf d.digits
  have hinteger := isInteger_take hdigits (head?_digitsOf hd) (show 1 ≠ 0 by decide)
  have hlength := List.length_pos_iff.2 hdigits.1
  have hfraction : IsFraction (if (Double.digitsOf d.digits).length = 1 then []
      else '.' :: (Double.digitsOf d.digits).drop 1) := by
    split
    · exact .none
    · exact .point (hdigits.drop (by omega))
  simp only [Double.Decimal.scientific, if_true]
  generalize d.exponent + ((Double.digitsOf d.digits).length : Int) - 1 = e
  have hexponent : IsExponent
      ((if e < 0 then ['e', '-'] else ['e', '+']) ++ Double.digitsOf e.natAbs) := by
    split
    · exact .mark (.inr rfl) (isDigits_digitsOf _)
    · exact .mark (.inl rfl) (isDigits_digitsOf _)
  refine ⟨_, _, _, hinteger, hfraction, hexponent, ?_⟩
  rw [List.append_assoc, List.append_assoc]

theorem isMagnitude_jsonText (x : Double) : IsMagnitude x.jsonText := by
  simp only [Double.jsonText]
  by_cases hd : x.shortest.digits = 0
  · rw [if_pos hd]
    exact isMagnitude_zero
  · rw [if_neg hd]
    split
    · split
      · next he =>
        -- a whole number keeps a point and a zero
        exact ⟨_, ['.', '0'], [], isInteger_positional hd he, .point isDigits_zero, .none, rfl⟩
      · next he => exact isMagnitude_positional hd he
    · exact isMagnitude_scientific hd

theorem IsMagnitude.isNumber {s : List Char} (h : IsMagnitude s) :
    IsNumber s ∧ IsNumber ('-' :: s) := by
  obtain ⟨integer, fraction, exponent, hinteger, hfraction, hexponent, rfl⟩ := h
  exact ⟨.parts (.inl rfl) hinteger hfraction hexponent,
    .parts (.inr rfl) hinteger hfraction hexponent⟩

/-- Every number is written by the grammar of numbers. -/
theorem isNumber_write (n : JsonNumber) : IsNumber n.write := by
  cases n with
  | whole value =>
    have h : IsMagnitude (Double.digitsOf value.natAbs) :=
      ⟨Double.digitsOf value.natAbs, [], [], isInteger_digitsOf _, .none, .none, by simp⟩
    simp only [JsonNumber.write]
    split
    · exact h.isNumber.2
    · exact h.isNumber.1
  | fractional negative magnitude =>
    simp only [JsonNumber.write]
    split
    · exact (isMagnitude_jsonText magnitude).isNumber.2
    · exact (isMagnitude_jsonText magnitude).isNumber.1

end Document

end Provenance.Json
