import Mathlib.Data.List.Induction
import Provenance.Proofs.Text.Reference
import Provenance.Proofs.Text.Letter

/-! # The grammar of character references

  A reference is the name of one of five characters, or a number: one or more digits behind
  `#`, or behind `#x` or `#X` in base sixteen, which write the scalar value of a character
  (`IsReference`).  A text is decoded from left to right: where a reference stands, its
  character takes its place, and all that does not belong to a reference stays as it is
  (`Replaced`).  What takes the place of a reference is not looked at again.

  - A grammar has at most one way to decode a text (`Replaced.unique`), since no reference
    holds a semicolon.
  - Reading knows one form more: a plus sign may stand in front of the digits (`IsSigned`).
    It decodes by the grammar with that form (`replaced_decodeReferences`).
  - A signed number is longer than its character, and nothing makes up for that
    (`Replaced.length_le`), so a text that holds one is never decoded by the grammar itself.

  Main statement: `decodeReferences_iff`.
-/

namespace Provenance.Text

/-! ## §1. Numbers -/

/-- The digits in the order of their values. -/
def digitTable : List Char := "0123456789abcdef".toList

/-- A character is the digit of a value; the case of letters does not count. -/
def IsDigit (base : Nat) (x : Char) (value : Nat) : Prop :=
  digitTable.idxOf? x.toLower = some value ∧ value < base

/-- One or more digits, and the number that they write. -/
inductive Numeral (base : Nat) : List Char → Nat → Prop where
  | digit {x : Char} {value : Nat} (h : IsDigit base x value) : Numeral base [x] value
  | behind {digits : List Char} {n : Nat} {x : Char} {value : Nat} (front : Numeral base digits n)
      (h : IsDigit base x value) : Numeral base (digits ++ [x]) (n * base + value)

theorem digitValue?_ascii : ∀ n : Fin 128,
    digitValue? 16 (Char.ofNat n) = digitTable.idxOf? (Char.ofNat n).toLower := by
  decide +kernel

theorem toNat_lt_of_mem_digitTable {x : Char} (h : x ∈ digitTable) : x.toNat < 128 := by
  have hall : (digitTable.all fun y => y.toNat < 128) = true := by decide
  simpa using List.all_eq_true.1 hall x h

theorem digitValue?_sixteen (x : Char) : digitValue? 16 x = digitTable.idxOf? x.toLower := by
  by_cases hx : x.toNat < 128
  · have hn := digitValue?_ascii ⟨x.toNat, hx⟩
    rwa [Char.ofNat_toNat] at hn
  · -- beyond ASCII there are neither letters nor digits
    have hlower : x.toLower = x := by
      rcases toLower_cases x with h | ⟨-, hZ, -⟩
      · exact h
      · omega
    have hnone : digitTable.idxOf? x = none := by
      apply List.idxOf?_eq_none_iff.2
      intro hmem
      exact hx (toNat_lt_of_mem_digitTable hmem)
    have hrange : ∀ y : Char, y.toNat < 128 → ¬ x ≤ y := by
      intro y hy hle
      have hle : x.toNat ≤ y.toNat := hle
      omega
    unfold digitValue?
    rw [hlower, hnone, if_neg fun h => hrange '9' (by decide) h.2,
      if_neg fun h => hrange 'f' (by decide) h.2, if_neg fun h => hrange 'F' (by decide) h.2]
    rfl

theorem digitValue?_eq_some_iff {base : Nat} (hbase : base ≤ 16) {x : Char} {value : Nat} :
    digitValue? base x = some value ↔ IsDigit base x value := by
  have htest : (fun n => decide (n < 16) && decide (n < base)) = fun n => decide (n < base) := by
    funext n
    by_cases hn : n < base
    · simp [hn]
      omega
    · simp [hn]
  have hfilter : digitValue? base x = (digitValue? 16 x).filter (· < base) := by
    unfold digitValue?
    rw [Option.filter_filter, htest]
  rw [hfilter, digitValue?_sixteen, Option.filter_eq_some_iff, IsDigit]
  simp

theorem ofDigits?_append (base : Nat) (a b : List Char) (n : Nat) :
    ofDigits? base (a ++ b) n = (ofDigits? base a n).bind (ofDigits? base b) := by
  induction a generalizing n with
  | nil => rfl
  | cons x a ih =>
    rw [List.cons_append, ofDigits?, ofDigits?]
    cases digitValue? base x with
    | none => rfl
    | some value => exact ih _

/-- The digits that are read are the ones of the number that is written. -/
theorem ofDigits?_eq_some_iff {base : Nat} (hbase : base ≤ 16) {digits : List Char}
    (hne : digits ≠ []) {n : Nat} : ofDigits? base digits 0 = some n ↔ Numeral base digits n := by
  constructor
  · intro h
    -- the last digit is the last one that counts
    induction digits using List.reverseRecOn generalizing n with
    | nil => exact absurd rfl hne
    | append_singleton digits x ih =>
      rw [ofDigits?_append] at h
      obtain ⟨m, hm, hx⟩ := Option.bind_eq_some_iff.1 h
      rw [ofDigits?] at hx
      obtain ⟨value, hvalue, hn⟩ := Option.bind_eq_some_iff.1 hx
      obtain rfl : m * base + value = n := Option.some.inj hn
      have hdigit := (digitValue?_eq_some_iff hbase).1 hvalue
      by_cases hfront : digits = []
      · subst hfront
        obtain rfl : 0 = m := Option.some.inj hm
        rw [Nat.zero_mul, Nat.zero_add]
        exact .digit hdigit
      · exact .behind (ih hfront hm) hdigit
  · intro h
    clear hne
    induction h with
    | @digit x value h =>
      rw [ofDigits?, (digitValue?_eq_some_iff hbase).2 h, Nat.zero_mul, Option.bind_some,
        Nat.zero_add]
      rfl
    | @behind digits n x value front h ih =>
      rw [ofDigits?_append, ih, Option.bind_some, ofDigits?, (digitValue?_eq_some_iff hbase).2 h]
      rfl

theorem Numeral.ne_nil {base n : Nat} {digits : List Char} (h : Numeral base digits n) :
    digits ≠ [] := by
  cases h <;> simp

/-- A numeral holds letters and digits only. -/
theorem Numeral.mem_digitTable {base n : Nat} {digits : List Char} (h : Numeral base digits n)
    {x : Char} (hx : x ∈ digits) : x.toLower ∈ digitTable := by
  have hdigit : ∀ {y : Char} {value : Nat}, IsDigit base y value → y.toLower ∈ digitTable := by
    intro y value hy
    by_cases hmem : y.toLower ∈ digitTable
    · exact hmem
    · rw [IsDigit, List.idxOf?_eq_none_iff.2 hmem] at hy
      exact absurd hy.1 (by simp)
  induction h with
  | digit h =>
    obtain rfl := List.mem_singleton.1 hx
    exact hdigit h
  | behind front h ih =>
    rcases List.mem_append.1 hx with hfront | hlast
    · exact ih hfront
    · obtain rfl := List.mem_singleton.1 hlast
      exact hdigit h

/-! ## §2. References -/

/-- The characters that have a name. -/
def characterNames : List (List Char × Char) :=
  [("amp".toList, '&'), ("lt".toList, '<'), ("gt".toList, '>'), ("quot".toList, '"'),
    ("apos".toList, '\'')]

/-- The marks of the two kinds of numbers, each with its base. -/
def numberMarks : List (List Char × Nat) :=
  [("#".toList, 10), ("#x".toList, 16), ("#X".toList, 16)]

/-- A reference, by its text between `&` and `;`, and the character that it names: a name, or
    the number of the character behind a mark. -/
inductive IsReference : List Char → Char → Prop where
  | name {name : List Char} {c : Char} (h : (name, c) ∈ characterNames) : IsReference name c
  | number {mark digits : List Char} {base : Nat} {c : Char} (h : (mark, base) ∈ numberMarks)
      (number : Numeral base digits c.toNat) : IsReference (mark ++ digits) c

/-- A number with a plus sign in front of its digits, and the character of that number. -/
inductive IsSigned : List Char → Char → Prop where
  | number {mark digits : List Char} {base : Nat} {c : Char} (h : (mark, base) ∈ numberMarks)
      (number : Numeral base digits c.toNat) : IsSigned (mark ++ '+' :: digits) c

/-- A reference, where a number may have a plus sign. -/
def IsLoose (name : List Char) (c : Char) : Prop := IsReference name c ∨ IsSigned name c

theorem scalar?_eq_some_iff {n : Nat} {c : Char} : scalar? n = some c ↔ n = c.toNat := by
  unfold scalar?
  constructor
  · intro h
    split at h
    · next hvalid =>
      obtain rfl := Option.some.inj h
      rw [Char.ofNat, dif_pos hvalid]
      rfl
    · cases h
  · rintro rfl
    have hvalid : c.toNat.isValidChar := c.valid
    rw [if_pos hvalid, Char.ofNat_toNat]

theorem toNat_lt_size (c : Char) : c.toNat < UInt32.size := c.val.toNat_lt

/-- A word is read where digits stand, or digits behind a plus sign. -/
theorem readWord?_eq_some_iff {base : Nat} (hbase : base ≤ 16) {s : List Char} {n : Nat} :
    readWord? base s = some n ↔
      (Numeral base s n ∨ ∃ digits, s = '+' :: digits ∧ Numeral base digits n) ∧
        n < UInt32.size := by
  -- without a sign to look for
  have hplain : ∀ digits : List Char,
      (if digits.isEmpty then none else (ofDigits? base digits 0).filter (· < UInt32.size)) =
        some n ↔ Numeral base digits n ∧ n < UInt32.size := by
    intro digits
    by_cases hne : digits = []
    · subst hne
      constructor
      · intro h
        cases h
      · rintro ⟨h, -⟩
        exact absurd rfl h.ne_nil
    · rw [if_neg (by simpa using hne), Option.filter_eq_some_iff, ofDigits?_eq_some_iff hbase hne,
        decide_eq_true_iff]
  -- a plus sign is no digit
  have hsign : ∀ r : List Char, ¬ Numeral base ('+' :: r) n := by
    intro r h
    exact absurd (h.mem_digitTable List.mem_cons_self) (by decide)
  unfold readWord?
  split
  · next r =>
    rw [hplain]
    constructor
    · rintro ⟨h, hn⟩
      exact ⟨.inr ⟨r, rfl, h⟩, hn⟩
    · rintro ⟨h | ⟨digits, heq, h⟩, hn⟩
      · exact absurd h (hsign r)
      · obtain ⟨-, rfl⟩ := List.cons.inj heq
        exact ⟨h, hn⟩
  · next hother =>
    rw [hplain]
    constructor
    · rintro ⟨h, hn⟩
      exact ⟨.inl h, hn⟩
    · rintro ⟨h | ⟨digits, rfl, -⟩, hn⟩
      · exact ⟨h, hn⟩
      · exact absurd rfl (hother digits)

/-- The character behind the mark of a number. -/
theorem readWord?_bind_scalar? {base : Nat} (hbase : base ≤ 16) {s : List Char} {c : Char} :
    (readWord? base s).bind scalar? = some c ↔
      Numeral base s c.toNat ∨ ∃ digits, s = '+' :: digits ∧ Numeral base digits c.toNat := by
  rw [Option.bind_eq_some_iff]
  constructor
  · rintro ⟨n, hn, hc⟩
    obtain rfl := scalar?_eq_some_iff.1 hc
    exact ((readWord?_eq_some_iff hbase).1 hn).1
  · intro h
    exact ⟨c.toNat, (readWord?_eq_some_iff hbase).2 ⟨h, toNat_lt_size c⟩,
      scalar?_eq_some_iff.2 rfl⟩

theorem base_le_of_mem_numberMarks {mark : List Char} {base : Nat} (h : (mark, base) ∈ numberMarks) :
    base ≤ 16 := by
  have hall : (numberMarks.all fun mark => mark.2 ≤ 16) = true := by decide
  simpa using List.all_eq_true.1 hall _ h

/-- Behind the mark of a number what follows is read in its base.  An `x` would be part of the
    mark. -/
theorem namedCharacter?_number {mark s : List Char} {base : Nat} (h : (mark, base) ∈ numberMarks)
    (hs : ∀ x ∈ s.head?, x.toLower ≠ 'x') :
    namedCharacter? (mark ++ s) = (readWord? base s).bind scalar? := by
  simp only [numberMarks, List.mem_cons, Prod.mk.injEq, List.not_mem_nil, or_false] at h
  rcases h with ⟨rfl, rfl⟩ | ⟨rfl, rfl⟩ | ⟨rfl, rfl⟩
  · cases s with
    | nil => rfl
    | cons x s =>
      have hx : x ≠ 'x' := by
        rintro rfl
        exact hs 'x' rfl (by decide)
      have hX : x ≠ 'X' := by
        rintro rfl
        exact hs 'X' rfl (by decide)
      simp [namedCharacter?, hx, hX]
  · simp [namedCharacter?]
  · simp [namedCharacter?]

/-- What is read as a reference: those of the grammar, and the numbers with a plus sign. -/
theorem namedCharacter?_eq_some_iff {name : List Char} {c : Char} :
    namedCharacter? name = some c ↔ IsLoose name c := by
  constructor
  · intro h
    have hnumber : ∀ (mark s : List Char) (base : Nat), (mark, base) ∈ numberMarks →
        (readWord? base s).bind scalar? = some c → IsLoose (mark ++ s) c := by
      intro mark s base hmark hread
      rcases (readWord?_bind_scalar? (base_le_of_mem_numberMarks hmark)).1 hread with
        hdigits | ⟨digits, rfl, hdigits⟩
      · exact .inl (.number hmark hdigits)
      · exact .inr (.number hmark hdigits)
    unfold namedCharacter? at h
    iterate 5
      split at h
      · next hname =>
        obtain rfl := Option.some.inj h
        exact .inl (.name (by rw [hname]; decide))
    split at h
    · exact hnumber "#x".toList _ 16 (by decide) h
    · exact hnumber "#X".toList _ 16 (by decide) h
    · exact hnumber "#".toList _ 10 (by decide) h
    · cases h
  · rintro (h | h)
    · cases h with
      | name h =>
        have hall : (characterNames.all fun entry => namedCharacter? entry.1 = some entry.2) =
            true := by decide
        simpa using List.all_eq_true.1 hall _ h
      | number h number =>
        rw [namedCharacter?_number h, readWord?_bind_scalar? (base_le_of_mem_numberMarks h)]
        · exact .inl number
        · intro x hx hxx
          have hmem := number.mem_digitTable (List.mem_of_mem_head? hx)
          rw [hxx] at hmem
          exact absurd hmem (by decide)
    · cases h with
      | number h number =>
        rw [namedCharacter?_number h, readWord?_bind_scalar? (base_le_of_mem_numberMarks h)]
        · exact .inr ⟨_, rfl, number⟩
        · intro x hx
          obtain rfl := Option.some.inj hx
          decide

/-- The text of a reference is made of letters, digits and a few marks. -/
def namePart (x : Char) : Prop := x ≠ ';' ∧ x ≠ '&'

theorem namePart_of_digit {x : Char} (h : x.toLower ∈ digitTable) : namePart x := by
  constructor
  · rintro rfl
    exact absurd h (by decide)
  · rintro rfl
    exact absurd h (by decide)

theorem namePart_of_mem_mark {mark : List Char} {base : Nat} (h : (mark, base) ∈ numberMarks)
    {x : Char} (hx : x ∈ mark) : namePart x ∧ x ≠ '+' := by
  have hall : (numberMarks.all fun mark =>
      mark.1.all fun x => x ≠ ';' && x ≠ '&' && x ≠ '+') = true := by decide
  have hmark := List.all_eq_true.1 (List.all_eq_true.1 hall _ h) x hx
  simpa [namePart] using hmark

/-- Neither a semicolon nor an ampersand belongs to a reference, and a plus sign to signed
    numbers only. -/
theorem IsReference.namePart {name : List Char} {c : Char} (h : IsReference name c) {x : Char}
    (hx : x ∈ name) : namePart x ∧ x ≠ '+' := by
  cases h with
  | name h =>
    have hall : (characterNames.all fun entry =>
        entry.1.all fun x => x ≠ ';' && x ≠ '&' && x ≠ '+') = true := by decide
    have hname := List.all_eq_true.1 (List.all_eq_true.1 hall _ h) x hx
    simpa [Text.namePart] using hname
  | number h number =>
    rcases List.mem_append.1 hx with hmark | hdigit
    · exact namePart_of_mem_mark h hmark
    · have hlower := number.mem_digitTable hdigit
      refine ⟨namePart_of_digit hlower, ?_⟩
      rintro rfl
      exact absurd hlower (by decide)

theorem IsSigned.namePart {name : List Char} {c : Char} (h : IsSigned name c) {x : Char}
    (hx : x ∈ name) : namePart x := by
  obtain ⟨h, number⟩ := h
  rcases List.mem_append.1 hx with hmark | hrest
  · exact (namePart_of_mem_mark h hmark).1
  rcases List.mem_cons.1 hrest with rfl | hdigit
  · exact ⟨by decide, by decide⟩
  · exact namePart_of_digit (number.mem_digitTable hdigit)

theorem IsSigned.sign_mem {name : List Char} {c : Char} (h : IsSigned name c) : '+' ∈ name := by
  obtain ⟨h, number⟩ := h
  simp

theorem IsLoose.namePart {name : List Char} {c : Char} (h : IsLoose name c) {x : Char}
    (hx : x ∈ name) : namePart x := by
  rcases h with h | h
  · exact (h.namePart hx).1
  · exact h.namePart hx

theorem IsLoose.not_mem {name : List Char} {c : Char} (h : IsLoose name c) :
    ';' ∉ name ∧ '&' ∉ name := by
  constructor
  · intro hmem
    exact (h.namePart hmem).1 rfl
  · intro hmem
    exact (h.namePart hmem).2 rfl

/-! ## §3. Decoding by a grammar -/

/-- A grammar of references: the text between `&` and `;`, and the character. -/
abbrev Grammar := List Char → Char → Prop

/-- A reference stands in front of a text. -/
def Begins (grammar : Grammar) (s : List Char) : Prop :=
  ∃ name c r, grammar name c ∧ s = '&' :: (name ++ ';' :: r)

/-- A text decoded from left to right: the character of a reference takes its place, and any
    other character stays. -/
inductive Replaced (grammar : Grammar) : List Char → List Char → Prop where
  | nil : Replaced grammar [] []
  | reference {name r out : List Char} {c : Char} (h : grammar name c)
      (behind : Replaced grammar r out) :
      Replaced grammar ('&' :: (name ++ ';' :: r)) (c :: out)
  | copied {x : Char} {r out : List Char} (h : ¬ Begins grammar (x :: r))
      (behind : Replaced grammar r out) : Replaced grammar (x :: r) (x :: out)

/-- A part of loose references, whose texts have neither a semicolon nor an ampersand. -/
def Grammar.IsPart (grammar : Grammar) : Prop := ∀ name c, grammar name c → IsLoose name c

theorem isPart_isReference : Grammar.IsPart IsReference := fun _ _ => .inl

theorem isPart_isLoose : Grammar.IsPart IsLoose := fun _ _ => id

variable {grammar : Grammar}

/-- A reference in front is known by the text. -/
theorem Grammar.IsPart.unique (hg : grammar.IsPart) {name name' r r' : List Char} {c c' : Char}
    (h : grammar name c) (h' : IsLoose name' c')
    (heq : '&' :: (name ++ ';' :: r) = '&' :: (name' ++ ';' :: r')) :
    name = name' ∧ c = c' ∧ r = r' := by
  have hsplit := splitSemicolon?_append (hg name c h).not_mem.1 r
  rw [(List.cons.inj heq).2, splitSemicolon?_append h'.not_mem.1] at hsplit
  obtain ⟨rfl, rfl⟩ := Prod.mk.inj (Option.some.inj hsplit)
  have hc := namedCharacter?_eq_some_iff.2 (hg name' c h)
  rw [namedCharacter?_eq_some_iff.2 h'] at hc
  exact ⟨rfl, (Option.some.inj hc).symm, rfl⟩

/-- A grammar decodes a text in one way. -/
theorem Replaced.unique (hg : grammar.IsPart) {s out out' : List Char}
    (h : Replaced grammar s out) (h' : Replaced grammar s out') : out = out' := by
  induction h generalizing out' with
  | nil =>
    cases h'
    rfl
  | @reference name r out c h behind ih =>
    generalize hs : '&' :: (name ++ ';' :: r) = s at h'
    cases h' with
    | nil => cases hs
    | @reference name' r' out' c' h' behind' =>
      obtain ⟨rfl, rfl, rfl⟩ := hg.unique h (hg _ _ h') hs
      rw [ih behind']
    | copied hnot behind' => exact absurd ⟨name, c, r, h, hs.symm⟩ hnot
  | @copied x r out hnot behind ih =>
    generalize hs : x :: r = s at h'
    cases h' with
    | nil => cases hs
    | reference h' behind' => exact absurd ⟨_, _, _, h', hs⟩ hnot
    | copied hnot' behind' =>
      obtain ⟨rfl, rfl⟩ := List.cons.inj hs
      rw [ih behind']

/-- Reading decodes by the grammar with signed numbers. -/
theorem replaced_decodeReferences (s : List Char) : Replaced IsLoose s (decodeReferences s) := by
  fun_induction decodeReferences s with
  | case1 => exact .nil
  | case2 r name rest hsplit c hc hlt ih =>
    obtain ⟨rfl, -⟩ := splitSemicolon?_eq_some_iff.1 hsplit
    exact .reference (namedCharacter?_eq_some_iff.1 hc) ih
  | case3 r name rest hsplit hnone ih =>
    apply Replaced.copied _ ih
    rintro ⟨name', c, rest', h, heq⟩
    -- the text up to the semicolon would be the reference
    rw [(List.cons.inj heq).2, splitSemicolon?_append h.not_mem.1] at hsplit
    obtain ⟨rfl, -⟩ := Prod.mk.inj (Option.some.inj hsplit)
    rw [namedCharacter?_eq_some_iff.2 h] at hnone
    cases hnone
  | case4 r hsplit ih =>
    apply Replaced.copied _ ih
    rintro ⟨name, c, rest, h, heq⟩
    rw [(List.cons.inj heq).2, splitSemicolon?_append h.not_mem.1] at hsplit
    cases hsplit
  | case5 x r hx ih =>
    apply Replaced.copied _ ih
    rintro ⟨name, c, rest, h, heq⟩
    exact hx (List.cons.inj heq).1

/-! ## §4. Signed numbers -/

/-- A number with a plus sign stands somewhere in a text. -/
def HoldsSigned (s : List Char) : Prop :=
  ∃ front name c r, IsSigned name c ∧ s = front ++ '&' :: (name ++ ';' :: r)

theorem HoldsSigned.cons {s : List Char} (h : HoldsSigned s) (x : Char) : HoldsSigned (x :: s) := by
  obtain ⟨front, name, c, r, hname, rfl⟩ := h
  exact ⟨x :: front, name, c, r, hname, rfl⟩

theorem HoldsSigned.append {s : List Char} (h : HoldsSigned s) (w : List Char) :
    HoldsSigned (w ++ s) := by
  induction w with
  | nil => exact h
  | cons x w ih => exact ih.cons x

/-- Behind the first character a signed number stands as before, unless it is in front. -/
theorem HoldsSigned.of_cons {x : Char} {s : List Char} (h : HoldsSigned (x :: s)) :
    Begins IsSigned (x :: s) ∨ HoldsSigned s := by
  obtain ⟨front, name, c, r, hname, heq⟩ := h
  cases front with
  | nil => exact .inl ⟨name, c, r, hname, heq⟩
  | cons y front => exact .inr ⟨front, name, c, r, hname, (List.cons.inj heq).2⟩

/-- A signed number does not begin where no ampersand stands. -/
theorem HoldsSigned.of_append {w s : List Char} (hw : '&' ∉ w) (h : HoldsSigned (w ++ s)) :
    HoldsSigned s := by
  induction w with
  | nil => exact h
  | cons x w ih =>
    rw [List.mem_cons, not_or] at hw
    rcases h.of_cons with ⟨name, c, r, -, heq⟩ | hrest
    · exact absurd (List.cons.inj heq).1.symm hw.1
    · exact ih hw.2 hrest

/-- What has no ampersand stays. -/
theorem Replaced.of_append {w s out : List Char} (hw : '&' ∉ w)
    (h : Replaced grammar (w ++ s) out) :
    ∃ rest, out = w ++ rest ∧ Replaced grammar s rest := by
  induction w generalizing out with
  | nil => exact ⟨out, rfl, h⟩
  | cons x w ih =>
    rw [List.mem_cons, not_or] at hw
    generalize hs : x :: w ++ s = text at h
    cases h with
    | nil => cases hs
    | reference => exact absurd (List.cons.inj hs).1.symm hw.1
    | copied hnot behind =>
      obtain ⟨rfl, rfl⟩ := List.cons.inj hs
      obtain ⟨rest, rfl, hrest⟩ := ih hw.2 behind
      exact ⟨rest, rfl, hrest⟩

/-- Decoding without signed numbers leaves a text no shorter, and longer if it holds one. -/
theorem Replaced.length_le {s out out' : List Char} (h : Replaced IsLoose s out)
    (h' : Replaced IsReference s out') :
    out.length ≤ out'.length ∧ (HoldsSigned s → out.length < out'.length) := by
  induction h generalizing out' with
  | nil =>
    cases h'
    refine ⟨Nat.le_refl _, ?_⟩
    rintro ⟨front, name, c, r, -, heq⟩
    simp at heq
  | @reference name r out c h behind ih =>
    generalize hs : '&' :: (name ++ ';' :: r) = s at h'
    cases h' with
    | nil => cases hs
    | @reference name' r' out' c' h' behind' =>
      obtain ⟨rfl, rfl, rfl⟩ := isPart_isLoose.unique h (.inl h') hs
      obtain ⟨hle, hlt⟩ := ih behind'
      refine ⟨Nat.succ_le_succ hle, ?_⟩
      intro hsigned
      apply Nat.succ_lt_succ
      apply hlt
      -- the reference in front has no sign, and inside it none begins
      rcases hsigned.of_cons with ⟨name', c', r', hname', heq⟩ | hrest
      · obtain ⟨rfl, -⟩ := isPart_isReference.unique h' (.inr hname') heq
        exact absurd rfl (h'.namePart hname'.sign_mem).2
      · have hfront : '&' ∉ name ++ [';'] := by
          simp [h.not_mem.2]
        apply HoldsSigned.of_append hfront
        simpa using hrest
    | @copied x text out' hnot behind' =>
      obtain ⟨rfl, rfl⟩ := List.cons.inj hs
      -- the number stays as it is written
      have hfront : '&' ∉ name ++ [';'] := by
        simp [h.not_mem.2]
      have hsplit : name ++ ';' :: r = (name ++ [';']) ++ r := by simp
      rw [hsplit] at behind'
      obtain ⟨rest, rfl, hrest⟩ := behind'.of_append hfront
      obtain ⟨hle, -⟩ := ih hrest
      simp only [List.length_cons, List.length_append, List.length_nil]
      exact ⟨by omega, fun _ => by omega⟩
  | @copied x r out hnot behind ih =>
    generalize hs : x :: r = s at h'
    cases h' with
    | nil => cases hs
    | reference h' behind' => exact absurd ⟨_, _, _, .inl h', hs⟩ hnot
    | copied hnot' behind' =>
      obtain ⟨rfl, rfl⟩ := List.cons.inj hs
      obtain ⟨hle, hlt⟩ := ih behind'
      refine ⟨Nat.succ_le_succ hle, ?_⟩
      intro hsigned
      apply Nat.succ_lt_succ
      apply hlt
      rcases hsigned.of_cons with ⟨name, c, r, hname, heq⟩ | hrest
      · exact absurd ⟨name, c, r, .inr hname, heq⟩ hnot
      · exact hrest

/-- Without signed numbers both grammars decode alike. -/
theorem Replaced.of_not_holdsSigned {s out : List Char} (h : Replaced IsLoose s out)
    (hs : ¬ HoldsSigned s) : Replaced IsReference s out := by
  induction h with
  | nil => exact .nil
  | @reference name r out c h behind ih =>
    have hrest : ¬ HoldsSigned r := by
      intro hr
      apply hs
      have := (hr.append (name ++ [';'])).cons '&'
      simpa using this
    rcases h with h | h
    · exact .reference h (ih hrest)
    · exact absurd ⟨[], name, c, r, h, rfl⟩ hs
  | @copied x r out hnot behind ih =>
    apply Replaced.copied
    · rintro ⟨name, c, rest, h, heq⟩
      exact hnot ⟨name, c, rest, .inl h, heq⟩
    · apply ih
      intro hr
      exact hs (hr.cons x)

/-- Every text can be decoded by a grammar. -/
theorem exists_replaced (grammar : Grammar) (s : List Char) : ∃ out, Replaced grammar s out := by
  induction hn : s.length using Nat.strongRecOn generalizing s with
  | ind n ih =>
    cases s with
    | nil => exact ⟨[], .nil⟩
    | cons x s =>
      rw [List.length_cons] at hn
      by_cases hbegins : Begins grammar (x :: s)
      · obtain ⟨name, c, r, h, heq⟩ := hbegins
        obtain ⟨rfl, rfl⟩ := List.cons.inj heq
        rw [List.length_append, List.length_cons] at hn
        obtain ⟨out, hout⟩ := ih r.length (by omega) r rfl
        exact ⟨c :: out, .reference h hout⟩
      · obtain ⟨out, hout⟩ := ih s.length (by omega) s rfl
        exact ⟨x :: out, .copied hbegins hout⟩

/-! ## §5. Main statement -/

/-- Every text has exactly one decoding by the grammar of references, and reading gives it
    exactly if no number with a plus sign stands in the text.  Reading always decodes by the
    grammar that has these numbers too, and by nothing else. -/
theorem decodeReferences_iff (s : List Char) :
    (∃! out, Replaced IsReference s out) ∧
    (Replaced IsReference s (decodeReferences s) ↔ ¬ HoldsSigned s) ∧
    ∀ out, Replaced IsLoose s out ↔ out = decodeReferences s := by
  have hread := replaced_decodeReferences s
  refine ⟨?_, ?_, ?_⟩
  · obtain ⟨out, hout⟩ := exists_replaced IsReference s
    refine ⟨out, hout, ?_⟩
    intro out' hout'
    exact hout'.unique isPart_isReference hout
  · constructor
    · intro h hsigned
      exact Nat.lt_irrefl _ ((hread.length_le h).2 hsigned)
    · intro h
      exact hread.of_not_holdsSigned h
  · intro out
    constructor
    · intro h
      exact h.unique isPart_isLoose hread
    · rintro rfl
      exact hread

/-- A plus sign in front of the digits is read over, where the grammar copies the text. -/
theorem decodeReferences_plus_sign :
    decodeReferences "&#+65;".toList = "A".toList ∧
      Replaced IsReference "&#+65;".toList "&#+65;".toList := by
  have hsix : IsDigit 10 '6' 6 := ⟨by decide, by decide⟩
  have hfive : IsDigit 10 '5' 5 := ⟨by decide, by decide⟩
  have hnumber : Numeral 10 "65".toList 'A'.toNat := .behind (.digit hsix) hfive
  have hsigned : IsSigned "#+65".toList 'A' :=
    @IsSigned.number "#".toList "65".toList 10 'A' (by decide) hnumber
  have hread : Replaced IsLoose "&#+65;".toList "A".toList :=
    @Replaced.reference IsLoose "#+65".toList [] [] 'A' (.inr hsigned) .nil
  constructor
  · exact (replaced_decodeReferences _).unique isPart_isLoose hread
  · -- the only text behind an ampersand has a sign, so the ampersand stays
    have hnot : ¬ Begins IsReference "&#+65;".toList := by
      rintro ⟨name, c, r, h, heq⟩
      obtain ⟨rfl, -⟩ := isPart_isReference.unique h (.inr hsigned) heq.symm
      exact absurd rfl (h.namePart hsigned.sign_mem).2
    obtain ⟨out, hout⟩ := exists_replaced IsReference "#+65;".toList
    obtain ⟨rest, rfl, hrest⟩ := @Replaced.of_append _ "#+65;".toList [] out (by decide) hout
    cases hrest
    exact .copied hnot hout

end Provenance.Text
