import Provenance.SourceMap

/-! # Reading mappings

  The text of a source map is read back by the rules of its format: a semicolon ends
  a generated line, a comma ends a segment, and a segment is a few numbers in digits of
  base 64 that count from those of the segment before (`decode?`).

  Main statement: from the text of a map whose segments go forward in the generated
  text, exactly these segments are read (`decode?_mappings`).
-/

namespace Provenance

/-! ## §1. Numbers -/

namespace SourceMap

/-- The digits of base 64 by their values. -/
def alphabet : List Char :=
  "ABCDEFGHIJKLMNOPQRSTUVWXYZabcdefghijklmnopqrstuvwxyz0123456789+/".toList

/-- The number that a digit stands for. -/
def digitValue? (c : Char) : Option Nat := alphabet.idxOf? c

/-- The numbers that some digits are read as.  A digit from 32 on has the next digits
    of its number behind it. -/
def numbers? : List Char → Option (List Nat)
  | [] => some []
  | c :: r =>
    match digitValue? c, numbers? r with
    | some d, some ns =>
      if d < 32 then some (d :: ns)
      else
        match ns with
        | n :: more => some ((d - 32 + 32 * n) :: more)
        | [] => none
    | _, _ => none

/-- The difference that a number stands for: its lowest bit is the sign. -/
def signed (n : Nat) : Int := if n % 2 = 1 then -((n / 2 : Nat) : Int) else ((n / 2 : Nat) : Int)

theorem digitValue?_base64Digit {n : Nat} (h : n < 64) :
    digitValue? (base64Digit n) = some n ∧ base64Digit n ≠ ',' ∧ base64Digit n ≠ ';' := by
  have hall : ∀ k : Fin 64, digitValue? (base64Digit k) = some k.val ∧
      base64Digit k ≠ ',' ∧ base64Digit k ≠ ';' := by
    decide +kernel
  exact hall ⟨n, h⟩

theorem numbers?_encodeNat (n : Nat) (s : List Char) :
    numbers? (encodeNat n ++ s) = (numbers? s).map (n :: ·) := by
  induction n using Nat.strongRecOn with
  | ind n ih =>
    rw [encodeNat]
    split
    · -- the last digit of the number
      next hsmall =>
      have hdigit := (digitValue?_base64Digit (show n < 64 by omega)).1
      rw [List.singleton_append, numbers?, hdigit]
      cases numbers? s with
      | none => rfl
      | some ns => simp only [if_pos hsmall, Option.map_some]
    · next hlarge =>
      have hdigit := (digitValue?_base64Digit (show 32 + n % 32 < 64 by omega)).1
      rw [List.cons_append, numbers?, hdigit, ih (n / 32) (by omega)]
      cases numbers? s with
      | none => rfl
      | some ns =>
        have hlow : 32 + n % 32 - 32 + 32 * (n / 32) = n := by omega
        simp only [Option.map_some, if_neg (show ¬ 32 + n % 32 < 32 by omega), hlow]

theorem encodeNat_plain (n : Nat) : ∀ c ∈ encodeNat n, c ≠ ',' ∧ c ≠ ';' := by
  induction n using Nat.strongRecOn with
  | ind n ih =>
    rw [encodeNat]
    split
    · intro c hc
      obtain rfl := List.mem_singleton.1 hc
      exact (digitValue?_base64Digit (by omega)).2
    · intro c hc
      rcases List.mem_cons.1 hc with rfl | hc
      · exact (digitValue?_base64Digit (by omega)).2
      · exact ih (n / 32) (by omega) c hc

/-- The number that a difference is written as. -/
def unsigned (n : Int) : Nat := 2 * n.natAbs + if n < 0 then 1 else 0

theorem signed_unsigned (n : Int) : signed (unsigned n) = n := by
  unfold signed unsigned
  by_cases h : n < 0
  · rw [if_pos h, if_pos (by omega)]
    omega
  · rw [if_neg h, if_neg (by omega)]
    omega

theorem numbers?_encodeInt (n : Int) (s : List Char) :
    numbers? (encodeInt n ++ s) = (numbers? s).map (unsigned n :: ·) :=
  numbers?_encodeNat (unsigned n) s

theorem encodeInt_plain (n : Int) : ∀ c ∈ encodeInt n, c ≠ ',' ∧ c ≠ ';' :=
  encodeNat_plain (unsigned n)

/-! ## §2. Segments -/

/-- What the fields read so far add up to. -/
structure Sums where
  generatedLine : Nat := 0
  generatedColumn : Int := 0
  source : Int := 0
  line : Int := 0
  column : Int := 0
  name : Int := 0

namespace Sums

/-- The segment at the sums, of the only source there is. -/
def segment? (s : Sums) (hasName : Bool) : Option Segment :=
  match s.source, s.generatedColumn.toNat?, s.line.toNat?, s.column.toNat?, s.name.toNat? with
  | 0, some generatedColumn, some line, some column, some name =>
    some ⟨s.generatedLine, generatedColumn, line, column, if hasName then some name else none⟩
  | _, _, _, _, _ => none

/-- Adds the fields of one segment: four, or five if it has a name. -/
def add? (s : Sums) : List Int → Option (Sums × Segment)
  | [generatedColumn, source, line, column] =>
    let s' : Sums :=
      { s with
        generatedColumn := s.generatedColumn + generatedColumn, source := s.source + source
        line := s.line + line, column := s.column + column }
    (s'.segment? false).map fun segment => (s', segment)
  | [generatedColumn, source, line, column, name] =>
    let s' : Sums :=
      { s with
        generatedColumn := s.generatedColumn + generatedColumn, source := s.source + source
        line := s.line + line, column := s.column + column, name := s.name + name }
    (s'.segment? true).map fun segment => (s', segment)
  | _ => none

/-- Ends a segment, given its digits.  Where there are none, there is no segment. -/
def finish? (s : Sums) (digits : List Char) : Option (Sums × List Segment) :=
  if digits.isEmpty then some (s, [])
  else
    ((numbers? digits).bind fun ns => s.add? (ns.map signed)).map fun read => (read.1, [read.2])

/-- Begins the next generated line. -/
def nextLine (s : Sums) : Sums :=
  { s with generatedLine := s.generatedLine + 1, generatedColumn := 0 }

end Sums

/-- Reads segments, where `digits` are those of the current segment so far. -/
def decodeFrom? (s : Sums) (digits : List Char) : List Char → Option (List Segment)
  | [] => (s.finish? digits).map (·.2)
  | c :: r =>
    if c = ',' then
      (s.finish? digits).bind fun read => (decodeFrom? read.1 [] r).map (read.2 ++ ·)
    else if c = ';' then
      (s.finish? digits).bind fun read => (decodeFrom? read.1.nextLine [] r).map (read.2 ++ ·)
    else decodeFrom? s (digits ++ [c]) r

/-- Reads the segments of a map. -/
def decode? (mappings : List Char) : Option (List Segment) := decodeFrom? {} [] mappings

/-- Characters of a segment are gathered. -/
theorem decodeFrom?_append {w : List Char} (hw : ∀ c ∈ w, c ≠ ',' ∧ c ≠ ';') (s : Sums)
    (digits r : List Char) : decodeFrom? s digits (w ++ r) = decodeFrom? s (digits ++ w) r := by
  induction w generalizing digits with
  | nil => rw [List.append_nil, List.nil_append]
  | cons c w ih =>
    obtain ⟨hcomma, hsemicolon⟩ := hw c List.mem_cons_self
    rw [List.cons_append, decodeFrom?, if_neg hcomma, if_neg hsemicolon,
      ih (fun x hx => hw x (List.mem_cons_of_mem c hx)), List.append_assoc, List.singleton_append]

/-! ## §3. What is written for a segment -/

/-- The sums that the differences of the next segment are taken from. -/
def Previous.sums (p : Previous) : Sums where
  generatedLine := p.generatedLine
  generatedColumn := p.generatedColumn
  line := p.line
  column := p.column
  name := p.name

/-- What comes before the segment that follows `s`. -/
def Previous.after (p : Previous) (s : Segment) : Previous where
  segment := some s
  generatedLine := s.generatedLine
  generatedColumn := s.generatedColumn
  line := s.line
  column := s.column
  name := s.name.getD p.name

theorem encodeSegment_plain (p : Previous) (g : Nat) (s : Segment) :
    ∀ c ∈ encodeSegment p g s, c ≠ ',' ∧ c ≠ ';' := by
  intro c hc
  unfold encodeSegment at hc
  simp only [List.mem_append] at hc
  rcases hc with (((hc | hc) | hc) | hc) | hc
  · exact encodeInt_plain _ c hc
  · exact encodeInt_plain _ c hc
  · exact encodeInt_plain _ c hc
  · exact encodeInt_plain _ c hc
  · cases hname : s.name with
    | none => rw [hname] at hc; cases hc
    | some name => rw [hname] at hc; exact encodeInt_plain _ c hc

theorem encodeSegment_ne_nil (p : Previous) (g : Nat) (s : Segment) : encodeSegment p g s ≠ [] := by
  have hne : ∀ n, encodeNat n ≠ [] := by
    intro n
    rw [encodeNat]
    split <;> simp
  simp [encodeSegment, encodeInt, hne]

/-- The numbers of a segment add up to it. -/
theorem finish?_encodeSegment (p : Previous) (s : Segment) (g : Nat) (sums : Sums)
    (hsums : sums = { p.sums with generatedLine := s.generatedLine, generatedColumn := g }) :
    sums.finish? (encodeSegment p g s) = some ((p.after s).sums, [s]) := by
  subst hsums
  obtain ⟨generatedLine, generatedColumn, line, column, name⟩ := s
  have hempty : (encodeSegment p g ⟨generatedLine, generatedColumn, line, column, name⟩).isEmpty =
      false := by
    rw [List.isEmpty_eq_false_iff]
    exact encodeSegment_ne_nil p g _
  have hsum : ∀ a b : Nat, (b : Int) + ((a : Int) - b) = a := by
    intro a b
    omega
  rw [Sums.finish?, hempty]
  cases name with
  | none =>
    have hnumbers : numbers? (encodeSegment p g
        ⟨generatedLine, generatedColumn, line, column, none⟩) =
        some [unsigned ((generatedColumn : Int) - g), unsigned 0, unsigned ((line : Int) - p.line),
          unsigned ((column : Int) - p.column)] := by
      simp only [encodeSegment, List.append_assoc, numbers?_encodeInt]
      rfl
    rw [hnumbers]
    simp only [Bool.false_eq_true, if_false, Option.bind_some, List.map_cons, List.map_nil,
      signed_unsigned, Sums.add?, hsum, Previous.sums, Previous.after, Sums.segment?]
    rfl
  | some name =>
    have hnumbers : numbers? (encodeSegment p g
        ⟨generatedLine, generatedColumn, line, column, some name⟩) =
        some [unsigned ((generatedColumn : Int) - g), unsigned 0, unsigned ((line : Int) - p.line),
          unsigned ((column : Int) - p.column), unsigned ((name : Int) - p.name)] := by
      have hend : numbers? (encodeInt ((name : Int) - p.name)) =
          some [unsigned ((name : Int) - p.name)] := by
        have happend := numbers?_encodeInt ((name : Int) - p.name) []
        rw [List.append_nil] at happend
        exact happend
      simp only [encodeSegment, List.append_assoc, numbers?_encodeInt, hend]
      rfl
    rw [hnumbers]
    simp only [Bool.false_eq_true, if_false, Option.bind_some, List.map_cons, List.map_nil,
      signed_unsigned, Sums.add?, hsum, Previous.sums, Previous.after, Sums.segment?]
    rfl

/-! ## §4. What is written for all segments -/

end SourceMap

/-- A segment stands before another one in the generated text. -/
def Segment.Before (a b : Segment) : Prop :=
  a.generatedLine < b.generatedLine ∨
    (a.generatedLine = b.generatedLine ∧ a.generatedColumn < b.generatedColumn)

namespace SourceMap

/-- Semicolons begin generated lines. -/
theorem decodeFrom?_semicolons {s s' : Sums} {digits : List Char} {found : List Segment}
    (h : s.finish? digits = some (s', found)) (k : Nat) (r : List Char) :
    decodeFrom? s digits (List.replicate (k + 1) ';' ++ r) =
      (decodeFrom? { s' with generatedLine := s'.generatedLine + (k + 1), generatedColumn := 0 } []
        r).map (found ++ ·) := by
  induction k generalizing s s' digits found with
  | zero =>
    show decodeFrom? s digits (';' :: r) = _
    rw [decodeFrom?, if_neg (by decide), if_pos rfl, h]
    rfl
  | succ k ih =>
    -- the line that the first semicolon begins has no segments
    have hnext := ih (show s'.nextLine.finish? [] = some (s'.nextLine, []) from rfl)
    have hline : s'.nextLine.generatedLine + (k + 1) = s'.generatedLine + (k + 1 + 1) := by
      show s'.generatedLine + 1 + (k + 1) = _
      omega
    rw [hline] at hnext
    rw [List.replicate_succ, List.cons_append, decodeFrom?, if_neg (by decide), if_pos rfl, h,
      Option.bind_some, hnext, Option.map_map]
    rfl

/-- A segment on the line that was begun stands behind a comma, unless it is the first. -/
theorem encodeSegments_same {p : Previous} {s : Segment} (hline : s.generatedLine = p.generatedLine)
    (hne : p.segment ≠ some s) (rest : List Segment) :
    encodeSegments p (s :: rest) = (if p.segment.isSome then [','] else []) ++
      (encodeSegment p p.generatedColumn s ++ encodeSegments (p.after s) rest) := by
  have hlines : s.generatedLine - p.generatedLine = 0 := by omega
  rw [encodeSegments, if_pos hlines, if_neg hne, List.append_assoc]
  rfl

/-- A segment on a later line stands behind a semicolon for each line that ends. -/
theorem encodeSegments_later {p : Previous} {s : Segment} {k : Nat}
    (hline : s.generatedLine = p.generatedLine + (k + 1)) (rest : List Segment) :
    encodeSegments p (s :: rest) = List.replicate (k + 1) ';' ++
      (encodeSegment p 0 s ++ encodeSegments (p.after s) rest) := by
  have hlines : s.generatedLine - p.generatedLine = k + 1 := by omega
  rw [encodeSegments, hlines, if_neg (by omega), List.append_assoc]
  rfl

/-- Behind a segment whose digits were gathered, the segments that follow it are read. -/
theorem decodeFrom?_encodeSegments {p : Previous} {s : Segment} {rest : List Segment}
    (h : (s :: rest).Pairwise Segment.Before) {sums : Sums} {digits : List Char}
    (hdigits : sums.finish? digits = some ((p.after s).sums, [s])) :
    decodeFrom? sums digits (encodeSegments (p.after s) rest) = some (s :: rest) := by
  induction rest generalizing p s sums digits with
  | nil =>
    rw [encodeSegments, decodeFrom?, hdigits]
    rfl
  | cons t rest ih =>
    obtain ⟨hs, htail⟩ := List.pairwise_cons.1 h
    have hst : s.Before t := hs t List.mem_cons_self
    by_cases hline : t.generatedLine = s.generatedLine
    · -- the same line, and `t` is another segment of it
      have hne : (p.after s).segment ≠ some t := by
        intro heq
        obtain rfl := Option.some.inj heq
        rcases hst with hlt | ⟨-, hlt⟩ <;> omega
      have hread := finish?_encodeSegment (p.after s) t s.generatedColumn (p.after s).sums
        (by rw [hline]; rfl)
      have htext : encodeSegments (p.after s) (t :: rest) =
          ',' :: (encodeSegment (p.after s) s.generatedColumn t ++
            encodeSegments ((p.after s).after t) rest) := encodeSegments_same hline hne rest
      rw [htext, decodeFrom?, if_pos rfl, hdigits, Option.bind_some,
        decodeFrom?_append (encodeSegment_plain _ _ _), List.nil_append, ih htail hread]
      rfl
    · have hlt : s.generatedLine < t.generatedLine := by
        rcases hst with hlt | ⟨heq, -⟩ <;> omega
      obtain ⟨k, hk⟩ : ∃ k, t.generatedLine = s.generatedLine + (k + 1) :=
        ⟨t.generatedLine - s.generatedLine - 1, by omega⟩
      have hread := finish?_encodeSegment (p.after s) t 0
        { (p.after s).sums with generatedLine := s.generatedLine + (k + 1), generatedColumn := 0 }
        (by rw [hk]; rfl)
      rw [encodeSegments_later hk, decodeFrom?_semicolons hdigits,
        decodeFrom?_append (encodeSegment_plain _ _ _), List.nil_append]
      show (decodeFrom? { (p.after s).sums with
        generatedLine := s.generatedLine + (k + 1), generatedColumn := 0 } _ _).map _ = _
      rw [ih htail hread]
      rfl

/-- From the text of a map whose segments go forward its segments are read. -/
theorem decode?_mappings (map : SourceMap) (h : map.segments.Pairwise Segment.Before) :
    decode? map.mappings = some map.segments := by
  rw [decode?, mappings]
  cases hsegments : map.segments with
  | nil => rfl
  | cons s rest =>
    rw [hsegments] at h
    by_cases hline : s.generatedLine = 0
    · have hread := finish?_encodeSegment {} s 0 {} (by rw [hline]; rfl)
      have htext : encodeSegments {} (s :: rest) =
          encodeSegment {} 0 s ++ encodeSegments (Previous.after {} s) rest :=
        encodeSegments_same hline (by rintro ⟨⟩) rest
      rw [htext, decodeFrom?_append (encodeSegment_plain _ _ _), List.nil_append,
        decodeFrom?_encodeSegments h hread]
    · obtain ⟨k, hk⟩ : ∃ k, s.generatedLine = 0 + (k + 1) := ⟨s.generatedLine - 1, by omega⟩
      have hread := finish?_encodeSegment {} s 0 { generatedLine := 0 + (k + 1) } (by rw [hk]; rfl)
      have hempty : Sums.finish? {} [] = some ({}, []) := rfl
      rw [encodeSegments_later hk, decodeFrom?_semicolons hempty,
        decodeFrom?_append (encodeSegment_plain _ _ _), List.nil_append]
      show (decodeFrom? { generatedLine := 0 + (k + 1) } _ _).map _ = _
      rw [decodeFrom?_encodeSegments h hread]
      rfl

end SourceMap

end Provenance
