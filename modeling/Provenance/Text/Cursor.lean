import Provenance.Text.Size

/-! # Cursors

  A cursor is a place in a text that is being read: the characters that remain,
  and the byte offset at which they start.  Reading moves a cursor over a part
  of the characters that remain, so an offset is always a boundary.
-/

namespace Provenance.Text

/-- A place in a text. -/
structure Cursor where
  offset : Nat := 0
  rest : List Char
deriving DecidableEq, Repr

namespace Cursor

/-! ## §1. Moves -/

/-- The cursor behind `taken`, with `rest` remaining. -/
def past (c : Cursor) (taken rest : List Char) : Cursor := ⟨c.offset + byteSize taken, rest⟩

/-- The characters in front that satisfy a test, and the cursor behind them. -/
def takeWhile (c : Cursor) (p : Char → Bool) : List Char × Cursor :=
  (c.rest.takeWhile p, c.past (c.rest.takeWhile p) (c.rest.dropWhile p))

/-- The cursor behind the characters that satisfy a test. -/
def skipWhile (c : Cursor) (p : Char → Bool) : Cursor := (c.takeWhile p).2

/-- The cursor behind `n` characters. -/
def skip (c : Cursor) (n : Nat) : Cursor := c.past (c.rest.take n) (c.rest.drop n)

/-- Splits a list at the first place where a pattern stands: what is before the
    pattern and what is after it. -/
def splitOn? (pattern : List Char) : List Char → Option (List Char × List Char)
  | [] => if pattern.isEmpty then some ([], []) else none
  | c :: r =>
    match pattern.isPrefixOf? (c :: r) with
    | some rest => some ([], rest)
    | none => (splitOn? pattern r).map fun parts => (c :: parts.1, parts.2)

/-- The characters before the next place where a pattern stands, and the cursor
    behind the pattern. -/
def takeUntil? (c : Cursor) (pattern : List Char) : Option (List Char × Cursor) :=
  (splitOn? pattern c.rest).map fun parts => (parts.1, c.past (parts.1 ++ pattern) parts.2)

/-! ## §2. Progress -/

theorem length_dropWhile_le (p : Char → Bool) (s : List Char) :
    (s.dropWhile p).length ≤ s.length := (List.dropWhile_sublist p).length_le

theorem length_takeWhile_le (c : Cursor) (p : Char → Bool) :
    (c.takeWhile p).2.rest.length ≤ c.rest.length := length_dropWhile_le p c.rest

theorem length_skipWhile_le (c : Cursor) (p : Char → Bool) :
    (c.skipWhile p).rest.length ≤ c.rest.length := length_dropWhile_le p c.rest

theorem length_skip (c : Cursor) (n : Nat) : (c.skip n).rest.length = c.rest.length - n := by
  simp [skip, past]

theorem eq_append_of_isPrefixOf? {pattern s rest : List Char}
    (h : pattern.isPrefixOf? s = some rest) : s = pattern ++ rest := by
  induction pattern generalizing s with
  | nil => exact Option.some.inj h
  | cons p ps ih =>
    cases s with
    | nil => exact absurd h (by rintro ⟨⟩)
    | cons c r =>
      have hstep : (if p == c then ps.isPrefixOf? r else none) = some rest := h
      by_cases heq : (p == c) = true
      · rw [if_pos heq] at hstep
        rw [ih hstep, eq_of_beq heq]
        rfl
      · rw [if_neg heq] at hstep
        exact absurd hstep (by rintro ⟨⟩)

theorem splitOn?_eq_some {pattern s before after : List Char}
    (h : splitOn? pattern s = some (before, after)) : s = before ++ pattern ++ after := by
  induction s generalizing before with
  | nil =>
    simp only [splitOn?] at h
    split at h
    · next he => simp_all
    · simp at h
  | cons c r ih =>
    simp only [splitOn?] at h
    split at h
    · next rest hp =>
      obtain ⟨rfl, rfl⟩ := Prod.mk.inj (Option.some.inj h)
      simpa using eq_append_of_isPrefixOf? hp
    · obtain ⟨⟨a, b⟩, hab, heq⟩ := Option.map_eq_some_iff.1 h
      obtain ⟨rfl, rfl⟩ := Prod.mk.inj heq
      simp [ih hab]

theorem length_of_takeUntil? {c d : Cursor} {pattern text : List Char}
    (h : c.takeUntil? pattern = some (text, d)) :
    d.rest.length + pattern.length ≤ c.rest.length := by
  obtain ⟨⟨a, b⟩, hab, heq⟩ := Option.map_eq_some_iff.1 h
  obtain ⟨_, rfl⟩ := Prod.mk.inj heq
  rw [splitOn?_eq_some hab]
  simp [past]
  omega

end Cursor

end Provenance.Text
