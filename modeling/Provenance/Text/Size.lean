/-! # Sizes of a text

  Source texts are read as lists of characters, while every offset that leaves
  the library counts bytes of UTF-8 and every column counts UTF-16 units.  This
  module measures a text in both units and cuts it at a byte offset.

  Main statement: `cut?` loses nothing, and the offset is the size of its first
  part (`cut?_eq_some`).
-/

namespace Provenance.Text

/-! ## §1. Measures -/

/-- The number of bytes of a text in UTF-8. -/
def byteSize : List Char → Nat
  | [] => 0
  | c :: r => c.utf8Size + byteSize r

/-- The number of UTF-16 units of a character: two beyond the basic plane. -/
def unitsOf (c : Char) : Nat := if c.toNat < 0x10000 then 1 else 2

/-- The number of UTF-16 units of a text. -/
def unitSize : List Char → Nat
  | [] => 0
  | c :: r => unitsOf c + unitSize r

@[simp] theorem byteSize_nil : byteSize [] = 0 := rfl

@[simp] theorem byteSize_cons (c : Char) (r : List Char) :
    byteSize (c :: r) = c.utf8Size + byteSize r := rfl

@[simp] theorem byteSize_append (a b : List Char) :
    byteSize (a ++ b) = byteSize a + byteSize b := by
  induction a with
  | nil => simp
  | cons c r ih => simp [ih, Nat.add_assoc]

@[simp] theorem unitSize_append (a b : List Char) :
    unitSize (a ++ b) = unitSize a + unitSize b := by
  induction a with
  | nil => simp [unitSize]
  | cons c r ih => simp [unitSize, ih, Nat.add_assoc]

/-! ## §2. Cutting at a byte offset -/

/-- Splits a text at a byte offset; `none` where the offset lies inside a
    character or past the end. -/
def cut? : Nat → List Char → Option (List Char × List Char)
  | 0, s => some ([], s)
  | _ + 1, [] => none
  | n + 1, c :: r =>
    if c.utf8Size ≤ n + 1 then
      (cut? (n + 1 - c.utf8Size) r).map fun parts => (c :: parts.1, parts.2)
    else none

/-- The text between two byte offsets; `none` unless both are boundaries of
    characters and in order. -/
def slice? (s : List Char) (start stop : Nat) : Option (List Char) :=
  if start ≤ stop then
    (cut? start s).bind fun parts => (cut? (stop - start) parts.2).map (·.1)
  else none

theorem cut?_eq_some {n : Nat} {s a b : List Char} (h : cut? n s = some (a, b)) :
    s = a ++ b ∧ byteSize a = n := by
  induction s generalizing n a b with
  | nil =>
    cases n with
    | zero => simp only [cut?, Option.some.injEq, Prod.mk.injEq] at h; simp [← h.1, ← h.2]
    | succ n => simp [cut?] at h
  | cons c r ih =>
    cases n with
    | zero => simp only [cut?, Option.some.injEq, Prod.mk.injEq] at h; simp [← h.1, ← h.2]
    | succ n =>
      rw [cut?] at h
      split at h
      · obtain ⟨⟨p, q⟩, hpq, heq⟩ := Option.map_eq_some_iff.1 h
        obtain ⟨rfl, rfl⟩ := Prod.mk.inj heq
        obtain ⟨hr, hp⟩ := ih hpq
        exact ⟨by simp [hr], by simp [hp]; omega⟩
      · simp at h

end Provenance.Text
