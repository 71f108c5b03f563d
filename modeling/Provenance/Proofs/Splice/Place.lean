import Provenance.Splice
import Provenance.Proofs.Text.Position

/-! # Places in an edited text

  The generated side of a source map counts line feeds, and UTF-16 units since the last
  of them.

  - A cursor that has advanced over a text is where this count says (`foldl_advance`).
  - It goes strictly forward, so a place of a text is the place of one piece in front of
    it only (`behind_injective`).
  - Neither number is larger than the number of UTF-16 units in front (`behind_le`).
-/

namespace Provenance.SpliceBuffer.Cursor

open Text (unitSize unitsOf)

/-- The place behind a text: its line feeds, and its UTF-16 units since the last of
    them. -/
def behind (front : List Char) : Cursor where
  line := front.count '\n'
  column := unitSize (front.reverse.takeWhile (· ≠ '\n'))

/-! ## §1. Advancing -/

/-- One character moves the place behind a text to the place behind one character
    more. -/
theorem advance_behind (front : List Char) (c : Char) :
    (behind front).advance c = behind (front ++ [c]) := by
  by_cases h : c = '\n'
  · subst h
    simp [advance, behind, unitSize]
  · have hnot : '\n' ∉ [c] := by simpa using Ne.symm h
    have hline : (front ++ [c]).count '\n' = front.count '\n' := by
      rw [List.count_append, List.count_eq_zero_of_not_mem hnot, Nat.add_zero]
    have hcolumn : unitSize ((front ++ [c]).reverse.takeWhile (· ≠ '\n')) =
        unitSize (front.reverse.takeWhile (· ≠ '\n')) + unitsOf c := by
      rw [List.reverse_append, List.reverse_singleton, List.singleton_append,
        List.takeWhile_cons_of_pos (by simpa using h), unitSize, Nat.add_comm]
    rw [advance, if_neg h, behind, behind, hline, hcolumn]

/-- Advancing over a text leads to the place behind it. -/
theorem foldl_advance (front s : List Char) :
    s.foldl advance (behind front) = behind (front ++ s) := by
  induction s generalizing front with
  | nil => rw [List.append_nil]; rfl
  | cons c s ih =>
    rw [List.foldl_cons, advance_behind, ih, List.append_assoc]
    rfl

/-! ## §2. Order -/

/-- A place stands before another one. -/
def Before (a b : Cursor) : Prop := a.line < b.line ∨ (a.line = b.line ∧ a.column < b.column)

theorem Before.trans {a b c : Cursor} (h : a.Before b) (h' : b.Before c) : a.Before c := by
  unfold Before at h h' ⊢
  omega

theorem Before.ne {a b : Cursor} (h : a.Before b) : a ≠ b := by
  rintro rfl
  unfold Before at h
  omega

theorem before_advance (a : Cursor) (c : Char) : a.Before (a.advance c) := by
  unfold advance
  split
  · exact .inl (Nat.lt_succ_self a.line)
  · have hpos := (Text.unitsOf_le c).1
    exact .inr ⟨rfl, by show a.column < a.column + unitsOf c; omega⟩

theorem before_foldl (a : Cursor) {s : List Char} (hs : s ≠ []) : a.Before (s.foldl advance a) := by
  induction s generalizing a with
  | nil => exact absurd rfl hs
  | cons c s ih =>
    rw [List.foldl_cons]
    by_cases hne : s = []
    · subst hne
      exact before_advance a c
    · exact (before_advance a c).trans (ih (a.advance c) hne)

/-- The place behind a longer piece comes later. -/
theorem behind_before (front : List Char) {s : List Char} (hs : s ≠ []) :
    (behind front).Before (behind (front ++ s)) := by
  rw [← foldl_advance]
  exact before_foldl _ hs

/-- Two pieces in front of a text with the same place behind them are the same. -/
theorem behind_injective {p q r s : List Char} (h : p ++ r = q ++ s)
    (hplace : behind p = behind q) : p = q := by
  rcases List.append_eq_append_iff.1 h with ⟨m, rfl, -⟩ | ⟨m, rfl, -⟩
  · by_cases hm : m = []
    · rw [hm, List.append_nil]
    · exact absurd hplace (behind_before p hm).ne
  · by_cases hm : m = []
    · rw [hm, List.append_nil]
    · exact absurd hplace.symm (behind_before q hm).ne

/-! ## §3. Bounds -/

theorem foldl_advance_le (a : Cursor) (s : List Char) :
    (s.foldl advance a).line + (s.foldl advance a).column ≤ a.line + a.column + unitSize s := by
  induction s generalizing a with
  | nil => exact Nat.le_refl _
  | cons c s ih =>
    have hstep : (a.advance c).line + (a.advance c).column ≤ a.line + a.column + unitsOf c := by
      have hpos := (Text.unitsOf_le c).1
      unfold advance
      split
      · show a.line + 1 + 0 ≤ _
        omega
      · show a.line + (a.column + unitsOf c) ≤ _
        omega
    have htail := ih (a.advance c)
    rw [List.foldl_cons, unitSize]
    omega

/-- Both numbers of a place fit where the number of units in front of it fits. -/
theorem behind_le (front : List Char) :
    (behind front).line ≤ unitSize front ∧ (behind front).column ≤ unitSize front := by
  have hsum := foldl_advance_le (behind []) front
  rw [foldl_advance] at hsum
  have hzero : (behind []).line + (behind []).column = 0 := rfl
  rw [List.nil_append, hzero] at hsum
  omega

end Provenance.SpliceBuffer.Cursor
