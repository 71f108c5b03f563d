import Provenance.Proofs.Text.Position

/-! # Positions by line ends

  Where a text is cut in two, the position of the cut counts what stands in front of it:

  - its line counts the line ends in front (`lineEnds`),
  - its column counts the units behind the last of them (`lastLine`).

  A carriage return in front of a line feed ends no line, so whether the last character
  in front ends a line may be seen from what follows only.
-/

namespace Provenance

namespace Text

/-! ## §1. Line ends in front of a place -/

/-- The number of line ends in a text that `after` follows. -/
def lineEnds (after : List Char) : List Char → Nat
  | [] => 0
  | c :: r => if endsLine c (r ++ after) then lineEnds after r + 1 else lineEnds after r

/-- What stands behind the last line end of a text that `after` follows. -/
def lastLine (after : List Char) : List Char → List Char
  | [] => []
  | c :: r => if lineEnds after (c :: r) = 0 then c :: r else lastLine after r

/-- Every line of a text that `after` follows ends at a line feed. -/
def OnlyFeeds (after text : List Char) : Prop :=
  ∀ a c b, text = a ++ c :: b → endsLine c (b ++ after) → c = '\n'

variable {after : List Char}

theorem endsLine_feed (r : List Char) : endsLine '\n' r = true := rfl

theorem lineEnds_le (after s : List Char) : lineEnds after s ≤ byteSize s := by
  induction s with
  | nil => exact Nat.le_refl 0
  | cons c r ih =>
    have hpos := c.utf8Size_pos
    rw [lineEnds, byteSize_cons]
    split <;> omega

/-- The last line is the end of the text. -/
theorem lastLine_suffix (after s : List Char) : lastLine after s <:+ s := by
  induction s with
  | nil => exact List.suffix_refl []
  | cons c r ih =>
    rw [lastLine]
    split
    · exact List.suffix_refl _
    · exact ih.trans (List.suffix_cons c r)

theorem onlyFeeds_cons {c : Char} {r : List Char} :
    OnlyFeeds after (c :: r) ↔ (endsLine c (r ++ after) → c = '\n') ∧ OnlyFeeds after r := by
  constructor
  · intro h
    refine ⟨h [] c r rfl, ?_⟩
    intro a d b hr
    exact h (c :: a) d b (by rw [hr]; rfl)
  · rintro ⟨hc, hr⟩ a d b hsplit
    cases a with
    | nil =>
      obtain ⟨rfl, rfl⟩ := List.cons.inj hsplit
      exact hc
    | cons x a => exact hr a d b (List.cons.inj hsplit).2

theorem unitSize_reverse (s : List Char) : unitSize s.reverse = unitSize s := by
  induction s with
  | nil => rfl
  | cons c r ih =>
    rw [List.reverse_cons, unitSize_append, ih, unitSize, unitSize, unitSize]
    omega

/-! ## §2. Counting line feeds -/

/-- There are no more line feeds than line ends. -/
theorem count_le_lineEnds (after s : List Char) : s.count '\n' ≤ lineEnds after s := by
  induction s with
  | nil => exact Nat.le_refl 0
  | cons c r ih =>
    rw [lineEnds]
    by_cases hc : c = '\n'
    · subst hc
      rw [List.count_cons_self, endsLine_feed, if_pos rfl]
      omega
    · rw [List.count_cons_of_ne hc]
      split <;> omega

/-- There are as many line feeds as line ends exactly where every line ends at a line
    feed. -/
theorem count_eq_lineEnds_iff {s : List Char} :
    s.count '\n' = lineEnds after s ↔ OnlyFeeds after s := by
  induction s with
  | nil =>
    refine iff_of_true rfl ?_
    intro a c b h
    exact absurd h.symm (by simp)
  | cons c r ih =>
    have hle := count_le_lineEnds after r
    rw [onlyFeeds_cons, ← ih, lineEnds]
    by_cases hc : c = '\n'
    · subst hc
      rw [List.count_cons_self, endsLine_feed, if_pos rfl]
      simp
    · rw [List.count_cons_of_ne hc]
      by_cases hend : endsLine c (r ++ after)
      · -- another line end, so the count stays behind from here on
        rw [if_pos hend]
        simp only [hend, hc, true_implies, false_and, iff_false]
        omega
      · rw [if_neg hend]
        simp [hend]

instance (after s : List Char) : Decidable (OnlyFeeds after s) :=
  decidable_of_iff _ count_eq_lineEnds_iff

end Text

namespace LineIndex

open Text

/-! ## §3. The position of a cut -/

/-- The line starts up to a cut, by the line ends in front of it. -/
theorem filter_lineStartsFrom (o : Nat) (p q : List Char) :
    ((lineStartsFrom o (p ++ q)).filter (· ≤ o + byteSize p)).length = lineEnds q p ∧
    ∃ a, p = a ++ lastLine q p ∧
      ((lineStartsFrom o (p ++ q)).filter (· ≤ o + byteSize p)).getLast?.getD o =
        o + byteSize a := by
  induction p generalizing o with
  | nil =>
    have hnone : (lineStartsFrom o q).filter (· ≤ o) = [] := by
      rw [List.filter_eq_nil_iff]
      intro x hx
      have := (mem_lineStartsFrom hx).1
      simp
      omega
    rw [byteSize_nil, Nat.add_zero, List.nil_append, hnone]
    exact ⟨rfl, [], rfl, rfl⟩
  | cons c r ih =>
    have hend : o + byteSize (c :: r) = o + c.utf8Size + byteSize r := by
      rw [byteSize_cons]
      omega
    obtain ⟨hlength, a, ha, hlast⟩ := ih (o + c.utf8Size)
    rw [List.cons_append, lineStartsFrom, hend]
    by_cases hc : endsLine c (r ++ q)
    · -- the line start behind `c` is counted, and the last one is found behind it
      have hcount : lineEnds q (c :: r) = lineEnds q r + 1 := by rw [lineEnds, if_pos hc]
      have hline : lastLine q (c :: r) = lastLine q r := by
        rw [lastLine, hcount, if_neg (by omega)]
      rw [if_pos hc, List.filter_cons_of_pos (by simp), List.length_cons, hlength,
        hcount, hline, List.getLast?_cons, Option.getD_some, hlast]
      refine ⟨rfl, c :: a, congrArg (c :: ·) ha, ?_⟩
      rw [byteSize_cons]
      omega
    · have hcount : lineEnds q (c :: r) = lineEnds q r := by rw [lineEnds, if_neg hc]
      rw [if_neg hc, hlength, hcount]
      refine ⟨rfl, ?_⟩
      by_cases hzero : lineEnds q r = 0
      · -- no line end at all, so the text is its own last line
        have hnil := List.length_eq_zero_iff.1 (hlength.trans hzero)
        rw [lastLine, hcount, if_pos hzero, hnil]
        exact ⟨[], rfl, rfl⟩
      · have hne := List.length_pos_iff.1 (Nat.pos_of_ne_zero (hlength ▸ hzero))
        obtain ⟨x, hx⟩ := Option.ne_none_iff_exists'.1
          (fun hnone => hne (List.getLast?_eq_none_iff.1 hnone))
        rw [hx, Option.getD_some] at hlast ⊢
        rw [lastLine, hcount, if_neg hzero]
        refine ⟨c :: a, congrArg (c :: ·) ha, ?_⟩
        rw [hlast, byteSize_cons]
        omega

/-- The position of a cut. -/
theorem position_append (p q : List Char) :
    (ofText (p ++ q)).position (byteSize p) =
      ⟨(lineEnds q p + 1) % UInt32.size, unitSize (lastLine q p) % UInt32.size, byteSize p⟩ := by
  have hcut : IsBoundary (p ++ q) (byteSize p) := ⟨p, q, rfl, rfl⟩
  obtain ⟨start, a, m, b, hlast, htext, ha, hm, hpos⟩ := position_of_boundary hcut
  obtain ⟨hlength, a', ha', hlast'⟩ := filter_lineStartsFrom 0 p q
  have hstarts : startsUpTo (p ++ q) (byteSize p) =
      0 :: (lineStartsFrom 0 (p ++ q)).filter (· ≤ 0 + byteSize p) := by
    rw [startsUpTo, lineStarts, List.filter_cons_of_pos (by simp), Nat.zero_add]
  -- both line starts are the same
  have hsize : byteSize a = byteSize a' := by
    rw [hstarts, List.getLast?_cons, hlast', Option.some.injEq] at hlast
    omega
  have hsplit : a ++ (m ++ b) = a' ++ (lastLine q p ++ q) := by
    rw [← htext, ← List.append_assoc, ← ha']
  obtain ⟨rfl, hrest⟩ := append_inj_of_byteSize_eq hsplit hsize
  have hlen : byteSize m = byteSize (lastLine q p) := by
    have := congrArg byteSize ha'
    rw [byteSize_append] at this hm
    omega
  obtain ⟨rfl, -⟩ := append_inj_of_byteSize_eq hrest hlen
  rw [hpos, hstarts, List.length_cons, hlength]

end LineIndex

end Provenance
