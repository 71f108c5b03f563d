import Provenance.Proofs.Splice.Segments
import Provenance.Proofs.Text.Lines

/-! # Lines on both sides of the map

  The two sides of the map of an edited text count lines differently.  Its generated
  side knows line feeds only; positions, and with them its original side, also know lone
  carriage returns and the two separators U+2028 and U+2029.

  - A segment stands at the position of its character in the edited text exactly where
    every line in front of it ends at a line feed (`behind_eq_position_iff`).
  - The first character of a line has a segment exactly where the line in front of it
    ends at a line feed or something is inserted there (`exists_segment_iff`).

  Where all lines end at line feeds both are what they should be; a lone carriage return
  breaks both (`lone_return_breaks_map`).
-/

namespace Provenance

open Text (byteSize byteSize_append byteSize_cons IsBoundary unitSize lineEnds lastLine OnlyFeeds
  endsLine)

/-! ## §1. What a segment says, as positions -/

/-- A segment leads to a position of the original. -/
def Segment.LeadsTo (s : Segment) (p : Position) : Prop :=
  s.line + 1 = p.line ∧ s.column = p.column

/-- A segment leads from a position of the edited text. -/
def Segment.LeadsFrom (s : Segment) (p : Position) : Prop :=
  s.generatedLine + 1 = p.line ∧ s.generatedColumn = p.column

instance (s : Segment) (p : Position) : Decidable (s.LeadsTo p) :=
  inferInstanceAs (Decidable (_ ∧ _))

instance (s : Segment) (p : Position) : Decidable (s.LeadsFrom p) :=
  inferInstanceAs (Decidable (_ ∧ _))

namespace SpliceBuffer

open Insertion (edit sizeBefore edit_append_cons byteSize_edit_front)

/-! ## §2. The generated side -/

/-- Where every line ends at a line feed, the place behind a text counts its line ends and
    the units of its last line. -/
theorem Cursor.behind_of_onlyFeeds {after s : List Char} (h : OnlyFeeds after s) :
    Cursor.behind s = ⟨lineEnds after s, unitSize (lastLine after s)⟩ := by
  have hcount : s.count '\n' = lineEnds after s := Text.count_eq_lineEnds_iff.2 h
  suffices hlast : unitSize (s.reverse.takeWhile (· ≠ '\n')) = unitSize (lastLine after s) by
    rw [behind, hcount, hlast]
  induction s with
  | nil => rfl
  | cons c r ih =>
    have hr := (Text.onlyFeeds_cons.1 h).2
    have hrest := ih hr (Text.count_eq_lineEnds_iff.2 hr)
    rw [lastLine, List.reverse_cons]
    by_cases hzero : lineEnds after (c :: r) = 0
    · -- no line feed at all, so the text is its own last line
      have hall : ∀ x ∈ r.reverse ++ [c], decide (x ≠ '\n') = true := by
        intro x hx
        rw [hzero, List.count_eq_zero] at hcount
        refine decide_eq_true ?_
        rintro rfl
        exact hcount (by simpa [or_comm] using hx)
      rw [if_pos hzero, ← List.append_nil (r.reverse ++ [c]), List.takeWhile_append_of_pos hall,
        List.takeWhile_nil, List.append_nil, Text.unitSize_append, Text.unitSize_reverse, unitSize,
        unitSize, unitSize]
      omega
    · -- the last line feed is one of `r`, or `c` is the only one
      rw [if_neg hzero, ← hrest]
      by_cases hmem : '\n' ∈ r.reverse
      · obtain ⟨u, v, huv⟩ := List.append_of_mem hmem
        rw [huv, List.append_assoc, List.cons_append, Text.takeWhile_append_stop (by simp),
          Text.takeWhile_append_stop (by simp)]
      · have hc : c = '\n' := by
          rw [← hcount, List.count_cons,
            List.count_eq_zero_of_not_mem (by simpa using hmem)] at hzero
          simpa using hzero
        rw [hc, Text.takeWhile_append_stop (by simp)]

/-- The place behind a piece is the position of what follows it, exactly where every line
    of the piece ends at a line feed. -/
theorem behind_eq_position_iff {p q : List Char} (hsize : byteSize p + 1 < UInt32.size) :
    ((Cursor.behind p).line + 1 = ((LineIndex.ofText (p ++ q)).position (byteSize p)).line ∧
      (Cursor.behind p).column = ((LineIndex.ofText (p ++ q)).position (byteSize p)).column) ↔
      OnlyFeeds q p := by
  have hends := Text.lineEnds_le q p
  rw [LineIndex.position_append]
  constructor
  · rintro ⟨hline, -⟩
    have hline : p.count '\n' + 1 = (lineEnds q p + 1) % UInt32.size := hline
    rw [Nat.mod_eq_of_lt (by omega)] at hline
    exact Text.count_eq_lineEnds_iff.1 (by omega)
  · intro h
    have hunits : unitSize (lastLine q p) ≤ byteSize p := by
      obtain ⟨a, ha⟩ := Text.lastLine_suffix q p
      have hle := Text.unitSize_le (lastLine q p)
      have hsum := byteSize_append a (lastLine q p)
      rw [ha] at hsum
      omega
    rw [Cursor.behind_of_onlyFeeds h]
    constructor
    · exact (Nat.mod_eq_of_lt (show lineEnds q p + 1 < UInt32.size by omega)).symm
    · exact (Nat.mod_eq_of_lt (show unitSize (lastLine q p) < UInt32.size by omega)).symm

/-! ## §3. The original side -/

variable {ins : List Insertion} {original before after : List Char} {c : Char}

/-- A segment leads to the position of its character. -/
theorem segmentAt_leadsTo (ins : List Insertion) (hsize : byteSize original < UInt32.size)
    (h : original = before ++ c :: after) :
    (segmentAt ins original before).LeadsTo
      ((LineIndex.ofText original).position (byteSize before)) := by
  have hpos := c.utf8Size_pos
  have hends := Text.lineEnds_le (c :: after) before
  rw [h, byteSize_append, byteSize_cons] at hsize
  refine ⟨?_, rfl⟩
  show ((LineIndex.ofText original).position (byteSize before)).line - 1 + 1 = _
  rw [h, LineIndex.position_append]
  show (lineEnds (c :: after) before + 1) % UInt32.size - 1 + 1 =
    (lineEnds (c :: after) before + 1) % UInt32.size
  rw [Nat.mod_eq_of_lt (by omega)]
  omega

/-- A segment that leads to the position of a character is the one of this character. -/
theorem eq_segmentAt (hsize : byteSize original < UInt32.size)
    (h : original = before ++ c :: after) {s : Segment}
    (hs : s ∈ segmentsBehind ins original [] original)
    (hto : s.LeadsTo ((LineIndex.ofText original).position (byteSize before))) :
    OpensSegment ins before ∧ s = segmentAt ins original before := by
  obtain ⟨before', c', after', h', hopens, rfl⟩ := mem_segmentsBehind hs
  have hto' := segmentAt_leadsTo ins hsize h'
  have hsame := LineIndex.position_injective hsize ⟨before', c' :: after', h', rfl⟩
    ⟨before, c :: after, h, rfl⟩ (hto'.1.symm.trans hto.1) (hto'.2.symm.trans hto.2)
  obtain ⟨rfl, -⟩ := Text.append_inj_of_byteSize_eq (h'.symm.trans h) hsame
  exact ⟨hopens, rfl⟩

/-- A character has a segment exactly where it opens one. -/
theorem exists_segment_iff (hsize : byteSize original < UInt32.size)
    (h : original = before ++ c :: after) :
    (∃ s ∈ segmentsBehind ins original [] original,
      s.LeadsTo ((LineIndex.ofText original).position (byteSize before))) ↔
      OpensSegment ins before := by
  constructor
  · rintro ⟨s, hs, hto⟩
    exact (eq_segmentAt hsize h hs hto).1
  · intro hopens
    refine ⟨_, ?_, segmentAt_leadsTo ins hsize h⟩
    have htake : original.take before.length = before := by rw [h, List.take_left']; rfl
    have hlt : before.length < original.length := by
      rw [h, List.length_append, List.length_cons]
      omega
    rw [segmentsBehind_eq]
    refine List.mem_map.2 ⟨before.length, List.mem_filter.2 ⟨List.mem_range.2 hlt, ?_⟩, ?_⟩
    · exact decide_eq_true (by rw [List.nil_append, htake]; exact hopens)
    · rw [List.nil_append, htake]

/-! ## §4. Both sides -/

/-- Both sides of a map count lines alike as long as lines end at line feeds.  A segment
    stands at the position of its character in the edited text if and only if every line
    in front of the character ends at a line feed there.  The first character has a
    segment, and the first character of a later line has one if and only if the line in
    front of it ends at a line feed or something is inserted between them. -/
theorem map_lines_iff (buffer : SpliceBuffer) (path : String)
    (h : ∀ x ∈ buffer.insertions, IsBoundary buffer.original x.offset)
    (hsize : byteSize (edit buffer.insertions 0 buffer.original) < UInt32.size) :
    ∃ code map, buffer.finish? = some code ∧ buffer.map? path = some map ∧
      (∀ before c after, buffer.original = before ++ c :: after →
        ∃ front rest, code = front ++ c :: rest ∧
          byteSize front = byteSize before +
            sizeBefore buffer.insertions (byteSize before + 1) ∧
          ∀ s ∈ map.segments,
            s.LeadsTo ((LineIndex.ofText buffer.original).position (byteSize before)) →
            (s.LeadsFrom ((LineIndex.ofText code).position (byteSize front)) ↔
              OnlyFeeds (c :: rest) front)) ∧
      (∀ c after, buffer.original = c :: after → ∃ s ∈ map.segments,
        s.LeadsTo ((LineIndex.ofText buffer.original).position 0)) ∧
      (∀ before e c after, buffer.original = before ++ e :: c :: after →
        endsLine e (c :: after) →
        ((∃ s ∈ map.segments, s.LeadsTo ((LineIndex.ofText buffer.original).position
            (byteSize (before ++ [e])))) ↔
          e = '\n' ∨ ∃ x ∈ buffer.insertions, x.offset = byteSize (before ++ [e]))) := by
  obtain ⟨hcode, hmap⟩ := map?_eq path h
  -- what is shown in front of a character, and how long it is
  have hfront : ∀ before c after, buffer.original = before ++ c :: after →
      ∃ rest, edit buffer.insertions 0 buffer.original =
          edit buffer.insertions 0 before ++ c :: rest ∧
        byteSize (edit buffer.insertions 0 before) =
          byteSize before + sizeBefore buffer.insertions (byteSize before + 1) := by
    intro before c after hsplit
    have hbytes := byteSize_edit_front (a := before) (b := c :: after) (hsplit ▸ h)
    exact ⟨_, by rw [hsplit, edit_append_cons], hbytes⟩
  have horiginal : byteSize buffer.original < UInt32.size := by
    have hbytes := byteSize_edit_front (a := buffer.original) (b := []) (by simpa using h)
    omega
  refine ⟨_, _, hcode, hmap, ?_, ?_, ?_⟩
  · intro before c after hsplit
    obtain ⟨rest, hrest, hbytes⟩ := hfront before c after hsplit
    refine ⟨edit buffer.insertions 0 before, rest, hrest, hbytes, ?_⟩
    intro s hs hto
    obtain ⟨-, rfl⟩ := eq_segmentAt horiginal hsplit hs hto
    have hpos := c.utf8Size_pos
    rw [hrest, byteSize_append, byteSize_cons] at hsize
    rw [hrest]
    exact behind_eq_position_iff (by omega)
  · intro c after hsplit
    have hsplit' : buffer.original = [] ++ c :: after := hsplit
    exact (exists_segment_iff horiginal hsplit').2 (.inl rfl)
  · intro before e c after hsplit hends
    have hsplit' : buffer.original = (before ++ [e]) ++ c :: after := by
      rw [hsplit, List.append_assoc]
      rfl
    rw [exists_segment_iff horiginal hsplit', OpensSegment]
    simp [or_comm]

/-- Lines that end at a line feed and at a carriage return: `b` has the segment it should
    have, and `c` has none. -/
theorem map_lines_iff_mixed :
    ∃ code map, finish? ⟨"a\nb\rc".toList, [⟨2, "x".toList⟩]⟩ = some code ∧
      map? ⟨"a\nb\rc".toList, [⟨2, "x".toList⟩]⟩ "p" = some map ∧
      (∀ s ∈ map.segments, s.LeadsTo ((LineIndex.ofText "a\nb\rc".toList).position 2) →
        s.LeadsFrom ((LineIndex.ofText code).position 3)) ∧
      ¬ ∃ s ∈ map.segments, s.LeadsTo ((LineIndex.ofText "a\nb\rc".toList).position 4) := by
  obtain ⟨code, map, hcode, hmap, hplaces, -, hlines⟩ :=
    map_lines_iff ⟨"a\nb\rc".toList, [⟨2, "x".toList⟩]⟩ "p" (by decide) (by decide)
  refine ⟨code, map, hcode, hmap, ?_, ?_⟩
  · intro s hs hto
    obtain ⟨front, rest, hfront, hbytes, hiff⟩ := hplaces "a\n".toList 'b' "\rc".toList rfl
    have hshown : "a\nxb\rc".toList = code := Option.some.inj (Eq.trans (by rfl) hcode)
    have hsize : byteSize front = 3 := hbytes
    obtain ⟨rfl, -⟩ := Text.append_inj_of_byteSize_eq (a := "a\nx".toList) (b := "b\rc".toList)
      (hshown.trans hfront) hsize.symm
    exact (hiff s hs hto).2 (Text.count_eq_lineEnds_iff.1 rfl)
  · intro hsome
    have := (hlines "a\nb".toList '\r' 'c' [] rfl rfl).1 hsome
    revert this
    decide

/-- Carriage returns alone break both: the segment of `b` does not stand at its position in
    the edited text, and `c`, which begins a line, has none. -/
theorem lone_return_breaks_map :
    ∃ code map, finish? ⟨"a\rb\rc".toList, [⟨2, "x".toList⟩]⟩ = some code ∧
      map? ⟨"a\rb\rc".toList, [⟨2, "x".toList⟩]⟩ "p" = some map ∧
      (∃ s ∈ map.segments, s.LeadsTo ((LineIndex.ofText "a\rb\rc".toList).position 2) ∧
        ¬ s.LeadsFrom ((LineIndex.ofText code).position 3)) ∧
      endsLine '\r' ['c'] ∧
      ¬ ∃ s ∈ map.segments, s.LeadsTo ((LineIndex.ofText "a\rb\rc".toList).position 4) := by
  refine ⟨"a\rxb\rc".toList, ⟨"p", "a\rb\rc", [], [⟨0, 0, 0, 0, none⟩, ⟨0, 3, 1, 0, none⟩]⟩,
    by decide, by decide, ⟨⟨0, 3, 1, 0, none⟩, ?_, ?_, ?_⟩, ?_, ?_⟩
  all_goals decide

end SpliceBuffer

end Provenance
