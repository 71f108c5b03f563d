import Provenance.Text.Position
import Provenance.Proofs.Text.Size

/-! # Positions name places

  The line and the column of a boundary name that boundary and no other, in every
  text below 2^32 bytes (`position_injective`).

  A later boundary either has more line starts in front of it or has the same line
  start, and then more units behind it.  Neither number grows beyond 32 bits so far
  that two of them fall together.
-/

namespace Provenance

namespace Text

/-! ## §1. Line starts -/

/-- A line starts behind each line end, and nowhere else. -/
theorem mem_lineStartsFrom_iff {o x : Nat} {s : List Char} :
    x ∈ lineStartsFrom o s ↔
      ∃ a c b, s = a ++ c :: b ∧ endsLine c b = true ∧ x = o + byteSize (a ++ [c]) := by
  induction s generalizing o with
  | nil =>
    constructor
    · intro h
      cases h
    · rintro ⟨a, c, b, h, -⟩
      simp at h
  | cons y r ih =>
    -- the line end is the first character, or one behind it
    have hsplit : (∃ a c b, y :: r = a ++ c :: b ∧ endsLine c b = true ∧
        x = o + byteSize (a ++ [c])) ↔
        (endsLine y r = true ∧ x = o + y.utf8Size) ∨ x ∈ lineStartsFrom (o + y.utf8Size) r := by
      rw [ih]
      constructor
      · rintro ⟨a, c, b, h, hend, rfl⟩
        cases a with
        | nil =>
          obtain ⟨rfl, rfl⟩ := List.cons.inj h
          exact .inl ⟨hend, rfl⟩
        | cons z a =>
          obtain ⟨rfl, rfl⟩ := List.cons.inj h
          refine .inr ⟨a, c, b, rfl, hend, ?_⟩
          rw [List.cons_append, byteSize_cons]
          omega
      · rintro (⟨hend, rfl⟩ | ⟨a, c, b, rfl, hend, rfl⟩)
        · exact ⟨[], y, r, rfl, hend, rfl⟩
        · refine ⟨y :: a, c, b, rfl, hend, ?_⟩
          rw [List.cons_append, byteSize_cons]
          omega
    rw [hsplit, lineStartsFrom]
    by_cases hend : endsLine y r = true
    · simp [hend]
    · simp [hend]

/-- A line starts behind some characters of the text. -/
theorem mem_lineStartsFrom {o x : Nat} {s : List Char} (h : x ∈ lineStartsFrom o s) :
    o < x ∧ ∃ a b, s = a ++ b ∧ x = o + byteSize a := by
  obtain ⟨a, c, b, rfl, -, rfl⟩ := mem_lineStartsFrom_iff.1 h
  have hpos : 0 < byteSize (a ++ [c]) := byteSize_pos (by simp)
  exact ⟨by omega, a ++ [c], b, by simp, rfl⟩

theorem mem_lineStarts {x : Nat} {s : List Char} (h : x ∈ lineStarts s) : IsBoundary s x := by
  rcases List.mem_cons.1 h with rfl | h
  · exact ⟨[], s, rfl, rfl⟩
  · obtain ⟨-, a, b, hs, hx⟩ := mem_lineStartsFrom h
    exact ⟨a, b, hs, by omega⟩

theorem pairwise_lineStartsFrom (o : Nat) (s : List Char) :
    (lineStartsFrom o s).Pairwise (· < ·) := by
  induction s generalizing o with
  | nil => exact .nil
  | cons x r ih =>
    rw [lineStartsFrom]
    split
    · exact List.pairwise_cons.2 ⟨fun y hy => (mem_lineStartsFrom hy).1, ih _⟩
    · exact ih _

theorem pairwise_lineStarts (s : List Char) : (lineStarts s).Pairwise (· < ·) :=
  List.pairwise_cons.2 ⟨fun _ hy => (mem_lineStartsFrom hy).1, pairwise_lineStartsFrom 0 s⟩

/-- There are no more line starts than bytes, next to the first. -/
theorem length_lineStartsFrom_le (o : Nat) (s : List Char) :
    (lineStartsFrom o s).length ≤ byteSize s := by
  induction s generalizing o with
  | nil => exact Nat.le_refl 0
  | cons c r ih =>
    have hpos := c.utf8Size_pos
    have hr := ih (o + c.utf8Size)
    rw [lineStartsFrom, byteSize_cons]
    split
    · rw [List.length_cons]
      omega
    · omega

/-- A character has no more UTF-16 units than bytes. -/
theorem unitsOf_le (c : Char) : 0 < unitsOf c ∧ unitsOf c ≤ c.utf8Size := by
  have hpos := c.utf8Size_pos
  unfold unitsOf
  split
  · omega
  · next hlarge =>
    -- beyond the basic plane a character takes four bytes
    have hfour : c.utf8Size = 4 := by
      have hval : ∀ n : UInt32, n.toNat < 0x10000 → ¬ c.val ≤ n := by
        intro n hn hle
        have hle : c.toNat ≤ n.toNat := hle
        omega
      unfold Char.utf8Size
      rw [if_neg (hval _ (by decide)), if_neg (hval _ (by decide)), if_neg (hval _ (by decide))]
    omega

theorem unitSize_le (s : List Char) : unitSize s ≤ byteSize s := by
  induction s with
  | nil => exact Nat.le_refl 0
  | cons c r ih =>
    have := unitsOf_le c
    rw [unitSize, byteSize_cons]
    omega

theorem unitSize_pos {s : List Char} (h : s ≠ []) : 0 < unitSize s := by
  cases s with
  | nil => exact absurd rfl h
  | cons c r =>
    have := unitsOf_le c
    rw [unitSize]
    omega

end Text

namespace LineIndex

open Text

/-! ## §2. Positions of boundaries -/

/-- The line starts that do not lie behind an offset. -/
def startsUpTo (text : List Char) (offset : Nat) : List Nat :=
  (lineStarts text).filter (· ≤ offset)

theorem startsUpTo_ne_nil (text : List Char) (offset : Nat) : startsUpTo text offset ≠ [] := by
  refine List.ne_nil_of_mem (List.mem_filter.2 ⟨List.mem_cons_self, ?_⟩)
  exact decide_eq_true (Nat.zero_le _)

theorem length_startsUpTo_le (text : List Char) (offset : Nat) :
    (startsUpTo text offset).length ≤ byteSize text + 1 := by
  have hall := length_lineStartsFrom_le 0 text
  have hfilter : (startsUpTo text offset).length ≤ (lineStarts text).length :=
    List.length_filter_le _ _
  rw [lineStarts, List.length_cons] at hfilter
  omega

theorem startsUpTo_sublist {text : List Char} {o p : Nat} (h : o ≤ p) :
    (startsUpTo text o).Sublist (startsUpTo text p) := by
  have htwice : startsUpTo text o = (startsUpTo text p).filter (· ≤ o) := by
    rw [startsUpTo, startsUpTo, List.filter_filter]
    refine List.filter_congr fun x _ => ?_
    by_cases hx : x ≤ o
    · simp [hx, Nat.le_trans hx h]
    · simp [hx]
  rw [htwice]
  exact List.filter_sublist

/-- A boundary has its line start in front, and its column counts the units between. -/
theorem position_of_boundary {text : List Char} {o : Nat} (h : IsBoundary text o) :
    ∃ start a m b, (startsUpTo text o).getLast? = some start ∧ text = a ++ (m ++ b) ∧
      byteSize a = start ∧ byteSize (a ++ m) = o ∧
      (ofText text).position o =
        ⟨(startsUpTo text o).length % UInt32.size, unitSize m % UInt32.size, o⟩ := by
  obtain ⟨start, hlast⟩ := Option.ne_none_iff_exists'.1
    (fun hnone => startsUpTo_ne_nil text o (List.getLast?_eq_none_iff.1 hnone))
  obtain ⟨hmem, hle⟩ := List.mem_filter.1 (List.mem_of_getLast? hlast)
  obtain ⟨a, m, b, rfl, ha, hm⟩ := (mem_lineStarts hmem).split h (of_decide_eq_true hle)
  refine ⟨start, a, m, b, hlast, rfl, ha, hm, ?_⟩
  have hmin : min o (byteSize (a ++ (m ++ b))) = o := Nat.min_eq_left h.le_byteSize
  have hslice : slice? (a ++ (m ++ b)) start o = some m := by
    rw [← ha, ← hm, slice?_append]
  have hfilter : (ofText (a ++ (m ++ b))).starts.filter (· ≤ o) = startsUpTo (a ++ (m ++ b)) o := rfl
  rw [position]
  simp only [show (ofText (a ++ (m ++ b))).text = a ++ (m ++ b) from rfl, hmin, hfilter, hlast,
    Option.getD_some, hslice, Option.map_some]

theorem line_of_boundary {text : List Char} {o : Nat} (h : IsBoundary text o) :
    ((ofText text).position o).line = (startsUpTo text o).length % UInt32.size := by
  show (startsUpTo text (min o (byteSize text))).length % UInt32.size = _
  rw [Nat.min_eq_left h.le_byteSize]

/-! ## §3. Injectivity -/

/-- Of two boundaries behind the same line starts the later one has the larger column. -/
theorem column_lt {text : List Char} {o p : Nat} (hsize : byteSize text < UInt32.size)
    (ho : IsBoundary text o) (hp : IsBoundary text p) (hlt : o < p)
    (hsame : startsUpTo text o = startsUpTo text p) :
    ((ofText text).position o).column < ((ofText text).position p).column := by
  obtain ⟨start, a, m, b, hlast, htext, ha, hm, hpos⟩ := position_of_boundary ho
  obtain ⟨start', a', m', b', hlast', htext', ha', hm', hpos'⟩ := position_of_boundary hp
  rw [hsame, hlast'] at hlast
  obtain rfl := Option.some.inj hlast
  -- the same line start, and more behind it
  obtain ⟨rfl, hbehind⟩ := append_inj_of_byteSize_eq (htext.symm.trans htext') (by omega)
  rw [byteSize_append] at hm hm'
  obtain ⟨n, rfl, -⟩ := append_split_of_byteSize_le hbehind (by omega)
  have hn : n ≠ [] := by
    rintro rfl
    rw [List.append_nil] at hm'
    omega
  have hunit := unitSize_pos hn
  have hle : unitSize (m ++ n) < UInt32.size := by
    have hunits := unitSize_le (m ++ n)
    rw [htext', byteSize_append, byteSize_append] at hsize
    omega
  have hadd := unitSize_append m n
  rw [hpos, hpos']
  show unitSize m % UInt32.size < unitSize (m ++ n) % UInt32.size
  rw [Nat.mod_eq_of_lt hle, Nat.mod_eq_of_lt (by omega)]
  omega

/-- A later boundary has another line or another column. -/
theorem position_ne_of_lt {text : List Char} {o p : Nat} (hsize : byteSize text < UInt32.size)
    (ho : IsBoundary text o) (hp : IsBoundary text p) (hlt : o < p)
    (hline : ((ofText text).position o).line = ((ofText text).position p).line) :
    ((ofText text).position o).column ≠ ((ofText text).position p).column := by
  have h32 : UInt32.size = 4294967296 := rfl
  -- both have between one and 2^32 line starts in front, so they have the same number
  have hlen : (startsUpTo text o).length = (startsUpTo text p).length := by
    have h1 := List.length_pos_iff.2 (startsUpTo_ne_nil text o)
    have h2 := List.length_pos_iff.2 (startsUpTo_ne_nil text p)
    have h3 := length_startsUpTo_le text o
    have h4 := length_startsUpTo_le text p
    rw [line_of_boundary ho, line_of_boundary hp, h32] at hline
    omega
  have hsame := (startsUpTo_sublist (Nat.le_of_lt hlt)).eq_of_length hlen
  exact Nat.ne_of_lt (column_lt hsize ho hp hlt hsame)

/-- Line and column name a boundary. -/
theorem position_injective {text : List Char} {o p : Nat} (hsize : byteSize text < UInt32.size)
    (ho : IsBoundary text o) (hp : IsBoundary text p)
    (hline : ((ofText text).position o).line = ((ofText text).position p).line)
    (hcolumn : ((ofText text).position o).column = ((ofText text).position p).column) : o = p := by
  rcases Nat.lt_trichotomy o p with hlt | heq | hgt
  · exact absurd hcolumn (position_ne_of_lt hsize ho hp hlt hline)
  · exact heq
  · exact absurd hcolumn.symm (position_ne_of_lt hsize hp ho hgt hline.symm)

end LineIndex

end Provenance
