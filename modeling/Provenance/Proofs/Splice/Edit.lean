import Provenance.Splice
import Provenance.Proofs.Text.Cursor

/-! # Edited texts

  The edited text by its meaning: at each place first stands what is inserted
  there, in the order in which it was inserted, and then the character of the
  original (`edit`).  A splice buffer reads out exactly that text, however its
  insertions are ordered (`finish?_eq_edit`).

  A place of the original moves by the number of bytes inserted before it
  (`moved`).
-/

namespace Provenance

namespace Insertion

open Text (byteSize byteSize_append byteSize_cons byteSize_pos IsBoundary)

/-! ## §1. The meaning of insertions -/

/-- What is inserted at an offset. -/
def textsAt (insertions : List Insertion) (offset : Nat) : List Char :=
  (insertions.filter (·.offset = offset)).flatMap (·.text)

/-- A text that stands at `offset`, with insertions made into it. -/
def edit (insertions : List Insertion) : Nat → List Char → List Char
  | offset, [] => textsAt insertions offset
  | offset, c :: r =>
    textsAt insertions offset ++ c :: edit insertions (offset + c.utf8Size) r

/-- The number of bytes inserted before an offset. -/
def sizeBefore (insertions : List Insertion) (offset : Nat) : Nat :=
  byteSize ((insertions.filter (·.offset < offset)).flatMap (·.text))

/-- Where the place at an offset of the original is in the edited text. -/
def moved (insertions : List Insertion) (offset : Nat) : Nat :=
  offset + sizeBefore insertions offset

variable {ins : List Insertion}

@[simp] theorem textsAt_nil (o : Nat) : textsAt [] o = [] := rfl

theorem textsAt_cons (x : Insertion) (o : Nat) :
    textsAt (x :: ins) o = (if x.offset = o then x.text else []) ++ textsAt ins o := by
  unfold textsAt
  by_cases h : x.offset = o <;> simp [h]

theorem textsAt_eq_nil {o : Nat} (h : ∀ x ∈ ins, x.offset ≠ o) : textsAt ins o = [] := by
  unfold textsAt
  rw [List.filter_eq_nil_iff.2 (by simpa using h)]
  rfl

/-! ## §2. Parts of an edited text -/

/-- Only in front of a piece something changes where nothing is inserted inside it. -/
theorem edit_append_at {o : Nat} {w : List Char} (hw : w ≠ []) (r : List Char)
    (h : ∀ x ∈ ins, x.offset ≤ o ∨ o + byteSize w ≤ x.offset) :
    edit ins o (w ++ r) = textsAt ins o ++ w ++ edit ins (o + byteSize w) r := by
  induction w generalizing o with
  | nil => exact absurd rfl hw
  | cons c w ih =>
    have hpos := c.utf8Size_pos
    rw [List.cons_append, edit, byteSize_cons, ← Nat.add_assoc]
    -- behind the first character nothing is inserted until the piece ends
    by_cases hw' : w = []
    · subst hw'
      simp
    · have htail : ∀ x ∈ ins, x.offset ≤ o + c.utf8Size ∨
          o + c.utf8Size + byteSize w ≤ x.offset := by
        intro x hx
        have := h x hx
        rw [byteSize_cons] at this
        omega
      have hnil : textsAt ins (o + c.utf8Size) = [] := by
        refine textsAt_eq_nil fun x hx => ?_
        have hlen := byteSize_pos hw'
        have := h x hx
        rw [byteSize_cons] at this
        omega
      rw [ih hw' htail, hnil]
      simp

/-- Nothing changes in a piece without insertions. -/
theorem edit_append {o : Nat} {w : List Char} (r : List Char)
    (h : ∀ x ∈ ins, x.offset < o ∨ o + byteSize w ≤ x.offset) :
    edit ins o (w ++ r) = w ++ edit ins (o + byteSize w) r := by
  by_cases hw : w = []
  · subst hw
    rfl
  · have hlen := byteSize_pos hw
    have hnil : textsAt ins o = [] :=
      textsAt_eq_nil fun x hx => by have := h x hx; omega
    -- in front of the piece stands no insertion either
    have hat : ∀ x ∈ ins, x.offset ≤ o ∨ o + byteSize w ≤ x.offset :=
      fun x hx => by have := h x hx; omega
    rw [edit_append_at hw r hat, hnil, List.nil_append]

/-- Nothing changes behind all insertions. -/
theorem edit_of_lt {o : Nat} (h : ∀ x ∈ ins, x.offset < o) (s : List Char) :
    edit ins o s = s := by
  have hpiece : edit ins o (s ++ []) = s ++ edit ins (o + byteSize s) [] :=
    edit_append [] fun x hx => Or.inl (h x hx)
  have hend : edit ins (o + byteSize s) [] = [] :=
    textsAt_eq_nil fun x hx => by have := h x hx; omega
  rwa [hend, List.append_nil] at hpiece

theorem edit_ne_nil {o : Nat} {s : List Char} (hs : s ≠ []) : edit ins o s ≠ [] := by
  cases s with
  | nil => exact absurd rfl hs
  | cons c r => rw [edit]; simp

/-- An edited text depends on nothing but what is inserted where. -/
theorem edit_congr {ins' : List Insertion} (h : ∀ o, textsAt ins o = textsAt ins' o) (o : Nat)
    (s : List Char) : edit ins o s = edit ins' o s := by
  induction s generalizing o with
  | nil => exact h o
  | cons c r ih => rw [edit, edit, h, ih]

theorem edit_cons_of_lt {x : Insertion} {o : Nat} (h : x.offset < o) (s : List Char) :
    edit (x :: ins) o s = edit ins o s := by
  induction s generalizing o with
  | nil =>
    show textsAt (x :: ins) o = textsAt ins o
    rw [textsAt_cons, if_neg (by omega), List.nil_append]
  | cons c r ih =>
    rw [edit, edit, textsAt_cons, if_neg (by omega), List.nil_append, ih (by omega)]

theorem edit_cons_self (x : Insertion) (s : List Char) :
    edit (x :: ins) x.offset s = x.text ++ edit ins x.offset s := by
  cases s with
  | nil =>
    show textsAt (x :: ins) x.offset = x.text ++ textsAt ins x.offset
    rw [textsAt_cons, if_pos rfl]
  | cons c r =>
    have hpos := c.utf8Size_pos
    rw [edit, edit, textsAt_cons, if_pos rfl, edit_cons_of_lt (by omega), List.append_assoc]

/-! ## §3. Moved places -/

theorem sizeBefore_cons (x : Insertion) (o : Nat) :
    sizeBefore (x :: ins) o = (if x.offset < o then byteSize x.text else 0) + sizeBefore ins o := by
  unfold sizeBefore
  by_cases h : x.offset < o <;> simp [h]

/-- Behind a place counts what is inserted at it. -/
theorem sizeBefore_succ (o : Nat) :
    sizeBefore ins (o + 1) = sizeBefore ins o + byteSize (textsAt ins o) := by
  induction ins with
  | nil => rfl
  | cons x ins ih =>
    rw [sizeBefore_cons, sizeBefore_cons, textsAt_cons, byteSize_append, ih]
    -- `x` counted before, counts from now on, or does not count yet
    by_cases hlt : x.offset < o
    · rw [if_pos hlt, if_pos (by omega), if_neg (by omega)]
      simp
      omega
    · by_cases heq : x.offset = o
      · rw [if_neg hlt, if_pos (by omega), if_pos heq]
        omega
      · rw [if_neg hlt, if_neg (by omega), if_neg heq]
        simp

/-- Two places with no insertion between them move alike. -/
theorem sizeBefore_eq {a b : Nat} (hab : a ≤ b)
    (h : ∀ x ∈ ins, x.offset < a ∨ b ≤ x.offset) : sizeBefore ins b = sizeBefore ins a := by
  induction ins with
  | nil => rfl
  | cons x ins ih =>
    have hx := h x List.mem_cons_self
    rw [sizeBefore_cons, sizeBefore_cons, ih fun y hy => h y (List.mem_cons_of_mem _ hy)]
    by_cases hlt : x.offset < a
    · rw [if_pos hlt, if_pos (by omega)]
    · rw [if_neg hlt, if_neg (by omega)]

end Insertion

namespace SpliceBuffer

open Text (byteSize byteSize_append IsBoundary)
open Insertion (textsAt edit textsAt_cons edit_append edit_cons_self)

/-! ## §4. Sorting

    Sorting is stable, so what is inserted at one offset keeps its order. -/

/-- Insertions by increasing offset. -/
abbrev InOrder (insertions : List Insertion) : Prop :=
  insertions.Pairwise fun x y => x.offset ≤ y.offset

theorem mem_insertSorted {x y : Insertion} {l : List Insertion} :
    y ∈ insertSorted x l ↔ y = x ∨ y ∈ l := by
  induction l with
  | nil => simp [insertSorted]
  | cons z l ih =>
    rw [insertSorted]
    split
    · simp
    · simp only [List.mem_cons, ih]
      constructor
      · rintro (h | h | h)
        · exact .inr (.inl h)
        · exact .inl h
        · exact .inr (.inr h)
      · rintro (h | h | h)
        · exact .inr (.inl h)
        · exact .inl h
        · exact .inr (.inr h)

theorem InOrder.insertSorted {l : List Insertion} (h : InOrder l) (x : Insertion) :
    InOrder (insertSorted x l) := by
  induction l with
  | nil => exact List.pairwise_singleton _ _
  | cons z l ih =>
    obtain ⟨hz, hl⟩ := List.pairwise_cons.1 h
    rw [SpliceBuffer.insertSorted]
    split
    · -- `x` comes in front of all others
      next hlt =>
      refine List.pairwise_cons.2 ⟨fun y hy => ?_, h⟩
      rcases List.mem_cons.1 hy with rfl | hy
      · omega
      · have := hz y hy
        omega
    · next hge =>
      refine List.pairwise_cons.2 ⟨fun y hy => ?_, ih hl⟩
      rcases mem_insertSorted.1 hy with rfl | hy
      · omega
      · exact hz y hy

/-- A new insertion comes behind those at its offset. -/
theorem filter_insertSorted {l : List Insertion} (h : InOrder l) (x : Insertion) (o : Nat) :
    (insertSorted x l).filter (·.offset = o) =
      l.filter (·.offset = o) ++ if x.offset = o then [x] else [] := by
  induction l with
  | nil =>
    by_cases hx : x.offset = o <;> simp [insertSorted, hx]
  | cons y l ih =>
    obtain ⟨hy, hl⟩ := List.pairwise_cons.1 h
    rw [insertSorted]
    by_cases hlt : x.offset < y.offset
    · rw [if_pos hlt]
      by_cases hx : x.offset = o
      · -- all that follow stand behind `o`
        have hnone : (y :: l).filter (·.offset = o) = [] := by
          apply List.filter_eq_nil_iff.2
          intro z hz
          have hyz : y.offset ≤ z.offset := by
            rcases List.mem_cons.1 hz with rfl | hz
            · exact Nat.le_refl _
            · exact hy z hz
          simp only [decide_eq_true_eq]
          omega
        rw [List.filter_cons_of_pos (by simpa using hx), hnone, if_pos hx]
        rfl
      · rw [List.filter_cons_of_neg (by simpa using hx), if_neg hx, List.append_nil]
    · rw [if_neg hlt, List.filter_cons, List.filter_cons, ih hl]
      by_cases hy : y.offset = o <;> simp [hy]

theorem foldl_insertSorted {l acc : List Insertion} (h : InOrder acc) :
    InOrder (l.foldl (fun sorted x => insertSorted x sorted) acc) ∧
    (∀ o, (l.foldl (fun sorted x => insertSorted x sorted) acc).filter (·.offset = o) =
      acc.filter (·.offset = o) ++ l.filter (·.offset = o)) ∧
    ∀ y, y ∈ l.foldl (fun sorted x => insertSorted x sorted) acc ↔ y ∈ acc ∨ y ∈ l := by
  induction l generalizing acc with
  | nil => exact ⟨h, fun o => by simp, fun y => by simp⟩
  | cons x l ih =>
    -- the list that was sorted so far takes `x` up and stays in order
    obtain ⟨hsorted, hfilter, hmem⟩ := ih (h.insertSorted x)
    refine ⟨hsorted, fun o => ?_, fun y => ?_⟩
    · rw [List.foldl_cons, hfilter, filter_insertSorted h]
      by_cases hx : x.offset = o <;> simp [hx]
    · rw [List.foldl_cons, hmem, mem_insertSorted, List.mem_cons]
      constructor
      · rintro ((rfl | h) | h)
        · exact .inr (.inl rfl)
        · exact .inl h
        · exact .inr (.inr h)
      · rintro (h | rfl | h)
        · exact .inl (.inr h)
        · exact .inl (.inl rfl)
        · exact .inr h

theorem inOrder_sorted (buffer : SpliceBuffer) : InOrder buffer.sorted :=
  (foldl_insertSorted .nil).1

/-- Sorting keeps the insertions at an offset as they come. -/
theorem filter_sorted (buffer : SpliceBuffer) (o : Nat) :
    buffer.sorted.filter (·.offset = o) = buffer.insertions.filter (·.offset = o) :=
  (foldl_insertSorted .nil).2.1 o

theorem textsAt_sorted (buffer : SpliceBuffer) (o : Nat) :
    textsAt buffer.sorted o = textsAt buffer.insertions o := by
  rw [textsAt, textsAt, filter_sorted]

theorem mem_sorted {buffer : SpliceBuffer} {x : Insertion} :
    x ∈ buffer.sorted ↔ x ∈ buffer.insertions := by
  have h : x ∈ buffer.sorted ↔ x ∈ [] ∨ x ∈ buffer.insertions := (foldl_insertSorted .nil).2.2 x
  rw [h]
  simp

/-! ## §5. Reading a buffer out -/

/-- Behind the first of some ordered insertions the others are made into what
    remains. -/
theorem edit_cons_append {x : Insertion} {l : List Insertion} (hl : InOrder (x :: l)) {o : Nat}
    {a b : List Char} (hb : ∀ y ∈ x :: l, o ≤ y.offset ∧ IsBoundary (a ++ b) (y.offset - o))
    (ha : byteSize a = x.offset - o) :
    (∀ y ∈ l, x.offset ≤ y.offset ∧ IsBoundary b (y.offset - x.offset)) ∧
    edit (x :: l) o (a ++ b) = a ++ (x.text ++ edit l x.offset b) := by
  obtain ⟨hx, -⟩ := List.pairwise_cons.1 hl
  have hle := (hb x List.mem_cons_self).1
  constructor
  · intro y hy
    have hxy := hx y hy
    obtain ⟨hoy, c, d, hcd, hc⟩ := hb y (List.mem_cons_of_mem _ hy)
    obtain ⟨m, rfl, rfl⟩ := Text.append_split_of_byteSize_le hcd (by omega)
    rw [byteSize_append] at hc
    exact ⟨hxy, m, d, rfl, by omega⟩
  · -- all insertions stand behind `a`
    have hin : ∀ y ∈ x :: l, y.offset < o ∨ o + byteSize a ≤ y.offset := by
      intro y hy
      rcases List.mem_cons.1 hy with rfl | hy
      · omega
      · have := hx y hy
        omega
    have hoff : o + byteSize a = x.offset := by omega
    rw [edit_append b hin, hoff, edit_cons_self]

/-- Cutting a text that stands at `o` between ordered boundaries succeeds, and the
    chunks with what is inserted behind them make up the edited text. -/
theorem cutAt_eq_some {l : List Insertion} (hl : InOrder l) {o : Nat} {s : List Char}
    (hb : ∀ x ∈ l, o ≤ x.offset ∧ IsBoundary s (x.offset - o)) :
    ∃ chunks, cutAt o s l = some chunks ∧
      chunks.flatMap (fun chunk => chunk.text ++ chunk.inserted) = edit l o s := by
  induction l generalizing o s with
  | nil =>
    refine ⟨_, rfl, ?_⟩
    rw [Insertion.edit_of_lt (by simp)]
    simp
  | cons x l ih =>
    obtain ⟨hle, a, b, rfl, ha⟩ := hb x List.mem_cons_self
    obtain ⟨hrest, hedit⟩ := edit_cons_append hl hb ha
    obtain ⟨chunks, hcut, htext⟩ := ih (List.pairwise_cons.1 hl).2 hrest
    -- the stretch up to `x` is cut off whole, since `x` stands at a boundary
    refine ⟨⟨o, a, x.text⟩ :: chunks, ?_, ?_⟩
    · rw [cutAt, ← ha, Text.cut?_append, Option.bind_some]
      show (cutAt x.offset b l).map _ = _
      rw [hcut]
      rfl
    · rw [hedit, ← htext]
      simp

/-- A buffer reads out as the edited text, in whatever order it was filled. -/
theorem finish?_eq_edit {buffer : SpliceBuffer}
    (h : ∀ x ∈ buffer.insertions, IsBoundary buffer.original x.offset) :
    ∃ chunks, buffer.chunks? = some chunks ∧
      chunks.flatMap (fun chunk => chunk.text ++ chunk.inserted) =
        edit buffer.insertions 0 buffer.original := by
  have hb : ∀ x ∈ buffer.sorted, 0 ≤ x.offset ∧ IsBoundary buffer.original (x.offset - 0) :=
    fun x hx => ⟨Nat.zero_le _, h x (mem_sorted.1 hx)⟩
  obtain ⟨chunks, hcut, htext⟩ := cutAt_eq_some (inOrder_sorted buffer) hb
  refine ⟨chunks, hcut, ?_⟩
  rw [htext, Insertion.edit_congr (textsAt_sorted buffer)]

end SpliceBuffer

/-! ## §6. Taking insertions out -/

namespace Insertion

open Text (byteSize byteSize_append byteSize_cons IsBoundary)

/-- Takes each inserted text out of an edited text that starts at byte `cursor` of
    the original; `none` if one of them does not stand in its place. -/
def takeOut? (cursor : Nat) : List Insertion → List Char → Option (List Char)
  | [], s => some s
  | x :: more, s => do
    let (kept, s) ← Text.cut? (x.offset - cursor) s
    let (inserted, s) ← Text.cut? (byteSize x.text) s
    if inserted = x.text then (takeOut? x.offset more s).map (kept ++ ·) else none

/-- What was inserted in order can be taken out again, and the original is left. -/
theorem takeOut?_edit {l : List Insertion} (hl : SpliceBuffer.InOrder l) {o : Nat} {s : List Char}
    (hb : ∀ x ∈ l, o ≤ x.offset ∧ IsBoundary s (x.offset - o)) :
    takeOut? o l (edit l o s) = some s := by
  induction l generalizing o s with
  | nil => rw [edit_of_lt (by simp)]; rfl
  | cons x l ih =>
    obtain ⟨hle, a, b, rfl, ha⟩ := hb x List.mem_cons_self
    obtain ⟨hrest, hedit⟩ := SpliceBuffer.edit_cons_append hl hb ha
    rw [hedit, takeOut?, ← ha]
    simp only [Text.cut?_append, Option.bind_eq_bind, Option.bind_some, if_pos,
      ih (List.pairwise_cons.1 hl).2 hrest, Option.map_some]

end Insertion

end Provenance
