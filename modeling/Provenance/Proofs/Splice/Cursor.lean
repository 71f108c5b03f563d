import Provenance.Proofs.Splice.Edit

/-! # Cursors in edited texts

  A cursor of the original and the same place in the edited text
  (`Text.Cursor.edited`).  Pieces without insertions stay as they are
  (`Takes.edited`), and a place that no insertion touches shows the characters it
  showed (`Settled.take_two`).
-/

namespace Provenance

open Text (Cursor byteSize byteSize_append byteSize_cons)
open Text.Cursor (Takes)
open Insertion (edit moved sizeBefore textsAt)

variable {ins : List Insertion}

/-- Where a cursor of the original is in the edited text. -/
def Text.Cursor.edited (ins : List Insertion) (c : Cursor) : Cursor :=
  ⟨moved ins c.offset, edit ins c.offset c.rest⟩

/-- A piece with no insertion in it stays, and both its ends move alike. -/
theorem Text.Cursor.Takes.edited {c d : Cursor} {w : List Char} (hw : Takes c w d)
    (h : ∀ x ∈ ins, x.offset < c.offset ∨ d.offset ≤ x.offset) :
    c.edited ins = ⟨c.offset + sizeBefore ins c.offset, w ++ (d.edited ins).rest⟩ ∧
    d.edited ins = ⟨d.offset + sizeBefore ins c.offset, (d.edited ins).rest⟩ := by
  have hd : d.offset = c.offset + byteSize w := hw.offset
  constructor
  · have hedit := Insertion.edit_append (o := c.offset) (w := w) d.rest (by rwa [← hd])
    rw [← hd] at hedit
    rw [Cursor.edited, moved, hw.rest, hedit]
    rfl
  · -- no insertion counts for one end and not for the other
    have hsize := Insertion.sizeBefore_eq hw.offset_le h
    rw [Cursor.edited, moved, hsize]

theorem moved_between {a b p : Nat} (h : ∀ x ∈ ins, x.offset < a ∨ b ≤ x.offset) (ha : a ≤ p)
    (hb : p ≤ b) : moved ins p = p + sizeBefore ins a := by
  have hin : ∀ x ∈ ins, x.offset < a ∨ p ≤ x.offset := by
    intro x hx
    have := h x hx
    omega
  rw [moved, Insertion.sizeBefore_eq ha hin]

/-- Nothing changes behind all insertions. -/
theorem Text.Cursor.edited_rest_of_lt {c : Cursor} (h : ∀ x ∈ ins, x.offset < c.offset) :
    (c.edited ins).rest = c.rest := Insertion.edit_of_lt h c.rest

/-- An insertion stands behind a `<` and another character of the text of a cursor. -/
def Insertion.Behind (x : Insertion) (c : Cursor) : Prop :=
  ∃ a l b, c.rest = a ++ '<' :: l :: b ∧ c.offset + byteSize (a ++ ['<', l]) ≤ x.offset

theorem Insertion.Behind.of_takes {x : Insertion} {c d : Cursor} {w : List Char}
    (hw : Takes c w d) (h : x.Behind d) : x.Behind c := by
  obtain ⟨a, l, b, hrest, hle⟩ := h
  refine ⟨w ++ a, l, b, by rw [hw.rest, hrest, List.append_assoc], ?_⟩
  rw [hw.offset] at hle
  rw [List.append_assoc, byteSize_append]
  omega

theorem Insertion.Behind.offset_lt {x : Insertion} {c : Cursor} (h : x.Behind c) :
    c.offset + 1 < x.offset := by
  obtain ⟨a, l, b, -, hle⟩ := h
  have hpos := l.utf8Size_pos
  have hone : '<'.utf8Size = 1 := rfl
  rw [byteSize_append, byteSize_cons, byteSize_cons] at hle
  omega

/-- All insertions stand in front of a cursor or well behind it. -/
def Settled (ins : List Insertion) (c : Cursor) : Prop :=
  ∀ x ∈ ins, x.offset < c.offset ∨ x.Behind c

/-- No insertion stands between two cursors or close behind the second one. -/
def Apart (ins : List Insertion) (c d : Cursor) : Prop :=
  ∀ x ∈ ins, x.offset < c.offset ∨ x.Behind d

theorem Apart.outside {c d : Cursor} (h : Apart ins c d) :
    ∀ x ∈ ins, x.offset < c.offset ∨ d.offset ≤ x.offset := by
  intro x hx
  rcases h x hx with hlt | hbehind
  · exact .inl hlt
  · have := hbehind.offset_lt
    exact .inr (by omega)

theorem Apart.mono {c c' d : Cursor} (h : Apart ins c d) (hle : c.offset ≤ c'.offset) :
    Apart ins c' d := by
  intro x hx
  rcases h x hx with hlt | hbehind
  · exact .inl (by omega)
  · exact .inr hbehind

theorem Apart.settled {c d : Cursor} (h : Apart ins c d) (hle : c.offset ≤ d.offset) :
    Settled ins d := h.mono hle

theorem Apart.of_takes {c d e : Cursor} {w : List Char} (hw : Takes d w e) (h : Apart ins c e) :
    Apart ins c d := by
  intro x hx
  rcases h x hx with hlt | hbehind
  · exact .inl hlt
  · exact .inr (hbehind.of_takes hw)

theorem Settled.not_at {c : Cursor} (h : Settled ins c) : ∀ x ∈ ins, x.offset ≠ c.offset := by
  intro x hx
  rcases h x hx with hlt | hbehind
  · omega
  · have := hbehind.offset_lt
    omega

/-- Two characters at a settled cursor are those of the original. -/
theorem Settled.take_two {c : Cursor} (h : Settled ins c) :
    (c.edited ins).rest.take 2 = c.rest.take 2 := by
  obtain ⟨o, s⟩ := c
  show (edit ins o s).take 2 = s.take 2
  have hat : ∀ x ∈ ins, x.offset ≠ o := h.not_at
  cases s with
  | nil => rw [edit, Insertion.textsAt_eq_nil hat]
  | cons x s =>
    rw [edit, Insertion.textsAt_eq_nil hat, List.nil_append]
    -- no insertion stands behind the first character either
    have hnext : textsAt ins (o + x.utf8Size) = [] := by
      refine Insertion.textsAt_eq_nil fun y hy => ?_
      rcases h y hy with hlt | ⟨a, l, b, hrest, hle⟩
      · have hlt : y.offset < o := hlt
        have := x.utf8Size_pos
        omega
      · have hle : o + byteSize (a ++ ['<', l]) ≤ y.offset := hle
        have hpos := l.utf8Size_pos
        have hone : '<'.utf8Size = 1 := rfl
        rw [byteSize_append, byteSize_cons, byteSize_cons] at hle
        -- the `<` it stands behind is `x` or comes later, and a character follows it
        cases a with
        | nil =>
          obtain ⟨rfl, -⟩ := List.cons.inj hrest
          omega
        | cons z a =>
          obtain ⟨rfl, -⟩ := List.cons.inj hrest
          rw [byteSize_cons] at hle
          omega
    cases s with
    | nil => rw [edit, hnext]
    | cons y s => rw [edit, hnext]; rfl

end Provenance
