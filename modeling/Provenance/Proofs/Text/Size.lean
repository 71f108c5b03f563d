import Provenance.Text.Size

/-! # Boundaries

  A byte offset of a text is a boundary if a character starts there or the text
  ends there.  Cutting a text succeeds exactly at such offsets.
-/

namespace Provenance.Text

theorem byteSize_pos {s : List Char} (h : s ≠ []) : 0 < byteSize s := by
  cases s with
  | nil => exact absurd rfl h
  | cons c r =>
    have := c.utf8Size_pos
    rw [byteSize_cons]
    omega

/-- A text starts a character, or ends, at a byte offset. -/
def IsBoundary (s : List Char) (offset : Nat) : Prop :=
  ∃ before after, s = before ++ after ∧ byteSize before = offset

theorem cut?_append (a b : List Char) : cut? (byteSize a) (a ++ b) = some (a, b) := by
  induction a with
  | nil => cases b <;> rfl
  | cons c a ih =>
    have hpos := c.utf8Size_pos
    obtain ⟨n, hn⟩ : ∃ n, byteSize (c :: a) = n + 1 :=
      ⟨c.utf8Size + byteSize a - 1, by rw [byteSize_cons]; omega⟩
    have hle : c.utf8Size ≤ n + 1 := by rw [← hn, byteSize_cons]; omega
    have hrest : n + 1 - c.utf8Size = byteSize a := by rw [← hn, byteSize_cons]; omega
    rw [hn, List.cons_append, cut?, if_pos hle, hrest, ih]
    rfl

/-- A text can be cut at its boundaries, and nowhere else. -/
theorem isBoundary_iff_cut? {s : List Char} {o : Nat} : IsBoundary s o ↔ (cut? o s).isSome := by
  constructor
  · rintro ⟨a, b, rfl, rfl⟩
    rw [cut?_append]
    rfl
  · intro h
    obtain ⟨⟨a, b⟩, hcut⟩ := Option.isSome_iff_exists.1 h
    exact ⟨a, b, cut?_eq_some hcut⟩

instance (s : List Char) (o : Nat) : Decidable (IsBoundary s o) :=
  decidable_of_iff _ isBoundary_iff_cut?.symm

theorem IsBoundary.le_byteSize {s : List Char} {o : Nat} (h : IsBoundary s o) :
    o ≤ byteSize s := by
  obtain ⟨a, b, rfl, rfl⟩ := h
  rw [byteSize_append]; omega

/-- Two pieces of a text that start together: the shorter one is part of the other. -/
theorem append_split_of_byteSize_le {a b c d : List Char} (h : a ++ b = c ++ d)
    (hle : byteSize a ≤ byteSize c) : ∃ m, c = a ++ m ∧ b = m ++ d := by
  rcases List.append_eq_append_iff.1 h with ⟨m, hc, hb⟩ | ⟨m, ha, hd⟩
  · exact ⟨m, hc, hb⟩
  · -- the other piece is the longer one, so what it has more is empty
    cases m with
    | nil => exact ⟨[], by simpa using ha.symm, by simpa using hd.symm⟩
    | cons x m =>
      have := x.utf8Size_pos
      rw [ha, byteSize_append, byteSize_cons] at hle
      omega

theorem append_inj_of_byteSize_eq {a b c d : List Char} (h : a ++ b = c ++ d)
    (hsize : byteSize a = byteSize c) : a = c ∧ b = d := by
  obtain ⟨m, rfl, rfl⟩ := append_split_of_byteSize_le h (Nat.le_of_eq hsize)
  have hm : m = [] := by
    by_cases hm : m = []
    · exact hm
    · have := byteSize_pos hm
      rw [byteSize_append] at hsize
      omega
  subst hm
  exact ⟨(List.append_nil a).symm, rfl⟩

/-- Between two boundaries in order stands a part of the text. -/
theorem slice?_append (a m b : List Char) :
    slice? (a ++ (m ++ b)) (byteSize a) (byteSize (a ++ m)) = some m := by
  have hle : byteSize a ≤ byteSize (a ++ m) := by rw [byteSize_append]; omega
  have hsub : byteSize (a ++ m) - byteSize a = byteSize m := by rw [byteSize_append]; omega
  rw [slice?, if_pos hle, cut?_append, Option.bind_some, hsub, cut?_append]
  rfl

/-- A slice of a text is what stands between the two offsets. -/
theorem slice?_eq_some_iff {s w : List Char} {o p : Nat} :
    slice? s o p = some w ↔ ∃ a b, s = a ++ (w ++ b) ∧ byteSize a = o ∧ p = o + byteSize w := by
  constructor
  · intro h
    unfold slice? at h
    split at h
    · next hle =>
      obtain ⟨⟨a, r⟩, hcut, hrest⟩ := Option.bind_eq_some_iff.1 h
      obtain ⟨⟨v, b⟩, hcut', heq⟩ := Option.map_eq_some_iff.1 hrest
      obtain rfl : v = w := heq
      obtain ⟨rfl, ha⟩ := cut?_eq_some hcut
      obtain ⟨hr, hv⟩ := cut?_eq_some hcut'
      exact ⟨a, b, congrArg (a ++ ·) hr, ha, by omega⟩
    · cases h
  · rintro ⟨a, b, rfl, rfl, rfl⟩
    rw [← byteSize_append, slice?_append]

theorem isBoundary_of_slice? {s w : List Char} {o p : Nat} (h : slice? s o p = some w) :
    IsBoundary s o ∧ IsBoundary s p ∧ p = o + byteSize w := by
  obtain ⟨a, b, rfl, rfl, rfl⟩ := slice?_eq_some_iff.1 h
  refine ⟨⟨a, w ++ b, rfl, rfl⟩, ⟨a ++ w, b, ?_, ?_⟩, rfl⟩
  · rw [List.append_assoc]
  · rw [byteSize_append]

/-- The places of two boundaries in order split a text in three. -/
theorem IsBoundary.split {s : List Char} {o p : Nat} (h : IsBoundary s o) (h' : IsBoundary s p)
    (hle : o ≤ p) : ∃ a m b, s = a ++ (m ++ b) ∧ byteSize a = o ∧ byteSize (a ++ m) = p := by
  obtain ⟨a, b, hs, ha⟩ := h
  obtain ⟨c, d, hs', hc⟩ := h'
  obtain ⟨m, rfl, rfl⟩ := append_split_of_byteSize_le (hs.symm.trans hs') (by omega)
  exact ⟨a, m, d, hs, ha, hc⟩

end Provenance.Text
