import Mathlib.Data.List.TakeWhile
import Provenance.Text.Blank
import Provenance.Text.Size

/-! # Trimming

  What trimming does to the size of a text.  Blanks behind a text change nothing
  (`trimEnd_append_of_blank`), and nothing in front of a character that is not blank is lost
  (`byteSize_lt_trimEnd_append`).
-/

namespace Provenance.Text

variable {s t : List Char}

theorem trimEnd_prefix (s : List Char) : trimEnd s <+: s := by
  have hsuffix := List.reverse_prefix.2 (List.dropWhile_suffix isBlank (l := s.reverse))
  rwa [List.reverse_reverse] at hsuffix

theorem byteSize_trimEnd_le (s : List Char) : byteSize (trimEnd s) ≤ byteSize s := by
  obtain ⟨w, hw⟩ := trimEnd_prefix s
  have hsize := congrArg byteSize hw
  rw [byteSize_append] at hsize
  omega

/-- Nothing is left of a text exactly if it is blank. -/
theorem trimEnd_eq_nil_iff : trimEnd s = [] ↔ ∀ x ∈ s, isBlank x = true := by
  rw [trimEnd, List.reverse_eq_nil_iff, List.dropWhile_eq_nil_iff]
  simp only [List.mem_reverse]

theorem trimEnd_append_of_blank (h : ∀ x ∈ t, isBlank x = true) :
    trimEnd (s ++ t) = trimEnd s := by
  have hreverse : ∀ x ∈ t.reverse, isBlank x = true := fun x hx => h x (List.mem_reverse.1 hx)
  rw [trimEnd, List.reverse_append, List.dropWhile_append_of_pos hreverse, trimEnd]

theorem trimEnd_append_of_not_blank {x : Char} (hx : x ∈ t) (hblank : isBlank x = false) :
    trimEnd (s ++ t) = s ++ trimEnd t := by
  have hne : t.reverse.dropWhile isBlank ≠ [] := by
    intro hnil
    have hall := List.dropWhile_eq_nil_iff.1 hnil x (List.mem_reverse.2 hx)
    rw [hblank] at hall
    cases hall
  rw [trimEnd, List.reverse_append, List.dropWhile_append, if_neg (by simpa using hne),
    List.reverse_append, List.reverse_reverse, trimEnd]

/-- A text is kept up to its last character that is not blank. -/
theorem byteSize_lt_trimEnd_append {x : Char} (hx : x ∈ t) (hblank : isBlank x = false) :
    byteSize s < byteSize (trimEnd (s ++ t)) := by
  have hpos : 0 < byteSize (trimEnd t) := by
    cases htrim : trimEnd t with
    | nil =>
      rw [trimEnd_eq_nil_iff.1 htrim x hx] at hblank
      cases hblank
    | cons c r =>
      have := c.utf8Size_pos
      rw [byteSize_cons]
      omega
  rw [trimEnd_append_of_not_blank hx hblank, byteSize_append]
  omega

/-- Nothing is left of a text between its blanks exactly if all of it is blank. -/
theorem trim_eq_nil_iff : trim s = [] ↔ ∀ x ∈ s, isBlank x = true := by
  rw [trim, trimEnd_eq_nil_iff]
  constructor
  · intro h
    -- what is left behind the blanks in front does not begin with a blank
    cases hrest : s.dropWhile isBlank with
    | nil => exact List.dropWhile_eq_nil_iff.1 hrest
    | cons x r =>
      have hx := List.head_dropWhile_not (p := isBlank) (l := s) (by simp [hrest])
      simp only [hrest, List.head_cons] at hx
      rw [h x (by rw [hrest]; exact List.mem_cons_self)] at hx
      cases hx
  · intro h x hx
    exact h x ((List.dropWhile_sublist isBlank).subset hx)

end Provenance.Text
