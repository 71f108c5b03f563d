import Provenance.Text.Percent

/-! # Letters and digits

  The letters and digits that the library tests for are those of ASCII.  They are told by their
  numbers here, so that whatever depends on the class of a character is arithmetic.
-/

namespace Provenance.Text

theorem isAlpha_iff {c : Char} : c.isAlpha = true ↔
    (65 ≤ c.toNat ∧ c.toNat ≤ 90) ∨ (97 ≤ c.toNat ∧ c.toNat ≤ 122) := by
  show (c.isUpper || c.isLower) = true ↔ _
  rw [Bool.or_eq_true]
  refine or_congr decide_eq_true_iff ?_
  show (decide _ && decide _) = true ↔ _
  rw [Bool.and_eq_true, decide_eq_true_iff, decide_eq_true_iff]
  rfl

theorem toNat_of_isDigit {c : Char} (h : c.isDigit = true) : 48 ≤ c.toNat ∧ c.toNat ≤ 57 :=
  (Bool.and_eq_true_iff.1 h).imp of_decide_eq_true of_decide_eq_true

theorem toNat_lt_of_isAlphanum {c : Char} (h : c.isAlphanum = true) : c.toNat < 128 := by
  rcases Bool.or_eq_true_iff.1 (show (c.isAlpha || c.isDigit) = true from h) with h | h
  · have := isAlpha_iff.1 h
    omega
  · have := toNat_of_isDigit h
    omega

theorem toNat_lt_of_isUnreserved {c : Char} (h : isUnreserved c = true) : c.toNat < 128 := by
  unfold isUnreserved at h
  simp only [Bool.or_eq_true, decide_eq_true_eq] at h
  rcases h with (((h | rfl) | rfl) | rfl) | rfl
  · exact toNat_lt_of_isAlphanum h
  all_goals decide

/-- A character is its own lower case, or a capital that has one. -/
theorem toLower_cases (x : Char) :
    x.toLower = x ∨ (65 ≤ x.toNat ∧ x.toNat ≤ 90 ∧ x.toLower.toNat = x.toNat + 32) := by
  unfold Char.toLower
  split
  · next hupper =>
    have hA : 65 ≤ x.toNat := hupper.1
    have hZ : x.toNat ≤ 90 := hupper.2
    have hval : x.val.toNat = x.toNat := rfl
    right
    refine ⟨hA, hZ, ?_⟩
    show (x.val.toNat + 32) % 2 ^ 32 = _
    omega
  · exact .inl rfl

/-- Whether a character is a letter does not depend on its case. -/
theorem isAlpha_toLower (x : Char) : x.toLower.isAlpha = x.isAlpha := by
  rw [Bool.eq_iff_iff, isAlpha_iff, isAlpha_iff]
  rcases toLower_cases x with hsame | ⟨hA, hZ, hlow⟩
  · rw [hsame]
  · omega

end Provenance.Text
