import Provenance.Text.Reference
import Provenance.Proofs.Text.Cursor

/-! # Escaped values

  What is written as a value in double quotes is read back as it was
  (`decodeReferences_escapeValue`), and the quotes enclose it: an escaped value has
  none inside (`quote_not_mem_escapeValue`).  Escaping brings no pair of braces
  (`braces_of_escapeValue`).
-/

namespace Provenance.Text

theorem splitSemicolon?_append {name : List Char} (h : ';' ∉ name) (r : List Char) :
    splitSemicolon? (name ++ ';' :: r) = some (name, r) := by
  induction name with
  | nil => rfl
  | cons x name ih =>
    rw [List.mem_cons, not_or] at h
    rw [List.cons_append, splitSemicolon?, if_neg (Ne.symm h.1), ih h.2]
    rfl

theorem splitSemicolon?_eq_some_iff {s name r : List Char} :
    splitSemicolon? s = some (name, r) ↔ s = name ++ ';' :: r ∧ ';' ∉ name := by
  constructor
  · intro h
    induction s generalizing name with
    | nil => cases h
    | cons x s ih =>
      rw [splitSemicolon?] at h
      by_cases hx : x = ';'
      · rw [if_pos hx] at h
        obtain ⟨rfl, rfl⟩ := Prod.mk.inj (Option.some.inj h)
        simp [hx]
      · rw [if_neg hx] at h
        obtain ⟨⟨a, b⟩, hparts, heq⟩ := Option.map_eq_some_iff.1 h
        obtain ⟨rfl, rfl⟩ := Prod.mk.inj heq
        obtain ⟨rfl, ha⟩ := ih hparts
        simp [Ne.symm hx, ha]
  · rintro ⟨rfl, h⟩
    exact splitSemicolon?_append h r

/-- A reference is replaced by the character that it names. -/
theorem decodeReferences_reference {name r : List Char} {c : Char} (hname : ';' ∉ name)
    (hc : namedCharacter? name = some c) :
    decodeReferences ('&' :: (name ++ ';' :: r)) = c :: decodeReferences r := by
  have hsplit := splitSemicolon?_append hname r
  rw [decodeReferences, if_pos rfl]
  split
  · next name' r' hsplit' =>
    rw [hsplit] at hsplit'
    obtain ⟨rfl, rfl⟩ := Prod.mk.inj (Option.some.inj hsplit')
    rw [hc]
  · next hnone =>
    rw [hsplit] at hnone
    cases hnone

theorem decodeReferences_cons_of_ne {c : Char} (hc : c ≠ '&') (r : List Char) :
    decodeReferences (c :: r) = c :: decodeReferences r := by
  rw [decodeReferences, if_neg hc]

theorem decodeReferences_escapeValue (s : List Char) : decodeReferences (escapeValue s) = s := by
  induction s with
  | nil => rw [escapeValue, List.flatMap_nil, decodeReferences]
  | cons c s ih =>
    rw [escapeValue, List.flatMap_cons, ← escapeValue]
    by_cases hamp : c = '&'
    · subst hamp
      have hread := @decodeReferences_reference ['a', 'm', 'p'] (escapeValue s) '&' (by decide) rfl
      rw [ih] at hread
      exact hread
    · by_cases hquote : c = '"'
      · subst hquote
        have hread :=
          @decodeReferences_reference ['q', 'u', 'o', 't'] (escapeValue s) '"' (by decide) rfl
        rw [ih] at hread
        exact hread
      · rw [escapeCharacter, if_neg hamp, if_neg hquote, List.singleton_append,
          decodeReferences_cons_of_ne hamp, ih]

theorem quote_not_mem_escapeValue (s : List Char) : '"' ∉ escapeValue s := by
  intro hmem
  obtain ⟨c, -, hc⟩ := List.mem_flatMap.1 hmem
  unfold escapeCharacter at hc
  split at hc
  · revert hc
    decide
  · split at hc
    · revert hc
      decide
    · next hquote => exact hquote (List.mem_singleton.1 hc).symm

theorem getLast?_escapeCharacter {c : Char} (h : (escapeCharacter c).getLast? = some '}') :
    c = '}' := by
  unfold escapeCharacter at h
  split at h
  · exact absurd h (by decide)
  · split at h
    · exact absurd h (by decide)
    · exact Option.some.inj h

theorem head?_escapeValue {s : List Char} (h : (escapeValue s).head? = some '}') :
    s.head? = some '}' := by
  cases s with
  | nil => exact h
  | cons c s =>
    rw [escapeValue, List.flatMap_cons, escapeCharacter] at h
    split at h
    · exact absurd h (by simp)
    · split at h
      · exact absurd h (by simp)
      · exact h

theorem braces_of_escapeValue {s : List Char} (h : ['}', '}'] <:+: escapeValue s) :
    ['}', '}'] <:+: s := by
  induction s with
  | nil => exact h
  | cons c s ih =>
    rw [escapeValue, List.flatMap_cons, ← escapeValue] at h
    rcases pair_infix_append h with hfront | hrest | ⟨hlast, hhead⟩
    · -- no single character is escaped to a pair
      unfold escapeCharacter at hfront
      split at hfront
      · exact absurd hfront (by decide)
      · split at hfront
        · exact absurd hfront (by decide)
        · exact absurd hfront.length_le (by simp)
    · exact (ih hrest).trans (List.suffix_cons c s).isInfix
    · obtain rfl := getLast?_escapeCharacter hlast
      obtain ⟨r, rfl⟩ := List.head?_eq_some_iff.1 (head?_escapeValue hhead)
      exact (List.prefix_append ['}', '}'] r).isInfix

end Provenance.Text
