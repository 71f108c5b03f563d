import Provenance.Text.Percent

/-! # Encoded components

  A text as one component of a URI holds unreserved characters, percent signs and
  the five marks that a component may hold bare, and nothing else
  (`mem_encodeUriComponent`).
-/

namespace Provenance.Text

theorem isUnreserved_hexDigit : ∀ n, n < 16 → isUnreserved (hexDigit n) = true := by decide

theorem mem_percentEscape {b : UInt8} {x : Char} (h : x ∈ percentEscape b) :
    isUnreserved x = true ∨ x = '%' := by
  have hb := b.toNat_lt
  unfold percentEscape at h
  rcases List.mem_cons.1 h with rfl | h
  · exact .inr rfl
  · rcases List.mem_cons.1 h with rfl | h
    · exact .inl (isUnreserved_hexDigit _ (by omega))
    · obtain rfl := List.mem_singleton.1 h
      exact .inl (isUnreserved_hexDigit _ (by omega))

theorem mem_percentEncode {s : List Char} {x : Char} (h : x ∈ percentEncode s) :
    isUnreserved x = true ∨ x = '%' := by
  obtain ⟨c, -, hx⟩ := List.mem_flatMap.1 h
  split at hx
  · next hc =>
    obtain rfl := List.mem_singleton.1 hx
    exact .inl hc
  · obtain ⟨b, -, hb⟩ := List.mem_flatMap.1 hx
    exact mem_percentEscape hb

theorem mem_replaceFrom {pattern new s : List Char} {skip : Nat} {x : Char}
    (h : x ∈ replaceFrom pattern new skip s) : x ∈ new ∨ x ∈ s := by
  induction s generalizing skip with
  | nil =>
    cases skip <;> cases h
  | cons c s ih =>
    cases skip with
    | succ skip => exact (ih h).imp_right (List.mem_cons_of_mem c)
    | zero =>
      rw [replaceFrom] at h
      split at h
      · rcases List.mem_append.1 h with hnew | hrest
        · exact .inl hnew
        · exact (ih hrest).imp_right (List.mem_cons_of_mem c)
      · rcases List.mem_cons.1 h with rfl | hrest
        · exact .inr List.mem_cons_self
        · exact (ih hrest).imp_right (List.mem_cons_of_mem c)

theorem mem_foldl_replaceAll {marks : List (List Char × Char)} {s : List Char} {x : Char}
    (h : x ∈ marks.foldl (fun text mark => replaceAll mark.1 [mark.2] text) s) :
    x ∈ marks.map (·.2) ∨ x ∈ s := by
  induction marks generalizing s with
  | nil => exact .inr h
  | cons mark marks ih =>
    rcases ih h with hmark | hrest
    · exact .inl (List.mem_cons_of_mem _ hmark)
    · rcases mem_replaceFrom hrest with hnew | hs
      · obtain rfl := List.mem_singleton.1 hnew
        exact .inl List.mem_cons_self
      · exact .inr hs

theorem mem_encodeUriComponent {s : List Char} {x : Char} (h : x ∈ encodeUriComponent s) :
    isUnreserved x = true ∨ x ∈ ['%', '!', '\'', '(', ')', '*'] := by
  rcases mem_foldl_replaceAll h with hmark | hencoded
  · exact .inr (List.mem_cons_of_mem '%' hmark)
  · rcases mem_percentEncode hencoded with hx | rfl
    · exact .inl hx
    · exact .inr List.mem_cons_self

end Provenance.Text
