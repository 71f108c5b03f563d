import Provenance.Proofs.Snapshot.Content
import Provenance.Proofs.Template.Markup

/-! # Attributes of a marker

  All that depends on the options in the names of a marker's attributes is the
  prefix, so the names can be read back if those of the prefix can
  (`isAttributeName_of_mem_entries`).

  A pair of braces in the markup of a marker comes from the prefix, the tag, or a
  name of the file (`Marker.braces_of_markup`): locations and encoded contents have
  no brace.
-/

namespace Provenance

open Text (pair_infix_append pair_infix_of_append)

namespace Marker

open Template (IsAttributeName isDirectiveName)

/-! ## §1. Names -/

/-- The names of a marker's attributes that do not depend on the prefix. -/
def componentNames : List String :=
  ["data-component-path", "data-component-line", "data-component-file", "data-component-name",
   "data-component-content"]

theorem name_of_mem_entries {marker : Marker} {e : String × String} (h : e ∈ marker.entries) :
    e.1 = marker.attributePrefix ++ "-id" ∨ e.1 = marker.attributePrefix ++ "-name" ∨
      e.1 ∈ componentNames := by
  obtain ⟨pre, id, name, path, line, file, content⟩ := marker
  cases content with
  | none =>
    simp only [entries, List.append_nil, List.mem_cons, List.not_mem_nil, or_false] at h
    rcases h with rfl | rfl | rfl | rfl | rfl | rfl
    · exact .inl rfl
    · exact .inr (.inl rfl)
    all_goals exact .inr (.inr (by simp [componentNames]))
  | some content =>
    simp only [entries, List.mem_append, List.mem_cons, List.not_mem_nil, or_false] at h
    rcases h with (rfl | rfl | rfl | rfl | rfl | rfl) | rfl
    · exact .inl rfl
    · exact .inr (.inl rfl)
    all_goals exact .inr (.inr (by simp [componentNames]))

theorem isAttributeName_iff {name : List Char} :
    IsAttributeName name ↔ name ≠ [] ∧
      (name.all fun x => !Text.isTagBlank x && x ≠ '=' && x ≠ '>') = true ∧
        name.head? ≠ some '/' := by
  have hpart : ((name.all fun x => !Text.isTagBlank x && x ≠ '=' && x ≠ '>') = true) ↔
      ∀ x ∈ name, Text.isTagBlank x = false ∧ x ≠ '=' ∧ x ≠ '>' := by
    simp [List.all_eq_true, and_assoc]
  rw [hpart]
  exact ⟨fun h => ⟨h.ne_nil, h.part, h.head⟩, fun h => ⟨h.1, h.2.1, h.2.2⟩⟩

instance (name : List Char) : Decidable (IsAttributeName name) :=
  decidable_of_iff _ isAttributeName_iff.symm

theorem componentNames_read :
    ∀ name ∈ componentNames, IsAttributeName name.toList ∧
      isDirectiveName name.toList = false ∧ '}' ∉ name.toList := by
  decide

theorem isAttributeName_of_mem_entries {marker : Marker}
    (hid : IsAttributeName (marker.attributePrefix ++ "-id").toList)
    (hname : IsAttributeName (marker.attributePrefix ++ "-name").toList) {e : String × String}
    (h : e ∈ marker.entries) : IsAttributeName e.1.toList := by
  rcases name_of_mem_entries h with heq | heq | hmem
  · rw [heq]
    exact hid
  · rw [heq]
    exact hname
  · exact (componentNames_read _ hmem).1

/-- Of the names of a marker only those of the prefix may name directives. -/
theorem isDirectiveName_of_mem_entries {marker : Marker}
    (hid : isDirectiveName (marker.attributePrefix ++ "-id").toList = false)
    (hname : isDirectiveName (marker.attributePrefix ++ "-name").toList = false)
    {e : String × String} (h : e ∈ marker.entries) : isDirectiveName e.1.toList = false := by
  rcases name_of_mem_entries h with heq | heq | hmem
  · rw [heq]
    exact hid
  · rw [heq]
    exact hname
  · exact (componentNames_read _ hmem).2.1

/-! ## §2. Braces -/

theorem braces_of_attributeMarkup {e : String × String}
    (h : ['}', '}'] <:+: attributeMarkup e) :
    ['}', '}'] <:+: e.1.toList ∨ ['}', '}'] <:+: e.2.toList := by
  have htext : attributeMarkup e =
      ([' '] ++ e.1.toList) ++ (['=', '"'] ++ (Text.escapeValue e.2.toList ++ ['"'])) := by
    simp [attributeMarkup]
  rw [htext] at h
  -- neither the blank nor the quotes are braces, so a pair is in one of the two
  rcases pair_infix_append h with hname | hvalue | ⟨-, hhead⟩
  · rcases pair_infix_append hname with hblank | hname | ⟨hlast, -⟩
    · exact absurd hblank (by decide)
    · exact .inl hname
    · exact absurd hlast (by decide)
  · rcases pair_infix_append hvalue with hmark | hvalue | ⟨hlast, -⟩
    · exact absurd hmark (by decide)
    · exact .inr (Text.braces_of_escapeValue (pair_infix_of_append (by decide) hvalue))
    · exact absurd hlast (by decide)
  · exact absurd hhead (by simp)

theorem braces_of_flatMap {added : List (String × String)}
    (h : ['}', '}'] <:+: added.flatMap attributeMarkup) :
    ∃ e ∈ added, ['}', '}'] <:+: e.1.toList ∨ ['}', '}'] <:+: e.2.toList := by
  induction added with
  | nil => exact absurd h (by decide)
  | cons e added ih =>
    rw [List.flatMap_cons] at h
    rcases pair_infix_append h with he | hrest | ⟨-, hhead⟩
    · exact ⟨e, List.mem_cons_self, braces_of_attributeMarkup he⟩
    · obtain ⟨e', he', hbraces⟩ := ih hrest
      exact ⟨e', List.mem_cons_of_mem e he', hbraces⟩
    · -- the next attribute begins with a blank
      cases added with
      | nil => cases hhead
      | cons e' added => exact absurd hhead (by simp [attributeMarkup])

/-- No number has a character that is no digit. -/
theorem not_mem_toString {c : Char} (hc : c.isDigit = false) (n : Nat) :
    c ∉ (toString n).toList := by
  rw [Nat.toString_eq_repr, Nat.toList_repr]
  intro hmem
  rw [Nat.isDigit_of_mem_toDigits (by decide) (by decide) hmem] at hc
  cases hc

theorem braces_of_mem_entries {identity : FileIdentity} {position : Position} {tag : String}
    {props : PropertyMap} {options : TransformOptions} {e : String × String}
    (h : e ∈ (synthesize identity position tag props options).entries)
    (hbraces : ['}', '}'] <:+: e.2.toList) :
    ['}', '}'] <:+: identity.relativePath.toList ∨ ['}', '}'] <:+: tag.toList ∨
      ['}', '}'] <:+: identity.fileName.toList := by
  have hdigits := not_mem_toString (show '}'.isDigit = false by decide)
  unfold entries at h
  -- one of the six attributes that are always there, or the content
  rcases List.mem_append.1 h with h | h
  · simp only [synthesize, List.mem_cons, List.not_mem_nil, or_false] at h
    rcases h with rfl | rfl | rfl | rfl | rfl | rfl
    · -- an id is a path with a location
      left
      simp only [String.toList_append] at hbraces
      exact pair_infix_of_append (by decide) (pair_infix_of_append (hdigits _)
        (pair_infix_of_append (by decide) (pair_infix_of_append (hdigits _) hbraces)))
    · exact .inr (.inl hbraces)
    · exact .inl hbraces
    · exact absurd (hbraces.subset List.mem_cons_self) (hdigits _)
    · exact .inr (.inr hbraces)
    · exact .inr (.inl hbraces)
  · split at h
    · next content hcontent =>
      obtain rfl := List.mem_singleton.1 h
      have hsome : props.content? = some content := by
        simp only [synthesize] at hcontent
        split at hcontent
        · exact hcontent
        · cases hcontent
      exact absurd (hbraces.subset List.mem_cons_self)
        (PropertyMap.not_mem_content (by decide) hsome)
    · cases h

/-- Braces in the markup of an element are in the prefix, the path of its file, the
    name of the file, or its own name. -/
theorem braces_of_markup {identity : FileIdentity} {position : Position} {tag : String}
    {props : PropertyMap} {options : TransformOptions}
    (h : ['}', '}'] <:+: (synthesize identity position tag props options).markup) :
    ['}', '}'] <:+: options.attributePrefix.toList ∨ ['}', '}'] <:+: identity.relativePath.toList ∨
      ['}', '}'] <:+: tag.toList ∨ ['}', '}'] <:+: identity.fileName.toList := by
  obtain ⟨e, he, hname | hvalue⟩ := braces_of_flatMap h
  · left
    rcases name_of_mem_entries he with heq | heq | hmem
    · rw [heq, String.toList_append] at hname
      exact pair_infix_of_append (by decide) hname
    · rw [heq, String.toList_append] at hname
      exact pair_infix_of_append (by decide) hname
    · exact absurd (hname.subset List.mem_cons_self) (componentNames_read _ hmem).2.2
  · exact .inr (braces_of_mem_entries he hvalue)

end Marker

end Provenance
