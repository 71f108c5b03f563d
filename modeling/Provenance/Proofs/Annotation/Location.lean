import Provenance.Proofs.Annotation.Marked
import Provenance.Proofs.Annotation.Marker
import Provenance.Proofs.Text.Position

/-! # Ids lead back

  The id of a marked element is made of the path of its file and the line and
  column of its `<`.  In a file below 2^32 bytes that position is the position of
  no other place, so an id leads back to its element, and no two elements of a
  file share one.
-/

namespace Provenance

/-- The id that a decision gives an element. -/
def Decision.id? : Decision → Option String
  | .mark _ marker => some marker.id
  | .skip _ | .keep => none

namespace Template

open Text (byteSize byteSize_append byteSize_cons IsBoundary)

/-! ## §1. Numbers in ids -/

theorem toString_toList_inj {m n : Nat} (h : (toString m).toList = (toString n).toList) : m = n := by
  rw [Nat.toString_eq_repr, Nat.toString_eq_repr, Nat.toList_repr, Nat.toList_repr] at h
  rw [← @Nat.ofDigitChars_ten_toDigits m, h, Nat.ofDigitChars_ten_toDigits]

/-- The line and the column can be read off an id. -/
theorem location_inj {path : String} {l c l' c' : Nat}
    (h : path ++ ":" ++ toString l ++ ":" ++ toString c =
      path ++ ":" ++ toString l' ++ ":" ++ toString c') : l = l' ∧ c = c' := by
  have htext : (toString l).toList ++ ':' :: (toString c).toList =
      (toString l').toList ++ ':' :: (toString c').toList := by
    have hlist := congrArg String.toList h
    simp only [String.toList_append, List.append_assoc] at hlist
    exact List.append_cancel_left (List.append_cancel_left hlist)
  -- the first colon of the remaining text ends the line
  have hsplit := congrArg (Text.Cursor.splitOn? [':']) htext
  have hcolon := Marker.not_mem_toString (show ':'.isDigit = false by decide)
  rw [Text.Cursor.splitOn?_singleton (hcolon l),
    Text.Cursor.splitOn?_singleton (hcolon l')] at hsplit
  obtain ⟨hl, hc⟩ := Prod.mk.inj (Option.some.inj hsplit)
  exact ⟨toString_toList_inj hl, toString_toList_inj hc⟩

/-! ## §2. Ids -/

/-- An element is found back by the line and the column of its marker. -/
theorem eq_start_of_position {code : List Char} (hsize : byteSize code < UInt32.size) {tag : OpenTag}
    (hin : tag.StandsIn ⟨0, code⟩) {o : Nat} (ho : IsBoundary code o) :
    (((LineIndex.ofText code).position o).line = ((LineIndex.ofText code).position tag.start).line ∧
      ((LineIndex.ofText code).position o).column =
        ((LineIndex.ofText code).position tag.start).column) ↔ o = tag.start := by
  constructor
  · rintro ⟨hline, hcolumn⟩
    exact LineIndex.position_injective hsize ho hin.isBoundary.1 hline hcolumn
  · rintro rfl
    exact ⟨rfl, rfl⟩

/-- Elements at different places have different ids. -/
theorem marker_id_ne {code : List Char} {path : String} {options : TransformOptions}
    (hsize : byteSize code < UInt32.size) {a b : OpenTag} (ha : a.StandsIn ⟨0, code⟩)
    (hb : b.StandsIn ⟨0, code⟩) (hne : a.start ≠ b.start) :
    (a.marker (.of code path options)).id ≠ (b.marker (.of code path options)).id := by
  intro hid
  obtain ⟨hline, hcolumn⟩ := location_inj hid
  exact hne (LineIndex.position_injective hsize ha.isBoundary.1 hb.isBoundary.1 hline hcolumn)

/-- In a file below 2^32 bytes the id of a marked element is the path, a line and a
    column, and of all boundaries of the file exactly that of the `<` of the element
    is at that line and column.  So no two elements have the same id. -/
theorem ids_lead_back (code : List Char) (path : String) (options : TransformOptions)
    (hsize : byteSize code < UInt32.size) (component : Component)
    (h : Component.parse code = .ok component) :
    (∀ tag ∈ component.openTags, ∀ verdict marker,
      tag.decide (.of code path options) = .mark verdict marker →
        ∃ line column,
          marker.id = (FileIdentity.ofPath path options.root).relativePath ++ ":" ++
            toString line ++ ":" ++ toString column ∧
          (∀ o, IsBoundary code o →
            ((((LineIndex.ofText code).position o).line = line ∧
              ((LineIndex.ofText code).position o).column = column) ↔ o = tag.start)) ∧
          ∃ before after, code = before ++ '<' :: (tag.name.toList ++ after) ∧
            tag.start = byteSize before) ∧
    (component.openTags.filterMap fun tag => (tag.decide (.of code path options)).id?).Nodup := by
  constructor
  · intro tag ht verdict marker hmark
    have hin := standsIn_of_parse h ht
    obtain ⟨-, rfl⟩ := OpenTag.decide_eq_mark hmark
    obtain ⟨before, after, htext, hstart⟩ := hin.text
    refine ⟨((LineIndex.ofText code).position tag.start).line,
      ((LineIndex.ofText code).position tag.start).column, rfl,
      fun o ho => eq_start_of_position hsize hin ho, before, after, htext, ?_⟩
    rw [hstart]
    exact Nat.zero_add _
  · refine List.pairwise_filterMap.2 ((pairwise_of_parse h).imp_of_mem ?_)
    intro a b ha hb hab id hid id' hid'
    have hina := standsIn_of_parse h ha
    have hinb := standsIn_of_parse h hb
    -- an id comes from a marker
    have marker_of_id : ∀ {tag : OpenTag} {id : String},
        (tag.decide (.of code path options)).id? = some id →
        id = (tag.marker (.of code path options)).id := by
      intro tag id hid
      cases hdecide : tag.decide (.of code path options) with
      | skip verdict => rw [hdecide] at hid; cases hid
      | keep => rw [hdecide] at hid; cases hid
      | mark verdict marker =>
        rw [hdecide] at hid
        obtain ⟨-, rfl⟩ := OpenTag.decide_eq_mark hdecide
        exact (Option.some.inj hid).symm
    rw [marker_of_id hid, marker_of_id hid']
    refine marker_id_ne hsize hina hinb ?_
    have := hina.nameEnd
    omega

/-- Two elements of one line are told apart by their columns. -/
theorem ids_lead_back_two_elements :
    byteSize "<template><p/><p/></template>".toList < UInt32.size ∧
    ∃ component ids, Component.parse "<template><p/><p/></template>".toList = .ok component ∧
      ids = (component.openTags.filterMap fun tag =>
        (tag.decide (.of "<template><p/><p/></template>".toList "a.vue" {})).id?) ∧
      ids = ["a.vue:1:10", "a.vue:1:14"] ∧ ids.Nodup := by
  have hsize : byteSize "<template><p/><p/></template>".toList < UInt32.size := by decide
  have hids : (Component.parse "<template><p/><p/></template>".toList).toOption.map (fun component =>
      component.openTags.filterMap fun tag =>
        (tag.decide (.of "<template><p/><p/></template>".toList "a.vue" {})).id?) =
      some ["a.vue:1:10", "a.vue:1:14"] := by
    decide +kernel
  cases h : Component.parse "<template><p/><p/></template>".toList with
  | error e => rw [h] at hids; cases hids
  | ok component =>
    rw [h] at hids
    exact ⟨hsize, component, _, rfl, rfl, Option.some.inj hids,
      (ids_lead_back _ "a.vue" {} hsize component h).2⟩

end Template

end Provenance
