import Provenance.Proofs.Annotation.Marked
import Provenance.Proofs.Annotation.Marker
import Provenance.Proofs.Annotation.Tree

/-! # Names on a marked element

  The attribute that identifies elements is on a marked element once, whatever its
  author wrote: the tag is asked for it first.  It is not asked for the other
  attributes of the marker, so each of those repeats a name that the author wrote,
  and the two that hold the tag name agree under one prefix.

  Main statement: `marked_names`.
-/

namespace Provenance

namespace Marker

/-! ## §1. Names of a marker -/

/-- The names of a marker's attributes. -/
def names (marker : Marker) : List String := marker.entries.map Prod.fst

/-- Behind the two names with the prefix come names that are always the same. -/
theorem names_eq (marker : Marker) :
    ∃ rest, marker.names =
        (marker.attributePrefix ++ "-id") :: (marker.attributePrefix ++ "-name") :: rest ∧
      rest.Sublist componentNames ∧ "data-component-name" ∈ rest := by
  unfold names entries
  cases marker.content with
  | none => exact ⟨componentNames.take 4, rfl, by decide, by decide⟩
  | some content => exact ⟨componentNames, rfl, by decide, by decide⟩

theorem id_not_mem_componentNames (pre : String) : pre ++ "-id" ∉ componentNames := by
  intro h
  -- no other name ends like it
  have hlast : ∀ name ∈ componentNames, name.toList.getLast? ≠ some 'd' := by decide
  exact hlast _ h (by simp [String.toList_append])

theorem id_ne_name (pre : String) : pre ++ "-id" ≠ pre ++ "-name" := by
  intro h
  have hlists := congrArg String.toList h
  rw [String.toList_append, String.toList_append] at hlists
  exact absurd (List.append_cancel_left hlists) (by decide)

theorem name_mem_componentNames_iff {pre : String} {rest : List String}
    (hrest : rest.Sublist componentNames) (hname : "data-component-name" ∈ rest) :
    pre ++ "-name" ∈ rest ↔ pre = "data-component" := by
  constructor
  · intro h
    have hsuffix : ∀ name ∈ componentNames, "-name".toList <:+ name.toList →
        name.toList = "data-component".toList ++ "-name".toList := by decide
    have hlists := hsuffix _ (hrest.subset h) ⟨pre.toList, (String.toList_append ..).symm⟩
    rw [String.toList_append] at hlists
    exact String.toList_injective (List.append_cancel_right hlists)
  · rintro rfl
    exact hname

/-- The names of a marker are distinct under every prefix but one. -/
theorem nodup_names_iff {marker : Marker} :
    marker.names.Nodup ↔ marker.attributePrefix ≠ "data-component" := by
  obtain ⟨rest, hnames, hrest, hname⟩ := names_eq marker
  have hnodup : rest.Nodup := hrest.nodup (by decide)
  have hid := fun h => id_not_mem_componentNames marker.attributePrefix (hrest.subset h)
  rw [hnames, List.nodup_cons, List.nodup_cons, List.mem_cons, not_or,
    name_mem_componentNames_iff hrest hname]
  exact ⟨fun h => h.2.1, fun h => ⟨⟨id_ne_name _, hid⟩, h, hnodup⟩⟩

/-! ## §2. Beside the names that an element has -/

theorem count_id {marker : Marker} {own : List String}
    (h : marker.attributePrefix ++ "-id" ∉ own) :
    (own ++ marker.names).count (marker.attributePrefix ++ "-id") = 1 := by
  obtain ⟨rest, hnames, hrest, -⟩ := names_eq marker
  have hid := fun h => id_not_mem_componentNames marker.attributePrefix (hrest.subset h)
  rw [List.count_append, List.count_eq_zero.2 h, hnames, List.count_cons_self,
    List.count_cons_of_ne (id_ne_name _).symm, List.count_eq_zero.2 hid]

theorem nodup_append_names_iff {marker : Marker} {own : List String}
    (h : marker.attributePrefix ++ "-id" ∉ own) :
    (own ++ marker.names).Nodup ↔
      own.Nodup ∧ marker.attributePrefix ≠ "data-component" ∧
        ∀ name ∈ marker.names.tail, name ∉ own := by
  have hdisjoint : List.Disjoint own marker.names ↔ ∀ name ∈ marker.names.tail, name ∉ own := by
    obtain ⟨rest, hnames, -⟩ := names_eq marker
    rw [hnames, List.tail_cons, List.disjoint_cons_right]
    exact ⟨fun hd name hmem hown => hd.2 hown hmem, fun hd => ⟨h, fun name hown hmem =>
      hd name hmem hown⟩⟩
  rw [List.nodup_append', nodup_names_iff, hdisjoint]

end Marker

/-! ## §3. Marked elements -/

/-- The names of the attributes of a start tag; those of directives are no names of
    attributes. -/
def Template.OpenTag.attributeNames (tag : Template.OpenTag) : List String :=
  tag.entries.filterMap fun
    | .attribute a => some a.name
    | .directive _ => none

theorem Template.OpenTag.mem_attributeNames {tag : Template.OpenTag} {name : String} :
    name ∈ tag.attributeNames ↔ ∃ a, .attribute a ∈ tag.entries ∧ a.name = name := by
  rw [attributeNames, List.mem_filterMap]
  constructor
  · rintro ⟨e, he, hname⟩
    rcases e with a | d
    · exact ⟨a, he, Option.some.inj hname⟩
    · cases hname
  · rintro ⟨a, he, rfl⟩
    exact ⟨.attribute a, he, rfl⟩

/-- An element of a template or of a script with some names of attributes gets a
    marker. -/
def FileContext.Marks (context : FileContext) (own : List String) (marker : Marker) : Prop :=
  (∃ (tag : Template.OpenTag) (verdict : Tag.Verdict),
    tag.decide context = .mark verdict marker ∧ tag.attributeNames = own) ∨
  (∃ (tag : Script.OpeningTag) (verdict : Tag.Verdict),
    tag.decide context = .mark verdict marker ∧ tag.attributeNames = own)

theorem FileContext.Marks.id_not_mem {context : FileContext} {own : List String} {marker : Marker}
    (h : context.Marks own marker) : context.options.attributePrefix ++ "-id" ∉ own := by
  rcases h with ⟨tag, verdict, hmark, rfl⟩ | ⟨tag, verdict, hmark, rfl⟩
  · obtain ⟨⟨-, hid⟩, -⟩ := Template.OpenTag.decide_eq_mark hmark
    rw [Template.OpenTag.mem_attributeNames]
    rintro ⟨a, ha, hname⟩
    exact hid a ha hname
  · exact (Script.OpeningTag.decide_eq_mark_iff.1 hmark).1.2

theorem FileContext.Marks.attributePrefix_eq {context : FileContext} {own : List String}
    {marker : Marker} (h : context.Marks own marker) :
    marker.attributePrefix = context.options.attributePrefix := by
  rcases h with ⟨tag, verdict, hmark, -⟩ | ⟨tag, verdict, hmark, -⟩
  · obtain ⟨-, rfl⟩ := Template.OpenTag.decide_eq_mark hmark
    rfl
  · obtain ⟨-, -, rfl⟩ := Script.OpeningTag.decide_eq_mark_iff.1 hmark
    rfl

/-- The name that identifies a marked element is on it once.  Those of its marker are
    distinct unless the prefix is `data-component`, and no name is on it twice if and
    only if moreover its author wrote none of the others and none twice. -/
theorem marked_names {context : FileContext} {own : List String} {marker : Marker}
    (h : context.Marks own marker) :
    (own ++ marker.names).count (context.options.attributePrefix ++ "-id") = 1 ∧
      (marker.names.Nodup ↔ context.options.attributePrefix ≠ "data-component") ∧
      ((own ++ marker.names).Nodup ↔
        own.Nodup ∧ context.options.attributePrefix ≠ "data-component" ∧
          ∀ name ∈ marker.names.tail, name ∉ own) := by
  have hid := h.id_not_mem
  rw [← h.attributePrefix_eq] at hid ⊢
  exact ⟨Marker.count_id hid, Marker.nodup_names_iff, Marker.nodup_append_names_iff hid⟩

/-- On an element with a title no name is repeated. -/
theorem marked_names_title :
    let context := FileContext.of "<p title='x'/>".toList "a.jsx" {}
    let tag : Script.OpeningTag := ⟨"p", [Script.newAttribute ("title", "x")], 0⟩
    context.Marks ["title"] (tag.marker context) ∧ (["title"] ++ (tag.marker context).names).Nodup := by
  intro context tag
  have hmarks : context.Marks ["title"] (tag.marker context) :=
    .inr ⟨tag, .host, Script.OpeningTag.decide_eq_mark_iff.2 ⟨by decide, by decide, rfl⟩, by decide⟩
  exact ⟨hmarks, (marked_names hmarks).2.2.2 ⟨by decide, by decide, by decide +kernel⟩⟩

/-- An element whose author wrote `data-lov-name` gets it once more, and under the
    prefix `data-component` two attributes of a marker have one name. -/
theorem marked_names_may_repeat :
    (let code := "<template><p data-lov-name='x'/></template>".toList
      ∃ tag verdict marker,
        (Template.Component.parse code).toOption.map Template.Component.openTags = some [tag] ∧
          tag.decide (FileContext.of code "a.vue" {}) = .mark verdict marker ∧
          "data-lov-name" ∈ tag.attributeNames ∧ "data-lov-name" ∈ marker.names) ∧
    (let code := "<template><p/></template>".toList
      ∃ tag verdict marker,
        (Template.Component.parse code).toOption.map Template.Component.openTags = some [tag] ∧
          tag.decide (FileContext.of code "a.vue" { attributePrefix := "data-component" }) =
            .mark verdict marker ∧
          ¬ marker.names.Nodup) := by
  constructor
  · refine ⟨⟨"p", 10, 12, [.attribute ⟨"data-lov-name", some "x", 13⟩], true⟩, _, _,
      by decide +kernel, Template.OpenTag.decide_of_unmarked (by decide), by decide, ?_⟩
    exact List.mem_cons_of_mem _ List.mem_cons_self
  · refine ⟨⟨"p", 10, 12, [], true⟩, _, _, by decide +kernel,
      Template.OpenTag.decide_of_unmarked (by decide), ?_⟩
    rw [Marker.nodup_names_iff]
    exact fun h => h rfl

end Provenance
