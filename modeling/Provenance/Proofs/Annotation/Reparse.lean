import Provenance.Proofs.Annotation.Marked
import Provenance.Proofs.Annotation.Marker
import Provenance.Proofs.Template.Reread

/-! # Parsing an annotated file

  An annotated file parses as the original does, with the entries of its markers
  in front of those that were there (`parse_annotated`).  They are attributes if
  their names are not those of directives (`annotate_keeps_parse`).

  The one thing that may go wrong is an interpolation: where a `{{` is left open, a
  pair of braces from a marker would close it (`KeepsBraces`).
-/

namespace Provenance.Template

open Text (Cursor byteSize)
open Insertion (edit moved textsAt)
open Marker (attributeMarkup)

/-! ## §1. What is added -/

/-- The attributes that annotating adds to an element. -/
def OpenTag.addedEntries (context : FileContext) (tag : OpenTag) : List (String × String) :=
  if tag.Unmarked context.options then (tag.marker context).entries else []

theorem OpenTag.addedEntries_of_unmarked {context : FileContext} {tag : OpenTag}
    (h : tag.Unmarked context.options) : tag.addedEntries context = (tag.marker context).entries :=
  if_pos h

theorem OpenTag.addedEntries_of_not {context : FileContext} {tag : OpenTag}
    (h : ¬ tag.Unmarked context.options) : tag.addedEntries context = [] := if_neg h

/-- Where the names of start tags end in order, behind each stands what is added to
    its element. -/
theorem textsAt_insertion (context : FileContext) {tags : List OpenTag}
    (h : tags.Pairwise fun a b => a.nameEnd < b.nameEnd) {tag : OpenTag} (ht : tag ∈ tags) :
    textsAt ((tags.filter fun tag => tag.Unmarked context.options).map
      (OpenTag.insertion context)) tag.nameEnd =
      (tag.addedEntries context).flatMap attributeMarkup := by
  induction tags with
  | nil => cases ht
  | cons t tags ih =>
    obtain ⟨hlt, htags⟩ := List.pairwise_cons.1 h
    rcases List.mem_cons.1 ht with rfl | ht
    · have hself : (OpenTag.insertion context tag).offset = tag.nameEnd := rfl
      -- the other insertions stand behind this one
      have hrest : textsAt ((tags.filter fun tag => tag.Unmarked context.options).map
          (OpenTag.insertion context)) tag.nameEnd = [] := by
        refine Insertion.textsAt_eq_nil fun x hx => ?_
        obtain ⟨t, ht, rfl⟩ := List.mem_map.1 hx
        have := hlt t (List.mem_filter.1 ht).1
        show t.nameEnd ≠ tag.nameEnd
        omega
      by_cases hmarked : tag.Unmarked context.options
      · rw [List.filter_cons_of_pos (by simpa using hmarked), List.map_cons,
          Insertion.textsAt_cons, if_pos hself, hrest, List.append_nil,
          OpenTag.addedEntries_of_unmarked hmarked]
        rfl
      · rw [List.filter_cons_of_neg (by simpa using hmarked), hrest,
          OpenTag.addedEntries_of_not hmarked]
        rfl
    · have hne : (OpenTag.insertion context t).offset ≠ tag.nameEnd := Nat.ne_of_lt (hlt tag ht)
      by_cases hmarked : t.Unmarked context.options
      · rw [List.filter_cons_of_pos (by simpa using hmarked), List.map_cons,
          Insertion.textsAt_cons, if_neg hne, List.nil_append]
        exact ih htags ht
      · rw [List.filter_cons_of_neg (by simpa using hmarked)]
        exact ih htags ht

/-- Names without a pair of braces bring none into an element. -/
theorem braces_of_addedEntries (context : FileContext) {tag : OpenTag}
    (hpre : ¬ ['}', '}'] <:+: context.options.attributePrefix.toList)
    (hpath : ¬ ['}', '}'] <:+: context.identity.relativePath.toList)
    (hfile : ¬ ['}', '}'] <:+: context.identity.fileName.toList)
    (h : ['}', '}'] <:+: (tag.addedEntries context).flatMap attributeMarkup) :
    ['}', '}'] <:+: tag.name.toList := by
  by_cases hmarked : tag.Unmarked context.options
  · rw [OpenTag.addedEntries_of_unmarked hmarked] at h
    rcases Marker.braces_of_markup h with hin | hin | hin | hin
    · exact absurd hin hpre
    · exact absurd hin hpath
    · exact hin
    · exact absurd hin hfile
  · rw [OpenTag.addedEntries_of_not hmarked] at h
    exact absurd h (by decide)

/-! ## §2. Annotated files -/

theorem isAttributeName_addedEntries {context : FileContext} {tag : OpenTag}
    (hid : IsAttributeName context.options.idAttribute.toList)
    (hname : IsAttributeName context.options.nameAttribute.toList) :
    ∀ e ∈ tag.addedEntries context, IsAttributeName e.1.toList := by
  intro e he
  by_cases hmarked : tag.Unmarked context.options
  · rw [OpenTag.addedEntries_of_unmarked hmarked] at he
    exact @Marker.isAttributeName_of_mem_entries (tag.marker context) hid hname e he
  · rw [OpenTag.addedEntries_of_not hmarked] at he
    cases he

/-- An annotated file parses as the original does, with what was added to an element
    as entries in front of the others. -/
theorem parse_annotated {code : List Char} {component : Component} (context : FileContext)
    (h : Component.parse code = .ok component)
    (hid : IsAttributeName context.options.idAttribute.toList)
    (hname : IsAttributeName context.options.nameAttribute.toList)
    (hbraces : KeepsBraces ⟨0, code⟩ component.openTags (OpenTag.addedEntries context)) :
    Component.parse (edit (component.insertions context) 0 code) =
      .ok (component.relocated (moved (component.insertions context))
        (OpenTag.edited (component.insertions context) (OpenTag.addedEntries context))) := by
  refine parse_edited h ?_ ?_ hbraces
  · intro x hx
    obtain ⟨tag, ht, rfl⟩ := List.mem_map.1 hx
    exact ⟨tag, (List.mem_filter.1 ht).1, rfl⟩
  · intro tag ht
    exact ⟨textsAt_insertion context (pairwise_nameEnd_of_parse h) ht,
      isAttributeName_addedEntries hid hname⟩

/-! ## §3. Markers as attributes -/

/-- The attributes of a marker as they are read, where the first one stands at
    `offset` with its blank. -/
def attributesAt (offset : Nat) : List (String × String) → List Entry
  | [] => []
  | e :: more =>
    .attribute ⟨e.1, some e.2, offset + 1⟩ ::
      attributesAt (offset + byteSize (attributeMarkup e)) more

/-- An entry whose name is not that of a directive is read as the attribute it was. -/
theorem ofName_escapeValue {name : String} (h : isDirectiveName name.toList = false)
    (value : String) (o : Nat) :
    Entry.ofName name.toList (some (Text.escapeValue value.toList)) o =
      .attribute ⟨name, some value, o⟩ := by
  rw [Entry.ofName, h]
  simp only [Bool.false_eq_true, if_false, Option.map_some, Text.decodeReferences_escapeValue,
    String.ofList_toList]

theorem entriesAt_eq_attributesAt {added : List (String × String)}
    (h : ∀ e ∈ added, isDirectiveName e.1.toList = false) (o : Nat) :
    entriesAt o added = attributesAt o added := by
  induction added generalizing o with
  | nil => rfl
  | cons e added ih =>
    rw [entriesAt, attributesAt, ofName_escapeValue (h e List.mem_cons_self),
      ih fun e' he' => h e' (List.mem_cons_of_mem e he')]

/-- A start tag of an annotated file, where `f` says where the places of the original
    are. -/
def OpenTag.annotated (context : FileContext) (f : Nat → Nat) (tag : OpenTag) : OpenTag :=
  tag.relocated f (attributesAt (f tag.nameEnd) (tag.addedEntries context))

theorem edited_eq_annotated (context : FileContext) (ins : List Insertion)
    (hid : isDirectiveName context.options.idAttribute.toList = false)
    (hname : isDirectiveName context.options.nameAttribute.toList = false) :
    OpenTag.edited ins (OpenTag.addedEntries context) = OpenTag.annotated context (moved ins) := by
  funext tag
  unfold OpenTag.edited OpenTag.annotated
  -- none of the names that are added is that of a directive
  rw [entriesAt_eq_attributesAt]
  intro e he
  by_cases hmarked : tag.Unmarked context.options
  · rw [OpenTag.addedEntries_of_unmarked hmarked] at he
    exact @Marker.isDirectiveName_of_mem_entries (tag.marker context) hid hname e he
  · rw [OpenTag.addedEntries_of_not hmarked] at he
    cases he

/-! ## §4. Parsing what was annotated -/

theorem isAttributeName_append {a b : String} (hb : b.toList ≠ [])
    (hpart : ∀ x ∈ (a ++ b).toList, Text.isTagBlank x = false ∧ x ≠ '=' ∧ x ≠ '>')
    (hhead : (a ++ b).toList.head? ≠ some '/') : IsAttributeName (a ++ b).toList := by
  refine ⟨?_, hpart, hhead⟩
  rw [String.toList_append]
  exact List.append_ne_nil_of_right_ne_nil _ hb

/-- Annotating keeps the parse of a file.  Where the names of the prefix can stand in
    a tag and name no directives, and the prefix and the names of the file hold no
    pair of braces, the output parses, and to the component of the original: each
    marked element has the entries of its marker as attributes in front of its own,
    and every place moved by the number of bytes inserted before it. -/
theorem annotate_keeps_parse (code : List Char) (path : String) (options : TransformOptions)
    (hnames : ∀ name ∈ [options.idAttribute, options.nameAttribute],
      (∀ x ∈ name.toList, Text.isTagBlank x = false ∧ x ≠ '=' ∧ x ≠ '>') ∧
        name.toList.head? ≠ some '/' ∧ isDirectiveName name.toList = false)
    (hbraces : ∀ text ∈ [options.attributePrefix,
        (FileIdentity.ofPath path options.root).relativePath,
        (FileIdentity.ofPath path options.root).fileName], ¬ ['}', '}'] <:+: text.toList)
    (output : Output) (h : (annotate code path options).result = .ok (some output)) :
    ∃ component insertions, Component.parse code = .ok component ∧
      insertions = component.insertions (.of code path options) ∧
      output.code = edit insertions 0 code ∧
      Component.parse output.code = .ok (component.relocated (moved insertions)
        (OpenTag.annotated (.of code path options) (moved insertions))) := by
  obtain ⟨component, hparse, -, hcode⟩ := annotate_eq_some h
  obtain ⟨hidPart, hidHead, hidPlain⟩ := hnames options.idAttribute (by simp)
  obtain ⟨hnamePart, hnameHead, hnamePlain⟩ := hnames options.nameAttribute (by simp)
  have hid : IsAttributeName options.idAttribute.toList :=
    @isAttributeName_append options.attributePrefix "-id" (by decide) hidPart hidHead
  have hname : IsAttributeName options.nameAttribute.toList :=
    @isAttributeName_append options.attributePrefix "-name" (by decide) hnamePart hnameHead
  -- only the name of an element could bring braces, and it has them already
  have hkeeps : KeepsBraces ⟨0, code⟩ component.openTags
      (OpenTag.addedEntries (.of code path options)) := by
    refine .inr fun tag _ hin => braces_of_addedEntries (.of code path options) ?_ ?_ ?_ hin
    · exact hbraces options.attributePrefix (by simp)
    · exact hbraces (FileIdentity.ofPath path options.root).relativePath (by simp)
    · exact hbraces (FileIdentity.ofPath path options.root).fileName (by simp)
  refine ⟨component, _, hparse, rfl, hcode, ?_⟩
  have hreparse := parse_annotated (.of code path options) hparse hid hname hkeeps
  rw [edited_eq_annotated (.of code path options) _ hidPlain hnamePlain] at hreparse
  rw [hcode]
  exact hreparse

/-- An element with an attribute of its own, beside an interpolation. -/
theorem annotate_keeps_parse_interpolation :
    ∃ code output component insertions,
      code = "<template><p class='a'>\x7b\x7b b \x7d\x7d</p></template>".toList ∧
      (annotate code "a.vue" {}).result = .ok (some output) ∧
      Component.parse code = .ok component ∧
      insertions = component.insertions (.of code "a.vue" {}) ∧
      Component.parse output.code = .ok (component.relocated (moved insertions)
        (OpenTag.annotated (.of code "a.vue" {}) (moved insertions))) := by
  obtain ⟨code, hcode⟩ : ∃ code,
      code = "<template><p class='a'>\x7b\x7b b \x7d\x7d</p></template>".toList := ⟨_, rfl⟩
  have hsome : (annotate code "a.vue" {}).result.toOption.join.isSome = true := by
    subst hcode
    decide +kernel
  obtain ⟨output, h⟩ := exists_output hsome
  have hnames : ∀ name ∈ [({} : TransformOptions).idAttribute,
      ({} : TransformOptions).nameAttribute],
      IsAttributeName name.toList ∧ isDirectiveName name.toList = false := by
    decide +kernel
  obtain ⟨component, insertions, hparse, hins, -, hreparse⟩ :=
    annotate_keeps_parse code "a.vue" {}
      (fun name hname =>
        ⟨(hnames name hname).1.part, (hnames name hname).1.head, (hnames name hname).2⟩)
      (by decide +kernel) output h
  exact ⟨code, output, component, insertions, hcode, h, hparse, hins, hreparse⟩

end Provenance.Template
