import Provenance.Proofs.Annotation.Reparse

/-! # Annotating twice

  What was annotated is not annotated again, if the attribute that identifies an
  element is read back as an attribute.  A prefix `v`, or one that begins with `v-`,
  makes it a directive, and then every marked element is marked again
  (`second_pass_eq_none_iff`).
-/

namespace Provenance.Template

open Text (Cursor)
open Insertion (edit moved)

/-! ## §1. Plain prefixes -/

/-- An ASCII letter or digit, or a hyphen. -/
def isPlainPart (c : Char) : Bool := c.isAlphanum || c = '-'

/-- Letters, digits and hyphens behind a letter, all of them ASCII. -/
structure IsPlainPrefix (s : List Char) : Prop where
  head : ∃ x r, s = x :: r ∧ x.isAlpha = true
  part : s.all isPlainPart = true

theorem isAttributeName_of_plain {pre suffix : String} (h : IsPlainPrefix pre.toList)
    (hsuffix : suffix.toList.all isPlainPart = true) :
    IsAttributeName (pre ++ suffix).toList := by
  obtain ⟨x, r, hpre, hx⟩ := h.head
  rw [String.toList_append]
  refine ⟨?_, fun y hy => ?_, ?_⟩
  · rw [hpre]
    exact List.cons_ne_nil _ _
  · -- a letter, a digit or a hyphen separates nothing in a tag
    have hy : isPlainPart y = true := by
      rcases List.mem_append.1 hy with hy | hy
      · exact List.all_eq_true.1 h.part y hy
      · exact List.all_eq_true.1 hsuffix y hy
    refine ⟨?_, ?_, ?_⟩
    · rw [← Bool.not_eq_true]
      intro hblank
      simp only [Text.isTagBlank, Bool.or_eq_true, decide_eq_true_eq] at hblank
      rcases hblank with (((rfl | rfl) | rfl) | rfl) | rfl <;> exact absurd hy (by decide)
    · rintro rfl
      exact absurd hy (by decide)
    · rintro rfl
      exact absurd hy (by decide)
  · rw [hpre]
    intro hhead
    obtain rfl : x = '/' := Option.some.inj hhead
    cases hx

theorem IsPlainPrefix.no_braces {s : List Char} (h : IsPlainPrefix s) :
    ¬ ['}', '}'] <:+: s := by
  intro hin
  exact absurd (List.all_eq_true.1 h.part '}' (hin.subset List.mem_cons_self)) (by decide)

/-- Behind a plain prefix only `v-` makes a directive. -/
theorem IsPlainPrefix.isDirectiveName_iff {pre suffix : String} (h : IsPlainPrefix pre.toList) :
    isDirectiveName (pre ++ suffix).toList = true ↔ ['v', '-'] <+: (pre ++ suffix).toList := by
  obtain ⟨x, r, hpre, hx⟩ := h.head
  rw [String.toList_append, hpre]
  constructor
  · intro hdir
    unfold isDirectiveName at hdir
    split at hdir
    · next rest heq =>
      rw [heq]
      exact ⟨rest, rfl⟩
    · next c rest _ heq =>
      obtain ⟨rfl, -⟩ := List.cons.inj heq
      simp only [Bool.or_eq_true, decide_eq_true_eq] at hdir
      rcases hdir with ((rfl | rfl) | rfl) | rfl <;> cases hx
    · cases hdir
  · rintro ⟨t, ht⟩
    rw [← ht]
    rfl

/-! ## §2. Elements of an annotated file -/

theorem Component.openTags_relocated {f : Nat → Nat} {g : OpenTag → OpenTag}
    (component : Component) :
    (component.relocated f g).openTags = component.openTags.map g := by
  obtain ⟨template, blocks⟩ := component
  cases template with
  | none => rfl
  | some block => exact openTagsOf_relocated block.children

/-- An attribute that a marker is read as has no directive's name. -/
theorem name_of_mem_entriesAt {added : List (String × String)} {o : Nat} {a : Attribute}
    (h : .attribute a ∈ entriesAt o added) : isDirectiveName a.name.toList = false := by
  induction added generalizing o with
  | nil => cases h
  | cons e added ih =>
    rw [entriesAt] at h
    rcases List.mem_cons.1 h with heq | hrest
    · unfold Entry.ofName at heq
      split at heq
      · cases heq
      · next hplain =>
        cases heq
        simpa using hplain
    · exact ih hrest

theorem mem_entries_relocated {f : Nat → Nat} {front : List Entry} {tag : OpenTag}
    {a : Attribute} (h : .attribute a ∈ (tag.relocated f front).entries) :
    .attribute a ∈ front ∨ ∃ b, .attribute b ∈ tag.entries ∧ b.name = a.name := by
  rcases List.mem_append.1 h with hfront | hown
  · exact .inl hfront
  · obtain ⟨e, he, heq⟩ := List.mem_map.1 hown
    rcases e with b | d
    · cases heq
      exact .inr ⟨b, he, rfl⟩
    · cases heq

/-- An element that was not to be marked is not to be marked afterwards. -/
theorem not_unmarked_relocated {options : TransformOptions} {f : Nat → Nat} {front : List Entry}
    {tag : OpenTag} (h : ¬ tag.Unmarked options) : ¬ (tag.relocated f front).Unmarked options := by
  rintro ⟨hclass, hentries⟩
  refine h ⟨hclass, fun a ha => ?_⟩
  have hmoved : .attribute { a with start := f a.start } ∈ (tag.relocated f front).entries :=
    List.mem_append_right _ (List.mem_map.2 ⟨.attribute a, ha, rfl⟩)
  exact hentries { a with start := f a.start } hmoved

/-- An element that was marked is to be marked again exactly if the identifying
    attribute was read as a directive. -/
theorem unmarked_edited_iff {context : FileContext} (ins : List Insertion) {tag : OpenTag}
    (h : tag.Unmarked context.options) :
    (tag.edited ins (OpenTag.addedEntries context)).Unmarked context.options ↔
      isDirectiveName context.options.idAttribute.toList = true := by
  constructor
  · rintro ⟨-, hentries⟩
    rw [← Bool.not_eq_false]
    intro hplain
    -- the first entry of the marker is the attribute that identifies the element
    obtain ⟨more, hmore⟩ : ∃ more, tag.addedEntries context =
        (context.options.idAttribute, (tag.marker context).id) :: more := by
      rw [OpenTag.addedEntries_of_unmarked h]
      exact ⟨_, rfl⟩
    refine hentries ⟨context.options.idAttribute, some (tag.marker context).id,
      moved ins tag.nameEnd + 1⟩ ?_ rfl
    refine List.mem_append_left _ ?_
    rw [hmore, entriesAt, ofName_escapeValue hplain]
    exact List.mem_cons_self
  · intro hdir
    -- no attribute has a directive's name, and the element had none of its own
    refine ⟨h.1, fun a ha hname => ?_⟩
    rcases mem_entries_relocated ha with hfront | ⟨b, hb, hbname⟩
    · have hplain := name_of_mem_entriesAt hfront
      rw [hname] at hplain
      rw [TransformOptions.idAttribute, hplain] at hdir
      cases hdir
    · exact h.2 b hb (hbname.trans hname)

/-! ## §3. The second pass -/

/-- Nothing is left to be marked in an annotated file exactly if the identifying
    attribute is none of the directives. -/
theorem marked_edited_eq_nil_iff {context : FileContext} {component : Component}
    (ins : List Insertion) (hne : component.marked context.options ≠ []) :
    (component.relocated (moved ins)
      (OpenTag.edited ins (OpenTag.addedEntries context))).marked context.options = [] ↔
      isDirectiveName context.options.idAttribute.toList = false := by
  rw [Component.marked, List.filter_eq_nil_iff, Component.openTags_relocated]
  constructor
  · -- an element that was marked tells how its identifying attribute is read
    intro hall
    obtain ⟨tag, htag⟩ := List.exists_mem_of_ne_nil _ hne
    obtain ⟨hmem, hmarked⟩ := List.mem_filter.1 htag
    have hnot := hall _ (List.mem_map.2 ⟨tag, hmem, rfl⟩)
    rw [decide_eq_true_eq, unmarked_edited_iff ins (of_decide_eq_true hmarked)] at hnot
    simpa using hnot
  · intro hplain tag' htag' hmarked
    obtain ⟨tag, -, rfl⟩ := List.mem_map.1 htag'
    by_cases h : tag.Unmarked context.options
    · rw [decide_eq_true_eq, unmarked_edited_iff ins h, hplain] at hmarked
      cases hmarked
    · exact not_unmarked_relocated h (of_decide_eq_true hmarked)

/-- With a plain prefix a second pass finds nothing to mark exactly if the name of the
    identifying attribute does not begin with `v-`.  Here no pair of braces must come
    from the names of the file, unless each `{{` of the file is closed. -/
theorem second_pass_eq_none_iff (code : List Char) (path : String) (options : TransformOptions)
    (hplain : IsPlainPrefix options.attributePrefix.toList)
    (hbraces : (¬ ['}', '}'] <:+: (FileIdentity.ofPath path options.root).relativePath.toList ∧
        ¬ ['}', '}'] <:+: (FileIdentity.ofPath path options.root).fileName.toList) ∨
      ∀ u r, code = u ++ '{' :: '{' :: r → ['}', '}'] <:+: r)
    (output : Output) (h : (annotate code path options).result = .ok (some output)) :
    (annotate output.code path options).result = .ok none ↔
      ¬ ['v', '-'] <+: (options.attributePrefix ++ "-id").toList := by
  obtain ⟨component, hparse, hne, hcode⟩ := annotate_eq_some h
  have hkeeps : KeepsBraces ⟨0, code⟩ component.openTags
      (OpenTag.addedEntries (.of code path options)) := by
    rcases hbraces with ⟨hpath, hfile⟩ | hclosed
    · exact .inr fun tag _ hin =>
        braces_of_addedEntries (.of code path options) hplain.no_braces hpath hfile hin
    · exact .inl hclosed
  have hid : IsAttributeName (options.attributePrefix ++ "-id").toList :=
    isAttributeName_of_plain hplain (by decide)
  have hname : IsAttributeName (options.attributePrefix ++ "-name").toList :=
    isAttributeName_of_plain hplain (by decide)
  have hreparse := parse_annotated (.of code path options) hparse hid hname hkeeps
  rw [← hcode] at hreparse
  rw [annotate_eq_none_iff path options hreparse, ← hplain.isDirectiveName_iff,
    Bool.not_eq_true]
  exact @marked_edited_eq_nil_iff (.of code path options) component _ hne

/-- With the default prefix a file is not annotated twice. -/
theorem second_pass_eq_none_default :
    ∃ output, (annotate "<template><p/></template>".toList "a.vue" {}).result =
      .ok (some output) ∧ (annotate output.code "a.vue" {}).result = .ok none := by
  have hplain : IsPlainPrefix "data-lov".toList := ⟨⟨'d', _, rfl, rfl⟩, by decide⟩
  obtain ⟨output, h⟩ := @exists_output (annotate "<template><p/></template>".toList "a.vue" {})
    (by decide +kernel)
  have hbraces : ¬ ['}', '}'] <:+: (FileIdentity.ofPath "a.vue" none).relativePath.toList ∧
      ¬ ['}', '}'] <:+: (FileIdentity.ofPath "a.vue" none).fileName.toList := by
    decide +kernel
  refine ⟨output, h, ?_⟩
  exact (second_pass_eq_none_iff _ "a.vue" {} hplain (.inl hbraces) output h).2 (by decide)

/-- The prefix `v` is plain, and with it the second pass annotates an element again.
    With the default prefix it does so where the name of the file closes a `{{`, and a
    part of the original that was the value of an attribute becomes an element. -/
theorem second_pass_may_annotate :
    (IsPlainPrefix "v".toList ∧
      ((annotate "<template><p/></template>".toList "a.vue"
        { attributePrefix := "v" }).result.toOption.join.map fun output =>
          (annotate output.code "a.vue" { attributePrefix := "v" }).result.toOption.join.isSome) =
        some true) ∧
    (IsPlainPrefix "data-lov".toList ∧
      ((annotate "<template>\x7b\x7b<p t='<i/>'/></template>".toList "a\x7d\x7db.vue"
        { includeProps := false }).result.toOption.join.map fun output =>
          (annotate output.code "a\x7d\x7db.vue"
            { includeProps := false }).result.toOption.join.isSome) =
        some true) := by
  refine ⟨⟨⟨⟨'v', _, rfl, rfl⟩, by decide⟩, ?_⟩, ⟨⟨'d', _, rfl, rfl⟩, by decide⟩, ?_⟩
  · decide +kernel
  · decide +kernel

end Provenance.Template
