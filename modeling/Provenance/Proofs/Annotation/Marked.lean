import Provenance.Annotation.Template
import Provenance.Proofs.Splice.Edit
import Provenance.Proofs.Template.Component

/-! # Marked elements

  Which elements of a component get a marker (`Component.marked`), what is spliced
  in for them (`Component.insertions`), and where they stand.

  Main statements: start tags stand in the file where their offsets say and do not
  overlap (`standsIn_of_parse`, `pairwise_of_parse`), and annotating a file makes
  the insertions of its marked elements (`annotate_ok`).
-/

namespace Provenance.Template

open Text (Cursor byteSize byteSize_append byteSize_cons IsBoundary)

/-! ## §1. Which elements are marked -/

/-- An element is to be marked: its tag belongs to no foreign runtime, and no
    attribute of it is the one that identifies elements. -/
def OpenTag.Unmarked (options : TransformOptions) (tag : OpenTag) : Prop :=
  Tag.classify tag.name ≠ .foreignSkip ∧
    ∀ a, .attribute a ∈ tag.entries → a.name ≠ options.attributePrefix ++ "-id"

theorem OpenTag.hasAttribute_eq_true_iff {tag : OpenTag} {name : String} :
    tag.hasAttribute name = true ↔ ∃ a, .attribute a ∈ tag.entries ∧ a.name = name := by
  rw [hasAttribute, attribute?, List.findSome?_isSome_iff]
  constructor
  · rintro ⟨e, he, hsome⟩
    rcases e with a | d
    · by_cases ha : a.name = name
      · exact ⟨a, he, ha⟩
      · simp [ha] at hsome
    · cases hsome
  · rintro ⟨a, he, ha⟩
    exact ⟨.attribute a, he, by simp [ha]⟩

theorem OpenTag.unmarked_iff {options : TransformOptions} {tag : OpenTag} :
    tag.Unmarked options ↔
      (Tag.classify tag.name).isAnnotatable = true ∧
        tag.hasAttribute options.idAttribute = false := by
  have hclass : Tag.classify tag.name ≠ .foreignSkip ↔
      (Tag.classify tag.name).isAnnotatable = true := by
    cases Tag.classify tag.name <;> decide
  rw [Unmarked, hclass, ← Bool.not_eq_true, OpenTag.hasAttribute_eq_true_iff]
  constructor
  · rintro ⟨hc, ha⟩
    exact ⟨hc, fun ⟨a, hmem, hname⟩ => ha a hmem hname⟩
  · rintro ⟨hc, ha⟩
    exact ⟨hc, fun a hmem hname => ha ⟨a, hmem, hname⟩⟩

instance (options : TransformOptions) : DecidablePred (OpenTag.Unmarked options) := fun _ =>
  decidable_of_iff _ OpenTag.unmarked_iff.symm

/-- The marker that an element gets. -/
def OpenTag.marker (context : FileContext) (tag : OpenTag) : Marker :=
  .synthesize context.identity (context.lines.position tag.start) tag.name tag.snapshot
    context.options

theorem OpenTag.decide_of_unmarked {context : FileContext} {tag : OpenTag}
    (h : tag.Unmarked context.options) :
    tag.decide context = .mark (Tag.classify tag.name) (tag.marker context) := by
  obtain ⟨hclass, hid⟩ := unmarked_iff.1 h
  simp only [OpenTag.decide, FileContext.decide, hclass, hid]
  rfl

/-- A foreign tag is skipped, and an identified element stays as it is. -/
theorem OpenTag.decide_of_not_unmarked {context : FileContext} {tag : OpenTag}
    (h : ¬ tag.Unmarked context.options) (verdict : Tag.Verdict) (marker : Marker) :
    tag.decide context ≠ .mark verdict marker := by
  rw [unmarked_iff] at h
  cases hclass : (Tag.classify tag.name).isAnnotatable with
  | false => simp [OpenTag.decide, FileContext.decide, hclass]
  | true =>
    have hid : tag.hasAttribute context.options.idAttribute = true := by
      rw [← Bool.not_eq_false]
      exact fun hid => h ⟨hclass, hid⟩
    simp [OpenTag.decide, FileContext.decide, hclass, hid]

theorem OpenTag.decide_eq_mark {context : FileContext} {tag : OpenTag} {verdict : Tag.Verdict}
    {marker : Marker} (h : tag.decide context = .mark verdict marker) :
    tag.Unmarked context.options ∧ marker = tag.marker context := by
  by_cases hmarked : tag.Unmarked context.options
  · rw [decide_of_unmarked hmarked] at h
    cases h
    exact ⟨hmarked, rfl⟩
  · exact absurd h (decide_of_not_unmarked hmarked verdict marker)

theorem OpenTag.splice_eq (context : FileContext) (buffer : SpliceBuffer) (tag : OpenTag) :
    tag.splice context buffer =
      if tag.Unmarked context.options then buffer.insert tag.nameEnd (tag.marker context).markup
      else buffer := by
  by_cases h : tag.Unmarked context.options
  · rw [if_pos h, splice, decide_of_unmarked h]
  · rw [if_neg h, splice]
    split
    · next verdict marker hmark => exact absurd hmark (decide_of_not_unmarked h verdict marker)
    · rfl
    · rfl

/-- The elements of a component that are to be marked. -/
def Component.marked (component : Component) (options : TransformOptions) : List OpenTag :=
  component.openTags.filter fun tag => tag.Unmarked options

/-- What is spliced in for an element. -/
def OpenTag.insertion (context : FileContext) (tag : OpenTag) : Insertion :=
  ⟨tag.nameEnd, (tag.marker context).markup⟩

/-- What is spliced into a component. -/
def Component.insertions (component : Component) (context : FileContext) : List Insertion :=
  (component.marked context.options).map (OpenTag.insertion context)

theorem foldl_splice (context : FileContext) (tags : List OpenTag) (buffer : SpliceBuffer)
    (h : ∀ tag ∈ tags, tag.nameEnd ≤ byteSize buffer.original) :
    tags.foldl (OpenTag.splice context) buffer =
      { buffer with insertions := buffer.insertions ++
          (tags.filter fun tag => tag.Unmarked context.options).map (OpenTag.insertion context) } := by
  induction tags generalizing buffer with
  | nil => simp
  | cons tag tags ih =>
    have htags := fun t ht => h t (List.mem_cons_of_mem tag ht)
    rw [List.foldl_cons, OpenTag.splice_eq]
    -- no offset is cut down to the end of the text
    by_cases hmarked : tag.Unmarked context.options
    · have hmin : min tag.nameEnd (byteSize buffer.original) = tag.nameEnd :=
        Nat.min_eq_left (h tag List.mem_cons_self)
      rw [if_pos hmarked, ih (buffer.insert tag.nameEnd (tag.marker context).markup) htags,
        List.filter_cons_of_pos (by simpa using hmarked)]
      simp [SpliceBuffer.insert, OpenTag.insertion, hmin]
    · rw [if_neg hmarked, ih _ htags, List.filter_cons_of_neg (by simpa using hmarked)]

/-! ## §2. Where elements stand -/

/-- The start tags of the elements of a component that parses are those of a scan. -/
theorem openTags_eq_nil_or_scan {code : List Char} {component : Component}
    (h : Component.parse code = .ok component) :
    component.openTags = [] ∨ ∃ k b tag m tokens content e, Parts {} ⟨0, code⟩ k b ∧
      ReadsTemplate k b tag m tokens content e ∧ component.openTags = tagsOf tokens ∧
      component.template = some (.of tag m content) := by
  cases hb : component.template with
  | none => exact .inl (by rw [Component.openTags, hb])
  | some block =>
    obtain ⟨k, b, tag, m, tokens, content, e, d, hfront, htemplate, rfl, -, -⟩ := parse_template h hb
    have hopen : component.openTags = tagsOf tokens := by
      rw [Component.openTags, hb]
      exact htemplate.openTags
    exact .inr ⟨k, b, tag, m, tokens, content, e, hfront, htemplate, hopen, rfl⟩

theorem standsIn_of_parse {code : List Char} {component : Component}
    (h : Component.parse code = .ok component) {tag : OpenTag} (ht : tag ∈ component.openTags) :
    tag.StandsIn ⟨0, code⟩ := by
  rcases openTags_eq_nil_or_scan h with hnil | ⟨k, b, t, m, tokens, content, e, hfront, htemplate,
    hopen, -⟩
  · rw [hnil] at ht
    cases ht
  · rw [hopen] at ht
    -- from the content of the template back to the start of the file
    obtain ⟨text, hm⟩ := htemplate.startTag
    obtain ⟨n, hn, hlast⟩ := Scan.append_iff.1 htemplate.scan
    obtain ⟨v, hv⟩ := hfront.takes
    obtain ⟨w, -, hw⟩ := hm.takes
    exact ((hn.standsIn ht).1.of_takes hw).of_takes hv

theorem pairwise_of_parse {code : List Char} {component : Component}
    (h : Component.parse code = .ok component) :
    component.openTags.Pairwise fun a b => a.nameEnd < b.start := by
  rcases openTags_eq_nil_or_scan h with hnil | ⟨k, b, t, m, tokens, content, e, hfront, htemplate,
    hopen, -⟩
  · rw [hnil]
    exact .nil
  · rw [hopen]
    obtain ⟨n, hn, hlast⟩ := Scan.append_iff.1 htemplate.scan
    exact hn.pairwise_tags

/-- The names of start tags end in order. -/
theorem pairwise_nameEnd_of_parse {code : List Char} {component : Component}
    (h : Component.parse code = .ok component) :
    component.openTags.Pairwise fun a b => a.nameEnd < b.nameEnd := by
  refine (pairwise_of_parse h).imp_of_mem fun {a b} ha hb hab => ?_
  have := (standsIn_of_parse h hb).nameEnd
  omega

theorem OpenTag.StandsIn.isBoundary {tag : OpenTag} {code : List Char}
    (h : tag.StandsIn ⟨0, code⟩) : IsBoundary code tag.start ∧ IsBoundary code tag.nameEnd := by
  obtain ⟨a, b, hcode, hstart⟩ := h.text
  have hstart : tag.start = 0 + byteSize a := hstart
  refine ⟨⟨a, _, hcode, by omega⟩, a ++ '<' :: tag.name.toList, b, ?_, ?_⟩
  · rw [show code = _ from hcode]
    simp
  · rw [h.nameEnd, byteSize_append, byteSize_cons]
    have hone : '<'.utf8Size = 1 := rfl
    omega

/-- The insertions into a component that parses are ordered and stand at
    boundaries. -/
theorem insertions_of_parse {code : List Char} {component : Component}
    (h : Component.parse code = .ok component) (context : FileContext) :
    SpliceBuffer.InOrder (component.insertions context) ∧
      ∀ x ∈ component.insertions context, IsBoundary code x.offset := by
  constructor
  · have hpairs := (pairwise_nameEnd_of_parse h).filter fun tag => tag.Unmarked context.options
    exact List.pairwise_map.2 (hpairs.imp fun {a b} hab => Nat.le_of_lt hab)
  · intro x hx
    obtain ⟨tag, ht, rfl⟩ := List.mem_map.1 hx
    exact (standsIn_of_parse h (List.mem_filter.1 ht).1).isBoundary.2

/-! ## §3. Annotating -/

/-- What is spliced into a component that parses are its insertions. -/
theorem spliced_eq {code : List Char} {component : Component}
    (h : Component.parse code = .ok component) (path : String) (options : TransformOptions) :
    component.spliced (.of code path options) =
      { original := code, insertions := component.insertions (.of code path options) } := by
  have hsize : ∀ tag ∈ component.openTags, tag.nameEnd ≤ byteSize code := fun tag ht =>
    (standsIn_of_parse h ht).isBoundary.2.le_byteSize
  unfold Component.spliced
  rw [foldl_splice _ _ _ hsize]
  rfl

theorem annotate_error {code : List Char} {path : String} {options : TransformOptions}
    {error : Error} (h : Component.parse code = .error error) :
    (annotate code path options).result = .error (.parse path error.message) := by
  rw [annotate, h]

/-- A component that parses is annotated: its insertions are made, if there are any. -/
theorem annotate_ok {code : List Char} (path : String) (options : TransformOptions)
    {component : Component} (h : Component.parse code = .ok component) :
    (component.marked options = [] ∧ (annotate code path options).result = .ok none) ∨
    (component.marked options ≠ [] ∧ ∃ output,
      (annotate code path options).result = .ok (some output) ∧
      output.code = Insertion.edit (component.insertions (.of code path options)) 0 code) := by
  obtain ⟨-, hboundary⟩ := insertions_of_parse h (.of code path options)
  have hresult : (annotate code path options).result =
      .ok (if (component.insertions (.of code path options)).isEmpty then none
        else SpliceBuffer.output? ⟨code, component.insertions (.of code path options)⟩ path) := by
    rw [annotate, h]
    simp only [spliced_eq h]
    rfl
  -- the buffer is empty exactly if no element is to be marked
  by_cases hmarked : component.marked options = []
  · refine .inl ⟨hmarked, ?_⟩
    have hnil : component.insertions (.of code path options) = [] := by
      rw [Component.insertions]
      exact List.map_eq_nil_iff.2 hmarked
    rw [hresult, hnil]
    rfl
  · refine .inr ⟨hmarked, ?_⟩
    have hne : (component.insertions (.of code path options)).isEmpty = false := by
      rw [List.isEmpty_eq_false_iff, Component.insertions]
      exact fun hnil => hmarked (List.map_eq_nil_iff.1 hnil)
    -- all insertions stand at boundaries, so the buffer can be read out
    obtain ⟨chunks, hchunks, htext⟩ :=
      @SpliceBuffer.finish?_eq_edit ⟨code, component.insertions (.of code path options)⟩ hboundary
    rw [hresult, hne]
    simp only [SpliceBuffer.output?, SpliceBuffer.finish?, SpliceBuffer.map?, hchunks]
    exact ⟨_, rfl, htext⟩

/-- What has output parses, and some element of it was marked. -/
theorem annotate_eq_some {code : List Char} {path : String} {options : TransformOptions}
    {output : Output} (h : (annotate code path options).result = .ok (some output)) :
    ∃ component, Component.parse code = .ok component ∧ component.marked options ≠ [] ∧
      output.code = Insertion.edit (component.insertions (.of code path options)) 0 code := by
  cases hparse : Component.parse code with
  | error error =>
    rw [annotate_error hparse] at h
    cases h
  | ok component =>
    rcases annotate_ok path options hparse with ⟨-, hnone⟩ | ⟨hne, output', hsome, hcode⟩
    · rw [hnone] at h
      cases h
    · rw [hsome] at h
      cases h
      exact ⟨component, rfl, hne, hcode⟩

/-- Whether there is output can be computed. -/
theorem exists_output {outcome : Annotation} (h : outcome.result.toOption.join.isSome = true) :
    ∃ output, outcome.result = .ok (some output) := by
  cases hresult : outcome.result with
  | error e =>
    rw [hresult] at h
    cases h
  | ok result =>
    cases result with
    | none =>
      rw [hresult] at h
      cases h
    | some output => exact ⟨output, rfl⟩

/-- There is no output if and only if no element is to be marked. -/
theorem annotate_eq_none_iff {code : List Char} (path : String) (options : TransformOptions)
    {component : Component} (h : Component.parse code = .ok component) :
    (annotate code path options).result = .ok none ↔ component.marked options = [] := by
  rcases annotate_ok path options h with ⟨hnil, hnone⟩ | ⟨hne, output, hsome, -⟩
  · exact ⟨fun _ => hnil, fun _ => hnone⟩
  · refine ⟨fun hnone => ?_, fun hnil => absurd hnil hne⟩
    rw [hsome] at hnone
    cases hnone

end Provenance.Template
