import Provenance.Proofs.Annotation.Marked
import Provenance.Proofs.Template.Walk

/-! # What annotating changes

  Annotating a component splices the markers of its marked elements in behind
  their tag names, between the start and the end tag of the template, and does
  nothing else: with the markers taken out again, the file is what it was.
-/

namespace Provenance.Template

open Text (Cursor byteSize byteSize_append byteSize_cons)

/-- A template block is closed by an end tag: the tag stands in the file at its
    offset, and reading the content of the block ends with it. -/
structure Block.ClosedBy (block : Block) (code : List Char) (close : CloseTag) : Prop where
  text : ∃ before after, code = before ++ '<' :: '/' :: (close.inner ++ '>' :: after) ∧
    close.start = byteSize before
  name : sameName close.name.toList "template".toList = true
  contentEnd : block.contentEnd = close.contentEnd
  content : ∃ before rest, code = before ++ rest ∧ block.contentStart = byteSize before ∧
    ∃ run, run = tokensFrom ⟨block.contentStart, rest⟩ ∧
      contentOf "template" run.error run.stop {} run.tokens = .ok ⟨block.children, close⟩

/-- The template of a component that parses is closed by an end tag, and its elements
    stand in front of that tag. -/
theorem closedBy_of_parse {code : List Char} {component : Component}
    (h : Component.parse code = .ok component) (hne : component.openTags ≠ []) :
    ∃ block close, component.template = some block ∧ block.ClosedBy code close ∧
      ∀ tag ∈ component.openTags, block.contentStart ≤ tag.start ∧ tag.nameEnd < close.start := by
  rcases openTags_eq_nil_or_scan h with hnil | ⟨k, b, start, m, tokens, content, e, hfront,
    htemplate, hopen, hblock⟩
  · exact absurd hnil hne
  · obtain ⟨text, hm⟩ := htemplate.startTag
    obtain ⟨n, hn, hstarts, hclose⟩ := htemplate.scan.split_closeTag
    -- the pieces in front of the content and in front of the end tag
    obtain ⟨u, hu⟩ := hfront.takes
    obtain ⟨v, -, hv⟩ := hm.takes
    obtain ⟨w, hw⟩ := hn.takes
    have hcontent := hu.trans hv
    have hend := hcontent.trans hw
    have hname : start.name = "template" :=
      of_decide_eq_true (Bool.and_eq_true_iff.1 htemplate.isTemplate).1
    have htext : code = _ ++ n.rest := hend.rest
    rw [hclose.rest] at htext
    refine ⟨_, content.close, hblock, ⟨⟨_, e.rest, htext, ?_⟩, ?_, rfl, _, m.rest, hcontent.rest,
      ?_, _, rfl, ?_⟩, ?_⟩
    · have hoff := hend.offset
      rw [Nat.zero_add] at hoff
      rw [hclose.start, hoff]
    · rw [← hname]
      exact htemplate.closeName
    · have hoff := hcontent.offset
      rw [Nat.zero_add] at hoff
      exact hoff
    · rw [← hname]
      exact htemplate.contentOf_tokensFrom
    · intro tag ht
      rw [hopen] at ht
      obtain ⟨hin, hlt⟩ := hn.standsIn ht
      rw [← hclose.start] at hlt
      exact ⟨hin.offset_le, hlt⟩

/-- Annotating fails as parsing does.  Else it makes no output if no element is to
    be marked, and otherwise splices the marker of each marked element in behind its
    tag name: once, inside the template, and with nothing else changed.  The elements are
    all those of the tree, each of them once. -/
theorem annotate_splices_markers (code : List Char) (path : String) (options : TransformOptions) :
    match Component.parse code with
    | .error error => (annotate code path options).result = .error (.parse path error.message)
    | .ok component =>
      if component.marked options = [] then (annotate code path options).result = .ok none
      else
        ∃ output block close insertions,
          (annotate code path options).result = .ok (some output) ∧
          insertions = (component.marked options).map (fun tag =>
            ⟨tag.nameEnd, (Marker.synthesize (FileIdentity.ofPath path options.root)
              ((LineIndex.ofText code).position tag.start) tag.name tag.snapshot options).markup⟩) ∧
          output.code = Insertion.edit insertions 0 code ∧
          Insertion.takeOut? 0 insertions output.code = some code ∧
          ((component.marked options).map (·.nameEnd)).Pairwise (· < ·) ∧
          component.template = some block ∧ block.ClosedBy code close ∧
          IsWalk (elementAt? block.children) component.openTags ∧
          ∀ tag ∈ component.marked options,
            (∃ before after, code = before ++ '<' :: (tag.name.toList ++ after) ∧
              tag.start = byteSize before ∧
              tag.nameEnd = byteSize (before ++ '<' :: tag.name.toList)) ∧
            block.contentStart ≤ tag.start ∧ tag.nameEnd < close.start := by
  cases h : Component.parse code with
  | error error => exact annotate_error h
  | ok component =>
    dsimp only
    rcases annotate_ok path options h with ⟨hnil, hresult⟩ | ⟨hne, output, hresult, hcode⟩
    · rw [if_pos hnil, hresult]
    · rw [if_neg hne]
      have hopen : component.openTags ≠ [] := by
        intro hnil
        exact hne (by rw [Component.marked, hnil]; rfl)
      obtain ⟨block, close, hblock, hclosed, hinside⟩ := closedBy_of_parse h hopen
      obtain ⟨horder, hboundary⟩ := insertions_of_parse h (.of code path options)
      -- the original comes back, the places differ, and they are inside the template
      refine ⟨output, block, close, _, hresult, rfl, hcode, ?_, ?_, hblock, hclosed, ?_, ?_⟩
      · rw [hcode]
        exact Insertion.takeOut?_edit horder fun x hx => ⟨Nat.zero_le _, hboundary x hx⟩
      · exact List.pairwise_map.2 ((pairwise_nameEnd_of_parse h).filter _)
      · rw [Component.openTags, hblock]
        exact openTagsOf_isWalk block.children
      · intro tag ht
        have hmem := (List.mem_filter.1 ht).1
        have hin := standsIn_of_parse h hmem
        obtain ⟨before, after, htext, hstart⟩ := hin.text
        have hstart : tag.start = 0 + byteSize before := hstart
        refine ⟨⟨before, after, htext, by omega, ?_⟩, hinside tag hmem⟩
        rw [hin.nameEnd, byteSize_append, byteSize_cons]
        have hone : '<'.utf8Size = 1 := rfl
        omega

end Provenance.Template
