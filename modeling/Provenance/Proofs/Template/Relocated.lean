import Provenance.Proofs.Splice.Cursor
import Provenance.Proofs.Template.Scan

/-! # Relocated trees

  A tree with its places moved and its start tags replaced.  The tokens of an
  edited text build the relocated content if those of the original build the
  content (`contentOf_edited`).
-/

namespace Provenance.Template

open Text (Cursor)
open Insertion (moved)

variable {ins : List Insertion}

/-! ## §1. Trees -/

/-- A start tag with its places moved and with more entries in front. -/
def OpenTag.relocated (f : Nat → Nat) (front : List Entry) (tag : OpenTag) : OpenTag where
  name := tag.name
  start := f tag.start
  nameEnd := f tag.nameEnd
  entries := front ++ tag.entries.map (·.mapStart f)
  selfClosing := tag.selfClosing

mutual

/-- A node with its places moved and its start tags replaced. -/
def Node.relocated (f : Nat → Nat) (g : OpenTag → OpenTag) : Node → Node
  | .element tag children stop => .element (g tag) (relocatedNodes f g children) (f stop)
  | .text content start => .text content (f start)
  | .interpolation content start => .interpolation content (f start)
  | .comment content start => .comment content (f start)

/-- Nodes with their places moved and their start tags replaced. -/
def relocatedNodes (f : Nat → Nat) (g : OpenTag → OpenTag) : List Node → List Node
  | [] => []
  | node :: rest => node.relocated f g :: relocatedNodes f g rest

end

/-- A block with its places moved and its start tags replaced. -/
def Block.relocated (f : Nat → Nat) (g : OpenTag → OpenTag) (block : Block) : Block where
  lang := block.lang
  children := relocatedNodes f g block.children
  contentStart := f block.contentStart
  contentEnd := f block.contentEnd

/-- A component with its places moved and the start tags of its template replaced. -/
def Component.relocated (f : Nat → Nat) (g : OpenTag → OpenTag) (component : Component) :
    Component where
  template := component.template.map (Block.relocated f g)
  blocks := component.blocks

variable {f : Nat → Nat} {g : OpenTag → OpenTag}

theorem relocatedNodes_eq_map (nodes : List Node) :
    relocatedNodes f g nodes = nodes.map (Node.relocated f g) := by
  induction nodes with
  | nil => rfl
  | cons node nodes ih => rw [relocatedNodes, ih]; rfl

mutual

theorem Node.openTags_relocated (node : Node) :
    (node.relocated f g).openTags = node.openTags.map g := by
  cases node with
  | element tag children stop =>
    rw [Node.relocated, Node.openTags, Node.openTags, openTagsOf_relocated children]
    rfl
  | text content start => rfl
  | interpolation content start => rfl
  | comment content start => rfl

theorem openTagsOf_relocated (nodes : List Node) :
    openTagsOf (relocatedNodes f g nodes) = (openTagsOf nodes).map g := by
  cases nodes with
  | nil => rfl
  | cons node nodes =>
    rw [relocatedNodes, openTagsOf, openTagsOf, Node.openTags_relocated node,
      openTagsOf_relocated nodes, List.map_append]

end

/-! ## §2. Tokens -/

/-- An end tag of the edited text. -/
def CloseTag.edited (ins : List Insertion) (tag : CloseTag) : CloseTag :=
  { tag with start := moved ins tag.start, after := tag.after.edited ins }

/-- A token of the edited text. -/
def Token.edited (ins : List Insertion) (g : OpenTag → OpenTag) : Token → Token
  | .comment content start => .comment content (moved ins start)
  | .declaration => .declaration
  | .text content start => .text content (moved ins start)
  | .interpolation content start => .interpolation content (moved ins start)
  | .openTag tag stop => .openTag (g tag) (moved ins stop)
  | .rawElement tag content start stop =>
    .rawElement (g tag) content (moved ins start) (moved ins stop)
  | .closeTag tag => .closeTag (tag.edited ins)

theorem tagsOf_edited (ts : List Token) :
    tagsOf (ts.map (Token.edited ins g)) = (tagsOf ts).map g := by
  rw [tagsOf, tagsOf, List.filterMap_map, List.map_filterMap]
  congr 1
  funext t
  cases t <;> rfl

/-- The content of a block of the edited text. -/
def Content.edited (ins : List Insertion) (g : OpenTag → OpenTag) (content : Content) :
    Content where
  children := relocatedNodes (moved ins) g content.children
  close := content.close.edited ins

/-- Open elements of the edited text. -/
def OpenElements.edited (ins : List Insertion) (g : OpenTag → OpenTag) (s : OpenElements) :
    OpenElements where
  frames := s.frames.map fun frame =>
    ⟨g frame.tag, relocatedNodes (moved ins) g frame.children⟩
  children := relocatedNodes (moved ins) g s.children

theorem OpenElements.edited_add (s : OpenElements) (node : Node) :
    (s.add node).edited ins g = (s.edited ins g).add (node.relocated (moved ins) g) := by
  obtain ⟨frames, children⟩ := s
  cases frames with
  | nil => rfl
  | cons frame outer => rfl

/-- The replaced start tags are classified as before. -/
structure KeepsClass (g : OpenTag → OpenTag) : Prop where
  name : ∀ tag, (g tag).name = tag.name
  selfClosing : ∀ tag, (g tag).selfClosing = tag.selfClosing

theorem KeepsClass.isLeaf (hg : KeepsClass g) (tag : OpenTag) : (g tag).isLeaf = tag.isLeaf := by
  rw [OpenTag.isLeaf, OpenTag.isLeaf, hg.name, hg.selfClosing]

theorem KeepsClass.isRawText (hg : KeepsClass g) (tag : OpenTag) :
    (g tag).isRawText = tag.isRawText := by
  rw [OpenTag.isRawText, OpenTag.isRawText, hg.isLeaf, hg.name]

theorem OpenElements.innermost_edited (hg : KeepsClass g) (s : OpenElements) (block : String) :
    (s.edited ins g).innermost block = s.innermost block := by
  obtain ⟨frames, children⟩ := s
  cases frames with
  | nil => rfl
  | cons frame outer => exact hg.name frame.tag

theorem relocatedNodes_rawChildren (content : String) (start : Nat) :
    relocatedNodes f g (rawChildren content start) = rawChildren content (f start) := by
  unfold rawChildren
  split <;> rfl

/-- What the tokens of the edited text build is what the original tokens build, relocated,
    and they build nothing where those do not. -/
theorem toOption_contentOf_edited (hg : KeepsClass g) (block : String)
    (failure failure' : Option Error) (stop stop' : Nat) (s : OpenElements) (ts : List Token) :
    (contentOf block failure' stop' (s.edited ins g) (ts.map (Token.edited ins g))).toOption =
      (contentOf block failure stop s ts).toOption.map (Content.edited ins g) := by
  induction ts generalizing s with
  | nil => rfl
  | cons t ts ih =>
    rw [List.map_cons]
    cases t with
    | comment text start =>
      have hrest := ih (s.add (.comment text start))
      rw [OpenElements.edited_add] at hrest
      exact hrest
    | declaration => exact ih s
    | text text start =>
      have hrest := ih (s.add (.text text start))
      rw [OpenElements.edited_add] at hrest
      exact hrest
    | interpolation text start =>
      have hrest := ih (s.add (.interpolation text start))
      rw [OpenElements.edited_add] at hrest
      exact hrest
    | openTag tag tagStop =>
      -- a leaf stays a leaf, and what is left open stays open
      simp only [Token.edited, contentOf, hg.isLeaf]
      split
      · have hrest := ih (s.add (.element tag [] tagStop))
        rw [OpenElements.edited_add] at hrest
        exact hrest
      · exact ih { s with frames := ⟨tag, []⟩ :: s.frames }
    | rawElement tag text start elementStop =>
      have hrest := ih (s.add (.element tag (rawChildren text start) elementStop))
      rw [OpenElements.edited_add, Node.relocated, relocatedNodes_rawChildren] at hrest
      exact hrest
    | closeTag tag =>
      -- the innermost open element has the name it had
      obtain ⟨frames, children⟩ := s
      simp only [Token.edited, contentOf, OpenElements.innermost_edited hg]
      have hname : (tag.edited ins).name = tag.name := rfl
      rw [hname]
      split
      · cases frames with
        | nil =>
          -- the end tag of the block
          simp [OpenElements.edited, Content.edited, relocatedNodes_eq_map, Except.toOption]
        | cons frame outer =>
          have hrest := ih (OpenElements.add ⟨outer, children⟩
            (.element frame.tag frame.children.reverse tag.after.offset))
          rw [OpenElements.edited_add, Node.relocated, relocatedNodes_eq_map, List.map_reverse,
            ← relocatedNodes_eq_map] at hrest
          exact hrest
      · rfl

/-- The tokens of the edited text build the content of the edited block. -/
theorem contentOf_edited (hg : KeepsClass g) {block : String} {failure : Option Error} {stop : Nat}
    {s : OpenElements} {ts : List Token} {content : Content}
    (h : contentOf block failure stop s ts = .ok content) (failure' : Option Error) (stop' : Nat) :
    contentOf block failure' stop' (s.edited ins g) (ts.map (Token.edited ins g)) =
      .ok (content.edited ins g) := by
  have hsame : (contentOf block failure' stop' (s.edited ins g)
      (ts.map (Token.edited ins g))).toOption = _ :=
    toOption_contentOf_edited hg block failure failure' stop stop' s ts
  rw [h] at hsame
  cases hedited : contentOf block failure' stop' (s.edited ins g) (ts.map (Token.edited ins g)) with
  | error e => rw [hedited] at hsame; cases hsame
  | ok content' =>
    rw [hedited] at hsame
    exact congrArg Except.ok (Option.some.inj hsame)

end Provenance.Template
