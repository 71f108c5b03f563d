import Provenance.Proofs.Template.Tag
import Provenance.Proofs.Text.Size

/-! # How a tree lies in its source

  A tree that was read from a source keeps the offsets at which its parts stand.  This
  module says what it means that they are right:

  - The name of a start tag, the names of its entries and its `>` stand where the tag
    says, and reading again at its offset finds the same tag (`OpenTag.Spans`).
  - An end tag has the name of its element and ends at the first `>` (`EndTag`).
  - The children of an element lie between its two tags, in order and without overlap,
    and cover what is there except for declarations (`Node.Spans`, `Tiles`).

  From these follows that all offsets are boundaries of characters and come in the order
  in which the tree lists them (`Tiles.offsets`).
-/

namespace Provenance.Template

open Text (byteSize IsBoundary slice?)

/-! ## §1. Tags -/

/-- The name of an entry as it is written. -/
def Entry.rawName : Entry → String
  | .attribute a => a.name
  | .directive d => d.rawName

/-- A start tag stands in the source and ends at `stop`. -/
structure OpenTag.Spans (source : List Char) (tag : OpenTag) (stop : Nat) : Prop where
  name : slice? source tag.start tag.nameEnd = some ('<' :: tag.name.toList)
  behind : ∃ inner, slice? source tag.nameEnd stop = some (inner ++ ['>'])
  order : tag.entries.Pairwise (·.start < ·.start)
  entry : ∀ e ∈ tag.entries, tag.nameEnd < e.start ∧
    ∃ p, slice? source e.start p = some e.rawName.toList ∧ p < stop
  /-- Reading the tag again ends where it ended. -/
  again : ∃ rest after, slice? source tag.start (byteSize source) = some rest ∧
    readOpenTag ⟨tag.start, rest⟩ = .ok (tag, ⟨stop, after⟩)

/-- The end tag of an element of some name stands in the source between two offsets. -/
def EndTag (source : List Char) (name : String) (start stop : Nat) : Prop :=
  ∃ inner, slice? source start stop = some ('<' :: '/' :: (inner ++ ['>'])) ∧ '>' ∉ inner ∧
    sameName (inner.takeWhile isTagNamePart) name.toList = true

/-! ## §2. Nodes -/

/-- Between two offsets of the source stand declarations only, none of them a comment. -/
inductive Declarations (source : List Char) : Nat → Nat → Prop where
  | nil {o : Nat} (h : IsBoundary source o) : Declarations source o o
  | cons {o p e : Nat} {inner : List Char}
    (h : slice? source o p = some ('<' :: '!' :: (inner ++ ['>']))) (hmark : '>' ∉ inner)
    (hn : ¬ ['-', '-'] <+: inner) (tail : Declarations source p e) : Declarations source o e

/-- The offset at which a node starts. -/
def Node.start : Node → Nat
  | .element tag _ _ => tag.start
  | .text _ start | .interpolation _ start | .comment _ start => start

mutual

/-- A node stands in the source where it says, and ends at `stop`.  An element without
    content ends with its start tag.  Any other one ends with an end tag of its name,
    and its children are what stands between the two tags. -/
def Node.Spans (source : List Char) (stop : Nat) : Node → Prop
  | .element tag children elementStop =>
    elementStop = stop ∧
      if tag.isLeaf then children = [] ∧ tag.Spans source stop
      else ∃ o p, tag.Spans source o ∧ Tiles source o p children ∧ EndTag source tag.name p stop
  | .text content start => content ≠ "" ∧ slice? source start stop = some content.toList
  | .interpolation content start =>
    ∃ inner, slice? source start stop = some ('{' :: '{' :: (inner ++ ['}', '}'])) ∧
      content = String.ofList (Text.trim inner)
  | .comment content start =>
    slice? source start stop =
      some ('<' :: '!' :: '-' :: '-' :: (content.toList ++ ['-', '-', '>']))

/-- Between two offsets of the source stand some nodes, each where the one before it
    ended, and nothing else but declarations. -/
def Tiles (source : List Char) (o stop : Nat) : List Node → Prop
  | [] => Declarations source o stop
  | node :: rest =>
    Declarations source o node.start ∧
      ∃ p, Node.Spans source p node ∧ Tiles source p stop rest

end

variable {source : List Char} {o p stop : Nat}

theorem Declarations.trans (h : Declarations source o p) (h' : Declarations source p stop) :
    Declarations source o stop := by
  induction h with
  | nil h => exact h'
  | cons h hmark hn tail ih => exact .cons h hmark hn (ih h')

/-- Two stretches side by side. -/
theorem Tiles.append {a b : List Node} (h : Tiles source o p a) (h' : Tiles source p stop b) :
    Tiles source o stop (a ++ b) := by
  induction a generalizing o with
  | nil =>
    have hdecl : Declarations source o p := h
    cases b with
    | nil =>
      have hdecl' : Declarations source p stop := h'
      exact hdecl.trans hdecl'
    | cons node b =>
      obtain ⟨hfront, q, hnode, hrest⟩ := h'
      exact ⟨hdecl.trans hfront, q, hnode, hrest⟩
  | cons node a ih =>
    obtain ⟨hfront, q, hnode, hrest⟩ := h
    exact ⟨hfront, q, hnode, ih hrest⟩

/-- A start tag starts and ends at boundaries, and its name ends between them. -/
theorem OpenTag.Spans.bounds {tag : OpenTag} (h : tag.Spans source stop) :
    IsBoundary source tag.start ∧ IsBoundary source tag.nameEnd ∧ IsBoundary source stop ∧
      tag.start < tag.nameEnd ∧ tag.nameEnd < stop := by
  obtain ⟨hstart, hend, hsize⟩ := Text.isBoundary_of_slice? h.name
  obtain ⟨inner, hinner⟩ := h.behind
  obtain ⟨-, hstop, hsize'⟩ := Text.isBoundary_of_slice? hinner
  have hpos : 0 < byteSize ('<' :: tag.name.toList) := Text.byteSize_pos (by simp)
  have hpos' : 0 < byteSize (inner ++ ['>']) := Text.byteSize_pos (by simp)
  exact ⟨hstart, hend, hstop, by omega, by omega⟩

theorem EndTag.bounds {name : String} (h : EndTag source name o stop) :
    IsBoundary source stop ∧ o < stop := by
  obtain ⟨inner, hslice, -, -⟩ := h
  obtain ⟨-, hstop, hsize⟩ := Text.isBoundary_of_slice? hslice
  have hpos : 0 < byteSize ('<' :: '/' :: (inner ++ ['>'])) := Text.byteSize_pos (by simp)
  exact ⟨hstop, by omega⟩

theorem Declarations.le (h : Declarations source o p) : o ≤ p := by
  induction h with
  | nil h => exact Nat.le_refl _
  | cons h hmark hn tail ih =>
    have hsize := (Text.isBoundary_of_slice? h).2.2
    omega

/-- A node starts and ends at boundaries. -/
theorem Node.Spans.isBoundary {node : Node} (h : Node.Spans source stop node) :
    IsBoundary source node.start ∧ IsBoundary source stop := by
  cases node with
  | element tag children elementStop =>
    obtain ⟨-, h⟩ := h
    split at h
    · have hbounds := h.2.bounds
      exact ⟨hbounds.1, hbounds.2.2.1⟩
    · obtain ⟨o, p, htag, -, hend⟩ := h
      exact ⟨htag.bounds.1, hend.bounds.1⟩
  | text content start =>
    have hbounds := Text.isBoundary_of_slice? h.2
    exact ⟨hbounds.1, hbounds.2.1⟩
  | interpolation content start =>
    obtain ⟨inner, hslice, -⟩ := h
    have hbounds := Text.isBoundary_of_slice? hslice
    exact ⟨hbounds.1, hbounds.2.1⟩
  | comment content start =>
    have hbounds := Text.isBoundary_of_slice? h
    exact ⟨hbounds.1, hbounds.2.1⟩

/-- A node behind a stretch that ends where the node starts. -/
theorem Tiles.add {nodes : List Node} {node : Node} (h : Tiles source o node.start nodes)
    (hnode : Node.Spans source p node) : Tiles source o p (nodes ++ [node]) := by
  obtain ⟨hstart, hstop⟩ := hnode.isBoundary
  -- the empty stretches on both sides of the node
  have hone : Tiles source node.start p [node] := ⟨.nil hstart, p, hnode, .nil hstop⟩
  exact h.append hone

/-! ## §3. Offsets -/

/-- The offsets that a start tag keeps. -/
def OpenTag.offsets (tag : OpenTag) : List Nat :=
  tag.start :: tag.nameEnd :: tag.entries.map Entry.start

mutual

/-- The offsets that a node keeps. -/
def Node.offsets : Node → List Nat
  | .element tag children stop => tag.offsets ++ (offsetsOf children ++ [stop])
  | .text _ start | .interpolation _ start | .comment _ start => [start]

/-- The offsets that some nodes keep. -/
def offsetsOf : List Node → List Nat
  | [] => []
  | node :: rest => node.offsets ++ offsetsOf rest

end

/-- The offsets that a block keeps. -/
def Block.offsets (block : Block) : List Nat :=
  block.contentStart :: (offsetsOf block.children ++ [block.contentEnd])

/-- Offsets between two others are boundaries of the source and in order. -/
structure Ordered (source : List Char) (o p : Nat) (offsets : List Nat) : Prop where
  le : o ≤ p
  isBoundary : ∀ x ∈ offsets, IsBoundary source x
  between : ∀ x ∈ offsets, o ≤ x ∧ x ≤ p
  order : offsets.Pairwise (· ≤ ·)

theorem Ordered.nil (h : o ≤ p) : Ordered source o p [] where
  le := h
  isBoundary := by simp
  between := by simp
  order := .nil

theorem Ordered.append {a b : List Nat} (h : Ordered source o p a) (h' : Ordered source p stop b) :
    Ordered source o stop (a ++ b) where
  le := Nat.le_trans h.le h'.le
  isBoundary := by
    intro x hx
    rcases List.mem_append.1 hx with hx | hx
    · exact h.isBoundary x hx
    · exact h'.isBoundary x hx
  between := by
    intro x hx
    have hle := h.le
    have hle' := h'.le
    rcases List.mem_append.1 hx with hx | hx
    · have := h.between x hx
      omega
    · have := h'.between x hx
      omega
  order := by
    refine List.pairwise_append.2 ⟨h.order, h'.order, ?_⟩
    intro x hx y hy
    exact Nat.le_trans (h.between x hx).2 (h'.between y hy).1

theorem Ordered.one {x : Nat} (hx : IsBoundary source x) (ho : o ≤ x) (hp : x ≤ p) :
    Ordered source o p [x] where
  le := Nat.le_trans ho hp
  isBoundary := by simpa using hx
  between := by simpa using ⟨ho, hp⟩
  order := List.pairwise_singleton _ _

theorem Ordered.mono {offsets : List Nat} (h : Ordered source o p offsets) (ho : stop ≤ o) :
    Ordered source stop p offsets where
  le := Nat.le_trans ho h.le
  isBoundary := h.isBoundary
  between := fun x hx => ⟨Nat.le_trans ho (h.between x hx).1, (h.between x hx).2⟩
  order := h.order

theorem OpenTag.Spans.offsets {tag : OpenTag} (h : tag.Spans source stop) :
    Ordered source tag.start stop tag.offsets := by
  obtain ⟨hstart, hend, -, hlt, hlt'⟩ := h.bounds
  have hentries : Ordered source tag.nameEnd stop (tag.entries.map Entry.start) := by
    refine ⟨Nat.le_of_lt hlt', ?_, ?_, ?_⟩
    · intro x hx
      obtain ⟨e, he, rfl⟩ := List.mem_map.1 hx
      obtain ⟨-, p, hslice, -⟩ := h.entry e he
      exact (Text.isBoundary_of_slice? hslice).1
    · intro x hx
      obtain ⟨e, he, rfl⟩ := List.mem_map.1 hx
      obtain ⟨hbehind, p, hslice, hp⟩ := h.entry e he
      have hsize := (Text.isBoundary_of_slice? hslice).2.2
      omega
    · exact List.pairwise_map.2 (h.order.imp Nat.le_of_lt)
  have hone : Ordered source tag.start tag.nameEnd [tag.start] :=
    .one hstart (Nat.le_refl _) (Nat.le_of_lt hlt)
  have htwo : Ordered source tag.nameEnd tag.nameEnd [tag.nameEnd] :=
    .one hend (Nat.le_refl _) (Nat.le_refl _)
  exact hone.append (htwo.append hentries)

mutual

/-- The offsets of a node that stands in the source are boundaries, between its ends and
    in order. -/
theorem Node.Spans.offsets : ∀ (node : Node) {stop : Nat}, Node.Spans source stop node →
    Ordered source node.start stop node.offsets
  | .element tag children elementStop, stop, h => by
    obtain ⟨rfl, h⟩ := h
    split at h
    · obtain ⟨rfl, htag⟩ := h
      have hstop : Ordered source elementStop elementStop [elementStop] :=
        .one htag.bounds.2.2.1 (Nat.le_refl _) (Nat.le_refl _)
      exact htag.offsets.append hstop
    · obtain ⟨o, p, htag, hchildren, hend⟩ := h
      obtain ⟨hstop, hlt⟩ := hend.bounds
      have hlast : Ordered source p elementStop [elementStop] :=
        .one hstop (Nat.le_of_lt hlt) (Nat.le_refl _)
      exact htag.offsets.append ((Tiles.offsets children hchildren).append hlast)
  | .text content start, stop, h => by
    obtain ⟨hb, -, hsize⟩ := Text.isBoundary_of_slice? h.2
    exact .one hb (Nat.le_refl _) (by omega)
  | .interpolation content start, stop, h => by
    obtain ⟨inner, hslice, -⟩ := h
    obtain ⟨hb, -, hsize⟩ := Text.isBoundary_of_slice? hslice
    exact .one hb (Nat.le_refl _) (by omega)
  | .comment content start, stop, h => by
    obtain ⟨hb, -, hsize⟩ := Text.isBoundary_of_slice? h
    exact .one hb (Nat.le_refl _) (by omega)

/-- The offsets of nodes that tile a stretch of the source. -/
theorem Tiles.offsets : ∀ (nodes : List Node) {o stop : Nat}, Tiles source o stop nodes →
    Ordered source o stop (offsetsOf nodes)
  | [], o, stop, h => by
    have hdecl : Declarations source o stop := h
    exact .nil hdecl.le
  | node :: rest, o, stop, h => by
    obtain ⟨hdecl, p, hnode, hrest⟩ := h
    exact ((Node.Spans.offsets node hnode).mono hdecl.le).append (Tiles.offsets rest hrest)

end

end Provenance.Template
