import Provenance.Template.Basic

/-! # Walks over elements

  An element of a tree has an address: the number of a node among the nodes of the tree, and
  on from there the number of a child at each step (`elementAt?`).  The addresses are
  ordered as words are, which is the order in which the start tags stand in a text.

  A list of start tags is a walk over a tree if it has the tag at each address once, in that
  order (`IsWalk`).  Addresses are counted and not tags, so that a tag which stands at two
  places is to be met twice.

  Main statement: `openTagsOf_isWalk`.
-/

namespace Provenance.Template

/-! ## §1. Addresses -/

/-- The start tag at an address inside of a node; the node itself has the empty address. -/
def Node.elementAt? : Node → List Nat → Option OpenTag
  | .element tag _ _, [] => some tag
  | .element _ children _, n :: address =>
    match children[n]? with
    | some child => child.elementAt? address
    | none => none
  | .text _ _, _ | .interpolation _ _, _ | .comment _ _, _ => none

/-- The start tag at an address among some nodes. -/
def elementAt? (nodes : List Node) : List Nat → Option OpenTag
  | [] => none
  | n :: address =>
    match nodes[n]? with
    | some node => node.elementAt? address
    | none => none

/-- Tags in the order of their addresses: each address at which there is a tag comes once,
    and the tag there stands in its place. -/
def IsWalk (at? : List Nat → Option OpenTag) (tags : List OpenTag) : Prop :=
  ∃ addresses : List (List Nat), addresses.Pairwise (· < ·) ∧
    (∀ address, address ∈ addresses ↔ (at? address).isSome = true) ∧
    addresses.map at? = tags.map some

theorem exists_cons_of_elementAt? {nodes : List Node} {address : List Nat}
    (h : (elementAt? nodes address).isSome = true) : ∃ n rest, address = n :: rest := by
  cases address with
  | nil => cases h
  | cons n rest => exact ⟨n, rest, rfl⟩

/-- The address of the same element where one more node stands in front. -/
def moveOn : List Nat → List Nat
  | [] => []
  | n :: address => (n + 1) :: address

theorem moveOn_lt {a b : List Nat} (h : a < b) : moveOn a < moveOn b := by
  cases a with
  | nil =>
    cases b with
    | nil => exact h
    | cons n b => exact List.nil_lt_cons _ _
  | cons m a =>
    cases b with
    | nil => cases h
    | cons n b =>
      rcases List.cons_lt_cons_iff.1 h with hlt | ⟨rfl, hlt⟩
      · exact List.cons_lt_cons_iff.2 (.inl (Nat.succ_lt_succ hlt))
      · exact List.cons_lt_cons_iff.2 (.inr ⟨rfl, hlt⟩)

/-! ## §2. Walks -/

/-- An element comes in front of the elements inside of it. -/
theorem IsWalk.element {tag : OpenTag} {children : List Node} {stop : Nat}
    {tags : List OpenTag} (h : IsWalk (elementAt? children) tags) :
    IsWalk (Node.element tag children stop).elementAt? (tag :: tags) := by
  obtain ⟨addresses, horder, hmem, hmap⟩ := h
  have hcons : ∀ address ∈ addresses, ∃ n rest, address = n :: rest := by
    intro address hin
    exact exists_cons_of_elementAt? ((hmem address).1 hin)
  refine ⟨[] :: addresses, ?_, ?_, ?_⟩
  · apply List.pairwise_cons.2
    refine ⟨?_, horder⟩
    intro address hin
    obtain ⟨n, rest, rfl⟩ := hcons address hin
    exact List.nil_lt_cons _ _
  · intro address
    cases address with
    | nil => simp [Node.elementAt?]
    | cons n rest => simpa [Node.elementAt?, elementAt?] using hmem (n :: rest)
  · rw [List.map_cons, List.map_cons, ← hmap]
    congr 1
    apply List.map_congr_left
    intro address hin
    obtain ⟨n, rest, rfl⟩ := hcons address hin
    rfl

/-- The elements of a node come in front of those of the nodes behind it. -/
theorem IsWalk.append {node : Node} {rest : List Node} {front rear : List OpenTag}
    (hnode : IsWalk node.elementAt? front) (hrest : IsWalk (elementAt? rest) rear) :
    IsWalk (elementAt? (node :: rest)) (front ++ rear) := by
  obtain ⟨inside, hinsideOrder, hinside, hinsideMap⟩ := hnode
  obtain ⟨behind, hbehindOrder, hbehind, hbehindMap⟩ := hrest
  have hcons : ∀ b ∈ behind, ∃ n r, b = n :: r := by
    intro b hb
    exact exists_cons_of_elementAt? ((hbehind b).1 hb)
  refine ⟨inside.map (0 :: ·) ++ behind.map moveOn, ?_, ?_, ?_⟩
  · apply List.pairwise_append.2
    refine ⟨?_, ?_, ?_⟩
    · apply List.pairwise_map.2
      exact hinsideOrder.imp fun h => List.cons_lt_cons_iff.2 (.inr ⟨rfl, h⟩)
    · apply List.pairwise_map.2
      exact hbehindOrder.imp moveOn_lt
    · -- the first node has the number 0, and every other one a later number
      intro a ha b hb
      obtain ⟨a, -, rfl⟩ := List.mem_map.1 ha
      obtain ⟨c, hc, rfl⟩ := List.mem_map.1 hb
      obtain ⟨n, r, rfl⟩ := hcons c hc
      exact List.cons_lt_cons_iff.2 (.inl (Nat.succ_pos n))
  · intro address
    rw [List.mem_append, List.mem_map, List.mem_map]
    constructor
    · intro h
      rcases h with ⟨a, ha, rfl⟩ | ⟨b, hb, rfl⟩
      · exact (hinside a).1 ha
      · obtain ⟨n, r, rfl⟩ := hcons b hb
        exact (hbehind (n :: r)).1 hb
    · intro hsome
      cases address with
      | nil => cases hsome
      | cons n address =>
        cases n with
        | zero => exact .inl ⟨address, (hinside address).2 hsome, rfl⟩
        | succ n => exact .inr ⟨n :: address, (hbehind (n :: address)).2 hsome, rfl⟩
  · rw [List.map_append, List.map_append, List.map_map, List.map_map, ← hinsideMap, ← hbehindMap]
    congr 1
    apply List.map_congr_left
    intro b hb
    obtain ⟨n, r, rfl⟩ := hcons b hb
    rfl

mutual

theorem Node.openTags_isWalk : ∀ node : Node, IsWalk node.elementAt? node.openTags
  | .element _ children _ => (openTagsOf_isWalk children).element
  | .text _ _ | .interpolation _ _ | .comment _ _ => by
    refine ⟨[], .nil, ?_, rfl⟩
    intro address
    simp [Node.elementAt?]

/-- The start tags of a tree are a walk over its elements: each of them comes once. -/
theorem openTagsOf_isWalk : ∀ nodes : List Node, IsWalk (elementAt? nodes) (openTagsOf nodes)
  | [] => by
    refine ⟨[], .nil, ?_, rfl⟩
    intro address
    cases address <;> simp [elementAt?]
  | node :: rest => (node.openTags_isWalk).append (openTagsOf_isWalk rest)

end

end Provenance.Template
