import Provenance.Annotation.Markup
import Mathlib.Data.Set.Card

/-! # Annotated trees

  What annotating does to a syntax tree, told by addresses: the node at an address
  keeps its span, its form and its parts, and an opening tag that is to be marked
  has the attributes of its marker behind them (`Tree.at?_annotated`).  What is added
  holds no opening tag, so the opening tags of an annotated tree are those of the
  tree, each annotated (`Tree.openingTags_annotated`), and none of them is to be
  marked again.

  Main statement: `annotated_effect`.
-/

namespace Provenance.Script

/-! ## §1. Which opening tags are marked -/

/-- The name of an attribute; a spread has none. -/
def attributeName? : Tree → Option String
  | .node _ .markupAttribute [name, _] => some (nameText name)
  | _ => none

/-- The names of the attributes of an opening tag. -/
def OpeningTag.attributeNames (tag : OpeningTag) : List String :=
  tag.attributes.filterMap attributeName?

/-- An element is to be marked: its tag belongs to no foreign runtime, and no
    attribute of it is the one that identifies elements. -/
def OpeningTag.Unmarked (options : TransformOptions) (tag : OpeningTag) : Prop :=
  Tag.classify tag.name ≠ .foreignSkip ∧
    options.attributePrefix ++ "-id" ∉ tag.attributeNames

instance (options : TransformOptions) : DecidablePred (OpeningTag.Unmarked options) := fun _ =>
  inferInstanceAs (Decidable (_ ∧ _))

/-- The marker that an element gets. -/
def OpeningTag.marker (context : FileContext) (tag : OpeningTag) : Marker :=
  .synthesize context.identity (context.lines.position tag.start) tag.name
    (snapshot tag.attributes) context.options

/-- The attributes that an element gets. -/
def OpeningTag.added (context : FileContext) (tag : OpeningTag) : List Tree :=
  if tag.Unmarked context.options then (tag.marker context).entries.map newAttribute else []

theorem hasName_iff {name : String} {tree : Tree} :
    hasName name tree = true ↔ attributeName? tree = some name := by
  unfold hasName attributeName?
  split
  · simp
  · simp

theorem OpeningTag.any_hasName_iff {name : String} {tag : OpeningTag} :
    tag.attributes.any (hasName name) = true ↔ name ∈ tag.attributeNames := by
  simp only [List.any_eq_true, hasName_iff, attributeNames, List.mem_filterMap]

/-- An element is marked if no foreign runtime owns its tag and it is not identified. -/
theorem decide_eq_mark_iff {context : FileContext} {tag : String} {isIdentified : Bool}
    {offset : Nat} {props : PropertyMap} {verdict : Tag.Verdict} {marker : Marker} :
    context.decide tag isIdentified offset props = .mark verdict marker ↔
      Tag.classify tag ≠ .foreignSkip ∧ isIdentified = false ∧ Tag.classify tag = verdict ∧
        .synthesize context.identity (context.lines.position offset) tag props context.options =
          marker := by
  unfold FileContext.decide
  cases hclass : Tag.classify tag <;> cases isIdentified <;> simp [Tag.Verdict.isAnnotatable]

theorem OpeningTag.decide_eq_mark_iff {context : FileContext} {tag : OpeningTag}
    {verdict : Tag.Verdict} {marker : Marker} :
    tag.decide context = .mark verdict marker ↔ tag.Unmarked context.options ∧
      Tag.classify tag.name = verdict ∧ tag.marker context = marker := by
  rw [OpeningTag.decide, Script.decide_eq_mark_iff, ← Bool.not_eq_true, any_hasName_iff,
    ← and_assoc]
  rfl

theorem OpeningTag.addedAttributes_decide (context : FileContext) (tag : OpeningTag) :
    addedAttributes (tag.decide context) = tag.added context := by
  unfold added
  by_cases h : tag.Unmarked context.options
  · rw [if_pos h, decide_eq_mark_iff.2 ⟨h, rfl, rfl⟩]
    rfl
  · rw [if_neg h]
    cases hdecide : tag.decide context with
    | skip verdict => rfl
    | keep => rfl
    | mark verdict marker => exact absurd (decide_eq_mark_iff.1 hdecide).1 h

theorem OpeningTag.added_ne_nil_iff {context : FileContext} {tag : OpeningTag} :
    tag.added context ≠ [] ↔ tag.Unmarked context.options := by
  unfold added
  split
  · next h => simp [h, Marker.entries]
  · next h => simp [h]

namespace Tree

/-! ## §2. Addresses -/

/-- The tree at an address: at each step, which part to go to. -/
def at? : Tree → List Nat → Option Tree
  | tree, [] => some tree
  | node _ _ parts, n :: address =>
    match parts[n]? with
    | some part => part.at? address
    | none => none

/-- The opening tag that a tree is. -/
def openingTag? : Tree → Option OpeningTag
  | node span form parts => OpeningTag.of? span form parts

/-- An opening tag that is to be marked stands at an address. -/
def MarkedAt (options : TransformOptions) (tree : Tree) (address : List Nat) : Prop :=
  ∃ tag ∈ (tree.at? address).bind openingTag?, tag.Unmarked options

instance (options : TransformOptions) (tree : Tree) : DecidablePred (tree.MarkedAt options) :=
  fun _ => inferInstanceAs (Decidable (∃ tag ∈ _, _))

mutual

/-- All addresses in a tree, each before those that go on from it. -/
def addresses : Tree → List (List Nat)
  | node _ _ parts => [] :: addressesFrom 0 parts

/-- All addresses in parts, of which the first has a number. -/
def addressesFrom (n : Nat) : List Tree → List (List Nat)
  | [] => []
  | part :: rest => (addresses part).map (n :: ·) ++ addressesFrom (n + 1) rest

end

mutual

/-- An address is listed if and only if a tree is there. -/
theorem mem_addresses : ∀ {tree : Tree} {address : List Nat},
    address ∈ tree.addresses ↔ ∃ u, tree.at? address = some u
  | node span form parts, [] => by simp [addresses, at?]
  | node span form parts, n :: address => by
    rw [addresses, List.mem_cons, mem_addressesFrom]
    constructor
    · rintro (h | ⟨k, rest, part, u, heq, hpart, hu⟩)
      · cases h
      · cases heq
        exact ⟨u, by rw [at?, Nat.zero_add, hpart]; exact hu⟩
    · rintro ⟨u, hu⟩
      rw [at?] at hu
      split at hu
      · next part hpart => exact .inr ⟨n, address, part, u, by rw [Nat.zero_add], hpart, hu⟩
      · cases hu

theorem mem_addressesFrom : ∀ {n : Nat} {parts : List Tree} {address : List Nat},
    address ∈ addressesFrom n parts ↔
      ∃ k rest part u, address = (n + k) :: rest ∧ parts[k]? = some part ∧ part.at? rest = some u
  | n, [], address => by simp [addressesFrom]
  | n, part :: parts, address => by
    rw [addressesFrom, List.mem_append, List.mem_map, mem_addressesFrom]
    constructor
    · rintro (⟨rest, hrest, rfl⟩ | ⟨k, rest, p, u, rfl, hp, hu⟩)
      · obtain ⟨u, hu⟩ := mem_addresses.1 hrest
        exact ⟨0, rest, part, u, rfl, rfl, hu⟩
      · exact ⟨k + 1, rest, p, u, by rw [Nat.add_right_comm, Nat.add_assoc], hp, hu⟩
    · rintro ⟨k, rest, p, u, rfl, hp, hu⟩
      cases k with
      | zero =>
        cases hp
        exact .inl ⟨rest, mem_addresses.2 ⟨u, hu⟩, rfl⟩
      | succ k =>
        exact .inr ⟨k, rest, p, u, by rw [Nat.add_right_comm, Nat.add_assoc], hp, hu⟩

end

mutual

theorem nodup_addresses : ∀ tree : Tree, tree.addresses.Nodup
  | node span form parts => by
    rw [addresses, List.nodup_cons]
    refine ⟨fun h => ?_, nodup_addressesFrom 0 parts⟩
    obtain ⟨k, rest, part, u, heq, -⟩ := mem_addressesFrom.1 h
    cases heq

theorem nodup_addressesFrom : ∀ (n : Nat) (parts : List Tree), (addressesFrom n parts).Nodup
  | n, [] => List.nodup_nil
  | n, part :: parts => by
    rw [addressesFrom, List.nodup_append]
    refine ⟨?_, nodup_addressesFrom (n + 1) parts, ?_⟩
    · exact (nodup_addresses part).map fun a b h => List.tail_eq_of_cons_eq h
    · -- those of the first part begin with its number, all others with a later one
      intro a ha b hb hab
      obtain ⟨rest, -, rfl⟩ := List.mem_map.1 ha
      obtain ⟨k, rest', p, u, rfl, -⟩ := mem_addressesFrom.1 hb
      have hn := List.head_eq_of_cons_eq hab
      omega

end

mutual

/-- The walk over a tree meets the opening tag at each address once. -/
theorem openingTags_eq_filterMap : ∀ tree : Tree,
    tree.openingTags = tree.addresses.filterMap fun a => (tree.at? a).bind openingTag?
  | node span form parts => by
    rw [openingTags, addresses, openingTagsOf_eq_filterMap span form [] parts]
    cases htag : OpeningTag.of? span form parts with
    | none => simp [at?, openingTag?, htag]
    | some tag => simp [at?, openingTag?, htag]

theorem openingTagsOf_eq_filterMap (span : Span) (form : Form) : ∀ before parts : List Tree,
    openingTagsOf parts = (addressesFrom before.length parts).filterMap fun a =>
      ((node span form (before ++ parts)).at? a).bind openingTag?
  | before, [] => rfl
  | before, part :: parts => by
    rw [openingTagsOf, addressesFrom, List.filterMap_append, List.filterMap_map,
      openingTags_eq_filterMap part, openingTagsOf_eq_filterMap span form (before ++ [part]) parts]
    congr 1
    · apply List.filterMap_congr
      intro a _
      simp [at?]
    · simp

end

end Tree

/-! ## §3. Annotated trees -/

section Annotated

variable (context : FileContext)

theorem withAttributesOf_eq_map (more : OpeningTag → List Tree) (parts : List Tree) :
    Tree.withAttributesOf more parts = parts.map (Tree.withAttributes more) := by
  induction parts with
  | nil => rfl
  | cons part parts ih => rw [Tree.withAttributesOf, ih, List.map_cons]

/-- The parts of an annotated node are annotated, and its own attributes follow. -/
theorem Tree.annotated_node (span : Span) (form : Form) (parts : List Tree) :
    (Tree.node span form parts).annotated context =
      .node span form (parts.map (Tree.annotated context) ++
        ((OpeningTag.of? span form parts).map (OpeningTag.added context)).getD []) := by
  have hadded : (fun tag : OpeningTag => addedAttributes (tag.decide context)) =
      OpeningTag.added context :=
    funext (OpeningTag.addedAttributes_decide context)
  unfold Tree.annotated
  rw [Tree.withAttributes, withAttributesOf_eq_map, hadded]

/-- Annotating keeps every address and annotates what is there. -/
theorem Tree.at?_annotated {tree u : Tree} {address : List Nat}
    (h : tree.at? address = some u) :
    (tree.annotated context).at? address = some (u.annotated context) := by
  induction address generalizing tree with
  | nil =>
    rw [at?] at h
    rw [at?, Option.some.inj h]
  | cons n address ih =>
    obtain ⟨span, form, parts⟩ := tree
    rw [at?] at h
    split at h
    · next part hpart =>
      have hlt : n < parts.length := (List.getElem?_eq_some_iff.1 hpart).1
      rw [annotated_node, at?, List.getElem?_append_left (by simpa using hlt), List.getElem?_map,
        hpart]
      exact ih h
    · cases h

/-- Nothing is added to a node that is no opening tag, so it has as many parts as before. -/
theorem Tree.pair_of_annotated {span : Span} {form : Form} {parts : List Tree} {a b : Tree}
    (htag : OpeningTag.of? span form parts = none)
    (h : parts.map (Tree.annotated context) ++
      ((OpeningTag.of? span form parts).map (OpeningTag.added context)).getD [] = [a, b]) :
    ∃ c d, parts = [c, d] := by
  rw [htag, Option.map_none, Option.getD_none, List.append_nil] at h
  obtain ⟨c, _, rfl, -, h⟩ := List.map_eq_cons_iff.1 h
  obtain ⟨d, _, rfl, -, h⟩ := List.map_eq_cons_iff.1 h
  exact ⟨c, d, by rw [List.map_eq_nil_iff.1 h]⟩

theorem nameText_annotated (tree : Tree) : nameText (tree.annotated context) = nameText tree := by
  fun_induction nameText tree with
  | case1 span text parts => simp [Tree.annotated_node, nameText]
  | case2 span scope name ihscope ihname =>
    simp [Tree.annotated_node, OpeningTag.of?, nameText, ihscope, ihname]
  | case3 span object property ihobject ihproperty =>
    simp [Tree.annotated_node, OpeningTag.of?, nameText, ihobject, ihproperty]
  | case4 tree hname hscoped hmember =>
    obtain ⟨span, form, parts⟩ := tree
    rw [Tree.annotated_node]
    unfold nameText
    -- a name in two parts would have been one before
    split
    · next heq =>
      cases heq
      exact absurd rfl (hname _ _ _)
    · next heq =>
      simp only [Tree.node.injEq] at heq
      obtain ⟨-, rfl, hparts⟩ := heq
      obtain ⟨_, _, rfl⟩ := Tree.pair_of_annotated context (by simp [OpeningTag.of?]) hparts
      exact absurd rfl (hscoped _ _ _)
    · next heq =>
      simp only [Tree.node.injEq] at heq
      obtain ⟨-, rfl, hparts⟩ := heq
      obtain ⟨_, _, rfl⟩ := Tree.pair_of_annotated context (by simp [OpeningTag.of?]) hparts
      exact absurd rfl (hmember _ _ _)
    · rfl

theorem attributeName?_annotated (tree : Tree) :
    attributeName? (tree.annotated context) = attributeName? tree := by
  fun_cases attributeName? tree with
  | case1 span name value =>
    simp [Tree.annotated_node, OpeningTag.of?, attributeName?, nameText_annotated]
  | case2 tree hnode =>
    obtain ⟨span, form, parts⟩ := tree
    rw [Tree.annotated_node]
    unfold attributeName?
    split
    · next heq =>
      simp only [Tree.node.injEq] at heq
      obtain ⟨-, rfl, hparts⟩ := heq
      obtain ⟨_, _, rfl⟩ := Tree.pair_of_annotated context (by simp [OpeningTag.of?]) hparts
      exact absurd rfl (hnode _ _ _)
    · rfl

/-- An opening tag with annotated attributes and those that are added. -/
def OpeningTag.annotated (tag : OpeningTag) : OpeningTag :=
  { tag with attributes := tag.attributes.map (Tree.annotated context) ++ tag.added context }

theorem OpeningTag.of?_annotated (span : Span) (form : Form) (parts : List Tree) :
    OpeningTag.of? span form (parts.map (Tree.annotated context) ++
        ((OpeningTag.of? span form parts).map (OpeningTag.added context)).getD []) =
      (OpeningTag.of? span form parts).map (OpeningTag.annotated context) := by
  fun_cases OpeningTag.of? span form parts with
  | case1 isSelfClosing name arguments attributes =>
    simp [OpeningTag.of?, OpeningTag.annotated, nameText_annotated]
  | case2 hform =>
    unfold OpeningTag.of?
    split
    · next name arguments attributes hparts hform =>
      simp only [Option.map_none, Option.getD_none, List.append_nil,
        List.map_eq_cons_iff] at hparts
      obtain ⟨_, _, rfl, -, _, _, rfl, -, -⟩ := hparts
      exact absurd rfl (hform _ _ _ _ rfl)
    · rfl

theorem Tree.openingTagsOf_append (front rear : List Tree) :
    openingTagsOf (front ++ rear) = openingTagsOf front ++ openingTagsOf rear := by
  induction front with
  | nil => rfl
  | cons part front ih => rw [List.cons_append, openingTagsOf, ih, openingTagsOf, List.append_assoc]

/-- No opening tag stands in what is added. -/
theorem OpeningTag.openingTagsOf_added (tag : OpeningTag) :
    Tree.openingTagsOf (tag.added context) = [] := by
  have hnew : ∀ entries : List (String × String),
      Tree.openingTagsOf (entries.map newAttribute) = [] := by
    intro entries
    induction entries with
    | nil => rfl
    | cons e entries ih =>
      rw [List.map_cons, Tree.openingTagsOf, ih]
      simp [newAttribute, Tree.openingTags, Tree.openingTagsOf, OpeningTag.of?]
  unfold added
  split
  · exact hnew _
  · rfl

namespace Tree

mutual

/-- The opening tags of an annotated tree are those of the tree, each annotated. -/
theorem openingTags_annotated : ∀ tree : Tree,
    (tree.annotated context).openingTags = tree.openingTags.map (OpeningTag.annotated context)
  | node span form parts => by
    have hadded : openingTagsOf
        (((OpeningTag.of? span form parts).map (OpeningTag.added context)).getD []) = [] := by
      cases OpeningTag.of? span form parts with
      | none => rfl
      | some tag => exact tag.openingTagsOf_added context
    rw [annotated_node, openingTags, openingTags, OpeningTag.of?_annotated, openingTagsOf_append,
      hadded, List.append_nil, openingTagsOf_annotated parts, List.map_append]
    cases OpeningTag.of? span form parts <;> rfl

theorem openingTagsOf_annotated : ∀ parts : List Tree,
    openingTagsOf (parts.map (annotated context)) =
      (openingTagsOf parts).map (OpeningTag.annotated context)
  | [] => rfl
  | part :: parts => by
    rw [List.map_cons, openingTagsOf, openingTagsOf, openingTags_annotated part,
      openingTagsOf_annotated parts, List.map_append]

end

mutual

/-- A tree without an opening tag that is to be marked stays as it is. -/
theorem annotated_eq_self : ∀ {tree : Tree},
    (∀ tag ∈ tree.openingTags, ¬ tag.Unmarked context.options) → tree.annotated context = tree
  | node span form parts, h => by
    rw [openingTags] at h
    have hparts := map_annotated_eq_self fun tag htag => h tag (List.mem_append_right _ htag)
    rw [annotated_node, hparts]
    cases htag : OpeningTag.of? span form parts with
    | none => simp
    | some tag =>
      have hnot : ¬ tag.Unmarked context.options := h tag (by simp [htag])
      simp [OpeningTag.added, hnot]

theorem map_annotated_eq_self : ∀ {parts : List Tree},
    (∀ tag ∈ openingTagsOf parts, ¬ tag.Unmarked context.options) →
      parts.map (annotated context) = parts
  | [], _ => rfl
  | part :: parts, h => by
    rw [openingTagsOf] at h
    rw [List.map_cons, annotated_eq_self fun tag htag => h tag (List.mem_append_left _ htag),
      map_annotated_eq_self fun tag htag => h tag (List.mem_append_right _ htag)]

end

end Tree

/-! ## §4. Effect -/

theorem attributeName?_newAttribute (e : String × String) :
    attributeName? (newAttribute e) = some e.1 := by
  simp [newAttribute, attributeName?, nameText]

theorem OpeningTag.attributeNames_annotated (tag : OpeningTag) :
    (tag.annotated context).attributeNames = tag.attributeNames ++
      (tag.added context).filterMap attributeName? := by
  rw [attributeNames, annotated, List.filterMap_append, List.filterMap_map]
  congr 1
  apply List.filterMap_congr
  intro t _
  exact attributeName?_annotated context t

/-- Once annotated, an element is identified. -/
theorem OpeningTag.not_unmarked_annotated (tag : OpeningTag) :
    ¬ (tag.annotated context).Unmarked context.options := by
  rintro ⟨hclass, hid⟩
  rw [attributeNames_annotated, List.mem_append, not_or] at hid
  have hunmarked : tag.Unmarked context.options := ⟨hclass, hid.1⟩
  apply hid.2
  rw [added, if_pos hunmarked, List.filterMap_map, List.mem_filterMap]
  exact ⟨_, List.mem_cons_self, attributeName?_newAttribute _⟩

theorem Tree.markedCount_eq_countP (tree : Tree) :
    tree.markedCount context = tree.openingTags.countP fun tag => tag.Unmarked context.options := by
  unfold markedCount
  apply List.countP_congr
  intro tag _
  rw [OpeningTag.addedAttributes_decide, Bool.not_eq_true', decide_eq_true_eq,
    ← OpeningTag.added_ne_nil_iff, List.isEmpty_eq_false_iff]

/-- The count of marked elements is that of the addresses at which one stands. -/
theorem Tree.markedCount_eq_ncard (tree : Tree) :
    tree.markedCount context = {address | tree.MarkedAt context.options address}.ncard := by
  have hset : {address | tree.MarkedAt context.options address} =
      ↑(tree.addresses.filter fun address => tree.MarkedAt context.options address).toFinset := by
    ext address
    simp only [Set.mem_ofPred_eq, List.coe_toFinset, List.mem_filter, mem_addresses,
      decide_eq_true_eq]
    constructor
    · rintro ⟨tag, htag, hunmarked⟩
      obtain ⟨u, hu, -⟩ := Option.bind_eq_some_iff.1 htag
      exact ⟨⟨u, hu⟩, tag, htag, hunmarked⟩
    · exact And.right
  rw [markedCount_eq_countP, openingTags_eq_filterMap, List.countP_filterMap, hset,
    Set.ncard_coe_finset, List.toFinset_card_of_nodup (tree.nodup_addresses.filter _),
    List.countP_eq_length_filter]
  congr 2
  funext address
  rw [Bool.eq_iff_iff, decide_eq_true_iff, MarkedAt]
  cases (tree.at? address).bind openingTag? <;> simp

/-- Annotating a tree keeps every node at its address with its span and form.  An
    opening tag that is to be marked has the attributes of its marker behind its
    parts, no other node has new parts, and annotating once more does nothing. -/
theorem annotated_effect (tree : Tree) :
    (∀ address u, tree.at? address = some u →
      ∃ kept added, (tree.annotated context).at? address =
          some (.node u.span u.form (kept ++ added)) ∧
        kept.length = u.parts.length ∧
        (added ≠ [] ↔ tree.MarkedAt context.options address) ∧
        ∀ tag ∈ u.openingTag?, added ≠ [] →
          added = (tag.marker context).entries.map newAttribute) ∧
    tree.markedCount context = {address | tree.MarkedAt context.options address}.ncard ∧
    ∀ again : FileContext, again.options = context.options →
      (tree.annotated context).annotated again = tree.annotated context ∧
        (tree.annotated context).markedCount again = 0 := by
  have hnone : ∀ tag ∈ (tree.annotated context).openingTags, ¬ tag.Unmarked context.options := by
    intro tag htag
    rw [Tree.openingTags_annotated] at htag
    obtain ⟨original, -, rfl⟩ := List.mem_map.1 htag
    exact original.not_unmarked_annotated context
  refine ⟨fun address u h => ?_, tree.markedCount_eq_ncard context, fun again hoptions => ?_⟩
  · obtain ⟨span, form, parts⟩ := u
    have hat := Tree.at?_annotated context h
    rw [Tree.annotated_node] at hat
    refine ⟨_, _, hat, List.length_map _, ?_, ?_⟩
    · unfold Tree.MarkedAt
      rw [h, Option.bind_some, Tree.openingTag?]
      cases OpeningTag.of? span form parts with
      | none => simp
      | some tag => simp [OpeningTag.added_ne_nil_iff]
    · intro tag htag hadded
      have htag : OpeningTag.of? span form parts = some tag := htag
      rw [htag, Option.map_some, Option.getD_some] at hadded ⊢
      exact if_pos (OpeningTag.added_ne_nil_iff.1 hadded)
  · rw [← hoptions] at hnone
    refine ⟨Tree.annotated_eq_self again hnone, ?_⟩
    rw [Tree.markedCount_eq_countP, List.countP_eq_zero]
    intro tag htag
    simpa using hnone tag htag

end Annotated

/-- An element that is the value of an attribute is annotated where it stands. -/
theorem annotated_effect_nested :
    let context := FileContext.of "<p a={<b/>}/>".toList "a.jsx" {}
    let inner := Tree.node ⟨6, 10⟩ (.openingTag true) [.node ⟨7, 8⟩ (.markupName "b") [], .absent]
    let tree := Tree.node ⟨0, 13⟩ (.openingTag true)
      [.node ⟨1, 2⟩ (.markupName "p") [], .absent,
        .node ⟨3, 11⟩ .markupAttribute
          [.node ⟨3, 4⟩ (.markupName "a") [],
            .node ⟨5, 11⟩ .container [.node ⟨6, 10⟩ .element [inner]]]]
    tree.at? [2, 1, 0, 0] = some inner ∧
      ∃ kept added, (tree.annotated context).at? [2, 1, 0, 0] =
          some (.node ⟨6, 10⟩ (.openingTag true) (kept ++ added)) ∧
        kept.length = 2 ∧ added ≠ [] := by
  intro context inner tree
  obtain ⟨kept, added, hat, hlength, hmarked, -⟩ :=
    (annotated_effect context tree).1 [2, 1, 0, 0] inner rfl
  exact ⟨rfl, kept, added, hat, hlength, hmarked.2 ⟨_, rfl, by decide⟩⟩

end Provenance.Script
