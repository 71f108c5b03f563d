import Mathlib.Logic.Relation
import Provenance.Proofs.Snapshot.Dialects
import Provenance.Proofs.Snapshot.Settings

/-! # Values of expressions, one level deep

  What is recorded of an expression is a scalar, the name of its kind, or the members of
  one object or array.  A member is a scalar, a variable or the name of a kind
  (`PropValue.isMember`), so nothing is recorded of an object inside an object.  `OneLevel`
  says for each kind of value which expressions it is recorded of and what is in it.

  Parentheses do not count where the value of an expression is looked for: around the
  expression, around the value of a property and around an item.  `Wraps` is one pair of
  parentheses more at such a place, and the value stays what it was (`boundValue_of_wraps`).

  Main statement: `boundValue_one_level`.
-/

namespace Provenance

/-! ## §1. Members -/

/-- Whether a document is neither an array nor an object. -/
def Json.isScalar : Json → Bool
  | .null | .bool _ | .number _ | .string _ => true
  | .array _ | .object _ => false

/-- What may stand inside an object or an array: a scalar, a variable or the name of a kind. -/
def PropValue.isMember : PropValue → Bool
  | .literal value => value.isScalar
  | .variable _ | .expression _ => true
  | .object _ | .array _ | .spread => false

namespace Script

theorem isScalar_jsonOfNumber (value : Option Double) : (jsonOfNumber value).isScalar = true := by
  unfold jsonOfNumber
  split
  · rfl
  · split
    · split <;> rfl
    · rfl

theorem isScalar_of_scalar? {tree : Tree} {value : Json} (h : scalar? tree = some value) :
    value.isScalar = true := by
  unfold scalar? at h
  split at h
  · obtain rfl := Option.some.inj h
    rfl
  · obtain rfl := Option.some.inj h
    exact isScalar_jsonOfNumber _
  · obtain rfl := Option.some.inj h
    rfl
  · obtain rfl := Option.some.inj h
    rfl
  · obtain rfl := Option.some.inj h
    rfl
  · cases h

theorem isMember_nestedValue (tree : Tree) : (nestedValue tree).isMember = true := by
  unfold nestedValue
  cases h : scalar? tree.withoutParentheses with
  | some value =>
    simp only [h]
    exact isScalar_of_scalar? h
  | none =>
    simp only [h]
    split <;> rfl

theorem isMember_itemValue (tree : Tree) : (itemValue tree).isMember = true := by
  unfold itemValue
  split
  · rfl
  · rfl
  · exact isMember_nestedValue tree

/-- A property that is no method and no accessor, by a key that is not computed and its
    value. -/
inductive PlainProperty : Tree → String → Tree → Prop where
  | intro {span : Span} {isShorthand : Bool} {key value : Tree} {text : String}
    {rest : List Tree} (h : keyText? key = some text) :
    PlainProperty (.node span (.property .method false isShorthand false) (key :: value :: rest))
      text value

/-- Plain properties are those that add an entry. -/
theorem propertyEntry?_eq_some_iff {property : Tree} {entry : String × PropValue} :
    propertyEntry? property = some entry ↔
      ∃ value, PlainProperty property entry.1 value ∧ entry.2 = nestedValue value := by
  constructor
  · intro h
    unfold propertyEntry? at h
    split at h
    · obtain ⟨text, htext, rfl⟩ := Option.map_eq_some_iff.1 h
      exact ⟨_, .intro htext, rfl⟩
    · cases h
  · rintro ⟨value, ⟨hkey⟩, hvalue⟩
    unfold propertyEntry?
    simp only [hkey, Option.map_some, ← hvalue]

/-! ## §2. What is recorded of an expression -/

/-- A value that is recorded of an expression which is not in parentheses. -/
inductive OneLevel (tree : Tree) : PropValue → Prop where
  | literal {value : Json} (scalar : scalar? tree = some value)
    (isScalar : value.isScalar = true) : OneLevel tree (.literal value)
  /-- The keys are those of the plain properties, each once, and the value under a key is
      that of a property with this key. -/
  | object {entries : List (String × PropValue)} (form : tree.form = .object)
    (distinct : (entries.map (·.1)).Nodup)
    (keys : ∀ key, key ∈ entries.map (·.1) ↔
      ∃ property ∈ tree.parts, ∃ value, PlainProperty property key value)
    (values : ∀ entry ∈ entries, ∃ property ∈ tree.parts, ∃ value,
      PlainProperty property entry.1 value ∧ entry.2 = nestedValue value)
    (members : ∀ entry ∈ entries, entry.2.isMember = true) : OneLevel tree (.object entries)
  /-- The items are those of the expression, one for one. -/
  | array {items : List PropValue} (form : tree.form = .array)
    (length : items.length = tree.parts.length) (values : items = tree.parts.map itemValue)
    (members : ∀ item ∈ items, item.isMember = true) : OneLevel tree (.array items)
  | expression {kind : String} (scalar : scalar? tree = none) (object : tree.form ≠ .object)
    (array : tree.form ≠ .array) (name : kind = kindName tree) : OneLevel tree (.expression kind)

theorem oneLevel_object {tree : Tree} (hform : tree.form = .object) :
    OneLevel tree (PropertyMap.ofList (tree.parts.filterMap propertyEntry?)).toValue := by
  have hvalues : ∀ entry ∈ (PropertyMap.ofList (tree.parts.filterMap propertyEntry?)).entries,
      ∃ property ∈ tree.parts, ∃ value,
        PlainProperty property entry.1 value ∧ entry.2 = nestedValue value := by
    intro entry hentry
    obtain ⟨property, hproperty, hset⟩ :=
      List.mem_filterMap.1 (PropertyMap.mem_of_mem_ofList hentry)
    exact ⟨property, hproperty, propertyEntry?_eq_some_iff.1 hset⟩
  refine .object hform (PropertyMap.nodup_keys_ofList _) (fun key => ?_) hvalues fun entry hentry => ?_
  · -- a key is set by its plain properties, and by nothing else
    rw [PropertyMap.keys_ofList, List.mem_eraseDups, List.mem_map]
    constructor
    · rintro ⟨entry, hentry, rfl⟩
      obtain ⟨property, hproperty, hset⟩ := List.mem_filterMap.1 hentry
      obtain ⟨value, hplain, -⟩ := propertyEntry?_eq_some_iff.1 hset
      exact ⟨property, hproperty, value, hplain⟩
    · rintro ⟨property, hproperty, value, hplain⟩
      exact ⟨(key, nestedValue value), List.mem_filterMap.2
        ⟨property, hproperty, propertyEntry?_eq_some_iff.2 ⟨value, hplain, rfl⟩⟩, rfl⟩
  · obtain ⟨property, -, value, -, hvalue⟩ := hvalues entry hentry
    rw [hvalue]
    exact isMember_nestedValue value

theorem oneLevel_boundValue (tree : Tree) :
    OneLevel tree.withoutParentheses (boundValue tree) := by
  unfold boundValue
  cases hscalar : scalar? tree.withoutParentheses with
  | some value =>
    simp only [hscalar]
    exact .literal hscalar (isScalar_of_scalar? hscalar)
  | none =>
    simp only [hscalar]
    split
    · next hform => exact oneLevel_object hform
    · next hform =>
      refine .array hform (List.length_map _) rfl fun item hitem => ?_
      obtain ⟨part, -, rfl⟩ := List.mem_map.1 hitem
      exact isMember_itemValue part
    · next hobject harray => exact .expression hscalar hobject harray rfl

/-! ## §3. Parentheses -/

/-- A tree in parentheses. -/
def Tree.parenthesized (span : Span) (tree : Tree) : Tree := .node span .parenthesized [tree]

/-- One pair of parentheses more: around an expression, or around what it is made of if it is
    an object or an array.  The same expression may also stand at another place. -/
inductive Wraps : Tree → Tree → Prop where
  | around (span : Span) (tree : Tree) : Wraps tree (tree.parenthesized span)
  | inside (span : Span) {tree tree' : Tree} (h : Wraps tree tree') :
    Wraps (tree.parenthesized span) (tree'.parenthesized span)
  /-- Around the value of a property. -/
  | property (objectSpan propertySpan span : Span) (kind : MethodKind)
    (isMethod isShorthand isComputed : Bool) (key value : Tree) (front rest back : List Tree) :
    Wraps
      (.node objectSpan .object (front ++ .node propertySpan
        (.property kind isMethod isShorthand isComputed) (key :: value :: rest) :: back))
      (.node objectSpan .object (front ++ .node propertySpan
        (.property kind isMethod isShorthand isComputed)
          (key :: value.parenthesized span :: rest) :: back))
  /-- Around an item that is an expression. -/
  | item (arraySpan span : Span) {item : Tree} (front back : List Tree)
    (hole : item.form ≠ .hole) (spread : ∀ isFollowed, item.form ≠ .spread isFollowed) :
    Wraps (.node arraySpan .array (front ++ item :: back))
      (.node arraySpan .array (front ++ item.parenthesized span :: back))
  | moved {tree tree' : Tree} (h : tree.withoutSpans = tree'.withoutSpans) : Wraps tree tree'

theorem boundValue_parenthesized (span : Span) (tree : Tree) :
    boundValue (tree.parenthesized span) = boundValue tree := rfl

theorem nestedValue_parenthesized (span : Span) (tree : Tree) :
    nestedValue (tree.parenthesized span) = nestedValue tree := rfl

theorem boundValue_object (span : Span) (parts : List Tree) :
    boundValue (.node span .object parts) =
      (PropertyMap.ofList (parts.filterMap propertyEntry?)).toValue := rfl

theorem boundValue_array (span : Span) (parts : List Tree) :
    boundValue (.node span .array parts) = .array (parts.map itemValue) := rfl

theorem propertyEntry?_parenthesized (propertySpan span : Span) (kind : MethodKind)
    (isMethod isShorthand isComputed : Bool) (key value : Tree) (rest : List Tree) :
    propertyEntry? (.node propertySpan (.property kind isMethod isShorthand isComputed)
        (key :: value.parenthesized span :: rest)) =
      propertyEntry? (.node propertySpan (.property kind isMethod isShorthand isComputed)
        (key :: value :: rest)) := by
  cases kind <;> cases isMethod <;> cases isComputed <;> rfl

theorem itemValue_parenthesized (span : Span) {item : Tree} (hole : item.form ≠ .hole)
    (spread : ∀ isFollowed, item.form ≠ .spread isFollowed) :
    itemValue (item.parenthesized span) = itemValue item := by
  -- an item that is neither a hole nor a spread counts as a value
  have hitem : itemValue item = nestedValue item := by
    unfold itemValue
    split
    · next isFollowed h => exact absurd h (spread isFollowed)
    · next h => exact absurd h hole
    · rfl
  rw [hitem]
  exact nestedValue_parenthesized span item

/-- One pair of parentheses more leaves the value. -/
theorem boundValue_of_wraps {tree tree' : Tree} (h : Wraps tree tree') :
    boundValue tree' = boundValue tree := by
  -- only parentheses inside parentheses need the induction hypothesis
  induction h with
  | around span tree => exact boundValue_parenthesized span tree
  | inside span _ ih => rw [boundValue_parenthesized, boundValue_parenthesized, ih]
  | property objectSpan propertySpan span kind isMethod isShorthand isComputed key value front
      rest back =>
    -- the property adds the entry it added, and those around it do not change
    rw [boundValue_object, boundValue_object, List.filterMap_append, List.filterMap_append,
      List.filterMap_cons, List.filterMap_cons, propertyEntry?_parenthesized]
  | item arraySpan span front back hole spread =>
    rw [boundValue_array, boundValue_array, List.map_append, List.map_append, List.map_cons,
      List.map_cons, itemValue_parenthesized span hole spread]
  | moved h => rw [← boundValue_withoutSpans, ← h, boundValue_withoutSpans]

/-- What is recorded of an expression is one level deep: a scalar, a kind, or one object or
    array of scalars, variables and kinds, with the keys of its plain properties or with one
    item for each of its own.  Any number of parentheses around the expression, the values of
    its properties and its items leaves that as it is. -/
theorem boundValue_one_level :
    (∀ tree : Tree, OneLevel tree.withoutParentheses (boundValue tree)) ∧
    ∀ tree tree' : Tree, Relation.ReflTransGen Wraps tree tree' →
      boundValue tree' = boundValue tree := by
  refine ⟨oneLevel_boundValue, fun tree tree' h => ?_⟩
  induction h with
  | refl => rfl
  | tail _ hstep ih => rw [boundValue_of_wraps hstep, ih]

/-- An item in two pairs of parentheses beside a hole and a spread, in an array in one more. -/
theorem boundValue_one_level_items :
    ∃ tree tree', parseExpression? bindingLanguage "[x, , ...y]".toList = some tree ∧
      parseExpression? bindingLanguage "([((x)), , ...y])".toList = some tree' ∧
      Relation.ReflTransGen Wraps tree tree' ∧
      OneLevel tree'.withoutParentheses (boundValue tree') ∧ boundValue tree' = boundValue tree ∧
      boundValue tree = .array [.variable "x", .literal .null, .literal .null] := by
  obtain ⟨x, hx⟩ : ∃ x : Tree, x = .node ⟨1, 2⟩ (.identifier "x") [] := ⟨_, rfl⟩
  obtain ⟨back, hback⟩ : ∃ back : List Tree, back = [.node ⟨4, 5⟩ .hole [],
      .node ⟨6, 10⟩ (.spread false) [.node ⟨9, 10⟩ (.identifier "y") []]] := ⟨_, rfl⟩
  obtain ⟨tree', htree'⟩ : ∃ tree', parseExpression? bindingLanguage "([((x)), , ...y])".toList =
      some tree' := Option.isSome_iff_exists.1 (by decide +kernel)
  have hread : parseExpression? bindingLanguage "[x, , ...y]".toList =
      some (.node ⟨0, 11⟩ .array (x :: back)) := by
    subst hx hback
    decide +kernel
  have hmoved : (Tree.parenthesized {} (.node ⟨0, 11⟩ .array
      ((x.parenthesized {}).parenthesized {} :: back))).withoutSpans = tree'.withoutSpans := by
    have hsome : (parseExpression? bindingLanguage "([((x)), , ...y])".toList).map
        Tree.withoutSpans = some (Tree.parenthesized {} (.node ⟨0, 11⟩ .array
          ((x.parenthesized {}).parenthesized {} :: back))).withoutSpans := by
      subst hx hback
      decide +kernel
    rw [htree', Option.map_some] at hsome
    exact (Option.some.inj hsome).symm
  have hitem : Wraps (.node ⟨0, 11⟩ .array (x :: back))
      (.node ⟨0, 11⟩ .array (x.parenthesized {} :: back)) :=
    .item ⟨0, 11⟩ {} [] back (by rw [hx]; decide) (by rw [hx]; intro _ h; cases h)
  have hagain : Wraps (.node ⟨0, 11⟩ .array (x.parenthesized {} :: back))
      (.node ⟨0, 11⟩ .array ((x.parenthesized {}).parenthesized {} :: back)) :=
    .item ⟨0, 11⟩ {} [] back (by intro h; cases h) (by intro _ h; cases h)
  have hwraps : Relation.ReflTransGen Wraps (.node ⟨0, 11⟩ .array (x :: back)) tree' :=
    (((Relation.ReflTransGen.single hitem).tail hagain).tail (.around {} _)).tail (.moved hmoved)
  refine ⟨_, tree', hread, htree', hwraps, boundValue_one_level.1 tree',
    boundValue_one_level.2 _ tree' hwraps, ?_⟩
  subst hx hback
  rfl

end Script

end Provenance
