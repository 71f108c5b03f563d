import Provenance.Annotation.Basic
import Provenance.Script.Print.Code
import Provenance.Script.Value

/-! # Annotating scripts

  The markers of the elements in a script become attributes of its syntax tree,
  behind the attributes that are there; nothing else of the tree changes.
-/

namespace Provenance.Script

/-! ## §1. Names -/

/-- The name of a tag or an attribute as one text. -/
def nameText : Tree → String
  | .node _ (.markupName text) _ => text
  | .node _ .namespacedName [scope, name] => nameText scope ++ ":" ++ nameText name
  | .node _ .markupMember [object, property] => nameText object ++ "." ++ nameText property
  | _ => ""

/-! ## §2. Snapshots -/

/-- The value of an attribute. -/
def attributeValue (value : Tree) : PropValue :=
  match value with
  | .node _ .absent _ => .flag
  | .node _ (.attributeText text) _ => .string text
  | .node _ .container [.node _ .emptyExpression _] => .expression "JSXEmptyExpression"
  | .node _ .container [e] => boundValue e
  | .node _ .element _ => .expression "JSXElement"
  | .node _ (.fragment _ _) _ => .expression "JSXFragment"
  | _ => .expression "JSXEmptyExpression"

/-- The key of attributes whose names are not known. -/
def spreadKey : String := "...spread"

/-- What an attribute sets. -/
def attributeSetting? : Tree → Option (String × PropValue)
  | .node _ .markupAttribute [name, value] => some (nameText name, attributeValue value)
  | .node _ .attributeSpread _ => some (spreadKey, .spread)
  | _ => none

/-- The snapshot of a list of attributes. -/
def snapshot (attributes : List Tree) : PropertyMap :=
  PropertyMap.ofList (attributes.filterMap attributeSetting?)

/-! ## §3. Opening tags -/

/-- An opening tag, taken out of its tree. -/
structure OpeningTag where
  name : String
  attributes : List Tree
  /-- The offset of its first mark. -/
  start : Nat

/-- The opening tag that a node with some parts is. -/
def OpeningTag.of? (span : Span) (form : Form) (parts : List Tree) : Option OpeningTag :=
  match form, parts with
  | .openingTag _, name :: _ :: attributes => some ⟨nameText name, attributes, span.start⟩
  | _, _ => none

namespace Tree

mutual

/-- The opening tags of a tree, each before those in its attributes and children. -/
def openingTags : Tree → List OpeningTag
  | node span form parts => (OpeningTag.of? span form parts).toList ++ openingTagsOf parts

/-- The opening tags of a list of trees. -/
def openingTagsOf : List Tree → List OpeningTag
  | [] => []
  | tree :: rest => openingTags tree ++ openingTagsOf rest

end

mutual

/-- A tree with more attributes on its opening tags. -/
def withAttributes (more : OpeningTag → List Tree) : Tree → Tree
  | node span form parts =>
    node span form (withAttributesOf more parts ++
      ((OpeningTag.of? span form parts).map more).getD [])

/-- Trees with more attributes on their opening tags. -/
def withAttributesOf (more : OpeningTag → List Tree) : List Tree → List Tree
  | [] => []
  | tree :: rest => withAttributes more tree :: withAttributesOf more rest

end

end Tree

/-! ## §4. Decisions -/

/-- Whether an attribute has a name; a spread has none. -/
def hasName (name : String) : Tree → Bool
  | .node _ .markupAttribute [n, _] => nameText n == name
  | _ => false

/-- The decision on an element of a script. -/
def OpeningTag.decide (context : FileContext) (tag : OpeningTag) : Decision :=
  context.decide tag.name (tag.attributes.any (hasName context.options.idAttribute)) tag.start
    (snapshot tag.attributes)

/-- An attribute that was not in the source. -/
def newAttribute (entry : String × String) : Tree :=
  .node {} .markupAttribute
    [.node {} (.markupName entry.1) [], .node {} (.attributeText entry.2) []]

/-- The attributes that a decision adds. -/
def addedAttributes : Decision → List Tree
  | .mark _ marker => marker.entries.map newAttribute
  | .skip _ | .keep => []

/-- A tree with the markers of its elements. -/
def Tree.annotated (context : FileContext) (tree : Tree) : Tree :=
  tree.withAttributes fun tag => addedAttributes (tag.decide context)

/-- How many elements of a tree get a marker. -/
def Tree.markedCount (context : FileContext) (tree : Tree) : Nat :=
  tree.openingTags.countP fun tag => !(addedAttributes (tag.decide context)).isEmpty

/-! ## §5. Files -/

/-- Annotates a script file.  There is no output if nothing is to be marked. -/
def annotate (code : List Char) (path : String) (options : TransformOptions) : Annotation :=
  match parseFile? path code with
  | none => ⟨.error (.parse path "invalid script"), []⟩
  | some parsed =>
    let context := FileContext.of code path options
    let output : Option Output :=
      if parsed.tree.markedCount context = 0 then none
      else
        let (text, map) := (parsed.tree.annotated context).print parsed.comments code path
        some ⟨text, map⟩
    { result := .ok output
      events := parsed.tree.openingTags.filterMap fun tag =>
        context.event? tag.name (tag.decide context) }

end Provenance.Script
