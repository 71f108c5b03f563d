import Provenance.Script.Program
import Provenance.Snapshot

/-! # Values of expressions

  What is known of an expression without running it.  A literal is known by its
  value, an object or an array of literals by its members, and any other
  expression by the name of its kind only.
-/

namespace Provenance.Script

/-! ## §1. Literals -/

/-- The JSON form of a number: whole numbers that fit a word without a point,
    infinity as null. -/
def jsonOfNumber : Option Double → Json
  | none => .null
  | some x =>
    match x.toNat? with
    | some n =>
      if n < 18446744073709551616 then .number (.whole n) else .number (.fractional false x)
    | none => .number (.fractional false x)

/-- The value of a literal that is no object or array.  A template counts if nothing
    stands in it but text. -/
def scalar? : Tree → Option Json
  | .node _ (.string value _) _ => some (.string value)
  | .node _ (.number value _) _ => some (jsonOfNumber value)
  | .node _ (.boolean value) _ => some (.bool value)
  | .node _ .null _ => some .null
  | .node _ .template [.node _ (.templateText raw cooked) _] => some (.string (cooked.getD raw))
  | _ => none

/-! ## §2. Kinds -/

/-- The name of the kind of an expression. -/
def kindName : Tree → String
  | .node _ form parts =>
    match form with
    | .boolean _ => "BooleanLiteral"
    | .null => "NullLiteral"
    | .number _ _ => "NumericLiteral"
    | .bigint _ => "BigIntLiteral"
    | .regex _ _ => "RegExpLiteral"
    | .string _ _ => "StringLiteral"
    | .template => "TemplateLiteral"
    | .identifier _ => "Identifier"
    | .metaProperty => "MetaProperty"
    | .super => "Super"
    | .array => "ArrayExpression"
    | .arrow _ _ _ => "ArrowFunctionExpression"
    | .assignment _ => "AssignmentExpression"
    | .await => "AwaitExpression"
    | .binary _ => "BinaryExpression"
    | .call _ _ => "CallExpression"
    | .chain =>
      match parts with
      | [.node _ (.call _ _) _] => "OptionalCallExpression"
      | _ => "OptionalMemberExpression"
    | .classDefinition _ _ => "ClassExpression"
    | .conditional => "ConditionalExpression"
    | .function _ _ _ _ => "FunctionExpression"
    | .importCall _ => "ImportExpression"
    | .logical _ => "LogicalExpression"
    | .new _ => "NewExpression"
    | .object => "ObjectExpression"
    | .parenthesized => "ParenthesizedExpression"
    | .sequence => "SequenceExpression"
    | .taggedTemplate => "TaggedTemplateExpression"
    | .this => "ThisExpression"
    | .unary _ => "UnaryExpression"
    | .update _ _ => "UpdateExpression"
    | .yield _ => "YieldExpression"
    | .element => "JSXElement"
    | .fragment _ _ => "JSXFragment"
    | .asType => "TSAsExpression"
    | .satisfiesType => "TSSatisfiesExpression"
    | .typeAssertion => "TSTypeAssertion"
    | .nonNull => "TSNonNullExpression"
    | .instantiation => "TSInstantiationExpression"
    | .member _ | .index _ => "MemberExpression"
    | _ => "Expression"

/-! ## §3. Objects and arrays -/

/-- The text of a key that is not computed; private names have none. -/
def keyText? : Tree → Option String
  | .node _ (.identifier name) _ => some name
  | .node _ (.string value _) _ => some value
  | .node _ (.number (some x) _) _ => some (String.ofList x.plainText)
  | .node _ (.number none _) _ => some "inf"
  | .node _ (.bigint digits) _ => some digits
  | _ => none

/-- The value of an expression inside of an object or an array. -/
def nestedValue (tree : Tree) : PropValue :=
  let tree := tree.withoutParentheses
  match scalar? tree with
  | some value => .literal value
  | none =>
    match tree.form with
    | .identifier name => .variable name
    | _ => .expression (kindName tree)

/-- The entry that a property of an object adds: spreads, methods, accessors and
    computed keys add none. -/
def propertyEntry? : Tree → Option (String × PropValue)
  | .node _ (.property .method false _ false) (key :: value :: _) =>
    (keyText? key).map fun text => (text, nestedValue value)
  | _ => none

/-- The value of an item of an array. -/
def itemValue (tree : Tree) : PropValue :=
  match tree.form with
  | .spread _ | .hole => .literal .null
  | _ => nestedValue tree

/-- The value that an expression gives to an attribute. -/
def boundValue (tree : Tree) : PropValue :=
  let tree := tree.withoutParentheses
  match scalar? tree with
  | some value => .literal value
  | none =>
    match tree.form with
    | .object => (PropertyMap.ofList (tree.parts.filterMap propertyEntry?)).toValue
    | .array => .array (tree.parts.map itemValue)
    | _ => .expression (kindName tree)

/-! ## §4. Texts of expressions -/

/-- The language of bound expressions. -/
def bindingLanguage : Language := { hasTypes := true, hasMarkup := false, goal := .module }

/-- The value of a text that should be an expression.  The expression must end where
    the text ends, blanks aside. -/
def evaluate (source : List Char) : PropValue :=
  match parseExpression? bindingLanguage source with
  | some tree =>
    if tree.span.stop = Text.byteSize (Text.trimEnd source) then boundValue tree
    else .expression "InvalidExpression"
  | none => .expression "InvalidExpression"

end Provenance.Script
