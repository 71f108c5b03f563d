import Provenance.Double
import Provenance.Script.Token

/-! # Syntax trees of scripts

  A tree is a node with a form, a span of the source, and parts.  The form says
  what the node is and holds all that is not itself a tree, so that walking a
  tree needs one recursion only, whatever it is made of.

  The doc comment of each form lists its parts.  A part that may be missing is
  then the form `absent`, and "..." stands for any number of parts.
-/

namespace Provenance.Script

/-- A stretch of the source, in bytes.  What was added to a tree has the empty
    stretch at zero. -/
structure Span where
  start : Nat := 0
  stop : Nat := 0
deriving DecidableEq, Repr

/-- Modifiers of a declaration or a member. -/
structure Modifiers where
  accessibility : Option String := none
  isAbstract : Bool := false
  isDeclare : Bool := false
  isOverride : Bool := false
  isReadonly : Bool := false
  isStatic : Bool := false
  /-- A question mark behind the name. -/
  isOptional : Bool := false
  /-- An exclamation mark behind the name. -/
  isDefinite : Bool := false
deriving DecidableEq, Repr

/-- The kind of a function-like member. -/
inductive MethodKind where
  | method
  | constructor
  | get
  | set
deriving DecidableEq, Repr

/-- A sign on a modifier of a mapped type. -/
inductive MappedSign where
  | plain
  | plus
  | minus
deriving DecidableEq, Repr

/-- What a node is. -/
inductive Form where
  -- General
  /-- Nothing. -/
  | absent
  /-- Several nodes with commas between them: ... -/
  | group
  -- Names and literals
  | identifier (name : String)
  | privateName (name : String)
  /-- A word inside of a type that the source map leaves out. -/
  | typeWord (text : String)
  /-- A string.  One that has halves of pairs holds marks in place of them. -/
  | string (value : String) (hasHalves : Bool)
  /-- A number, with its text in the source; `none` is infinity. -/
  | number (value : Option Double) (text : String)
  /-- A whole number of any size, in decimal digits. -/
  | bigint (digits : String)
  | boolean (value : Bool)
  | null
  | regex (body flags : String)
  | this
  | super
  /-- A template literal: its texts and expressions in turn. -/
  | template
  | templateText (raw : String) (cooked : Option String)
  -- Expressions
  /-- An array: items, which may be `hole` or `spread`. -/
  | array
  | hole
  /-- An object: `property` or `spread`, ... -/
  | object
  /-- A property: key, value, default of a cover name. -/
  | property (kind : MethodKind) (isMethod isShorthand isComputed : Bool)
  /-- Dots and an expression, with or without a comma behind it. -/
  | spread (isFollowed : Bool)
  /-- In parentheses: expression. -/
  | parenthesized
  | unary (op : String)
  | update (op : String) (isPrefixed : Bool)
  | binary (op : String)
  | logical (op : String)
  /-- Test, consequent, alternate. -/
  | conditional
  | assignment (op : String)
  /-- ... -/
  | sequence
  | await
  | yield (isDelegate : Bool)
  /-- Object and name. -/
  | member (isOptional : Bool)
  /-- Object and expression. -/
  | index (isOptional : Bool)
  /-- Callee, type arguments, arguments ... -/
  | call (isOptional isPure : Bool)
  /-- An optional chain: expression. -/
  | chain
  /-- Callee, type arguments, arguments ... -/
  | new (isPure : Bool)
  /-- Two words. -/
  | metaProperty
  /-- A dynamic import: source, options. -/
  | importCall (phase : Option String)
  /-- Tag, type arguments, template. -/
  | taggedTemplate
  /-- Type parameters, parameters, return type, body. -/
  | arrow (isAsync isConcise isPure : Bool)
  /-- Name, type parameters, parameters, return type, body. -/
  | function (isAsync isGenerator isDeclare isPure : Bool)
  /-- ... -/
  | parameters
  /-- Pattern, decorators ... -/
  | parameter (modifiers : Modifiers)
  /-- The parameter that gives the type of `this`: type. -/
  | thisParameter
  /-- ... -/
  | body
  /-- Decorators, name, type parameters, super class, interfaces, body. -/
  | classDefinition (isAbstract isDeclare : Bool)
  /-- Members ... -/
  | classBody
  -- Members of classes
  /-- Decorators, key, function. -/
  | method (kind : MethodKind) (isComputed : Bool) (modifiers : Modifiers)
  /-- Decorators, key, type, value. -/
  | field (isAccessor isComputed : Bool) (modifiers : Modifiers)
  | staticBlock
  | decorators
  | decorator
  -- Expressions with types
  | asType
  | satisfiesType
  /-- Type and expression. -/
  | typeAssertion
  | nonNull
  | instantiation
  -- Patterns
  | objectPattern
  /-- Key and value. -/
  | patternProperty (isShorthand isComputed : Bool)
  | arrayPattern
  | rest
  /-- Pattern and default. -/
  | defaulted
  /-- Pattern and type. -/
  | typed (isOptional : Bool)
  /-- An object or array that is assigned to, in place of an expression. -/
  | objectTarget
  | arrayTarget
  /-- Key and target. -/
  | targetProperty (isShorthand isComputed : Bool)
  | restTarget
  -- Statements
  | program (hashbang : Option String)
  | directive (raw : String)
  | expressionStatement
  | emptyStatement
  | block
  | ifStatement
  | forStatement
  | forIn
  | forOf (isAwait : Bool)
  | whileStatement
  /-- Body and test. -/
  | doStatement
  | continueStatement
  | breakStatement
  | returnStatement
  | withStatement
  /-- Discriminant, cases ... -/
  | switchStatement
  /-- Test, statements ... -/
  | switchCase
  | labeled
  | throwStatement
  | tryStatement
  | catchClause
  | debuggerStatement
  /-- Declarators ... -/
  | variableList (kind : String) (isDeclare : Bool)
  | declarator (isDefinite : Bool)
  -- Modules
  /-- Specifiers, source, attributes. -/
  | importDeclaration (isType : Bool) (phase : Option String)
  | importItems
  | importDefault
  | importNamespace
  /-- Imported and local name. -/
  | importNamed (isType : Bool)
  | importAttribute
  /-- `with` or `assert`: attributes ... -/
  | importAttributes (keyword : String)
  /-- Declaration, specifiers, source, attributes. -/
  | exportNamed (isType : Bool)
  /-- Local and exported name. -/
  | exportSpecifier (isType : Bool)
  /-- Exported name, source, attributes. -/
  | exportAll (isType : Bool)
  | exportDefault
  | exportAssignment
  | exportNamespace
  | importEquals (isType : Bool)
  | externalModule
  -- Declarations of types
  /-- Name, type parameters, bases, body. -/
  | interface (isDeclare : Bool)
  | interfaceBody
  /-- Name and type arguments. -/
  | heritage
  /-- Name, type parameters, type. -/
  | typeAlias (isDeclare : Bool)
  /-- Name and body. -/
  | enum (isConst isDeclare : Bool)
  | enumBody
  | enumMember (isComputed : Bool)
  /-- Name and body. -/
  | moduleDeclaration (keyword : String) (isDeclare : Bool)
  | moduleBlock
  -- Types
  | keywordType (name : String)
  | typeReference
  | qualifiedName
  | union
  | intersection
  | arrayType
  | indexedAccess
  | tuple
  /-- Label and type. -/
  | namedMember (isOptional : Bool)
  | optionalType
  /-- A type with a question mark, behind or in front of it. -/
  | nullable (isBehind : Bool)
  /-- A type with an exclamation mark, behind or in front of it. -/
  | nonNullable (isBehind : Bool)
  /-- A question mark alone. -/
  | unknownType
  | restType
  /-- Type parameters, parameters, return type. -/
  | functionType
  | constructorType (isAbstract : Bool)
  | literalType
  | typeQuery
  /-- Source, options, qualifier, type arguments. -/
  | importType
  /-- Name, constraint, name type, type. -/
  | mapped (readonly optional : Option MappedSign)
  | conditionalType
  | infer
  | typeOperator (op : String)
  /-- Name and type. -/
  | predicate (isAsserts : Bool)
  | parenthesizedType
  | templateType
  | typeLiteral
  | typeParameters
  /-- Name, constraint, default. -/
  | typeParameter (isConst isIn isOut : Bool)
  | typeArguments
  /-- Key and type. -/
  | propertySignature (isComputed isOptional isReadonly : Bool)
  /-- Key, type parameters, parameters, return type. -/
  | methodSignature (kind : MethodKind) (isComputed isOptional : Bool)
  | callSignature
  | constructSignature
  /-- Type of the index and type. -/
  | indexSignature (name : String) (isReadonly : Bool)
  -- Markup
  /-- Opening tag, closing tag, children ... -/
  | element
  /-- Name, type arguments, attributes ... -/
  | openingTag (isSelfClosing : Bool)
  | closingTag
  /-- Children ...; the spans are those of its tags. -/
  | fragment (opening closing : Span)
  | markupName (text : String)
  | namespacedName
  | markupMember
  /-- Name and value. -/
  | markupAttribute
  /-- The value of an attribute as it stands between its quotes. -/
  | attributeText (text : String)
  | attributeSpread
  | container
  /-- Nothing in braces. -/
  | emptyExpression
  | childSpread
  | markupText (text : String)
deriving DecidableEq, Repr

/-- A syntax tree. -/
inductive Tree where
  | node (span : Span) (form : Form) (parts : List Tree)
deriving Repr

instance : Inhabited Tree := ⟨.node {} .absent []⟩

namespace Tree

/-! ## §1. Parts -/

/-- The span of a tree. -/
def span : Tree → Span
  | node span _ _ => span

/-- What a tree is. -/
def form : Tree → Form
  | node _ form _ => form

/-- The parts of a tree. -/
def parts : Tree → List Tree
  | node _ _ parts => parts

/-- The tree that stands for nothing. -/
def absent : Tree := node {} .absent []

/-- Whether a tree stands for nothing. -/
def isAbsent (tree : Tree) : Bool := tree.form == .absent

/-- An expression in which the call that it starts with, if it does, has no effects. -/
def withPureCall : Tree → Tree
  | node span (.call isOptional _) parts => node span (.call isOptional true) parts
  | node span (.new _) parts => node span (.new true) parts
  | node span .parenthesized [inner] => node span .parenthesized [inner.withPureCall]
  | node span (.binary op) (left :: rest) => node span (.binary op) (left.withPureCall :: rest)
  | node span (.logical op) (left :: rest) => node span (.logical op) (left.withPureCall :: rest)
  | node span .conditional (test :: rest) => node span .conditional (test.withPureCall :: rest)
  | node span .chain [node inner (.call isOptional _) parts] =>
    node span .chain [node inner (.call isOptional true) parts]
  | tree => tree

/-- A function whose calls have no effects. -/
def asPureFunction : Tree → Tree
  | node span (.function isAsync isGenerator isDeclare _) parts =>
    node span (.function isAsync isGenerator isDeclare true) parts
  | node span (.arrow isAsync isConcise _) parts =>
    node span (.arrow isAsync isConcise true) parts
  | tree => tree

/-- A declaration of functions whose calls have no effects. -/
def withPureFunction : Tree → Tree
  | node span .exportDefault [inner] =>
    match inner.form with
    | .function _ _ _ _ => node span .exportDefault [inner.asPureFunction]
    | _ => node span .exportDefault [inner]
  | node span (.exportNamed isType) (inner :: rest) =>
    node span (.exportNamed isType) (inner.withPureFunction :: rest)
  | node span (.variableList "const" isDeclare)
      (node inner (.declarator isDefinite) [pattern, value] :: rest) =>
    node span (.variableList "const" isDeclare)
      (node inner (.declarator isDefinite) [pattern, value.asPureFunction] :: rest)
  | node span (.function isAsync isGenerator isDeclare _) parts =>
    node span (.function isAsync isGenerator isDeclare true) parts
  | tree => tree

/-- An expression without the parentheses around it. -/
def withoutParentheses : Tree → Tree
  | node _ .parenthesized [inner] => withoutParentheses inner
  | tree => tree

end Tree

end Provenance.Script
