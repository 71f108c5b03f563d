/-! # Templates

  A template is a tree of elements, texts, interpolations and comments.  Every
  part keeps the byte offset at which it stands in the file, and an element also
  where its tag name ends, which is where attributes are spliced in.
-/

namespace Provenance.Template

/-! ## §1. Attributes -/

/-- An attribute as it is written. -/
structure Attribute where
  name : String
  /-- With its character references replaced. -/
  value : Option String
  start : Nat
deriving DecidableEq, Repr

/-- An attribute that binds an expression or gives an instruction. -/
structure Directive where
  /-- The whole name as it is written. -/
  rawName : String
  /-- `bind`, `on`, `slot`, or the name behind `v-`. -/
  name : String
  argument : Option String
  modifiers : List String
  expression : Option String
  start : Nat
deriving DecidableEq, Repr

/-- An entry of a start tag. -/
inductive Entry where
  | attribute (value : Attribute)
  | directive (value : Directive)
deriving DecidableEq, Repr

/-! ## §2. Nodes -/

/-- A start tag. -/
structure OpenTag where
  name : String
  /-- The offset of `<`. -/
  start : Nat
  /-- The offset behind the tag name. -/
  nameEnd : Nat
  entries : List Entry
  selfClosing : Bool
deriving DecidableEq, Repr

/-- A node of a template. -/
inductive Node where
  /-- An element; `stop` is the offset behind its last tag. -/
  | element (tag : OpenTag) (children : List Node) (stop : Nat)
  | text (content : String) (start : Nat)
  | interpolation (content : String) (start : Nat)
  | comment (content : String) (start : Nat)

/-- The template block of a component. -/
structure Block where
  lang : Option String
  children : List Node
  contentStart : Nat
  contentEnd : Nat

/-- A component: its template, if it has one, and the names of all its blocks. -/
structure Component where
  template : Option Block := none
  blocks : List String := []

/-! ## §3. Faults -/

/-- Why a component cannot be read. -/
inductive Fault where
  | unterminatedComment
  | unterminatedDeclaration
  | unterminatedStartTag (name : String)
  | unterminatedValue
  | unterminatedEndTag (name : String)
  | unexpectedEndTag (name parent : String)
  | unexpectedTopLevelEndTag (name : String)
  | missingEndTag (name : String)
deriving DecidableEq, Repr

/-- The words for a fault. -/
def Fault.message : Fault → String
  | .unterminatedComment => "unterminated comment"
  | .unterminatedDeclaration => "unterminated markup declaration"
  | .unterminatedStartTag name => "unterminated start tag <" ++ name ++ ">"
  | .unterminatedValue => "unterminated attribute value"
  | .unterminatedEndTag name => "unterminated end tag </" ++ name ++ ">"
  | .unexpectedEndTag name parent =>
    "unexpected end tag </" ++ name ++ "> inside <" ++ parent ++ ">"
  | .unexpectedTopLevelEndTag name => "unexpected top-level end tag </" ++ name ++ ">"
  | .missingEndTag name => "missing end tag for <" ++ name ++ ">"

/-- A fault and the offset at which it was found. -/
structure Error where
  fault : Fault
  offset : Nat
deriving DecidableEq, Repr

/-- The words for an error. -/
def Error.message (error : Error) : String :=
  error.fault.message ++ " (at byte " ++ toString error.offset ++ ")"

/-! ## §4. Looking into templates -/

/-- The attribute of a name; directives do not count. -/
def OpenTag.attribute? (tag : OpenTag) (name : String) : Option Attribute :=
  tag.entries.findSome? fun
    | .attribute a => if a.name = name then some a else none
    | .directive _ => none

/-- Whether a tag has an attribute of a name. -/
def OpenTag.hasAttribute (tag : OpenTag) (name : String) : Bool := (tag.attribute? name).isSome

mutual

/-- The start tags of the elements of a node, each before those inside it. -/
def Node.openTags : Node → List OpenTag
  | .element tag children _ => tag :: openTagsOf children
  | .text _ _ | .interpolation _ _ | .comment _ _ => []

/-- The start tags of the elements of a list of nodes. -/
def openTagsOf : List Node → List OpenTag
  | [] => []
  | node :: rest => node.openTags ++ openTagsOf rest

end

end Provenance.Template
