import Provenance.Script.Print.Page

/-! # Parts of printed nodes

  A node is printed from its form and its parts, each of which comes with its tree
  and its own way of being printed at a place.  So the rule for a form is not
  recursive, and may still look into its parts.
-/

namespace Provenance.Script.Print

/-! ## §1. Places -/

/-- How tightly what stands around an expression binds. -/
inductive Binding where
  | lowest
  | comma
  | yield
  | assign
  | conditional
  | coalesce
  | logicalOr
  | logicalAnd
  | bitOr
  | bitXor
  | bitAnd
  | equality
  | comparison
  | shift
  | sum
  | product
  | power
  | prefixed
  | postfixed
  | new
  | call
  | member
deriving DecidableEq, Repr

/-- The rank of a binding; tighter ones are higher. -/
def Binding.rank (b : Binding) : Nat := b.ctorIdx

/-- Whether an expression that binds like `b` needs parentheses at a place that
    binds like `a`. -/
def Binding.encloses (a b : Binding) : Bool := b.rank ≤ a.rank

/-- What a tree is printed as. -/
inductive Role where
  | expression
  /-- A function that the source puts in parentheses. -/
  | enclosed
  /-- A statement, with its line. -/
  | statement
  /-- A statement without what surrounds it on its line. -/
  | inline
  /-- A function without its words and name. -/
  | method
  /-- The same without the type of `this`, which an object settles. -/
  | objectMethod
  /-- A pattern that has its value for sure. -/
  | definite
deriving DecidableEq, Repr

/-- Where a tree is printed. -/
structure Place where
  role : Role := .expression
  binding : Binding := .lowest
  /-- Whether `in` would be taken for a part of a loop. -/
  forbidsIn : Bool := false
  /-- Whether a call would be taken for the end of a construction. -/
  forbidsCall : Bool := false
  /-- Whether a number stands as it does in the source. -/
  inType : Bool := false

/-- A place inside of another one that binds as given. -/
def Place.inside (place : Place) (binding : Binding) : Place :=
  { place with role := .expression, binding }

/-! ## §2. Parts -/

/-- A part of a node. -/
structure Part where
  tree : Tree
  print : Place → Print

namespace Part

/-- Whether nothing stands for the part. -/
def isAbsent (part : Part) : Bool := part.tree.isAbsent

/-- Prints a part as an expression in a place of a binding. -/
def under (part : Part) (binding : Binding) : Print := part.print { binding }

/-- Prints a part as an expression by itself. -/
def whole (part : Part) : Print := part.print {}

/-- Prints a part as a statement. -/
def statement (part : Part) : Print := part.print { role := .statement }

/-- Prints a part as a statement without its line. -/
def inline (part : Part) : Print := part.print { role := .inline }

/-- Prints a part with something in front of it, if it is there. -/
def behind (part : Part) (before : String) : Print := do
  if !part.isAbsent then
    text before
    part.whole

end Part

/-- Prints parts as statements. -/
def statements (parts : List Part) : Print := parts.forM Part.statement

/-- Prints parts in a row. -/
def inRow (parts : List Part) : Print := parts.forM Part.whole

/-- Prints braces around what is printed inside of them, on lines of its own unless
    there is nothing. -/
def braces (span : Span) (isEmpty : Bool) (inner : Print) : Print := do
  mapStart span
  char '{'
  if isEmpty then inner
  else
    newLine
    indented inner
    indentation
  char '}'

/-- Prints the body of a statement: a block on the same line, a semicolon, or
    another statement behind a blank. -/
def body (part : Part) : Print := do
  match part.tree.form with
  | .block =>
    blank
    part.inline
    newLine
  | .emptyStatement =>
    char ';'
    newLine
  | _ =>
    joinNext
    part.statement

end Provenance.Script.Print
