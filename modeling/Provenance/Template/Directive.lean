import Provenance.Template.Basic
import Provenance.Text.Reference

/-! # Directives

  An attribute is a directive by its name: `v-name`, or one of the shorthands
  `:` and `.` for `v-bind`, `@` for `v-on` and `#` for `v-slot`.  An argument
  follows a name after a colon and a shorthand at once; it goes up to the next
  point, or is enclosed in brackets.  What is left are modifiers.
-/

namespace Provenance.Template

/-- Whether a name is that of a directive. -/
def isDirectiveName : List Char → Bool
  | 'v' :: '-' :: _ => true
  | c :: _ => c = ':' || c = '.' || c = '@' || c = '#'
  | [] => false

/-- The characters of a directive's name: letters, digits and hyphens, and the
    two letters whose other case is an ASCII letter. -/
def isDirectivePart (c : Char) : Bool :=
  c.isAlphanum || c = '-' || c = '\u017F' || c = '\u212A'

/-- Splits an argument in brackets from what follows it. -/
def splitBracketed? : List Char → Option (List Char × List Char)
  | '[' :: r =>
    match r.takeWhile (· ≠ ']'), r.dropWhile (· ≠ ']') with
    | [], _ => none
    | inner, ']' :: rest => some ('[' :: inner ++ [']'], rest)
    | _, _ => none
  | _ => none

/-- Splits an argument from what follows it. -/
def splitArgument? (s : List Char) : Option (List Char × List Char) :=
  match splitBracketed? s with
  | some parts => some parts
  | none =>
    let argument := s.takeWhile (· ≠ '.')
    if argument.isEmpty then none else some (argument, s.dropWhile (· ≠ '.'))

/-- The parts of a text between its points, which are one more than the points. -/
def splitPoints : List Char → List (List Char)
  | [] => [[]]
  | c :: r =>
    if c = '.' then [] :: splitPoints r
    else match splitPoints r with
      | part :: parts => (c :: part) :: parts
      | [] => [[c]]

/-- The modifiers in a text: the parts between points that are not empty. -/
def modifiersOf (s : List Char) : List String :=
  ((splitPoints s).filter (!·.isEmpty)).map String.ofList

/-- A name taken apart. -/
structure NameParts where
  /-- The name behind `v-`. -/
  name : Option (List Char)
  argument : Option (List Char)
  modifiers : List Char

/-- The parts behind a mark that an argument may follow.  Where none follows, the
    mark belongs to the modifiers. -/
def NameParts.behindMark (name : Option (List Char)) (mark : Char) (rest : List Char) :
    NameParts :=
  match splitArgument? rest with
  | some (argument, rest) => ⟨name, some argument, rest⟩
  | none => ⟨name, none, mark :: rest⟩

/-- Takes the name of a directive apart. -/
def NameParts.ofName : List Char → NameParts
  | 'v' :: '-' :: r =>
    match r.takeWhile isDirectivePart, r.dropWhile isDirectivePart with
    | [], _ => ⟨none, none, 'v' :: '-' :: r⟩
    | name, ':' :: rest => behindMark (some name) ':' rest
    | name, rest => ⟨some name, none, rest⟩
  | mark :: r => behindMark none mark r
  | [] => ⟨none, none, []⟩

/-- The name that a shorthand stands for. -/
def shorthandName : List Char → String
  | ':' :: _ | '.' :: _ => "bind"
  | '@' :: _ => "on"
  | _ => "slot"

/-- The directive of a name and a value. -/
def Directive.ofName (name : List Char) (value : Option (List Char)) (start : Nat) : Directive :=
  let parts := NameParts.ofName name
  { rawName := String.ofList name
    name := (parts.name.map String.ofList).getD (shorthandName name)
    argument := parts.argument.map String.ofList
    modifiers :=
      modifiersOf parts.modifiers ++ if name.head? = some '.' then ["prop"] else []
    expression := value.map String.ofList
    start }

/-- The entry of a name and a value as they are written. -/
def Entry.ofName (name : List Char) (value : Option (List Char)) (start : Nat) : Entry :=
  if isDirectiveName name then .directive (.ofName name value start)
  else
    .attribute
      { name := String.ofList name
        value := value.map fun text => String.ofList (Text.decodeReferences text)
        start }

end Provenance.Template
