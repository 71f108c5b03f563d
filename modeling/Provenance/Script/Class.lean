import Provenance.Script.Function

/-! # Classes

  The parsers of classes and their members.
-/

namespace Provenance.Script.Parse

/-! ## §1. Members -/

/-- Whether a static block starts here. -/
def startsStaticBlock : Parse Bool := do
  if ← atWord "static" then nextToken fun n => n.isMark "\x7b" else return false

/-- The words in front of the name of a member.  A second `static` is a name.  Some
    words are known only to a language with types. -/
def memberModifiers : Parse (List String) := do
  let words ← iterate (fun (taken : List String) => do
    if (← startsStaticBlock) || (taken.contains "static" && (← atWord "static")) then
      return .done taken.reverse
    else
      match ← modifier? modifierWords with
      | some word => return .next (word :: taken)
      | none => return .done taken.reverse) []
  let known := if (← language).hasTypes then modifierWords else ["async", "static", "accessor"]
  if !words.all known.contains then note
  return words

/-- The modifiers that every named member may have. -/
def memberWords : List String := accessWords ++ ["abstract", "static", "override"]

/-- A static block. -/
def staticBlock (g : Grammar) : Parse Tree := do
  let first ← start
  advance
  expectMark "\x7b"
  let statements ←
    within (fun c => { c with allowsAwait := true, allowsYield := false, allowsReturn := false })
      (statementList g)
  expectMark "\x7d"
  node first .staticBlock statements

/-- The value of a field. -/
def fieldValue (g : Grammar) : Parse Tree := do
  if ← eatMark "=" then
    within (fun c => { c with allowsIn := true, allowsYield := false, allowsAwait := false })
      g.expression
  else return .absent

/-- The node of a method. -/
def methodNode (first : Nat) (decorations : List Tree) (kind : MethodKind) (isComputed : Bool)
    (modifiers : Modifiers) (key function : Tree) : Parse Tree := do
  let group : Tree := .node {} .decorators decorations
  node first (.method kind isComputed modifiers) [group, key, function]

/-- The key of a member, which may be private, and whether it is an expression in
    brackets.  A private constructor cannot be, and no word says once more who may use
    what is private. -/
def memberKey (g : Grammar) (words : List String) : Parse (Tree × Bool) := do
  if ← atKind .privateWord then
    let name ← privateName
    if name.form == .privateName "constructor" || words.any accessWords.contains then note
    return (name, false)
  else propertyName g

/-- Whether a key is a certain name. -/
def isKey (name : String) (key : Tree × Bool) : Bool :=
  !key.2 && match key.1.form with
    | .identifier text => text == name
    | .string text _ => text == name
    | _ => false

/-- Notes a member that classes cannot have: a static prototype. -/
def checkPrototype (words : List String) (key : Tree × Bool) : Parse Unit := do
  if words.contains "static" && isKey "prototype" key && !(← context).isAmbient then note

/-- Notes a body that an abstract member cannot have, and decorators of a member that
    has no body. -/
def checkBody (decorations : List Tree) (words : List String) (function : Tree) : Parse Unit := do
  if (bodyOf function).isAbsent then
    if !decorations.isEmpty then note
  else if words.contains "abstract" then note

/-- A getter or a setter, from its word on. -/
def accessorMethod (g : Grammar) (first : Nat) (decorations : List Tree) (words : List String)
    (kind : MethodKind) : Parse Tree := do
  advance
  let key ← memberKey g words
  checkModifiers words memberWords
  checkPrototype words key
  if isKey "constructor" key && !words.contains "static" then note
  let function ← accessorRest g kind .member
  checkBody decorations words function
  methodNode first decorations kind key.2 (modifiersOf words) key.1 function

/-- A method or a field. -/
def methodOrField (g : Grammar) (first : Nat) (decorations : List Tree) (words : List String) :
    Parse Tree := do
  let isGenerator ← eatMark "*"
  let key ← memberKey g words
  let hasTypes := (← language).hasTypes
  let isOptional ← if hasTypes then eatMark "?" else pure false
  if isGenerator || (← atAnyMark ["(", "<"]) then
    let isConstructor := isKey "constructor" key && !words.contains "static"
    checkModifiers words (if isConstructor then accessWords else "async" :: memberWords)
    checkPrototype words key
    if isConstructor && (isGenerator || !decorations.isEmpty) then note
    let function ← methodRest g (words.contains "async") isGenerator
      (if isConstructor then .constructor else .member)
    checkBody decorations words function
    let kind : MethodKind := if isConstructor then .constructor else .method
    methodNode first decorations kind key.2 { modifiersOf words with isOptional } key.1 function
  else
    let isAccessor := words.contains "accessor"
    checkModifiers words
      (memberWords ++ if isAccessor then ["accessor"] else ["declare", "readonly"])
    if isAccessor then
      if isOptional then note
    else
      checkPrototype words key
      if isKey "constructor" key then note
    let isDefinite ← if hasTypes && !isOptional then eatMark "!" else pure false
    let type ← typeAnnotation g
    let value ← fieldValue g
    if words.contains "abstract" && !value.isAbsent then note
    endStatement
    let group : Tree := .node {} .decorators decorations
    node first
      (.field isAccessor key.2 { modifiersOf words with isOptional, isDefinite })
      [group, key.1, type, value]

/-- A member of a class. -/
def classMember (g : Grammar) : Parse Tree := do
  let first ← start
  let decorations ← decorators g
  let words ← memberModifiers
  if ← startsStaticBlock then
    if !(decorations.isEmpty && words.isEmpty) then note
    staticBlock g
  else if ← startsAccessor "get" then accessorMethod g first decorations words .get
  else if ← startsAccessor "set" then accessorMethod g first decorations words .set
  else if (← language).hasTypes && (← startsIndexSignature) then
    if !decorations.isEmpty then note
    indexSignature g first words
  else methodOrField g first decorations words

/-- The members of a class in braces. -/
def classBody (g : Grammar) : Parse Tree := do
  let first ← start
  expectMark "\x7b"
  let members ← iterate (fun (members : List Tree) => do
    if ← eatMark ";" then return .next members
    else if ← atMark "\x7d" then return .done members.reverse
    else return .next ((← classMember g) :: members)) []
  expectMark "\x7d"
  node first .classBody members

/-! ## §2. Classes -/

/-- A base class or an interface with its type arguments. -/
def heritage (g : Grammar) : Parse Tree := do
  let first ← start
  let tree ← g.leftHandSide
  match tree with
  | .node _ .instantiation [base, arguments] => node first .heritage [base, arguments]
  | base => node first .heritage [base, ← typeArguments g]

/-- An interface that a class has, or a base of an interface. -/
def typeHeritage (g : Grammar) : Parse Tree := do
  let first ← start
  let name ← entityName reference
  let arguments ← typeArguments g
  node first .heritage [name, arguments]

/-- Interfaces with commas between them, at least one. -/
def typeHeritageList (g : Grammar) : Parse (List Tree) := do
  let head ← typeHeritage g
  iterate (fun (list : List Tree) => do
    if ← eatMark "," then return .next ((← typeHeritage g) :: list)
    else return .done list.reverse) [head]

/-- A class from its word on. -/
def classRest (g : Grammar) (first : Nat) (decorations : List Tree) (isAbstract isDeclare : Bool) :
    Parse Tree := do
  expectWord "class"
  let t ← token
  let name ←
    if t.isPlainName &&
        !(t.text == "implements" && (← nextToken fun n => !(n.isMark "\x7b" || n.isWord "extends")))
    then binding
    else pure .absent
  let generics ← typeParameters g
  let base ← if ← eatWord "extends" then heritage g else pure .absent
  let interfaces ←
    if (← language).hasTypes && (← eatWord "implements") then typeHeritageList g else pure []
  let body ←
    within (fun c => { c with inDecorator := false }) (classBody g)
  let group : Tree := .node {} .decorators decorations
  let interfaceGroup : Tree := .node {} .group interfaces
  node first (.classDefinition isAbstract isDeclare)
    [group, name, generics, base, interfaceGroup, body]

/-- A class as an expression. -/
def classExpression (g : Grammar) : Parse Tree := do
  let first ← start
  let decorations ← decorators g
  classRest g first decorations false false

end Provenance.Script.Parse
