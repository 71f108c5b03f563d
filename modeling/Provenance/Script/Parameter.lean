import Provenance.Script.Literal

/-! # Patterns and parameters

  A pattern binds names: one by itself, or those of an object or an array.
  Parameters are patterns with types, defaults and modifiers.
-/

namespace Provenance.Script.Parse

/-! ## §1. Lists -/

/-- Items with commas between them, up to a closing mark, which stays.  A comma
    may stand behind the last item. -/
def commaList (close : String) (item : Parse Tree) : Parse (List Tree) :=
  iterate (fun (items : List Tree) => do
    if ← atMark close then return .done items.reverse
    else
      let tree ← item
      if ← atMark close then return .done (tree :: items).reverse
      else
        expectMark ","
        return .next (tree :: items)) []

/-! ## §2. Types behind colons -/

/-- A type behind a colon, if one is there and the language has types. -/
def typeAnnotation (g : Grammar) : Parse Tree := do
  if (← language).hasTypes then
    if ← eatMark ":" then g.type else return .absent
  else return .absent

/-- A pattern with its type, and with a question mark if one may be there. -/
def typedPattern (g : Grammar) (mayBeOptional : Bool) : Parse Tree := do
  let first ← start
  let pattern ← g.pattern
  let isOptional ← if mayBeOptional && (← language).hasTypes then eatMark "?" else pure false
  let type ← typeAnnotation g
  if !isOptional && type.isAbsent then return pattern
  else node first (.typed isOptional) [pattern, type]

/-! ## §3. Names of properties -/

/-- The key of a property, and whether it is an expression in brackets. -/
def propertyName (g : Grammar) : Parse (Tree × Bool) := do
  let t ← token
  match t.kind with
  | .string | .number | .bigint =>
    match ← simpleLiteral? with
    | some key => return (key, false)
    | none => failure
  | .word => return (← anyName, false)
  | _ =>
    expectMark "["
    let key ← within (fun c => { c with allowsIn := true }) (g.assignment true)
    expectMark "]"
    return (key, true)

/-- Whether a token can start the name of a property. -/
def startsPropertyName (t : Token) : Bool :=
  match t.kind with
  | .string | .number | .bigint | .word | .privateWord => true
  | _ => t.isMark "["

/-- Whether a token can start what a modifier stands in front of: the name of a
    property, or what may stand before one. -/
def canFollowModifier (t : Token) : Bool :=
  startsPropertyName t || t.isMark "\x7b" || t.isMark "*" || t.isMark "..."

/-! ## §4. Patterns -/

/-- An expression in a default, where `in` is an operator. -/
def defaultValue (g : Grammar) : Parse Tree :=
  within (fun c => { c with allowsIn := true }) (g.assignment true)

/-- A pattern and its default, if one follows. -/
def withDefault (g : Grammar) (pattern : Tree) (first : Nat) : Parse Tree := do
  if ← eatMark "=" then
    let value ← defaultValue g
    node first .defaulted [pattern, value]
  else return pattern

/-- The rest of an object or an array at its dots. -/
def restPattern (g : Grammar) : Parse Tree := do
  let first ← start
  expectMark "..."
  let pattern ← g.pattern
  node first .rest [pattern]

/-- A property of an object pattern. -/
def patternProperty (g : Grammar) : Parse Tree := do
  let first ← start
  if ← atMark "..." then
    let tree ← restPattern g
    require (← atMark "\x7d")
    match tree.parts with
    | [.node _ (.identifier _) _] => pure ()
    | _ => note
    return tree
  else
    let t ← token
    let (key, isComputed) ← propertyName g
    if ← eatMark ":" then
      let inner ← start
      let pattern ← g.pattern
      let value ← withDefault g pattern inner
      node first (.patternProperty false isComputed) [key, value]
    else
      require (!isComputed && t.isPlainName)
      let value ← withDefault g key first
      node first (.patternProperty true false) [key, value]

/-- An item of an array pattern: a hole, a rest, or a pattern with a default. -/
def arrayPatternItem (g : Grammar) : Parse Tree := do
  if ← atMark "," then
    let first ← start
    return .node ⟨first, first⟩ .hole []
  else if ← atMark "..." then
    let tree ← restPattern g
    require (← atMark "]")
    return tree
  else
    let first ← start
    let pattern ← g.pattern
    withDefault g pattern first

/-- A pattern that binds names. -/
def pattern (g : Grammar) : Parse Tree := do
  let first ← start
  if ← eatMark "\x7b" then
    let properties ← commaList "\x7d" (patternProperty g)
    expectMark "\x7d"
    node first .objectPattern properties
  else if ← eatMark "[" then
    let items ← commaList "]" (arrayPatternItem g)
    expectMark "]"
    node first .arrayPattern items
  else binding

/-! ## §5. Modifiers -/

/-- The words that can modify a member or a parameter. -/
def modifierWords : List String :=
  ["abstract", "accessor", "async", "const", "declare", "default", "export", "in", "out",
   "private", "protected", "public", "override", "readonly", "static"]

/-- Takes a modifier, if the current word is one and not a name. -/
def modifier? (words : List String) : Parse (Option String) := do
  let t ← token
  if t.kind == .word && !t.escaped && words.contains t.text then
    let follows ← nextToken fun n => canFollowModifier n && (t.text == "static" || !n.lineBefore)
    if follows then
      advance
      return some t.text
    else return none
  else return none

/-- Takes modifiers for as long as there are any. -/
def modifierList (words : List String) : Parse (List String) :=
  iterate (fun (taken : List String) => do
    match ← modifier? words with
    | some word => return .next (word :: taken)
    | none => return .done taken.reverse) []

/-- The words that say who may use a member. -/
def accessWords : List String := ["private", "protected", "public"]

/-- The modifiers that may not stand somewhere in front of a modifier. -/
def barredBefore (word : String) : List String :=
  match word with
  | "private" | "protected" | "public" =>
    accessWords ++ ["override", "static", "accessor", "readonly"]
  | "static" => ["static", "readonly", "accessor", "override"]
  | "override" => ["override", "readonly", "accessor"]
  | "abstract" => ["abstract", "override", "accessor"]
  | word => [word]

/-- Whether modifiers stand in an order that each of them allows. -/
def areOrdered : List String → Bool
  | [] => true
  | word :: rest => rest.all (fun later => !(barredBefore later).contains word) && areOrdered rest

/-- Notes modifiers that may not stand here, or not in this order. -/
def checkModifiers (words allowed : List String) : Parse Unit := do
  if !(words.all allowed.contains && areOrdered words) then note

/-- The modifiers that words name. -/
def modifiersOf (words : List String) : Modifiers where
  accessibility := accessWords.find? words.contains
  isAbstract := words.contains "abstract"
  isDeclare := words.contains "declare"
  isOverride := words.contains "override"
  isReadonly := words.contains "readonly"
  isStatic := words.contains "static"

/-! ## §6. Decorators -/

/-- Decorators in front of a class, a member or a parameter. -/
def decorators (g : Grammar) : Parse (List Tree) :=
  iterate (fun (taken : List Tree) => do
    if ← atMark "@" then
      let first ← start
      advance
      let e ← within (fun c => { c with inDecorator := true }) g.leftHandSide
      if e.form == .chain then note
      let tree ← node first .decorator [e]
      return .next (tree :: taken)
    else return .done taken.reverse) []

/-! ## §7. Parameters -/

/-- What parameters belong to. -/
inductive ParameterOwner where
  /-- A function, a method of an object, or a signature. -/
  | function
  | arrow
  /-- A member of a class. -/
  | member
  | constructor
deriving DecidableEq, Repr

/-- A parameter.  Only members of classes may have parameters with decorators, and
    only a constructor may have ones with modifiers other than `readonly`. -/
def parameter (g : Grammar) (owner : ParameterOwner) : Parse Tree := do
  let first ← start
  let decorations ← decorators g
  if !decorations.isEmpty && owner != .member && owner != .constructor then note
  if ← atMark "..." then
    let tree ← do
      expectMark "..."
      let pattern ← typedPattern g false
      node first .rest [pattern]
    require (← atMark ")")
    return tree
  else
    let words ←
      if (← language).hasTypes then
        modifierList (accessWords ++ ["override", "readonly"])
      else pure []
    checkModifiers words
      (if owner = .constructor then accessWords ++ ["override", "readonly"] else ["readonly"])
    let inner ← start
    let pattern ← typedPattern g true
    let tree ← withDefault g pattern inner
    match tree with
    | .node _ .defaulted (.node _ (.typed true) _ :: _) => note
    | _ => pure ()
    node first (.parameter (modifiersOf words)) (tree :: decorations)

/-- The parameter that gives the type of `this`, which nothing has that is
    constructed or takes its own from outside. -/
def thisParameter (g : Grammar) (owner : ParameterOwner) : Parse Tree := do
  let first ← start
  if owner = .constructor || owner = .arrow then note
  advance
  let type ← typeAnnotation g
  node first .thisParameter [type]

/-- Parameters in parentheses. -/
def parameters (g : Grammar) (owner : ParameterOwner) : Parse Tree := do
  let first ← start
  expectMark "("
  let list ← commaList ")" do
    if (← language).hasTypes && (← atWord "this") then thisParameter g owner
    else parameter g owner
  expectMark ")"
  node first .parameters list

end Provenance.Script.Parse
