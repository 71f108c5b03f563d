import Provenance.Script.Types

/-! # Functions

  The parsers of functions in all their forms: declarations, expressions, arrow
  functions and methods, with their bodies.
-/

namespace Provenance.Script.Parse

/-! ## §1. Bodies -/

/-- Statements up to a closing brace, which stays. -/
def statementList (g : Grammar) : Parse (List Tree) :=
  iterate (fun (statements : List Tree) => do
    if ← atMark "\x7d" then return .done statements.reverse
    else return .next ((← g.statement false) :: statements)) []

/-- The directives and statements up to a closing mark or the end of the text.
    A string by itself at the start is a directive, and is kept as it stands. -/
def directivesAndStatements (g : Grammar) : Parse (List Tree) :=
  iterate (fun ((inDirectives, statements) : Bool × List Tree) => do
    if (← atMark "\x7d") || (← atKind .eof) then return .done statements.reverse
    else
      let s ← get
      let statement ← g.statement false
      match inDirectives && s.token.kind == .string, statement with
      | true, .node span .expressionStatement [.node inner (.string _ _) []] =>
        let width := inner.stop - inner.start
        let text := ((Text.cut? width s.here.rest).map (·.1)).getD []
        let raw := String.ofList ((text.drop 1).dropLast)
        return .next (true, .node span (.directive raw) [.node inner .absent []] :: statements)
      | _, _ => return .next (false, statement :: statements)) (true, [])

/-- The context of the inside of a function. -/
def insideFunction (isAsync isGenerator : Bool) (c : Context) : Context :=
  { c with allowsIn := true, allowsAwait := isAsync, allowsYield := isGenerator,
           inDecorator := false }

/-- The body of a function in braces. -/
def functionBody (g : Grammar) : Parse Tree := do
  let first ← start
  expectMark "\x7b"
  let statements ← within (fun c => { c with allowsReturn := true }) (directivesAndStatements g)
  expectMark "\x7d"
  node first .body statements

/-- The body of a function, which only a language with types may leave out. -/
def optionalBody (g : Grammar) : Parse Tree := do
  if ← atMark "\x7b" then functionBody g
  else if (← language).hasTypes then
    endStatement
    return .absent
  else failure

/-! ## §2. Functions -/

/-- The body of a function, if it has one. -/
def bodyOf : Tree → Tree
  | .node _ (.function _ _ _ _) [_, _, _, _, body] => body
  | _ => .absent

/-- What follows the name of a function that starts at an offset. -/
def functionRest (g : Grammar) (first : Nat) (name : Tree) (isAsync isGenerator : Bool)
    (owner : ParameterOwner) (isDeclare : Bool) : Parse Tree := do
  within (insideFunction isAsync isGenerator) do
    let generics ← typeParameters g
    if owner = .constructor && !generics.isAbsent then note
    let params ← parameters g owner
    let result ← returnTypeBehind g ":"
    let body ← optionalBody g
    if isDeclare && !body.isAbsent then note
    node first (.function isAsync isGenerator isDeclare false)
      [name, generics, params, result, body]

/-- Whether an asynchronous function starts here. -/
def startsAsyncFunction : Parse Bool := do
  if ← atWord "async" then nextToken fun n => n.isWord "function" && !n.lineBefore
  else return false

/-- A function as an expression. -/
def functionExpression (g : Grammar) : Parse Tree := do
  let first ← start
  let isAsync ← eatWord "async"
  expectWord "function"
  let isGenerator ← eatMark "*"
  let name ←
    if (← token).isPlainName then within (insideFunction isAsync isGenerator) binding
    else pure .absent
  let tree ← functionRest g first name isAsync isGenerator .function false
  require !(bodyOf tree).isAbsent
  return tree

/-- A function as a declaration; only a default export may leave out its name. -/
def functionDeclaration (g : Grammar) (first : Nat) (mayBeUnnamed isDeclare : Bool) :
    Parse Tree := do
  let isAsync ← eatWord "async"
  expectWord "function"
  let isGenerator ← eatMark "*"
  let name ←
    if (← token).isPlainName then binding
    else if mayBeUnnamed then pure .absent
    else failure
  functionRest g first name isAsync isGenerator .function isDeclare

/-- A method behind its key. -/
def methodRest (g : Grammar) (isAsync isGenerator : Bool) (owner : ParameterOwner) :
    Parse Tree := do
  let first ← start
  functionRest g first .absent isAsync isGenerator owner false

/-- The parameters of a function that take arguments. -/
def argumentParameters : Tree → List Tree
  | .node _ (.function _ _ _ _) [_, _, params, _, _] =>
    params.parts.filter fun param => param.form != .thisParameter
  | _ => []

/-- Whether a parameter has a default. -/
def hasDefault : Tree → Bool
  | .node _ (.parameter _) (.node _ .defaulted _ :: _) => true
  | _ => false

/-- A getter, which takes no argument but may have a rest, or a setter, which takes
    one, behind its key.  A setter with types cannot have a default. -/
def accessorRest (g : Grammar) (kind : MethodKind) (owner : ParameterOwner) : Parse Tree := do
  let function ← methodRest g false false owner
  match kind, argumentParameters function with
  | .get, [] => pure ()
  | .get, [.node _ .rest _] => pure ()
  | .set, [.node _ .rest _] => note
  | .set, [param] => if (← language).hasTypes && hasDefault param then note
  | _, _ => note
  return function

/-! ## §3. Arrow functions -/

/-- What a look at the next tokens says of an arrow function. -/
inductive Guess where
  | yes
  | no
  | maybe
deriving DecidableEq, Repr

/-- The guess that a test settles. -/
def Guess.ofBool (b : Bool) : Guess := if b then .yes else .no

/-- A guess after which nothing has moved. -/
def lookaheadGuess (guess : Parse Guess) : Parse Guess := fun s =>
  match guess s with
  | some (result, _) => some (result, s)
  | none => some (.no, s)

/-- A guess at what a parenthesis opens. -/
def guessParenthesis : Parse Guess := do
  advance
  let t ← token
  if t.isMark ")" then
    advance
    return .ofBool (← atAnyMark ["=>", ":", "\x7b"])
  else if t.isMark "[" || t.isMark "\x7b" then return .maybe
  else if t.isMark "..." then
    advance
    let n ← token
    if n.isPlainName then return .yes
    else if n.kind == .word && n.text != "this" then return .no
    else if n.kind == .number || n.kind == .string || n.kind == .bigint then return .no
    else return .maybe
  else
    let isModifier := (← language).hasTypes && t.kind == .word && modifierWords.contains t.text &&
      t.text != "async"
    if isModifier && (← nextToken fun n => n.isPlainName) then
      advance
      return .ofBool !(← atWord "as")
    else if !(t.isPlainName || t.isWord "this") then return .no
    else
      advance
      let n ← token
      if n.isMark ":" then return .yes
      else if n.isMark "?" then
        advance
        return .ofBool (← atAnyMark [":", ",", "=", ")"])
      else if n.isMark "," || n.isMark "=" || n.isMark ")" then return .maybe
      else return .no

/-- A guess at what an angle bracket opens.  Where it may also open markup, the
    parameter must say more. -/
def guessAngle : Parse Guess := do
  advance
  let t ← token
  if !(t.isPlainName || t.isWord "const") then return .no
  else if (← language).hasMarkup then
    let _ ← eatWord "const"
    advance
    if ← eatWord "extends" then
      if ← atAnyMark ["=", ">", "/"] then return .no
      else return if (← token).isPlainName then .maybe else .yes
    else return .ofBool (← atAnyMark [",", "="])
  else return .maybe

/-- A guess whether an arrow function with parameters in parentheses is here. -/
def guessArrow : Parse Guess := do
  let t ← token
  if t.isMark "(" || t.isMark "<" || t.isWord "async" then
    lookaheadGuess do
      let mut isOpen := true
      if ← eatWord "async" then
        let n ← token
        isOpen := !n.lineBefore && (n.isMark "(" || n.isMark "<")
      if !isOpen then return .no
      else if ← atMark "(" then guessParenthesis
      else if (← language).hasTypes then guessAngle
      else return .no
  else return .no

/-- The head of an arrow function. -/
structure ArrowHead where
  isAsync : Bool
  generics : Tree
  params : Tree
  result : Tree

/-- The head of an arrow function, up to its arrow. -/
def arrowHead (g : Grammar) : Parse ArrowHead := do
  let isAsync ← eatWord "async"
  within (fun c => { c with allowsAwait := c.allowsAwait || isAsync }) do
    let generics ← typeParameters g
    let params ← parameters g .arrow
    let result ← returnTypeBehind g ":"
    require !(← token).lineBefore
    require (← atMark "=>")
    return ⟨isAsync, generics, params, result⟩

/-- The body of an arrow function, from its arrow on. -/
def arrowBody (g : Grammar) (isAsync allowsReturnType : Bool) : Parse (Tree × Bool) := do
  within (fun c => { c with allowsAwait := isAsync, allowsYield := false }) do
    expectMark "=>"
    if ← atMark "\x7b" then
      let body ← within (fun c => { c with allowsIn := true }) (functionBody g)
      return (body, false)
    else return (← g.assignment allowsReturnType, true)

/-- An arrow function behind its head. -/
def arrowRest (g : Grammar) (first : Nat) (head : ArrowHead) (allowsReturnType : Bool) :
    Parse Tree := do
  let (body, isConcise) ← arrowBody g head.isAsync allowsReturnType
  node first (.arrow head.isAsync isConcise false)
    [head.generics, head.params, head.result, body]

/-- An arrow function that only may be one.  On the true side of a conditional, one
    with a return type counts only if a colon follows. -/
def possibleArrow (g : Grammar) (allowsReturnType : Bool) : Parse Tree := do
  let first ← start
  let head ← arrowHead g
  let tree ← arrowRest g first head allowsReturnType
  require (allowsReturnType || head.result.isAbsent || (← atMark ":"))
  return tree

/-- An arrow function with parameters in parentheses, if one is here. -/
def parenthesizedArrow? (g : Grammar) (allowsReturnType : Bool) : Parse (Option Tree) := do
  match ← guessArrow with
  | .no => return none
  | .yes =>
    let first ← start
    let head ← arrowHead g
    return some (← arrowRest g first head true)
  | .maybe => attempt (possibleArrow g allowsReturnType)

/-- An arrow function behind its only parameter, a name. -/
def simpleArrow (g : Grammar) (first : Nat) (name : Tree) (isAsync allowsReturnType : Bool) :
    Parse Tree := do
  require !(← token).lineBefore
  let params : Tree :=
    .node name.span .parameters [.node name.span (.parameter {}) [name]]
  arrowRest g first ⟨isAsync, .absent, params, .absent⟩ allowsReturnType

/-- An asynchronous arrow function whose only parameter is a name, if one is here. -/
def asyncSimpleArrow? (g : Grammar) (allowsReturnType : Bool) : Parse (Option Tree) := do
  let isOne ← if ← atWord "async" then
      lookahead do
        advance
        let n ← token
        if n.lineBefore || !n.isPlainName then return false
        else
          advance
          return !(← token).lineBefore && (← atMark "=>")
    else pure false
  if isOne then
    let first ← start
    advance
    let name ← within (fun c => { c with allowsAwait := true }) binding
    return some (← simpleArrow g first name true allowsReturnType)
  else return none

end Provenance.Script.Parse
