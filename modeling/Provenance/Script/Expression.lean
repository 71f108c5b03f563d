import Provenance.Script.Class
import Provenance.Script.Target

/-! # Expressions

  The parser of expressions, by precedence: sequences, assignments, conditionals,
  binary operators, prefix and postfix operators, calls and members, and what
  stands alone.
-/

namespace Provenance.Script.Parse

/-! ## §1. Operators -/

/-- The precedence of a binary operator, looser ones first. -/
def markPrecedence? (mark : String) : Option Nat :=
  match mark with
  | "??" => some 1
  | "||" => some 2
  | "&&" => some 3
  | "|" => some 4
  | "^" => some 5
  | "&" => some 6
  | "==" | "!=" | "===" | "!==" => some 7
  | "<" | ">" | "<=" | ">=" => some 8
  | "<<" | ">>" | ">>>" => some 9
  | "+" | "-" => some 10
  | "*" | "/" | "%" => some 11
  | "**" => some 12
  | _ => none

/-- The precedence of the current token as a binary operator. -/
def precedence? : Parse (Option Nat) := do
  let t ← token
  match t.kind with
  | .punctuator => return markPrecedence? t.text
  | .word =>
    if t.isWord "instanceof" then return some 8
    else if t.isWord "in" then return if (← context).allowsIn then some 8 else none
    else if (← language).hasTypes && (t.isWord "as" || t.isWord "satisfies") then return some 8
    else return none
  | _ => return none

/-- The operators of assignments. -/
def assignmentMarks : List String :=
  ["=", "+=", "-=", "*=", "/=", "%=", "<<=", ">>=", ">>>=", "|=", "^=", "&=", "**=", "||=",
   "&&=", "??="]

/-- The words that are prefix operators. -/
def prefixWords : List String := ["delete", "typeof", "void"]

/-- The marks that are prefix operators. -/
def prefixMarks : List String := ["+", "-", "~", "!"]

/-- Whether a token continues an operator such as `await` on its line. -/
def isOperandOnLine (t : Token) : Bool :=
  !t.lineBefore &&
    (t.kind == .word || t.kind == .number || t.kind == .bigint || t.kind == .string)

/-! ## §2. What starts an expression -/

/-- Whether an expression can start at the current token. -/
def startsExpression : Parse Bool := do
  let t ← token
  match t.kind with
  | .number | .string | .bigint | .template | .privateWord => return true
  | .word =>
    if t.isWord "import" then nextToken fun n => n.isMark "(" || n.isMark "<" || n.isMark "."
    else
      return t.isPlainName ||
        ["this", "super", "null", "true", "false", "function", "class", "new", "typeof", "void",
         "delete", "in", "instanceof"].contains t.text
  | .punctuator =>
    return ["(", "[", "\x7b", "/", "/=", "<", "++", "--", "~", "!", "@"].contains t.text ||
      (markPrecedence? t.text).isSome
  | _ => return false

/-! ## §3. Type arguments in expressions -/

/-- Whether type arguments can end before the current token, rather than being
    comparisons. -/
def canFollowTypeArguments : Parse Bool := do
  let t ← token
  if t.kind == .template || t.isMark "(" then return true
  else if t.isMark "<" || t.isMark ">" || t.isMark "+" || t.isMark "-" then return false
  else if t.lineBefore || (← precedence?).isSome then return true
  else return !(← startsExpression)

/-- Type arguments in an expression. -/
def expressionTypeArguments (g : Grammar) : Parse Tree := do
  let first ← start
  splitLess
  expectMark "<"
  let list ← commaList ">" g.type
  require (!list.isEmpty)
  let isComparison ← lookahead do
    joinGreater
    atMark ">="
  require !isComparison
  expectMark ">"
  let tree ← node first .typeArguments list
  require (← canFollowTypeArguments)
  return tree

/-- Whether type arguments may start here. -/
def mayStartTypeArguments : Parse Bool := do
  let t ← token
  return (← language).hasTypes && t.kind == .punctuator && (t.text == "<" || t.text == "<<")

/-! ## §4. Literals with parts -/

/-- Dots and an expression. -/
def spread (g : Grammar) : Parse Tree := do
  let first ← start
  expectMark "..."
  let e ← g.assignment true
  node first (.spread (← atMark ",")) [e]

/-- An argument of a call. -/
def argument (g : Grammar) : Parse Tree := do
  if ← atMark "..." then spread g else g.assignment true

/-- Arguments in parentheses. -/
def arguments (g : Grammar) : Parse (List Tree) := do
  expectMark "("
  let list ←
    within (fun c => { c with allowsIn := true, inDecorator := false }) do
      commaList ")" (argument g)
  expectMark ")"
  return list

/-- An item of an array. -/
def arrayItem (g : Grammar) : Parse Tree := do
  if ← atMark "," then
    let first ← start
    return .node ⟨first, first + 1⟩ .hole []
  else argument g

/-- An array. -/
def arrayLiteral (g : Grammar) : Parse Tree := do
  let first ← start
  expectMark "["
  let items ←
    within (fun c => { c with allowsIn := true, inDecorator := false }) do
      commaList "]" (arrayItem g)
  expectMark "]"
  node first .array items

/-- A getter or a setter of an object, from its word on. -/
def objectAccessor (g : Grammar) (first : Nat) (kind : MethodKind) : Parse Tree := do
  advance
  let (key, isComputed) ← propertyName g
  let function ← accessorRest g kind .function
  node first (.property kind false false isComputed) [key, function, .absent]

/-- A property of an object. -/
def objectProperty (g : Grammar) : Parse Tree := do
  let first ← start
  if ← atMark "..." then spread g
  else
    let words ← modifierList ["async"]
    checkModifiers words ["async"]
    let isAsync := !words.isEmpty
    if ← startsAccessor "get" then
      if isAsync then note
      objectAccessor g first .get
    else if ← startsAccessor "set" then
      if isAsync then note
      objectAccessor g first .set
    else
      let isGenerator ← eatMark "*"
      let t ← token
      let isName ← canBeName t
      let (key, isComputed) ← propertyName g
      if isAsync || isGenerator || (← atAnyMark ["(", "<"]) then
        let function ← methodRest g isAsync isGenerator .function
        node first (.property .method true false isComputed) [key, function, .absent]
      else if isName && !isComputed && !(← atMark ":") then
        if ← eatMark "=" then
          let value ← defaultValue g
          modify fun s => { s with coverDefaults := first :: s.coverDefaults }
          node first (.property .method false true false) [key, key, value]
        else node first (.property .method false true false) [key, key, .absent]
      else
        expectMark ":"
        let value ← defaultValue g
        node first (.property .method false false isComputed) [key, value, .absent]

/-- An object. -/
def objectLiteral (g : Grammar) : Parse Tree := do
  let first ← start
  expectMark "\x7b"
  let properties ←
    within (fun c => { c with allowsIn := true, inDecorator := false }) do
      commaList "\x7d" (objectProperty g)
  expectMark "\x7d"
  node first .object properties

/-- Expressions with commas between them. -/
def sequenceRest (g : Grammar) (first : Nat) (head : Tree) : Parse Tree := do
  if ← atMark "," then
    let list ← iterate (fun (list : List Tree) => do
      if ← eatMark "," then return .next ((← g.assignment true) :: list)
      else return .done list.reverse) [head]
    node first .sequence list
  else return head

/-- An expression in parentheses. -/
def parenthesized (g : Grammar) : Parse Tree := do
  let first ← start
  expectMark "("
  let inner ←
    within (fun c => { c with allowsIn := true, inDecorator := false }) g.expression
  expectMark ")"
  node first .parenthesized [inner]

/-- An expression with commas. -/
def expression (g : Grammar) (assignment : Parse Tree) : Parse Tree := do
  let first ← start
  within (fun c => { c with inDecorator := false }) do
    let head ← assignment
    sequenceRest g first head

/-! ## §5. What stands alone -/

/-- A dynamic import, or the meta property of the module. -/
def importExpression (g : Grammar) : Parse Tree := do
  let first ← start
  let word ← anyName
  let call (phase : Option String) : Parse Tree := do
    expectMark "("
    let tree ← within (fun c => { c with allowsIn := true, inDecorator := false }) do
      let source ← g.assignment true
      let options ← if ← eatMark "," then
          if ← atMark ")" then pure .absent
          else
            let options ← g.assignment true
            let _ ← eatMark ","
            pure options
        else pure .absent
      expectMark ")"
      node first (.importCall phase) [source, options]
    return tree
  if ← eatMark "." then
    if ← atWord "meta" then
      let property ← anyName
      modify fun s => { s with usesModules := true }
      node first .metaProperty [word, property]
    else if ← eatWord "source" then call (some "source")
    else if ← eatWord "defer" then call (some "defer")
    else failure
  else call none

/-- The super class, which must have a member taken or be called. -/
def superExpression : Parse Tree := do
  let tree ← leaf .super
  if !(← atAnyMark [".", "[", "("]) then note
  return tree

/-- A construction. -/
def newExpression (g : Grammar) : Parse Tree := do
  let first ← start
  let word ← anyName
  if ← eatMark "." then
    require (← atWord "target")
    let property ← anyName
    node first .metaProperty [word, property]
  else
    let callee ← g.newCallee
    match callee with
    | .node _ (.importCall _) _ => note
    | _ => pure ()
    let (callee, generics) := match callee with
      | .node _ .instantiation [e, generics] => (e, generics)
      | e => (e, .absent)
    if ← atMark "?." then note
    let list ← if ← atMark "(" then arguments g else pure []
    node first (.new false) (callee :: generics :: list)

/-- An expression that no operator takes apart. -/
def primary (g : Grammar) : Parse Tree := do
  let t ← token
  match t.kind with
  | .number | .string | .bigint =>
    match ← simpleLiteral? with
    | some tree => return tree
    | none => failure
  | .template => templateLiteral g false
  | .word =>
    if t.escaped then reference
    else if ← startsAsyncFunction then functionExpression g
    else
      match t.text with
      | "this" => leaf .this
      | "null" => leaf .null
      | "true" => leaf (.boolean true)
      | "false" => leaf (.boolean false)
      | "function" => functionExpression g
      | "class" => classExpression g
      | "new" => newExpression g
      | "super" => superExpression
      | "import" => importExpression g
      | _ => reference
  | .punctuator =>
    match t.text with
    | "(" => parenthesized g
    | "[" => arrayLiteral g
    | "\x7b" => objectLiteral g
    | "/" | "/=" => regexLiteral
    | "@" => classExpression g
    | _ => failure
  | _ => failure

/-! ## §6. Members and calls -/

/-- An expression and whether an optional step occurs in its chain. -/
structure Chained where
  tree : Tree
  isOptional : Bool := false

/-- A name behind a dot. -/
def memberName : Parse Tree := do
  if ← atKind .privateWord then privateName else anyName

/-- A template behind a tag. -/
def taggedTemplate (g : Grammar) (first : Nat) (tag : Tree) (isOptional : Bool) : Parse Tree := do
  if isOptional then note
  let text ← templateLiteral g true
  match tag with
  | .node _ .instantiation [e, generics] => node first .taggedTemplate [e, generics, text]
  | e => node first .taggedTemplate [e, .absent, text]

/-- Members behind an expression.  `allowsOptional` admits optional ones. -/
def memberRest (g : Grammar) (first : Nat) (allowsOptional : Bool) (head : Chained) :
    Parse Chained :=
  iterate (fun (lhs : Chained) => do
    let isQuestion ←
      if allowsOptional && (← atMark "?.") then
        nextToken fun n =>
          n.kind == .word || n.kind == .privateWord || n.isMark "[" || n.kind == .template
      else pure false
    if isQuestion then advance
    let lhs : Chained := { lhs with isOptional := lhs.isOptional || isQuestion }
    let t ← token
    if isQuestion && (t.kind == .word || t.kind == .privateWord) then
      let name ← memberName
      return .next { lhs with tree := ← node first (.member true) [lhs.tree, name] }
    else if !isQuestion && t.isMark "." then
      advance
      let name ← memberName
      return .next { lhs with tree := ← node first (.member false) [lhs.tree, name] }
    else if t.isMark "[" && (isQuestion || !(← context).inDecorator) then
      advance
      let index ← within (fun c => { c with allowsIn := true }) g.expression
      expectMark "]"
      return .next { lhs with tree := ← node first (.index isQuestion) [lhs.tree, index] }
    else if t.kind == .template then
      return .next { lhs with tree := ← taggedTemplate g first lhs.tree lhs.isOptional }
    else if isQuestion then failure
    else if (← language).hasTypes && t.isMark "!" && !t.lineBefore then
      advance
      return .next { lhs with tree := ← node first .nonNull [lhs.tree] }
    else if ← mayStartTypeArguments then
      match ← attempt (expressionTypeArguments g) with
      | some generics =>
        return .next { lhs with tree := ← node first .instantiation [lhs.tree, generics] }
      | none => return .done lhs
    else return .done lhs) head

/-- Calls and members behind an expression. -/
def callRest (g : Grammar) (first : Nat) (head : Chained) : Parse Chained :=
  iterate (fun (lhs : Chained) => do
    let lhs ← memberRest g first true lhs
    let isQuestion ← eatMark "?."
    let lhs : Chained := { lhs with isOptional := lhs.isOptional || isQuestion }
    let generics ←
      if isQuestion && (← mayStartTypeArguments) then
        match ← attempt (expressionTypeArguments g) with
        | some generics => pure generics
        | none => pure .absent
      else pure .absent
    if isQuestion && (← atKind .template) then
      return .next { lhs with tree := ← taggedTemplate g first lhs.tree true }
    else if !generics.isAbsent || (← atMark "(") then
      let (callee, generics) := match isQuestion, lhs.tree with
        | false, .node _ .instantiation [e, inner] => (e, inner)
        | _, e => (e, generics)
      let list ← arguments g
      let call ← node first (.call isQuestion false) (callee :: generics :: list)
      return .next { lhs with tree := call }
    else if isQuestion then failure
    else return .done lhs) head

/-- Marks an optional chain as a whole. -/
def closeChain (first : Nat) (c : Chained) : Parse Tree := do
  if !c.isOptional then return c.tree
  else
    match c.tree with
    | .node span .instantiation [e, generics] =>
      return .node span .instantiation [.node e.span .chain [e], generics]
    | .node _ (.member _) _ | .node _ (.index _) _ | .node _ (.call _ _) _
    | .node _ .nonNull _ =>
      node first .chain [c.tree]
    | tree => return tree

/-- What can be called or be the object of a member, with its calls and members. -/
def leftHandSide (g : Grammar) : Parse Tree := do
  let first ← start
  let head ← primary g
  let chained ← memberRest g first false ⟨head, false⟩
  let chained ← callRest g first chained
  closeChain first chained

/-- The callee of a construction: members, but no calls. -/
def newCallee (g : Grammar) : Parse Tree := do
  let first ← start
  let head ← primary g
  let chained ← memberRest g first false ⟨head, false⟩
  return chained.tree

/-! ## §7. Prefix and postfix operators -/

/-- Makes an expression the target of an increment or a compound assignment. -/
def asSimpleTarget (tree : Tree) : Parse Tree := tree.simpleTarget?

/-- Increments, markup, and what binds tighter.  Nothing can be taken from markup or
    called on it without parentheses. -/
def increment (g : Grammar) : Parse Tree := do
  let first ← start
  let t ← token
  if t.isMark "++" || t.isMark "--" then
    advance
    let operand ← g.incrementOperand
    let target ← asSimpleTarget operand
    node first (.update t.text true) [target]
  else if t.isMark "<" && (← language).hasMarkup then
    advance
    g.markup first false
  else
    let operand ← leftHandSide g
    let n ← token
    if (n.isMark "++" || n.isMark "--") && !n.lineBefore then
      advance
      let target ← asSimpleTarget operand
      node first (.update n.text false) [target]
    else return operand

/-- Whether `await` is an operator here. -/
def startsAwait : Parse Bool := do
  if ← atWord "await" then
    if (← context).allowsAwait then return true
    else nextToken fun n => isOperandOnLine n || (n.isMark "/" && !n.lineBefore)
  else return false

/-- Prefix operators and what binds tighter. -/
def unary (g : Grammar) : Parse Tree := do
  let first ← start
  let t ← token
  if (t.kind == .punctuator && prefixMarks.contains t.text) || (← atAnyWord prefixWords) then
    advance
    let operand ← g.unary
    node first (.unary t.text) [operand]
  else if t.isMark "<" then
    let lang ← language
    if lang.hasMarkup then increment g
    else
      require lang.hasTypes
      advance
      let type ← g.type
      expectMark ">"
      let operand ← g.unary
      node first .typeAssertion [type, operand]
  else if ← startsAwait then
    if !(← context).allowsAwait then note
    advance
    let operand ← within (fun c => { c with allowsAwait := true }) g.unary
    node first .await [operand]
  else increment g

/-! ## §8. Binary operators -/

/-- Whether a tree is an operator that a power may not have on its left. -/
def isBarePrefix : Tree → Bool
  | .node _ (.unary _) _ => true
  | .node _ .await _ => true
  | _ => false

/-- Whether a tree mixes with `??` without parentheses. -/
def isBareLogical : Tree → Bool
  | .node _ (.logical op) _ => op != "??"
  | _ => false

/-- The operators behind an operand that bind tighter than `least`. -/
def binaryRest (g : Grammar) (first least : Nat) (head : Tree) : Parse Tree :=
  iterate (fun (lhs : Tree) => do
    joinGreater
    match ← precedence? with
    | none => return .done lhs
    | some precedence =>
      let t ← token
      let isTight := if t.isMark "**" then least ≤ precedence else least < precedence
      if !isTight then return .done lhs
      else if t.isWord "as" || t.isWord "satisfies" then
        if t.lineBefore then return .done lhs
        else
          advance
          let type ← g.type
          return .next (← node first (if t.text == "as" then .asType else .satisfiesType)
            [lhs, type])
      else
        advance
        let rhs ← g.operand precedence
        match t.text with
        | "??" =>
          if isBareLogical lhs || isBareLogical rhs then note
          return .next (← node first (.logical "??") [lhs, rhs])
        | "||" | "&&" => return .next (← node first (.logical t.text) [lhs, rhs])
        | op =>
          if op == "**" && isBarePrefix lhs then note
          return .next (← node first (.binary op) [lhs, rhs])) head

/-- An operand with the operators behind it that bind tighter than `least`. -/
def operand (g : Grammar) (least : Nat) : Parse Tree := do
  let first ← start
  let head ←
    if (← context).allowsIn && (← atKind .privateWord) then
      let name ← privateName
      expectWord "in"
      let rhs ← g.operand 8
      match rhs with
      | .node _ (.binary "in") (.node _ (.privateName _) _ :: _) => note
      | _ => pure ()
      node first (.binary "in") [name, rhs]
    else unary g
  binaryRest g first least head

/-! ## §9. Assignments -/

/-- Whether `yield` is an operator here. -/
def startsYield : Parse Bool := do
  if ← atWord "yield" then
    if (← context).allowsYield then return true else nextToken isOperandOnLine
  else return false

/-- An expression with `yield`. -/
def yieldExpression (g : Grammar) : Parse Tree := do
  let first ← start
  advance
  if !(← context).allowsYield then note
  let t ← token
  if t.lineBefore then node first (.yield false) [.absent]
  else
    let isDelegate ← eatMark "*"
    let n ← token
    let isEnd := n.kind == .eof || n.isWord "in" ||
      (n.kind == .punctuator && [";", "\x7d", ")", "]", ":", ","].contains n.text)
    if isEnd && !isDelegate then node first (.yield false) [.absent]
    else
      let operand ← within (fun c => { c with allowsYield := true }) (g.assignment true)
      node first (.yield isDelegate) [operand]

/-- Forgets the defaults of an object that has become a pattern. -/
def settleDefaults (span : Span) : Parse Unit := modify fun s =>
  { s with coverDefaults := s.coverDefaults.filter fun o => o < span.start || span.stop ≤ o }

/-- The two sides of a conditional behind its test. -/
def conditionalRest (g : Grammar) (first : Nat) (test : Tree) (allowsReturnType : Bool) :
    Parse Tree := do
  if ← eatMark "?" then
    let yes ← within (fun c => { c with allowsIn := true, inDecorator := false })
      (g.assignment false)
    expectMark ":"
    let no ← g.assignment allowsReturnType
    node first .conditional [test, yes, no]
  else return test

/-- What follows an operand: an assignment or a conditional.  The notes of comments in
    front are for the call that a conditional starts with. -/
def afterOperand (g : Grammar) (first : Nat) (lhs : Tree) (notes : List EffectNote)
    (allowsReturnType : Bool) : Parse Tree := do
  let t ← token
  if t.kind == .punctuator && assignmentMarks.contains t.text then
    let target ←
      if t.text == "=" then (lhs.target? : Option Tree) else asSimpleTarget lhs
    if t.text == "=" then settleDefaults lhs.span
    advance
    let value ← g.assignment allowsReturnType
    node first (.assignment t.text) [target, value]
  else
    let tree ← conditionalRest g first lhs allowsReturnType
    let tree := if notes.contains .pureCall then tree.withPureCall else tree
    return if notes.contains .pureFunction then tree.asPureFunction else tree

/-- An expression without commas. -/
def assignment (g : Grammar) (allowsReturnType : Bool) : Parse Tree := do
  let notes := (← token).notes
  let arrowOf (tree : Tree) : Tree :=
    if notes.contains .pureFunction then tree.asPureFunction else tree
  if ← startsYield then yieldExpression g
  else
    match ← parenthesizedArrow? g allowsReturnType with
    | some arrow => return arrowOf arrow
    | none =>
      match ← asyncSimpleArrow? g allowsReturnType with
      | some arrow => return arrowOf arrow
      | none =>
        let first ← start
        let lhs ← operand g 0
        match lhs.form with
        | .identifier _ =>
          if ← atMark "=>" then
            return arrowOf (← simpleArrow g first lhs false allowsReturnType)
          else afterOperand g first lhs notes allowsReturnType
        | _ => afterOperand g first lhs notes allowsReturnType

end Provenance.Script.Parse
