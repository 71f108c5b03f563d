import Provenance.Script.Expression
import Provenance.Script.Module

/-! # Statements

  The parser of statements.  A statement that stands alone as the body of another
  may not be a declaration whose name it would have to itself.
-/

namespace Provenance.Script.Parse

/-! ## §1. Blocks -/

/-- A block. -/
def block (g : Grammar) : Parse Tree := do
  let first ← start
  expectMark "\x7b"
  let statements ← statementList g
  expectMark "\x7d"
  node first .block statements

/-- An expression in parentheses that decides what a statement does. -/
def condition (g : Grammar) : Parse Tree := do
  expectMark "("
  let e ← within (fun c => { c with allowsIn := true }) g.expression
  expectMark ")"
  return e

/-- A statement in two ways. -/
def ifStatement (g : Grammar) : Parse Tree := do
  let first ← start
  advance
  let test ← condition g
  let yes ← g.statement true
  let no ← if ← eatWord "else" then g.statement true else pure .absent
  node first .ifStatement [test, yes, no]

/-! ## §2. Loops -/

/-- A loop that tests first. -/
def whileStatement (g : Grammar) : Parse Tree := do
  let first ← start
  advance
  let test ← condition g
  let body ← g.statement true
  node first .whileStatement [test, body]

/-- A loop that tests last. -/
def doStatement (g : Grammar) : Parse Tree := do
  let first ← start
  advance
  let body ← g.statement true
  expectWord "while"
  let test ← condition g
  let _ ← eatMark ";"
  node first .doStatement [body, test]

/-- The rest of a loop with three parts behind the first of them. -/
def forRest (g : Grammar) (first : Nat) (init : Tree) (isAwait : Bool) : Parse Tree := do
  if isAwait then note
  expectMark ";"
  let test ← if ← atMark ";" then pure .absent else g.expression
  expectMark ";"
  let update ← if ← atMark ")" then pure .absent else g.expression
  expectMark ")"
  let body ← g.statement true
  node first .forStatement [init, test, update, body]

/-- The rest of a loop over something behind its target. -/
def forEachRest (g : Grammar) (first : Nat) (target : Tree) (isAwait : Bool) : Parse Tree := do
  if ← eatWord "in" then
    if isAwait then note
    let object ← g.expression
    expectMark ")"
    let body ← g.statement true
    node first .forIn [target, object, body]
  else
    expectWord "of"
    let object ← g.assignment true
    expectMark ")"
    let body ← g.statement true
    node first (.forOf isAwait) [target, object, body]

/-- Whether a loop over something goes on here. -/
def atEach : Parse Bool := atAnyWord ["in", "of"]

/-- Whether a token can follow the word of a variable. -/
def canFollowLet (t : Token) : Bool :=
  t.isPlainName || t.isMark "\x7b" || t.isMark "[" || ["await", "yield"].contains t.text

/-- Whether a declaration of a resource that is awaited starts here. -/
def startsAwaitUsing : Parse Bool := do
  if ← atWord "await" then
    lookahead do
      advance
      if (← atWord "using") && !(← token).lineBefore then
        advance
        let n ← token
        return n.isPlainName && !n.lineBefore
      else return false
  else return false

/-- The words of a variable in the head of a loop, which are taken. -/
def forVariableWord? : Parse (Option String) := do
  let t ← token
  if t.isWord "var" || t.isWord "const" then
    advance
    return some t.text
  else if t.isWord "let" && (← nextToken canFollowLet) then
    advance
    return some "let"
  else if t.isWord "using" &&
      (← nextToken fun n => n.isPlainName && !n.lineBefore && !n.isWord "of") then
    advance
    return some "using"
  else if ← startsAwaitUsing then
    advance
    advance
    return some "await using"
  else return none

/-- The kinds of variables that hold resources. -/
def resourceKinds : List String := ["using", "await using"]

/-- A loop with a head. -/
def forStatement (g : Grammar) : Parse Tree := do
  let first ← start
  advance
  let isAwait ← eatWord "await"
  if isAwait && !(← context).allowsAwait then note
  expectMark "("
  if ← atMark ";" then forRest g first .absent isAwait
  else
    let inner ← start
    match ← forVariableWord? with
    | some word =>
      let init ← within (fun c => { c with allowsIn := false }) (variableList g inner word false)
      if ← atEach then
        if resourceKinds.contains word && (← atWord "in") then note
        forEachRest g first init isAwait
      else
        if init.parts.any (lacksValue word) then note
        forRest g first init isAwait
    | none =>
      let isLet ← atWord "let"
      let isAsync ← atWord "async"
      let init ← within (fun c => { c with allowsIn := false }) g.expression
      if ← atEach then
        if (← atWord "of") && (isLet || (isAsync && !isAwait && init.form == .identifier "async"))
        then note
        settle init
        let target ← (init.target? : Option Tree)
        forEachRest g first target isAwait
      else forRest g first init isAwait
where
  /-- Forgets the defaults of an object that has become a pattern. -/
  settle (tree : Tree) : Parse Unit := modify fun s =>
    { s with coverDefaults :=
        s.coverDefaults.filter fun o => o < tree.span.start || tree.span.stop ≤ o }

/-! ## §3. Jumps -/

/-- A label behind a jump, if one is there. -/
def jumpLabel : Parse Tree := do
  if ← canEndStatement then return .absent else reference

/-- A jump to a label or the end or start of a loop. -/
def jump (form : Form) : Parse Tree := do
  let first ← start
  advance
  let label ← jumpLabel
  endStatement
  node first form [label]

/-- The return of a value. -/
def returnStatement (g : Grammar) : Parse Tree := do
  let first ← start
  advance
  if !(← context).allowsReturn then note
  let value ←
    if ← canEndStatement then pure .absent
    else within (fun c => { c with allowsIn := true }) g.expression
  endStatement
  node first .returnStatement [value]

/-- The throw of a value, which starts on the same line. -/
def throwStatement (g : Grammar) : Parse Tree := do
  let first ← start
  advance
  if (← token).lineBefore then note
  let value ← g.expression
  endStatement
  node first .throwStatement [value]

/-! ## §4. Statements with parts -/

/-- A case of a switch. -/
def switchCase (g : Grammar) : Parse Tree := do
  let first ← start
  let test ←
    if ← eatWord "default" then pure .absent
    else
      expectWord "case"
      g.expression
  expectMark ":"
  let statements ← iterate (fun (list : List Tree) => do
    if (← atMark "\x7d") || (← atAnyWord ["case", "default"]) then return .done list.reverse
    else
      let statement ← g.statement false
      match statement.form with
      | .variableList kind _ => if resourceKinds.contains kind then note
      | _ => pure ()
      return .next (statement :: list)) []
  node first .switchCase (test :: statements)

/-- A choice among cases. -/
def switchStatement (g : Grammar) : Parse Tree := do
  let first ← start
  advance
  let value ← condition g
  expectMark "\x7b"
  let cases ← iterate (fun (list : List Tree) => do
    if ← atMark "\x7d" then return .done list.reverse
    else return .next ((← switchCase g) :: list)) []
  expectMark "\x7d"
  node first .switchStatement (value :: cases)

/-- The part that handles what is thrown. -/
def catchClause (g : Grammar) : Parse Tree := do
  let first ← start
  advance
  let pattern ←
    if ← eatMark "(" then
      let pattern ← typedPattern g false
      expectMark ")"
      pure pattern
    else pure .absent
  let body ← block g
  node first .catchClause [pattern, body]

/-- A block whose failures are handled, or that something follows in any case. -/
def tryStatement (g : Grammar) : Parse Tree := do
  let first ← start
  advance
  let body ← block g
  let handler ← if ← atWord "catch" then catchClause g else pure .absent
  let finalizer ← if ← eatWord "finally" then block g else pure .absent
  if handler.isAbsent && finalizer.isAbsent then note
  node first .tryStatement [body, handler, finalizer]

/-- A statement in the scope of an object. -/
def withStatement (g : Grammar) : Parse Tree := do
  let first ← start
  advance
  let object ← condition g
  let body ← g.statement true
  node first .withStatement [object, body]

/-! ## §5. Statements that start with a word -/

/-- An expression as a statement, or a statement with a label. -/
def expressionStatement (g : Grammar) : Parse Tree := do
  let first ← start
  let e ← g.expression
  match e.form with
  | .identifier _ =>
    if ← eatMark ":" then
      let body ← g.statement true
      node first .labeled [e, body]
    else
      endStatement
      node first .expressionStatement [e]
  | _ =>
    endStatement
    node first .expressionStatement [e]

/-- Variables behind `let`, or an expression that starts with the name `let`. -/
def letStatement (g : Grammar) (isAlone : Bool) : Parse Tree := do
  let first ← start
  let isName ← nextToken fun n =>
    (n.kind == .punctuator && (assignmentMarks.contains n.text || (markPrecedence? n.text).isSome ||
      n.text == "." || n.text == "(" || n.text == ";")) || n.isWord "in" || n.isWord "instanceof"
  let isOtherwiseName ←
    if isAlone then nextToken fun n => !n.isMark "[" else pure false
  if isName || isOtherwiseName then expressionStatement g
  else
    if isAlone then note
    advance
    variableStatement g first "let" false

/-- Whether a declaration of a resource starts here. -/
def startsUsing : Parse Bool := do
  if ← atWord "using" then
    nextToken fun n => n.isPlainName && !n.lineBefore
  else return false

/-- A function as a statement. -/
def functionStatement (g : Grammar) (isAlone : Bool) : Parse Tree := do
  let first ← start
  let tree ← functionDeclaration g first false false
  match tree.form with
  | .function isAsync isGenerator _ _ => if isAlone && (isAsync || isGenerator) then note
  | _ => pure ()
  return tree

/-- A class as a statement, with its decorators, or an export of one. -/
def classStatement (g : Grammar) (isAlone : Bool) : Parse Tree := do
  let first ← start
  if isAlone then note
  let decorations ← decorators g
  if ← atWord "export" then exportDeclaration g decorations
  else if ← atWord "class" then classRest g first decorations false false
  else
    require ((← language).hasTypes && (← atAnyWord ["abstract", "declare"]))
    let isDeclare ← eatWord "declare"
    let isAbstract ← eatWord "abstract"
    classRest g first decorations isAbstract isDeclare

/-- A statement that starts with a word. -/
def wordStatement (g : Grammar) (isAlone : Bool) (word : String) : Parse Tree := do
  let first ← start
  match word with
  | "if" => ifStatement g
  | "do" => doStatement g
  | "while" => whileStatement g
  | "for" => forStatement g
  | "continue" => jump .continueStatement
  | "break" => jump .breakStatement
  | "with" => withStatement g
  | "switch" => switchStatement g
  | "throw" => throwStatement g
  | "try" => tryStatement g
  | "return" => returnStatement g
  | "debugger" =>
    advance
    endStatement
    node first .debuggerStatement []
  | "class" => classStatement g isAlone
  | "export" => exportDeclaration g []
  | "var" =>
    advance
    variableStatement g first "var" false
  | "const" =>
    if (← language).hasTypes && (← nextToken fun n => n.isWord "enum") then
      typedDeclaration g first
    else
      if isAlone then note
      advance
      variableStatement g first "const" false
  | "let" => letStatement g isAlone
  | "function" => functionStatement g isAlone
  | _ =>
    if ← startsAsyncFunction then functionStatement g isAlone
    else if ← startsImport then importDeclaration
    else if ← startsUsing then
      if isAlone then note
      advance
      variableStatement g first "using" false
    else if ← startsAwaitUsing then
      if isAlone then note
      advance
      advance
      variableStatement g first "await using" false
    else if ← startsTypedDeclaration then typedDeclaration g first
    else expressionStatement g

/-- A statement. -/
def statement (g : Grammar) (isAlone : Bool) : Parse Tree := do
  let first ← start
  let t ← token
  let tree ←
    if t.kind == .word && !t.escaped then wordStatement g isAlone t.text
    else if t.isMark "\x7b" then block g
    else if t.isMark ";" then
      advance
      node first .emptyStatement []
    else if t.isMark "@" then classStatement g isAlone
    else expressionStatement g
  return if t.notes.contains .pureFunction then tree.withPureFunction else tree

end Provenance.Script.Parse
