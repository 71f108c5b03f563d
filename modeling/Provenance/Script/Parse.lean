import Provenance.Script.Lexer
import Provenance.Script.Tree

/-! # Parsing

  A parser works on the current token and the text behind it.  It fails with
  `none`; a fault that does not stop it is noted instead, and a parse counts only
  if none was noted.  Trying something keeps the notes of what was tried and
  succeeded.

  Recursion goes through a `Grammar`: a parser takes the grammar that it may call
  for what is nested in it, and the grammar of each depth is built from the one
  below.  So each parser is an ordinary definition, and only the depth of nesting
  needs a bound, which the length of the text gives.
-/

namespace Provenance.Script

open Text (Cursor)

/-! ## §1. Languages and contexts -/

/-- What kind of program a text is. -/
inductive Goal where
  /-- A module: `await` is an operator outside of functions. -/
  | module
  /-- A plain script. -/
  | script
  /-- A script that runs as the body of a function. -/
  | functionBody
deriving DecidableEq, Repr

/-- The language of a text. -/
structure Language where
  hasTypes : Bool
  hasMarkup : Bool
  goal : Goal
deriving DecidableEq, Repr

/-- What the place of a piece of text lets it hold. -/
structure Context where
  /-- Whether `in` is an operator. -/
  allowsIn : Bool := true
  /-- Whether `yield` is an operator. -/
  allowsYield : Bool := false
  /-- Whether `await` is an operator. -/
  allowsAwait : Bool := false
  /-- Whether `return` is allowed. -/
  allowsReturn : Bool := false
  /-- Whether a type may be conditional. -/
  allowsConditionalType : Bool := true
  /-- Inside of a decorator, where brackets belong to what follows. -/
  inDecorator : Bool := false
  /-- Inside of a declaration that only declares. -/
  isAmbient : Bool := false
deriving DecidableEq, Repr

/-! ## §2. Parsers -/

/-- The state of a parser. -/
structure ParseState where
  language : Language
  context : Context
  /-- More steps than any loop over the text takes. -/
  bound : Nat
  /-- The current token. -/
  token : Token
  /-- The cursor at the current token. -/
  here : Cursor
  /-- The cursor behind the current token. -/
  after : Cursor
  /-- Where the token before the current one ends. -/
  previousStop : Nat := 0
  /-- The comments that belong to tokens, latest first. -/
  comments : List Comment := []
  /-- Where object literals have defaults that only patterns may have. -/
  coverDefaults : List Nat := []
  /-- Whether no fault was noted. -/
  isSound : Bool := true
  /-- Whether something that only modules have was seen. -/
  usesModules : Bool := false

/-- A parser. -/
abbrev Parse := StateT ParseState Option

namespace Parse

/-- The current token. -/
def token : Parse Token := return (← get).token

/-- The language of the text. -/
def language : Parse Language := return (← get).language

/-- The present context. -/
def context : Parse Context := return (← get).context

/-- Notes a fault. -/
def note : Parse Unit := modify fun s => { s with isSound := false }

/-- Makes a lexeme the current token. -/
def setLexeme (lexeme : Lexeme) : Parse Unit := modify fun s =>
  { s with token := lexeme.token, here := lexeme.here, after := lexeme.after,
           comments := lexeme.comments.reverse ++ s.comments }

/-- Moves to the next token. -/
def advance : Parse Unit := do
  let s ← get
  let lexeme ← (lexeme? s.after s.token : Option Lexeme)
  set { s with previousStop := s.token.stop }
  setLexeme lexeme

/-- Makes the text from `here` to `after` the current token. -/
def relex (token : Token) (after : Cursor) : Parse Unit := modify fun s =>
  { s with token, after }

/-- The outcome of a test after which nothing has moved.  A test that fails is
    negative. -/
def lookahead (test : Parse Bool) : Parse Bool := fun s =>
  match test s with
  | some (result, _) => some (result, s)
  | none => some (false, s)

/-- Runs a parser and goes back to where it started if it fails. -/
def attempt {α : Type} (p : Parse α) : Parse (Option α) := fun s =>
  match p s with
  | some (a, s) => some (some a, s)
  | none => some (none, s)

/-- Runs a parser in a changed context. -/
def within {α : Type} (change : Context → Context) (p : Parse α) : Parse α := do
  let context := (← get).context
  modify fun s => { s with context := change context }
  let a ← p
  modify fun s => { s with context }
  return a

/-- What a step of a loop comes to. -/
inductive Step (α β : Type) where
  | next (a : α)
  | done (b : β)

/-- Repeats a step until it is done, at most `fuel` times. -/
def iterateFor {α β : Type} (step : α → Parse (Step α β)) : Nat → α → Parse β
  | 0, _ => failure
  | fuel + 1, a => do
    match ← step a with
    | .next a => iterateFor step fuel a
    | .done b => return b

/-- Repeats a step until it is done.  The text bounds how often, since every step
    but the last takes a token. -/
def iterate {α β : Type} (step : α → Parse (Step α β)) (a : α) : Parse β := do
  iterateFor step (← get).bound a

/-! ## §3. Tokens -/

/-- Whether the current token is this punctuator. -/
def atMark (text : String) : Parse Bool := return (← get).token.isMark text

/-- Whether the current token is this word. -/
def atWord (text : String) : Parse Bool := return (← get).token.isWord text

/-- Whether the current token is of this kind. -/
def atKind (kind : TokenKind) : Parse Bool := return (← get).token.kind == kind

/-- Takes this punctuator if it is there. -/
def eatMark (text : String) : Parse Bool := do
  if ← atMark text then
    advance
    return true
  else return false

/-- Takes this word if it is there. -/
def eatWord (text : String) : Parse Bool := do
  if ← atWord text then
    advance
    return true
  else return false

/-- Takes this punctuator. -/
def expectMark (text : String) : Parse Unit := do
  if ← atMark text then advance else failure

/-- Takes this word. -/
def expectWord (text : String) : Parse Unit := do
  if ← atWord text then advance else failure

/-- Whether the current token is one of these punctuators. -/
def atAnyMark (texts : List String) : Parse Bool := do
  let t ← token
  return t.kind == .punctuator && texts.contains t.text

/-- Whether the current token is one of these words. -/
def atAnyWord (texts : List String) : Parse Bool := do
  let t ← token
  return t.kind == .word && !t.escaped && texts.contains t.text

/-- The text of the current token as it stands. -/
def writtenText : Parse String := do
  let s ← get
  let width := s.token.stop - s.token.start
  return String.ofList (((Text.cut? width s.here.rest).map (·.1)).getD [])

/-- The test of the token behind the current one. -/
def nextToken (test : Token → Bool) : Parse Bool :=
  lookahead do
    advance
    return test (← token)

/-- Where the current token starts. -/
def start : Parse Nat := return (← get).token.start

/-- The span from an offset to the end of the token before the current one. -/
def spanFrom (start : Nat) : Parse Span := return ⟨start, (← get).previousStop⟩

/-- A node that ends before the current token. -/
def node (start : Nat) (form : Form) (parts : List Tree) : Parse Tree := do
  return .node (← spanFrom start) form parts

/-- Whether a statement can end before the current token. -/
def canEndStatement : Parse Bool := do
  let t ← token
  return t.lineBefore || t.kind == .eof || t.isMark ";" || t.isMark "\x7d"

/-- Ends a statement: by a semicolon, or where one can be left out. -/
def endStatement : Parse Unit := do
  if ← canEndStatement then
    let _ ← eatMark ";"
  else failure

/-- Fails unless a condition holds. -/
def require (condition : Bool) : Parse Unit := if condition then pure () else failure

/-! ## §4. Reading a token anew -/

/-- Reads an angle bracket together with the marks behind it. -/
def joinGreater : Parse Unit := do
  let s ← get
  if s.token.isMark ">" then
    let marks := s.here.rest.takeWhile fun c => c = '>' || c = '='
    let text : String := match marks with
      | '>' :: '>' :: '>' :: '=' :: _ => ">>>="
      | '>' :: '>' :: '>' :: _ => ">>>"
      | '>' :: '>' :: '=' :: _ => ">>="
      | '>' :: '>' :: _ => ">>"
      | '>' :: '=' :: _ => ">="
      | _ => ">"
    let after := s.here.skip text.length
    relex { s.token with text, stop := after.offset } after

/-- Reads an opening angle bracket alone. -/
def splitLess : Parse Unit := do
  let s ← get
  if s.token.kind == .punctuator && s.token.text.startsWith "<" then
    let after := s.here.skip 1
    relex { s.token with text := "<", stop := after.offset } after

/-- Reads a closing brace together with the part of a template behind it. -/
def resumeTemplate : Parse Unit := do
  let s ← get
  if s.token.isMark "\x7d" then
    let (token, after) ← (templateToken? s.here s.token.lineBefore : Option _)
    relex token after
  else failure

/-! ## §5. Grammars -/

end Parse

/-- The parsers that others may call for what is nested in them. -/
structure Grammar where
  /-- An expression, with commas. -/
  expression : Parse Tree := failure
  /-- An expression without commas; the flag says whether the parameters of an
      arrow function in it may have a return type without more ado. -/
  assignment : Bool → Parse Tree := fun _ => failure
  /-- An operand of an operator of this precedence, with what binds tighter. -/
  operand : Nat → Parse Tree := fun _ => failure
  /-- The operand of a prefix operator. -/
  unary : Parse Tree := failure
  /-- The operand of an increment in front. -/
  incrementOperand : Parse Tree := failure
  /-- What can be called or be the object of a member. -/
  leftHandSide : Parse Tree := failure
  /-- The callee of `new`. -/
  newCallee : Parse Tree := failure
  /-- A statement; the flag says that it stands alone as the body of another. -/
  statement : Bool → Parse Tree := fun _ => failure
  /-- A type. -/
  type : Parse Tree := failure
  /-- A type behind an operator on types. -/
  operatorType : Parse Tree := failure
  /-- A pattern that binds names. -/
  pattern : Parse Tree := failure
  /-- Markup behind its angle bracket, which starts at the offset; the flag says
      that it is a child of other markup. -/
  markup : Nat → Bool → Parse Tree := fun _ _ => failure

end Provenance.Script
