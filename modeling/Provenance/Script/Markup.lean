import Provenance.Script.Literal
import Provenance.Script.Types

/-! # Markup

  The parser of markup inside of scripts: tags with attributes, and between tags
  texts, expressions in braces and other markup.

  Between tags the text is read as it stands, so the last mark of a tag and the
  closing brace of an expression say how what follows is read.
-/

namespace Provenance.Script.Parse

open Text (Cursor)

/-! ## §1. Tokens -/

/-- Moves to the next child. -/
def advanceChild : Parse Unit := do
  let s ← get
  let (token, after) ← (childToken? s.after : Option _)
  set { s with previousStop := s.token.stop }
  setLexeme ⟨token, s.after, after, []⟩

/-- Takes a mark behind which a child follows, or else a token. -/
def expectEnd (mark : String) (isChild : Bool) : Parse Unit := do
  if ← atMark mark then
    if isChild then advanceChild else advance
  else failure

/-! ## §2. Names -/

/-- A part of a name: a word, with hyphens and what follows them, as it stands. -/
def namePart : Parse Tree := do
  let s ← get
  require (s.token.kind == .word)
  let (token, after) := tokenTo s.here (nameTail s.after.rest) s.token
  relex token after
  leaf (.markupName (← writtenText))

/-- Members behind a name, whose names have no hyphens. -/
def memberNames (first : Nat) (head : Tree) : Parse Tree :=
  iterate (fun (object : Tree) => do
    if ← eatMark "." then
      let property ← namePart
      match property.form with
      | .markupName text => require !(text.toList.contains '-')
      | _ => pure ()
      return .next (← node first .markupMember [object, property])
    else return .done object) head

/-- A name with or without a namespace. -/
def attributeName : Parse Tree := do
  let first ← start
  let head ← namePart
  if ← eatMark ":" then
    let name ← namePart
    node first .namespacedName [head, name]
  else return head

/-- The name of a tag. -/
def tagName : Parse Tree := do
  let first ← start
  let name ← attributeName
  match name.form with
  | .markupName _ => memberNames first name
  | _ => return name

/-! ## §3. Expressions in braces -/

/-- An expression in braces between tags, which may be empty or spread. -/
def childContainer (g : Grammar) : Parse Tree := do
  let first ← start
  expectMark "\x7b"
  if ← eatMark "..." then
    let e ← g.expression
    expectEnd "\x7d" true
    node first .childSpread [e]
  else if ← atMark "\x7d" then
    let empty : Tree := .node ⟨first + 1, ← start⟩ .emptyExpression []
    expectEnd "\x7d" true
    node first .container [empty]
  else
    let e ← g.expression
    expectEnd "\x7d" true
    node first .container [e]

/-! ## §4. Attributes -/

/-- The value of an attribute, at the mark in front of it. -/
def attributeValue (g : Grammar) : Parse Tree := do
  let s ← get
  let lexeme ← (lexemeBy? attributeToken? s.after s.token : Option Lexeme)
  set { s with previousStop := s.token.stop }
  setLexeme lexeme
  let first ← start
  if ← atKind .string then leaf (.attributeText lexeme.token.text)
  else if ← eatMark "\x7b" then
    let e ← g.expression
    expectMark "\x7d"
    node first .container [e]
  else
    expectMark "<"
    g.markup first false

/-- An attribute, or the spread of an object over attributes. -/
def tagAttribute (g : Grammar) : Parse Tree := do
  let first ← start
  if ← eatMark "\x7b" then
    expectMark "..."
    let e ← g.expression
    expectMark "\x7d"
    node first .attributeSpread [e]
  else
    let name ← attributeName
    let value ← if ← atMark "=" then attributeValue g else pure .absent
    node first .markupAttribute [name, value]

/-- Attributes up to the end of a tag. -/
def tagAttributes (g : Grammar) : Parse (List Tree) :=
  iterate (fun (list : List Tree) => do
    if ← atAnyMark [">", "/"] then return .done list.reverse
    else return .next ((← tagAttribute g) :: list)) []

/-! ## §5. Elements -/

/-- Whether two names are the same. -/
def sameName : Tree → Tree → Bool
  | .node _ (.markupName a) _, .node _ (.markupName b) _ => a == b
  | .node _ .namespacedName [a, b], .node _ .namespacedName [c, d] =>
    a.form == c.form && b.form == d.form
  | .node _ .markupMember [a, b], .node _ .markupMember [c, d] =>
    sameName a c && b.form == d.form
  | _, _ => false

/-- Children up to the closing tag, of which the marks at its start are taken; they
    come with the offset of that tag. -/
def markupChildren (g : Grammar) : Parse (List Tree × Nat) :=
  iterate (fun (children : List Tree) => do
    let t ← token
    if t.kind == .markupText then
      advanceChild
      return .next (.node ⟨t.start, t.stop⟩ (.markupText t.text) [] :: children)
    else if t.isMark "\x7b" then return .next ((← childContainer g) :: children)
    else
      expectMark "<"
      if ← eatMark "/" then return .done (children.reverse, t.start)
      else return .next ((← g.markup t.start true) :: children)) []

/-- A fragment, whose tags have no names. -/
def markupFragment (g : Grammar) (first : Nat) (isChild : Bool) : Parse Tree := do
  expectEnd ">" true
  let opening ← spanFrom first
  let (children, last) ← markupChildren g
  expectEnd ">" isChild
  let closing ← spanFrom last
  node first (.fragment opening closing) children

/-- An element, from the name in its tag on. -/
def markupElement (g : Grammar) (first : Nat) (isChild : Bool) : Parse Tree := do
  let name ← tagName
  let generics ← typeArguments g
  let attributes ← tagAttributes g
  let isSelfClosing ← eatMark "/"
  expectEnd ">" (!isSelfClosing || isChild)
  let opening ← node first (.openingTag isSelfClosing) (name :: generics :: attributes)
  if isSelfClosing then node first .element [opening, .absent]
  else
    let (children, last) ← markupChildren g
    let closingName ← tagName
    require (sameName name closingName)
    expectEnd ">" isChild
    let closing ← node last .closingTag [closingName]
    node first .element (opening :: closing :: children)

/-- Markup behind its first mark. -/
def markup (g : Grammar) (first : Nat) (isChild : Bool) : Parse Tree := do
  if ← atMark ">" then markupFragment g first isChild else markupElement g first isChild

end Provenance.Script.Parse
