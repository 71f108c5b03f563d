import Provenance.Script.Print.Quoted
import Provenance.Script.Tree
import Provenance.SourceMap
import Provenance.Text.Position

/-! # Pages

  A page is what has been printed so far, together with what the next piece of
  code depends on: how far it is indented, where a statement has just begun, which
  comments are still to come.  It also collects the segments of the source map.

  * Text is kept in reverse, so that its end is at hand.
  * Two segments that follow each other never name the same place of the source.
-/

namespace Provenance.Script

/-! ## §1. State -/

/-- A page. -/
structure Page where
  /-- The lines of the source. -/
  source : LineIndex
  /-- The comments that have not been printed. -/
  comments : List Comment := []
  /-- The text in reverse. -/
  text : List Char := []
  length : Nat := 0
  line : Nat := 0
  column : Nat := 0
  indent : Nat := 0
  /-- Whether a blank stands in for the next indentation. -/
  isJoined : Bool := false
  /-- The length of the text when a statement began, and likewise the body of an
      arrow function and a default export. -/
  statementStart : Option Nat := none
  arrowStart : Option Nat := none
  exportStart : Option Nat := none
  /-- The length of the text behind a number that a dot would continue. -/
  numberEnd : Option Nat := none
  /-- The length of the text behind a regular expression. -/
  regexEnd : Option Nat := none
  /-- The place of the source that the last segment names. -/
  mapped : Option Nat := none
  segments : List Segment := []
  names : List String := []

/-- A step of printing. -/
abbrev Print := StateM Page Unit

namespace Print

/-! ## §2. Text -/

/-- Prints a character. -/
def char (c : Char) : Print := modify fun p =>
  let isPaired := c = '\n' && p.text.head? == some '\r'
  let p := { p with text := c :: p.text, length := p.length + 1 }
  if isPaired then p
  else if Text.isLineEnd c then { p with line := p.line + 1, column := 0 }
  else { p with column := p.column + Text.unitsOf c }

/-- Prints characters. -/
def chars : List Char → Print
  | [] => pure ()
  | c :: r => do
    char c
    chars r

/-- Prints a text. -/
def text (s : String) : Print := chars s.toList

/-- Prints a blank. -/
def blank : Print := char ' '

/-- Ends the line. -/
def newLine : Print := char '\n'

/-- Prints the indentation of a line. -/
def indentation : Print := do
  let p ← get
  if p.isJoined then
    modify fun p => { p with isJoined := false }
    blank
  else chars (List.replicate p.indent '\t')

/-- Prints something one step further in. -/
def indented (inner : Print) : Print := do
  modify fun p => { p with indent := p.indent + 1 }
  inner
  modify fun p => { p with indent := p.indent - 1 }

/-- Lets a blank stand in for the next indentation. -/
def joinNext : Print := modify fun p => { p with isJoined := true }

/-- Ends a statement. -/
def endStatement : Print := do
  char ';'
  newLine

/-- Keeps the next word apart from what is printed. -/
def beforeWord : Print := do
  let p ← get
  match p.text with
  | c :: _ => if Text.isIdentifierPart c || p.regexEnd = some p.length then blank else pure ()
  | [] => pure ()

/-- Keeps the sign of an operator apart from the same sign in front of it. -/
def beforeSign (op : String) : Print := do
  let p ← get
  match op.toList, p.text with
  | s :: _, c :: _ => if s = c && (c = '+' || c = '-') then blank else pure ()
  | _, _ => pure ()

/-- Prints something in parentheses if they are needed. -/
def wrapped (isNeeded : Bool) (inner : Print) : Print := do
  if isNeeded then
    char '('
    inner
    char ')'
  else inner

/-- Prints items with something between them. -/
def separated (separator : Print) : List Print → Print
  | [] => pure ()
  | [item] => item
  | item :: rest => do
    item
    separator
    separated separator rest

/-- Prints items with commas between them. -/
def commaSeparated (items : List Print) : Print := separated (text ", ") items

/-- Prints items one to a line, further in, with commas between them. -/
def onLines (items : List Print) : Print := do
  indented (separated (char ',') (items.map fun item => do
    newLine
    indentation
    item))
  newLine
  indentation

/-! ## §3. Segments -/

/-- Names the place of the source that what follows stems from. -/
def mapOffset (offset : Nat) (name : Option String) : Print := modify fun p =>
  if p.mapped = some offset then p
  else
    let position := p.source.position offset
    let names := match name with
      | some name => if p.names.contains name then p.names else p.names ++ [name]
      | none => p.names
    { p with
      mapped := some offset
      names
      segments :=
        { generatedLine := p.line, generatedColumn := p.column, line := position.line - 1,
          column := position.column, name := name.bind names.idxOf? } :: p.segments }

/-- Whether a span has some source in it.  What was added to a tree has none. -/
def isInSource (span : Span) : Bool := span.start < span.stop

/-- What follows stems from the start of a span. -/
def mapStart (span : Span) : Print := do
  if isInSource span then mapOffset span.start none

/-- What follows stems from the end of a span.  The end of the source is no place in
    it. -/
def mapStop (span : Span) : Print := do
  if isInSource span && span.stop < Text.byteSize (← get).source.text then
    mapOffset span.stop none

/-- A name follows.  Where the source writes it otherwise, the segment says so. -/
def mapName (span : Span) (name : String) : Print := do
  if isInSource span then
    let p ← get
    let written := ((Text.slice? p.source.text span.start span.stop).map String.ofList).getD ""
    mapOffset span.start (if written = name then none else some written)

/-! ## §4. Comments -/

/-- The lines of a comment. -/
def commentLines : List Char → List (List Char)
  | [] => [[]]
  | '\r' :: '\n' :: r => [] :: commentLines r
  | c :: r =>
    if Text.isLineEnd c then [] :: commentLines r
    else
      match commentLines r with
      | line :: rest => (c :: line) :: rest
      | [] => [[c]]

/-- Prints the text of a comment.  The lines of a block are indented anew. -/
def commentText (comment : Comment) : Print :=
  match commentLines comment.text.toList with
  | [] => pure ()
  | first :: rest => do
    chars (hideScriptEnd first)
    rest.forM fun line => do
      newLine
      indentation
      chars (hideScriptEnd (line.dropWhile Text.isBlank))

/-- Prints what comes in front of the first of some comments. -/
def beforeComments (comment : Comment) : Print := do
  if comment.lineBefore then
    match (← get).text.head? with
    | none => pure ()
    | some c =>
      if c = '\n' then indentation
      else if c = '\t' then pure ()
      else
        newLine
        indentation
  else indentation

/-- Prints what stands between a comment and the one behind it. -/
def betweenComments (comment next : Comment) : Print := do
  if comment.endsLine then
    newLine
    indentation
  else if next.isLegal then newLine
  else blank

/-- Prints comments in a row. -/
def commentList : List Comment → Print
  | [] => pure ()
  | [last] => do
    commentText last
    if last.endsLine then newLine
  | comment :: next :: rest => do
    commentText comment
    betweenComments comment next
    commentList (next :: rest)

/-- The comments that are to come before an offset of the source. -/
def commentsOf (owner : Nat) (p : Page) : List Comment := p.comments.filter (·.owner = owner)

/-- Takes the comments that are to come before an offset of the source. -/
def takeComments (owner : Nat) : StateM Page (List Comment) := do
  let comments := commentsOf owner (← get)
  modify fun p => { p with comments := p.comments.filter (·.owner ≠ owner) }
  return comments

/-- Prints comments, and what comes in front of them. -/
def commentRow (comments : List Comment) : Print := do
  comments.head?.forM beforeComments
  commentList comments

/-- Prints the comments that belong to the token at an offset of the source.  A blank
    stands between them and what follows on their line. -/
def commentsAt (owner : Nat) : Print := do
  let comments ← takeComments owner
  commentRow comments
  if comments.getLast?.any fun last => !last.endsLine then joinNext

/-! ## §5. Marks of places -/

/-- Whether the text ends where a mark was set. -/
def isAt (mark : Page → Option Nat) : StateM Page Bool := do
  let p ← get
  return mark p == some p.length

/-- A statement begins here. -/
def markStatement : Print := modify fun p => { p with statementStart := some p.length }

/-- The body of an arrow function begins here. -/
def markArrow : Print := modify fun p => { p with arrowStart := some p.length }

/-- A default export begins here. -/
def markExport : Print := modify fun p => { p with exportStart := some p.length }

/-- Whether a function or a class would be taken for a declaration here. -/
def isDeclarationPlace : StateM Page Bool := do
  return (← isAt (·.statementStart)) || (← isAt (·.exportStart))

/-- Whether a brace would be taken for a block here. -/
def isBlockPlace : StateM Page Bool := do
  return (← isAt (·.statementStart)) || (← isAt (·.arrowStart))

end Print

end Provenance.Script
