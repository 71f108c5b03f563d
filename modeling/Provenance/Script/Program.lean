import Provenance.Script.Export
import Provenance.Script.Markup
import Provenance.Script.Statement

/-! # Programs

  The grammar of all nested parsers, built up to a depth that the length of a text
  bounds, and the two entries: a text that is an expression, and a text that is a
  program.
-/

namespace Provenance.Script

open Text (Cursor)

/-! ## §1. The grammar -/

/-- The grammar in which texts nest to a depth.  Each token opens at most two
    levels, so that twice the length of a text is deep enough for it. -/
def grammar : Nat → Grammar
  | 0 => {}
  | depth + 1 =>
    let g := grammar depth
    { expression := Parse.expression g (Parse.assignment g true)
      assignment := Parse.assignment g
      operand := Parse.operand g
      unary := Parse.unary g
      incrementOperand := Parse.unary g
      leftHandSide := Parse.leftHandSide g
      newCallee := Parse.newCallee g
      statement := Parse.statement g
      type := Parse.type g
      operatorType := Parse.operatorType g
      pattern := Parse.pattern g
      markup := Parse.markup g }

/-- A depth to which no text of some characters nests. -/
def depthOf (text : List Char) : Nat := 2 * text.length + 50

/-! ## §2. Running parsers -/

/-- What a sound parse yields. -/
structure Parsed where
  tree : Tree
  /-- The comments in the order of the text. -/
  comments : List Comment
  usesModules : Bool

/-- The context at the start of a text. -/
def Language.context (language : Language) : Context where
  allowsAwait := language.goal == .module
  allowsReturn := language.goal == .functionBody

/-- Runs a parser from a cursor on.  No fault may be noted. -/
def parseFrom? (language : Language) (c : Cursor) (p : Parse Tree) : Option Parsed := do
  let lexeme ← lexeme? c { kind := .eof }
  let start : ParseState :=
    { language, context := language.context, bound := c.rest.length + 3, token := lexeme.token, here := lexeme.here,
      after := lexeme.after, comments := lexeme.comments.reverse }
  let (tree, s) ← p.run start
  if s.isSound && s.coverDefaults.isEmpty then
    return ⟨tree, s.comments.reverse, s.usesModules⟩
  else none

/-- The expression at the start of a text. -/
def parseExpression? (language : Language) (text : List Char) : Option Tree := do
  let g := grammar (depthOf text)
  let parsed ← parseFrom? language ⟨0, text⟩ g.expression
  return parsed.tree

/-- The line that names an interpreter, if a text starts with one. -/
def hashbang? : List Char → Option (List Char)
  | '#' :: '!' :: r => some (r.takeWhile fun c => !Text.isLineEnd c)
  | _ => none

/-- A program.  Where there are types, one name may be exported several times. -/
def parseProgram? (language : Language) (text : List Char) : Option Parsed :=
  let g := grammar (depthOf text)
  let line := hashbang? text
  let c : Cursor := ⟨0, text⟩
  let c := match line with
    | some chars => c.skip (chars.length + 2)
    | none => c
  parseFrom? language c do
    let statements ← Parse.directivesAndStatements g
    Parse.require (← Parse.atKind .eof)
    Parse.require (language.hasTypes || Tree.exportsOnce statements)
    return .node ⟨0, Text.byteSize text⟩ (.program (line.map String.ofList)) statements

/-! ## §3. Files -/

/-- The part of a path behind its last slash; slashes and single dots at the end
    do not count. -/
def fileNameOf (path : String) : Option String :=
  let parts := (path.splitOn "/").filter fun part => part ≠ "" ∧ part ≠ "."
  match parts.getLast? with
  | some ".." => none
  | name => name

/-- The extension of a file: what stands behind the last dot of its name, if
    something stands in front of that dot. -/
def extensionOf (path : String) : Option String := do
  let name ← fileNameOf path
  let parts := name.splitOn "."
  match parts.dropLast with
  | [] => none
  | [""] => none
  | _ => parts.getLast?

/-- The languages of which a file may be, by its extension, the first that fits
    being the one.  A file that could be a module or a script is a module only if
    it uses something that just modules have. -/
def parseFile? (path : String) (text : List Char) : Option Parsed :=
  let parse (hasTypes : Bool) (goal : Goal) := parseProgram? ⟨hasTypes, true, goal⟩ text
  let either (hasTypes : Bool) :=
    match (parse hasTypes .module).filter (·.usesModules) with
    | some parsed => some parsed
    | none => parse hasTypes .script
  match extensionOf path with
  | some "js" | some "jsx" => either false
  | some "ts" | some "tsx" => either true
  | some "mjs" => parse false .module
  | some "cjs" => parse false .functionBody
  | some "cts" => parse true .functionBody
  | _ => parse true .module

end Provenance.Script
