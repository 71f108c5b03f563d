import Provenance.Script.Print.Type

/-! # Printed statements

  The rules for statements and declarations: one statement to a line, each further
  in than the one that holds it, with its comments in front of it.

  A segment of the source map stands in front of the indentation of a statement
  that says what to do and of what joins a module to others, and behind that of any
  other declaration.
-/

namespace Provenance.Script.Print

/-! ## §1. Lines -/

/-- Prints a statement that says what to do: its comments, and its first word. -/
def lead (span : Span) (s : String) : Print := do
  commentsAt span.start
  mapStart span
  indentation
  beforeWord
  text s

/-- Prints what comes in front of a statement that is no word of its own.  At the
    start of a line it needs no segment. -/
def expressionLead (span : Span) : Print := do
  commentsAt span.start
  let p ← get
  if p.indent > 0 || p.isJoined then
    mapStart span
    indentation

/-- Prints what comes in front of a declaration. -/
def declarationLead (span : Span) : Print := do
  commentsAt span.start
  indentation

/-- Prints what comes in front of the declaration of a type: the comments stand behind
    the indentation. -/
def typeLead (span : Span) : Print := do
  indentation
  commentsAt span.start

/-- Prints the declaration of a type at a place: with its line, or without it. -/
def typeDeclared (span : Span) (place : Place) (endsPlain : Bool) (inner : Print) : Print := do
  if place.role = .statement then
    typeLead span
    inner
    if endsPlain then newLine else endStatement
  else inner

/-- Prints what comes in front of what joins a module to others. -/
def moduleLead (span : Span) : Print := do
  commentsAt span.start
  mapStart span
  indentation

/-- Prints a declaration at a place: with its line, or without it. -/
def declared (span : Span) (place : Place) (endsPlain : Bool) (inner : Print) : Print := do
  if place.role = .statement then
    declarationLead span
    inner
    if endsPlain then newLine else endStatement
  else inner

/-! ## §2. Lists of statements -/

/-- Whether a statement is nothing but a string, and would be taken for a
    directive. -/
def isString : Tree → Bool
  | .node _ .expressionStatement [e] =>
    match e.withoutParentheses.form with
    | .string _ _ => true
    | _ => false
  | _ => false

/-- Prints a string as a statement that is no directive. -/
def parenthesizedString (tree : Tree) : Print :=
  match tree with
  | .node _ _ [e] =>
    match e.withoutParentheses with
    | .node span (.string value hasHalves) _ => do
      char '('
      mapStart span
      chars (stringText value hasHalves)
      char ')'
      endStatement
    | _ => pure ()
  | _ => pure ()

/-- Prints directives and statements. -/
def directivesAndStatements (parts : List Part) : Print :=
  match parts with
  | [] => pure ()
  | first :: rest =>
    if isString first.tree then do
      parenthesizedString first.tree
      statements rest
    else statements parts

/-- Prints a directive. -/
def directive (span : Span) (raw : String) : Print := do
  commentsAt span.start
  mapStart span
  indentation
  chars (directiveText raw)
  endStatement

/-- Prints the body of a function.  A body of comments alone stays on its line if they
    do. -/
def functionBody (span : Span) (parts : List Part) : Print := do
  let last ← takeComments (span.stop - 1)
  let isShort := last.all fun comment => !comment.lineBefore && !comment.lineBehind
  braces span (parts.isEmpty && isShort) do
    directivesAndStatements parts
    commentRow last

/-- Prints a block without its line. -/
def block (span : Span) (parts : List Part) : Print := braces span parts.isEmpty (statements parts)

/-! ## §3. Choices and loops -/

/-- Whether an `else` behind a statement would belong to a choice inside of it. -/
def endsOpen : Tree → Bool
  | .node _ .ifStatement [_, _, no] => if no.isAbsent then true else endsOpen no
  | .node _ .forStatement [_, _, _, body] => endsOpen body
  | .node _ .forIn [_, _, body] => endsOpen body
  | .node _ (.forOf _) [_, _, body] => endsOpen body
  | .node _ .whileStatement [_, body] => endsOpen body
  | .node _ .withStatement [_, body] => endsOpen body
  | .node _ .labeled [_, body] => endsOpen body
  | _ => false

/-- Prints a choice from its word on. -/
def choice (test yes no : Part) : Print := do
  beforeWord
  text "if ("
  test.whole
  char ')'
  let goOn : Print := if no.isAbsent then newLine else blank
  match yes.tree.form with
  | .block =>
    blank
    yes.inline
    goOn
  | _ =>
    if endsOpen yes.tree then
      blank
      braces yes.tree.span false yes.statement
      goOn
    else
      body yes
      if !no.isAbsent then indentation
  if !no.isAbsent then
    beforeWord
    text "else"
    match no.tree.form with
    | .ifStatement =>
      blank
      no.inline
    | _ => body no

/-- Prints the head of a statement in parentheses, and its body. -/
def headed (span : Span) (head : Print) (inner : Part) (s : String) : Print := do
  lead span (s ++ " (")
  head
  char ')'
  body inner

/-- The place of what stands first in the head of a loop. -/
def loopPlace : Place := { role := .inline, forbidsIn := true }

/-- The place of the target of a loop over something. -/
def targetPlace (target : Part) : Place :=
  match target.tree.form with
  | .variableList _ _ => loopPlace
  | _ => { forbidsIn := true }

/-- Prints the target of a loop over something.  The word `async` needs parentheses
    in front of `of`, and gets them everywhere. -/
def loopTarget (target : Part) : Print :=
  wrapped (target.tree.form == .identifier "async") (target.print (targetPlace target))

/-- Prints a loop with three parts in its head. -/
def threePartLoop (span : Span) (init test step inner : Part) : Print :=
  headed span (do
    if !init.isAbsent then init.print (targetPlace init)
    char ';'
    test.behind " "
    char ';'
    step.behind " ") inner "for"

/-- Prints a loop that tests last. -/
def doLoop (span : Span) (inner test : Part) : Print := do
  lead span "do"
  match inner.tree.form with
  | .block =>
    blank
    inner.inline
    blank
  | .emptyStatement => inner.statement
  | _ =>
    newLine
    indented inner.statement
    indentation
  text "while ("
  test.whole
  char ')'
  endStatement

/-! ## §4. Other statements -/

/-- Prints a jump. -/
def jump (span : Span) (s : String) (label : Part) : Print := do
  lead span s
  label.behind " "
  endStatement

/-- Prints a case. -/
def switchCase (span : Span) (test : Part) (list : List Part) : Print := do
  indentation
  mapStart span
  if test.isAbsent then text "default" else test.behind "case "
  char ':'
  match list with
  | [one] => body one
  | _ =>
    newLine
    indented (statements list)

/-- Prints a choice among cases. -/
def switch (span : Span) (value : Part) (cases : List Part) : Print := do
  lead span "switch ("
  value.whole
  text ") "
  braces span cases.isEmpty (statements cases)
  newLine

/-- Prints a block whose failures are handled. -/
def attempted (span : Span) (inner handler finalizer : Part) : Print := do
  lead span "try "
  inner.inline
  if !handler.isAbsent then
    blank
    handler.inline
  if !finalizer.isAbsent then
    text " finally "
    finalizer.inline
  newLine

/-- Prints what handles a failure. -/
def catchClause (span : Span) (pattern inner : Part) : Print := do
  commentsAt span.start
  text "catch"
  if !pattern.isAbsent then
    blank
    wrapped true pattern.whole
  blank
  if !(commentsOf inner.tree.span.start (← get)).isEmpty then
    commentsAt inner.tree.span.start
    indentation
  inner.inline

/-! ## §5. Variables and classes -/

/-- Prints a variable with its first value. -/
def declarator (isDefinite : Bool) (pattern value : Part) (place : Place) : Print := do
  pattern.print { role := if isDefinite then .definite else .expression }
  if !value.isAbsent then
    text " = "
    value.print (place.inside .comma)

/-- Prints variables. -/
def variableList (span : Span) (kind : String) (isDeclare : Bool) (list : List Part)
    (place : Place) : Print := do
  mapStart span
  beforeWord
  if isDeclare then text "declare "
  text (kind ++ " ")
  commaSeparated (list.map fun part => part.print { forbidsIn := place.forbidsIn })

/-- The parts of a group. -/
def isEmptyGroup (part : Part) : Bool := part.tree.parts.isEmpty

/-- Prints a class. -/
def classCode (span : Span) (isAbstract isDeclare : Bool)
    (decorations name generics base interfaces body : Part) (place : Place) : Print := do
  wrapped (place.role = .expression && (← isDeclarationPlace)) do
    decorations.whole
    beforeWord
    mapStart span
    if isDeclare then text "declare "
    if isAbstract then text "abstract "
    text "class"
    if !name.isAbsent then
      blank
      name.whole
    if !generics.isAbsent then generics.whole
    base.behind " extends "
    if !isEmptyGroup interfaces then
      text " implements "
      interfaces.whole
    blank
    body.whole

/-- Whether a member ends with its braces, rather than with a semicolon. -/
def endsPlain (tree : Tree) : Bool :=
  match tree.form with
  | .method _ _ _ | .staticBlock => true
  | _ => false

/-- Prints the members of a class. -/
def classBody (span : Span) (parts : List Part) : Print :=
  braces span parts.isEmpty do
    parts.forM fun part => do
      commentsAt part.tree.span.start
      indentation
      part.whole
      if endsPlain part.tree then newLine else endStatement

/-- The words of modifiers in front of a method or a field. -/
def memberWordsOf (m : Modifiers) : List String := modifierWordsOf { m with isOverride := false }

/-- The words of modifiers in front of a field with accessors. -/
def accessorWordsOf (m : Modifiers) : List String :=
  (if m.isAbstract then ["abstract"] else []) ++
    modifierWordsOf { m with isAbstract := false } ++ ["accessor"]

/-- Prints a method. -/
def method (span : Span) (kind : MethodKind) (isComputed : Bool) (m : Modifiers)
    (decorations k function : Part) : Print := do
  mapStart span
  decorations.whole
  words (memberWordsOf m)
  methodWords kind function.tree
  key k isComputed
  if m.isOptional then char '?'
  function.print { role := .method }

/-- Prints a field. -/
def field (span : Span) (isAccessor isComputed : Bool) (m : Modifiers)
    (decorations k type value : Part) : Print := do
  mapStart span
  decorations.whole
  words (if isAccessor then accessorWordsOf m else memberWordsOf m)
  key k isComputed
  if m.isOptional then char '?'
  type.behind ": "
  if !value.isAbsent then
    text " = "
    value.under .comma

/-! ## §6. Modules -/

/-- Prints the items between `import` and `from`: names by themselves first, and
    then those in braces. -/
def importItems (parts : List Part) : Print := do
  let isNamed (part : Part) : Bool := match part.tree.form with
    | .importNamed _ => true
    | _ => false
  let plain := (parts.filter fun part => !isNamed part).map Part.whole
  let named := parts.filter isNamed
  if named.isEmpty then commaSeparated plain
  else
    commaSeparated (plain ++ [do
      text "\x7b "
      commaSeparated (named.map Part.whole)
      text " \x7d"])

/-- Prints the module that nothing comes from: its name stands as it is. -/
def plainSource (path : Tree) : Print := do
  match path.form with
  | .string s _ => text ("\"" ++ s ++ "\"")
  | _ => pure ()

/-- Prints an import. -/
def importCode (span : Span) (isType : Bool) (phase : Option String)
    (items path attributes : Part) : Print := do
  moduleLead span
  text "import"
  if isType then text " type"
  phase.forM fun phase => text (" " ++ phase)
  blank
  if items.isAbsent then path.whole
  else if isEmptyGroup items then
    text "\x7b\x7d from "
    plainSource path.tree
  else
    items.whole
    text " from "
    path.whole
  attributes.behind " "
  endStatement

/-- The name of something that modules exchange. -/
def exchangedName (tree : Tree) : String :=
  match tree.form with
  | .identifier s => s
  | .string s _ => s
  | _ => ""

/-- Prints a name that gets another one, if it does. -/
def renamed (isType : Bool) (a b : Part) : Print := do
  if isType then text "type "
  a.whole
  if exchangedName a.tree != exchangedName b.tree then
    text " as "
    b.whole

/-- Whether a declaration ends with a semicolon. -/
def endsWithMark (tree : Tree) : Bool :=
  match tree.form with
  | .variableList _ _ | .typeAlias _ | .importEquals _ => true
  | _ => false

/-- Prints items of an export in braces. -/
def exportItems (items : Part) : Print := do
  char '{'
  if !isEmptyGroup items then
    blank
    items.whole
    blank
  char '}'

/-- Prints a line that says that calls of a declared function have no effects. -/
def pureFunctionLine (declaration : Tree) : Print := do
  match declaration.form with
  | .function _ _ _ true =>
    text pureFunctionMark
    newLine
  | _ => pure ()

/-- Prints an export of names or of a declaration. -/
def exportCode (span : Span) (isType : Bool) (declaration items path : Part) : Print := do
  commentsAt span.start
  pureFunctionLine declaration.tree
  mapStart span
  indentation
  text "export "
  if !declaration.isAbsent then
    declaration.inline
    if endsWithMark declaration.tree then endStatement else newLine
  else
    if isType then text "type "
    exportItems items
    path.behind " from "
    endStatement

/-- Prints an export of all members of a module. -/
def exportAll (span : Span) (isType : Bool) (name path attributes : Part) : Print := do
  moduleLead span
  text (if isType then "export type *" else "export *")
  name.behind " as "
  text " from "
  path.whole
  attributes.behind " "
  endStatement

/-- Prints the default export. -/
def exportDefault (span : Span) (value : Part) : Print := do
  commentsAt span.start
  pureFunctionLine value.tree
  mapStart span
  indentation
  text "export default "
  match value.tree.form with
  | .function _ _ _ _ | .classDefinition _ _ =>
    value.inline
    newLine
  | .interface _ => value.inline
  | _ =>
    markExport
    value.under .comma
    endStatement

/-! ## §7. Declarations of types -/

/-- Prints an interface. -/
def interfaceCode (isDeclare : Bool) (name generics bases body : Part) : Print := do
  text (if isDeclare then "declare interface " else "interface ")
  name.whole
  if !generics.isAbsent then generics.whole
  if !isEmptyGroup bases then
    text " extends "
    bases.whole
  blank
  body.whole

/-- Prints the members of an enumeration, each on a line of its own. -/
def enumMembers : List Part → Print
  | [] => pure ()
  | part :: rest => do
    commentsAt part.tree.span.start
    indentation
    part.whole
    if !rest.isEmpty then char ','
    newLine
    enumMembers rest

/-- Prints the name of a member of an enumeration.  A template in brackets stems from
    its text. -/
def enumMemberName (isComputed : Bool) (k : Part) : Print := do
  match k.tree with
  | .node _ .template (first :: _) => mapStart first.span
  | _ => pure ()
  key k isComputed

/-- Prints an enumeration, behind an indentation of its own. -/
def enumCode (isConst isDeclare : Bool) (name body : Part) : Print := do
  indentation
  if isDeclare then text "declare "
  text (if isConst then "const enum " else "enum ")
  name.whole
  blank
  body.whole

/-- Prints a namespace or a module. -/
def moduleCode (keyword : String) (isDeclare : Bool) (name body : Part) : Print := do
  if isDeclare then text "declare "
  if keyword != "global" then text (keyword ++ " ")
  name.whole
  if body.isAbsent then char ';'
  else
    blank
    body.whole

/-! ## §8. Rules -/

/-- The rule for a statement or a declaration. -/
def statementRule (span : Span) (form : Form) (parts : List Part) (place : Place) :
    Option Print :=
  match form, parts with
  | .group, list => some (commaSeparated (list.map Part.whole))
  | .decorators, list => some (decorators list)
  | .importItems, list => some (importItems list)
  | .directive raw, _ => some (directive span raw)
  | .expressionStatement, [e] => some do
      expressionLead span
      markStatement
      e.whole
      endStatement
  | .emptyStatement, _ => some do
      lead span ";"
      newLine
  | .block, list => some do
      if place.role = .inline then block span list
      else
        declarationLead span
        block span list
        newLine
  | .body, list => some (functionBody span list)
  | .ifStatement, [test, yes, no] => some do
      if place.role = .statement then
        commentsAt span.start
        mapStart span
        indentation
      choice test yes no
  | .forStatement, [init, test, step, inner] => some (threePartLoop span init test step inner)
  | .forIn, [target, object, inner] => some <| headed span (do
      loopTarget target
      text " in "
      object.whole) inner "for"
  | .forOf isAwait, [target, object, inner] => some <| headed span (do
      loopTarget target
      text " of "
      object.under .comma) inner (if isAwait then "for await" else "for")
  | .whileStatement, [test, inner] => some (headed span test.whole inner "while")
  | .withStatement, [object, inner] => some (headed span object.whole inner "with")
  | .doStatement, [inner, test] => some (doLoop span inner test)
  | .continueStatement, [label] => some (jump span "continue" label)
  | .breakStatement, [label] => some (jump span "break" label)
  | .returnStatement, [value] => some (jump span "return" value)
  | .throwStatement, [value] => some (jump span "throw" value)
  | .debuggerStatement, _ => some do
      lead span "debugger"
      endStatement
  | .switchStatement, value :: cases => some (switch span value cases)
  | .switchCase, test :: list => some (switchCase span test list)
  | .labeled, [label, inner] => some do
      expressionLead span
      label.whole
      char ':'
      body inner
  | .tryStatement, [inner, handler, finalizer] => some (attempted span inner handler finalizer)
  | .catchClause, [pattern, inner] => some (catchClause span pattern inner)
  | .variableList kind isDeclare, list =>
    some (declared span place false (variableList span kind isDeclare list place))
  | .declarator isDefinite, [pattern, value] => some (declarator isDefinite pattern value place)
  | .function isAsync isGenerator isDeclare isPure, [name, generics, params, result, body] =>
    if place.role = .statement then
      some do
        commentsAt span.start
        if isPure then
          indentation
          text pureFunctionMark
          newLine
        indentation
        function span isAsync isGenerator isDeclare name generics params result body
          { role := .inline }
        newLine
    else none
  | .classDefinition isAbstract isDeclare, [decorations, name, generics, base, interfaces, body] =>
    some (declared span place true
      (classCode span isAbstract isDeclare decorations name generics base interfaces body place))
  | .classBody, list => some (classBody span list)
  | .method kind isComputed m, [decorations, k, function] =>
    some (method span kind isComputed m decorations k function)
  | .field isAccessor isComputed m, [decorations, k, type, value] =>
    some (field span isAccessor isComputed m decorations k type value)
  | .staticBlock, list => some do
      mapStart span
      text "static "
      block span list
  | .importDeclaration isType phase, [items, path, attributes] =>
    some (importCode span isType phase items path attributes)
  | .importDefault, [name] => some name.whole
  | .importNamespace, [name] => some do
      text "* as "
      name.whole
  | .importNamed isType, [a, b] => some (renamed isType a b)
  | .importAttributes keyword, list => some do
      mapStart span
      text (keyword ++ " ")
      exportItemsOf list
  | .importAttribute, [k, value] => some do
      match k.tree.form with
      | .identifier s => text s
      | _ => k.whole
      text ": "
      value.whole
  | .exportNamed isType, [declaration, items, path, _] =>
    some (exportCode span isType declaration items path)
  | .exportSpecifier isType, [a, b] => some (renamed isType a b)
  | .exportAll isType, [name, path, attributes] => some (exportAll span isType name path attributes)
  | .exportDefault, [value] => some (exportDefault span value)
  | .exportAssignment, [value] => some do
      declarationLead span
      text "export = "
      value.whole
      endStatement
  | .exportNamespace, [name] => some do
      declarationLead span
      text "export as namespace "
      name.whole
      endStatement
  | .importEquals _, [name, target] => some <| typeDeclared span place false do
      text "import "
      name.whole
      text " = "
      target.whole
  | .externalModule, [path] => some do
      text "require("
      path.whole
      char ')'
  | .interface isDeclare, [name, generics, bases, body] =>
    some (typeDeclared span place true (interfaceCode isDeclare name generics bases body))
  | .typeAlias isDeclare, [name, generics, type] => some <| typeDeclared span place false do
      text (if isDeclare then "declare type " else "type ")
      name.whole
      if !generics.isAbsent then generics.whole
      text " = "
      type.whole
  | .enum isConst isDeclare, [name, body] =>
    some (typeDeclared span place true (enumCode isConst isDeclare name body))
  | .enumBody, list => some (braces span list.isEmpty (enumMembers list))
  | .enumMember isComputed, [k, value] => some do
      enumMemberName isComputed k
      value.behind " = "
  | .moduleDeclaration keyword isDeclare, [name, body] =>
    some (declared span place true (moduleCode keyword isDeclare name body))
  | .moduleBlock, list => some (braces span list.isEmpty (directivesAndStatements list))
  | .program line, list => some do
      commentsAt 0
      line.forM fun s => do
        text ("#!" ++ s)
        newLine
      directivesAndStatements list
      commentsAt span.stop
  | _, _ => none
where
  /-- Prints items in braces. -/
  exportItemsOf (list : List Part) : Print := do
    char '{'
    if !list.isEmpty then
      blank
      commaSeparated (list.map Part.whole)
      blank
    char '}'

end Provenance.Script.Print
