import Provenance.Script.Print.Number
import Provenance.Script.Print.Part

/-! # Printed expressions

  The rules for expressions, patterns and markup.  Parentheses stand only where
  the place of an expression asks for them, with one exception: a function that the
  source puts in parentheses keeps them.
-/

namespace Provenance.Script.Print

/-! ## §1. Literals -/

/-- Prints a word that stems from a span. -/
def word (span : Span) (s : String) : Print := do
  beforeWord
  mapStart span
  text s

/-- Prints a name. -/
def name (span : Span) (s : String) : Print := do
  beforeWord
  mapName span s
  text s

/-- Whether a dot behind the text of a number would belong to it. -/
def admitsDot (s : List Char) : Bool := !(s.any ['.', 'e', 'x'].contains)

/-- Prints a number: inside of a type as the source has it, and elsewhere in its
    shortest form. -/
def number (span : Span) (value : Option Double) (written : String) (place : Place) : Print := do
  mapStart span
  if place.inType then text written
  else
    match value with
    | none => text "Infinity"
    | some x =>
      beforeWord
      chars (numberText x)
      if admitsDot (numberText x) then modify fun p => { p with numberEnd := some p.length }

/-- The flags of a regular expression, in the order of the alphabet. -/
def orderedFlags (flags : String) : List Char :=
  flags.toList.mergeSort fun a b => decide (a ≤ b)

/-- Prints a regular expression, apart from what would change its first mark. -/
def regex (span : Span) (body flags : String) : Print := do
  mapStart span
  match (← get).text with
  | '/' :: _ => blank
  | '<' :: _ => if startsWithWord ['s', 'c', 'r', 'i', 'p', 't'] body.toList then blank
  | _ => pure ()
  char '/'
  text body
  char '/'
  chars (orderedFlags flags)
  modify fun p => { p with regexEnd := some p.length }

/-- Prints the parts of a template: texts, and what stands between them in braces. -/
def templateRest : List Part → Print
  | [] => pure ()
  | part :: rest => do
    match part.tree with
    | .node span (.templateText raw _) _ =>
      mapStart span
      chars (hideScriptEnd raw.toList)
    | _ =>
      chars ['$', '{']
      part.whole
      char '}'
    templateRest rest

/-- Prints a template. -/
def template (span : Span) (parts : List Part) : Print := do
  mapStart span
  char '`'
  match parts with
  | [] => pure ()
  | first :: rest =>
    match first.tree.form with
    | .templateText raw _ => chars (hideScriptEnd raw.toList)
    | _ => pure ()
    templateRest rest
  char '`'

/-! ## §2. Arrays and objects -/

/-- The prints of the items of an array.  A hole at the end needs a comma of its
    own. -/
def arrayItems : List Part → List Print
  | [] => []
  | [last] => [do
      last.under .comma
      if last.tree.form == .hole then char ',']
  | item :: rest => item.under .comma :: arrayItems rest

/-- Prints an array, on lines of their own if it has more than two items. -/
def array (span : Span) (parts : List Part) : Print := do
  mapStart span
  char '['
  if parts.length > 2 then onLines (arrayItems parts) else commaSeparated (arrayItems parts)
  char ']'
  mapStop span

/-- Prints an object, on lines of their own if it has more than one property.  With
    comments in front of it, it needs parentheses. -/
def object (span : Span) (parts : List Part) : Print := do
  let hasComments := !(commentsOf span.start (← get)).isEmpty
  wrapped (hasComments || (← isBlockPlace)) do
    if hasComments then
      commentsAt span.start
      indentation
    mapStart span
    char '{'
    if parts.length > 1 then onLines (parts.map (·.under .comma))
    else if !parts.isEmpty then
      blank
      parts.forM (·.under .comma)
      blank
    char '}'
    mapStop span

/-- Prints a key, in brackets if it is computed. -/
def key (part : Part) (isComputed : Bool) : Print := do
  if isComputed then
    char '['
    part.under .comma
    char ']'
  else part.whole

/-- Whether a function-like tree has a word or a star in front of its name. -/
def functionMarks (tree : Tree) : Bool × Bool :=
  match tree.form with
  | .function isAsync isGenerator _ _ => (isAsync, isGenerator)
  | _ => (false, false)

/-- Prints the words in front of the name of a method. -/
def methodWords (kind : MethodKind) (function : Tree) : Print := do
  match kind with
  | .get => text "get "
  | .set => text "set "
  | .method | .constructor => pure ()
  let (isAsync, isGenerator) := functionMarks function
  if isAsync then text "async "
  if isGenerator then char '*'

/-- Whether the value of a property is the variable that its key names. -/
def isSameName (k v : Tree) : Bool :=
  match k.form, v.withoutParentheses.form with
  | .identifier a, .identifier b => a == b && a != "__proto__"
  | _, _ => false

/-- Whether a tree is a number literal beyond all numbers. -/
def isInfinite (tree : Tree) : Bool :=
  match tree.form with
  | .number none _ => true
  | _ => false

/-- Prints a property of an object. -/
def property (span : Span) (kind : MethodKind) (isMethod isShorthand isComputed : Bool)
    (k v : Part) : Print := do
  if isMethod || kind != .method then
    mapStart span
    methodWords kind v.tree
    key k isComputed
    v.print { role := .objectMethod }
  else
    match v.tree.form with
    | .function _ _ _ _ => mapStart span
    | _ => pure ()
    let isProto := k.tree.form == .identifier "__proto__"
    let isShort := !isComputed &&
      (if isProto then isShorthand else isSameName k.tree v.tree)
    if !isShort then
      key k (isComputed || isInfinite k.tree)
      text ": "
    v.under .comma

/-! ## §3. Operators -/

/-- How tightly a binary operator binds. -/
def bindingOf (op : String) : Binding :=
  match op with
  | "??" => .coalesce
  | "||" => .logicalOr
  | "&&" => .logicalAnd
  | "|" => .bitOr
  | "^" => .bitXor
  | "&" => .bitAnd
  | "==" | "!=" | "===" | "!==" => .equality
  | "<" | ">" | "<=" | ">=" | "in" | "instanceof" => .comparison
  | "<<" | ">>" | ">>>" => .shift
  | "+" | "-" => .sum
  | "*" | "/" | "%" => .product
  | _ => .power

/-- The binding one step looser. -/
def Binding.looser : Binding → Binding
  | .lowest | .comma => .lowest
  | .yield => .comma
  | .assign => .yield
  | .conditional => .assign
  | .coalesce => .conditional
  | .logicalOr => .coalesce
  | .logicalAnd => .logicalOr
  | .bitOr => .logicalAnd
  | .bitXor => .bitOr
  | .bitAnd => .bitXor
  | .equality => .bitAnd
  | .comparison => .equality
  | .shift => .comparison
  | .sum => .shift
  | .product => .sum
  | .power => .product
  | .prefixed => .power
  | .postfixed => .prefixed
  | .new => .postfixed
  | .call => .new
  | .member => .call

/-- Whether an expression may not mix with `??` without parentheses. -/
def isMixedLogical (tree : Tree) : Bool :=
  match tree.withoutParentheses.form with
  | .logical op => op != "??"
  | _ => false

/-- Whether an expression may not be the base of a power without parentheses. -/
def isBarePrefixed (tree : Tree) : Bool :=
  match tree.withoutParentheses.form with
  | .unary _ | .await => true
  | _ => false

/-- Whether an operator takes its operands in either order, so that its right side may
    be one of its own kind. -/
def isLogicalOperator (op : String) : Bool := ["&&", "||", "??"].contains op

/-- The binding of the place to the left of an operator.  A power takes its right
    side first, every other operator its left one. -/
def leftBinding (op : String) (left : Tree) : Binding :=
  if op == "**" then (if isBarePrefixed left then .call else .power)
  else if op == "??" && isMixedLogical left then .prefixed
  else (bindingOf op).looser

/-- The binding of the place to the right of an operator. -/
def rightBinding (op : String) (right : Tree) : Binding :=
  if op == "??" && isMixedLogical right then .prefixed
  else if op == "**" || isLogicalOperator op then (bindingOf op).looser
  else bindingOf op

/-- Prints a binary operator with its sides. -/
def binary (op : String) (left right : Part) (place : Place) : Print := do
  let isWrapped := place.binding.encloses (bindingOf op) || (op == "in" && place.forbidsIn)
  let place := if isWrapped then { place with forbidsIn := false } else place
  wrapped isWrapped do
    left.print (place.inside (leftBinding op left.tree))
    text (" " ++ op ++ " ")
    right.print { binding := rightBinding op right.tree, forbidsIn := place.forbidsIn }

/-- Prints a test for a private member. -/
def privateTest (name object : Part) (place : Place) : Print :=
  wrapped (Binding.sum.rank ≤ place.binding.rank) do
    name.whole
    text " in "
    object.under .equality

/-- Prints a prefix operator.  What stands for infinity cannot be deleted by itself. -/
def unary (span : Span) (op : String) (operand : Part) (place : Place) : Print :=
  wrapped (place.binding.encloses .prefixed) do
    if op.any Char.isAlpha then
      word span op
      blank
    else
      beforeSign op
      mapStart span
      text op
    let isHidden := op == "delete" && isInfinite operand.tree
    if isHidden then text "(0, "
    operand.print (place.inside .power)
    if isHidden then char ')'

/-- Prints an increment or a decrement. -/
def update (span : Span) (op : String) (isPrefixed : Bool) (target : Part) (place : Place) :
    Print :=
  if isPrefixed then
    wrapped (place.binding.encloses .prefixed) do
      beforeSign op
      mapStart span
      text op
      target.print (place.inside .prefixed)
  else
    wrapped (place.binding.encloses .postfixed) do
      mapStart span
      target.print (place.inside .postfixed)
      text op

/-- Prints a conditional. -/
def conditional (test yes no : Part) (place : Place) : Print := do
  let isWrapped := place.binding.encloses .conditional
  let place := if isWrapped then { place with forbidsIn := false } else place
  wrapped isWrapped do
    test.print { binding := .conditional, forbidsIn := place.forbidsIn }
    text " ? "
    yes.under .yield
    text " : "
    no.print { binding := .yield, forbidsIn := place.forbidsIn }

/-- Prints an assignment. -/
def assignment (span : Span) (op : String) (target value : Part) (place : Place) : Print := do
  let isPattern := target.tree.form == .objectTarget && (← isBlockPlace)
  wrapped (isPattern || place.binding.encloses .assign) do
    mapStart span
    target.under .comma
    text (" " ++ op ++ " ")
    value.print (place.inside .comma)

/-- Prints `yield` and its operand. -/
def yielded (span : Span) (isDelegate : Bool) (operand : Part) (place : Place) : Print :=
  wrapped (place.binding.encloses .assign) do
    word span "yield"
    if isDelegate then char '*'
    if !operand.isAbsent then
      blank
      operand.under .yield

/-! ## §4. Members and calls -/

/-- Prints a member. -/
def member (isOptional : Bool) (object property : Part) (place : Place) : Print := do
  object.print { binding := .postfixed, forbidsCall := place.forbidsCall }
  if isOptional then char '?' else if ← isAt (·.numberEnd) then blank
  char '.'
  property.whole

/-- Prints a member whose name is an expression. -/
def index (isOptional : Bool) (object inner : Part) (place : Place) : Print := do
  wrapped (object.tree.withoutParentheses.form == .identifier "let") do
    object.print { binding := .postfixed, forbidsCall := place.forbidsCall }
  if isOptional then text "?."
  char '['
  inner.whole
  char ']'

/-- Prints the comments in front of an argument or of the end of arguments, each on
    a line of its own.  Says whether there were any. -/
def lineComments (owner : Nat) : StateM Page Bool := do
  let comments ← takeComments owner
  comments.forM fun comment => do
    newLine
    indentation
    commentText comment
  if !comments.isEmpty then newLine
  return !comments.isEmpty

/-- Prints an argument on a line of its own, behind its comments. -/
def argumentLine (part : Part) : Print := do
  if !(← lineComments part.tree.span.start) then newLine
  indentation
  part.under .comma

/-- Prints the arguments of a call that spans some source. -/
def arguments (span : Span) (parts : List Part) : Print := do
  char '('
  let p ← get
  let hasLast := !(commentsOf (span.stop - 1) p).isEmpty
  if hasLast || parts.any fun part => !(commentsOf part.tree.span.start p).isEmpty then
    indented do
      separated (char ',') (parts.map argumentLine)
      if !(← lineComments (span.stop - 1)) then newLine
    indentation
  else commaSeparated (parts.map (·.under .comma))
  char ')'
  mapStop span

/-- Prints what says that the call behind it has no effects. -/
def pureMark : Print := text "/* @__PURE__ */ "

/-- Whether a call or a construction needs parentheses for what says that it has no
    effects. -/
def needsPureGroup (isPure : Bool) (place : Place) : Bool :=
  isPure && Binding.postfixed.rank ≤ place.binding.rank

/-- Prints a call.  A place where a statement or a default export begins is also one
    where its callee begins. -/
def call (span : Span) (isOptional isPure : Bool) (callee generics : Part) (list : List Part)
    (place : Place) : Print := do
  let isStatement ← isAt (·.statementStart)
  let isExport ← isAt (·.exportStart)
  let isWrapped := place.binding.encloses .new || place.forbidsCall || needsPureGroup isPure place
  wrapped isWrapped do
    if isPure then
      mapStart span
      pureMark
    if isExport then markExport else if isStatement then markStatement
    callee.under .postfixed
    if isOptional then text "?."
    if !generics.isAbsent then generics.whole
    arguments span list

/-- Prints a construction. -/
def construction (span : Span) (isPure : Bool) (callee generics : Part) (list : List Part)
    (place : Place) : Print :=
  wrapped (place.binding.encloses .call || needsPureGroup isPure place) do
    if isPure then pureMark
    word span "new"
    blank
    callee.print { binding := .new, forbidsCall := true }
    if !generics.isAbsent then generics.whole
    arguments span list

/-- Prints a dynamic import.  With comments in it, each of its parts stands on a line of
    its own, and the closing parenthesis at the start of one. -/
def importCall (span : Span) (phase : Option String) (source options : Part) (place : Place) :
    Print :=
  wrapped (place.binding.encloses .new || place.forbidsCall) do
    word span "import"
    match phase with
    | some phase => text ("." ++ phase)
    | none => pure ()
    char '('
    let p ← get
    let owners := [span.stop - 1, source.tree.span.start] ++
      (if options.isAbsent then [] else [options.tree.span.start])
    if owners.any fun owner => !(commentsOf owner p).isEmpty then
      indented do
        argumentLine source
        if !options.isAbsent then
          char ','
          newLine
          indentation
          options.under .comma
        if !(← lineComments (span.stop - 1)) then newLine
    else
      source.under .comma
      if !options.isAbsent then
        text ", "
        options.under .comma
    char ')'

/-! ## §5. Functions -/

/-- Prints what follows the name of a function: its parameters, its return type and
    its body.  A semicolon stands for a body that is missing, except in an object. -/
def functionTail (generics params result body : Part) (place : Place) : Print := do
  if !generics.isAbsent then generics.whole
  params.print { role := place.role }
  result.behind ": "
  if !body.isAbsent then
    blank
    body.whole
  else if place.role != .objectMethod then char ';'

/-- Prints a function. -/
def function (span : Span) (isAsync isGenerator isDeclare : Bool)
    (name generics params result body : Part) (place : Place) : Print := do
  if place.role = .method || place.role = .objectMethod then
    functionTail generics params result body place
  else
    wrapped (place.role = .enclosed || (place.role = .expression && (← isDeclarationPlace))) do
      beforeWord
      mapStart span
      if isDeclare then text "declare "
      if isAsync then text "async "
      text "function"
      if isGenerator then text "* "
      if !name.isAbsent then
        beforeWord
        name.whole
      functionTail generics params result body place

/-- What says that calls of a function have no effects. -/
def pureFunctionMark : String := "/* @__NO_SIDE_EFFECTS__ */"

/-- Prints an arrow function. -/
def arrow (span : Span) (isAsync isConcise : Bool) (generics params result body : Part)
    (place : Place) : Print :=
  wrapped (place.role = .enclosed || place.binding.encloses .assign) do
    if isAsync then
      word span "async"
      blank
    if !generics.isAbsent then generics.whole
    params.whole
    result.behind ": "
    text " => "
    if isConcise then
      markArrow
      body.print (place.inside .comma)
    else body.whole

/-- Prints decorators in front of something. -/
def decorators (parts : List Part) : Print := parts.forM fun part => do
  part.whole
  blank

/-- Whether a decorator can stand without parentheses: a name, a member, and a call of
    one. -/
def isPlainDecorator : Tree → Bool
  | .node _ (.identifier _) _ => true
  | .node _ (.member _) _ => true
  | .node _ (.call _ _) (callee :: _) => isPlainDecorator callee
  | _ => false

/-- Prints a decorator. -/
def decorator (span : Span) (e : Part) : Print := do
  mapStart span
  char '@'
  wrapped (!isPlainDecorator e.tree) e.whole

/-- The words of modifiers, in the order in which they stand. -/
def modifierWordsOf (m : Modifiers) : List String :=
  (if m.isDeclare then ["declare"] else []) ++ m.accessibility.toList ++
    (if m.isAbstract then ["abstract"] else []) ++ (if m.isStatic then ["static"] else []) ++
    (if m.isOverride then ["override"] else []) ++ (if m.isReadonly then ["readonly"] else [])

/-- Prints words, each with a blank behind it. -/
def words (list : List String) : Print := list.forM fun w => text (w ++ " ")

/-- Prints a parameter behind its decorators and modifiers. -/
def parameter (span : Span) (m : Modifiers) (pattern : Part) (decorations : List Part) :
    Print := do
  mapStart span
  decorators decorations
  words (modifierWordsOf m)
  pattern.whole

/-! ## §6. Patterns -/

/-- Prints properties in braces. -/
def patternBraces (span : Span) (parts : List Part) : Print := do
  mapStart span
  char '{'
  if !parts.isEmpty then
    blank
    commaSeparated (parts.map Part.whole)
    blank
  char '}'

/-- Whether a pattern, seen through its default, is the variable that a key names. -/
def isSameBinding (k v : Tree) : Bool :=
  match v with
  | .node _ .defaulted (pattern :: _) => k.form == pattern.form
  | _ => k.form == v.form

/-- Prints a property of a pattern. -/
def patternProperty (isComputed : Bool) (k v : Part) : Print := do
  let isName := match k.tree.form with
    | .identifier _ => true
    | _ => false
  if isComputed || !isName || !isSameBinding k.tree v.tree then
    key k isComputed
    text ": "
  v.under .comma

/-- Prints a property of an object that is assigned to. -/
def targetProperty (isShorthand isComputed : Bool) (k v : Part) : Print := do
  if !isShorthand then
    key k isComputed
    text ": "
  v.under .comma

/-- Prints the items of an array pattern.  A rest by itself has a blank in front. -/
def patternItems (parts : List Part) : Print := do
  match parts with
  | [one] => if one.tree.form == .rest then blank
  | _ => pure ()
  commaSeparated (arrayItems parts)

/-- Prints a pattern with its type. -/
def typed (isOptional : Bool) (pattern type : Part) (place : Place) : Print := do
  pattern.whole
  if isOptional then char '?'
  if place.role = .definite then char '!'
  type.behind ": "

/-! ## §7. Expressions with types -/

/-- Prints an expression that is said to be of a type. -/
def typeOperator (op : String) (e type : Part) (place : Place) : Print :=
  wrapped (place.binding.encloses .shift) do
    e.print (place.inside .power)
    text (" " ++ op ++ " ")
    type.whole

/-! ## §8. Markup -/

/-- Prints the attributes of a tag. -/
def attributes (parts : List Part) : Print := parts.forM fun part => do
  blank
  part.whole

/-- Prints an opening tag. -/
def openingTag (span : Span) (isSelfClosing : Bool) (name : Part) (list : List Part) : Print := do
  mapStart span
  char '<'
  name.whole
  attributes list
  text (if isSelfClosing then " />" else ">")

/-- Prints a closing tag. -/
def closingTag (span : Span) (name : Part) : Print := do
  mapStart span
  text "</"
  name.whole
  char '>'

/-- Prints a fragment. -/
def fragment (opening closing : Span) (children : List Part) : Print := do
  mapStart opening
  text "<>"
  inRow children
  mapStart closing
  text "</>"

/-- Prints what stands in braces. -/
def inBraces (inner : Print) : Print := do
  char '{'
  inner
  char '}'

/-! ## §9. Rules -/

/-- The rule for an expression, a pattern or markup. -/
def expressionRule (span : Span) (form : Form) (parts : List Part) (place : Place) :
    Option Print :=
  match form, parts with
  | .absent, _ => some (pure ())
  | .hole, _ => some (pure ())
  | .identifier s, _ => some (name span s)
  | .privateName s, _ => some do
      beforeWord
      mapName span s
      char '#'
      text s
  | .typeWord s, _ => some (text s)
  | .string s hasHalves, _ => some do
      mapStart span
      chars (stringText s hasHalves)
  | .number value written, _ => some (number span value written place)
  | .bigint digits, _ => some (word span (digits ++ "n"))
  | .boolean b, _ => some (word span (if b then "true" else "false"))
  | .null, _ => some (word span "null")
  | .regex body flags, _ => some (regex span body flags)
  | .this, _ => some (word span "this")
  | .super, _ => some (word span "super")
  | .template, parts => some (template span parts)
  | .array, parts => some (array span parts)
  | .object, parts => some (object span parts)
  | .property kind isMethod isShorthand isComputed, [k, v, _] =>
    some (property span kind isMethod isShorthand isComputed k v)
  | .spread _, [e] => some do
      mapStart span
      text "..."
      e.under .comma
  | .parenthesized, [e] =>
    match e.tree.form with
    | .arrow _ _ _ | .function _ _ _ _ =>
      some (e.print { place with role := .enclosed, binding := .lowest })
    | _ => some (e.print place)
  | .unary op, [e] => some (unary span op e place)
  | .update op isPrefixed, [e] => some (update span op isPrefixed e place)
  | .binary op, [a, b] =>
    match a.tree.form with
    | .privateName _ => some (privateTest a b place)
    | _ => some (binary op a b place)
  | .logical op, [a, b] => some (binary op a b place)
  | .conditional, [a, b, c] => some (conditional a b c place)
  | .assignment op, [a, b] => some (assignment span op a b place)
  | .sequence, list => some <| wrapped (place.binding.encloses .comma) <|
      commaSeparated (list.map fun part => part.print { forbidsIn := place.forbidsIn })
  | .await, [e] => some <| wrapped (place.binding.encloses .prefixed) do
      word span "await"
      blank
      e.print (place.inside .power)
  | .yield isDelegate, [e] => some (yielded span isDelegate e place)
  | .member isOptional, [a, b] => some (member isOptional a b place)
  | .index isOptional, [a, b] => some (index isOptional a b place)
  | .call isOptional isPure, callee :: generics :: list =>
    some (call span isOptional isPure callee generics list place)
  | .chain, [e] => some (wrapped (place.binding.encloses .postfixed) (e.print place))
  | .new isPure, callee :: generics :: list =>
    some (construction span isPure callee generics list place)
  | .metaProperty, [a, b] => some do
      a.whole
      char '.'
      b.whole
  | .importCall phase, [source, options] => some (importCall span phase source options place)
  | .taggedTemplate, [tag, generics, text] => some do
      mapStart span
      tag.print (place.inside .postfixed)
      if !generics.isAbsent then generics.whole
      text.whole
  | .arrow isAsync isConcise isPure, [generics, params, result, body] => some do
      if isPure then text (pureFunctionMark ++ " ")
      arrow span isAsync isConcise generics params result body place
  | .function isAsync isGenerator isDeclare isPure, [name, generics, params, result, body] =>
    some do
      if isPure && (place.role = .expression || place.role = .enclosed) then text (pureFunctionMark ++ " ")
      function span isAsync isGenerator isDeclare name generics params result body place
  | .parameters, list =>
    let list :=
      if place.role = .objectMethod then list.filter fun part => part.tree.form != .thisParameter
      else list
    some <| wrapped true (commaSeparated (list.map Part.whole))
  | .parameter m, pattern :: decorations => some (parameter span m pattern decorations)
  | .thisParameter, [type] => some do
      text "this"
      type.behind ": "
  | .decorator, [e] => some (decorator span e)
  | .objectPattern, list => some (patternBraces span list)
  | .objectTarget, list => some do
      mapStart span
      char '{'
      commaSeparated (list.map Part.whole)
      char '}'
  | .arrayPattern, list => some do
      mapStart span
      char '['
      patternItems list
      char ']'
  | .arrayTarget, list => some do
      mapStart span
      char '['
      commaSeparated (arrayItems list)
      char ']'
  | .patternProperty _ isComputed, [k, v] => some (patternProperty isComputed k v)
  | .targetProperty isShorthand isComputed, [k, v] =>
    some (targetProperty isShorthand isComputed k v)
  | .restTarget, [e] => some do
      text "..."
      e.whole
  | .rest, [e] => some do
      mapStart span
      text "..."
      e.whole
  | .defaulted, [pattern, value] => some do
      pattern.under .comma
      text " = "
      value.under .comma
  | .typed isOptional, [pattern, type] => some (typed isOptional pattern type place)
  | .asType, [e, type] => some (typeOperator "as" e type place)
  | .satisfiesType, [e, type] => some (typeOperator "satisfies" e type place)
  | .typeAssertion, [type, e] => some <| wrapped (place.binding.encloses .prefixed) do
      char '<'
      type.whole
      char '>'
      e.under .member
  | .nonNull, [e] => some do
      e.print { binding := .postfixed, forbidsCall := place.forbidsCall }
      char '!'
  | .instantiation, [e, generics] => some do
      e.print place
      generics.whole
  | .element, opening :: closing :: children => some do
      opening.whole
      inRow children
      closing.whole
  | .openingTag isSelfClosing, name :: _ :: list => some (openingTag span isSelfClosing name list)
  | .closingTag, [name] => some (closingTag span name)
  | .fragment opening closing, children => some (fragment opening closing children)
  | .markupName s, _ => some do
      mapStart span
      text s
  | .namespacedName, [a, b] => some do
      a.whole
      char ':'
      b.whole
  | .markupMember, [a, b] => some do
      a.whole
      char '.'
      b.whole
  | .markupAttribute, [name, value] => some do
      name.whole
      value.behind "="
  | .attributeText s, _ => some (chars (attributeText s))
  | .attributeSpread, [e] => some <| inBraces do
      text "..."
      e.under .comma
  | .container, [e] => some (inBraces e.whole)
  | .emptyExpression, _ => some (commentsAt span.stop)
  | .childSpread, [e] => some <| inBraces do
      text "..."
      e.whole
  | .markupText s, _ => some do
      mapStart span
      text s
  | _, _ => none

end Provenance.Script.Print
