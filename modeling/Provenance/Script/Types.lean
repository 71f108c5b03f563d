import Provenance.Script.Parameter

/-! # Types

  The parser of types.  From the loosest binding to the tightest: conditional
  types, unions, intersections, operators, and what stands behind a type.
-/

namespace Provenance.Script.Parse

/-! ## §1. Parameters and arguments of types -/

/-- A parameter of a type. -/
def typeParameter (g : Grammar) : Parse Tree := do
  let first ← start
  let words ← modifierList ["const", "in", "out"]
  checkModifiers words ["const", "in", "out"]
  let name ← binding
  let constraint ← if ← eatWord "extends" then g.type else pure .absent
  let default ← if ← eatMark "=" then g.type else pure .absent
  node first
    (.typeParameter (words.contains "const") (words.contains "in") (words.contains "out"))
    [name, constraint, default]

/-- Parameters of types in angle brackets. -/
def typeParameters (g : Grammar) : Parse Tree := do
  if (← language).hasTypes && (← atMark "<") then
    let first ← start
    advance
    let list ← commaList ">" (typeParameter g)
    require !list.isEmpty
    expectMark ">"
    node first .typeParameters list
  else return .absent

/-- Arguments for the parameters of types, if they are there.  Two angle brackets in
    a row are the operator that shifts. -/
def typeArguments (g : Grammar) : Parse Tree := do
  if (← language).hasTypes && (← atMark "<") then
    let first ← start
    advance
    let list ← commaList ">" g.type
    require !list.isEmpty
    expectMark ">"
    node first .typeArguments list
  else return .absent

/-- Arguments for the parameters of a type on its line, if they are there.  Two angle
    brackets in a row open two lists. -/
def referenceArguments (g : Grammar) : Parse Tree := do
  let t ← token
  if t.lineBefore then return .absent
  else
    if (← language).hasTypes && t.isMark "<<" then splitLess
    typeArguments g

/-! ## §2. Names of types -/

/-- Names with dots between them, where `head` reads the first of them and `name` the
    others. -/
def entityNameBy (head name : Parse Tree) : Parse Tree := do
  let first ← start
  let head ← head
  iterate (fun (left : Tree) => do
    if ← eatMark "." then
      let right ← name
      return .next (← node first .qualifiedName [left, right])
    else return .done left) head

/-- Names with dots between them. -/
def entityName (head : Parse Tree) : Parse Tree := entityNameBy head anyName

/-- A word that the source map leaves out. -/
def typeWord : Parse Tree := do
  let t ← token
  if t.kind == .word then leaf (.typeWord t.text) else failure

/-- A name of a type with its arguments.  No word is reserved as the name of a type. -/
def typeReference (g : Grammar) : Parse Tree := do
  let first ← start
  let name ← entityName anyName
  let arguments ← referenceArguments g
  node first .typeReference [name, arguments]

/-! ## §3. Return types -/

/-- Whether the current word starts a predicate on a name. -/
def startsPredicate : Parse Bool := do
  let t ← token
  if t.kind == .word && (t.isPlainName || t.text == "this") then
    nextToken fun n => n.isWord "is" && !n.lineBefore
  else return false

/-- The name that a predicate is about. -/
def predicateName : Parse Tree := do
  if ← atWord "this" then leaf (.typeWord "this") else reference

/-- A predicate that holds if a call returns. -/
def assertion (g : Grammar) : Parse Tree := do
  let first ← start
  advance
  let name ← predicateName
  let type ← if ← eatWord "is" then g.type else pure .absent
  node first (.predicate true) [name, type]

/-- Whether the current word starts an assertion. -/
def startsAssertion : Parse Bool := do
  if ← atWord "asserts" then
    nextToken fun n => n.kind == .word && !n.lineBefore && (n.isPlainName || n.text == "this")
  else return false

/-- A type or a predicate. -/
def returnType (g : Grammar) : Parse Tree := do
  let first ← start
  if ← startsPredicate then
    let name ← predicateName
    advance
    let type ← g.type
    node first (.predicate false) [name, type]
  else g.type

/-- A type or a predicate behind a mark, if the mark is there. -/
def returnTypeBehind (g : Grammar) (mark : String) : Parse Tree := do
  if (← language).hasTypes then
    if ← eatMark mark then returnType g else return .absent
  else return .absent

/-! ## §4. Functions as types -/

/-- Passes over what can start a parameter. -/
def skipParameterStart (g : Grammar) : Parse Bool := do
  let _ ← modifierList modifierWords
  let t ← token
  if t.kind == .word && (!isReserved t.text || t.text == "this") then
    advance
    return true
  else if t.isMark "[" || t.isMark "\x7b" then
    let _ ← g.pattern
    return true
  else return false

/-- Whether a parenthesis here certainly opens the parameters of a function. -/
def opensFunctionType (g : Grammar) : Parse Bool :=
  lookahead do
    expectMark "("
    if ← atAnyMark [")", "..."] then return true
    else if ← skipParameterStart g then
      if ← atAnyMark [":", ",", "?", "="] then return true
      else if ← eatMark ")" then atMark "=>"
      else return false
    else return false

/-- Whether a function or a constructor as a type starts here. -/
def startsFunctionType (g : Grammar) : Parse Bool := do
  if ← atMark "<" then return true
  else if ← atMark "(" then opensFunctionType g
  else if ← atWord "new" then return true
  else if ← atWord "abstract" then nextToken fun n => n.isWord "new"
  else return false

/-- A function or a constructor as a type. -/
def functionType (g : Grammar) : Parse Tree := do
  let first ← start
  let isAbstract ← eatWord "abstract"
  let isConstructor ← eatWord "new"
  let generics ← typeParameters g
  let params ← parameters g (if isConstructor then .constructor else .function)
  expectMark "=>"
  let result ← returnType g
  node first (if isConstructor then .constructorType isAbstract else .functionType)
    [generics, params, result]

/-! ## §5. Members of object types -/

/-- Ends a member: by a comma, by a semicolon, or by nothing. -/
def endMember : Parse Unit := do
  if !(← eatMark ",") then
    let _ ← eatMark ";"

/-- Whether a bracket here opens a signature of an index. -/
def startsIndexSignature : Parse Bool :=
  lookahead do
    expectMark "["
    let t ← token
    if t.isMark "..." || t.isMark "]" then return true
    else
      let _ ← modifierList modifierWords
      let t ← token
      if t.isPlainName then
        advance
        if ← atAnyMark [":", ","] then return true
        else if ← eatMark "?" then atAnyMark [":", ",", "]"]
        else return false
      else return false

/-- The signature of an index, behind its modifiers. -/
def indexSignature (g : Grammar) (first : Nat) (words : List String) : Parse Tree := do
  checkModifiers words ["readonly", "static"]
  expectMark "["
  let name := (← token).text
  let _ ← binding
  let key ← typeAnnotation g
  require !key.isAbsent
  expectMark "]"
  let type ← typeAnnotation g
  require !type.isAbsent
  endMember
  node first (.indexSignature name (words.contains "readonly")) [key, type]

/-- Whether the current word is `get` or `set` in front of a property name. -/
def startsAccessor (word : String) : Parse Bool := do
  if ← atWord word then nextToken startsPropertyName else return false

/-- Whether parameters of a signature start here. -/
def atSignature : Parse Bool := atAnyMark ["(", "<"]

/-- A call or a construction as a member. -/
def callMember (g : Grammar) (isConstruct : Bool) : Parse Tree := do
  let first ← start
  if isConstruct then advance
  let generics ← typeParameters g
  let params ← parameters g (if isConstruct then .constructor else .function)
  let result ← returnTypeBehind g ":"
  endMember
  node first (if isConstruct then .constructSignature else .callSignature)
    [generics, params, result]

/-- A getter or a setter as a member. -/
def accessorMember (g : Grammar) (kind : MethodKind) : Parse Tree := do
  let first ← start
  advance
  let (key, isComputed) ← propertyName g
  let params ← parameters g .function
  let result ← returnTypeBehind g ":"
  if kind = .set && !result.isAbsent then note
  endMember
  node first (.methodSignature kind isComputed false) [key, .absent, params, result]

/-- A member of an object type. -/
def typeMember (g : Grammar) : Parse Tree := do
  let first ← start
  if ← atSignature then callMember g false
  else if (← atWord "new") && (← nextToken fun n => n.isMark "(" || n.isMark "<") then
    callMember g true
  else
    let words ← modifierList (modifierWords.erase "const")
    if ← startsAccessor "get" then
      checkModifiers words []
      accessorMember g .get
    else if ← startsAccessor "set" then
      checkModifiers words []
      accessorMember g .set
    else if ← startsIndexSignature then indexSignature g first words
    else
      let (key, isComputed) ← propertyName g
      let isOptional ← eatMark "?"
      checkModifiers words (if ← atSignature then [] else ["readonly"])
      if ← atSignature then
        let generics ← typeParameters g
        let params ← parameters g .function
        let result ← returnTypeBehind g ":"
        endMember
        node first (.methodSignature .method isComputed isOptional) [key, generics, params, result]
      else
        let type ← typeAnnotation g
        endMember
        node first (.propertySignature isComputed isOptional (words.contains "readonly")) [key, type]

/-- Members in braces. -/
def typeMembers (g : Grammar) : Parse (List Tree) := do
  expectMark "\x7b"
  let members ← iterate (fun (members : List Tree) => do
    if ← atMark "\x7d" then return .done members.reverse
    else return .next ((← typeMember g) :: members)) []
  expectMark "\x7d"
  return members

/-- Whether a brace here opens a mapped type. -/
def startsMappedType : Parse Bool :=
  lookahead do
    expectMark "\x7b"
    if ← atAnyMark ["+", "-"] then
      advance
      atWord "readonly"
    else
      let _ ← eatWord "readonly"
      expectMark "["
      require (← token).isPlainName
      advance
      atWord "in"

/-- A modifier of a mapped type, with its sign. -/
def mappedModifier (atWordOrMark eat : Parse Bool) : Parse (Option MappedSign) := do
  if ← eatMark "+" then
    require (← eat)
    return some .plus
  else if ← eatMark "-" then
    require (← eat)
    return some .minus
  else if ← atWordOrMark then
    let _ ← eat
    return some .plain
  else return none

/-- A mapped type. -/
def mappedType (g : Grammar) : Parse Tree := do
  let first ← start
  expectMark "\x7b"
  let readonly ← mappedModifier (atWord "readonly") (eatWord "readonly")
  expectMark "["
  let name ← binding
  expectWord "in"
  let constraint ← g.type
  let nameType ← if ← eatWord "as" then g.type else pure .absent
  expectMark "]"
  let optional ← mappedModifier (atMark "?") (eatMark "?")
  let type ← typeAnnotation g
  let _ ← eatMark ";"
  expectMark "\x7d"
  node first (.mapped readonly optional) [name, constraint, nameType, type]

/-! ## §6. Tuples -/

/-- Whether a label of a tuple member stands here. -/
def startsLabel : Parse Bool :=
  lookahead do
    let t ← token
    require (t.kind == .word)
    advance
    if ← atMark ":" then return true
    else if ← eatMark "?" then atMark ":"
    else return false

/-- A member of a tuple. -/
def tupleMember (g : Grammar) : Parse Tree := do
  let first ← start
  if ← eatMark "..." then
    let inner ← start
    let type ←
      if ← startsLabel then
        let label ← anyName
        let isOptional ← eatMark "?"
        expectMark ":"
        let type ← g.type
        node inner (.namedMember isOptional) [label, type]
      else g.type
    node first .restType [type]
  else if ← startsLabel then
    let label ← anyName
    let isOptional ← eatMark "?"
    expectMark ":"
    let type ← g.type
    node first (.namedMember isOptional) [label, type]
  else
    let type ← g.type
    match type with
    | .node span (.nullable true) [inner] =>
      return if span.start == inner.span.start then .node span .optionalType [inner] else type
    | _ => return type

/-- Whether a type is an array of any length, seen through parentheses and through a
    tuple that is nothing but a rest. -/
def isArrayType : Tree → Bool
  | .node _ .arrayType _ => true
  | .node _ .parenthesizedType [inner] => isArrayType inner
  | .node _ .tuple [.node _ .restType [inner]] => isArrayType inner
  | _ => false

/-- How many members of a tuple a member stands for. -/
inductive MemberCount where
  | one
  | optional
  | any
  /-- As many as a type has that is not known. -/
  | unknown
deriving DecidableEq, Repr

/-- How many members of a tuple a member stands for. -/
def memberCount : Tree → MemberCount
  | .node _ .restType [.node _ (.namedMember _) [_, type]] =>
    if isArrayType type then .any else .unknown
  | .node _ .restType [type] => if isArrayType type then .any else .unknown
  | .node _ .optionalType _ => .optional
  | .node _ (.namedMember true) _ => .optional
  | _ => .one

/-- Whether the members of a tuple may stand in their order: behind an optional one
    there is none that has to be there, and behind a rest none that is optional and no
    other rest. -/
def areMembersOrdered : List MemberCount → Bool
  | [] => true
  | .optional :: rest => !(rest.contains .one) && areMembersOrdered rest
  | .any :: rest => !(rest.contains .any || rest.contains .optional) && areMembersOrdered rest
  | _ :: rest => areMembersOrdered rest

/-- A tuple. -/
def tupleType (g : Grammar) : Parse Tree := do
  let first ← start
  expectMark "["
  let members ← commaList "]" (tupleMember g)
  expectMark "]"
  if !areMembersOrdered (members.map memberCount) then note
  node first .tuple members

/-! ## §7. Types that stand alone -/

/-- The words that are types. -/
def keywordTypes : List String :=
  ["any", "unknown", "string", "number", "bigint", "symbol", "boolean", "undefined", "never",
   "object", "null"]

/-- The type of a value. -/
def typeQuery (g : Grammar) : Parse Tree := do
  let first ← start
  advance
  let name ← entityName do
    if ← atWord "this" then leaf .this else anyName
  let arguments ← if (← token).lineBefore then pure .absent else typeArguments g
  node first .typeQuery [name, arguments]

/-- A type of another module. -/
def importType (g : Grammar) : Parse Tree := do
  let first ← start
  let isQuery ← eatWord "typeof"
  let inner ← start
  expectWord "import"
  expectMark "("
  require (← atKind .string)
  let source ← g.type
  let options ← if ← eatMark "," then
      let e ← g.assignment true
      require (e.form == .object)
      let _ ← eatMark ","
      pure e
    else pure .absent
  expectMark ")"
  let qualifier ← if ← eatMark "." then entityNameBy typeWord typeWord else pure .absent
  let arguments ← referenceArguments g
  let tree ← node inner .importType [source, options, qualifier, arguments]
  if isQuery then node first .typeQuery [tree, .absent] else return tree

/-- A type that is a literal. -/
def literalType : Parse Tree := do
  let first ← start
  if ← eatMark "-" then
    require !(← atKind .string)
    match ← simpleLiteral? with
    | some literal =>
      let value ← node first (.unary "-") [literal]
      node first .literalType [value]
    | none => failure
  else
    match ← simpleLiteral? with
    | some literal => node first .literalType [literal]
    | none => failure

/-- A type behind a question mark, or the unknown type if none is there. -/
def nullableType (g : Grammar) : Parse Tree := do
  let first ← start
  advance
  if ← atAnyMark [",", "\x7d", ")", ">", "=", "|"] then node first .unknownType []
  else
    let type ← g.type
    node first (.nullable false) [type]

/-- A type without operators around it, where `plain` reads such a type behind an
    exclamation mark. -/
def plainTypeBy (plain : Parse Tree) (g : Grammar) : Parse Tree := do
  let first ← start
  let t ← token
  match t.kind with
  | .string | .number | .bigint => literalType
  | .template =>
    if t.isTail then
      let text ← templateLiteral g false
      node first .literalType [text]
    else
      let parts ← templateParts false g.type
      node first .templateType parts
  | .word =>
    if t.isWord "true" || t.isWord "false" then literalType
    else if ← atAnyWord keywordTypes then
      if ← nextToken fun n => n.isMark "." then typeReference g
      else leaf (.keywordType t.text)
    else if t.isWord "void" then leaf (.keywordType "void")
    else if t.isWord "this" then
      let this ← leaf (.typeWord "this")
      let n ← token
      if n.isWord "is" && !n.lineBefore then
        advance
        let type ← g.type
        node first (.predicate false) [this, type]
      else return .node this.span (.keywordType "this") []
    else if t.isWord "typeof" then
      if ← nextToken fun n => n.isWord "import" then importType g else typeQuery g
    else if t.isWord "import" then importType g
    else if ← startsAssertion then assertion g
    else typeReference g
  | _ =>
    if t.isMark "-" then literalType
    else if t.isMark "\x7b" then
      if ← startsMappedType then mappedType g
      else
        let members ← typeMembers g
        node first .typeLiteral members
    else if t.isMark "[" then tupleType g
    else if t.isMark "(" then
      advance
      let type ← within (fun c => { c with allowsConditionalType := true }) g.type
      expectMark ")"
      node first .parenthesizedType [type]
    else if t.isMark "?" then nullableType g
    else if t.isMark "!" then
      advance
      let type ← plain
      node first (.nonNullable false) [type]
    else failure

/-- A type without operators around it. -/
def plainType (g : Grammar) : Parse Tree := plainTypeBy (plainTypeBy failure g) g

/-! ## §8. Types with operators -/

/-- Whether a type can start here. -/
def startsType : Parse Bool := do
  let t ← token
  match t.kind with
  | .string | .number | .bigint | .template => return true
  | .word =>
    return t.isPlainName ||
      (!t.escaped && ["this", "typeof", "void", "null", "true", "false", "new", "import"].contains
        t.text)
  | _ =>
    if t.isMark "(" then
      lookahead do
        advance
        if ← atAnyMark [")", "..."] then return true
        let t ← token
        return t.kind != .punctuator ||
          ["\x7b", "[", "<", "(", "-", "|", "&", "?", "!", "*"].contains t.text
    else if t.isMark "-" then nextToken fun n => n.kind == .number || n.kind == .bigint
    else
      return t.kind == .punctuator &&
        ["\x7b", "[", "<", "|", "&", "?", "!", "*", "..."].contains t.text

/-- A type with brackets, question marks or exclamation marks behind it. -/
def postfixType (g : Grammar) : Parse Tree := do
  let first ← start
  let head ← plainType g
  iterate (fun (type : Tree) => do
    let t ← token
    if t.isMark "[" && !t.lineBefore then
      advance
      if ← startsType then
        let index ← g.type
        expectMark "]"
        return .next (← node first .indexedAccess [type, index])
      else
        expectMark "]"
        return .next (← node first .arrayType [type])
    else if t.isMark "!" && !t.lineBefore then
      advance
      return .next (← node first (.nonNullable true) [type])
    else if t.isMark "?" && !t.lineBefore then
      if ← lookahead do advance; startsType then return .done type
      advance
      return .next (← node first (.nullable true) [type])
    else return .done type) head

/-- The constraint of an inferred type.  Inside of a conditional type, it belongs to
    the conditional type if a question mark follows. -/
def inferConstraint (g : Grammar) : Parse Tree := do
  expectWord "extends"
  let c ← context
  let type ← within (fun c => { c with allowsConditionalType := false }) g.type
  require (!c.allowsConditionalType || !(← atMark "?"))
  return type

/-- A type with prefix operators. -/
def operatorType (g : Grammar) : Parse Tree := do
  let first ← start
  let t ← token
  if ← atAnyWord ["keyof", "unique", "readonly"] then
    advance
    let type ← g.operatorType
    if t.text == "readonly" && type.form != .arrayType && type.form != .tuple then note
    node first (.typeOperator t.text) [type]
  else if ← atWord "infer" then
    advance
    let inner ← start
    let name ← binding
    let constraint ← if ← atWord "extends" then
        match ← attempt (inferConstraint g) with
        | some type => pure type
        | none => pure .absent
      else pure .absent
    let parameter ← node inner (.typeParameter false false false) [name, constraint, .absent]
    node first .infer [parameter]
  else
    within (fun c => { c with allowsConditionalType := true }) (postfixType g)

/-- Types with a mark between them.  Functions as types need parentheses here. -/
def joinedTypes (mark : String) (form : Form) (g : Grammar) (member : Parse Tree) :
    Parse Tree := do
  let first ← start
  let hasMark ← eatMark mark
  if hasMark && (← startsFunctionType g) then note
  let head ← member
  if hasMark || (← atMark mark) then
    let members ← iterate (fun (members : List Tree) => do
      if ← eatMark mark then
        if ← startsFunctionType g then failure
        return .next ((← member) :: members)
      else return .done members.reverse) [head]
    node first form members
  else return head

/-- A union of intersections. -/
def unionType (g : Grammar) : Parse Tree :=
  joinedTypes "|" .union g (joinedTypes "&" .intersection g (operatorType g))

/-- A type. -/
def type (g : Grammar) : Parse Tree := do
  let first ← start
  if ← startsFunctionType g then functionType g
  else
    let check ← unionType g
    let t ← token
    if (← context).allowsConditionalType && t.isWord "extends" && !t.lineBefore then
      advance
      let bound ← within (fun c => { c with allowsConditionalType := false }) g.type
      expectMark "?"
      let yes ← within (fun c => { c with allowsConditionalType := true }) g.type
      expectMark ":"
      let no ← within (fun c => { c with allowsConditionalType := true }) g.type
      node first .conditionalType [check, bound, yes, no]
    else return check

end Provenance.Script.Parse
