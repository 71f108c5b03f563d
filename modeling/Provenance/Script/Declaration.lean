import Provenance.Script.Class

/-! # Declarations

  The parsers of declarations: variables, and the declarations that only a
  language with types has.
-/

namespace Provenance.Script.Parse

/-! ## §1. Variables -/

/-- Whether a tree is the name of a variable, or a name with its type. -/
def isPlainBinding : Tree → Bool
  | .node _ (.identifier _) _ => true
  | .node _ (.typed _) (.node _ (.identifier _) _ :: _) => true
  | _ => false

/-- A variable with its type and its first value. -/
def declarator (g : Grammar) : Parse Tree := do
  let first ← start
  let pattern ← g.pattern
  let hasTypes := (← language).hasTypes
  let isDefinite ←
    if hasTypes && isPlainBinding pattern && !(← token).lineBefore then eatMark "!" else pure false
  if hasTypes && (← eatMark "?") then note
  let type ← typeAnnotation g
  let pattern ←
    if type.isAbsent then pure pattern else node first (.typed false) [pattern, type]
  let value ← if ← eatMark "=" then g.assignment true else pure .absent
  node first (.declarator isDefinite) [pattern, value]

/-- Declarators with commas between them, at least one. -/
def declarators (g : Grammar) : Parse (List Tree) := do
  let head ← declarator g
  iterate (fun (list : List Tree) => do
    if ← eatMark "," then return .next ((← declarator g) :: list)
    else return .done list.reverse) [head]

/-- Whether a variable of a kind needs a first value and lacks it. -/
def lacksValue (kind : String) : Tree → Bool
  | .node _ (.declarator _) [pattern, value] =>
    value.isAbsent && (!isPlainBinding pattern || !(["var", "let"].contains kind))
  | _ => false

/-- Variables behind the words of their kind. -/
def variableList (g : Grammar) (first : Nat) (kind : String) (isDeclare : Bool) : Parse Tree := do
  let list ← declarators g
  node first (.variableList kind isDeclare) list

/-- Variables as a statement. -/
def variableStatement (g : Grammar) (first : Nat) (kind : String) (isDeclare : Bool) :
    Parse Tree := do
  let list ← declarators g
  if !(← context).isAmbient && list.any (lacksValue kind) then note
  endStatement
  node first (.variableList kind isDeclare) list

/-! ## §2. Types with names -/

/-- A name for a type, from its word on. -/
def typeAlias (g : Grammar) (first : Nat) (isDeclare : Bool) : Parse Tree := do
  expectWord "type"
  let name ← binding
  let generics ← typeParameters g
  expectMark "="
  let type ← g.type
  endStatement
  node first (.typeAlias isDeclare) [name, generics, type]

/-- An interface, from its word on. -/
def interfaceDeclaration (g : Grammar) (first : Nat) (isDeclare : Bool) : Parse Tree := do
  expectWord "interface"
  let name ← binding
  let generics ← typeParameters g
  let bases ← if ← eatWord "extends" then typeHeritageList g else pure []
  let inner ← start
  let members ← typeMembers g
  let body ← node inner .interfaceBody members
  node first (.interface isDeclare) [name, generics, .node {} .group bases, body]

/-- A member of an enumeration. -/
def enumMember (g : Grammar) : Parse Tree := do
  let first ← start
  let (key, isComputed) ←
    if ← eatMark "[" then
      let key ←
        if ← atKind .template then
          require (← token).isTail
          templateLiteral g false
        else stringLiteral
      expectMark "]"
      pure (key, true)
    else if ← atKind .string then pure (← stringLiteral, false)
    else pure (← anyName, false)
  let value ← if ← eatMark "=" then defaultValue g else pure .absent
  node first (.enumMember isComputed) [key, value]

/-- An enumeration, from its word on. -/
def enumDeclaration (g : Grammar) (first : Nat) (isConst isDeclare : Bool) : Parse Tree := do
  expectWord "enum"
  let name ← binding
  let inner ← start
  expectMark "\x7b"
  let members ← commaList "\x7d" (enumMember g)
  expectMark "\x7d"
  let body ← node inner .enumBody members
  node first (.enum isConst isDeclare) [name, body]

/-! ## §3. Namespaces -/

/-- The body of a namespace in braces. -/
def moduleBlock (g : Grammar) : Parse Tree := do
  let first ← start
  expectMark "\x7b"
  let statements ← directivesAndStatements g
  expectMark "\x7d"
  node first .moduleBlock statements

/-- A namespace or a module, from its word on.  One that only declares a module of
    some path may lack its body. -/
def moduleDeclaration (g : Grammar) (first : Nat) (isDeclare : Bool) : Parse Tree := do
  let word ← token
  let isGlobal := word.text == "global"
  let name ←
    if isGlobal then anyName
    else
      advance
      if ← atKind .string then stringLiteral else entityName anyName
  let isPath := match name.form with
    | .string _ _ => true
    | _ => false
  let body ←
    if isPath && !(← atMark "\x7b") then
      endStatement
      pure .absent
    else moduleBlock g
  node first (.moduleDeclaration word.text isDeclare) [name, body]

/-! ## §4. Other names for modules -/

/-- Behind `import`, whether a name and an equals sign come next. -/
def startsImportEquals : Parse Bool :=
  lookahead do
    let isType ← atWord "type"
    require (← token).isPlainName
    advance
    if ← atMark "=" then return true
    else if isType && (← token).isPlainName then
      advance
      atMark "="
    else return false

/-- A name for a module or for a member of one, behind `import`. -/
def importEquals (first : Nat) : Parse Tree := do
  let isType ←
    if ← atWord "type" then
      if ← nextToken fun n => n.isPlainName then eatWord "type" else pure false
    else pure false
  let name ← binding
  expectMark "="
  let inner ← start
  let target ←
    if (← atWord "require") && (← nextToken fun n => n.isMark "(") then
      advance
      advance
      let source ← stringLiteral
      expectMark ")"
      node inner .externalModule [source]
    else entityName reference
  endStatement
  node first (.importEquals isType) [name, target]

/-! ## §5. All declarations of a language with types -/

/-- Whether the tokens from here on start a declaration that a language with types
    adds. -/
def startsTypedDeclaration : Parse Bool := do
  if !(← language).hasTypes then return false
  else
    lookahead do
      iterate (fun () => do
        let t ← token
        if ["var", "let", "const", "function", "class", "enum"].any t.isWord then
          return .done true
        else if t.isWord "interface" || t.isWord "type" then
          advance
          let n ← token
          return .done (n.isPlainName && !n.lineBefore)
        else if t.isWord "module" || t.isWord "namespace" then
          advance
          let n ← token
          return .done (!n.lineBefore && (n.isPlainName || n.kind == .string))
        else if ["abstract", "accessor", "async", "declare", "private", "protected", "public",
            "readonly"].any t.isWord then
          advance
          if (← token).lineBefore then return .done false else return .next ()
        else if t.isWord "global" then
          advance
          let n ← token
          return .done (n.isPlainName || n.isMark "\x7b" || n.isWord "export")
        else if t.isWord "import" then
          advance
          let n ← token
          return .done (n.kind == .string || n.kind == .word || n.isMark "*" || n.isMark "\x7b")
        else if t.isWord "static" then
          advance
          return .next ()
        else return .done false) ()

/-- A declaration behind its modifiers. -/
def declarationBehind (g : Grammar) (first : Nat) (words : List String) : Parse Tree := do
  let isDeclare := words.contains "declare"
  let t ← token
  match t.text with
  | "namespace" | "module" | "global" => moduleDeclaration g first isDeclare
  | "type" => typeAlias g first isDeclare
  | "interface" => interfaceDeclaration g first isDeclare
  | "enum" => enumDeclaration g first false isDeclare
  | "class" => classRest g first [] (words.contains "abstract") isDeclare
  | "function" => functionDeclaration g first false isDeclare
  | "async" => functionDeclaration g first false isDeclare
  | "import" =>
    advance
    importEquals first
  | "const" =>
    advance
    if ← atWord "enum" then enumDeclaration g first true isDeclare
    else variableStatement g first "const" isDeclare
  | "var" | "let" =>
    advance
    variableStatement g first t.text isDeclare
  | _ => failure

/-- A declaration with its modifiers. -/
def typedDeclaration (g : Grammar) (first : Nat) : Parse Tree := do
  let words ← iterate (fun (words : List String) => do
    let t ← token
    if ["abstract", "declare", "accessor", "private", "protected", "public", "readonly",
        "static"].any t.isWord then
      advance
      return .next (t.text :: words)
    else return .done words.reverse) []
  checkModifiers words (if ← atWord "class" then ["abstract", "declare"] else ["declare"])
  if words.contains "declare" then
    within (fun c => { c with isAmbient := true }) (declarationBehind g first words)
  else declarationBehind g first words

end Provenance.Script.Parse
