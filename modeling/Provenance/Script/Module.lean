import Provenance.Script.Declaration

/-! # Imports and exports

  The parsers of what joins a module to others.
-/

namespace Provenance.Script.Parse

/-! ## §1. Names of what is exchanged -/

/-- Notes that the text is a module. -/
def markModule : Parse Unit := modify fun s => { s with usesModules := true }

/-- Whether a token can be the name of something exported. -/
def isModuleName (t : Token) : Bool := t.kind == .word || t.kind == .string

/-- The name of something exported: a word of any kind, or a string. -/
def moduleName : Parse Tree := do
  if ← atKind .string then stringLiteral else anyName

/-- What an item in the braces of an import or an export says. -/
structure Exchange where
  isType : Bool
  /-- The name on the side of the braces where something comes from. -/
  source : Tree
  /-- The name that it gets. -/
  target : Tree

/-- Behind a name, a new name for it if one follows. -/
def renamed (isType : Bool) (name : Tree) : Parse Exchange := do
  if ← eatWord "as" then return ⟨isType, name, ← moduleName⟩
  else return ⟨isType, name, name⟩

/-- An item in the braces of an import or an export.  In a language with types, the
    word `type` in front says that it is a type, unless it is the name itself. -/
def exchange : Parse Exchange := do
  let isTypeWord := (← language).hasTypes && (← atWord "type")
  let name ← moduleName
  if !isTypeWord then renamed false name
  else if ← atWord "as" then
    let firstAs ← anyName
    if ← atWord "as" then
      let secondAs ← anyName
      if isModuleName (← token) then return ⟨true, firstAs, ← moduleName⟩
      else return ⟨false, name, secondAs⟩
    else if isModuleName (← token) then return ⟨false, name, ← moduleName⟩
    else return ⟨true, firstAs, firstAs⟩
  else if isModuleName (← token) then
    let name ← moduleName
    renamed true name
  else return ⟨false, name, name⟩

/-! ## §2. Attributes -/

/-- An attribute of an import. -/
def importAttribute : Parse Tree := do
  let first ← start
  let key ← moduleName
  expectMark ":"
  let value ← stringLiteral
  node first .importAttribute [key, value]

/-- The attributes of an import, if there are any. -/
def importAttributes : Parse Tree := do
  let t ← token
  if t.isWord "with" || (t.isWord "assert" && !t.lineBefore) then
    advance
    let first ← start
    expectMark "\x7b"
    let list ← commaList "\x7d" importAttribute
    expectMark "\x7d"
    node first (.importAttributes t.text) list
  else return .absent

/-- The module that something comes from, and its attributes. -/
def fromClause : Parse (Tree × Tree) := do
  expectWord "from"
  let source ← stringLiteral
  return (source, ← importAttributes)

/-! ## §3. Imports -/

/-- The name of an import: not reserved, whatever it is called in its module. -/
def isBindable (t : Tree) : Bool :=
  match t.form with
  | .identifier name => !isReserved name
  | _ => false

/-- Items of an import in braces. -/
def importItems : Parse (List Tree) := do
  expectMark "\x7b"
  let items ← commaList "\x7d" do
    let first ← start
    let item ← exchange
    require (isBindable item.target)
    node first (.importNamed item.isType) [item.source, item.target]
  expectMark "\x7d"
  return items

/-- All members of a module under one name. -/
def importNamespace : Parse Tree := do
  let first ← start
  expectMark "*"
  expectWord "as"
  let name ← binding
  node first .importNamespace [name]

/-- What stands between `import` and `from`. -/
def importClause : Parse (List Tree) := do
  if ← atMark "*" then return [← importNamespace]
  else if ← atMark "\x7b" then importItems
  else
    let name ← binding
    let default : Tree := .node name.span .importDefault [name]
    if ← eatMark "," then
      if ← atMark "*" then return [default, ← importNamespace]
      else return default :: (← importItems)
    else return [default]

/-- Notes items that an import cannot have: types one by one or behind a default where
    all are types, and other than a namespace or a default where a phase is named. -/
def checkImport (isType : Bool) (phase : Option String) (items : List Tree) : Parse Unit := do
  let forms := items.map Tree.form
  if isType && forms.contains (.importNamed true) then note
  if isType && forms.contains .importDefault && forms.length > 1 then note
  match phase with
  | some "defer" => if forms != [.importNamespace] then note
  | some _ => if forms != [.importDefault] then note
  | none => pure ()

/-- Whether the current word is a phase or says that only types are imported,
    rather than a name. -/
def startsImportWord (word : String) : Parse Bool := do
  if ← atWord word then
    lookahead do
      advance
      let t ← token
      if t.isWord "from" then
        advance
        return !(← atKind .string)
      else return t.kind == .word || t.isMark "*" || t.isMark "\x7b"
  else return false

/-- An import. -/
def importDeclaration : Parse Tree := do
  let first ← start
  advance
  markModule
  if ← atKind .string then
    let source ← stringLiteral
    let attributes ← importAttributes
    endStatement
    node first (.importDeclaration false none) [.absent, source, attributes]
  else if (← language).hasTypes && (← startsImportEquals) then importEquals first
  else
    let isType ←
      if (← language).hasTypes && (← startsImportWord "type") then eatWord "type" else pure false
    let phase ←
      if isType then pure none
      else if ← startsImportWord "defer" then
        advance
        pure (some "defer")
      else if ← startsImportWord "source" then
        advance
        pure (some "source")
      else pure none
    let items ← importClause
    checkImport isType phase items
    let (source, attributes) ← fromClause
    endStatement
    node first (.importDeclaration isType phase) [.node {} .importItems items, source, attributes]

/-- Whether an import as a statement starts here, rather than an expression. -/
def startsImport : Parse Bool := do
  if ← atWord "import" then nextToken fun n => !(n.isMark "(" || n.isMark ".") else return false

/-! ## §4. Exports -/

/-- Words that no name of this module can have where it is exported. -/
def barredExports : List String :=
  ["await", "yield", "implements", "interface", "package", "private", "protected", "public",
   "static"]

/-- Whether a tree can be the name of something in this module that is exported. -/
def isExportable (t : Tree) : Bool :=
  match t.form with
  | .identifier name => !isReserved name && !barredExports.contains name
  | _ => false

/-- Items of an export in braces, with the module that they come from if one is
    named.  Without one, they are names of this module. -/
def exportItems (first : Nat) (isType : Bool) : Parse Tree := do
  expectMark "\x7b"
  let items ← commaList "\x7d" do
    let inner ← start
    let item ← exchange
    node inner (.exportSpecifier item.isType) [item.source, item.target]
  expectMark "\x7d"
  let (source, attributes) ←
    if ← atWord "from" then fromClause else pure (Tree.absent, Tree.absent)
  if source.isAbsent && !items.all (fun item => item.parts.head?.any isExportable) then note
  if isType && items.any (fun item => item.form == .exportSpecifier true) then note
  endStatement
  node first (.exportNamed isType) [.absent, .node {} .group items, source, attributes]

/-- An export of all members of a module. -/
def exportAll (first : Nat) (isType : Bool) : Parse Tree := do
  expectMark "*"
  let name ← if ← eatWord "as" then moduleName else pure .absent
  let (source, attributes) ← fromClause
  endStatement
  node first (.exportAll isType) [name, source, attributes]

/-- The decorators of a class that is exported, of which some may stand in front of the
    export.  Not all places at once may have some. -/
def moreDecorators (g : Grammar) (before : List Tree) : Parse (List Tree) := do
  let behind ← decorators g
  if !before.isEmpty && !behind.isEmpty then note
  return before ++ behind

/-- The default export, from its word on. -/
def exportDefault (g : Grammar) (first : Nat) (decorations : List Tree) : Parse Tree := do
  advance
  let inner ← start
  let decorations ← moreDecorators g decorations
  let value ←
    if ← atWord "class" then classRest g inner decorations false false
    else if (← language).hasTypes && (← atWord "abstract") &&
        (← nextToken fun n => n.isWord "class" && !n.lineBefore) then
      advance
      classRest g inner decorations true false
    else if (← language).hasTypes && (← atWord "interface") &&
        (← nextToken fun n => n.isPlainName && !n.lineBefore) then
      interfaceDeclaration g inner false
    else if (← atWord "function") || (← startsAsyncFunction) then
      functionDeclaration g inner true false
    else
      let e ← g.assignment true
      endStatement
      pure e
  node first .exportDefault [value]

/-- Whether a word of exports of types stands in front of braces or a star. -/
def startsTypeExport : Parse Bool := do
  if (← language).hasTypes && (← atWord "type") then
    nextToken fun n => n.isMark "\x7b" || n.isMark "*"
  else return false

/-- Makes a declaration an export. -/
def exportOf (first : Nat) (declaration : Tree) : Parse Tree :=
  node first (.exportNamed false) [declaration, .absent, .absent, .absent]

/-- A declaration that is exported. -/
def exportedDeclaration (g : Grammar) (first : Nat) (decorations : List Tree) : Parse Tree := do
  let inner ← start
  let decorations ← moreDecorators g decorations
  if ← atWord "class" then exportOf first (← classRest g inner decorations false false)
  else if !decorations.isEmpty then
    require ((← language).hasTypes && (← atWord "abstract"))
    advance
    exportOf first (← classRest g inner decorations true false)
  else if ← atWord "import" then
    advance
    exportOf first (← importEquals inner)
  else if ← startsTypedDeclaration then exportOf first (← typedDeclaration g inner)
  else if ← startsAsyncFunction then exportOf first (← functionDeclaration g inner false false)
  else if ← atWord "function" then exportOf first (← functionDeclaration g inner false false)
  else
    let t ← token
    require (["var", "let", "const"].any t.isWord)
    advance
    exportOf first (← variableStatement g inner t.text false)

/-- An export.  Decorators in front of it belong to its class. -/
def exportDeclaration (g : Grammar) (decorations : List Tree) : Parse Tree := do
  let first ← start
  expectWord "export"
  markModule
  let hasTypes := (← language).hasTypes
  if hasTypes && (← eatMark "=") then
    let e ← g.assignment true
    endStatement
    node first .exportAssignment [e]
  else if hasTypes && (← atWord "as") && (← nextToken fun n => n.isWord "namespace") then
    advance
    advance
    let name ← anyName
    endStatement
    node first .exportNamespace [name]
  else if ← atMark "*" then exportAll first false
  else if ← atMark "\x7b" then exportItems first false
  else if ← startsTypeExport then
    advance
    if ← atMark "*" then exportAll first true else exportItems first true
  else if ← atWord "default" then exportDefault g first decorations
  else exportedDeclaration g first decorations

end Provenance.Script.Parse
