import Provenance.Proofs.Scanner.Octets

/-! # Reading a component by offsets

  This is the reader of components once more, as a scanner that holds nothing but the offset
  it has reached.  It finds its way by single octets, by fixed steps over marks, and by
  searching, also in a copy of the text in lower case; what it takes out of the text it cuts
  out between two such offsets.

  A cut whose ends are not in order, lie behind the end or inside a character gives no value,
  and then nothing that needs it has one.  Neither has a loop that does not end: a loop is given
  a number of rounds (`rounds`), and has no value where these do not suffice.
-/

namespace Provenance

open Text (byteSize slice? sliceFrom? find? octets octetAt? octetsFrom? skipOctets startsWith?
  isTagBlank rounds)

/-! ## §1. Character references -/

namespace Text

/-- The character that a reference at the start of a text names, and where the reference
    ends. -/
def referenceAt? (tail : List Char) : Option (Option (Char × Nat)) :=
  match find? [';'] tail with
  | none => some none
  | some semicolon => do
    let name ← slice? tail 1 semicolon
    return (namedCharacter? name).map fun c => (c, semicolon + 1)

/-- Replaces the references in `rest`, behind what is decoded already. -/
def decodeBehind? : Nat → List Char → List Char → Option (List Char)
  | 0, _, _ => none
  | n + 1, decoded, rest =>
    match find? ['&'] rest with
    | none => some (decoded ++ rest)
    | some ampersand => do
      let front ← slice? rest 0 ampersand
      let tail ← sliceFrom? rest ampersand
      match ← referenceAt? tail with
      | some (c, stop) => do
        let rest ← sliceFrom? tail stop
        decodeBehind? n (decoded ++ front ++ [c]) rest
      | none => do
        let rest ← sliceFrom? tail 1
        decodeBehind? n (decoded ++ front ++ ['&']) rest

end Text

namespace Scanner

open Template (Error Entry OpenTag Node Component Block lowered sameName isTagNamePart
  isDirectiveName rawChildren lastCloseMark?)

/-- What is read at an offset, with the offset behind it, or the error that is found there. -/
abbrev Reading (α : Type) := Except Error (α × Nat)

/-- The entry of a name and a value as they are written. -/
def entryOf? (name : List Char) (value : Option (List Char)) (start : Nat) : Option Entry :=
  if isDirectiveName name then some (.directive (.ofName name value start))
  else
    match value with
    | none => some (.attribute ⟨String.ofList name, none, start⟩)
    | some value => do
      let text ← Text.decodeBehind? (rounds value) [] value
      return .attribute ⟨String.ofList name, some (String.ofList text), start⟩

variable (s : List Char)

/-! ## §2. Tags -/

/-- Whether a start tag begins at an offset. -/
def atOpenTag (o : Nat) : Bool :=
  octetAt? s o = some '<' && (octetAt? s (o + 1)).any Char.isAlpha

/-- Whether an end tag begins at an offset. -/
def atCloseTag (o : Nat) : Option Bool := do
  let mark ← startsWith? ['<', '/'] s o
  return mark && (octetAt? s (o + 2)).any Char.isAlpha

/-- Reads a comment. -/
def readComment (o : Nat) : Option (Reading (List Char)) := do
  let body ← sliceFrom? s (o + 4)
  match find? ['-', '-', '>'] body with
  | none => return .error ⟨.unterminatedComment, o⟩
  | some n =>
    let content ← slice? s (o + 4) (o + 4 + n)
    return .ok (content, o + 4 + n + 3)

/-- Passes over a declaration. -/
def readDeclaration (o : Nat) : Option (Reading Unit) := do
  let rest ← sliceFrom? s o
  match find? ['>'] rest with
  | none => return .error ⟨.unterminatedDeclaration, o⟩
  | some n => return .ok ((), o + n + 1)

/-- Reads an end tag. -/
def readCloseTag (o : Nat) : Option (Reading String) := do
  let nameEnd := skipOctets isTagNamePart s (o + 2)
  let name ← slice? s (o + 2) nameEnd
  let rest ← sliceFrom? s nameEnd
  match find? ['>'] rest with
  | none => return .error ⟨.unterminatedEndTag (String.ofList name), o⟩
  | some n => return .ok (String.ofList name, nameEnd + n + 1)

/-- Reads the value of an attribute. -/
def readValue (o : Nat) : Option (Reading (List Char)) :=
  match octetAt? s o with
  | some quote =>
    if quote = '"' || quote = '\'' then do
      let body ← octetsFrom? s (o + 1)
      match body.findIdx? (· = quote) with
      | none => return .error ⟨.unterminatedValue, o⟩
      | some n =>
        let value ← slice? s (o + 1) (o + 1 + n)
        return .ok (value, o + 1 + n + 1)
    else bare
  | none => bare
where
  /-- Reads a value without quotes. -/
  bare : Option (Reading (List Char)) := do
    let stop := skipOctets (fun x => !isTagBlank x && x ≠ '>') s o
    let value ← slice? s o stop
    return .ok (value, stop)

/-- The offset behind the name of an attribute; an equals sign in front belongs to it. -/
def attributeNameEnd (o : Nat) : Nat :=
  let o := if octetAt? s o = some '=' then o + 1 else o
  o + (Template.attributeName.more ((octets s).drop o)).length

/-- Reads an attribute. -/
def readEntry (o : Nat) : Option (Reading Entry) := do
  let nameEnd := attributeNameEnd s o
  let name ← slice? s o nameEnd
  let gap := skipOctets isTagBlank s nameEnd
  if octetAt? s gap = some '=' then
    match ← readValue s (skipOctets isTagBlank s (gap + 1)) with
    | .error e => return .error e
    | .ok (value, stop) =>
      let entry ← entryOf? name (some value) o
      return .ok (entry, stop)
  else
    let entry ← entryOf? name none o
    return .ok (entry, nameEnd)

/-- Reads what stands behind the name of a start tag; the entries of `tag` are those read so
    far. -/
def readTagBody : Nat → OpenTag → Nat → Option (Reading OpenTag)
  | 0, _, _ => none
  | n + 1, tag, o =>
    let o := skipOctets isTagBlank s o
    match octetAt? s o with
    | none => some (.error ⟨.unterminatedStartTag tag.name, tag.start⟩)
    | some x =>
      if x = '>' then some (.ok (tag, o + 1))
      else if x = '/' then
        if octetAt? s (o + 1) = some '>' then some (.ok ({ tag with selfClosing := true }, o + 2))
        else readTagBody n tag (o + 1)
      else do
        match ← readEntry s o with
        | .error e => some (.error e)
        | .ok (entry, o) => readTagBody n { tag with entries := tag.entries ++ [entry] } o

/-- Reads a start tag. -/
def readOpenTag (o : Nat) : Option (Reading OpenTag) := do
  let nameEnd := skipOctets isTagNamePart s (o + 1)
  let name ← slice? s (o + 1) nameEnd
  readTagBody s (rounds s) ⟨String.ofList name, o, nameEnd, [], false⟩ nameEnd

/-! ## §3. Raw text -/

/-- Looks for a name's end tag in a text in lower case, from an offset on. -/
def searchClose (needle haystack : List Char) : Nat → Nat → Option (Option Nat)
  | 0, _ => none
  | n + 1, o => do
    let rest ← sliceFrom? haystack o
    match find? needle rest with
    | none => some none
    | some found =>
      let behind := o + found + byteSize needle
      if (octetAt? haystack behind).all fun x => x = '>' || x = '/' || isTagBlank x then
        some (some (o + found))
      else searchClose needle haystack n behind

/-- The offset of the end tag of a name that comes next. -/
def findCloseTag (name : List Char) (o : Nat) : Option (Option Nat) := do
  let rest ← sliceFrom? s o
  let found ← searchClose ('<' :: '/' :: lowered name) (lowered rest) (rounds rest) 0
  return found.map (o + ·)

/-- Reads raw text up to the end tag of a name, and that end tag. -/
def readRawText (tag : OpenTag) (name : List Char) (o : Nat) : Option (Reading (List Char)) := do
  match ← findCloseTag s name o with
  | none => return .error ⟨.missingEndTag tag.name, tag.start⟩
  | some close =>
    match ← readCloseTag s close with
    | .error e => return .error e
    | .ok (_, stop) =>
      let content ← slice? s o close
      return .ok (content, stop)

/-! ## §4. Children -/

/-- Adds the text between two offsets to the nodes in front of it, unless it is empty. -/
def addText (nodes : List Node) (start o : Nat) : Option (List Node) :=
  if start < o then do
    let content ← slice? s start o
    return nodes ++ [.text (String.ofList content) start]
  else some nodes

/-- How much the content of an interpolation takes, if one begins at an offset. -/
def interpolationAt (o : Nat) : Option (Option Nat) := do
  if ← startsWith? ['{', '{'] s o then
    let rest ← sliceFrom? s (o + 2)
    return find? ['}', '}'] rest
  else return none

/-- Whether a tag or a declaration begins at an offset. -/
def atMarkup (o : Nat) : Option Bool := do
  if octetAt? s o ≠ some '<' then return false
  else if atOpenTag s o then return true
  else if ← atCloseTag s o then return true
  else startsWith? ['<', '!'] s o

/-- Reads texts and interpolations up to a tag or a declaration.  The text that is being read
    begins at `start`. -/
def readText : Nat → List Node → Nat → Nat → Option (List Node × Nat)
  | 0, _, _, _ => none
  | n + 1, nodes, start, o =>
    if byteSize s ≤ o then do
      let nodes ← addText s nodes start o
      some (nodes, o)
    else do
      match ← interpolationAt s o with
      | some size =>
        let nodes ← addText s nodes start o
        let content ← slice? s (o + 2) (o + 2 + size)
        let stop := o + 2 + size + 2
        readText n (nodes ++ [.interpolation (String.ofList (Text.trim content)) o]) stop stop
      | none =>
        if ← atMarkup s o then do
          let nodes ← addText s nodes start o
          some (nodes, o)
        else
          let rest ← sliceFrom? s o
          readText n nodes start (o + rest.head?.elim 1 Char.utf8Size)

/-- Reads what stands behind a start tag, up to the end of its element; `inner` reads the
    children of an element. -/
def readElement (inner : String → Nat → Option (Reading (List Node))) (tag : OpenTag) (o : Nat) :
    Option (Reading Node) :=
  if tag.isLeaf then some (.ok (.element tag [] o, o))
  else if tag.isRawText then do
    match ← readRawText s tag (lowered tag.name.toList) o with
    | .error e => some (.error e)
    | .ok (content, stop) =>
      some (.ok (.element tag (rawChildren (String.ofList content) o) stop, stop))
  else do
    match ← inner tag.name o with
    | .error e => some (.error e)
    | .ok (children, stop) => some (.ok (.element tag children stop, stop))

/-- Reads the children of an element, or of the block, up to its end tag.  The nodes in the
    list are those read so far. -/
def readChildren : Nat → String → List Node → Nat → Option (Reading (List Node))
  | 0, _, _, _ => none
  | n + 1, parent, nodes, o =>
    if byteSize s ≤ o then some (.error ⟨.missingEndTag parent, o⟩)
    else do
      if ← startsWith? ['<', '!', '-', '-'] s o then
        match ← readComment s o with
        | .error e => some (.error e)
        | .ok (content, stop) =>
          readChildren n parent (nodes ++ [.comment (String.ofList content) o]) stop
      else if ← atCloseTag s o then
        match ← readCloseTag s o with
        | .error e => some (.error e)
        | .ok (name, stop) =>
          if sameName name.toList parent.toList then some (.ok (nodes, stop))
          else some (.error ⟨.unexpectedEndTag name parent, o⟩)
      else if ← startsWith? ['<', '!'] s o then
        match ← readDeclaration s o with
        | .error e => some (.error e)
        | .ok (_, stop) => readChildren n parent nodes stop
      else if atOpenTag s o then
        match ← readOpenTag s o with
        | .error e => some (.error e)
        | .ok (tag, stop) =>
          match ← readElement s (fun parent o => readChildren n parent [] o) tag stop with
          | .error e => some (.error e)
          | .ok (node, stop) => readChildren n parent (nodes ++ [node]) stop
      else
        let (nodes, stop) ← readText s (rounds s) nodes o o
        readChildren n parent nodes stop

/-! ## §5. Components -/

/-- Reads the block behind a start tag. -/
def readBlock (component : Component) (tag : OpenTag) (o : Nat) : Option (Reading Component) := do
  let component := { component with blocks := component.blocks ++ [tag.name] }
  if tag.selfClosing then return .ok (component, o)
  else if component.template.isNone && tag.isTemplate then
    match ← readChildren s (rounds s) "template" [] o with
    | .error e => return .error e
    | .ok (children, stop) =>
      let front ← slice? s 0 stop
      let block : Block :=
        { lang := (tag.attribute? "lang").bind (·.value)
          children
          contentStart := o
          contentEnd := (lastCloseMark? 0 front).getD stop }
      return .ok ({ component with template := some block }, stop)
  else
    match ← readRawText s tag tag.name.toList o with
    | .error e => return .error e
    | .ok (_, stop) => return .ok (component, stop)

/-- Reads the parts of a component from an offset on. -/
def readParts : Nat → Component → Nat → Option (Except Error Component)
  | 0, _, _ => none
  | n + 1, component, o =>
    if byteSize s ≤ o then some (.ok component)
    else do
      if ← startsWith? ['<', '!', '-', '-'] s o then
        match ← readComment s o with
        | .error e => some (.error e)
        | .ok (_, stop) => readParts n component stop
      else if ← atCloseTag s o then
        match ← readCloseTag s o with
        | .error e => some (.error e)
        | .ok (name, _) => some (.error ⟨.unexpectedTopLevelEndTag name, o⟩)
      else if ← startsWith? ['<', '!'] s o then
        match ← readDeclaration s o with
        | .error e => some (.error e)
        | .ok (_, stop) => readParts n component stop
      else if atOpenTag s o then
        match ← readOpenTag s o with
        | .error e => some (.error e)
        | .ok (tag, stop) =>
          match ← readBlock s component tag stop with
          | .error e => some (.error e)
          | .ok (component, stop) => readParts n component stop
      else
        let rest ← sliceFrom? s o
        readParts n component (o + rest.head?.elim 1 Char.utf8Size)

/-- The component that a text holds. -/
def parse : Option (Except Error Component) := readParts s (rounds s) {} 0

end Scanner

end Provenance
