import Provenance.Json.Reader
import Provenance.Options.Basic

/-! # Reading options

  Options come either as a document or as a text.  Both accept an object, whose
  unknown members are passed over, and a list of the fields in their order;
  a field that is not there keeps its default.  Reading a text stops at the first
  fault that it meets on its way through the text.
-/

namespace Provenance

open Json (Fault)

/-! ## §1. From a document -/

namespace Json

/-- A boolean. -/
def toBool : Json → Except Fault Bool
  | .bool value => .ok value
  | other => .error (.wrongType other.shape "a boolean")

/-- A string. -/
def toText : Json → Except Fault String
  | .string value => .ok value
  | other => .error (.wrongType other.shape "a string")

/-- A list of strings. -/
def toTexts : Json → Except Fault (List String)
  | .array items => items.mapM toText
  | other => .error (.wrongType other.shape "a sequence")

/-- A value that may be null. -/
def toOptional {α : Type} (read : Json → Except Fault α) : Json → Except Fault (Option α)
  | .null => .ok none
  | other => (read other).map some

end Json

namespace PluginOptions

/-- A field of the options. -/
inductive Field where
  | enabled
  | attributePrefix
  | includeProps
  | includeSuffixes
  | excludeParts
  | root
deriving DecidableEq, Repr

/-- The name of a field in a document. -/
def Field.name : Field → String
  | .enabled => "enabled"
  | .attributePrefix => "attributePrefix"
  | .includeProps => "includeProps"
  | .includeSuffixes => "include"
  | .excludeParts => "exclude"
  | .root => "root"

/-- The fields in the order in which a list gives them. -/
def Field.all : List Field :=
  [.enabled, .attributePrefix, .includeProps, .includeSuffixes, .excludeParts, .root]

/-- The field of a name. -/
def Field.ofName? (name : String) : Option Field := Field.all.find? fun field => field.name = name

/-- Sets a field from a document. -/
def set (options : PluginOptions) (field : Field) (value : Json) : Except Fault PluginOptions :=
  match field with
  | .enabled => do return { options with enabled := ← value.toOptional Json.toBool }
  | .attributePrefix => do return { options with attributePrefix := ← value.toText }
  | .includeProps => do return { options with includeProps := ← value.toBool }
  | .includeSuffixes => do return { options with includeSuffixes := ← value.toTexts }
  | .excludeParts => do return { options with excludeParts := ← value.toTexts }
  | .root => do return { options with root := ← value.toOptional Json.toText }

/-- The options that a document gives. -/
def ofJson : Json → Except Fault PluginOptions
  | .object members =>
    members.foldlM (fun options (name, value) =>
      match Field.ofName? name with
      | some field => options.set field value
      | none => .ok options) {}
  | .array items => do
    let options ← (Field.all.zip items).foldlM
      (fun options (field, value) => options.set field value) {}
    if Field.all.length < items.length then
      throw (.wrongLength items.length "fewer elements in array")
    return options
  | other => .error (.wrongType other.shape "struct PluginOptions")

/-! ## §2. From a text -/

open Json.Reader

/-- Fails at a value of the wrong type, which is read first if it is a scalar. -/
def mismatch {α : Type} (expected : String) : Json.Reader α := do
  match ← peek with
  | some 'n' => advance; word ['u', 'l', 'l']; fail (.wrongType .null expected)
  | some 't' => advance; word ['r', 'u', 'e']; fail (.wrongType (.bool true) expected)
  | some 'f' => advance; word ['a', 'l', 's', 'e']; fail (.wrongType (.bool false) expected)
  | some '-' => do
    advance
    let value ← number true
    fail (.wrongType (.number value) expected)
  | some '"' => do
    advance
    let value ← string true
    fail (.wrongType (.string value) expected)
  | some '[' => fail (.wrongType .sequence expected)
  | some '{' => fail (.wrongType .map expected)
  | some c =>
    if c.isDigit then
      let value ← number false
      fail (.wrongType (.number value) expected)
    else failAhead .expectedValue
  | none => failAhead .endInValue

/-- Reads a boolean. -/
def readBool : Json.Reader Bool := do
  match ← peekToken with
  | some 't' => advance; word ['r', 'u', 'e']; pure true
  | some 'f' => advance; word ['a', 'l', 's', 'e']; pure false
  | _ => mismatch "a boolean"

/-- Reads a string. -/
def readText : Json.Reader String := do
  match ← peekToken with
  | some '"' => do
    advance
    string true
  | _ => mismatch "a string"

/-- Reads strings up to the end of a list. -/
def readTextItems : Nat → List String → Json.Reader (List String)
  | 0, _ => fail .tooDeep
  | fuel + 1, read => do
    if ← nextItem true read.isEmpty then
      let text ← readText
      readTextItems fuel (text :: read)
    else
      advance
      pure read.reverse

/-- Reads a list of strings. -/
def readTexts : Json.Reader (List String) := do
  match ← peekToken with
  | some '[' => do
    advance
    readTextItems ((← get).rest.length + 1) []
  | _ => mismatch "a sequence"

/-- Reads a value that may be null. -/
def readOptional {α : Type} (read : Json.Reader α) : Json.Reader (Option α) := do
  match ← peekToken with
  | some 'n' => advance; word ['u', 'l', 'l']; pure none
  | some _ => do
    let value ← read
    pure (some value)
  | none => failAhead .endInValue

/-- Reads the value of a field. -/
def readField (options : PluginOptions) : Field → Json.Reader PluginOptions
  | .enabled => do return { options with enabled := ← readOptional readBool }
  | .attributePrefix => do return { options with attributePrefix := ← readText }
  | .includeProps => do return { options with includeProps := ← readBool }
  | .includeSuffixes => do return { options with includeSuffixes := ← readTexts }
  | .excludeParts => do return { options with excludeParts := ← readTexts }
  | .root => do return { options with root := ← readOptional readText }

/-- Reads the members of an object up to its end; `seen` are the fields that are
    set already. -/
def readMembers : Nat → Bool → List Field → PluginOptions → Json.Reader PluginOptions
  | 0, _, _, _ => fail .tooDeep
  | fuel + 1, first, seen, options => do
    if ← nextKey true first then
      advance
      let name ← string true
      match Field.ofName? name with
      | some field =>
        if seen.contains field then
          let _ ← peekToken
          fail (.duplicateField name)
        else
          colon
          let options ← readField options field
          readMembers fuel false (field :: seen) options
      | none =>
        colon
        skip
        readMembers fuel false seen options
    else
      advance
      pure options

/-- Checks that a list ends after its last field. -/
def endOfFields : Json.Reader Unit := do
  match ← peekToken with
  | some ']' => advance
  | some ',' =>
    advance
    match ← peekToken with
    | some ']' => failAhead .trailingComma
    | _ => failAhead .trailingCharacters
  | some _ => failAhead .trailingCharacters
  | none => failAhead .endInList

/-- Reads the fields of a list up to its end. -/
def readItems : Bool → List Field → PluginOptions → Json.Reader PluginOptions
  | _, [], options => do
    endOfFields
    pure options
  | first, field :: rest, options => do
    if ← nextItem true first then
      let options ← readField options field
      readItems false rest options
    else
      advance
      pure options

/-- Reads options. -/
def read : Json.Reader PluginOptions := do
  match ← peekToken with
  | none => failAhead .endInValue
  | some '{' => do
    advance
    readMembers ((← get).rest.length + 1) true [] {}
  | some '[' => do
    advance
    readItems true Field.all {}
  | some _ => mismatch "struct PluginOptions"

/-- The options that a text gives. -/
def parse (source : List Char) : Except Json.LocatedFault PluginOptions :=
  ((do let options ← read; finish; pure options : Json.Reader PluginOptions).run
    ⟨source, 0⟩).map (·.1)

end PluginOptions

/-! ## §3. Commands -/

/-- The command of a name. -/
def HostCommand.ofName? (name : String) : Option HostCommand :=
  if name = "serve" then some .serve else if name = "build" then some .build else none

/-- The command that a document names: by a string, or by an object whose only
    key is the name and whose value is null. -/
def HostCommand.ofJson : Json → Except Fault HostCommand
  | .string name => named name
  | .object [(name, value)] => do
    let command ← named name
    match value with
    | .null => return command
    | other => throw (.wrongType other.shape "unit")
  | .object _ => .error (.wrongValue .map "map with a single key")
  | other => .error (.wrongType other.shape "string or map")
where
  /-- The command of a name, or the fault that there is none. -/
  named (name : String) : Except Fault HostCommand :=
    match HostCommand.ofName? name with
    | some command => .ok command
    | none => .error (.unknownVariant name ["serve", "build"])

end Provenance
