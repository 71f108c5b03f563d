import Provenance.Json.Basic
import Provenance.Text.Percent

/-! # Property snapshots

  A snapshot records what is known of an element's attributes without running
  any code: literals by their value, and everything else by a placeholder that
  names its kind.  Entries keep the order in which their keys first came, and
  setting a key again replaces its value in place.

  The content of a snapshot is its JSON text as one component of a URI, without
  the entries under reserved keys.
-/

namespace Provenance

/-! ## §1. Values -/

/-- What is known of the value of one property. -/
inductive PropValue where
  /-- A string, number, boolean or null. -/
  | literal (value : Json)
  | object (entries : List (String × PropValue))
  | array (items : List PropValue)
  /-- A bare identifier inside an object or array literal. -/
  | variable (name : String)
  /-- Any other expression, by the name of its kind. -/
  | expression (kind : String)
  /-- A spread, whose keys are not known. -/
  | spread
deriving Inhabited

namespace PropValue

/-- A text. -/
def string (value : String) : PropValue := .literal (.string value)

/-- The value of an attribute that is written without one. -/
def flag : PropValue := .literal (.bool true)

mutual

/-- The JSON form of a value. -/
def toJson : PropValue → Json
  | .literal value => value
  | .object entries => .object (membersOf entries)
  | .array items => .array (itemsOf items)
  | .variable name => .string ("[var:" ++ name ++ "]")
  | .expression kind => .string ("[" ++ kind ++ "]")
  | .spread => .bool true

/-- The JSON forms of the items of an array. -/
def itemsOf : List PropValue → List Json
  | [] => []
  | item :: rest => toJson item :: itemsOf rest

/-- The JSON forms of the entries of an object. -/
def membersOf : List (String × PropValue) → List (String × Json)
  | [] => []
  | (key, value) :: rest => (key, toJson value) :: membersOf rest

end

end PropValue

/-! ## §2. Ordered maps -/

/-- A snapshot of the properties of an element. -/
structure PropertyMap where
  entries : List (String × PropValue) := []

namespace PropertyMap

/-- The snapshot without entries. -/
def empty : PropertyMap := {}

/-- Sets a key in a list of entries: in place if it is there, else at the end. -/
def setEntry (key : String) (value : PropValue) :
    List (String × PropValue) → List (String × PropValue)
  | [] => [(key, value)]
  | (k, v) :: rest => if k = key then (k, value) :: rest else (k, v) :: setEntry key value rest

/-- Sets the value of a key. -/
def insert (map : PropertyMap) (key : String) (value : PropValue) : PropertyMap :=
  ⟨setEntry key value map.entries⟩

/-- The snapshot of a sequence of settings. -/
def ofList (settings : List (String × PropValue)) : PropertyMap :=
  settings.foldl (fun map setting => map.insert setting.1 setting.2) empty

/-- The value of a key. -/
def get? (map : PropertyMap) (key : String) : Option PropValue :=
  (map.entries.find? fun entry => entry.1 = key).map (·.2)

/-- Whether a key is set. -/
def contains (map : PropertyMap) (key : String) : Bool := (map.get? key).isSome

/-- The number of keys. -/
def size (map : PropertyMap) : Nat := map.entries.length

/-- Whether no key is set. -/
def isEmpty (map : PropertyMap) : Bool := map.entries.isEmpty

/-- The entries whose key satisfies a test. -/
def filter (map : PropertyMap) (keep : String → Bool) : PropertyMap :=
  ⟨map.entries.filter fun entry => keep entry.1⟩

/-- The snapshot as a value inside another one. -/
def toValue (map : PropertyMap) : PropValue := .object map.entries

/-- The JSON form of a snapshot. -/
def toJson (map : PropertyMap) : Json := map.toValue.toJson

/-! ## §3. Content -/

/-- Whether a key is kept out of the content: `key`, `ref` and the names that
    start with `data-` or `aria-`. -/
def isReserved (key : String) : Bool :=
  key == "key" || key == "ref" || key.startsWith "data-" || key.startsWith "aria-"

/-- The encoded content, or nothing if no entry is left to show. -/
def content? (map : PropertyMap) : Option String :=
  let visible := map.filter fun key => !isReserved key
  if visible.isEmpty then none
  else some (String.ofList (Text.encodeUriComponent visible.toJson.write))

end PropertyMap

end Provenance
