import Provenance.FileIdentity
import Provenance.Options.Basic
import Provenance.Snapshot
import Provenance.Text.Position
import Provenance.Text.Reference

/-! # Markers

  The attributes that an annotated element receives: where it stands, what it is
  called and, if asked for, a snapshot of its properties.  They depend on nothing
  but the element, its file and the options.
-/

namespace Provenance

/-- The attributes of one annotated element. -/
structure Marker where
  attributePrefix : String
  id : String
  name : String
  path : String
  line : Nat
  file : String
  content : Option String
deriving DecidableEq, Repr

namespace Marker

/-- The marker of an element: its id is the path, line and column. -/
def synthesize (identity : FileIdentity) (position : Position) (tag : String)
    (props : PropertyMap) (options : TransformOptions) : Marker where
  attributePrefix := options.attributePrefix
  id := identity.relativePath ++ ":" ++ toString position.line ++ ":" ++ toString position.column
  name := tag
  path := identity.relativePath
  line := position.line
  file := identity.fileName
  content := if options.includeProps then props.content? else none

/-- The attributes in the order in which they are written. -/
def entries (marker : Marker) : List (String × String) :=
  [(marker.attributePrefix ++ "-id", marker.id),
   (marker.attributePrefix ++ "-name", marker.name),
   ("data-component-path", marker.path),
   ("data-component-line", toString marker.line),
   ("data-component-file", marker.file),
   ("data-component-name", marker.name)] ++
  match marker.content with
  | some content => [("data-component-content", content)]
  | none => []

/-- One attribute as markup, with a blank in front. -/
def attributeMarkup (entry : String × String) : List Char :=
  ' ' :: entry.1.toList ++ '=' :: '"' :: Text.escapeValue entry.2.toList ++ ['"']

/-- The attributes as they are spliced in after a tag name. -/
def markup (marker : Marker) : List Char := marker.entries.flatMap attributeMarkup

end Marker

end Provenance
