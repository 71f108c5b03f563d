/-! # Options

  `PluginOptions` is what a host hands over; `TransformOptions` is the part of
  it that annotating a file reads.
-/

namespace Provenance

/-- What annotating one file depends on. -/
structure TransformOptions where
  /-- Starts the names of the `-id` and `-name` attributes. -/
  attributePrefix : String := "data-lov"
  /-- Whether the content attribute is attached. -/
  includeProps : Bool := true
  /-- The project root that paths are made relative to. -/
  root : Option String := none
deriving DecidableEq, Repr

/-- The name of the attribute that identifies an element. -/
def TransformOptions.idAttribute (options : TransformOptions) : String :=
  options.attributePrefix ++ "-id"

/-- The name of the attribute that names a tag. -/
def TransformOptions.nameAttribute (options : TransformOptions) : String :=
  options.attributePrefix ++ "-name"

/-- The configuration of a host. -/
structure PluginOptions where
  /-- Decides whether the plugin runs; unset, it runs while serving only. -/
  enabled : Option Bool := none
  attributePrefix : String := "data-lov"
  includeProps : Bool := true
  /-- The file name endings to transform. -/
  includeSuffixes : List String := [".jsx", ".tsx", ".vue"]
  /-- Parts of paths to leave alone. -/
  excludeParts : List String := []
  root : Option String := none
deriving DecidableEq, Repr

/-- The transform options of a configuration.  A root of its own goes before the
    fallback. -/
def PluginOptions.transformOptions (options : PluginOptions) (fallbackRoot : Option String) :
    TransformOptions where
  attributePrefix := options.attributePrefix
  includeProps := options.includeProps
  root := options.root.or fallbackRoot

/-- The command that a host runs. -/
inductive HostCommand where
  | serve
  | build
deriving DecidableEq, Repr

end Provenance
