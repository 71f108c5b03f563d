import Provenance.Annotation.Markup
import Provenance.Annotation.Template

/-! # Annotating files

  A source file is annotated the way its dialect asks for.  A file that does not
  parse stays as it is, which is reported.
-/

namespace Provenance

/-- The name of a dialect in reports. -/
def Dialect.name : Dialect → String
  | .jsx => "JSX"
  | .vue => "Vue"

namespace SourceFile

/-- What annotating a file comes to, by its dialect. -/
def annotation (file : SourceFile) (options : TransformOptions) : Annotation :=
  match file.dialect with
  | .jsx => Script.annotate file.text.toList file.path options
  | .vue => Template.annotate file.text.toList file.path options

/-- The new text of a file, if it changes. -/
def transform (file : SourceFile) (options : TransformOptions) : Option Output :=
  match (file.annotation options).result with
  | .ok output => output
  | .error _ => none

/-- The events while a file is annotated. -/
def events (file : SourceFile) (options : TransformOptions) : List Event :=
  let annotation := file.annotation options
  match annotation.result with
  | .ok _ => annotation.events
  | .error e => annotation.events ++ [.untouched file.dialect.name file.path e]

end SourceFile

end Provenance
