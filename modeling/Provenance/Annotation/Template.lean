import Provenance.Annotation.Basic
import Provenance.Template.Component
import Provenance.Template.Snapshot

/-! # Annotating templates

  The markers of a component are spliced in behind the tag names of its template;
  every other character of the file stays as it is.
-/

namespace Provenance.Template

/-- The decision on an element of a template. -/
def OpenTag.decide (context : FileContext) (tag : OpenTag) : Decision :=
  context.decide tag.name (tag.hasAttribute context.options.idAttribute) tag.start tag.snapshot

/-- Splices the marker of an element in, if it gets one. -/
def OpenTag.splice (context : FileContext) (buffer : SpliceBuffer) (tag : OpenTag) :
    SpliceBuffer :=
  match tag.decide context with
  | .mark _ marker => buffer.insert tag.nameEnd marker.markup
  | .skip _ | .keep => buffer

/-- The elements of a component, each before those inside it. -/
def Component.openTags (component : Component) : List OpenTag :=
  match component.template with
  | some block => openTagsOf block.children
  | none => []

/-- The text of a component with the markers of its elements to be spliced in. -/
def Component.spliced (component : Component) (context : FileContext) : SpliceBuffer :=
  component.openTags.foldl (OpenTag.splice context) { original := context.lines.text }

/-- Annotates a component file.  There is no output if nothing is to be marked. -/
def annotate (code : List Char) (path : String) (options : TransformOptions) : Annotation :=
  match Component.parse code with
  | .error e => ⟨.error (.parse path e.message), []⟩
  | .ok component =>
    let context := FileContext.of code path options
    let buffer := component.spliced context
    { result := .ok (if buffer.isEmpty then none else buffer.output? path)
      events := component.openTags.filterMap fun tag =>
        context.event? tag.name (tag.decide context) }

end Provenance.Template
