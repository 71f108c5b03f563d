import Provenance.Script.Value
import Provenance.Template.Basic

/-! # Snapshots of template elements

  Attributes count as texts, and directives by the value of their expression.  A
  directive that binds an attribute is recorded under the name of that attribute,
  and any other one under its own name behind a colon.
-/

namespace Provenance.Template

/-- The key of entries whose keys are not known. -/
def spreadKey : String := "...spread"

/-- The value of an expression that may be missing or blank. -/
def valueOr (default : PropValue) (expression : Option String) : PropValue :=
  match expression with
  | some text =>
    if (Text.trim text.toList).isEmpty then default else Script.evaluate text.toList
  | none => default

/-- What a directive sets.  One that binds an attribute to the variable of the same
    name may leave out its expression. -/
def Directive.setting (d : Directive) : String × PropValue :=
  if d.name = "bind" then
    match d.argument with
    | none => (spreadKey, .spread)
    | some name => (name, valueOr (.expression "Identifier") d.expression)
  else (":" ++ d.name, valueOr .flag d.expression)

/-- What an entry of a start tag sets. -/
def Entry.setting : Entry → String × PropValue
  | .attribute a => (a.name, (a.value.map PropValue.string).getD .flag)
  | .directive d => d.setting

/-- The snapshot of a start tag. -/
def OpenTag.snapshot (tag : OpenTag) : PropertyMap :=
  PropertyMap.ofList (tag.entries.map Entry.setting)

end Provenance.Template
