import Provenance.Annotation.File
import Provenance.Options.Reading

/-! # The plugin

  What a host sees: whether the plugin runs for a command, which files it takes, and
  what it makes of them.  A host that hands over commands and options as plain data
  gets an error for what makes no sense.
-/

namespace Provenance

/-! ## §1. Plugins -/

/-- A plugin with its configuration. -/
structure Plugin where
  options : PluginOptions
  transformOptions : TransformOptions
deriving DecidableEq, Repr

namespace Plugin

/-- The plugin of a configuration, which may lack a root of its own. -/
def ofOptions (options : PluginOptions) (fallbackRoot : Option String) : Plugin where
  options := options
  transformOptions := options.transformOptions fallbackRoot

/-- Whether the plugin runs for a command. -/
def appliesTo (plugin : Plugin) (command : HostCommand) : Bool :=
  plugin.options.enabled.getD (command = .serve)

/-- Whether a text stands somewhere in another one. -/
def hasPart (part s : String) : Bool := (Text.Cursor.splitOn? part.toList s.toList).isSome

/-- Whether the plugin takes a file: none of dependencies or of excluded paths, and
    only those with one of its endings. -/
def accepts (plugin : Plugin) (id : String) : Bool :=
  !hasPart "node_modules" id && !plugin.options.excludeParts.any (hasPart · id) &&
    plugin.options.includeSuffixes.any fun suffix => id.endsWith suffix

/-- The source file of an id, if the plugin takes it and knows its dialect. -/
def sourceFile? (plugin : Plugin) (code id : String) : Option SourceFile :=
  if plugin.accepts id then SourceFile.ofPath? code id else none

/-- The new text of a file, if the plugin changes it. -/
def transform (plugin : Plugin) (code id : String) : Option Output :=
  (plugin.sourceFile? code id).bind fun file => file.transform plugin.transformOptions

/-- The new texts of several files, each given by its text and its id. -/
def batch (plugin : Plugin) (modules : List (String × String)) : List (Option Output) :=
  modules.map fun m => plugin.transform m.1 m.2

/-- The events while several files are annotated. -/
def batchEvents (plugin : Plugin) (modules : List (String × String)) : List Event :=
  .batch modules.length :: modules.flatMap fun m =>
    match plugin.sourceFile? m.1 m.2 with
    | some file => file.events plugin.transformOptions
    | none => []

end Plugin

/-! ## §2. Calls of a host -/

/-- Why a call of a host is refused. -/
inductive HostError where
  | unknownCommand (name : String)
  | invalidOptions (fault : Json.Fault)

/-- The words for an error. -/
def HostError.message : HostError → String
  | .unknownCommand name => "unknown command: " ++ name
  | .invalidOptions fault => "invalid options: " ++ fault.message

/-- The plugin of options that a host hands over, or of the default ones. -/
def Plugin.ofJson (options : Option Json) : Except HostError Plugin :=
  match options with
  | none => .ok (.ofOptions {} none)
  | some document =>
    match PluginOptions.ofJson document with
    | .ok options => .ok (.ofOptions options none)
    | .error fault => .error (.invalidOptions fault)

/-- Whether the plugin of some options runs for the command of a name.  The name is
    looked at first. -/
def Plugin.appliesToNamed (command : String) (options : Option Json) : Except HostError Bool :=
  match HostCommand.ofName? command with
  | none => .error (.unknownCommand command)
  | some command => (Plugin.ofJson options).map fun plugin => plugin.appliesTo command

/-- The new text of a file, if the plugin of some options changes it. -/
def Plugin.transformFile (code id : String) (options : Option Json) :
    Except HostError (Option Output) :=
  (Plugin.ofJson options).map fun plugin => plugin.transform code id

end Provenance
