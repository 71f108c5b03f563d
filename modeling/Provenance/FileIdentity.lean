/-! # Names of a source file

  The dialect of a file follows from its extension, and the attributes name the
  file by its path below the project root and by its last segment.
-/

namespace Provenance

/-! ## §1. Dialects -/

/-- The markup syntax of a source file. -/
inductive Dialect where
  /-- Markup inside the expressions of a script. -/
  | jsx
  /-- Markup in the template block of a single-file component. -/
  | vue
deriving DecidableEq, Repr

/-- The dialect of a path, by its extension. -/
def Dialect.ofPath? (path : String) : Option Dialect :=
  if path.endsWith ".jsx" || path.endsWith ".tsx" then some .jsx
  else if path.endsWith ".vue" then some .vue
  else none

/-- A source text with its path. -/
structure SourceFile where
  text : String
  path : String
  dialect : Dialect
deriving DecidableEq, Repr

/-- The source file of a path whose extension has a dialect. -/
def SourceFile.ofPath? (text path : String) : Option SourceFile :=
  (Dialect.ofPath? path).map fun dialect => { text, path, dialect }

/-! ## §2. Identity -/

/-- The names of a file that the attributes record. -/
structure FileIdentity where
  /-- The path below the project root, without leading slashes. -/
  relativePath : String
  /-- The last segment of the path. -/
  fileName : String
deriving DecidableEq, Repr

/-- A path with forward slashes only. -/
def normalizeSlashes (path : List Char) : List Char :=
  path.map fun c => if c = '\\' then '/' else c

/-- A text without the slashes at its start. -/
def dropLeadingSlashes (path : List Char) : List Char := path.dropWhile (· = '/')

/-- A text without the slashes at its end. -/
def dropTrailingSlashes (path : List Char) : List Char :=
  (path.reverse.dropWhile (· = '/')).reverse

/-- The part of a text after its last slash. -/
def lastSegment (path : List Char) : List Char :=
  (path.reverse.takeWhile (· ≠ '/')).reverse

/-- The path that remains when the root, if there is one, is taken off its
    front; a path that does not begin with the root stays whole. -/
def stripRoot (root : Option (List Char)) (path : List Char) : List Char :=
  match root with
  | some root =>
    if root.isEmpty then path
    else ((dropTrailingSlashes (normalizeSlashes root)).isPrefixOf? path).getD path
  | none => path

/-- The identity of a file below an optional project root. -/
def FileIdentity.ofPath (path : String) (root : Option String) : FileIdentity :=
  let normalized := normalizeSlashes path.toList
  { relativePath :=
      String.ofList (dropLeadingSlashes (stripRoot (root.map String.toList) normalized))
    fileName := String.ofList (lastSegment normalized) }

end Provenance
