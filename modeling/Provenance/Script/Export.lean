import Provenance.Script.Tree

/-! # Names that a program exports

  A program exports each name at most once; the default export goes by the name
  `default`.

  Main statement: the test finds a name that occurs twice wherever there is one
  (`exportsOnce_iff`).
-/

namespace Provenance.Script.Tree

mutual

/-- The names that a pattern or a declaration binds. -/
def boundNames : Tree → List String
  | node _ (.identifier name) _ => [name]
  | node _ (.patternProperty _ _) [_, value] => boundNames value
  | node _ .defaulted (pattern :: _) => boundNames pattern
  | node _ (.typed _) (pattern :: _) => boundNames pattern
  | node _ (.declarator _) (pattern :: _) => boundNames pattern
  | node _ (.function _ _ _ _) (name :: _) => boundNames name
  | node _ (.classDefinition _ _) (_ :: name :: _) => boundNames name
  | node _ .objectPattern parts => boundNamesOf parts
  | node _ .arrayPattern parts => boundNamesOf parts
  | node _ .rest parts => boundNamesOf parts
  | node _ (.variableList _ _) parts => boundNamesOf parts
  | _ => []

/-- The names that several patterns bind. -/
def boundNamesOf : List Tree → List String
  | [] => []
  | tree :: rest => boundNames tree ++ boundNamesOf rest

end

/-- The name by which something goes outside of its module. -/
def outerName? : Tree → Option String
  | node _ (.identifier name) _ => some name
  | node _ (.string name _) _ => some name
  | _ => none

/-- The names that a statement exports. -/
def exportedNames : Tree → List String
  | node _ (.exportNamed _) (declaration :: items :: _) =>
    boundNames declaration ++ items.parts.filterMap fun item => item.parts[1]?.bind outerName?
  | node _ (.exportAll _) (name :: _) => (outerName? name).toList
  | node _ .exportDefault _ => ["default"]
  | _ => []

/-- Whether statements export no name twice. -/
def exportsOnce (statements : List Tree) : Bool := decide (statements.flatMap exportedNames).Nodup

theorem exportsOnce_iff (statements : List Tree) :
    exportsOnce statements = true ↔ (statements.flatMap exportedNames).Nodup := by
  simp [exportsOnce]

end Provenance.Script.Tree
