import Provenance.Script.Print.Statement
import Provenance.Script.Program

/-! # Printed code

  The printer of syntax trees: at each node the rule for its form is followed.  The
  result of printing a program is its text and its source map.
-/

namespace Provenance.Script

namespace Print

/-- Prints a node by the rule for its form. -/
def rule (span : Span) (form : Form) (parts : List Part) (place : Place) : Print :=
  ((statementRule span form parts place).or
    ((typeRule span form parts place).or (expressionRule span form parts place))).getD (pure ())

mutual

/-- Prints a tree at a place. -/
def tree : Tree → Place → Print
  | .node span form parts => rule span form (partsOf parts)

/-- Trees with their ways of being printed. -/
def partsOf : List Tree → List Part
  | [] => []
  | t :: rest => ⟨t, tree t⟩ :: partsOf rest

end

end Print

/-- The text of a tree that stems from a source, and the map between the two. -/
def Tree.print (tree : Tree) (comments : List Comment) (source : List Char) (path : String) :
    List Char × SourceMap :=
  let start : Page := { source := LineIndex.ofText source, comments }
  let (_, page) := (Print.tree tree {}).run start
  (page.text.reverse,
    { path, source := String.ofList source, names := page.names,
      segments := page.segments.reverse })

end Provenance.Script
