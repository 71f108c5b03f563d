import Provenance.Script.Tree

/-! # Targets of assignments

  What an assignment may write to: a name, a member, or an object or array of
  such.  The latter two are read as literals first and become patterns when the
  assignment shows.  A rest comes last in them, without a comma behind it.
-/

namespace Provenance.Script.Tree

/-- Whether a tree is a name or a member, seen through parentheses and through what
    gives it a type. -/
def isPlace : Tree → Bool
  | node _ (.identifier _) _ => true
  | node _ (.member _) _ => true
  | node _ (.index _) _ => true
  | node _ .parenthesized [inner] => isPlace inner
  | node _ .asType (inner :: _) => isPlace inner
  | node _ .satisfiesType (inner :: _) => isPlace inner
  | node _ .nonNull [inner] => isPlace inner
  | node _ .typeAssertion [_, inner] => isPlace inner
  | _ => false

/-- The target of an assignment that is no pattern. -/
def simpleTarget? : Tree → Option Tree
  | node _ .parenthesized [inner] => simpleTarget? inner
  | tree => if tree.isPlace then some tree else none

mutual

/-- The target of an assignment. -/
def target? : Tree → Option Tree
  | node span .object parts => (propertyTargets? parts).map (node span .objectTarget)
  | node span .array parts => (itemTargets? parts).map (node span .arrayTarget)
  | tree => simpleTarget? tree

/-- The target of an item, which may have a default. -/
def itemTarget? : Tree → Option Tree
  | node span (.assignment "=") parts => some (node span .defaulted parts)
  | node span .hole _ => some (node span .hole [])
  | node span (.spread false) [inner] => (target? inner).map fun t => node span .restTarget [t]
  | node _ (.spread true) _ => none
  | node span .object parts => (propertyTargets? parts).map (node span .objectTarget)
  | node span .array parts => (itemTargets? parts).map (node span .arrayTarget)
  | tree => simpleTarget? tree

/-- The targets of items. -/
def itemTargets? : List Tree → Option (List Tree)
  | [] => some []
  | item :: rest => do
    let item ← itemTarget? item
    let rest ← itemTargets? rest
    return item :: rest

/-- The target of a property. -/
def propertyTarget? : Tree → Option Tree
  | node span (.property .method false true isComputed) [key, _, default] =>
    if default.isAbsent then some (node span (.targetProperty true isComputed) [key, key])
    else
      some (node span (.targetProperty true isComputed)
        [key, node span .defaulted [key, default]])
  | node span (.property .method false false isComputed) [key, value, _] =>
    (itemTarget? value).map fun value => node span (.targetProperty false isComputed) [key, value]
  | node span (.spread false) [inner] =>
    (simpleTarget? inner).map fun t => node span .restTarget [t]
  | _ => none

/-- The targets of properties. -/
def propertyTargets? : List Tree → Option (List Tree)
  | [] => some []
  | property :: rest => do
    let property ← propertyTarget? property
    let rest ← propertyTargets? rest
    return property :: rest

end

end Provenance.Script.Tree
