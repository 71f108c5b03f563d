import Provenance.Script.Print.Expression

/-! # Printed types

  The rules for types.  Types keep the parentheses of the source, so none of them
  depends on its place.
-/

namespace Provenance.Script.Print

/-! ## §1. Lists of types -/

/-- Prints the parameters of types, on lines of their own if there are two or more.  A
    comma behind a single one keeps it apart from markup. -/
def typeParameters (parts : List Part) : Print := do
  char '<'
  if parts.length > 1 then onLines (parts.map Part.whole)
  else
    parts.forM Part.whole
    char ','
  char '>'

/-- Prints arguments for the parameters of types. -/
def typeArguments (parts : List Part) : Print := do
  char '<'
  commaSeparated (parts.map Part.whole)
  char '>'

/-- Prints types with a mark between them. -/
def joined (mark : String) (parts : List Part) : Print :=
  separated (text (" " ++ mark ++ " ")) (parts.map Part.whole)

/-- Prints the members of an object type or of an interface, each on a line of its
    own. -/
def members (span : Span) (inType : Bool) (parts : List Part) : Print :=
  braces span parts.isEmpty do
    parts.forM fun part => do
      commentsAt part.tree.span.start
      indentation
      part.print { inType }
      endStatement

/-- Prints the key of a member. -/
def memberKey (part : Part) (isComputed : Bool) (place : Place) : Print :=
  if isComputed then key part true else part.print { inType := place.inType }

/-- Prints a template of types: texts, and types in braces. -/
def templateTypeRest : List Part → Print
  | [] => pure ()
  | part :: rest => do
    match part.tree.form with
    | .templateText raw _ => text raw
    | _ =>
      chars ['$', '{']
      part.whole
      char '}'
    templateTypeRest rest

/-! ## §2. Single types -/

/-- The text of a sign in front of a modifier. -/
def signText : MappedSign → String
  | .plain => ""
  | .plus => "+"
  | .minus => "-"

/-- Prints a mapped type. -/
def mapped (readonly optional : Option MappedSign) (name bound nameType type : Part) : Print := do
  char '{'
  blank
  readonly.forM fun sign => text (signText sign ++ "readonly ")
  char '['
  name.whole
  text " in "
  bound.whole
  nameType.behind " as "
  char ']'
  optional.forM fun sign => text (signText sign ++ "?")
  blank
  type.behind ": "
  blank
  char '}'

/-- Prints a type with a mark behind or in front of it. -/
def marked (mark : Char) (isBehind : Bool) (type : Part) : Print := do
  if !isBehind then char mark
  type.whole
  if isBehind then char mark

/-- Prints a type of another module. -/
def importType (source options qualifier generics : Part) : Print := do
  text "import("
  source.whole
  options.behind ", "
  char ')'
  qualifier.behind "."
  if !generics.isAbsent then generics.whole

/-- Prints a parameter of a type. -/
def typeParameter (isConst isIn isOut : Bool) (name bound default : Part) : Print := do
  if isConst then text "const "
  if isIn then text "in "
  if isOut then text "out "
  name.whole
  bound.behind " extends "
  default.behind " = "

/-- Prints the signature of a function, with a mark in front of its result. -/
def signature (mark : String) (generics params result : Part) : Print := do
  if !generics.isAbsent then generics.whole
  params.whole
  result.behind mark

/-- Prints the signature of a method. -/
def methodSignature (kind : MethodKind) (isComputed isOptional : Bool)
    (k generics params result : Part) (place : Place) : Print := do
  match kind with
  | .get => text "get "
  | .set => text "set "
  | .method | .constructor => pure ()
  memberKey k isComputed place
  if isOptional then char '?'
  signature ": " generics params result

/-! ## §3. Rules -/

/-- The rule for a type. -/
def typeRule (span : Span) (form : Form) (parts : List Part) (place : Place) : Option Print :=
  match form, parts with
  | .keywordType s, _ => some (text s)
  | .typeReference, [name, generics] => some do
      name.whole
      if !generics.isAbsent then generics.whole
  | .qualifiedName, [a, b] => some do
      a.whole
      char '.'
      b.whole
  | .union, list => some (joined "|" list)
  | .intersection, list => some (joined "&" list)
  | .arrayType, [type] => some do
      type.whole
      text "[]"
  | .indexedAccess, [object, inner] => some do
      object.whole
      char '['
      inner.whole
      char ']'
  | .tuple, list => some do
      char '['
      commaSeparated (list.map Part.whole)
      char ']'
  | .namedMember isOptional, [label, type] => some do
      label.whole
      if isOptional then char '?'
      text ": "
      type.whole
  | .optionalType, [type] => some do
      type.whole
      char '?'
  | .nullable isBehind, [type] => some (marked '?' isBehind type)
  | .nonNullable isBehind, [type] => some (marked '!' isBehind type)
  | .unknownType, _ => some (text "unknown")
  | .restType, [type] => some do
      text "..."
      type.whole
  | .functionType, [generics, params, result] => some (signature " => " generics params result)
  | .constructorType isAbstract, [generics, params, result] => some do
      text (if isAbstract then "abstract new " else "new ")
      signature " => " generics params result
  | .literalType, [value] => some (value.print { inType := true })
  | .typeQuery, [name, generics] => some do
      text "typeof "
      name.whole
      if !generics.isAbsent then generics.whole
  | .importType, [source, options, qualifier, generics] =>
    some (importType source options qualifier generics)
  | .mapped readonly optional, [name, bound, nameType, type] =>
    some (mapped readonly optional name bound nameType type)
  | .conditionalType, [check, bound, yes, no] => some do
      check.whole
      text " extends "
      bound.whole
      text " ? "
      yes.whole
      text " : "
      no.whole
  | .infer, [parameter] => some do
      text "infer "
      parameter.whole
  | .typeOperator op, [type] => some do
      text (op ++ " ")
      type.whole
  | .predicate isAsserts, [name, type] => some do
      if isAsserts then text "asserts "
      name.whole
      type.behind " is "
  | .parenthesizedType, [type] => some (wrapped true type.whole)
  | .templateType, list => some do
      char '`'
      templateTypeRest list
      char '`'
  | .typeLiteral, list => some (members span true list)
  | .interfaceBody, list => some (members span false list)
  | .typeParameters, list => some (typeParameters list)
  | .typeArguments, list => some (typeArguments list)
  | .typeParameter isConst isIn isOut, [name, bound, default] =>
    some (typeParameter isConst isIn isOut name bound default)
  | .propertySignature isComputed isOptional isReadonly, [k, type] => some do
      if isReadonly then text "readonly "
      memberKey k isComputed place
      if isOptional then char '?'
      type.behind ": "
  | .methodSignature kind isComputed isOptional, [k, generics, params, result] =>
    some (methodSignature kind isComputed isOptional k generics params result place)
  | .callSignature, [generics, params, result] => some (signature ": " generics params result)
  | .constructSignature, [generics, params, result] => some do
      text "new "
      signature ": " generics params result
  | .indexSignature name isReadonly, [key, type] => some do
      if isReadonly then text "readonly "
      char '['
      text name
      key.behind ": "
      char ']'
      type.behind ": "
  | .heritage, [base, generics] => some do
      base.under .postfixed
      if !generics.isAbsent then generics.whole
  | _, _ => none

end Provenance.Script.Print
