import Mathlib.Data.List.Forall2
import Provenance.Annotation.Markup
import Provenance.Template.Snapshot
import Provenance.Proofs.Template.Directive
import Provenance.Proofs.Template.Printed
import Provenance.Proofs.Script.Attribute
import Provenance.Proofs.Script.Trailing
import Provenance.Proofs.Snapshot.Settings

/-! # One element in two dialects

  An element can stand in a script and in a template.  An attribute that both dialects can
  write is written in the one with an expression in braces and in the other as a directive
  (`SharedAttribute`).

  - The value of an expression depends on what the expression is, and not on where it
    stands (`boundValue_withoutSpans`).
  - Yet a template has that value only if the expression ends where its text does, blanks
    aside (`evaluate_of_readsAs`).  A comment behind the expression is no part of it either,
    and takes its value away.
  - So an attribute sets the same key in both dialects, and the same value exactly if its
    expression ends so.  Of several attributes of one name the last one counts.

  Main statement: `snapshot_eq_iff_of_shared`.
-/

namespace Provenance

namespace Script

/-! ## §1. Trees without their places -/

/-- A form without the spans it holds. -/
def Form.withoutSpans : Form → Form
  | .fragment _ _ => .fragment {} {}
  | form => form

mutual

/-- A tree that does not say where it stands. -/
def Tree.withoutSpans : Tree → Tree
  | .node _ form parts => .node {} form.withoutSpans (withoutSpansOf parts)

/-- Trees that do not say where they stand. -/
def withoutSpansOf : List Tree → List Tree
  | [] => []
  | tree :: rest => tree.withoutSpans :: withoutSpansOf rest

end

theorem withoutSpansOf_eq_map (trees : List Tree) :
    withoutSpansOf trees = trees.map Tree.withoutSpans := by
  induction trees with
  | nil => rfl
  | cons tree trees ih => rw [withoutSpansOf, ih, List.map_cons]

mutual

/-- Whether two trees are equal. -/
def Tree.decEq : (t u : Tree) → Decidable (t = u)
  | .node span form parts, .node span' form' parts' =>
    have := decEqTrees parts parts'
    decidable_of_iff (span = span' ∧ form = form' ∧ parts = parts') (by simp)

/-- Whether two lists of trees are equal. -/
def decEqTrees : (ts us : List Tree) → Decidable (ts = us)
  | [], [] => isTrue rfl
  | [], _ :: _ => isFalse (by simp)
  | _ :: _, [] => isFalse (by simp)
  | t :: ts, u :: us =>
    have := Tree.decEq t u
    have := decEqTrees ts us
    decidable_of_iff (t = u ∧ ts = us) (by simp)

end

instance : DecidableEq Tree := Tree.decEq

/-! ## §2. Values do not depend on places -/

theorem form_withoutSpans (tree : Tree) : tree.withoutSpans.form = tree.form.withoutSpans := by
  cases tree
  rfl

theorem parts_withoutSpans (tree : Tree) :
    tree.withoutSpans.parts = tree.parts.map Tree.withoutSpans := by
  cases tree
  exact withoutSpansOf_eq_map _

/-- Parentheses are parentheses wherever they stand. -/
theorem withoutParentheses_withoutSpans (tree : Tree) :
    tree.withoutSpans.withoutParentheses = tree.withoutParentheses.withoutSpans := by
  fun_induction Tree.withoutParentheses tree with
  | case1 span inner ih => exact ih
  | case2 tree hother =>
    obtain ⟨span, form, parts⟩ := tree
    cases form
    case parenthesized =>
      match parts with
      | [] | _ :: _ :: _ => rfl
      | [inner] => exact absurd rfl (hother span inner)
    all_goals rfl

theorem scalar?_withoutSpans (tree : Tree) : scalar? tree.withoutSpans = scalar? tree := by
  obtain ⟨span, form, parts⟩ := tree
  cases form
  case template =>
    match parts with
    | [] => rfl
    | [.node _ form _] => cases form <;> rfl
    | .node _ form _ :: _ :: _ => cases form <;> rfl
  all_goals rfl

theorem kindName_withoutSpans (tree : Tree) : kindName tree.withoutSpans = kindName tree := by
  obtain ⟨span, form, parts⟩ := tree
  cases form
  case chain =>
    match parts with
    | [] => rfl
    | [.node _ form _] => cases form <;> rfl
    | .node _ form _ :: _ :: _ => cases form <;> rfl
  all_goals rfl

theorem keyText?_withoutSpans (tree : Tree) : keyText? tree.withoutSpans = keyText? tree := by
  obtain ⟨span, form, parts⟩ := tree
  cases form
  case number value text => cases value <;> rfl
  all_goals rfl

theorem nestedValue_withoutSpans (tree : Tree) :
    nestedValue tree.withoutSpans = nestedValue tree := by
  unfold nestedValue
  simp only [withoutParentheses_withoutSpans, scalar?_withoutSpans, kindName_withoutSpans,
    form_withoutSpans]
  cases scalar? tree.withoutParentheses with
  | some value => rfl
  | none => cases tree.withoutParentheses.form <;> rfl

theorem propertyEntry?_withoutSpans (tree : Tree) :
    propertyEntry? tree.withoutSpans = propertyEntry? tree := by
  obtain ⟨span, form, parts⟩ := tree
  cases form
  case property kind isMethod isShorthand isComputed =>
    match parts with
    | [] | [_] => cases kind <;> cases isMethod <;> cases isComputed <;> rfl
    | key :: value :: rest =>
      cases kind <;> cases isMethod <;> cases isComputed
      case method.false.false =>
        show (keyText? key.withoutSpans).map _ = (keyText? key).map _
        rw [keyText?_withoutSpans, nestedValue_withoutSpans]
      all_goals rfl
  all_goals rfl

theorem itemValue_withoutSpans (tree : Tree) : itemValue tree.withoutSpans = itemValue tree := by
  unfold itemValue
  rw [form_withoutSpans, nestedValue_withoutSpans]
  cases tree.form <;> rfl

/-- The value of an expression does not depend on where it stands. -/
theorem boundValue_withoutSpans (tree : Tree) :
    boundValue tree.withoutSpans = boundValue tree := by
  have hentries : propertyEntry? ∘ Tree.withoutSpans = propertyEntry? :=
    funext propertyEntry?_withoutSpans
  have hitems : itemValue ∘ Tree.withoutSpans = itemValue := funext itemValue_withoutSpans
  unfold boundValue
  simp only [withoutParentheses_withoutSpans, scalar?_withoutSpans, kindName_withoutSpans,
    form_withoutSpans, parts_withoutSpans, List.filterMap_map, List.map_map, hentries, hitems]
  cases scalar? tree.withoutParentheses with
  | some value => rfl
  | none => cases tree.withoutParentheses.form <;> rfl

/-! ## §3. Values of texts -/

/-- A text of a bound expression stands for a tree of a script: it is an expression from end
    to end, and the same tree up to places. -/
def ReadsAs (source : List Char) (tree : Tree) : Prop :=
  ∃ read ∈ parseWhole? bindingLanguage source, read.withoutSpans = tree.withoutSpans

instance (source : List Char) (tree : Tree) : Decidable (ReadsAs source tree) :=
  inferInstanceAs (Decidable (∃ read ∈ parseWhole? bindingLanguage source, _))

/-- The expression at the start of a text ends where the text does, blanks aside. -/
def EndsInBlanks (source : List Char) : Prop :=
  ∃ read ∈ parseExpression? bindingLanguage source,
    read.span.stop = Text.byteSize (Text.trimEnd source)

instance : DecidablePred EndsInBlanks := fun source =>
  inferInstanceAs (Decidable (∃ read ∈ parseExpression? bindingLanguage source, _))

/-- A text that stands for a tree has the value of the tree, or is taken for no expression. -/
theorem evaluate_of_readsAs {source : List Char} {tree : Tree} (h : ReadsAs source tree) :
    evaluate source = if EndsInBlanks source then boundValue tree else invalidExpression := by
  obtain ⟨read, hread, hsame⟩ := h
  have hparse := parseExpression?_of_parseWhole? hread
  have hvalue : boundValue read = boundValue tree := by
    rw [← boundValue_withoutSpans, hsame, boundValue_withoutSpans]
  have hends : EndsInBlanks source ↔ read.span.stop = Text.byteSize (Text.trimEnd source) := by
    unfold EndsInBlanks
    rw [hparse]
    simp
  rw [evaluate, hparse, ← hvalue]
  by_cases hstop : read.span.stop = Text.byteSize (Text.trimEnd source)
  · rw [if_pos (hends.2 hstop)]
    exact if_pos hstop
  · rw [if_neg (mt hends.1 hstop)]
    exact if_neg hstop

theorem kindName_ne_invalid (tree : Tree) : kindName tree ≠ "InvalidExpression" := by
  obtain ⟨span, form, parts⟩ := tree
  cases form
  case chain =>
    match parts with
    | [] => simp [kindName]
    | [.node _ form _] => cases form <;> simp [kindName]
    | .node _ form _ :: _ :: _ => simp [kindName]
  all_goals simp [kindName]

/-- No expression has the value of a text that is no expression. -/
theorem boundValue_ne_invalid (tree : Tree) : boundValue tree ≠ invalidExpression := by
  unfold boundValue invalidExpression
  dsimp only
  split
  · exact nofun
  · split
    · exact nofun
    · exact nofun
    · exact fun h => kindName_ne_invalid _ (PropValue.expression.inj h)

/-- In braces an expression counts by its value. -/
theorem attributeValue_container (span : Span) {tree : Tree} (h : tree.form ≠ .emptyExpression) :
    attributeValue (.node span .container [tree]) = boundValue tree := by
  obtain ⟨_, form, _⟩ := tree
  cases form <;> first | rfl | exact absurd rfl h

end Script

/-! ## §4. Attributes of both dialects -/

open Text (byteSize)
open Template (Written Entry isDirectiveName)

/-- An attribute that a script and a template can write. -/
inductive SharedAttribute where
  /-- A name alone. -/
  | flag (name : List Char)
  /-- A name with a text in quotes. -/
  | text (name value : List Char)
  /-- A name with an expression. -/
  | bound (name source : List Char)
  /-- The spread of an object. -/
  | spread (source : List Char)

namespace SharedAttribute

/-- How a template writes an attribute: an expression is the value of a directive. -/
def written : SharedAttribute → Written
  | flag name => ⟨name, none⟩
  | text name value => ⟨name, some value⟩
  | bound name source => ⟨':' :: name, some source⟩
  | spread source => ⟨"v-bind".toList, some source⟩

/-- Whether a tree of a script is an attribute.  Nothing is known of what is spread. -/
def isTree : SharedAttribute → Script.Tree → Bool
  | flag name, .node _ .markupAttribute [key, .node _ .absent _] =>
    Script.nameText key = String.ofList name
  | text name value, .node _ .markupAttribute [key, .node _ (.attributeText written) _] =>
    Script.nameText key = String.ofList name ∧ written = String.ofList value
  | bound name source, .node _ .markupAttribute [key, .node _ .container [tree]] =>
    Script.nameText key = String.ofList name ∧ tree.form ≠ .emptyExpression ∧
      Script.ReadsAs source tree
  | spread _, .node _ .attributeSpread _ => true
  | _, _ => false

/-- Whether trees of a script are attributes, one for each. -/
abbrev AreTrees (attributes : List SharedAttribute) (trees : List Script.Tree) : Prop :=
  List.Forall₂ (fun a tree => a.isTree tree = true) attributes trees

/-- A name that is read as one name in a template, and there is no directive.  That it can
    stand in a script says no more than that it begins with no bracket. -/
structure IsName (name : List Char) : Prop where
  ne_nil : name ≠ []
  part : ∀ x ∈ name, Text.isTagBlank x = false ∧ x ≠ '=' ∧ x ≠ '>' ∧ x ≠ '/'
  head : name.head? ≠ some '['
  plain : isDirectiveName name = false

instance (name : List Char) : Decidable (IsName name) :=
  decidable_of_iff (name ≠ [] ∧
      name.all (fun x => Text.isTagBlank x = false ∧ x ≠ '=' ∧ x ≠ '>' ∧ x ≠ '/') = true ∧
      name.head? ≠ some '[' ∧ isDirectiveName name = false) <| by
    simp only [List.all_eq_true, decide_eq_true_eq]
    exact ⟨fun ⟨hne, hpart, hhead, hplain⟩ => ⟨hne, hpart, hhead, hplain⟩,
      fun h => ⟨h.ne_nil, h.part, h.head, h.plain⟩⟩

/-- An attribute that both dialects can write: a text holds no references, an expression is
    not blank and stands between double quotes, and where a name is bound, no modifiers stand
    behind it. -/
def Valid : SharedAttribute → Prop
  | flag name => IsName name
  | text name value => IsName name ∧ '&' ∉ value ∧ '"' ∉ value
  | bound name source =>
    IsName name ∧ '.' ∉ name ∧ (Text.trim source).isEmpty = false ∧ '"' ∉ source
  | spread source => '"' ∉ source

instance : DecidablePred Valid
  | flag name => inferInstanceAs (Decidable (IsName name))
  | text name value => inferInstanceAs (Decidable (IsName name ∧ '&' ∉ value ∧ '"' ∉ value))
  | bound name source =>
    inferInstanceAs (Decidable
      (IsName name ∧ '.' ∉ name ∧ (Text.trim source).isEmpty = false ∧ '"' ∉ source))
  | spread source => inferInstanceAs (Decidable ('"' ∉ source))

/-! ## §5. What they set -/

theorem Valid.wellFormed {a : SharedAttribute} (h : a.Valid) : a.written.WellFormed := by
  have quoted : ∀ {source : List Char}, '"' ∉ source → ∀ value ∈ some source, '"' ∉ value :=
    fun h _ hvalue => Option.some.inj hvalue ▸ h
  cases a with
  | flag name => exact ⟨h.ne_nil, h.part, fun _ hvalue => nomatch hvalue⟩
  | text name value => exact ⟨h.1.ne_nil, h.1.part, quoted h.2.2⟩
  | bound name source =>
    refine ⟨List.cons_ne_nil ':' name, ?_, quoted h.2.2.2⟩
    intro x hx
    rcases List.mem_cons.1 hx with rfl | hx
    · decide
    · exact h.1.part x hx
  | spread source =>
    have hpart : "v-bind".toList.all
        (fun x => Text.isTagBlank x = false ∧ x ≠ '=' ∧ x ≠ '>' ∧ x ≠ '/') = true := by decide
    simp only [List.all_eq_true, decide_eq_true_eq] at hpart
    exact ⟨show "v-bind".toList ≠ [] by decide, hpart, quoted h⟩

/-- Behind its colon, the name of a bound attribute is all argument. -/
theorem ofName_bound {name : List Char} (h : IsName name) (hpoint : '.' ∉ name)
    (value : Option (List Char)) (start : Nat) :
    Entry.ofName (':' :: name) value start =
      .directive
        { rawName := String.ofList (':' :: name), name := "bind",
          argument := some (String.ofList name), modifiers := [],
          expression := value.map String.ofList, start } := by
  have hmodifiers : Template.AreModifiers [] := by
    intro m hm
    cases hm
  have hbind := Template.ofName_shorthand (s := ⟨':', "bind", []⟩) (by decide)
    (.plain h.ne_nil hpoint h.head) hmodifiers value start
  simpa [Template.Shorthand.written, Template.pointed] using hbind

theorem decodeReferences_of_not_mem {value : List Char} (h : '&' ∉ value) :
    Text.decodeReferences value = value := by
  induction value with
  | nil => rw [Text.decodeReferences]
  | cons x value ih =>
    have hx : x ≠ '&' := fun heq => h (heq ▸ List.mem_cons_self)
    rw [Text.decodeReferences_cons_of_ne hx, ih fun hmem => h (List.mem_cons_of_mem x hmem)]

/-- Where no directive is named, a name sets the text behind it. -/
theorem setting_attribute {name : List Char} (h : IsName name) (value : Option (List Char))
    (start : Nat) :
    (Entry.ofName name value start).setting =
      (String.ofList name, ((value.map fun text => String.ofList (Text.decodeReferences text)).map
        PropValue.string).getD .flag) := by
  unfold Entry.ofName
  rw [if_neg (by rw [h.plain]; decide)]
  rfl

/-- A directive that binds a name to a text sets the name to the value of that text. -/
theorem setting_evaluate {name source : List Char} (h : IsName name) (hpoint : '.' ∉ name)
    (hblank : (Text.trim source).isEmpty = false) (start : Nat) :
    (Entry.ofName (':' :: name) (some source) start).setting =
      (String.ofList name, Script.evaluate source) := by
  have hvalue : Template.valueOr (.expression "Identifier") (some (String.ofList source)) =
      Script.evaluate source := by
    unfold Template.valueOr
    simp only [String.toList_ofList, hblank, Bool.false_eq_true, if_false]
  rw [ofName_bound h hpoint, ← hvalue]
  rfl

/-- What an attribute sets in a template. -/
def setting : SharedAttribute → String × PropValue
  | flag name => (String.ofList name, .flag)
  | text name value => (String.ofList name, .string (String.ofList value))
  | bound name source => (String.ofList name, Script.evaluate source)
  | spread _ => (Template.spreadKey, .spread)

/-- The key that an attribute sets. -/
abbrev key (a : SharedAttribute) : String := a.setting.1

/-- The expression of an attribute, if one is bound, ends where its text does. -/
def EndsInBlanks : SharedAttribute → Prop
  | bound _ source => Script.EndsInBlanks source
  | flag _ | text _ _ | spread _ => True

instance : DecidablePred EndsInBlanks
  | bound _ source => inferInstanceAs (Decidable (Script.EndsInBlanks source))
  | flag _ | text _ _ | spread _ => isTrue trivial

theorem Valid.setting_written {a : SharedAttribute} (h : a.Valid) (start : Nat) :
    (Entry.ofName a.written.name a.written.value start).setting = a.setting := by
  cases a with
  | flag name => exact setting_attribute h none start
  | text name value =>
    refine (setting_attribute h.1 (some value) start).trans ?_
    -- without references a text is decoded to itself
    rw [Option.map_some, decodeReferences_of_not_mem h.2.1]
    rfl
  | bound name source => exact setting_evaluate h.1 h.2.1 h.2.2.1 start
  | spread source => rfl

/-- A value that a script gives to an attribute: it is the one of a template, unless an
    expression does not end with its text and so has no value there. -/
structure IsScriptValue (a : SharedAttribute) (value : PropValue) : Prop where
  eq_iff : a.setting.2 = value ↔ a.EndsInBlanks
  valid : value ≠ Script.invalidExpression
  invalid : ¬ a.EndsInBlanks → a.setting.2 = Script.invalidExpression

theorem IsScriptValue.of_setting {a : SharedAttribute} (hends : a.EndsInBlanks)
    (hvalid : a.setting.2 ≠ Script.invalidExpression) : a.IsScriptValue a.setting.2 where
  eq_iff := iff_of_true rfl hends
  valid := hvalid
  invalid := fun h => absurd hends h

/-- A tree of a script sets the key of its attribute. -/
theorem attributeSetting?_of_isTree {a : SharedAttribute} {tree : Script.Tree}
    (htree : a.isTree tree = true) :
    ∃ value, Script.attributeSetting? tree = some (a.key, value) ∧ a.IsScriptValue value := by
  unfold isTree at htree
  split at htree
  · next name span key span' parts =>
    have hkey : Script.nameText key = String.ofList name := of_decide_eq_true htree
    exact ⟨.flag, congrArg (fun name => some (name, PropValue.flag)) hkey,
      .of_setting trivial nofun⟩
  · next name value span key span' written parts =>
    obtain ⟨hkey, rfl⟩ := of_decide_eq_true htree
    exact ⟨.string (String.ofList value), congrArg (fun name => some (name, _)) hkey,
      .of_setting trivial nofun⟩
  · next name source span key span' tree =>
    obtain ⟨hkey, hform, hread⟩ := of_decide_eq_true htree
    have hne := Script.boundValue_ne_invalid tree
    have hevaluate := Script.evaluate_of_readsAs hread
    have hvalue := Script.attributeValue_container span' hform
    refine ⟨Script.boundValue tree, ?_, ?_, hne, ?_⟩
    · show some (Script.nameText key, _) = some (String.ofList name, _)
      rw [hkey, hvalue]
    · constructor
      · intro h
        by_contra hends
        exact hne (h.symm.trans (hevaluate.trans (if_neg hends)))
      · intro hends
        exact hevaluate.trans (if_pos hends)
    · intro hends
      exact hevaluate.trans (if_neg hends)
  · exact ⟨.spread, rfl, .of_setting trivial nofun⟩
  · cases htree

/-! ## §6. Attributes in a row -/

/-- Attributes with the values that a script gives to them. -/
theorem exists_script_values {attributes : List SharedAttribute} {trees : List Script.Tree}
    (htrees : AreTrees attributes trees) :
    ∃ rows : List (SharedAttribute × PropValue), rows.map (·.1) = attributes ∧
      trees.filterMap Script.attributeSetting? = rows.map (fun row => (row.1.key, row.2)) ∧
      ∀ row ∈ rows, row.1.IsScriptValue row.2 := by
  induction htrees with
  | nil => exact ⟨[], rfl, rfl, nofun⟩
  | @cons a tree attributes trees htree htrees ih =>
    obtain ⟨rows, hfirst, hsettings, hvalues⟩ := ih
    obtain ⟨value, hset, hvalue⟩ := attributeSetting?_of_isTree htree
    refine ⟨(a, value) :: rows, by rw [List.map_cons, hfirst], ?_, ?_⟩
    · rw [List.filterMap_cons_some hset, hsettings, List.map_cons]
    · exact List.forall_mem_cons.2 ⟨hvalue, hvalues⟩

/-- What attributes in a row set in a template. -/
theorem settings_written {attributes : List SharedAttribute} (h : ∀ a ∈ attributes, a.Valid)
    (o : Nat) :
    (Template.entriesFrom o (attributes.map written)).map Entry.setting =
      attributes.map setting := by
  induction attributes generalizing o with
  | nil => rfl
  | cons a attributes ih =>
    have ha := (h a List.mem_cons_self).setting_written (o + 1)
    have hrest := ih (fun b hb => h b (List.mem_cons_of_mem a hb))
      (o + byteSize a.written.print)
    rw [List.map_cons, List.map_cons, ← ha, ← hrest]
    rfl

/-- An attribute of a row counts if no later one sets the same key. -/
def Counts (attributes : List SharedAttribute) (a : SharedAttribute) : Prop :=
  ∃ front rear, attributes = front ++ a :: rear ∧ ∀ b ∈ rear, b.key ≠ a.key

theorem counts_cons {a x : SharedAttribute} {attributes : List SharedAttribute} :
    Counts (a :: attributes) x ↔
      (x = a ∧ ∀ b ∈ attributes, b.key ≠ a.key) ∨ Counts attributes x := by
  constructor
  · rintro ⟨front, rear, hsplit, hlast⟩
    cases front with
    | nil =>
      cases hsplit
      exact .inl ⟨rfl, hlast⟩
    | cons c front =>
      cases hsplit
      exact .inr ⟨front, rear, rfl, hlast⟩
  · rintro (⟨rfl, hlast⟩ | ⟨front, rear, rfl, hlast⟩)
    · exact ⟨[], attributes, rfl, hlast⟩
    · exact ⟨a :: front, rear, rfl, hlast⟩

/-- In rows of attributes and values, an attribute counts with the last of its rows. -/
theorem counts_map_iff {rows : List (SharedAttribute × PropValue)} {a : SharedAttribute} :
    Counts (rows.map (·.1)) a ↔
      ∃ front row rear, rows = front ++ row :: rear ∧ row.1 = a ∧
        ∀ b ∈ rear, b.1.key ≠ row.1.key := by
  constructor
  · rintro ⟨front, rear, hsplit, hlast⟩
    obtain ⟨rows₁, rows₂, rfl, rfl, hcons⟩ := List.map_eq_append_iff.1 hsplit
    obtain ⟨row, rows₃, rfl, rfl, rfl⟩ := List.map_eq_cons_iff.1 hcons
    exact ⟨rows₁, row, rows₃, rfl, rfl, fun b hb => hlast b.1 (List.mem_map_of_mem hb)⟩
  · rintro ⟨front, row, rear, rfl, rfl, hlast⟩
    exact ⟨_, _, by rw [List.map_append, List.map_cons], List.forall_mem_map.2 hlast⟩

/-- Whether each expression that counts ends with its text. -/
def decideEndsInBlanks : (attributes : List SharedAttribute) →
    Decidable (∀ a, Counts attributes a → a.EndsInBlanks)
  | [] => isTrue fun a ⟨front, rear, hsplit, _⟩ => by simp at hsplit
  | a :: attributes =>
    have := decideEndsInBlanks attributes
    decidable_of_iff (((∀ b ∈ attributes, b.key ≠ a.key) → a.EndsInBlanks) ∧
        ∀ x, Counts attributes x → x.EndsInBlanks) <| by
      simp only [counts_cons, or_imp, forall_and, and_imp, forall_eq]

instance (attributes : List SharedAttribute) :
    Decidable (∀ a, Counts attributes a → a.EndsInBlanks) := decideEndsInBlanks attributes

/-- A row of attributes has the same snapshot in both dialects exactly if each expression
    that counts ends with its text.  Any other one has no value in a template. -/
theorem snapshot_iff {attributes : List SharedAttribute} {trees : List Script.Tree}
    (htrees : AreTrees attributes trees) :
    (PropertyMap.ofList (attributes.map setting) = Script.snapshot trees ↔
      ∀ a, Counts attributes a → a.EndsInBlanks) ∧
    ∀ a, Counts attributes a → ¬ a.EndsInBlanks →
      (PropertyMap.ofList (attributes.map setting)).get? a.key = some Script.invalidExpression ∧
        (Script.snapshot trees).get? a.key ≠ some Script.invalidExpression := by
  obtain ⟨rows, rfl, hsettings, hvalues⟩ := exists_script_values htrees
  rw [Script.snapshot, hsettings, List.map_map]
  constructor
  · refine (PropertyMap.ofList_map_eq_iff ?_).trans ⟨?_, ?_⟩
    · exact fun row _ => rfl
    · intro h a ha
      obtain ⟨front, row, rear, hsplit, rfl, hlast⟩ := counts_map_iff.1 ha
      have hvalue := hvalues row (by simp [hsplit])
      exact hvalue.eq_iff.1 (congrArg Prod.snd (h front row rear hsplit hlast))
    · intro h front row rear hsplit hlast
      have hvalue := hvalues row (by simp [hsplit])
      have hcounts := counts_map_iff.2 ⟨front, row, rear, hsplit, rfl, hlast⟩
      exact Prod.ext rfl (hvalue.eq_iff.2 (h row.1 hcounts))
  · intro a ha hends
    obtain ⟨front, row, rear, hsplit, rfl, hlast⟩ := counts_map_iff.1 ha
    have hvalue := hvalues row (by simp [hsplit])
    have htemplate : (PropertyMap.ofList (rows.map (setting ∘ Prod.fst))).get? row.1.key =
        some row.1.setting.2 := by
      rw [hsplit]
      exact PropertyMap.get?_ofList_last hlast
    have hscript : (PropertyMap.ofList (rows.map fun row => (row.1.key, row.2))).get?
        row.1.key = some row.2 := by
      rw [hsplit]
      exact PropertyMap.get?_ofList_last hlast
    rw [htemplate, hscript, hvalue.invalid hends]
    refine ⟨rfl, ?_⟩
    intro h
    exact hvalue.valid (Option.some.inj h)

end SharedAttribute

/-! ## §7. Snapshots -/

/-- The end of a start tag. -/
def tagEnd (selfClosing : Bool) : List Char := if selfClosing then ['/', '>'] else ['>']

open SharedAttribute in
/-- An element whose expressions are read from end to end in both dialects, and as the same
    trees, has a snapshot in a script and one in a template, where the same attributes are
    written behind the name of a tag.  The two are the same, and with them the content,
    exactly if each expression that counts ends where its text does, blanks aside.  An
    expression that does not, such as one with a comment behind it, has its value in the
    script alone. -/
theorem snapshot_eq_iff_of_shared {attributes : List SharedAttribute} {trees : List Script.Tree}
    {name : List Char} (hvalid : ∀ a ∈ attributes, a.Valid)
    (htrees : AreTrees attributes trees) (hname : Template.IsTagName name)
    (selfClosing : Bool) (o : Nat) (rest : List Char) :
    ∃ tag d,
      Template.readOpenTag ⟨o, Template.printStart name (attributes.map written) ++
        (tagEnd selfClosing ++ rest)⟩ = .ok (tag, d) ∧
      d.rest = rest ∧ tag.name = String.ofList name ∧ tag.selfClosing = selfClosing ∧
      (tag.snapshot = Script.snapshot trees ↔ ∀ a, Counts attributes a → a.EndsInBlanks) ∧
      ((∀ a, Counts attributes a → a.EndsInBlanks) →
        tag.snapshot.content? = (Script.snapshot trees).content?) ∧
      ∀ a, Counts attributes a → ¬ a.EndsInBlanks →
        tag.snapshot.get? a.key = some Script.invalidExpression ∧
          (Script.snapshot trees).get? a.key ≠ some Script.invalidExpression := by
  have hwritten : ∀ w ∈ attributes.map written, w.WellFormed := by
    intro w hw
    obtain ⟨a, ha, rfl⟩ := List.mem_map.1 hw
    exact (hvalid a ha).wellFormed
  obtain ⟨hiff, hlost⟩ := snapshot_iff htrees
  have hsnapshot :
      (Template.openTagAt o name (attributes.map written) selfClosing).snapshot =
        PropertyMap.ofList (attributes.map setting) :=
    congrArg PropertyMap.ofList (settings_written hvalid (o + 1 + byteSize name))
  rw [← hsnapshot] at hiff hlost
  have hcontent := fun h => congrArg PropertyMap.content? (hiff.2 h)
  cases selfClosing with
  | true =>
    have htag := Template.readsTag_selfClosed hname hwritten o rest
    exact ⟨_, _, htag.readOpenTag, rfl, rfl, rfl, hiff, hcontent, hlost⟩
  | false =>
    have htag := Template.readsTag_open hname hwritten o rest
    exact ⟨_, _, htag.readOpenTag, rfl, rfl, rfl, hiff, hcontent, hlost⟩

/-- A name that comes three times, with two spreads.  The comment is behind an expression
    that does not count. -/
theorem snapshot_eq_iff_of_shared_repeated :
    ∃ parsed tag template d,
      Script.parseProgram? ⟨false, true, .module⟩
          ("<p a b=\"x\" c=\x7b[1, y]\x7d \x7b...d\x7d a=\x7b'w'/**/\x7d a=\x7b'z'\x7d " ++
            "\x7b...e\x7d/>").toList = some parsed ∧
      parsed.tree.openingTags = [tag] ∧
      Template.readOpenTag
          ⟨0, ("<p a b=\"x\" :c=\"[1, y]\" v-bind=\"d\" :a=\"'w'/**/\" :a=\"'z'\" " ++
            "v-bind=\"e\"/>").toList⟩ = .ok (template, d) ∧
      template.snapshot = Script.snapshot tag.attributes ∧
      template.snapshot.content? = (Script.snapshot tag.attributes).content? ∧
      template.snapshot.entries.map (·.1) = ["a", "b", "c", "...spread"] := by
  obtain ⟨attributes, hattributes⟩ : ∃ attributes : List SharedAttribute, attributes =
      [.flag "a".toList, .text "b".toList "x".toList, .bound "c".toList "[1, y]".toList,
        .spread "d".toList, .bound "a".toList "'w'/**/".toList, .bound "a".toList "'z'".toList,
        .spread "e".toList] := ⟨_, rfl⟩
  have hvalid : ∀ a ∈ attributes, a.Valid := by
    subst hattributes
    decide +kernel
  have hends : ∀ a, SharedAttribute.Counts attributes a → a.EndsInBlanks := by
    subst hattributes
    decide +kernel
  have hwritten : Template.printStart "p".toList (attributes.map (·.written)) ++
      (tagEnd true ++ []) =
        ("<p a b=\"x\" :c=\"[1, y]\" v-bind=\"d\" :a=\"'w'/**/\" :a=\"'z'\" " ++
          "v-bind=\"e\"/>").toList := by
    subst hattributes
    decide +kernel
  have hfound : ((Script.parseProgram? ⟨false, true, .module⟩
      ("<p a b=\"x\" c=\x7b[1, y]\x7d \x7b...d\x7d a=\x7b'w'/**/\x7d a=\x7b'z'\x7d " ++
        "\x7b...e\x7d/>").toList).any
        fun parsed => parsed.tree.openingTags.length = 1 ∧ parsed.tree.openingTags.all fun tag =>
          SharedAttribute.AreTrees attributes tag.attributes ∧
            (Script.snapshot tag.attributes).entries.map (·.1) = ["a", "b", "c", "...spread"]) =
      true := by
    subst hattributes
    decide +kernel
  obtain ⟨parsed, hparsed, htags⟩ := (Option.any_eq_true _ _).1 hfound
  obtain ⟨hlength, hall⟩ := of_decide_eq_true htags
  obtain ⟨tag, hone⟩ := List.length_eq_one_iff.1 hlength
  obtain ⟨htrees, hkeys⟩ := of_decide_eq_true
    (List.all_eq_true.1 hall tag (by rw [hone]; exact List.mem_cons_self))
  obtain ⟨template, d, hread, -, -, -, hsnapshot, hcontent, -⟩ :=
    snapshot_eq_iff_of_shared hvalid htrees (show Template.IsTagName "p".toList by decide) true 0 []
  rw [hwritten] at hread
  have hsame := hsnapshot.2 hends
  exact ⟨parsed, tag, template, d, hparsed, hone, hread, hsame, hcontent hends,
    by rw [hsame, hkeys]⟩

/-- With a comment behind an expression, both dialects read it from end to end and as the
    same tree, but the template has no value for it. -/
theorem snapshot_ne_of_comment :
    ∃ (attributes : List SharedAttribute) (parsed : Script.Parsed) (tag : Script.OpeningTag)
        (template : Template.OpenTag) (d : Text.Cursor),
      attributes = [.bound "a".toList "'x'/**/".toList] ∧ (∀ a ∈ attributes, a.Valid) ∧
      Script.parseProgram? ⟨false, true, .module⟩ "<p a=\x7b'x'/**/\x7d/>".toList = some parsed ∧
      parsed.tree.openingTags = [tag] ∧ SharedAttribute.AreTrees attributes tag.attributes ∧
      Template.readOpenTag ⟨0, "<p :a=\"'x'/**/\"/>".toList⟩ = .ok (template, d) ∧
      (Script.snapshot tag.attributes).content? = some "%7B%22a%22%3A%22x%22%7D" ∧
      template.snapshot.content? = some "%7B%22a%22%3A%22%5BInvalidExpression%5D%22%7D" ∧
      template.snapshot ≠ Script.snapshot tag.attributes := by
  have hvalid : ∀ a ∈ [SharedAttribute.bound "a".toList "'x'/**/".toList], a.Valid := by
    decide +kernel
  have hfound : ((Script.parseProgram? ⟨false, true, .module⟩
      "<p a=\x7b'x'/**/\x7d/>".toList).any fun parsed =>
        parsed.tree.openingTags.length = 1 ∧ parsed.tree.openingTags.all fun tag =>
          SharedAttribute.AreTrees [.bound "a".toList "'x'/**/".toList] tag.attributes ∧
            (Script.snapshot tag.attributes).content? = some "%7B%22a%22%3A%22x%22%7D") = true := by
    decide +kernel
  obtain ⟨template, htemplate⟩ : ∃ template : Template.OpenTag, template = ⟨"p", 0, 2,
      [.directive ⟨":a", "bind", some "a", [], some "'x'/**/", 3⟩], true⟩ := ⟨_, rfl⟩
  have hread : Template.readOpenTag ⟨0, "<p :a=\"'x'/**/\"/>".toList⟩ =
      .ok (template, ⟨17, []⟩) := by
    subst htemplate
    decide +kernel
  have hlost : template.snapshot.content? =
      some "%7B%22a%22%3A%22%5BInvalidExpression%5D%22%7D" := by
    subst htemplate
    decide +kernel
  obtain ⟨parsed, hparsed, htags⟩ := (Option.any_eq_true _ _).1 hfound
  obtain ⟨hlength, hall⟩ := of_decide_eq_true htags
  obtain ⟨tag, hone⟩ := List.length_eq_one_iff.1 hlength
  obtain ⟨htrees, hcontent⟩ := of_decide_eq_true
    (List.all_eq_true.1 hall tag (by rw [hone]; exact List.mem_cons_self))
  refine ⟨_, parsed, tag, template, _, rfl, hvalid, hparsed, hone, htrees, hread, hcontent, hlost,
    fun h => ?_⟩
  rw [h, hcontent] at hlost
  exact absurd hlost (by decide)

end Provenance
