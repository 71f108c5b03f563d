import Provenance.Proofs.Template.Pattern
import Provenance.Template.Snapshot

/-! # Names of directives

  The name of a directive is written in full, with an argument behind a colon and modifiers
  behind points (`written`), or as a shorthand with the argument right behind its mark
  (`Shorthand.written`).  Taken apart, a name gives back what it was written from, so a
  shorthand has the argument and the modifiers of the name in full and sets the same.

  Main statement: `ofName_written`.
-/

namespace Provenance.Template

/-! ## §1. Modifiers -/

/-- Modifiers as they are written, each behind a point. -/
def pointed (modifiers : List (List Char)) : List Char := modifiers.flatMap ('.' :: ·)

/-- What can be written as modifiers: texts that are not empty and have no point. -/
def AreModifiers (modifiers : List (List Char)) : Prop := ∀ m ∈ modifiers, m ≠ [] ∧ '.' ∉ m

instance (modifiers : List (List Char)) : Decidable (AreModifiers modifiers) :=
  inferInstanceAs (Decidable (∀ m ∈ modifiers, m ≠ [] ∧ '.' ∉ m))

theorem splitPoints_of_not_mem {s : List Char} (h : '.' ∉ s) : splitPoints s = [s] := by
  induction s with
  | nil => rfl
  | cons c s ih =>
    rw [List.mem_cons, not_or] at h
    rw [splitPoints, if_neg (Ne.symm h.1), ih h.2]

theorem splitPoints_append_point {s : List Char} (h : '.' ∉ s) (r : List Char) :
    splitPoints (s ++ '.' :: r) = s :: splitPoints r := by
  induction s with
  | nil => rfl
  | cons c s ih =>
    rw [List.mem_cons, not_or] at h
    rw [List.cons_append, splitPoints, if_neg (Ne.symm h.1), ih h.2]

/-- The parts of a text with modifiers behind it. -/
theorem splitPoints_append_pointed {s : List Char} {modifiers : List (List Char)} (hs : '.' ∉ s)
    (h : ∀ m ∈ modifiers, '.' ∉ m) : splitPoints (s ++ pointed modifiers) = s :: modifiers := by
  induction modifiers generalizing s with
  | nil =>
    rw [pointed, List.flatMap_nil, List.append_nil]
    exact splitPoints_of_not_mem hs
  | cons m modifiers ih =>
    have hm : '.' ∉ m := h m List.mem_cons_self
    have hrest := ih hm fun m' hm' => h m' (List.mem_cons_of_mem m hm')
    rw [pointed, List.flatMap_cons, List.cons_append, splitPoints_append_point hs]
    exact congrArg (s :: ·) hrest

theorem modifiersOf_pointed {modifiers : List (List Char)} (h : AreModifiers modifiers) :
    modifiersOf (pointed modifiers) = modifiers.map String.ofList := by
  -- in front of the first point stands an empty part
  have hparts : splitPoints (pointed modifiers) = [] :: modifiers :=
    splitPoints_append_pointed (s := []) List.not_mem_nil fun m hm => (h m hm).2
  have hkept : modifiers.filter (!·.isEmpty) = modifiers := by
    apply List.filter_eq_self.2
    intro m hm
    simp [(h m hm).1]
  unfold modifiersOf
  rw [hparts, List.filter_cons_of_neg (by simp), hkept]

theorem head?_pointed (modifiers : List (List Char)) : ∀ x ∈ (pointed modifiers).head?, x = '.' := by
  cases modifiers <;> simp [pointed]

/-! ## §2. Arguments -/

/-- A text that can be written as the argument of a directive: a name without a point, or
    an expression in brackets, which may have points. -/
inductive IsArgument : List Char → Prop where
  | plain {name : List Char} (ne_nil : name ≠ []) (point : '.' ∉ name)
    (head : name.head? ≠ some '[') : IsArgument name
  | bracketed {inner : List Char} (ne_nil : inner ≠ []) (bracket : ']' ∉ inner) :
    IsArgument ('[' :: (inner ++ [']']))

/-- Brackets end at the first bracket that closes. -/
theorem splitBracketed?_append {inner : List Char} (hne : inner ≠ []) (h : ']' ∉ inner)
    (r : List Char) :
    splitBracketed? ('[' :: (inner ++ ']' :: r)) = some ('[' :: (inner ++ [']']), r) := by
  have hstop : ∀ x ∈ (']' :: r).head?, x = ']' := by simp
  rw [splitBracketed?_cons, Text.takeWhile_ne_run h hstop, Text.dropWhile_ne_run h hstop,
    if_neg hne]

/-- An argument ends where modifiers begin. -/
theorem splitArgument?_append {argument : List Char} (h : IsArgument argument)
    (modifiers : List (List Char)) :
    splitArgument? (argument ++ pointed modifiers) = some (argument, pointed modifiers) := by
  unfold splitArgument?
  cases h with
  | plain ne_nil point head =>
    have htake := Text.takeWhile_ne_run point (head?_pointed modifiers)
    have hdrop := Text.dropWhile_ne_run point (head?_pointed modifiers)
    have hhead : (argument ++ pointed modifiers).head? ≠ some '[' := by
      cases argument with
      | nil => exact absurd rfl ne_nil
      | cons c argument => exact head
    simp only [splitBracketed?_of_head hhead, htake, hdrop]
    exact if_neg (by simpa using ne_nil)
  | bracketed ne_nil bracket =>
    rw [List.cons_append, List.append_assoc, List.singleton_append,
      splitBracketed?_append ne_nil bracket]

/-! ## §3. Names in full -/

/-- What can be written as the name of a directive: ASCII letters, digits and hyphens. -/
def IsDirectiveWord (name : List Char) : Prop :=
  name ≠ [] ∧ ∀ x ∈ name, x.isAlphanum = true ∨ x = '-'

instance (name : List Char) : Decidable (IsDirectiveWord name) :=
  decidable_of_iff (name ≠ [] ∧ (name.all fun x => x.isAlphanum || x = '-') = true)
    (by simp [IsDirectiveWord])

/-- The name of a directive in full. -/
def written (name : List Char) (argument : Option (List Char)) (modifiers : List (List Char)) :
    List Char :=
  'v' :: '-' :: (name ++ ((argument.map (':' :: ·)).getD [] ++ pointed modifiers))

/-- A name in full goes up to the mark of its argument or of its modifiers. -/
theorem parts_written {name : List Char} (hname : IsDirectiveWord name)
    {argument : Option (List Char)} (hargument : ∀ a ∈ argument, IsArgument a)
    (modifiers : List (List Char)) :
    NameParts.ofName (written name argument modifiers) =
      ⟨some name, argument, pointed modifiers⟩ := by
  obtain ⟨hne, hword⟩ := hname
  have hpart : ∀ x ∈ name, isDirectivePart x = true := by
    intro x hx
    rcases hword x hx with h | h <;> simp [isDirectivePart, h]
  have hofName : ∀ rest : List Char, (∀ x ∈ rest.head?, isDirectivePart x = false) →
      NameParts.ofName ('v' :: '-' :: (name ++ rest)) = .behindName (some name) false rest := by
    intro rest hstop
    have htake := Text.takeWhile_run hpart hstop
    have hsome : (name ++ rest).takeWhile isDirectivePart ≠ [] := by
      rw [htake]
      exact hne
    rw [NameParts.ofName_of_takeWhile hsome, htake, Text.dropWhile_run hpart hstop]
  unfold written
  cases argument with
  | none =>
    -- modifiers begin with a point, which is no mark here
    rw [Option.map_none, Option.getD_none, List.nil_append, hofName]
    · cases modifiers <;> rfl
    · intro x hx
      rw [head?_pointed modifiers x hx]
      decide
  | some a =>
    have hmark : IsMark false ':' := .inl rfl
    rw [Option.map_some, Option.getD_some, List.cons_append, hofName,
      NameParts.behindName_of_mark _ hmark, NameParts.behindMark,
      splitArgument?_append (hargument a rfl)]
    intro x hx
    obtain rfl : ':' = x := by simpa using hx
    decide

/-- The directive that is meant by a name in full. -/
theorem ofName_full {name : List Char} (hname : IsDirectiveWord name)
    {argument : Option (List Char)} (hargument : ∀ a ∈ argument, IsArgument a)
    {modifiers : List (List Char)} (hmodifiers : AreModifiers modifiers)
    (value : Option (List Char)) (start : Nat) :
    Entry.ofName (written name argument modifiers) value start =
      .directive
        { rawName := String.ofList (written name argument modifiers)
          name := String.ofList name
          argument := argument.map String.ofList
          modifiers := modifiers.map String.ofList
          expression := value.map String.ofList
          start } := by
  have hdirective : isDirectiveName (written name argument modifiers) = true := rfl
  have hhead : (written name argument modifiers).head? ≠ some '.' := by simp [written]
  unfold Entry.ofName Directive.ofName
  rw [if_pos hdirective, parts_written hname hargument]
  simp only [modifiersOf_pointed hmodifiers, if_neg hhead, List.append_nil]
  rfl

/-! ## §4. Shorthands -/

/-- A shorthand: its mark, the name that it stands for, and the modifiers it brings. -/
structure Shorthand where
  mark : Char
  name : String
  brings : List String := []
deriving DecidableEq

/-- The shorthands of directives. -/
def shorthands : List Shorthand :=
  [⟨':', "bind", []⟩, ⟨'@', "on", []⟩, ⟨'#', "slot", []⟩, ⟨'.', "bind", ["prop"]⟩]

/-- The name of a directive as a shorthand. -/
def Shorthand.written (s : Shorthand) (argument : List Char) (modifiers : List (List Char)) :
    List Char :=
  s.mark :: (argument ++ pointed modifiers)

theorem isDirectiveName_shorthand {s : Shorthand} (hs : s ∈ shorthands) (argument : List Char)
    (modifiers : List (List Char)) : isDirectiveName (s.written argument modifiers) = true := by
  have hmarks : ∀ s ∈ shorthands, ∀ r, isDirectiveName (s.mark :: r) = true := by
    simp [shorthands, isDirectiveName]
  exact hmarks s hs (argument ++ pointed modifiers)

/-- Right behind the mark of a shorthand stands its argument. -/
theorem parts_shorthand {s : Shorthand} (hs : s ∈ shorthands) {argument : List Char}
    (hargument : IsArgument argument) (modifiers : List (List Char)) :
    NameParts.ofName (s.written argument modifiers) =
      ⟨none, some argument, pointed modifiers⟩ := by
  have hmarks : ∀ s ∈ shorthands, s.mark ≠ 'v' := by decide
  unfold Shorthand.written
  rw [NameParts.ofName_mark (hmarks s hs), NameParts.behindMark, splitArgument?_append hargument]

/-- The directive that is meant by a shorthand. -/
theorem ofName_shorthand {s : Shorthand} (hs : s ∈ shorthands) {argument : List Char}
    (hargument : IsArgument argument) {modifiers : List (List Char)}
    (hmodifiers : AreModifiers modifiers) (value : Option (List Char)) (start : Nat) :
    Entry.ofName (s.written argument modifiers) value start =
      .directive
        { rawName := String.ofList (s.written argument modifiers)
          name := s.name
          argument := some (String.ofList argument)
          modifiers := modifiers.map String.ofList ++ s.brings
          expression := value.map String.ofList
          start } := by
  have hmarks : ∀ s ∈ shorthands, ∀ r, shorthandName (s.mark :: r) = s.name ∧
      (if (s.mark :: r).head? = some '.' then ["prop"] else []) = s.brings := by
    simp [shorthands, shorthandName]
  obtain ⟨hname, hbrings⟩ := hmarks s hs (argument ++ pointed modifiers)
  unfold Entry.ofName Directive.ofName
  rw [if_pos (isDirectiveName_shorthand hs argument modifiers), parts_shorthand hs hargument]
  unfold Shorthand.written
  simp only [hname, hbrings, modifiersOf_pointed hmodifiers, Option.map_none, Option.getD_none,
    Option.map_some]

/-! ## §5. What directives set -/

/-- The names that mean a directive with an argument: the one in full, and each shorthand
    that stands for it. -/
def spellings (name argument : List Char) (modifiers : List (List Char)) : List (List Char) :=
  written name (some argument) modifiers ::
    (shorthands.filter (·.name.toList = name)).map (·.written argument modifiers)

/-- All spellings mean a directive of the same name with the same argument. -/
theorem directive_of_spelling {name argument : List Char} (hname : IsDirectiveWord name)
    (hargument : IsArgument argument) {modifiers : List (List Char)}
    (hmodifiers : AreModifiers modifiers) {spelling : List Char}
    (h : spelling ∈ spellings name argument modifiers) (value : Option (List Char)) (start : Nat) :
    ∃ modifiers, Entry.ofName spelling value start =
      .directive
        { rawName := String.ofList spelling
          name := String.ofList name
          argument := some (String.ofList argument)
          modifiers
          expression := value.map String.ofList
          start } := by
  rcases List.mem_cons.1 h with rfl | hshort
  · refine ⟨modifiers.map String.ofList, ?_⟩
    apply ofName_full hname _ hmodifiers
    intro a ha
    obtain rfl : argument = a := by simpa using ha
    exact hargument
  · obtain ⟨s, hs, rfl⟩ := List.mem_map.1 hshort
    obtain ⟨hmem, heq⟩ := List.mem_filter.1 hs
    obtain rfl : s.name.toList = name := of_decide_eq_true heq
    rw [String.ofList_toList]
    exact ⟨_, ofName_shorthand hmem hargument hmodifiers value start⟩

/-- In the snapshot of a start tag all spellings of a directive count for what it sets. -/
theorem snapshot_of_spelling {name argument : List Char} (hname : IsDirectiveWord name)
    (hargument : IsArgument argument) {modifiers : List (List Char)}
    (hmodifiers : AreModifiers modifiers) {spelling : List Char}
    (h : spelling ∈ spellings name argument modifiers) (value : Option (List Char)) (start : Nat)
    (tag : OpenTag) (front back : List Entry) :
    ∃ modifiers,
      OpenTag.snapshot { tag with entries := front ++ Entry.ofName spelling value start :: back } =
        PropertyMap.ofList (front.map Entry.setting ++
          Directive.setting
            { rawName := String.ofList spelling
              name := String.ofList name
              argument := some (String.ofList argument)
              modifiers
              expression := value.map String.ofList
              start } :: back.map Entry.setting) := by
  obtain ⟨modifiers', hentry⟩ := directive_of_spelling hname hargument hmodifiers h value start
  refine ⟨modifiers', ?_⟩
  rw [hentry]
  simp [OpenTag.snapshot, Entry.setting]

/-- The names of directives are taken apart into what they are written from.  A name in full
    is the directive of its name, with its argument and its modifiers.  A shorthand is that
    of the name it stands for, with the same argument and the same modifiers, to which a
    point adds one.  These are the groups that the pattern of directive names finds in a
    name without line breaks.

    So in the snapshot of a start tag every spelling of a binding sets its argument to the
    same value, and every spelling of a listener sets the same. -/
theorem ofName_written {name : List Char} {argument : Option (List Char)}
    {modifiers : List (List Char)} (hname : IsDirectiveWord name)
    (hargument : ∀ a ∈ argument, IsArgument a) (hmodifiers : AreModifiers modifiers)
    (value : Option (List Char)) (start : Nat) :
    (Entry.ofName (written name argument modifiers) value start =
      .directive
        { rawName := String.ofList (written name argument modifiers)
          name := String.ofList name
          argument := argument.map String.ofList
          modifiers := modifiers.map String.ofList
          expression := value.map String.ofList
          start } ∧
      ('\n' ∉ written name argument modifiers →
        Pattern.Finds (written name argument modifiers)
          ⟨some name, argument, pointed modifiers⟩)) ∧
    (∀ a ∈ argument, ∀ s ∈ shorthands,
      Entry.ofName (s.written a modifiers) value start =
        .directive
          { rawName := String.ofList (s.written a modifiers)
            name := s.name
            argument := some (String.ofList a)
            modifiers := modifiers.map String.ofList ++ s.brings
            expression := value.map String.ofList
            start } ∧
        ('\n' ∉ s.written a modifiers →
          Pattern.Finds (s.written a modifiers) ⟨none, some a, pointed modifiers⟩)) ∧
    ∀ a ∈ argument, ∀ (tag : OpenTag) (front back : List Entry),
      (∀ spelling ∈ spellings "bind".toList a modifiers,
        OpenTag.snapshot { tag with entries := front ++ Entry.ofName spelling value start :: back } =
          PropertyMap.ofList (front.map Entry.setting ++
            (String.ofList a, valueOr (.expression "Identifier") (value.map String.ofList)) ::
              back.map Entry.setting)) ∧
      ∀ spelling ∈ spellings "on".toList a modifiers,
        OpenTag.snapshot { tag with entries := front ++ Entry.ofName spelling value start :: back } =
          PropertyMap.ofList (front.map Entry.setting ++
            (":on", valueOr .flag (value.map String.ofList)) :: back.map Entry.setting) := by
  refine ⟨⟨ofName_full hname hargument hmodifiers value start, ?_⟩, ?_, ?_⟩
  · intro hline
    rw [← parts_written hname hargument]
    exact Pattern.finds_parts rfl hline
  · intro a ha s hs
    refine ⟨ofName_shorthand hs (hargument a ha) hmodifiers value start, ?_⟩
    intro hline
    rw [← parts_shorthand hs (hargument a ha)]
    exact Pattern.finds_parts (isDirectiveName_shorthand hs a modifiers) hline
  · intro a ha tag front back
    constructor
    · intro spelling hspelling
      obtain ⟨_, hset⟩ := snapshot_of_spelling (by decide) (hargument a ha) hmodifiers hspelling
        value start tag front back
      exact hset
    · intro spelling hspelling
      obtain ⟨_, hset⟩ := snapshot_of_spelling (by decide) (hargument a ha) hmodifiers hspelling
        value start tag front back
      exact hset

/-- An argument in brackets with a point, in full and behind a point. -/
theorem ofName_written_bracketed :
    Entry.ofName "v-bind:[a.b].camel.x:y".toList (some "c".toList) 3 =
      .directive ⟨"v-bind:[a.b].camel.x:y", "bind", some "[a.b]", ["camel", "x:y"], some "c", 3⟩ ∧
    Entry.ofName ".[a.b].camel.x:y".toList (some "c".toList) 3 =
      .directive ⟨".[a.b].camel.x:y", "bind", some "[a.b]", ["camel", "x:y", "prop"], some "c", 3⟩ ∧
    Pattern.Finds ".[a.b].camel.x:y".toList
      ⟨none, some "[a.b]".toList, ".camel.x:y".toList⟩ := by
  have hname : IsDirectiveWord "bind".toList := by decide
  have hargument : ∀ a ∈ some "[a.b]".toList, IsArgument a := by
    intro a ha
    obtain rfl : "[a.b]".toList = a := by simpa using ha
    exact @IsArgument.bracketed "a.b".toList (by decide) (by decide)
  have hmodifiers : AreModifiers ["camel".toList, "x:y".toList] := by decide
  obtain ⟨⟨hfull, -⟩, hshort, -⟩ := ofName_written hname hargument hmodifiers (some "c".toList) 3
  obtain ⟨hpoint, hfinds⟩ := hshort "[a.b]".toList rfl ⟨'.', "bind", ["prop"]⟩ (by decide)
  exact ⟨hfull, hpoint, hfinds (by decide)⟩

end Provenance.Template
