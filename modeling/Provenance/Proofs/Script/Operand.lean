import Provenance.Proofs.Script.Attribute

/-! # Expressions without operators

  An expression goes through all levels of precedence, and at each level the parser asks
  whether an operator stands in front of the operand or behind it.

  - Where nothing of the kind stands in front (`AtOperand`) and the text ends behind the
    operand (`AtEnd`), the whole expression is what stands there alone
    (`expression_eq_primary`): it is read, or it is refused.
  - So a text is no expression if its first token is a mark that begins none
    (`parseExpression?_eq_none`), and a string with a gap behind it is that string
    (`parseExpression?_quoted`).
-/

namespace Provenance.Script

open Text (byteSize)

namespace Parse

variable {s : ParseState} {g : Grammar}

theorem bind_none {α β : Type} {p : Parse α} {f : α → Parse β} (h : p s = none) :
    (p >>= f) s = none := by
  show (p s).bind _ = none
  rw [h]
  rfl

/-! ## §1. In front of an operand -/

/-- The marks that operators, markup and parameters in front of an operand begin with. -/
def leadingMarks : List String := ["(", "<", "++", "--", "+", "-", "~", "!"]

/-- The current token is no word, and none of the marks in front of an operand. -/
structure AtOperand (s : ParseState) : Prop where
  word : s.token.kind ≠ .word
  privateWord : s.token.kind ≠ .privateWord
  mark : ∀ text ∈ leadingMarks, s.token.isMark text = false

theorem AtOperand.isWord (h : AtOperand s) (text : String) : s.token.isWord text = false := by
  rw [Token.isWord, beq_eq_false_iff_ne.2 h.word]
  rfl

theorem AtOperand.atWord (h : AtOperand s) (text : String) : atWord text s = some (false, s) :=
  congrArg (fun isWord => some (isWord, s)) (h.isWord text)

theorem AtOperand.prefixMark (h : AtOperand s) :
    (s.token.kind == .punctuator && prefixMarks.contains s.token.text) = false := by
  rw [← Bool.not_eq_true, Bool.and_eq_true]
  rintro ⟨hkind, htext⟩
  have hmem : s.token.text ∈ prefixMarks := List.contains_iff_mem.1 htext
  have hleading : s.token.text ∈ leadingMarks := (show prefixMarks ⊆ leadingMarks by decide) hmem
  have hmark := h.mark s.token.text hleading
  rw [Token.isMark, hkind, beq_self_eq_true] at hmark
  cases hmark

theorem AtOperand.atAnyWord (h : AtOperand s) (texts : List String) :
    atAnyWord texts s = some (false, s) := by
  show some (s.token.kind == .word && !s.token.escaped && texts.contains s.token.text, s) = _
  rw [beq_eq_false_iff_ne.2 h.word]
  rfl

theorem AtOperand.startsAwait (h : AtOperand s) : startsAwait s = some (false, s) := by
  unfold Parse.startsAwait
  rw [bind_eq (h.atWord "await")]
  rfl

theorem AtOperand.startsYield (h : AtOperand s) : startsYield s = some (false, s) := by
  unfold Parse.startsYield
  rw [bind_eq (h.atWord "yield")]
  rfl

theorem AtOperand.parenthesizedArrow? (h : AtOperand s) (g : Grammar) (allowsReturnType : Bool) :
    parenthesizedArrow? g allowsReturnType s = some (none, s) := by
  have hguess : guessArrow s = some (.no, s) := by
    unfold guessArrow
    rw [token_bind, h.mark "(" (by decide), h.mark "<" (by decide), h.isWord]
    rfl
  unfold Parse.parenthesizedArrow?
  rw [bind_eq hguess]
  rfl

theorem AtOperand.asyncSimpleArrow? (h : AtOperand s) (g : Grammar) (allowsReturnType : Bool) :
    asyncSimpleArrow? g allowsReturnType s = some (none, s) := by
  unfold Parse.asyncSimpleArrow?
  rw [bind_eq (h.atWord "async")]
  rfl

/-! ## §2. Behind an operand -/

/-- The text ends here. -/
structure AtEnd (s : ParseState) : Prop where
  kind : s.token.kind = .eof
  bound : 0 < s.bound

theorem AtEnd.isMark (h : AtEnd s) (text : String) : s.token.isMark text = false := by
  rw [Token.isMark, h.kind]
  rfl

theorem AtEnd.atMark (h : AtEnd s) (text : String) : atMark text s = some (false, s) := by
  rw [atMark_eq, h.isMark]

/-- A loop whose first step is its last one ends with what that step gives. -/
theorem AtEnd.iterate {α β : Type} (h : AtEnd s) {step : α → Parse (Step α β)} {a : α} {b : β}
    (hstep : step a s = some (.done b, s)) : iterate step a s = some (b, s) := by
  obtain ⟨n, hn⟩ := Nat.exists_eq_add_of_lt h.bound
  unfold Parse.iterate
  rw [get_bind, hn, iterateFor, bind_eq hstep]
  rfl

theorem AtEnd.isKind_eq_false (h : AtEnd s) (kind : TokenKind) (hkind : kind ≠ .eof) :
    (s.token.kind == kind) = false := by
  rw [h.kind]
  exact beq_eq_false_iff_ne.2 (Ne.symm hkind)

theorem AtEnd.mayStartTypeArguments (h : AtEnd s) :
    mayStartTypeArguments s = some (false, s) := by
  unfold Parse.mayStartTypeArguments
  rw [token_bind, language_bind,
    h.isKind_eq_false .punctuator (by decide), Bool.and_false, Bool.false_and]
  rfl

theorem AtEnd.memberRest (h : AtEnd s) (first : Nat) (allowsOptional : Bool) (tree : Tree) :
    memberRest g first allowsOptional ⟨tree, false⟩ s = some (⟨tree, false⟩, s) := by
  have hword := h.isKind_eq_false .word (by decide)
  have hprivate := h.isKind_eq_false .privateWord (by decide)
  have htemplate := h.isKind_eq_false .template (by decide)
  unfold Parse.memberRest
  apply h.iterate
  -- each way on asks for a mark, a word or a template, and the end is none of them
  rw [bind_eq (h.atMark "?.")]
  simp only [Bool.and_false, Bool.false_eq_true, if_false]
  rw [bind_eq (a := false) (t := s) rfl]
  simp only [Bool.false_eq_true, if_false]
  rw [token_bind]
  simp only [Bool.false_and, Bool.not_false, Bool.true_and, h.isMark, Bool.false_eq_true, if_false]
  rw [context_bind]
  simp only [Bool.false_eq_true, if_false, htemplate]
  rw [language_bind]
  simp only [Bool.and_false, Bool.false_and, Bool.false_eq_true, if_false]
  rw [bind_eq h.mayStartTypeArguments]
  rfl

theorem AtEnd.callRest (h : AtEnd s) (first : Nat) (tree : Tree) :
    callRest g first ⟨tree, false⟩ s = some (⟨tree, false⟩, s) := by
  have heat : eatMark "?." s = some (false, s) := eatMark_of_not (h.isMark "?.")
  unfold Parse.callRest
  apply h.iterate
  -- no member, no optional step and no arguments stand behind
  rw [bind_eq (h.memberRest first true tree), bind_eq heat]
  simp only [Bool.false_and, Bool.false_eq_true, if_false]
  rw [bind_eq h.mayStartTypeArguments, bind_eq (a := Tree.absent) (t := s) rfl,
    atKind_bind, bind_eq (h.atMark "(")]
  rfl

theorem AtEnd.binaryRest (h : AtEnd s) (first least : Nat) (tree : Tree) :
    binaryRest g first least tree s = some (tree, s) := by
  have hjoin : joinGreater s = some ((), s) := by
    unfold joinGreater
    rw [get_bind, h.isMark]
    rfl
  have hprecedence : precedence? s = some (none, s) := by
    unfold precedence?
    rw [token_bind, h.kind]
    rfl
  unfold Parse.binaryRest
  apply h.iterate
  rw [bind_eq hjoin, bind_eq hprecedence]
  rfl

theorem AtEnd.afterOperand (h : AtEnd s) (first : Nat) (tree : Tree) (allowsReturnType : Bool) :
    afterOperand g first tree [] allowsReturnType s = some (tree, s) := by
  have hconditional : conditionalRest g first tree allowsReturnType s = some (tree, s) := by
    unfold conditionalRest
    rw [bind_eq (eatMark_of_not (h.isMark "?"))]
    rfl
  unfold Parse.afterOperand
  rw [token_bind, h.isKind_eq_false .punctuator (by decide)]
  simp only [Bool.false_and, Bool.false_eq_true, if_false]
  rw [bind_eq hconditional]
  rfl

theorem AtEnd.sequenceRest (h : AtEnd s) (first : Nat) (tree : Tree) :
    sequenceRest g first tree s = some (tree, s) := by
  unfold Parse.sequenceRest
  rw [bind_eq (h.atMark ",")]
  rfl

/-! ## §3. Levels of precedence -/

/-- If the operand that stands here is read, the text ends behind it. -/
def EndsBehind (g : Grammar) (s : ParseState) : Prop :=
  ∀ tree t, primary g s = some (tree, t) → AtEnd t

theorem leftHandSide_eq_primary (hend : EndsBehind g s) : leftHandSide g s = primary g s := by
  unfold leftHandSide
  rw [start_bind]
  cases hprimary : primary g s with
  | none => exact bind_none hprimary
  | some result =>
    obtain ⟨tree, t⟩ := result
    have ht := hend tree t hprimary
    rw [bind_eq hprimary, bind_eq (ht.memberRest _ false tree), bind_eq (ht.callRest _ tree)]
    rfl

theorem increment_eq_primary (h : AtOperand s) (hend : EndsBehind g s) :
    increment g s = primary g s := by
  have hplus := h.mark "++" (by decide)
  have hminus := h.mark "--" (by decide)
  have hless := h.mark "<" (by decide)
  have hleft := leftHandSide_eq_primary hend
  unfold increment
  rw [start_bind, token_bind]
  -- neither an increment nor markup begins here
  simp only [hplus, hminus, hless, Bool.or_self, Bool.false_eq_true, if_false, Bool.false_and]
  rw [language_bind]
  cases hprimary : primary g s with
  | none => exact bind_none (hleft.trans hprimary)
  | some result =>
    obtain ⟨tree, t⟩ := result
    have ht := hend tree t hprimary
    rw [bind_eq (hleft.trans hprimary), token_bind]
    -- and no increment stands behind
    simp only [ht.isMark, Bool.or_self, Bool.false_and, Bool.false_eq_true, if_false]
    rfl

theorem unary_eq_primary (h : AtOperand s) (hend : EndsBehind g s) :
    unary g s = primary g s := by
  have hless := h.mark "<" (by decide)
  unfold unary
  rw [start_bind, token_bind, bind_eq (h.atAnyWord prefixWords)]
  -- no operator stands in front, so the next level reads on from the same place
  simp only [h.prefixMark, hless, Bool.or_self, Bool.false_eq_true, if_false]
  rw [bind_eq h.startsAwait]
  exact increment_eq_primary h hend

theorem operand_eq_primary (h : AtOperand s) (hend : EndsBehind g s) (least : Nat) :
    operand g least s = primary g s := by
  have hunary := unary_eq_primary h hend
  have hprivate : (s.token.kind == .privateWord) = false := beq_eq_false_iff_ne.2 h.privateWord
  unfold operand
  rw [start_bind, context_bind, atKind_bind, hprivate]
  simp only [Bool.and_false, Bool.false_eq_true, if_false]
  cases hprimary : primary g s with
  | none => exact bind_none (hunary.trans hprimary)
  | some result =>
    obtain ⟨tree, t⟩ := result
    rw [bind_eq (hunary.trans hprimary)]
    exact (hend tree t hprimary).binaryRest _ least tree

theorem assignment_eq_primary (h : AtOperand s) (hend : EndsBehind g s)
    (hnotes : ∀ r, primary g s = some r → s.token.notes = []) (allowsReturnType : Bool) :
    assignment g allowsReturnType s = primary g s := by
  have hoperand := operand_eq_primary h hend 0
  unfold assignment
  rw [token_bind, bind_eq h.startsYield]
  -- both guesses at an arrow function come to nothing and leave the state as it is
  simp only [Bool.false_eq_true, if_false]
  rw [bind_eq (h.parenthesizedArrow? g allowsReturnType)]
  simp only
  rw [bind_eq (h.asyncSimpleArrow? g allowsReturnType)]
  simp only
  rw [start_bind]
  cases hprimary : primary g s with
  | none => exact bind_none (hoperand.trans hprimary)
  | some result =>
    obtain ⟨tree, t⟩ := result
    have ht := hend tree t hprimary
    have hafter := ht.afterOperand (g := g) s.token.start tree allowsReturnType
    rw [bind_eq (hoperand.trans hprimary), hnotes _ hprimary]
    simp only [List.contains_nil, Bool.false_eq_true, if_false]
    -- a name could be the parameter of an arrow, but no arrow stands behind it
    cases tree.form with
    | identifier name =>
      simp only
      rw [bind_eq (ht.atMark "=>")]
      exact hafter
    | _ => exact hafter

/-- An expression with nothing in front of its operand and nothing behind it is read where
    its operand is, and refused where its operand is. -/
theorem expression_eq_primary (h : AtOperand s) (hend : EndsBehind g s)
    (hnotes : ∀ r, primary g s = some r → s.token.notes = [])
    (hcontext : s.context.inDecorator = false) (g' : Grammar) :
    expression g' (assignment g true) s =
      (primary g s).map fun r => (r.1, { r.2 with context := s.context }) := by
  have hassignment := assignment_eq_primary h hend hnotes true
  have hinner : (assignment g true >>= fun head => sequenceRest g' s.token.start head) s =
      primary g s := by
    cases hprimary : primary g s with
    | none => exact bind_none (hassignment.trans hprimary)
    | some result =>
      obtain ⟨tree, t⟩ := result
      rw [bind_eq (hassignment.trans hprimary)]
      exact (hend tree t hprimary).sequenceRest _ tree
  -- the context stays as it is, since no decorator is open
  have hsame : ({ s with context := { s.context with inDecorator := false } } : ParseState) = s := by
    rw [← hcontext]
  unfold expression within
  rw [start_bind, get_bind, bind_eq (a := ()) (t := s) (congrArg (fun t => some ((), t)) hsame)]
  cases hprimary : primary g s with
  | none => exact bind_none (hinner.trans hprimary)
  | some result =>
    obtain ⟨tree, t⟩ := result
    rw [bind_eq (hinner.trans hprimary)]
    rfl

/-! ## §4. Whole texts -/

/-- The state at the first token of a text. -/
def startState (language : Language) (text : List Char) (lexeme : Lexeme) : ParseState :=
  { language, context := language.context, bound := text.length + 3, token := lexeme.token,
    here := lexeme.here, after := lexeme.after, comments := lexeme.comments.reverse }

/-- Reading a text is reading an expression at its first token. -/
theorem parseExpression?_of_lexeme? {text : List Char} {lexeme : Lexeme} (language : Language)
    (h : lexeme? ⟨0, text⟩ { kind := .eof } = some lexeme) :
    ∃ g, parseExpression? language text =
      (expression g (assignment g true) (startState language text lexeme)).bind fun r =>
        if r.2.isSound && r.2.coverDefaults.isEmpty then some r.1 else none := by
  refine ⟨grammar (2 * text.length + 49), ?_⟩
  unfold parseExpression? parseFrom?
  rw [h]
  show ((expression _ _ (startState language text lexeme)).bind _).bind _ = _
  cases expression _ _ (startState language text lexeme) with
  | none => rfl
  | some r =>
    simp only [Option.bind_some]
    split <;> rfl

/-- The marks that an expression can begin with. -/
def openingMarks : List String := leadingMarks ++ ["[", "\x7b", "/", "/=", "@"]

/-- A text whose first token is a mark that no expression begins with is no expression. -/
theorem parseExpression?_eq_none {text : List Char} {lexeme : Lexeme} (language : Language)
    (h : lexeme? ⟨0, text⟩ { kind := .eof } = some lexeme)
    (hkind : lexeme.token.kind = .punctuator) (htext : lexeme.token.text ∉ openingMarks) :
    parseExpression? language text = none := by
  obtain ⟨g, hparse⟩ := parseExpression?_of_lexeme? language h
  rw [hparse]
  obtain ⟨s, hs⟩ : ∃ s, s = startState language text lexeme := ⟨_, rfl⟩
  have htoken : s.token = lexeme.token := by rw [hs]; rfl
  have hne : ∀ mark ∈ openingMarks, s.token.text ≠ mark := by
    rintro mark hmark rfl
    exact htext (htoken ▸ hmark)
  have hat : AtOperand s := by
    refine ⟨?_, ?_, fun mark hmark => ?_⟩
    · rw [htoken, hkind]; decide
    · rw [htoken, hkind]; decide
    · rw [Token.isMark, beq_eq_false_iff_ne.2 (hne mark (List.mem_append_left _ hmark)),
        Bool.and_false]
  have hprimary : primary g s = none := by
    unfold primary
    rw [token_bind]
    obtain ⟨mark, hmark⟩ : ∃ mark, s.token.text = mark := ⟨_, rfl⟩
    simp only [htoken ▸ hkind, hmark]
    split
    case h_7 => rfl
    all_goals exact absurd hmark (hne _ (by decide))
  have hend : EndsBehind g s := by
    intro tree t ht
    rw [hprimary] at ht
    cases ht
  have hnotes : ∀ r, primary g s = some r → s.token.notes = [] := by
    intro r hr
    rw [hprimary] at hr
    cases hr
  rw [← hs, expression_eq_primary hat hend hnotes (by rw [hs]; rfl), hprimary]
  rfl

/-- A string at the end of a text is read. -/
theorem expression_string {s : ParseState} {lexeme : Lexeme} (hkind : s.token.kind = .string)
    (hnotes : s.token.notes = []) (hnext : lexeme? s.after s.token = some lexeme)
    (heof : lexeme.token.kind = .eof) (hbound : 0 < s.bound)
    (hcontext : s.context.inDecorator = false) :
    expression g (assignment g true) s =
      some (.node ⟨s.token.start, s.token.stop⟩ (.string s.token.text s.token.hasHalves) [],
        next s lexeme) := by
  have hat : AtOperand s := by
    refine ⟨?_, ?_, fun mark _ => ?_⟩
    · rw [hkind]; decide
    · rw [hkind]; decide
    · rw [Token.isMark, hkind]; rfl
  obtain ⟨tree, htree⟩ : ∃ tree : Tree, tree = .node ⟨s.token.start, s.token.stop⟩
      (.string s.token.text s.token.hasHalves) [] := ⟨_, rfl⟩
  have hleaf : leaf (.string s.token.text s.token.hasHalves) s = some (tree, next s lexeme) := by
    rw [leaf_eq hnext, htree]
  rw [← htree]
  have hliteral : simpleLiteral? s = some (some tree, next s lexeme) := by
    unfold simpleLiteral?
    rw [token_bind, hkind]
    show (leaf _ s).bind _ = _
    rw [hleaf]
    rfl
  have hprimary : primary g s = some (tree, next s lexeme) := by
    unfold primary
    rw [token_bind, hkind]
    simp only
    rw [bind_eq hliteral]
    rfl
  have hend : EndsBehind g s := by
    intro tree t ht
    rw [hprimary] at ht
    cases ht
    exact ⟨heof, hbound⟩
  rw [expression_eq_primary hat hend (fun _ _ => hnotes) hcontext, hprimary]
  rfl

end Parse

/-! ## §5. Strings -/

/-- A text that stands for itself between quotes: nothing ends it, and it has no escapes. -/
structure IsQuotable (quote : Char) (text : List Char) : Prop where
  isQuote : quote = '"' ∨ quote = '\''
  character : ∀ c ∈ text, c ≠ quote ∧ c ≠ '\\' ∧ c ≠ '\n' ∧ c ≠ '\r'

variable {quote : Char} {text : List Char}

theorem stringUnits_run (h : ∀ c ∈ text, c ≠ quote ∧ c ≠ '\\' ∧ c ≠ '\n' ∧ c ≠ '\r')
    {fuel : Nat} (hfuel : text.length < fuel) (units : List StringUnit) (r : List Char) :
    stringUnits fuel quote units (text ++ quote :: r) =
      some (units.reverse ++ text.map .character, r) := by
  induction text generalizing fuel units with
  | nil =>
    obtain ⟨n, rfl⟩ := Nat.exists_eq_add_of_lt hfuel
    simp [stringUnits]
  | cons c text ih =>
    obtain ⟨hquote, hslash, hline, hreturn⟩ := h c List.mem_cons_self
    obtain ⟨n, rfl⟩ := Nat.exists_eq_add_of_lt hfuel
    have hfuel' : text.length < (c :: text).length + n := by
      rw [List.length_cons]
      omega
    rw [List.cons_append, stringUnits, if_neg hquote, if_neg hslash]
    simp only [hline, hreturn, decide_false, Bool.or_self, Bool.false_eq_true, if_false]
    rw [ih (fun d hd => h d (List.mem_cons_of_mem c hd)) hfuel']
    simp

theorem textOfUnits_map_character (text : List Char) :
    (text.map StringUnit.character).any StringUnit.isLone = false ∧
      textOfUnits (text.map .character) = text := by
  have hlone : (text.map StringUnit.character).any StringUnit.isLone = false := by
    simp [StringUnit.isLone]
  refine ⟨hlone, ?_⟩
  rw [textOfUnits, hlone]
  simp [List.flatMap_map]

theorem token?_quoted (h : IsQuotable quote text) (o : Nat) (r : List Char) (lineBefore : Bool) :
    token? ⟨o, quote :: (text ++ quote :: r)⟩ lineBefore =
      some ({ kind := .string, text := String.ofList text, start := o,
              stop := o + byteSize (quote :: (text ++ [quote])), lineBefore },
        ⟨o + byteSize (quote :: (text ++ [quote])), r⟩) := by
  have hread : stringUnits ((text ++ quote :: r).length + 1) quote [] (text ++ quote :: r) =
      some (text.map .character, r) := by
    refine stringUnits_run h.character ?_ [] r
    rw [List.length_append]
    omega
  obtain ⟨hlone, hunits⟩ := textOfUnits_map_character text
  have hstring : token? ⟨o, quote :: (text ++ quote :: r)⟩ lineBefore =
      stringToken? ⟨o, quote :: (text ++ quote :: r)⟩ lineBefore := by
    rcases h.isQuote with rfl | rfl <;> rfl
  rw [hstring]
  unfold stringToken?
  simp only [hread, Option.bind_eq_bind, Option.bind_some, hlone, hunits]
  rw [tokenTo_append (w := quote :: (text ++ [quote])) (by simp)]
  rfl

/-- A string with a gap behind it is read as that string. -/
theorem parseExpression?_quoted (language : Language) (h : IsQuotable quote text) {t : List Char}
    (ht : IsGap t) :
    parseExpression? language (quote :: (text ++ quote :: t)) =
      some (.node ⟨0, byteSize (quote :: (text ++ [quote]))⟩
        (.string (String.ofList text) false) []) := by
  have hstop : StopsGap quote (text ++ quote :: t) := by
    rcases h.isQuote with rfl | rfl <;>
      exact ⟨by decide, by decide, fun hslash => absurd hslash (by decide)⟩
  have hnone : ([] : List Char) = [] ∨ [] = [' '] := .inl rfl
  obtain ⟨first, hfirst, htoken, hafter⟩ : ∃ first,
      lexeme? ⟨0, quote :: (text ++ quote :: t)⟩ { kind := .eof } = some first ∧
      first.token =
        { kind := .string, text := String.ofList text, start := 0,
          stop := byteSize (quote :: (text ++ [quote])), lineBefore := true } ∧
      first.after.rest = t :=
    ⟨_, lexemeBy?_eq hnone rfl hstop.lineEnd hstop.blank hstop.comment (token?_quoted h _ t _),
      by simp, rfl⟩
  obtain ⟨last, hlast, heof⟩ := lexeme?_gap_end ht hafter first.token
  obtain ⟨g, hparse⟩ := Parse.parseExpression?_of_lexeme? language hfirst
  rw [hparse, Parse.expression_string (by show first.token.kind = _; rw [htoken])
    (by show first.token.notes = _; rw [htoken]) hlast heof (Nat.succ_pos _) rfl]
  show some (Tree.node ⟨first.token.start, first.token.stop⟩
    (.string first.token.text first.token.hasHalves) []) = _
  rw [htoken]

end Provenance.Script
