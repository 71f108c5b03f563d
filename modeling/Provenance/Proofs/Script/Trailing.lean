import Provenance.Script.Value
import Provenance.Proofs.Script.Operand
import Provenance.Proofs.Text.Blank

/-! # What stands behind an expression

  The parser of a bound expression leaves unread what stands behind it.  Whether that may
  stand there is judged by places: the expression must end where the text ends, the blanks
  at its end aside.

  - A gap adds no token, but it counts as nothing only if it is blank.  A comment is not,
    and neither is the byte order mark: with one of them behind it an expression is refused
    (`evaluate_append_gap_iff`), although the parser reads the same expression.
  - For strings nothing has to be assumed of the parser (`evaluate_quoted_append`).
-/

namespace Provenance.Script

open Text (Cursor byteSize)

variable {source t : List Char} {tree : Tree}

/-! ## §1. Where an expression ends -/

/-- The value of a text that is no expression. -/
def invalidExpression : PropValue := .expression "InvalidExpression"

/-- A text has a value if an expression is read and ends where the text does. -/
theorem exists_of_evaluate_ne (h : evaluate source ≠ invalidExpression) :
    ∃ tree, parseExpression? bindingLanguage source = some tree ∧
      tree.span.stop = byteSize (Text.trimEnd source) ∧ evaluate source = boundValue tree := by
  unfold evaluate at h ⊢
  cases hparse : parseExpression? bindingLanguage source with
  | none =>
    rw [hparse] at h
    exact absurd rfl h
  | some tree =>
    simp only [hparse] at h ⊢
    by_cases hstop : tree.span.stop = byteSize (Text.trimEnd source)
    · exact ⟨tree, rfl, hstop, if_pos hstop⟩
    · rw [if_neg hstop] at h
      exact absurd rfl h

/-- To ask for the end of the text reads no more. -/
theorem Parse.eq_of_ends {p : Parse Tree} {s : ParseState} {r : Tree × ParseState}
    (h : (do let tree ← p; require (← atKind .eof); return tree) s = some r) :
    p s = some r ∧ r.2.token.kind = .eof := by
  obtain ⟨tree, t, hp, hend⟩ := exists_of_bind h
  rw [atKind_bind] at hend
  cases hkind : t.token.kind == .eof with
  | false =>
    rw [hkind] at hend
    cases hend
  | true =>
    rw [hkind] at hend
    obtain rfl := Option.some.inj hend
    exact ⟨hp, beq_iff_eq.1 hkind⟩

/-- The expression that a text is from end to end: the parser leaves no token behind it. -/
def parseWhole? (language : Language) (text : List Char) : Option Tree := do
  let g := grammar (depthOf text)
  let parsed ← parseFrom? language ⟨0, text⟩ do
    let tree ← g.expression
    Parse.require (← Parse.atKind .eof)
    return tree
  return parsed.tree

/-- A text that is an expression from end to end begins with that expression. -/
theorem parseExpression?_of_parseWhole? {language : Language} {text : List Char}
    (h : parseWhole? language text = some tree) : parseExpression? language text = some tree := by
  obtain ⟨parsed, hparsed, htree⟩ := Option.bind_eq_some_iff.1 h
  obtain ⟨lexeme, hlexeme, hrun⟩ := Option.bind_eq_some_iff.1 hparsed
  obtain ⟨outcome, hread, hsound⟩ := Option.bind_eq_some_iff.1 hrun
  have hread := (Parse.eq_of_ends hread).1
  have hfrom : parseFrom? language ⟨0, text⟩ (grammar (depthOf text)).expression = some parsed :=
    Option.bind_eq_some_iff.2 ⟨lexeme, hlexeme, Option.bind_eq_some_iff.2 ⟨outcome, hread, hsound⟩⟩
  exact Option.bind_eq_some_iff.2 ⟨parsed, hfrom, htree⟩

/-- Blanks behind an expression count as nothing. -/
theorem evaluate_append_of_blank
    (hparse : parseExpression? bindingLanguage (source ++ t) = some tree)
    (hstop : tree.span.stop = byteSize (Text.trimEnd source))
    (ht : ∀ x ∈ t, Text.isBlank x = true) : evaluate (source ++ t) = boundValue tree := by
  rw [evaluate, hparse]
  simp only
  rw [Text.trimEnd_append_of_blank ht, if_pos hstop]

/-- Anything else behind an expression makes the text no expression. -/
theorem evaluate_append_of_not_blank
    (hparse : parseExpression? bindingLanguage (source ++ t) = some tree)
    (hstop : tree.span.stop ≤ byteSize source) {x : Char} (hx : x ∈ t)
    (hblank : Text.isBlank x = false) : evaluate (source ++ t) = invalidExpression := by
  have hlt := Text.byteSize_lt_trimEnd_append (s := source) hx hblank
  rw [evaluate, hparse]
  simp only
  rw [if_neg (by omega)]
  rfl

/-! ## §2. Strings -/

/-- A string that ends its text is known by what stands between its quotes.  With a gap
    behind it, it still is if the gap is blank, and else the text is no expression. -/
theorem evaluate_quoted_append {quote : Char} {text : List Char} (h : IsQuotable quote text)
    (ht : IsGap t) :
    evaluate (quote :: (text ++ [quote])) = .string (String.ofList text) ∧
    ((∀ x ∈ t, Text.isBlank x = true) →
      evaluate (quote :: (text ++ quote :: t)) = .string (String.ofList text)) ∧
    ((∃ x ∈ t, Text.isBlank x = false) →
      evaluate (quote :: (text ++ quote :: t)) = invalidExpression) := by
  obtain ⟨source, hsource⟩ : ∃ source, source = quote :: (text ++ [quote]) := ⟨_, rfl⟩
  have hparse : ∀ {r}, IsGap r → parseExpression? bindingLanguage (source ++ r) =
      some (.node ⟨0, byteSize source⟩ (.string (String.ofList text) false) []) := by
    intro r hr
    rw [hsource]
    simpa using parseExpression?_quoted bindingLanguage h hr
  -- the quote at the end is no blank, so nothing is trimmed
  have hstop : byteSize source = byteSize (Text.trimEnd source) := by
    have hquote : Text.isBlank quote = false ∧ quote.utf8Size = 1 := by
      rcases h.isQuote with rfl | rfl <;> decide
    have hlt := Text.byteSize_lt_trimEnd_append (s := quote :: text) (List.mem_singleton_self quote)
      hquote.1
    have hle := Text.byteSize_trimEnd_le source
    rw [List.cons_append, ← hsource] at hlt
    have hsize : byteSize source = byteSize (quote :: text) + 1 := by
      rw [hsource, ← List.cons_append, Text.byteSize_append]
      exact congrArg (byteSize (quote :: text) + ·) hquote.2
    omega
  have hvalue : ∀ {r}, IsGap r → (∀ x ∈ r, Text.isBlank x = true) →
      evaluate (source ++ r) = .string (String.ofList text) := fun hr hblank =>
    evaluate_append_of_blank (hparse hr) hstop hblank
  have happend : quote :: (text ++ quote :: t) = source ++ t := by
    rw [hsource]
    simp
  rw [happend, ← hsource]
  refine ⟨?_, hvalue ht, fun ⟨x, hx, hblank⟩ => ?_⟩
  · simpa using hvalue .nil (fun x hx => nomatch hx)
  · exact evaluate_append_of_not_blank (hparse ht) (Nat.le_refl _) hx hblank

/-- With a gap behind it that is not blank, a string is refused, although the parser reads it
    as it does alone. -/
theorem evaluate_quoted_append_ne {quote : Char} {text : List Char} (h : IsQuotable quote text)
    (ht : IsGap t) (hblank : ∃ x ∈ t, Text.isBlank x = false) :
    parseExpression? bindingLanguage (quote :: (text ++ quote :: t)) =
      parseExpression? bindingLanguage (quote :: (text ++ [quote])) ∧
    evaluate (quote :: (text ++ quote :: t)) = invalidExpression ∧
    evaluate (quote :: (text ++ quote :: t)) ≠ evaluate (quote :: (text ++ [quote])) := by
  have hskip := (parseExpression?_quoted bindingLanguage h ht).trans
    (parseExpression?_quoted bindingLanguage h .nil).symm
  obtain ⟨hvalue, -, hinvalid⟩ := evaluate_quoted_append h ht
  refine ⟨hskip, hinvalid hblank, ?_⟩
  rw [hvalue, hinvalid hblank]
  exact nofun

/-! ## §3. Gaps behind an expression -/

/-- A gap behind an expression adds no token.  Where the parser reads the expression in
    front of the gap as it reads it alone, the value is the same exactly if the gap is
    blank, and else there is none. -/
theorem evaluate_append_gap_iff (ht : IsGap t) (hvalue : evaluate source ≠ invalidExpression)
    (hskip : parseExpression? bindingLanguage (source ++ t) =
      parseExpression? bindingLanguage source) :
    (∀ (c : Cursor) (previous : Token), c.rest = t →
      ∃ lexeme, lexeme? c previous = some lexeme ∧ lexeme.token.kind = .eof) ∧
    (evaluate (source ++ t) = evaluate source ↔ ∀ x ∈ t, Text.isBlank x = true) ∧
    ((∃ x ∈ t, Text.isBlank x = false) → evaluate (source ++ t) = invalidExpression) := by
  obtain ⟨tree, hparse, hstop, hevaluate⟩ := exists_of_evaluate_ne hvalue
  have hinvalid : ∀ x ∈ t, Text.isBlank x = false →
      evaluate (source ++ t) = invalidExpression := by
    intro x hx hblank
    -- the expression ends in front of the gap, and trimming keeps what is not blank in it
    have hle : tree.span.stop ≤ byteSize source := hstop ▸ Text.byteSize_trimEnd_le source
    exact evaluate_append_of_not_blank (hskip.trans hparse) hle hx hblank
  refine ⟨fun c previous hrest => lexeme?_gap_end ht hrest previous, ⟨?_, ?_⟩, ?_⟩
  · intro heq x hx
    cases hblank : Text.isBlank x with
    | true => rfl
    | false => exact absurd (heq.symm.trans (hinvalid x hx hblank)) hvalue
  · intro hblank
    rw [hevaluate]
    exact evaluate_append_of_blank (hskip.trans hparse) hstop hblank
  · rintro ⟨x, hx, hblank⟩
    exact hinvalid x hx hblank

/-- A comment behind a string. -/
theorem evaluate_append_gap_iff_comment :
    IsGap "/**/".toList ∧ evaluate "'x'".toList ≠ invalidExpression ∧
    parseExpression? bindingLanguage ("'x'".toList ++ "/**/".toList) =
      parseExpression? bindingLanguage "'x'".toList ∧
    (evaluate ("'x'".toList ++ "/**/".toList) = evaluate "'x'".toList ↔
      ∀ x ∈ "/**/".toList, Text.isBlank x = true) ∧
    evaluate ("'x'".toList ++ "/**/".toList) = invalidExpression := by
  have hx : IsQuotable '\'' ['x'] := ⟨.inr rfl, by simp⟩
  have hgap : IsGap "/**/".toList := @IsGap.comment [] [] (by decide) .nil
  have hslash : ∃ x ∈ "/**/".toList, Text.isBlank x = false := ⟨'/', by decide, by decide⟩
  have hvalue : evaluate "'x'".toList ≠ invalidExpression := by
    rw [show evaluate "'x'".toList = _ from (evaluate_quoted_append hx .nil).1]
    exact nofun
  have hskip : parseExpression? bindingLanguage ("'x'".toList ++ "/**/".toList) =
      parseExpression? bindingLanguage "'x'".toList := (evaluate_quoted_append_ne hx hgap hslash).1
  obtain ⟨-, hiff, hinvalid⟩ := evaluate_append_gap_iff hgap hvalue hskip
  exact ⟨hgap, hvalue, hskip, hiff, hinvalid hslash⟩

/-- Neither a comment nor the byte order mark can stand behind a string, although with
    either of them the parser reads the string as it does alone. -/
theorem evaluate_append_gap_ne :
    evaluate "'x'".toList = .string "x" ∧
    ∀ t ∈ ["/**/".toList, "\uFEFF".toList], IsGap t ∧
      parseExpression? bindingLanguage ("'x'".toList ++ t) =
        parseExpression? bindingLanguage "'x'".toList ∧
      evaluate ("'x'".toList ++ t) = invalidExpression ∧
      evaluate ("'x'".toList ++ t) ≠ evaluate "'x'".toList := by
  have hx : IsQuotable '\'' ['x'] := ⟨.inr rfl, by simp⟩
  have hrefused : ∀ t, IsGap t → (∃ x ∈ t, Text.isBlank x = false) →
      parseExpression? bindingLanguage ("'x'".toList ++ t) =
        parseExpression? bindingLanguage "'x'".toList ∧
      evaluate ("'x'".toList ++ t) = invalidExpression ∧
      evaluate ("'x'".toList ++ t) ≠ evaluate "'x'".toList :=
    fun _ ht hblank => evaluate_quoted_append_ne hx ht hblank
  have hcomment : IsGap "/**/".toList := @IsGap.comment [] [] (by decide) .nil
  have hmark : IsGap "\uFEFF".toList := .blank (.inr (by decide)) .nil
  refine ⟨(evaluate_quoted_append hx .nil).1, ?_⟩
  simp only [List.forall_mem_cons, List.not_mem_nil, false_implies, implies_true, and_true]
  exact ⟨⟨hcomment, hrefused _ hcomment ⟨'/', by decide, by decide⟩⟩,
    ⟨hmark, hrefused _ hmark ⟨'\uFEFF', by decide, by decide⟩⟩⟩

end Provenance.Script
