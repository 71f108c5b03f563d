import Provenance.Script.Lexer

/-! # Gaps between tokens

  A gap is a text of blanks, line ends and complete block comments (`IsGap`).  The reader of
  tokens passes over it as a whole, whatever stands behind it (`readGap_append`), so that a
  gap adds no token: at the end of a text it leaves nothing but the end
  (`lexeme?_gap_end`), and anywhere else the token behind it is the next one
  (`lexeme?_gap_token`).
-/

namespace Provenance.Script

open Text (Cursor byteSize byteSize_append byteSize_cons byteSize_nil isLineEnd isScriptBlank)

/-! ## §1. Gaps -/

/-- A text that holds no token: blanks of a script, the byte order mark among them, ends of
    lines, and comments between their marks. -/
inductive IsGap : List Char → Prop where
  | nil : IsGap []
  | blank {c : Char} {rest : List Char} (hc : isLineEnd c = true ∨ isScriptBlank c = true)
      (hrest : IsGap rest) : IsGap (c :: rest)
  /-- The comment ends at the first mark that can end it. -/
  | comment {text rest : List Char} (htext : ¬ ['*', '/'] <:+: text) (hrest : IsGap rest) :
      IsGap ('/' :: '*' :: (text ++ '*' :: '/' :: rest))

/-- A character that no gap begins with stands in front of a text. -/
structure StopsGap (x : Char) (r : List Char) : Prop where
  lineEnd : isLineEnd x = false
  blank : isScriptBlank x = false
  comment : x = '/' → r.head? ≠ some '/' ∧ r.head? ≠ some '*'

/-! ## §2. Passing over a gap -/

variable {t : List Char}

/-- Inside of a comment, reading goes on to its end. -/
theorem readGap_comment {text : List Char} (htext : ¬ ['*', '/'] <:+: text)
    (afterOpening : Bool) (o : Nat) (gap : Gap) (spans : Bool) (seen : List Char) :
    ∃ gap' spans', ∀ r, readGap afterOpening o gap spans (.block seen) (text ++ '*' :: '/' :: r) =
      readGap afterOpening (o + byteSize text + 2) gap' spans' .blank r := by
  induction text generalizing o spans seen with
  | nil =>
    refine ⟨gap.addComment afterOpening false ('/' :: '*' :: seen).reverse, spans, fun r => ?_⟩
    rw [List.nil_append, readGap, byteSize_nil, Nat.add_zero]
  | cons c text ih =>
    have hrest : ¬ ['*', '/'] <:+: text := by
      intro hinfix
      apply htext
      exact hinfix.trans (List.suffix_cons c text).isInfix
    obtain ⟨gap', spans', hread⟩ :=
      ih hrest (o + c.utf8Size) (spans || isLineEnd c) (c :: seen)
    refine ⟨gap', spans', fun r => ?_⟩
    rw [List.cons_append, readGap, hread, byteSize_cons, Nat.add_assoc o]
    -- the two characters in front do not end the comment
    rintro r' rfl hr'
    cases text with
    | nil => exact absurd (List.cons.inj hr').1 (by decide)
    | cons d text =>
      obtain rfl := (List.cons.inj hr').1
      exact htext ⟨[], text, rfl⟩

/-- Reading passes over a gap, and what is behind it is read as if the text began there. -/
theorem readGap_append (h : IsGap t) (afterOpening : Bool) (o : Nat) (gap : Gap) (spans : Bool) :
    ∃ gap' spans', ∀ r, readGap afterOpening o gap spans .blank (t ++ r) =
      readGap afterOpening (o + byteSize t) gap' spans' .blank r := by
  induction h generalizing o gap spans with
  | nil => exact ⟨gap, spans, fun r => rfl⟩
  | @blank c rest hc _ ih =>
    have hslash : c ≠ '/' := by
      rintro rfl
      exact absurd hc (by decide)
    obtain ⟨gap', spans', hread⟩ :=
      ih (o + c.utf8Size) (if isLineEnd c then gap.endLine else gap) spans
    refine ⟨gap', spans', fun r => ?_⟩
    rw [byteSize_cons, ← Nat.add_assoc, ← hread r, List.cons_append, readGap]
    · cases hline : isLineEnd c with
      | true => rfl
      | false =>
        have hblank : isScriptBlank c = true := by
          rcases hc with hc | hc
          · rw [hc] at hline
            cases hline
          · exact hc
        simp only [hblank, Bool.false_eq_true, if_false, if_true]
    · exact fun _ heq => absurd heq hslash
    · exact fun _ heq => absurd heq hslash
  | @comment text rest htext _ ih =>
    obtain ⟨gap₁, spans₁, hcomment⟩ :=
      readGap_comment htext afterOpening (o + 2) gap spans ['*', '/']
    -- the comment first, and then the rest of the gap from the offset behind it
    obtain ⟨gap', spans', hread⟩ := ih (o + 2 + byteSize text + 2) gap₁ spans₁
    refine ⟨gap', spans', fun r => ?_⟩
    have hsize : o + byteSize ('/' :: '*' :: (text ++ '*' :: '/' :: rest)) =
        o + 2 + byteSize text + 2 + byteSize rest := by
      simp only [byteSize_cons, byteSize_append]
      rw [show '/'.utf8Size = 1 from rfl, show '*'.utf8Size = 1 from rfl]
      omega
    rw [hsize, ← hread r, ← hcomment (rest ++ r)]
    simp only [List.cons_append, List.append_assoc]
    rw [readGap]

/-- Reading stops in front of a character that no gap begins with. -/
theorem readGap_stop {x : Char} {r : List Char} (hx : StopsGap x r) (afterOpening : Bool)
    (o : Nat) (gap : Gap) (spans : Bool) :
    readGap afterOpening o gap spans .blank (x :: r) = some (gap, spans, ⟨o, x :: r⟩) := by
  rw [readGap]
  · simp only [hx.lineEnd, hx.blank, Bool.false_eq_true, if_false]
  · rintro r' rfl rfl
    exact (hx.comment rfl).1 rfl
  · rintro r' rfl rfl
    exact (hx.comment rfl).2 rfl

/-! ## §3. Tokens behind a gap -/

/-- The first token behind a cursor is one that a reader finds behind the gap there. -/
theorem lexeme?_gap {c : Cursor} {r : List Char} (h : IsGap t) (hrest : c.rest = t ++ r)
    (previous : Token)
    (hstop : ∀ afterOpening o gap spans,
      readGap afterOpening o gap spans .blank r = some (gap, spans, ⟨o, r⟩)) :
    ∃ lineBefore notes comments, lexeme? c previous =
      (token? ⟨c.offset + byteSize t, r⟩ lineBefore).map fun found =>
        ⟨{ found.1 with notes }, ⟨c.offset + byteSize t, r⟩, found.2, comments⟩ := by
  obtain ⟨gap, spans, hgap⟩ := readGap_append h (previous.isMark "=" || previous.isMark "(")
    c.offset { lineBefore := previous.kind = .eof } false
  refine ⟨gap.lineBefore || spans, gap.notes,
    (gap.pending.reverse.filter fun comment => comment.note?.isNone).map
      fun comment => { comment with owner := c.offset + byteSize t }, ?_⟩
  unfold lexeme? lexemeBy?
  simp only [hrest, hgap, hstop, Option.bind_eq_bind, Option.bind_some]
  cases token? ⟨c.offset + byteSize t, r⟩ (gap.lineBefore || spans) <;> rfl

/-- A gap at the end of a text leaves the end. -/
theorem lexeme?_gap_end {c : Cursor} (h : IsGap t) (hrest : c.rest = t) (previous : Token) :
    ∃ lexeme, lexeme? c previous = some lexeme ∧ lexeme.token.kind = .eof := by
  obtain ⟨lineBefore, notes, comments, hlexeme⟩ :=
    lexeme?_gap h (by rw [hrest, List.append_nil]) previous (fun _ _ _ _ => by rw [readGap])
  exact ⟨_, hlexeme, rfl⟩

/-- A token behind a gap is the next one. -/
theorem lexeme?_gap_token {c after : Cursor} {x : Char} {r : List Char} {token : Bool → Token}
    (h : IsGap t) (hrest : c.rest = t ++ x :: r) (previous : Token) (hx : StopsGap x r)
    (htoken : ∀ lineBefore, token? ⟨c.offset + byteSize t, x :: r⟩ lineBefore =
      some (token lineBefore, after)) :
    ∃ lexeme lineBefore notes, lexeme? c previous = some lexeme ∧
      lexeme.token = { token lineBefore with notes } ∧ lexeme.after = after := by
  obtain ⟨lineBefore, notes, comments, hlexeme⟩ :=
    lexeme?_gap h hrest previous (fun _ _ _ _ => readGap_stop hx _ _ _ _)
  rw [htoken, Option.map_some] at hlexeme
  exact ⟨_, lineBefore, notes, hlexeme, rfl, rfl⟩

end Provenance.Script
