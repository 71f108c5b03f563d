import Provenance.Proofs.Script.Trailing
import Provenance.Proofs.Snapshot.Dialects
import Provenance.Proofs.Text.Reference

/-! # References in bound attributes

  A value between quotes is written with references for ampersands and quotes, and the value
  of an attribute without a directive is read with its references decoded.  The value of a
  directive is not: its expression is the text as it is written (`snapshot_escaped`).

  - Where no reference is needed, that makes no difference.
  - A string between double quotes is written with a reference in front, and an ampersand
    begins no expression (`parseExpression?_quoteReference`), so every such string is lost
    (`evaluate_escapeValue_string`).
-/

namespace Provenance

open Text (byteSize escapeValue escapeCharacter)

/-! ## §1. Texts that need references -/

namespace Text

theorem escapeValue_of_not_mem {s : List Char} (hand : '&' ∉ s) (hquote : '"' ∉ s) :
    escapeValue s = s := by
  induction s with
  | nil => rfl
  | cons c s ih =>
    have hc : escapeCharacter c = [c] := by
      have hne : c ≠ '&' ∧ c ≠ '"' :=
        ⟨fun h => hand (h ▸ List.mem_cons_self), fun h => hquote (h ▸ List.mem_cons_self)⟩
      simp [escapeCharacter, hne]
    rw [escapeValue, List.flatMap_cons, ← escapeValue, hc,
      ih (fun h => hand (List.mem_cons_of_mem c h)) (fun h => hquote (List.mem_cons_of_mem c h))]
    rfl

/-- A text that is not blank is not blank with references. -/
theorem trim_escapeValue {s : List Char} (h : (trim s).isEmpty = false) :
    (trim (escapeValue s)).isEmpty = false := by
  rw [← Bool.not_eq_true, List.isEmpty_iff, trim_eq_nil_iff] at h ⊢
  intro hall
  apply h
  intro x hx
  -- a character that is escaped is not blank, but neither is what it is written as
  have hmem : ∀ y ∈ escapeCharacter x, isBlank y = true := fun y hy =>
    hall y (List.mem_flatMap.2 ⟨x, hx, hy⟩)
  unfold escapeCharacter at hmem
  split at hmem
  · exact absurd (hmem '&' List.mem_cons_self) (by decide)
  · split at hmem
    · exact absurd (hmem '&' List.mem_cons_self) (by decide)
    · exact hmem x (List.mem_singleton_self x)

end Text

namespace Script

open Text (isLineEnd isScriptBlank)

/-! ## §2. Strings between double quotes -/

/-- Blanks in front of a token. -/
theorem isGap_of_blank {w : List Char}
    (h : ∀ x ∈ w, isLineEnd x = true ∨ isScriptBlank x = true) : IsGap w := by
  induction w with
  | nil => exact .nil
  | cons x w ih =>
    exact .blank (h x List.mem_cons_self) (ih fun y hy => h y (List.mem_cons_of_mem x hy))

theorem escapeValue_of_blank {w : List Char}
    (h : ∀ x ∈ w, isLineEnd x = true ∨ isScriptBlank x = true) : escapeValue w = w := by
  apply Text.escapeValue_of_not_mem
  · intro hmem
    exact absurd (h '&' hmem) (by decide)
  · intro hmem
    exact absurd (h '"' hmem) (by decide)

theorem token?_ampersand (o : Nat) (r : List Char) (lineBefore : Bool) :
    token? ⟨o, '&' :: 'q' :: r⟩ lineBefore =
      some ({ kind := .punctuator, text := "&", start := o, stop := o + 1, lineBefore },
        ⟨o + 1, 'q' :: r⟩) := by
  have hmark : punctuator? ('&' :: 'q' :: r) = some (['&'], 'q' :: r) := rfl
  have htoken : token? ⟨o, '&' :: 'q' :: r⟩ lineBefore =
      (punctuator? ('&' :: 'q' :: r)).bind fun found =>
        some (tokenTo ⟨o, '&' :: 'q' :: r⟩ found.2
          { kind := .punctuator, text := String.ofList found.1, lineBefore }) := rfl
  rw [htoken, hmark, Option.bind_some, tokenTo_append (w := ['&']) rfl]
  rfl

/-- The reference of a quote begins no expression: its ampersand is an operator, which
    nothing stands in front of. -/
theorem parseExpression?_quoteReference (language : Language) {w : List Char} (hw : IsGap w)
    (r : List Char) : parseExpression? language (w ++ '&' :: 'q' :: r) = none := by
  have hstop : StopsGap '&' ('q' :: r) :=
    ⟨by decide, by decide, fun hslash => absurd hslash (by decide)⟩
  obtain ⟨lexeme, lineBefore, notes, hlexeme, hfirst, -⟩ :=
    lexeme?_gap_token (c := ⟨0, w ++ '&' :: 'q' :: r⟩) hw rfl { kind := .eof } hstop
      (token?_ampersand _ r)
  apply Parse.parseExpression?_eq_none language hlexeme
  · rw [hfirst]
  · rw [hfirst]
    show "&" ∉ Parse.openingMarks
    decide

/-- An expression that begins with a double quote is lost: with its quotes written as
    references it is no expression. -/
theorem evaluate_escapeValue_of_quote {w : List Char}
    (hw : ∀ x ∈ w, isLineEnd x = true ∨ isScriptBlank x = true) (r : List Char) :
    evaluate (escapeValue (w ++ '"' :: r)) = invalidExpression := by
  have happend : escapeValue (w ++ '"' :: r) =
      w ++ '&' :: 'q' :: ('u' :: 'o' :: 't' :: ';' :: escapeValue r) := by
    rw [escapeValue, List.flatMap_append, List.flatMap_cons, ← escapeValue, ← escapeValue,
      escapeValue_of_blank hw]
    rfl
  rw [evaluate, happend, parseExpression?_quoteReference _ (isGap_of_blank hw)]
  rfl

/-- A string between double quotes has its value, and has none where it is written with
    references. -/
theorem evaluate_escapeValue_string {text : List Char} (h : IsQuotable '"' text) :
    evaluate ('"' :: (text ++ ['"'])) = .string (String.ofList text) ∧
      evaluate (escapeValue ('"' :: (text ++ ['"']))) = invalidExpression :=
  ⟨(evaluate_quoted_append h .nil).1, evaluate_escapeValue_of_quote (w := []) (by simp) _⟩

end Script

/-! ## §3. Attributes with references -/

open SharedAttribute (IsName setting_attribute setting_evaluate)

/-- A start tag with one attribute, whose value is written with references. -/
def escapedTag (tag name value : List Char) (selfClosing : Bool) : List Char :=
  Template.printStart tag [⟨name, some (escapeValue value)⟩] ++ tagEnd selfClosing

/-- The tag is read, and its snapshot is what its attribute sets. -/
theorem readOpenTag_escapedTag {tag name : List Char} (htag : Template.IsTagName tag)
    (hne : name ≠ [])
    (hpart : ∀ x ∈ name, Text.isTagBlank x = false ∧ x ≠ '=' ∧ x ≠ '>' ∧ x ≠ '/')
    (value : List Char) (selfClosing : Bool) (o : Nat) (rest : List Char) :
    ∃ read d start, Template.readOpenTag ⟨o, escapedTag tag name value selfClosing ++ rest⟩ =
        .ok (read, d) ∧
      read.snapshot = .ofList
        [(Template.Entry.ofName name (some (escapeValue value)) start).setting] := by
  have hwritten : ∀ w ∈ [(⟨name, some (escapeValue value)⟩ : Template.Written)],
      w.WellFormed := by
    intro w hw
    obtain rfl := List.mem_singleton.1 hw
    exact ⟨hne, hpart, fun v hv => Option.some.inj hv ▸ Text.quote_not_mem_escapeValue value⟩
  rw [escapedTag, List.append_assoc]
  cases selfClosing with
  | true =>
    have hread := (Template.readsTag_selfClosed htag hwritten o rest).readOpenTag
    exact ⟨_, _, _, hread, rfl⟩
  | false =>
    have hread := (Template.readsTag_open htag hwritten o rest).readOpenTag
    exact ⟨_, _, _, hread, rfl⟩

/-- A directive that binds a name records the value of the text with its references in it. -/
theorem readOpenTag_bound {tag name value : List Char} (htag : Template.IsTagName tag)
    (hname : IsName name) (hpoint : '.' ∉ name) (hblank : (Text.trim value).isEmpty = false)
    (selfClosing : Bool) (o : Nat) (rest : List Char) :
    ∃ read d, Template.readOpenTag ⟨o, escapedTag tag (':' :: name) value selfClosing ++ rest⟩ =
        .ok (read, d) ∧
      read.snapshot = .ofList [(String.ofList name, Script.evaluate (escapeValue value))] := by
  have hpart : ∀ x ∈ ':' :: name, Text.isTagBlank x = false ∧ x ≠ '=' ∧ x ≠ '>' ∧ x ≠ '/' := by
    intro x hx
    rcases List.mem_cons.1 hx with rfl | hx
    · decide
    · exact hname.part x hx
  obtain ⟨read, d, start, hread, hsnapshot⟩ :=
    readOpenTag_escapedTag htag (List.cons_ne_nil ':' name) hpart value selfClosing o rest
  rw [setting_evaluate hname hpoint (Text.trim_escapeValue hblank)] at hsnapshot
  exact ⟨read, d, hread, hsnapshot⟩

/-- A text that is written with references is recorded as it was where the attribute is no
    directive.  Where it is bound, the value recorded is that of the text with its references
    in it: the value of the text itself if it needs none, and no value at all if its first
    character behind blanks is a double quote. -/
theorem snapshot_escaped {tag name value : List Char} (htag : Template.IsTagName tag)
    (hname : IsName name) (hpoint : '.' ∉ name) (hblank : (Text.trim value).isEmpty = false)
    (selfClosing : Bool) (o : Nat) (rest : List Char) :
    (∃ read d,
      Template.readOpenTag ⟨o, escapedTag tag name value selfClosing ++ rest⟩ = .ok (read, d) ∧
      read.snapshot = .ofList [(String.ofList name, .string (String.ofList value))]) ∧
    (∃ read d,
      Template.readOpenTag ⟨o, escapedTag tag (':' :: name) value selfClosing ++ rest⟩ =
        .ok (read, d) ∧
      read.snapshot = .ofList [(String.ofList name, Script.evaluate (escapeValue value))]) ∧
    ('&' ∉ value → '"' ∉ value → Script.evaluate (escapeValue value) = Script.evaluate value) ∧
    (∀ w r, value = w ++ '"' :: r →
      (∀ x ∈ w, Text.isLineEnd x = true ∨ Text.isScriptBlank x = true) →
      Script.evaluate (escapeValue value) = Script.invalidExpression) := by
  refine ⟨?_, readOpenTag_bound htag hname hpoint hblank selfClosing o rest, ?_, ?_⟩
  · obtain ⟨read, d, start, hread, hsnapshot⟩ :=
      readOpenTag_escapedTag htag hname.ne_nil hname.part value selfClosing o rest
    rw [setting_attribute hname, Option.map_some, Text.decodeReferences_escapeValue] at hsnapshot
    exact ⟨read, d, hread, hsnapshot⟩
  · intro hand hquote
    rw [Text.escapeValue_of_not_mem hand hquote]
  · rintro w r rfl hw
    exact Script.evaluate_escapeValue_of_quote hw r

/-- A value with quotes and ampersands is recorded as a text, and lost where it is bound. -/
theorem snapshot_escaped_quoted :
    Template.IsTagName "p".toList ∧ IsName "a".toList ∧ '.' ∉ "a".toList ∧
    (Text.trim "\"x\" && y".toList).isEmpty = false ∧
    (∃ read d,
      Template.readOpenTag ⟨0, "<p a=\"&quot;x&quot; &amp;&amp; y\"/>".toList⟩ = .ok (read, d) ∧
      read.snapshot = .ofList [("a", .string "\"x\" && y")]) ∧
    ∃ read d,
      Template.readOpenTag ⟨0, "<p :a=\"&quot;x&quot; &amp;&amp; y\"/>".toList⟩ = .ok (read, d) ∧
      read.snapshot = .ofList [("a", .expression "InvalidExpression")] := by
  have htag : Template.IsTagName "p".toList := by decide
  have hname : IsName "a".toList := by decide
  have hpoint : '.' ∉ "a".toList := by decide
  have hblank : (Text.trim "\"x\" && y".toList).isEmpty = false := by decide
  have hwritten : escapedTag "p".toList "a".toList "\"x\" && y".toList true ++ [] =
      "<p a=\"&quot;x&quot; &amp;&amp; y\"/>".toList := by decide
  have hbound : escapedTag "p".toList (':' :: "a".toList) "\"x\" && y".toList true ++ [] =
      "<p :a=\"&quot;x&quot; &amp;&amp; y\"/>".toList := by decide
  obtain ⟨htext, hexpression, -, hlost⟩ := snapshot_escaped htag hname hpoint hblank true 0 []
  rw [hwritten] at htext
  rw [hbound, hlost [] "x\" && y".toList (by decide) nofun] at hexpression
  exact ⟨htag, hname, hpoint, hblank, htext, hexpression⟩

/-- A string between double quotes: the attribute is recorded as it was, but the value that
    it is bound to is not. -/
theorem bound_reference_loses_string :
    Script.evaluate "\"x\"".toList = .string "x" ∧
    ∃ read d, Template.readOpenTag ⟨0, "<p :a=\"&quot;x&quot;\"/>".toList⟩ = .ok (read, d) ∧
      read.snapshot = .ofList [("a", .expression "InvalidExpression")] ∧
      read.snapshot.get? "a" ≠ some (Script.evaluate "\"x\"".toList) := by
  have hstring : Script.evaluate "\"x\"".toList = .string "x" ∧
      Script.evaluate (escapeValue "\"x\"".toList) = Script.invalidExpression :=
    @Script.evaluate_escapeValue_string ['x'] ⟨.inl rfl, by simp⟩
  have hwritten : escapedTag "p".toList (':' :: "a".toList) "\"x\"".toList true ++ [] =
      "<p :a=\"&quot;x&quot;\"/>".toList := by decide
  obtain ⟨read, d, hread, hsnapshot⟩ :=
    @readOpenTag_bound "p".toList "a".toList "\"x\"".toList (by decide) (by decide) (by decide)
      (by decide) true 0 []
  rw [hwritten] at hread
  rw [hstring.2] at hsnapshot
  refine ⟨hstring.1, read, d, hread, hsnapshot, ?_⟩
  rw [hsnapshot, hstring.1]
  exact nofun

end Provenance
