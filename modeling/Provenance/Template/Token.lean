import Provenance.Template.Directive
import Provenance.Text.Blank
import Provenance.Text.Cursor

/-! # Tokens of a template

  A template is first cut into tokens: comments, declarations, tags, texts and
  interpolations.  An element whose content is raw text is one token, since its
  end tag has to be found before anything inside it is looked at.

  Main statement: every token takes at least one character (`next_shorter`), so
  a text has only so many of them.
-/

namespace Provenance.Template

open Text (Cursor isTagBlank)

/-! ## §1. Classes of tags -/

/-- A text with its ASCII letters in lower case. -/
def lowered (s : List Char) : List Char := s.map Char.toLower

/-- Whether two names are equal up to the case of ASCII letters. -/
def sameName (a b : List Char) : Bool := lowered a = lowered b

/-- The tags that have neither content nor an end tag. -/
def voidTags : List String :=
  ["area", "base", "br", "col", "embed", "hr", "img", "input", "link", "meta", "param",
   "source", "track", "wbr"]

/-- The tags whose content is raw text. -/
def rawTextTags : List String := ["script", "style", "textarea", "title"]

/-- Whether an element has no content: by its tag, or because its start tag says
    so. -/
def OpenTag.isLeaf (tag : OpenTag) : Bool :=
  tag.selfClosing || voidTags.contains (String.ofList (lowered tag.name.toList))

/-- Whether the content of an element is raw text. -/
def OpenTag.isRawText (tag : OpenTag) : Bool :=
  !tag.isLeaf && rawTextTags.contains (String.ofList (lowered tag.name.toList))

/-! ## §2. Tokens -/

/-- An end tag; `after` is the cursor behind it. -/
structure CloseTag where
  name : String
  start : Nat
  /-- What stands between `</` and `>`. -/
  inner : List Char
  after : Cursor
deriving DecidableEq, Repr

/-- A token of a template. -/
inductive Token where
  | comment (content : String) (start : Nat)
  /-- Markup such as a document type, which is passed over. -/
  | declaration
  | text (content : String) (start : Nat)
  | interpolation (content : String) (start : Nat)
  | openTag (tag : OpenTag) (stop : Nat)
  /-- An element with raw text as its content. -/
  | rawElement (tag : OpenTag) (content : String) (contentStart stop : Nat)
  | closeTag (tag : CloseTag)
deriving DecidableEq, Repr

/-- The outcome of reading something at a cursor. -/
abbrev Outcome (α : Type) := Except Error (α × Cursor)

/-! ## §3. What begins where -/

/-- Whether a start tag begins here. -/
def startsOpenTag : List Char → Bool
  | '<' :: c :: _ => c.isAlpha
  | _ => false

/-- Whether an end tag begins here. -/
def startsCloseTag : List Char → Bool
  | '<' :: '/' :: c :: _ => c.isAlpha
  | _ => false

/-- Whether a comment begins here. -/
def startsComment : List Char → Bool
  | '<' :: '!' :: '-' :: '-' :: _ => true
  | _ => false

/-- Whether a comment or a declaration begins here. -/
def startsDeclaration : List Char → Bool
  | '<' :: '!' :: _ => true
  | _ => false

/-- Whether an interpolation begins here, which needs its end to follow. -/
def startsInterpolation : List Char → Bool
  | '{' :: '{' :: r => (Cursor.splitOn? ['}', '}'] r).isSome
  | _ => false

/-- Whether a text ends before these characters. -/
def endsText (s : List Char) : Bool :=
  startsInterpolation s || startsOpenTag s || startsCloseTag s || startsDeclaration s

/-! ## §4. Readers -/

/-- Whether a character belongs to a tag name. -/
def isTagNamePart (c : Char) : Bool := !isTagBlank c && c ≠ '>' && c ≠ '/'

/-- Reads a comment. -/
def readComment (c : Cursor) : Outcome Token :=
  match (c.skip 4).takeUntil? ['-', '-', '>'] with
  | some (content, d) => .ok (.comment (String.ofList content) c.offset, d)
  | none => .error ⟨.unterminatedComment, c.offset⟩

/-- Reads a declaration. -/
def readDeclaration (c : Cursor) : Outcome Token :=
  match c.takeUntil? ['>'] with
  | some (_, d) => .ok (.declaration, d)
  | none => .error ⟨.unterminatedDeclaration, c.offset⟩

/-- Reads an end tag. -/
def readCloseTag (c : Cursor) : Outcome CloseTag :=
  let inner := c.skip 2
  let (name, _) := inner.takeWhile isTagNamePart
  match inner.takeUntil? ['>'] with
  | some (text, d) => .ok (⟨String.ofList name, c.offset, text, d⟩, d)
  | none => .error ⟨.unterminatedEndTag (String.ofList name), c.offset⟩

/-- Reads the value of an attribute: in quotes, or up to the next blank. -/
def readValue (c : Cursor) : Outcome (List Char) :=
  match c.rest with
  | quote :: _ =>
    if quote = '"' || quote = '\'' then
      match (c.skip 1).takeUntil? [quote] with
      | some (value, d) => .ok (value, d)
      | none => .error ⟨.unterminatedValue, c.offset⟩
    else .ok (c.takeWhile fun x => !isTagBlank x && x ≠ '>')
  | [] => .ok ([], c)

/-- The characters of an attribute name, of which the first is taken whatever it
    is: up to a blank, an equals sign or the end of the tag. -/
def attributeName : List Char → List Char
  | [] => []
  | c :: r => c :: more r
where
  /-- The characters of a name behind its first one. -/
  more : List Char → List Char
    | [] => []
    | c :: r =>
      if isTagBlank c || c = '=' || c = '>' || (c = '/' && r.head? = some '>') then []
      else c :: more r

/-- Reads an attribute at a character that can start one. -/
def readEntry (c : Cursor) : Outcome Entry :=
  let name := attributeName c.rest
  let behind := c.skip name.length
  match (behind.skipWhile isTagBlank).rest with
  | '=' :: _ =>
    match readValue (((behind.skipWhile isTagBlank).skip 1).skipWhile isTagBlank) with
    | .ok (value, d) => .ok (.ofName name (some value) c.offset, d)
    | .error e => .error e
  | _ => .ok (.ofName name none c.offset, behind)

/-! ## §5. Progress of the readers -/

theorem readComment_shorter {c d : Cursor} {t : Token} (h : readComment c = .ok (t, d)) :
    d.rest.length < c.rest.length := by
  unfold readComment at h
  split at h
  · next content d' hd =>
    obtain ⟨_, rfl⟩ := Prod.mk.inj (Except.ok.inj h)
    have := Cursor.length_of_takeUntil? hd
    rw [Cursor.length_skip] at this
    simp at this
    omega
  · cases h

theorem readDeclaration_shorter {c d : Cursor} {t : Token}
    (h : readDeclaration c = .ok (t, d)) : d.rest.length < c.rest.length := by
  unfold readDeclaration at h
  split at h
  · next content d' hd =>
    obtain ⟨_, rfl⟩ := Prod.mk.inj (Except.ok.inj h)
    have := Cursor.length_of_takeUntil? hd
    simp at this
    omega
  · cases h

theorem readCloseTag_shorter {c d : Cursor} {t : CloseTag} (h : readCloseTag c = .ok (t, d)) :
    d.rest.length < c.rest.length := by
  unfold readCloseTag at h
  simp only at h
  split at h
  · next text d' hd =>
    obtain ⟨_, rfl⟩ := Prod.mk.inj (Except.ok.inj h)
    have := Cursor.length_of_takeUntil? hd
    rw [Cursor.length_skip] at this
    simp at this
    omega
  · cases h

theorem readValue_length_le {c d : Cursor} {value : List Char}
    (h : readValue c = .ok (value, d)) : d.rest.length ≤ c.rest.length := by
  unfold readValue at h
  split at h
  · split at h
    · split at h
      · next value' d' hd =>
        obtain ⟨_, rfl⟩ := Prod.mk.inj (Except.ok.inj h)
        have := Cursor.length_of_takeUntil? hd
        rw [Cursor.length_skip] at this
        omega
      · cases h
    · obtain ⟨_, rfl⟩ := Prod.mk.inj (Except.ok.inj h)
      exact Cursor.length_takeWhile_le _ _
  · obtain ⟨_, rfl⟩ := Prod.mk.inj (Except.ok.inj h)
    exact Nat.le_refl _

theorem attributeName_length_pos {s : List Char} (h : s ≠ []) :
    0 < (attributeName s).length := by
  cases s with
  | nil => exact absurd rfl h
  | cons c r => simp [attributeName]

theorem readEntry_shorter {c d : Cursor} {e : Entry} (hc : c.rest ≠ [])
    (h : readEntry c = .ok (e, d)) : d.rest.length < c.rest.length := by
  have hname := attributeName_length_pos hc
  have hpos := List.length_pos_iff.2 hc
  unfold readEntry at h
  simp only at h
  split at h
  · split at h
    · next value d' hd =>
      obtain ⟨_, rfl⟩ := Prod.mk.inj (Except.ok.inj h)
      have h1 := readValue_length_le hd
      have h2 := Cursor.length_skipWhile_le
        (((c.skip (attributeName c.rest).length).skipWhile isTagBlank).skip 1) isTagBlank
      have h3 := Cursor.length_skipWhile_le (c.skip (attributeName c.rest).length) isTagBlank
      rw [Cursor.length_skip] at h2 h3
      omega
    · cases h
  · obtain ⟨_, rfl⟩ := Prod.mk.inj (Except.ok.inj h)
    rw [Cursor.length_skip]
    omega

/-! ## §6. Start tags -/

/-- What stands behind the name of a start tag. -/
structure TagBody where
  entries : List Entry
  selfClosing : Bool
deriving DecidableEq, Repr

theorem skip_shorter {c : Cursor} {p : Char → Bool} {x : Char} {r : List Char}
    (h : (c.skipWhile p).rest = x :: r) (n : Nat) :
    ((c.skipWhile p).skip (n + 1)).rest.length < c.rest.length := by
  have h1 := Cursor.length_skipWhile_le c p
  rw [Cursor.length_skip]
  simp only [h, List.length_cons] at h1 ⊢
  omega

theorem readEntry_skipWhile_shorter {c d : Cursor} {p : Char → Bool} {x : Char} {r : List Char}
    {e : Entry} (h : (c.skipWhile p).rest = x :: r)
    (he : readEntry (c.skipWhile p) = .ok (e, d)) : d.rest.length < c.rest.length :=
  Nat.lt_of_lt_of_le (readEntry_shorter (by rw [h]; simp) he) (Cursor.length_skipWhile_le c p)

/-- Reads what stands behind the name of a start tag, up to its end.  A slash
    that does not end the tag is passed over; `none` says that the text ends
    before the tag does. -/
def readTagBody (c : Cursor) : Except Error (Option (TagBody × Cursor)) :=
  match hd : (c.skipWhile isTagBlank).rest with
  | [] => .ok none
  | '>' :: _ => .ok (some (⟨[], false⟩, (c.skipWhile isTagBlank).skip 1))
  | '/' :: '>' :: _ => .ok (some (⟨[], true⟩, (c.skipWhile isTagBlank).skip 2))
  | '/' :: _ =>
    have := skip_shorter hd 0
    readTagBody ((c.skipWhile isTagBlank).skip 1)
  | _ :: _ =>
    match he : readEntry (c.skipWhile isTagBlank) with
    | .error e => .error e
    | .ok (entry, next) =>
      have := readEntry_skipWhile_shorter hd he
      match readTagBody next with
      | .error e => .error e
      | .ok none => .ok none
      | .ok (some (body, stop)) => .ok (some (⟨entry :: body.entries, body.selfClosing⟩, stop))
termination_by c.rest.length

/-- Reads a start tag. -/
def readOpenTag (c : Cursor) : Outcome OpenTag :=
  let (name, behind) := (c.skip 1).takeWhile isTagNamePart
  let name := String.ofList name
  match readTagBody behind with
  | .error e => .error e
  | .ok none => .error ⟨.unterminatedStartTag name, c.offset⟩
  | .ok (some (body, d)) =>
    .ok (⟨name, c.offset, behind.offset, body.entries, body.selfClosing⟩, d)

theorem readTagBody_shorter {c d : Cursor} {b : TagBody}
    (h : readTagBody c = .ok (some (b, d))) : d.rest.length < c.rest.length := by
  induction hn : c.rest.length using Nat.strongRecOn generalizing c b with
  | ind n ih =>
    subst hn
    rw [readTagBody] at h
    split at h
    · simp at h
    · next hd =>
      obtain ⟨_, rfl⟩ := Prod.mk.inj (Option.some.inj (Except.ok.inj h))
      exact skip_shorter hd 0
    · next hd =>
      obtain ⟨_, rfl⟩ := Prod.mk.inj (Option.some.inj (Except.ok.inj h))
      exact skip_shorter hd 1
    · next hd => exact Nat.lt_trans (ih _ (skip_shorter hd 0) h rfl) (skip_shorter hd 0)
    · next hd =>
      split at h
      · cases h
      · next entry next he =>
        have h1 := readEntry_skipWhile_shorter hd he
        split at h
        · cases h
        · simp at h
        · next body stop hs =>
          obtain ⟨_, rfl⟩ := Prod.mk.inj (Option.some.inj (Except.ok.inj h))
          exact Nat.lt_trans (ih _ h1 hs rfl) h1

theorem readOpenTag_shorter {c d : Cursor} {t : OpenTag} (h : readOpenTag c = .ok (t, d)) :
    d.rest.length < c.rest.length := by
  unfold readOpenTag at h
  simp only at h
  split at h
  · cases h
  · cases h
  · next body e he =>
    obtain ⟨_, rfl⟩ := Prod.mk.inj (Except.ok.inj h)
    have h1 := readTagBody_shorter he
    have h2 := Cursor.length_takeWhile_le (c.skip 1) isTagNamePart
    rw [Cursor.length_skip] at h2
    omega

/-! ## §7. Raw text -/

/-- Whether a tag name can end before these characters. -/
def endsTagName (s : List Char) : Bool :=
  match s with
  | [] => true
  | c :: _ => c = '>' || c = '/' || isTagBlank c

/-- Splits a text before the first end tag of a name in lower case.  A place
    where a longer name stands is passed over; `skip` counts its characters. -/
def splitBeforeClose? (needle : List Char) : Nat → List Char → Option (List Char × List Char)
  | _, [] => none
  | skip + 1, c :: r =>
    (splitBeforeClose? needle skip r).map fun parts => (c :: parts.1, parts.2)
  | 0, c :: r =>
    if needle.isPrefixOf (lowered (c :: r)) then
      if endsTagName ((c :: r).drop needle.length) then some ([], c :: r)
      else
        (splitBeforeClose? needle (needle.length - 1) r).map fun parts =>
          (c :: parts.1, parts.2)
    else (splitBeforeClose? needle 0 r).map fun parts => (c :: parts.1, parts.2)

/-- The text before the end tag of a name, and the cursor at that end tag. -/
def findCloseTag? (c : Cursor) (name : List Char) : Option (List Char × Cursor) :=
  (splitBeforeClose? ('<' :: '/' :: lowered name) 0 c.rest).map fun parts =>
    (parts.1, c.past parts.1 parts.2)

/-- Reads raw text and the end tag behind it. -/
def readRawText (tag : OpenTag) (c : Cursor) : Outcome (List Char) :=
  match findCloseTag? c tag.name.toList with
  | none => .error ⟨.missingEndTag tag.name, tag.start⟩
  | some (content, close) =>
    match readCloseTag close with
    | .error e => .error e
    | .ok (_, d) => .ok (content, d)

theorem splitBeforeClose?_length_le {needle s a b : List Char} {skip : Nat}
    (h : splitBeforeClose? needle skip s = some (a, b)) : b.length ≤ s.length := by
  induction s generalizing skip a b with
  | nil => simp [splitBeforeClose?] at h
  | cons c r ih =>
    have step {n : Nat}
        (h : (splitBeforeClose? needle n r).map (fun parts => (c :: parts.1, parts.2)) =
          some (a, b)) : b.length ≤ (c :: r).length := by
      obtain ⟨⟨x, y⟩, hxy, heq⟩ := Option.map_eq_some_iff.1 h
      obtain ⟨_, rfl⟩ := Prod.mk.inj heq
      exact Nat.le_succ_of_le (ih hxy)
    cases skip with
    | succ n => exact step (by simpa [splitBeforeClose?] using h)
    | zero =>
      rw [splitBeforeClose?] at h
      split at h
      · split at h
        · obtain ⟨_, rfl⟩ := Prod.mk.inj (Option.some.inj h)
          exact Nat.le_refl _
        · exact step h
      · exact step h

theorem readRawText_shorter {tag : OpenTag} {c d : Cursor} {content : List Char}
    (h : readRawText tag c = .ok (content, d)) : d.rest.length < c.rest.length := by
  unfold readRawText at h
  split at h
  · cases h
  · next content' close hclose =>
    split at h
    · cases h
    · next t e he =>
      obtain ⟨_, rfl⟩ := Prod.mk.inj (Except.ok.inj h)
      obtain ⟨⟨x, y⟩, hxy, heq⟩ := Option.map_eq_some_iff.1 hclose
      obtain ⟨_, rfl⟩ := Prod.mk.inj heq
      exact Nat.lt_of_lt_of_le (readCloseTag_shorter he) (splitBeforeClose?_length_le hxy)

/-! ## §8. The next token -/

/-- The characters up to where a text ends; the first is taken whatever it is. -/
def textRun : List Char → List Char
  | [] => []
  | c :: r => c :: more r
where
  /-- The characters of a text behind its first one. -/
  more : List Char → List Char
    | [] => []
    | c :: r => if endsText (c :: r) then [] else c :: more r

/-- Reads an element's start tag, with its content if that is raw text. -/
def readElement (c : Cursor) : Outcome Token :=
  match readOpenTag c with
  | .error e => .error e
  | .ok (tag, d) =>
    if tag.isRawText then
      match readRawText tag d with
      | .error e => .error e
      | .ok (content, stop) =>
        .ok (.rawElement tag (String.ofList content) d.offset stop.offset, stop)
    else .ok (.openTag tag d.offset, d)

/-- Reads an interpolation, if one begins here. -/
def readInterpolation? (c : Cursor) : Option (Token × Cursor) :=
  match c.rest with
  | '{' :: '{' :: _ =>
    ((c.skip 2).takeUntil? ['}', '}']).map fun (content, d) =>
      (.interpolation (String.ofList (Text.trim content)) c.offset, d)
  | _ => none

/-- The next token of a text that is not at its end. -/
def next (c : Cursor) : Outcome Token :=
  if startsComment c.rest then readComment c
  else if startsCloseTag c.rest then
    match readCloseTag c with
    | .error e => .error e
    | .ok (tag, d) => .ok (.closeTag tag, d)
  else if startsDeclaration c.rest then readDeclaration c
  else if startsOpenTag c.rest then readElement c
  else
    match readInterpolation? c with
    | some token => .ok token
    | none =>
      let content := textRun c.rest
      .ok (.text (String.ofList content) c.offset, c.skip content.length)

theorem readElement_shorter {c d : Cursor} {t : Token} (h : readElement c = .ok (t, d)) :
    d.rest.length < c.rest.length := by
  unfold readElement at h
  split at h
  · cases h
  · next tag e he =>
    have h1 := readOpenTag_shorter he
    split at h
    · split at h
      · cases h
      · next content stop hs =>
        obtain ⟨_, rfl⟩ := Prod.mk.inj (Except.ok.inj h)
        have h2 := readRawText_shorter hs
        omega
    · obtain ⟨_, rfl⟩ := Prod.mk.inj (Except.ok.inj h)
      exact h1

theorem readInterpolation?_shorter {c d : Cursor} {t : Token}
    (h : readInterpolation? c = some (t, d)) : d.rest.length < c.rest.length := by
  unfold readInterpolation? at h
  split at h
  · obtain ⟨⟨content, e⟩, he, heq⟩ := Option.map_eq_some_iff.1 h
    obtain ⟨_, rfl⟩ := Prod.mk.inj heq
    have := Cursor.length_of_takeUntil? he
    rw [Cursor.length_skip] at this
    simp at this
    omega
  · cases h

theorem textRun_length_pos {s : List Char} (h : s ≠ []) : 0 < (textRun s).length := by
  cases s with
  | nil => exact absurd rfl h
  | cons c r => simp [textRun]

theorem next_shorter {c d : Cursor} {t : Token} (hc : c.rest ≠ []) (h : next c = .ok (t, d)) :
    d.rest.length < c.rest.length := by
  unfold next at h
  split at h
  · exact readComment_shorter h
  · split at h
    · split at h
      · cases h
      · next tag e he =>
        obtain ⟨_, rfl⟩ := Prod.mk.inj (Except.ok.inj h)
        exact readCloseTag_shorter he
    · split at h
      · exact readDeclaration_shorter h
      · split at h
        · exact readElement_shorter h
        · split at h
          · next token ht =>
            cases Except.ok.inj h
            exact readInterpolation?_shorter ht
          · obtain ⟨_, rfl⟩ := Prod.mk.inj (Except.ok.inj h)
            have h1 := textRun_length_pos hc
            have h2 := List.length_pos_iff.2 hc
            rw [Cursor.length_skip]
            omega

/-! ## §9. All tokens -/

/-- The tokens of a text, and the error that stops them if there is one. -/
structure TokenRun where
  tokens : List Token
  error : Option Error
  /-- The offset at which the text ends. -/
  stop : Nat
deriving DecidableEq, Repr

/-- The tokens from a cursor on. -/
def tokensFrom (c : Cursor) : TokenRun :=
  if hc : c.rest = [] then ⟨[], none, c.offset⟩
  else
    match hn : next c with
    | .error e => ⟨[], some e, c.offset⟩
    | .ok (token, d) =>
      have := next_shorter hc hn
      let run := tokensFrom d
      { run with tokens := token :: run.tokens }
termination_by c.rest.length

end Provenance.Template
