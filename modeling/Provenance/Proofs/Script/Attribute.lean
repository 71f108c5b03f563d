import Provenance.Annotation.Markup
import Provenance.Proofs.Annotation.SecondPass
import Provenance.Proofs.Script.Gap
import Provenance.Proofs.Text.Cursor
import Provenance.Proofs.Text.Letter

/-! # Reading an attribute

  What the parser does with an attribute that has a plain name and a value in
  quotes, wherever it meets one: the value ends at the first quote of its kind, and
  nothing in front of that quote is looked at (`attribute_step`).
-/

namespace Provenance.Script

open Text (Cursor byteSize isIdentifierStart isIdentifierPart isLineEnd isScriptBlank
  isAlpha_iff toNat_of_isDigit toNat_lt_of_isAlphanum)
open Template (IsPlainPrefix isPlainPart)

/-! ## §1. Plain names -/

theorem isDigit_of_isAlpha {c : Char} (h : c.isAlpha = true) : c.isDigit = false := by
  rw [← Bool.not_eq_true]
  intro hdigit
  have halpha := isAlpha_iff.1 h
  have hdigit := toNat_of_isDigit hdigit
  omega

theorem isIdentifierPart_of_isAlphanum {c : Char} (h : c.isAlphanum = true) :
    isIdentifierPart c = true := by
  have hlt : c.toNat < 0x80 := toNat_lt_of_isAlphanum h
  rw [isIdentifierPart, if_pos hlt, h]
  rfl

theorem isIdentifierStart_of_isAlpha {c : Char} (h : c.isAlpha = true) :
    isIdentifierStart c = true := by
  have hlt : c.toNat < 0x80 := by
    have := isAlpha_iff.1 h
    omega
  rw [isIdentifierStart, if_pos hlt, h]
  rfl

/-- Neither a blank nor the beginning of a comment is a letter. -/
theorem no_gap_of_isAlpha {c : Char} (h : c.isAlpha = true) :
    isLineEnd c = false ∧ isScriptBlank c = false ∧ c ≠ '/' := by
  refine ⟨?_, ?_, ?_⟩
  · rw [← Bool.not_eq_true]
    intro hline
    simp only [isLineEnd, Bool.or_eq_true, decide_eq_true_eq] at hline
    rcases hline with ((rfl | rfl) | rfl) | rfl <;> exact absurd h (by decide)
  · have halpha := isAlpha_iff.1 h
    rw [← Bool.not_eq_true]
    intro hblank
    simp only [isScriptBlank, Bool.or_eq_true, Bool.and_eq_true, decide_eq_true_eq] at hblank
    omega
  · rintro rfl
    exact absurd h (by decide)

/-- A plain name is a word with parts that begin with a hyphen behind it. -/
theorem plain_eq_append {name : List Char} (h : IsPlainPrefix name) :
    ∃ x word tail, name = x :: (word ++ tail) ∧ x.isAlpha = true ∧
      (∀ y ∈ word, y.isAlphanum = true) ∧ (∀ y ∈ tail, isPlainPart y = true) ∧
      (tail = [] ∨ tail.head? = some '-') := by
  obtain ⟨x, r, rfl, hx⟩ := h.head
  have hr : ∀ y ∈ r, isPlainPart y = true := fun y hy =>
    List.all_eq_true.1 h.part y (List.mem_cons_of_mem x hy)
  refine ⟨x, r.takeWhile Char.isAlphanum, r.dropWhile Char.isAlphanum,
    by rw [List.takeWhile_append_dropWhile], hx, List.all_eq_true.1 List.all_takeWhile,
    fun y hy => hr y ((List.dropWhile_sublist _).subset hy), ?_⟩
  cases htail : r.dropWhile Char.isAlphanum with
  | nil => exact .inl rfl
  | cons y t =>
    have hy : y.isAlphanum = false := by
      have := List.head_dropWhile_not (p := Char.isAlphanum) (l := r) (by simp [htail])
      simpa [htail] using this
    have hmem : y ∈ r := (List.dropWhile_sublist Char.isAlphanum).subset (htail ▸ List.mem_cons_self)
    have hpart := hr y hmem
    rw [isPlainPart, hy, Bool.false_or, decide_eq_true_eq] at hpart
    exact .inr (by rw [hpart]; rfl)

/-! ## §2. Tokens -/

theorem nameChars_run {word r name : List Char} {stop : Char} {fuel : Nat} (escaped : Bool)
    (hword : ∀ y ∈ word, y.isAlphanum = true) (hstop : isIdentifierPart stop = false)
    (hslash : stop ≠ '\\') (hname : name.isEmpty = false) (hfuel : word.length < fuel) :
    nameChars fuel name escaped (word ++ stop :: r) =
      some (word.reverse ++ name, escaped, stop :: r) := by
  induction word generalizing name fuel with
  | nil =>
    obtain ⟨n, rfl⟩ := Nat.exists_eq_add_of_lt hfuel
    rw [List.length_nil, Nat.zero_add, List.nil_append, nameChars, hname, hstop]
    · rfl
    · exact fun _ h => absurd h hslash
    · exact fun h => absurd h hslash
  | cons x word ih =>
    have hx := hword x List.mem_cons_self
    have hne : x ≠ '\\' := by
      rintro rfl
      exact absurd hx (by decide)
    obtain ⟨n, rfl⟩ := Nat.exists_eq_add_of_lt hfuel
    rw [List.cons_append, nameChars, hname]
    · simp only [Bool.false_eq_true, if_false, isIdentifierPart_of_isAlphanum hx, if_true]
      have hfuel' : word.length < (x :: word).length + n := by
        rw [List.length_cons]
        omega
      rw [ih (fun y hy => hword y (List.mem_cons_of_mem x hy)) rfl hfuel', List.reverse_cons,
        List.append_assoc]
      rfl
    · exact fun _ h => absurd h hne
    · exact fun h => absurd h hne

theorem name?_run {x : Char} {word r : List Char} {stop : Char} (hx : x.isAlpha = true)
    (hword : ∀ y ∈ word, y.isAlphanum = true) (hstop : isIdentifierPart stop = false)
    (hslash : stop ≠ '\\') :
    name? (x :: (word ++ stop :: r)) = some (x :: word, false, stop :: r) := by
  have hne : x ≠ '\\' := by
    rintro rfl
    exact absurd hx (by decide)
  rw [name?, nameChars]
  · simp only [List.isEmpty_nil, if_true, isIdentifierStart_of_isAlpha hx]
    have hfuel : word.length < (x :: (word ++ stop :: r)).length := by
      rw [List.length_cons, List.length_append]
      omega
    rw [nameChars_run false hword hstop hslash rfl hfuel]
    simp
  · exact fun _ h => absurd h hne
  · exact fun h => absurd h hne

theorem behind_append {c : Cursor} {w rest : List Char} (h : c.rest = w ++ rest) :
    behind c rest = ⟨c.offset + byteSize w, rest⟩ := by
  rw [behind, h, List.length_append, Nat.add_sub_cancel, List.take_left, Cursor.past]

/-- A token that is taken from a cursor. -/
theorem tokenTo_append {c : Cursor} {w rest : List Char} (h : c.rest = w ++ rest)
    (token : Token) :
    tokenTo c rest token =
      ({ token with start := c.offset, stop := c.offset + byteSize w },
        ⟨c.offset + byteSize w, rest⟩) := by
  rw [tokenTo, behind_append h]

theorem token?_word {o : Nat} {x : Char} {word r : List Char} {stop : Char} (lineBefore : Bool)
    (hx : x.isAlpha = true) (hword : ∀ y ∈ word, y.isAlphanum = true)
    (hstop : isIdentifierPart stop = false) (hslash : stop ≠ '\\') :
    token? ⟨o, x :: (word ++ stop :: r)⟩ lineBefore =
      some ({ kind := .word, text := String.ofList (x :: word), start := o,
              stop := o + byteSize (x :: word), lineBefore },
        ⟨o + byteSize (x :: word), stop :: r⟩) := by
  have hstart := isIdentifierStart_of_isAlpha hx
  have hdigit := isDigit_of_isAlpha hx
  unfold token?
  split
  · next h => cases h
  · next h =>
    obtain ⟨rfl, -⟩ := List.cons.inj h
    exact absurd hx (by decide)
  · next h =>
    obtain ⟨rfl, -⟩ := List.cons.inj h
    exact absurd hx (by decide)
  · next first rest _ _ h =>
    obtain ⟨rfl, rfl⟩ := List.cons.inj h
    have hquote : ¬ (x = '"' ∨ x = '\'') := by
      rintro (rfl | rfl) <;> exact absurd hx (by decide)
    have hdot : x ≠ '.' := by
      rintro rfl
      exact absurd hx (by decide)
    simp only [Bool.or_eq_true, decide_eq_true_eq, hquote, if_false, hdigit, hdot, hstart,
      decide_false, Bool.false_and, Bool.or_false, Bool.false_eq_true, true_or, if_true,
      name?_run hx hword hstop hslash]
    show some (tokenTo _ (stop :: r) _) = _
    rw [tokenTo_append (w := x :: word) rfl]

/-! ## §3. Lexemes -/

/-- At most one blank stands in front of what is read, which is no blank and begins
    no comment. -/
theorem lexemeBy?_eq {read : Cursor → Bool → Option (Token × Cursor)} {c after : Cursor}
    {previous token : Token} {blank r : List Char} {x : Char}
    (hblank : blank = [] ∨ blank = [' ']) (hrest : c.rest = blank ++ x :: r)
    (hline : isLineEnd x = false) (hx : isScriptBlank x = false)
    (hcomment : x = '/' → r.head? ≠ some '/' ∧ r.head? ≠ some '*')
    (hread : read ⟨c.offset + blank.length, x :: r⟩ (previous.kind = .eof) = some (token, after)) :
    lexemeBy? read c previous =
      some ⟨{ token with notes := [] }, ⟨c.offset + blank.length, x :: r⟩, after, []⟩ := by
  have hstop : ∀ afterOpening offset gap,
      readGap afterOpening offset gap false .blank (x :: r) =
        some (gap, false, ⟨offset, x :: r⟩) :=
    fun _ _ _ => readGap_stop ⟨hline, hx, hcomment⟩ _ _ _ _
  have hgap : ∀ afterOpening gap,
      readGap afterOpening c.offset gap false .blank c.rest =
        some (gap, false, ⟨c.offset + blank.length, x :: r⟩) := by
    intro afterOpening gap
    rw [hrest]
    rcases hblank with rfl | rfl
    · exact hstop _ _ _
    · show readGap afterOpening c.offset gap false .blank (' ' :: x :: r) = _
      rw [readGap, if_neg (by decide), if_pos (by decide)]
      · exact hstop _ _ _
      · exact fun _ h => absurd h (by decide)
      · exact fun _ h => absurd h (by decide)
  unfold lexemeBy?
  simp only [hgap, Option.bind_eq_bind, Option.bind_some, Bool.or_false, hread]
  rfl

theorem token?_equals {o : Nat} {quote : Char} (r : List Char) (lineBefore : Bool)
    (hquote : quote = '"' ∨ quote = '\'') :
    token? ⟨o, '=' :: quote :: r⟩ lineBefore =
      some ({ kind := .punctuator, text := "=", start := o, stop := o + 1, lineBefore },
        ⟨o + 1, quote :: r⟩) := by
  have hmark : punctuator? ('=' :: quote :: r) = some (['='], quote :: r) := by
    rcases hquote with rfl | rfl <;> rfl
  show (punctuator? ('=' :: quote :: r)).bind _ = _
  rw [hmark]
  show some (tokenTo _ (quote :: r) _) = _
  rw [tokenTo_append (w := ['=']) rfl]
  rfl

theorem lexeme?_name {c : Cursor} {name r : List Char} (previous : Token)
    (hrest : c.rest = ' ' :: (name ++ '=' :: r)) (hname : IsPlainPrefix name) :
    ∃ lexeme tail, lexeme? c previous = some lexeme ∧ lexeme.token.kind = .word ∧
      lexeme.here.rest = name ++ '=' :: r ∧ lexeme.after.rest = tail ++ '=' :: r ∧
      (∀ y ∈ tail, isPlainPart y = true) ∧ (tail = [] ∨ tail.head? = some '-') := by
  obtain ⟨x, word, tail, rfl, hx, hword, htail, hhead⟩ := plain_eq_append hname
  obtain ⟨hline, hblank, hslash⟩ := no_gap_of_isAlpha hx
  -- behind the word comes a hyphen or the mark
  obtain ⟨stop, rest, hstop, hmark, hescape⟩ : ∃ stop rest, tail ++ '=' :: r = stop :: rest ∧
      isIdentifierPart stop = false ∧ stop ≠ '\\' := by
    cases tail with
    | nil => exact ⟨'=', r, rfl, by decide, by decide⟩
    | cons y tail =>
      obtain rfl : y = '-' := by
        rcases hhead with h | h
        · cases h
        · exact Option.some.inj h
      exact ⟨'-', tail ++ '=' :: r, rfl, by decide, by decide⟩
  have hsplit : x :: (word ++ tail) ++ '=' :: r = x :: (word ++ stop :: rest) := by
    rw [← hstop, List.cons_append, List.append_assoc]
  rw [hsplit] at hrest ⊢
  exact ⟨_, tail, lexemeBy?_eq (.inr rfl) hrest hline hblank (fun h => absurd h hslash)
    (token?_word _ hx hword hmark hescape), rfl, rfl, hstop.symm, htail, hhead⟩

theorem lexeme?_equals {c : Cursor} {quote : Char} {r : List Char} (previous : Token)
    (hrest : c.rest = '=' :: quote :: r) (hquote : quote = '"' ∨ quote = '\'') :
    ∃ lexeme, lexeme? c previous = some lexeme ∧
      (∃ start stop lineBefore,
        lexeme.token = { kind := .punctuator, text := "=", start, stop, lineBefore }) ∧
      lexeme.after.rest = quote :: r :=
  ⟨_, lexemeBy?_eq (.inl rfl) hrest (by decide) (by decide) (fun h => absurd h (by decide))
    (token?_equals r _ hquote), ⟨_, _, _, rfl⟩, rfl⟩

theorem attributeToken?_quoted {o : Nat} {quote : Char} {value : List Char} (r : List Char)
    (lineBefore : Bool) (hquote : quote = '"' ∨ quote = '\'') (hvalue : quote ∉ value) :
    attributeToken? ⟨o, quote :: (value ++ quote :: r)⟩ lineBefore =
      some ({ kind := .string, text := String.ofList value, start := o,
              stop := o + byteSize (quote :: (value ++ [quote])), lineBefore },
        ⟨o + byteSize (quote :: (value ++ [quote])), r⟩) := by
  have hstop : ∀ y ∈ (quote :: r).head?, y = quote := by simp
  have htake : (value ++ quote :: r).takeWhile (· ≠ quote) = value :=
    Text.takeWhile_ne_run hvalue hstop
  have hdrop : (value ++ quote :: r).dropWhile (· ≠ quote) = quote :: r :=
    Text.dropWhile_ne_run hvalue hstop
  have hquotes : (decide (quote = '"') || decide (quote = '\'')) = true := by
    simpa using hquote
  unfold attributeToken?
  simp only [hquotes, if_true, hdrop, htake]
  rw [tokenTo_append (w := quote :: (value ++ [quote])) (by simp)]

theorem lexemeBy?_quoted {c : Cursor} {quote : Char} {value rest : List Char} (previous : Token)
    (hrest : c.rest = quote :: (value ++ quote :: rest)) (hquote : quote = '"' ∨ quote = '\'')
    (hvalue : quote ∉ value) :
    ∃ lexeme, lexemeBy? attributeToken? c previous = some lexeme ∧ lexeme.token.kind = .string ∧
      lexeme.token.text = String.ofList value ∧ lexeme.after.rest = rest := by
  have hplain : isLineEnd quote = false ∧ isScriptBlank quote = false ∧ quote ≠ '/' := by
    rcases hquote with rfl | rfl <;> decide
  exact ⟨_, lexemeBy?_eq (.inl rfl) hrest hplain.1 hplain.2.1 (fun h => absurd h hplain.2.2)
    (attributeToken?_quoted rest _ hquote hvalue), rfl, rfl, rfl⟩

namespace Parse

/-! ## §4. Steps of the parser -/

variable {s s' : ParseState}

theorem bind_eq {α β : Type} {p : Parse α} {f : α → Parse β} {a : α} {t : ParseState}
    (h : p s = some (a, t)) : (p >>= f) s = f a t := by
  show (p s).bind _ = _
  rw [h]
  rfl

section

variable {α : Type} (s : ParseState)

theorem get_bind (f : ParseState → Parse α) : (get >>= f) s = f s s := rfl

theorem token_bind (f : Token → Parse α) : (token >>= f) s = f s.token s := rfl

theorem start_bind (f : Nat → Parse α) : (start >>= f) s = f s.token.start s := rfl

theorem context_bind (f : Context → Parse α) : (context >>= f) s = f s.context s := rfl

theorem language_bind (f : Language → Parse α) : (language >>= f) s = f s.language s := rfl

theorem atMark_bind (text : String) (f : Bool → Parse α) :
    (atMark text >>= f) s = f (s.token.isMark text) s := rfl

theorem atKind_bind (kind : TokenKind) (f : Bool → Parse α) :
    (atKind kind >>= f) s = f (s.token.kind == kind) s := rfl

end

theorem exists_of_bind {α β : Type} {p : Parse α} {f : α → Parse β} {r : β × ParseState}
    (h : (p >>= f) s = some r) : ∃ a t, p s = some (a, t) ∧ f a t = some r := by
  obtain ⟨⟨a, t⟩, ha, hr⟩ := Option.bind_eq_some_iff.1 (show (p s).bind _ = some r from h)
  exact ⟨a, t, ha, hr⟩

/-- The state behind the current token, at the next one. -/
def next (s : ParseState) (lexeme : Lexeme) : ParseState :=
  { s with previousStop := s.token.stop, token := lexeme.token, here := lexeme.here,
           after := lexeme.after, comments := lexeme.comments.reverse ++ s.comments }

theorem advance_eq {lexeme : Lexeme} (h : lexeme? s.after s.token = some lexeme) :
    advance s = some ((), next s lexeme) := by
  unfold advance
  rw [get_bind, bind_eq (t := s) (a := lexeme)]
  · rfl
  · rw [h]
    rfl

theorem atMark_eq (s : ParseState) (text : String) : atMark text s = some (s.token.isMark text, s) :=
  rfl

theorem atKind_eq (s : ParseState) (kind : TokenKind) :
    atKind kind s = some (s.token.kind == kind, s) :=
  rfl

theorem eatMark_of_not {text : String} (h : s.token.isMark text = false) :
    eatMark text s = some (false, s) := by
  unfold eatMark
  rw [bind_eq (a := false) (t := s) (by rw [← h]; rfl)]
  rfl

theorem leaf_eq {form : Form} {lexeme : Lexeme} (h : lexeme? s.after s.token = some lexeme) :
    leaf form s = some (.node ⟨s.token.start, s.token.stop⟩ form [], next s lexeme) := by
  unfold leaf
  rw [token_bind, bind_eq (advance_eq h)]
  rfl

/-- The mark behind the name of an attribute is met. -/
structure AtEquals (s : ParseState) (rest : List Char) : Prop where
  token : ∃ start stop lineBefore,
    s.token = { kind := .punctuator, text := "=", start, stop, lineBefore }
  after : s.after.rest = rest

/-- A plain name is read as it stands, whatever hyphens are in it. -/
theorem namePart_eq {tail name r : List Char} {quote : Char} (hkind : s.token.kind = .word)
    (hhere : s.here.rest = name ++ '=' :: quote :: r)
    (hafter : s.after.rest = tail ++ '=' :: quote :: r)
    (htail : ∀ y ∈ tail, isPlainPart y = true) (hhead : tail = [] ∨ tail.head? = some '-')
    (hquote : quote = '"' ∨ quote = '\'') :
    ∃ span s', namePart s = some (.node span (.markupName (String.ofList name)) [], s') ∧
      AtEquals s' (quote :: r) := by
  have hrest : nameTail s.after.rest = '=' :: quote :: r := by
    rw [hafter]
    cases tail with
    | nil => rfl
    | cons y tail =>
      obtain rfl : y = '-' := by
        rcases hhead with h | h
        · cases h
        · exact Option.some.inj h
      have hparts : ∀ z ∈ tail, (decide (z = '-') || isIdentifierPart z) = true := by
        intro z hz
        have hplain := htail z (List.mem_cons_of_mem _ hz)
        rw [isPlainPart, Bool.or_eq_true] at hplain
        rcases hplain with hz | hz
        · rw [isIdentifierPart_of_isAlphanum hz, Bool.or_true]
        · rw [hz, Bool.true_or]
      show (tail ++ '=' :: quote :: r).dropWhile _ = _
      rw [List.dropWhile_append_of_pos hparts, List.dropWhile_cons_of_neg (by decide)]
  have hrelexed := tokenTo_append (w := name) hhere s.token
  have hwritten : ∀ t : ParseState, t.here = s.here → t.token.start = s.here.offset →
      t.token.stop = s.here.offset + byteSize name →
      writtenText t = some (String.ofList name, t) := by
    intro t hthere hstart hstop
    unfold writtenText
    rw [bind_eq (t := t) (a := t) rfl, hstart, hstop, Nat.add_sub_cancel_left, hthere, hhere,
      Text.cut?_append]
    rfl
  unfold namePart
  rw [get_bind, hrest, hrelexed, hkind]
  rw [bind_eq (t := s) (a := ()) rfl]
  -- the token is read anew as the whole name, and behind it comes the mark
  let named : ParseState :=
    { s with
      token := { s.token with
        kind := .word, start := s.here.offset, stop := s.here.offset + byteSize name }
      after := ⟨s.here.offset + byteSize name, '=' :: quote :: r⟩ }
  obtain ⟨lexeme, hlexeme, htoken, hbehind⟩ :=
    lexeme?_equals (c := named.after) named.token rfl hquote
  refine ⟨⟨s.here.offset, s.here.offset + byteSize name⟩, next named lexeme, ?_, htoken, hbehind⟩
  show (relex _ _ >>= fun _ => writtenText >>= fun text => leaf (.markupName text)) s = _
  rw [bind_eq (t := named) (a := ()) rfl, bind_eq (hwritten named rfl rfl rfl)]
  exact leaf_eq hlexeme

/-- A word stands where the state is, which is the beginning of a plain name. -/
structure AtName (s : ParseState) (name rest : List Char) : Prop where
  kind : s.token.kind = .word
  here : s.here.rest = name ++ rest
  after : ∃ tail, s.after.rest = tail ++ rest ∧ (∀ y ∈ tail, isPlainPart y = true) ∧
    (tail = [] ∨ tail.head? = some '-')

theorem attributeName_eq {name r : List Char} {quote : Char}
    (h : AtName s name ('=' :: quote :: r)) (hquote : quote = '"' ∨ quote = '\'') :
    ∃ span s', attributeName s = some (.node span (.markupName (String.ofList name)) [], s') ∧
      AtEquals s' (quote :: r) := by
  obtain ⟨tail, hafter, htail, hhead⟩ := h.after
  obtain ⟨span, s', hname, hequals⟩ := namePart_eq h.kind h.here hafter htail hhead hquote
  refine ⟨span, s', ?_, hequals⟩
  obtain ⟨start, stop, lineBefore, htoken⟩ := hequals.token
  unfold attributeName
  rw [start_bind, bind_eq hname,
    bind_eq (eatMark_of_not (by rw [htoken]; rfl))]
  rfl

/-- Reading the value takes its quotes and moves on. -/
theorem attributeValue_eq (g : Grammar) {value rest : List Char} {quote : Char}
    (h : AtEquals s (quote :: (value ++ quote :: rest))) (hquote : quote = '"' ∨ quote = '\'')
    (hvalue : quote ∉ value) :
    ∃ span s', attributeValue g s =
        (advance >>= fun _ => pure (.node span (.attributeText (String.ofList value)) [])) s' ∧
      s'.after.rest = rest := by
  obtain ⟨lexeme, hlexeme, hkind, htext, hafter⟩ := lexemeBy?_quoted s.token h.after hquote hvalue
  refine ⟨⟨lexeme.token.start, lexeme.token.stop⟩, next s lexeme, ?_, hafter⟩
  unfold attributeValue
  rw [get_bind, bind_eq (t := s) (by rw [hlexeme]; rfl),
    bind_eq (t := { s with previousStop := s.token.stop }) (a := ()) rfl,
    bind_eq (t := next s lexeme) (a := ()) rfl, bind_eq (t := next s lexeme) rfl,
    bind_eq (t := next s lexeme) (a := true) (by rw [atKind_eq]; simp [next, hkind])]
  rw [if_pos rfl, htext]
  rfl

theorem advance_eq_none (h : lexeme? s.after s.token = none) : advance s = none := by
  unfold advance
  rw [get_bind, h]
  rfl

end Parse

/-- The name and the value of an attribute whose value is in quotes. -/
def stringAttribute? : Tree → Option (String × String)
  | .node _ .markupAttribute [name, .node _ (.attributeText value) _] =>
    some (nameText name, value)
  | _ => none

namespace Parse

/-- An attribute in quotes is read whatever the grammar is. -/
theorem tagAttribute_eq (g : Grammar) {name value rest : List Char} {quote : Char}
    (h : AtName s name ('=' :: quote :: (value ++ quote :: rest)))
    (hquote : quote = '"' ∨ quote = '\'') (hvalue : quote ∉ value) :
    ∃ tree s', tagAttribute g s = (advance >>= fun _ => pure tree) s' ∧ s'.after.rest = rest ∧
      stringAttribute? tree = some (String.ofList name, String.ofList value) := by
  obtain ⟨nameSpan, t, hname, hequals⟩ := attributeName_eq h hquote
  obtain ⟨valueSpan, s', hvalue, hrest⟩ := attributeValue_eq g hequals hquote hvalue
  obtain ⟨start, stop, lineBefore, htoken⟩ := hequals.token
  refine ⟨.node ⟨s.token.start, s'.token.stop⟩ .markupAttribute
    [.node nameSpan (.markupName (String.ofList name)) [],
      .node valueSpan (.attributeText (String.ofList value)) []], s', ?_, hrest, rfl⟩
  have hbrace : s.token.isMark "\x7b" = false := by
    rw [Token.isMark, h.kind]
    rfl
  have hmark : t.token.isMark "=" = true := by
    rw [htoken]
    rfl
  unfold tagAttribute
  rw [start_bind, bind_eq (eatMark_of_not hbrace)]
  rw [if_neg (by simp), bind_eq hname, atMark_bind, hmark, if_pos rfl]
  show ((attributeValue g) t).bind _ = _
  rw [hvalue]
  -- what is left is one step to the token behind the value; if it cannot be read, neither
  -- side goes on
  cases hlexeme : lexeme? s'.after s'.token with
  | none =>
    show ((advance s').bind _).bind _ = (advance s').bind _
    rw [advance_eq_none hlexeme]
    rfl
  | some lexeme =>
    rw [bind_eq (advance_eq hlexeme), bind_eq (advance_eq hlexeme)]
    rfl

/-! ## §5. Attributes in a row -/

/-- A step of reading attributes up to the end of a tag. -/
def attributeStep (g : Grammar) (list : List Tree) : Parse (Step (List Tree) (List Tree)) := do
  if ← atAnyMark [">", "/"] then return .done list.reverse
  else return .next ((← tagAttribute g) :: list)

theorem tagAttributes_eq (g : Grammar) : tagAttributes g = iterate (attributeStep g) [] := rfl

/-- Reads attributes from the next token on; the latest of those that were read comes
    first. -/
def moreAttributes (g : Grammar) (fuel : Nat) (list : List Tree) : Parse (List Tree) := do
  advance
  iterateFor (attributeStep g) fuel list

theorem moreAttributes_next (g : Grammar) (fuel : Nat) (list : List Tree)
    {name value rest : List Char} {quote : Char} (hname : IsPlainPrefix name)
    (hquote : quote = '"' ∨ quote = '\'') (hvalue : quote ∉ value)
    (hrest : s.after.rest = ' ' :: (name ++ '=' :: quote :: (value ++ quote :: rest))) :
    ∃ tree s', moreAttributes g (fuel + 1) list s = moreAttributes g fuel (tree :: list) s' ∧
      s'.after.rest = rest ∧
      stringAttribute? tree = some (String.ofList name, String.ofList value) := by
  obtain ⟨lexeme, tail, hlexeme, hkind, hhere, hafter, htail⟩ := lexeme?_name s.token hrest hname
  have hat : AtName (next s lexeme) name ('=' :: quote :: (value ++ quote :: rest)) :=
    ⟨hkind, hhere, tail, hafter, htail⟩
  obtain ⟨tree, s', htree, hrest', hstring⟩ := tagAttribute_eq g hat hquote hvalue
  refine ⟨tree, s', ?_, hrest', hstring⟩
  have hmark : atAnyMark [">", "/"] (next s lexeme) = some (false, next s lexeme) := by
    show some ((lexeme.token.kind == .punctuator && _), _) = _
    rw [hkind]
    rfl
  unfold moreAttributes
  rw [bind_eq (advance_eq hlexeme), iterateFor]
  show (attributeStep g list (next s lexeme)).bind _ = _
  unfold attributeStep
  rw [bind_eq hmark]
  show ((tagAttribute g (next s lexeme)).bind _).bind _ = _
  rw [htree]
  -- the next turn of the loop begins with the step that ends this one
  cases hlexeme' : lexeme? s'.after s'.token with
  | none =>
    show (((advance s').bind _).bind _).bind _ = (advance s').bind _
    rw [advance_eq_none hlexeme']
    rfl
  | some lexeme' =>
    rw [bind_eq (advance_eq hlexeme'), bind_eq (advance_eq hlexeme')]
    rfl

/-- The end of a tag ends its attributes. -/
theorem moreAttributes_end (g : Grammar) (fuel : Nat) (list : List Tree) {rest : List Char}
    (isSelfClosing : Bool)
    (hrest : s.after.rest = (if isSelfClosing then " />" else ">").toList ++ rest) :
    ∃ s', moreAttributes g (fuel + 1) list s = some (list.reverse, s') ∧
      s'.token.isMark (if isSelfClosing then "/" else ">") = true := by
  obtain ⟨lexeme, hlexeme, hkind, htext⟩ : ∃ lexeme, lexeme? s.after s.token = some lexeme ∧
      lexeme.token.kind = .punctuator ∧
      lexeme.token.text = (if isSelfClosing then "/" else ">") := by
    -- only the slash has a blank in front of it
    cases isSelfClosing with
    | true =>
      have hrest : s.after.rest = [' '] ++ '/' :: '>' :: rest := hrest
      exact ⟨_, lexemeBy?_eq (.inr rfl) hrest (by decide) (by decide)
        (fun _ => ⟨by simp, by simp⟩) rfl, rfl, rfl⟩
    | false =>
      have hrest : s.after.rest = [] ++ '>' :: rest := hrest
      exact ⟨_, lexemeBy?_eq (.inl rfl) hrest (by decide) (by decide)
        (fun h => absurd h (by decide)) rfl, rfl, rfl⟩
  have hmark : atAnyMark [">", "/"] (next s lexeme) = some (true, next s lexeme) := by
    show some ((lexeme.token.kind == .punctuator && [">", "/"].contains lexeme.token.text), _) = _
    rw [hkind, htext]
    cases isSelfClosing <;> rfl
  refine ⟨next s lexeme, ?_, ?_⟩
  · unfold moreAttributes
    rw [bind_eq (advance_eq hlexeme), iterateFor]
    show (attributeStep g list (next s lexeme)).bind _ = _
    unfold attributeStep
    rw [bind_eq hmark]
    rfl
  · show (lexeme.token.kind == .punctuator && lexeme.token.text == _) = true
    rw [hkind, htext]
    cases isSelfClosing <;> rfl

/-- What was read stays in front. -/
theorem prefix_of_iterateFor {g : Grammar} {fuel : Nat} {list out : List Tree}
    (h : iterateFor (attributeStep g) fuel list s = some (out, s')) : list.reverse <+: out := by
  induction fuel generalizing list s with
  | zero => cases h
  | succ fuel ih =>
    rw [iterateFor] at h
    obtain ⟨step, t, hstep, hrest⟩ := exists_of_bind h
    -- a step ends with what was read, or reads one attribute more
    have hcases : step = .done list.reverse ∨ ∃ tree, step = .next (tree :: list) := by
      unfold attributeStep at hstep
      obtain ⟨isEnd, t', -, hstep⟩ := exists_of_bind hstep
      cases isEnd with
      | true =>
        cases hstep
        exact .inl rfl
      | false =>
        obtain ⟨tree, t'', -, hstep⟩ := exists_of_bind hstep
        cases hstep
        exact .inr ⟨tree, rfl⟩
    rcases hcases with rfl | ⟨tree, rfl⟩
    · cases hrest
      exact List.prefix_rfl
    · exact List.IsPrefix.trans ⟨[tree], by rw [List.reverse_cons]⟩ (ih hrest)

end Parse

end Provenance.Script
