import Provenance.Proofs.Scanner.Search

/-! # The scanner reads tags

  The scanner reads comments, declarations and tags as the reader by cursors does, and every
  cut that it makes has a value.

  A scanner at an offset is compared with a cursor that stands in the source at that offset.
  Each reader either leaves both at one place again, with the same thing read, or finds the
  same error (`Follows`).
-/

namespace Provenance

open Text (Cursor byteSize byteSize_append byteSize_cons octets octets_cons length_octets octetAt?
  isTagBlank)
open Text.Cursor (Takes splitOn?)

namespace Scanner

open Template (Outcome OpenTag Entry TagBody Error isTagNamePart startsComment
  startsCloseTag startsDeclaration startsOpenTag entryGap)

variable {source : List Char} {c d : Cursor}

/-! ## §1. Following a cursor -/

/-- The reader by cursors and the scanner, started at one place, read related things and stand
    at one place again, or find the same error. -/
def Follows {α β : Type} (source : List Char) (related : α → β → Prop) (read : Outcome α)
    (scan : Option (Reading β)) : Prop :=
  (∃ a b d, read = .ok (a, d) ∧ scan = some (.ok (b, d.offset)) ∧ related a b ∧
    d.StandsIn source) ∨
  ∃ e, read = .error e ∧ scan = some (.error e)

theorem atOpenTag_eq (h : c.StandsIn source) :
    atOpenTag source c.offset = startsOpenTag c.rest := by
  unfold atOpenTag
  cases hc : c.rest with
  | nil => rw [h.octetAt_nil hc]; rfl
  | cons x r =>
    by_cases hx : x = '<'
    · subst hx
      have hat : octetAt? source c.offset = some '<' :=
        (h.octetAt_eq_iff_of_cons hc (by decide)).2 rfl
      have hnext := (h.of_takes (Cursor.takes_skip_one hc)).any_octetAt Text.isAsciiTest_isAlpha
      rw [Cursor.skip_one hc] at hnext
      rw [hat, decide_eq_true rfl, Bool.true_and,
        show c.offset + 1 = c.offset + '<'.utf8Size from rfl, hnext]
      cases r with
      | nil => rfl
      | cons z r => rfl
    · have hat : octetAt? source c.offset ≠ some '<' :=
        mt (h.octetAt_eq_iff_of_cons hc (by decide)).1 hx
      rw [decide_eq_false hat, Bool.false_and]
      unfold startsOpenTag
      split
      · next heq => exact absurd (List.cons.inj heq).1 hx
      · rfl

theorem startsWith_comment (h : c.StandsIn source) :
    Text.startsWith? ['<', '!', '-', '-'] source c.offset = some (startsComment c.rest) := by
  rw [h.startsWith]
  refine congrArg some (Bool.eq_iff_iff.2 (List.isPrefixOf_iff_prefix.trans ⟨?_, fun hs => ?_⟩))
  · rintro ⟨r, hr⟩
    rw [← hr]
    rfl
  · obtain ⟨r, hr⟩ := Template.startsComment_eq hs
    exact ⟨r, hr.symm⟩

theorem startsWith_declaration (h : c.StandsIn source) :
    Text.startsWith? ['<', '!'] source c.offset = some (startsDeclaration c.rest) := by
  rw [h.startsWith]
  refine congrArg some (Bool.eq_iff_iff.2 (List.isPrefixOf_iff_prefix.trans ⟨?_, fun hs => ?_⟩))
  · rintro ⟨r, hr⟩
    rw [← hr]
    rfl
  · obtain ⟨r, hr⟩ := Template.startsDeclaration_eq hs
    exact ⟨r, hr.symm⟩

theorem atCloseTag_eq (h : c.StandsIn source) :
    atCloseTag source c.offset = some (startsCloseTag c.rest) := by
  unfold atCloseTag
  rw [h.startsWith, Option.bind_eq_bind, Option.bind_some]
  refine congrArg some (Bool.eq_iff_iff.2 ?_)
  rw [Bool.and_eq_true, List.isPrefixOf_iff_prefix]
  constructor
  · rintro ⟨⟨r, hr⟩, hany⟩
    -- the octet behind the mark is looked at where a cursor stands
    have hc : c.rest = '<' :: '/' :: r := hr.symm
    have hnext := (h.of_takes (Cursor.takes_skip c 2)).any_octetAt Text.isAsciiTest_isAlpha
    rw [Cursor.skip_two hc] at hnext
    rw [show c.offset + 2 = c.offset + ('<'.utf8Size + '/'.utf8Size) from rfl, hnext] at hany
    rw [hc]
    cases r with
    | nil => cases hany
    | cons x r => exact hany
  · intro hs
    obtain ⟨x, r, hr, hx⟩ := Template.startsCloseTag_eq hs
    have hnext := (h.of_takes (Cursor.takes_skip c 2)).any_octetAt Text.isAsciiTest_isAlpha
    rw [Cursor.skip_two hr] at hnext
    refine ⟨⟨x :: r, hr.symm⟩, ?_⟩
    rw [show c.offset + 2 = c.offset + ('<'.utf8Size + '/'.utf8Size) from rfl, hnext]
    exact hx

theorem readComment_follows (h : c.StandsIn source) (hstart : startsComment c.rest = true) :
    Follows source (fun t content => t = .comment (String.ofList content) c.offset)
      (Template.readComment c) (readComment source c.offset) := by
  obtain ⟨r, hr⟩ := Template.startsComment_eq hstart
  have hbody := h.of_takes (Cursor.takes_skip c 4)
  have hoff : (c.skip 4).offset = c.offset + 4 := by
    rw [Cursor.skip, hr]
    rfl
  unfold Template.readComment readComment
  rw [← hoff, hbody.sliceFrom]
  rcases hbody.find ['-', '-', '>'] with ⟨text, d, hd, hfind, hcut, hstop, hstands⟩ | ⟨hd, hfind⟩
  · refine .inl ⟨_, text, d, by rw [hd], ?_, rfl, hstands⟩
    simp only [Option.bind_eq_bind, Option.bind_some, hfind, hcut, Option.pure_def]
    rw [hstop]
    rfl
  · refine .inr ⟨_, by rw [hd], ?_⟩
    simp only [Option.bind_eq_bind, Option.bind_some, hfind, Option.pure_def]

theorem readDeclaration_follows (h : c.StandsIn source) :
    Follows source (fun t _ => t = .declaration) (Template.readDeclaration c)
      (readDeclaration source c.offset) := by
  unfold Template.readDeclaration readDeclaration
  rw [h.sliceFrom]
  rcases h.find ['>'] with ⟨text, d, hd, hfind, -, hstop, hstands⟩ | ⟨hd, hfind⟩
  · refine .inl ⟨_, (), d, by rw [hd], ?_, rfl, hstands⟩
    simp only [Option.bind_eq_bind, Option.bind_some, hfind, Option.pure_def]
    rw [hstop]
    rfl
  · refine .inr ⟨_, by rw [hd], ?_⟩
    simp only [Option.bind_eq_bind, Option.bind_some, hfind, Option.pure_def]

/-! ## §2. End tags -/

/-- A mark is looked for behind the name in front of it. -/
theorem takeUntil?_skipWhile (c : Cursor) {p : Char → Bool} {mark : Char} (hp : p mark = false) :
    c.takeUntil? [mark] = ((c.skipWhile p).takeUntil? [mark]).map fun parts =>
      (c.rest.takeWhile p ++ parts.1, parts.2) := by
  have hmem : mark ∉ c.rest.takeWhile p := by
    intro hin
    have := List.all_eq_true.1 List.all_takeWhile mark hin
    rw [hp] at this
    cases this
  have hsplit : splitOn? [mark] c.rest =
      (splitOn? [mark] (c.skipWhile p).rest).map fun parts =>
        (c.rest.takeWhile p ++ parts.1, parts.2) := by
    conv => lhs; rw [(Cursor.takes_skipWhile c p).rest]
    exact Text.splitOn?_mark_append hmem _
  have hoff := (Cursor.takes_skipWhile c p).offset
  rw [Cursor.takeUntil?, hsplit, Cursor.takeUntil?]
  cases splitOn? [mark] (c.skipWhile p).rest with
  | none => rfl
  | some parts =>
    simp only [Option.map_some, Cursor.past, hoff, byteSize_append, Nat.add_assoc]

theorem readCloseTag_follows (h : c.StandsIn source) {r : List Char}
    (hmark : c.rest = '<' :: '/' :: r) :
    Follows source (fun tag name => tag.name = name) (Template.readCloseTag c)
      (readCloseTag source c.offset) := by
  have hinner := h.of_takes (Cursor.takes_skip c 2)
  have hoff : (c.skip 2).offset = c.offset + 2 := by
    rw [Cursor.skip_two hmark]
    rfl
  have hname := Cursor.takes_takeWhile (c.skip 2) isTagNamePart
  have hbehind := hinner.of_takes hname
  have huntil := takeUntil?_skipWhile (c.skip 2) (show isTagNamePart '>' = false by decide)
  unfold Template.readCloseTag readCloseTag
  simp only [huntil]
  rw [← hoff, hinner.skipOctets Text.isAsciiTest_isTagNamePart]
  simp only [Cursor.skipWhile, hinner.slice hname, hbehind.sliceFrom, Option.bind_eq_bind,
    Option.bind_some]
  rcases hbehind.find ['>'] with ⟨text, d, hd, hfind, -, hstop, hstands⟩ | ⟨hd, hfind⟩
  · refine .inl ⟨_, _, d, by rw [hd]; rfl, ?_, rfl, hstands⟩
    simp only [hfind, Option.pure_def]
    rw [hstop]
    rfl
  · refine .inr ⟨_, by rw [hd]; rfl, ?_⟩
    simp only [hfind, Option.pure_def]

/-! ## §3. Attributes -/

theorem readValue_bare_eq (h : c.StandsIn source) :
    readValue.bare source c.offset =
      some (.ok (c.rest.takeWhile fun x => !isTagBlank x && x ≠ '>',
        (c.skipWhile fun x => !isTagBlank x && x ≠ '>').offset)) := by
  have hclass : Text.IsAsciiTest fun x => !isTagBlank x && x ≠ '>' :=
    Text.isAsciiTest_isTagBlank.not.and (Text.isAsciiTest_ne (by decide))
  unfold readValue.bare
  simp only [h.skipOctets hclass, h.slice (Cursor.takes_skipWhile c _), Option.bind_eq_bind,
    Option.bind_some, Option.pure_def]

theorem readValue_follows (h : c.StandsIn source) :
    Follows source Eq (Template.readValue c) (readValue source c.offset) := by
  have hbare := readValue_bare_eq h
  have hbehind := h.of_takes (Cursor.takes_skipWhile c fun x => !isTagBlank x && x ≠ '>')
  obtain ⟨o, s⟩ := c
  cases s with
  | nil =>
    refine .inl ⟨[], [], ⟨o, []⟩, rfl, ?_, rfl, h⟩
    unfold readValue
    rw [h.octetAt_nil rfl]
    exact hbare
  | cons q r =>
    obtain ⟨y, hy, hat⟩ := h.octetAt_cons rfl
    unfold readValue
    rw [hat]
    by_cases hq : Template.IsQuote q
    · -- the octet is the quote itself, and so is the next one that equals it
      have hascii : q.toNat < 128 := by rcases hq with rfl | rfl <;> decide
      obtain rfl : y = q := (Text.octet_eq_iff hascii hy).2 rfl
      have hcond : (decide (y = '"') || decide (y = '\'')) = true := by
        rw [Bool.or_eq_true, decide_eq_true_iff, decide_eq_true_iff]
        exact hq
      have hone : y.utf8Size = 1 := by rcases hq with rfl | rfl <;> rfl
      have hskip : Cursor.skip ⟨o, y :: r⟩ 1 = ⟨o + 1, r⟩ := by
        rw [Cursor.skip_one rfl, hone]
      have hbody : (⟨o + 1, r⟩ : Cursor).StandsIn source := by
        rw [← hskip]
        exact h.of_takes (Cursor.takes_skip _ 1)
      rw [Template.readValue_of_quote hq, hskip]
      simp only [hcond, if_true, hbody.octetsFrom, Option.bind_eq_bind, Option.bind_some,
        Text.findIdx?_octets hascii]
      rcases hbody.find [y] with ⟨text, d, hd, hfind, hcut, hstop, hstands⟩ | ⟨hd, hfind⟩
      · refine .inl ⟨text, text, d, by rw [hd], ?_, rfl, hstands⟩
        have hmark : byteSize [y] = 1 := by rw [byteSize_cons, hone]; rfl
        simp only [hfind, hcut, Option.bind_some, Option.pure_def]
        rw [hstop, hmark]
      · refine .inr ⟨_, by rw [hd], ?_⟩
        simp only [hfind, Option.pure_def]
    · have hcond : ¬ (decide (y = '"') || decide (y = '\'')) = true := by
        rw [Bool.or_eq_true, decide_eq_true_iff, decide_eq_true_iff,
          Text.octet_eq_iff (by decide) hy, Text.octet_eq_iff (by decide) hy]
        exact hq
      rw [Template.readValue_of_not_quote hq]
      simp only [if_neg hcond]
      exact .inl ⟨_, _, _, rfl, hbare, rfl, hbehind⟩

/-- What lies beyond ASCII belongs to the name of an attribute. -/
theorem more_cons_large {x : Char} (hx : 128 ≤ x.toNat) (t : List Char) :
    Template.attributeName.more (x :: t) = x :: Template.attributeName.more t := by
  have hblank : isTagBlank x = false :=
    (Text.isAsciiTest_isTagBlank x (Char.ofNat 128) hx (by decide)).trans (by decide)
  have hne : ∀ mark : Char, mark.toNat < 128 → x ≠ mark := fun mark hmark heq => by
    rw [heq] at hx
    omega
  simp only [Template.attributeName.more, hblank, hne '=' (by decide), hne '>' (by decide),
    hne '/' (by decide), decide_false, Bool.false_or, Bool.false_and, Bool.false_eq_true, if_false]

/-- The name of an attribute ends between characters. -/
theorem more_octets (s : List Char) :
    Template.attributeName.more (octets s) = octets (Template.attributeName.more s) := by
  induction s with
  | nil => rfl
  | cons c r ih =>
    rw [octets_cons]
    by_cases hc : c.toNat < 128
    · have hhead := Text.head?_octets_eq_iff (show '>'.toNat < 128 by decide) r
      rw [Text.octetsOf_ascii hc, List.singleton_append]
      simp only [Template.attributeName.more, hhead]
      split
      · rfl
      · rw [ih, octets_cons, Text.octetsOf_ascii hc]
        rfl
    · -- the test is passed by each octet of the character, as by the character
      have append : ∀ xs : List Char, (∀ x ∈ xs, 128 ≤ x.toNat) → ∀ t,
          Template.attributeName.more (xs ++ t) = xs ++ Template.attributeName.more t := by
        intro xs hxs t
        induction xs with
        | nil => rfl
        | cons x xs ihx =>
          rw [List.cons_append, more_cons_large (hxs x List.mem_cons_self),
            ihx fun z hz => hxs z (List.mem_cons_of_mem _ hz)]
          rfl
      have hlarge : 128 ≤ c.toNat := by omega
      rw [append _ fun x hx => Text.octet_large hx hlarge, ih, more_cons_large hlarge, octets_cons]

theorem takes_attributeName (c : Cursor) : Takes c (Template.attributeName c.rest)
    (c.skip (Template.attributeName c.rest).length) := by
  have hskip := Cursor.takes_skip c (Template.attributeName c.rest).length
  rwa [← List.prefix_iff_eq_take.1 (Template.prefix_attributeName c.rest)] at hskip

theorem attributeNameEnd_eq (h : c.StandsIn source) {x : Char} {r : List Char}
    (hc : c.rest = x :: r) (hblank : isTagBlank x = false) (hx : x ≠ '>' ∧ x ≠ '/') :
    attributeNameEnd source c.offset =
      (c.skip (Template.attributeName c.rest).length).offset := by
  have hname : Template.attributeName c.rest = x :: Template.attributeName.more r := by
    rw [hc]
    rfl
  rw [(takes_attributeName c).offset, hname, byteSize_cons]
  unfold attributeNameEnd
  by_cases hequals : x = '='
  · -- an equals sign in front is passed over first
    subst hequals
    have hat : octetAt? source c.offset = some '=' :=
      (h.octetAt_eq_iff_of_cons hc (by decide)).2 rfl
    have hdrop : (octets source).drop (c.offset + 1) = octets r := by
      have hskip := (h.of_takes (Cursor.takes_skip_one hc)).drop_octets
      rwa [Cursor.skip_one hc] at hskip
    rw [if_pos hat]
    show c.offset + 1 + _ = _
    rw [hdrop, more_octets, length_octets, Nat.add_assoc]
    rfl
  · have hat : octetAt? source c.offset ≠ some '=' :=
      mt (h.octetAt_eq_iff_of_cons hc (by decide)).1 hequals
    have hmore : Template.attributeName.more (x :: r) = x :: Template.attributeName.more r := by
      simp only [Template.attributeName.more, hblank, hequals, hx.1, hx.2, decide_false,
        Bool.false_or, Bool.false_and, Bool.false_eq_true, if_false]
    rw [if_neg hat]
    show c.offset + _ = _
    rw [h.drop_octets, more_octets, length_octets, hc, hmore, byteSize_cons]

theorem entryOf?_eq (name : List Char) (value : Option (List Char)) (start : Nat) :
    entryOf? name value start = some (.ofName name value start) := by
  unfold entryOf? Entry.ofName
  split
  · rfl
  · cases value with
    | none => rfl
    | some value =>
      have hdecode := Text.decodeBehind?_eq (Nat.lt_succ_self value.length) []
      simp only [Text.rounds, hdecode, Option.bind_eq_bind, Option.bind_some, Option.pure_def,
        List.nil_append, Option.map_some]

theorem readEntry_follows (h : c.StandsIn source) {x : Char} {r : List Char}
    (hc : c.rest = x :: r) (hblank : isTagBlank x = false) (hx : x ≠ '>' ∧ x ≠ '/') :
    Follows source Eq (Template.readEntry c) (readEntry source c.offset) := by
  have hname := takes_attributeName c
  have hbehind := h.of_takes hname
  have hgap : (entryGap c).StandsIn source := hbehind.of_takes (Cursor.takes_skipWhile _ isTagBlank)
  unfold readEntry
  rw [attributeNameEnd_eq h hc hblank hx]
  simp only [h.slice hname, hbehind.skipOctets Text.isAsciiTest_isTagBlank, entryOf?_eq,
    Option.bind_eq_bind, Option.bind_some, Option.pure_def]
  rw [show (c.skip (Template.attributeName c.rest).length).skipWhile isTagBlank = entryGap c
    from rfl]
  by_cases hequals : octetAt? source (entryGap c).offset = some '='
  · rw [if_pos hequals]
    obtain ⟨t, ht⟩ := List.head?_eq_some_iff.1 ((hgap.octetAt_eq_iff (by decide)).1 hequals)
    have hvalue := (hgap.of_takes (Cursor.takes_skip _ 1)).of_takes
      (Cursor.takes_skipWhile _ isTagBlank)
    have hskip := (hgap.of_takes (Cursor.takes_skip _ 1)).skipOctets Text.isAsciiTest_isTagBlank
    have hone : ((entryGap c).skip 1).offset = (entryGap c).offset + 1 := by
      rw [Cursor.skip_one ht]
      rfl
    rw [← hone, hskip]
    rcases readValue_follows hvalue with ⟨value, _, d, hread, hscan, rfl, hd⟩ | ⟨e, hread, hscan⟩
    · refine .inl ⟨_, _, d, Template.readEntry_of_value ht hread, ?_, rfl, hd⟩
      simp only [hscan, Option.bind_some]
    · refine .inr ⟨e, ?_, ?_⟩
      · unfold entryGap at ht hread
        simp only [Template.readEntry, ht, hread]
      · simp only [hscan, Option.bind_some]
  · rw [if_neg hequals]
    have hbare : ∀ t, (entryGap c).rest ≠ '=' :: t := fun t ht =>
      hequals ((hgap.octetAt_eq_iff_of_cons ht (by decide)).2 rfl)
    rw [Template.readEntry_of_bare hbare]
    exact .inl ⟨_, _, _, rfl, rfl, rfl, hbehind⟩

/-! ## §4. Start tags -/

/-- What the scanner makes of the body of a tag whose entries so far are those of `tag`. -/
def tagReading (tag : OpenTag) : Except Error (Option (TagBody × Cursor)) → Reading OpenTag
  | .error e => .error e
  | .ok none => .error ⟨.unterminatedStartTag tag.name, tag.start⟩
  | .ok (some (body, d)) =>
    .ok ({ tag with entries := tag.entries ++ body.entries, selfClosing := body.selfClosing },
      d.offset)

/-- In one round the scanner reads the body of a tag to its end, or finds the error in it, or
    passes over a slash or an entry. -/
theorem readTagBody_step (h : c.StandsIn source) {tag : OpenTag} (htag : tag.selfClosing = false)
    (n : Nat) :
    readTagBody source (n + 1) tag c.offset = some (tagReading tag (Template.readTagBody c)) ∨
    ∃ entries d,
      readTagBody source (n + 1) tag c.offset =
        readTagBody source n { tag with entries := tag.entries ++ entries } d.offset ∧
      tagReading tag (Template.readTagBody c) =
        tagReading { tag with entries := tag.entries ++ entries } (Template.readTagBody d) ∧
      d.StandsIn source ∧ d.rest.length < c.rest.length := by
  have hm := h.of_takes (Cursor.takes_skipWhile c isTagBlank)
  have hread := Template.readTagBody.eq_def c
  rw [readTagBody, h.skipOctets Text.isAsciiTest_isTagBlank]
  split at hread
  · next hd =>
    left
    rw [hread]
    simp only [hm.octetAt_nil hd]
    rfl
  · next r hd =>
    have hat : octetAt? source (c.skipWhile isTagBlank).offset = some '>' :=
      (hm.octetAt_eq_iff_of_cons hd (by decide)).2 rfl
    left
    simp only [hat, if_true]
    rw [hread, tagReading, List.append_nil, Cursor.skip_one hd, ← htag]
    rfl
  · next r hd =>
    have hat : octetAt? source (c.skipWhile isTagBlank).offset = some '/' :=
      (hm.octetAt_eq_iff_of_cons hd (by decide)).2 rfl
    have hnext := (hm.of_takes (Cursor.takes_skip_one hd)).octetAt_eq_iff
      (show '>'.toNat < 128 by decide)
    rw [Cursor.skip_one hd] at hnext
    have hat' : octetAt? source ((c.skipWhile isTagBlank).offset + 1) = some '>' := hnext.2 rfl
    left
    simp only [hat, hat', if_true]
    rw [hread, tagReading, List.append_nil, Cursor.skip_two hd]
    rfl
  · next r hr hd =>
    -- a slash that does not end the tag is passed over
    have hat : octetAt? source (c.skipWhile isTagBlank).offset = some '/' :=
      (hm.octetAt_eq_iff_of_cons hd (by decide)).2 rfl
    have hstands := hm.of_takes (Cursor.takes_skip_one hd)
    have hoff : ((c.skipWhile isTagBlank).skip 1).offset =
        (c.skipWhile isTagBlank).offset + 1 := by
      rw [Cursor.skip_one hd]
      rfl
    have hat' : ¬ octetAt? source ((c.skipWhile isTagBlank).offset + 1) = some '>' := by
      rw [← hoff, hstands.octetAt_eq_iff (by decide), Cursor.skip_one hd]
      intro hhead
      obtain ⟨t, ht⟩ := List.head?_eq_some_iff.1 hhead
      exact hr t ht
    refine .inr ⟨[], _, ?_, ?_, hstands, Template.skip_shorter hd 0⟩
    · simp only [hat, hat', if_true, if_false, List.append_nil, hoff]
      rfl
    · rw [hread, List.append_nil]
  · next x r hclose hself hslash hd =>
    obtain ⟨y, hy, hat⟩ := hm.octetAt_cons hd
    have hblank : isTagBlank x = false := by
      have hhead := List.head?_dropWhile_not isTagBlank c.rest
      rw [show c.rest.dropWhile isTagBlank = x :: r from hd] at hhead
      simpa using hhead
    have hyclose : ¬ y = '>' := mt (Text.octet_eq_iff (by decide) hy).1 hclose
    have hyslash : ¬ y = '/' := mt (Text.octet_eq_iff (by decide) hy).1 hslash
    simp only [hat, hyclose, hyslash, if_false, Option.bind_eq_bind]
    rcases readEntry_follows hm hd hblank ⟨hclose, hslash⟩ with
      ⟨entry, _, next, he, hscan, rfl, hnext⟩ | ⟨e, he, hscan⟩
    · refine .inr ⟨[entry], next, by rw [hscan]; rfl, ?_, hnext,
        Template.readEntry_skipWhile_shorter hd he⟩
      rw [hread]
      split
      · next he' => rw [he] at he'; cases he'
      · next he' =>
        rw [he] at he'
        cases he'
        cases Template.readTagBody next with
        | error e => rfl
        | ok found =>
          cases found with
          | none => rfl
          | some read => simp [tagReading]
    · left
      rw [hscan, hread]
      split
      · next he' => rw [he] at he'; cases he'; rfl
      · next he' => rw [he] at he'; cases he'

/-- Every cut in reading the body of a tag has a value. -/
theorem readTagBody_eq (h : c.StandsIn source) {tag : OpenTag} (htag : tag.selfClosing = false)
    {n : Nat} (hn : c.rest.length < n) :
    readTagBody source n tag c.offset = some (tagReading tag (Template.readTagBody c)) := by
  induction n generalizing c tag with
  | zero => cases hn
  | succ n ih =>
    rcases readTagBody_step h htag n with hdone | ⟨entries, d, hscan, hread, hd, hshort⟩
    · exact hdone
    · have htag' : OpenTag.selfClosing { tag with entries := tag.entries ++ entries } = false := htag
      rw [hscan, hread]
      exact ih hd htag' (Nat.lt_of_lt_of_le hshort (Nat.le_of_lt_succ hn))

theorem readOpenTag_follows (h : c.StandsIn source) (hstart : startsOpenTag c.rest = true) :
    Follows source Eq (Template.readOpenTag c) (readOpenTag source c.offset) := by
  obtain ⟨x, r, hr, -⟩ := Template.startsOpenTag_eq hstart
  have hname := h.of_takes (Cursor.takes_skip_one hr)
  have hoff : (c.skip 1).offset = c.offset + 1 := by
    rw [Cursor.skip_one hr]
    rfl
  have htake := Cursor.takes_takeWhile (c.skip 1) isTagNamePart
  have hbody := hname.of_takes htake
  have hscan : readOpenTag source c.offset =
      some (tagReading ⟨String.ofList ((c.skip 1).takeWhile isTagNamePart).1, c.offset,
        ((c.skip 1).takeWhile isTagNamePart).2.offset, [], false⟩
        (Template.readTagBody ((c.skip 1).takeWhile isTagNamePart).2)) := by
    unfold readOpenTag
    rw [← hoff, hname.skipOctets Text.isAsciiTest_isTagNamePart]
    simp only [Cursor.skipWhile, hname.slice htake, Option.bind_eq_bind, Option.bind_some]
    exact readTagBody_eq hbody rfl hbody.lt_rounds
  rw [hscan]
  unfold Template.readOpenTag
  cases hread : Template.readTagBody ((c.skip 1).takeWhile isTagNamePart).2 with
  | error e => exact .inr ⟨e, by simp only [hread], rfl⟩
  | ok found =>
    cases found with
    | none => exact .inr ⟨_, by simp only [hread], rfl⟩
    | some read =>
      obtain ⟨body, d⟩ := read
      obtain ⟨w, hw⟩ := (Template.reads_of_readTagBody hread).takes
      exact .inl ⟨_, _, d, by simp only [hread]; rfl, rfl, rfl, hbody.of_takes hw⟩

end Scanner

end Provenance
