import Provenance.Proofs.Template.Tag

/-! # Reading tokens

  One rule for each kind of token says when reading moves over a token and where
  it ends (`ReadsToken`); `next` follows these rules and no others
  (`next_eq_ok_iff`).

  Nothing behind an end tag or behind raw text matters for reading it
  (`ReadsClose`, `readRawText_replace`).
-/

namespace Provenance.Template

open Text (Cursor isTagBlank byteSize byteSize_append byteSize_cons)
open Text.Cursor (Takes)

/-! ## §1. End tags -/

/-- An end tag stands in front of a cursor: two characters `mark`, which are `</`
    wherever an end tag is looked for, and what stands up to the next `>`. -/
structure ReadsClose (c : Cursor) (tag : CloseTag) (mark : List Char) (d : Cursor) : Prop where
  length : mark.length = 2
  rest : c.rest = mark ++ (tag.inner ++ '>' :: d.rest)
  offset : d.offset = c.offset + byteSize mark + (byteSize tag.inner + 1)
  inner : '>' ∉ tag.inner
  name : tag.name = String.ofList (tag.inner.takeWhile isTagNamePart)
  start : tag.start = c.offset
  after : tag.after = d

theorem readsClose_of_readCloseTag {c d : Cursor} {tag : CloseTag}
    (h : readCloseTag c = .ok (tag, d)) : ∃ mark, ReadsClose c tag mark d := by
  unfold readCloseTag at h
  simp only at h
  split at h
  · next text stop hstop =>
    obtain ⟨rfl, rfl⟩ := Prod.mk.inj (Except.ok.inj h)
    have htext := (Cursor.takes_takeUntil? hstop).rest
    have hall := (Cursor.takes_skip c 2).trans (Cursor.takes_takeUntil? hstop)
    have hrest : c.rest.drop 2 = text ++ '>' :: stop.rest := by
      rw [show c.rest.drop 2 = text ++ ['>'] ++ stop.rest from htext, List.append_assoc]
      rfl
    refine ⟨c.rest.take 2, ?_, ?_, ?_, ?_, ?_, rfl, rfl⟩
    · -- there are two characters, since something stands behind them
      have hlen : (c.rest.drop 2).length ≠ 0 := by rw [hrest]; simp
      rw [List.length_drop] at hlen
      rw [List.length_take]
      omega
    · rw [← hrest, List.take_append_drop]
    · have hoff := hall.offset
      rw [byteSize_append, byteSize_append] at hoff
      have hone : byteSize ['>'] = 1 := rfl
      show stop.offset = c.offset + byteSize (c.rest.take 2) + (byteSize text + 1)
      omega
    · exact Cursor.not_mem_of_takeUntil? hstop
    · show String.ofList ((c.rest.drop 2).takeWhile isTagNamePart) = _
      rw [hrest, Text.takeWhile_append_stop (by decide)]
  · cases h

theorem ReadsClose.readCloseTag {c d : Cursor} {tag : CloseTag} {mark : List Char}
    (h : ReadsClose c tag mark d) : readCloseTag c = .ok (tag, d) := by
  obtain ⟨o, _⟩ := c
  obtain ⟨p, y⟩ := d
  obtain ⟨name, start, inner, after⟩ := tag
  obtain ⟨hmark, hrest, hoff, hinner, hname, hstart, hafter⟩ := h
  change name = String.ofList (inner.takeWhile isTagNamePart) at hname
  change '>' ∉ inner at hinner
  subst hrest hname hstart hafter
  have hskip : Cursor.skip ⟨start, mark ++ (inner ++ '>' :: y)⟩ 2 =
      ⟨start + byteSize mark, inner ++ '>' :: y⟩ := by
    simp only [Cursor.skip, Cursor.past, ← hmark, List.take_left, List.drop_left]
  -- the first `>` is the one behind `inner`
  have hstop : Cursor.takeUntil? ⟨start + byteSize mark, inner ++ '>' :: y⟩ ['>'] =
      some (inner, ⟨p, y⟩) := by
    have hend : start + byteSize mark + byteSize (inner ++ ['>']) = p := by
      rw [byteSize_append]
      exact hoff.symm
    rw [Cursor.takeUntil?, Cursor.splitOn?_singleton hinner, Option.map_some, Cursor.past, hend]
  unfold Template.readCloseTag
  simp only [hskip, hstop, Cursor.takeWhile, Text.takeWhile_append_stop (show isTagNamePart '>' = false by decide)]

theorem readCloseTag_eq_ok_iff {c d : Cursor} {tag : CloseTag} :
    readCloseTag c = .ok (tag, d) ↔ ∃ mark, ReadsClose c tag mark d :=
  ⟨readsClose_of_readCloseTag, fun ⟨_, h⟩ => h.readCloseTag⟩

theorem ReadsClose.takes {c d : Cursor} {tag : CloseTag} {mark : List Char}
    (h : ReadsClose c tag mark d) : Takes c (mark ++ (tag.inner ++ ['>'])) d where
  rest := by rw [h.rest]; simp
  offset := by
    rw [h.offset, byteSize_append, byteSize_append]
    have hone : byteSize ['>'] = 1 := rfl
    omega

/-- The end tag at another place, with other text behind it. -/
theorem ReadsClose.replace {c d : Cursor} {tag : CloseTag} {mark : List Char}
    (h : ReadsClose c tag mark d) (k : Nat) (y : List Char) :
    ReadsClose ⟨c.offset + k, mark ++ (tag.inner ++ '>' :: y)⟩
      { tag with start := c.offset + k, after := ⟨d.offset + k, y⟩ } mark ⟨d.offset + k, y⟩ where
  length := h.length
  rest := rfl
  offset := by
    have hoff := h.offset
    show d.offset + k = c.offset + k + byteSize mark + (byteSize tag.inner + 1)
    omega
  inner := h.inner
  name := h.name
  start := rfl
  after := rfl

/-! ## §2. Raw text -/

theorem isPrefixOf_append_of_length_le {n u : List Char} (h : n.length ≤ u.length)
    (y y' : List Char) : n.isPrefixOf (u ++ y) = n.isPrefixOf (u ++ y') := by
  rw [Bool.eq_iff_iff, List.isPrefixOf_iff_prefix, List.isPrefixOf_iff_prefix]
  have iff : ∀ y, n <+: u ++ y ↔ n <+: u := fun y =>
    ⟨fun hn => List.prefix_of_prefix_length_le hn (List.prefix_append u y) h,
      fun hn => hn.trans (List.prefix_append u y)⟩
  rw [iff, iff]

theorem lowered_append (a b : List Char) : lowered (a ++ b) = lowered a ++ lowered b :=
  List.map_append

theorem length_lowered (s : List Char) : (lowered s).length = s.length := List.length_map _

/-- Whether an end tag begins in front of a text shows in its first characters. -/
theorem closeTest_append {needle u : List Char} (h : needle.length < u.length) (y y' : List Char) :
    needle.isPrefixOf (lowered (u ++ y)) = needle.isPrefixOf (lowered (u ++ y')) ∧
    endsTagName ((u ++ y).drop needle.length) = endsTagName ((u ++ y').drop needle.length) := by
  constructor
  · rw [lowered_append, lowered_append]
    exact isPrefixOf_append_of_length_le (by rw [length_lowered]; omega) _ _
  · have hdrop : u.drop needle.length ≠ [] := by
      intro hnil
      have hlen := congrArg List.length hnil
      rw [List.length_drop, List.length_nil] at hlen
      omega
    rw [List.drop_append_of_le_length (by omega), List.drop_append_of_le_length (by omega)]
    cases hu : u.drop needle.length with
    | nil => exact absurd hu hdrop
    | cons x r => rfl

theorem splitBeforeClose?_eq_some {needle s a b : List Char} {skip : Nat}
    (h : splitBeforeClose? needle skip s = some (a, b)) :
    s = a ++ b ∧ needle.isPrefixOf (lowered b) = true := by
  induction s generalizing skip a b with
  | nil => simp [splitBeforeClose?] at h
  | cons c r ih =>
    have step {n : Nat}
        (h : (splitBeforeClose? needle n r).map (fun parts => (c :: parts.1, parts.2)) =
          some (a, b)) : c :: r = a ++ b ∧ needle.isPrefixOf (lowered b) = true := by
      obtain ⟨⟨x, y⟩, hxy, heq⟩ := Option.map_eq_some_iff.1 h
      obtain ⟨rfl, rfl⟩ := Prod.mk.inj heq
      obtain ⟨hr, hb⟩ := ih hxy
      exact ⟨by rw [hr]; rfl, hb⟩
    cases skip with
    | succ n => exact step (by simpa [splitBeforeClose?] using h)
    | zero =>
      rw [splitBeforeClose?] at h
      split at h
      · next hpre =>
        split at h
        · obtain ⟨rfl, rfl⟩ := Prod.mk.inj (Option.some.inj h)
          exact ⟨rfl, hpre⟩
        · exact step h
      · exact step h

/-- What follows an end tag has no part in finding it. -/
theorem splitBeforeClose?_replace {needle s a z y : List Char} {skip : Nat}
    (hz : needle.length < z.length) (h : splitBeforeClose? needle skip s = some (a, z ++ y))
    (y' : List Char) : splitBeforeClose? needle skip (a ++ (z ++ y')) = some (a, z ++ y') := by
  induction s generalizing skip a with
  | nil => simp [splitBeforeClose?] at h
  | cons c r ih =>
    -- one character is passed over, and the search goes on behind it
    have step {n : Nat}
        (h : (splitBeforeClose? needle n r).map (fun parts => (c :: parts.1, parts.2)) =
          some (a, z ++ y)) : ∃ b, a = c :: b ∧ r = b ++ (z ++ y) ∧
          splitBeforeClose? needle n (b ++ (z ++ y')) = some (b, z ++ y') := by
      obtain ⟨⟨b, t⟩, hb, heq⟩ := Option.map_eq_some_iff.1 h
      obtain ⟨rfl, rfl⟩ := Prod.mk.inj heq
      exact ⟨b, rfl, (splitBeforeClose?_eq_some hb).1, ih hb⟩
    cases skip with
    | succ n =>
      -- a character of a mark that closes nothing
      rw [splitBeforeClose?] at h
      obtain ⟨b, rfl, -, hb⟩ := step h
      rw [List.cons_append, splitBeforeClose?, hb]
      rfl
    | zero =>
      rw [splitBeforeClose?] at h
      split at h
      · next hpre =>
        split at h
        · next hends =>
          obtain ⟨rfl, hr⟩ := Prod.mk.inj (Option.some.inj h)
          obtain ⟨hpre', hends'⟩ := closeTest_append hz y y'
          rw [hr, hpre'] at hpre
          rw [hr, hends'] at hends
          cases z with
          | nil => simp at hz
          | cons x z =>
            rw [List.nil_append, List.cons_append, splitBeforeClose?, ← List.cons_append,
              if_pos hpre, if_pos hends]
        · next hends =>
          -- the name goes on, and it does so in front of the end tag that is found
          obtain ⟨b, rfl, hr, hb⟩ := step h
          have hlen : needle.length < (c :: (b ++ z)).length := by simp; omega
          obtain ⟨hpre', hends'⟩ := closeTest_append hlen y y'
          rw [hr, ← List.append_assoc, ← List.cons_append] at hpre hends
          rw [hpre'] at hpre
          rw [hends'] at hends
          rw [List.cons_append, splitBeforeClose?, ← List.append_assoc, ← List.cons_append,
            if_pos hpre, if_neg hends, List.append_assoc, hb]
          rfl
      · next hpre =>
        obtain ⟨b, rfl, hr, hb⟩ := step h
        have hlen : needle.length < (c :: (b ++ z)).length := by simp; omega
        obtain ⟨hpre', -⟩ := closeTest_append hlen y y'
        rw [hr, ← List.append_assoc, ← List.cons_append, hpre'] at hpre
        rw [List.cons_append, splitBeforeClose?, ← List.append_assoc, ← List.cons_append,
          if_neg hpre, List.append_assoc, hb]
        rfl

theorem eq_of_toLower_eq {c x : Char} (hx : x.toNat < 'a'.toNat) (h : c.toLower = x) : c = x := by
  unfold Char.toLower at h
  split at h
  · next hc =>
    -- an upper-case letter becomes a lower-case one, which `x` is not
    exfalso
    subst h
    obtain ⟨hA, hZ⟩ := hc
    have hA' : 'A'.toNat ≤ c.toNat := hA
    have hZ' : c.toNat ≤ 'Z'.toNat := hZ
    have hval : (c.val + ('a'.val - 'A'.val)).toNat = c.toNat + 32 := by
      have : c.toNat ≤ 90 := hZ'
      show (c.val.toNat + 32) % 2 ^ 32 = c.toNat + 32
      exact Nat.mod_eq_of_lt (by show c.toNat + 32 < 2 ^ 32; omega)
    have hx' : (c.val + ('a'.val - 'A'.val)).toNat < 97 := hx
    have : 65 ≤ c.toNat := hA'
    omega
  · exact h

theorem not_mem_lowered {x : Char} (hx : x.toNat < 'a'.toNat) {s : List Char} (h : x ∉ s) :
    x ∉ lowered s := by
  intro hmem
  obtain ⟨c, hc, heq⟩ := List.mem_map.1 hmem
  exact h (eq_of_toLower_eq hx heq ▸ hc)

/-- What is found in front of a mark without holding it ends before the mark. -/
theorem length_lt_of_isPrefixOf {needle w y : List Char} (hneedle : '>' ∉ needle)
    (h : needle.isPrefixOf (lowered (w ++ ['>'] ++ y)) = true) :
    needle.length < (w ++ ['>']).length := by
  rcases Nat.lt_or_ge needle.length (w ++ ['>']).length with hlt | hge
  · exact hlt
  · -- else the mark would be one of its characters
    exfalso
    rw [lowered_append, List.isPrefixOf_iff_prefix] at h
    have hin : lowered (w ++ ['>']) <+: needle :=
      List.prefix_of_prefix_length_le (List.prefix_append _ _) h
        (by rw [length_lowered]; exact hge)
    refine hneedle (hin.subset ?_)
    rw [lowered_append]
    exact List.mem_append_right _ List.mem_cons_self

/-- What follows raw text with its end tag has no part in reading it. -/
theorem readRawText_replace {tag : OpenTag} {c d : Cursor} {content : List Char}
    (hname : '>' ∉ tag.name.toList) (h : readRawText tag c = .ok (content, d)) :
    ∃ w, Takes c (w ++ ['>']) d ∧ ∀ (tag' : OpenTag) (k : Nat) (y : List Char),
      tag'.name = tag.name → readRawText tag' ⟨c.offset + k, w ++ '>' :: y⟩ =
        .ok (content, ⟨d.offset + k, y⟩) := by
  unfold readRawText findCloseTag? at h
  split at h
  · cases h
  · next content' close hfind =>
    split at h
    · cases h
    · next t stop hread =>
      obtain ⟨rfl, rfl⟩ := Prod.mk.inj (Except.ok.inj h)
      obtain ⟨⟨a, b⟩, hsplit, heq⟩ := Option.map_eq_some_iff.1 hfind
      obtain ⟨rfl, rfl⟩ := Prod.mk.inj heq
      obtain ⟨hc, hpre⟩ := splitBeforeClose?_eq_some hsplit
      obtain ⟨mark, hclose⟩ := readsClose_of_readCloseTag hread
      have hb : b = mark ++ (t.inner ++ ['>']) ++ stop.rest := hclose.takes.rest
      -- so the end tag is found from the characters up to its `>` alone
      have hneedle : ('<' :: '/' :: lowered tag.name.toList).length <
          (mark ++ (t.inner ++ ['>'])).length := by
        have hnot : '>' ∉ '<' :: '/' :: lowered tag.name.toList := by
          simp [not_mem_lowered (x := '>') (by decide) hname]
        rw [hb, ← List.append_assoc] at hpre
        rw [← List.append_assoc]
        exact length_lt_of_isPrefixOf hnot hpre
      have hpiece : Takes c a (c.past a b) := Cursor.takes_past hc
      have htakes := hpiece.trans hclose.takes
      refine ⟨a ++ (mark ++ t.inner), ?_, ?_⟩
      · simpa [List.append_assoc] using htakes
      · intro tag' k y htag
        rw [hb] at hsplit
        have hsplit' := splitBeforeClose?_replace hneedle hsplit y
        have htext : a ++ (mark ++ t.inner) ++ '>' :: y =
            a ++ (mark ++ (t.inner ++ ['>']) ++ y) := by simp
        have hclose' := (hclose.replace k y).readCloseTag
        unfold readRawText findCloseTag?
        rw [htag, htext, hsplit', Option.map_some]
        have hplace : Cursor.past ⟨c.offset + k, a ++ (mark ++ (t.inner ++ ['>']) ++ y)⟩ a
            (mark ++ (t.inner ++ ['>']) ++ y) =
            ⟨(c.past a b).offset + k, mark ++ (t.inner ++ '>' :: y)⟩ := by
          simp [Cursor.past, Nat.add_right_comm]
        simp only [hplace, hclose']

/-! ## §3. What begins where -/

theorem startsComment_eq {s : List Char} (h : startsComment s = true) :
    ∃ r, s = '<' :: '!' :: '-' :: '-' :: r := by
  unfold startsComment at h
  split at h
  · exact ⟨_, rfl⟩
  · cases h

theorem startsDeclaration_eq {s : List Char} (h : startsDeclaration s = true) :
    ∃ r, s = '<' :: '!' :: r := by
  unfold startsDeclaration at h
  split at h
  · exact ⟨_, rfl⟩
  · cases h

theorem startsCloseTag_eq {s : List Char} (h : startsCloseTag s = true) :
    ∃ x r, s = '<' :: '/' :: x :: r ∧ x.isAlpha = true := by
  unfold startsCloseTag at h
  split at h
  · exact ⟨_, _, rfl, h⟩
  · cases h

/-- The mark of an end tag that is seen where it starts. -/
theorem ReadsClose.mark_eq {c d : Cursor} {tag : CloseTag} {mark : List Char}
    (h : ReadsClose c tag mark d) (hstarts : startsCloseTag c.rest = true) : mark = ['<', '/'] := by
  obtain ⟨x, r, hr, -⟩ := startsCloseTag_eq hstarts
  have htake := congrArg (List.take 2) (h.rest.symm.trans hr)
  rw [← h.length, List.take_left] at htake
  rw [htake, h.length]
  rfl

theorem startsOpenTag_eq {s : List Char} (h : startsOpenTag s = true) :
    ∃ x r, s = '<' :: x :: r ∧ x.isAlpha = true := by
  unfold startsOpenTag at h
  split at h
  · exact ⟨_, _, rfl, h⟩
  · cases h

theorem startsInterpolation_eq {s : List Char} (h : startsInterpolation s = true) :
    ∃ r, s = '{' :: '{' :: r ∧ ['}', '}'] <:+: r := by
  unfold startsInterpolation at h
  split at h
  · exact ⟨_, rfl, Cursor.splitOn?_isSome_iff.1 h⟩
  · cases h

/-- A start tag is none of the other things that a `<` begins. -/
theorem startsOpenTag_only {s : List Char} (h : startsOpenTag s = true) :
    startsComment s = false ∧ startsCloseTag s = false ∧ startsDeclaration s = false := by
  obtain ⟨x, r, rfl, hx⟩ := startsOpenTag_eq h
  have hslash : x ≠ '/' := by rintro rfl; cases hx
  have hbang : x ≠ '!' := by rintro rfl; cases hx
  simp [startsComment, startsCloseTag, startsDeclaration, hslash, hbang]

theorem startsCloseTag_only {s : List Char} (h : startsCloseTag s = true) :
    startsComment s = false := by
  obtain ⟨x, r, rfl, hx⟩ := startsCloseTag_eq h
  rfl

theorem startsDeclaration_only {s : List Char} (h : startsDeclaration s = true) :
    startsCloseTag s = false := by
  obtain ⟨r, rfl⟩ := startsDeclaration_eq h
  rfl

theorem startsDeclaration_of_comment {s : List Char} (h : startsComment s = true) :
    startsDeclaration s = true := by
  obtain ⟨r, rfl⟩ := startsComment_eq h
  rfl

theorem endsText_eq_false_iff {s : List Char} :
    endsText s = false ↔ startsInterpolation s = false ∧ startsOpenTag s = false ∧
      startsCloseTag s = false ∧ startsDeclaration s = false := by
  simp [endsText, and_assoc]

/-! ## §4. Tokens -/

/-- Reading moves from a cursor over a token to another cursor. -/
inductive ReadsToken : Cursor → Token → Cursor → Prop where
  | comment {c d : Cursor} {content : List Char} (h : startsComment c.rest = true)
    (hd : (c.skip 4).takeUntil? ['-', '-', '>'] = some (content, d)) :
    ReadsToken c (.comment (String.ofList content) c.offset) d
  | closeTag {c d : Cursor} {tag : CloseTag} {mark : List Char}
    (h : startsCloseTag c.rest = true) (hd : ReadsClose c tag mark d) :
    ReadsToken c (.closeTag tag) d
  | declaration {c d : Cursor} {content : List Char} (h : startsDeclaration c.rest = true)
    (hn : startsComment c.rest = false) (hd : c.takeUntil? ['>'] = some (content, d)) :
    ReadsToken c .declaration d
  | openTag {c d : Cursor} {tag : OpenTag} {text : List Char} (h : startsOpenTag c.rest = true)
    (hd : ReadsTag c tag text d) (hraw : tag.isRawText = false) :
    ReadsToken c (.openTag tag d.offset) d
  | rawElement {c m d : Cursor} {tag : OpenTag} {text content : List Char}
    (h : startsOpenTag c.rest = true) (hm : ReadsTag c tag text m) (hraw : tag.isRawText = true)
    (hd : readRawText tag m = .ok (content, d)) :
    ReadsToken c (.rawElement tag (String.ofList content) m.offset d.offset) d
  | interpolation {c d : Cursor} {r content : List Char} (h : c.rest = '{' :: '{' :: r)
    (hd : (c.skip 2).takeUntil? ['}', '}'] = some (content, d)) :
    ReadsToken c (.interpolation (String.ofList (Text.trim content)) c.offset) d
  | text {c : Cursor} (h : endsText c.rest = false) :
    ReadsToken c (.text (String.ofList (textRun c.rest)) c.offset)
      (c.skip (textRun c.rest).length)

theorem readInterpolation?_eq_none_iff {c : Cursor} :
    readInterpolation? c = none ↔ startsInterpolation c.rest = false := by
  unfold readInterpolation? startsInterpolation
  split
  · next r hr =>
    rw [Option.map_eq_none_iff, Cursor.takeUntil?, Option.map_eq_none_iff, Cursor.skip_two hr,
      Option.isSome_eq_false_iff, Option.isNone_iff_eq_none]
  · simp

theorem readsToken_of_next {c d : Cursor} {t : Token} (h : next c = .ok (t, d)) :
    ReadsToken c t d := by
  unfold next at h
  split at h
  · next hcomment =>
    unfold readComment at h
    split at h
    · next content stop hstop =>
      obtain ⟨rfl, rfl⟩ := Prod.mk.inj (Except.ok.inj h)
      exact .comment hcomment hstop
    · cases h
  · next hcomment =>
    split at h
    · next hclose =>
      split at h
      · cases h
      · next tag stop hread =>
        obtain ⟨rfl, rfl⟩ := Prod.mk.inj (Except.ok.inj h)
        obtain ⟨mark, hmark⟩ := readsClose_of_readCloseTag hread
        exact .closeTag hclose hmark
    · next hclose =>
      split at h
      · next hdecl =>
        unfold readDeclaration at h
        split at h
        · next content stop hstop =>
          obtain ⟨rfl, rfl⟩ := Prod.mk.inj (Except.ok.inj h)
          exact .declaration hdecl (by simpa using hcomment) hstop
        · cases h
      · next hdecl =>
        split at h
        · next hopen =>
          obtain ⟨x, r, hr, -⟩ := startsOpenTag_eq hopen
          unfold readElement at h
          split at h
          · cases h
          · next tag m hread =>
            obtain ⟨text, htag⟩ := readsTag_of_readOpenTag hr hread
            split at h
            · next hraw =>
              split at h
              · cases h
              · next content stop hcontent =>
                obtain ⟨rfl, rfl⟩ := Prod.mk.inj (Except.ok.inj h)
                exact .rawElement hopen htag hraw hcontent
            · next hraw =>
              obtain ⟨rfl, rfl⟩ := Prod.mk.inj (Except.ok.inj h)
              exact .openTag hopen htag (by simpa using hraw)
        · next hopen =>
          split at h
          · next token htoken =>
            cases Except.ok.inj h
            unfold readInterpolation? at htoken
            split at htoken
            · next r hr =>
              obtain ⟨⟨content, stop⟩, hstop, heq⟩ := Option.map_eq_some_iff.1 htoken
              obtain ⟨rfl, rfl⟩ := Prod.mk.inj heq
              exact .interpolation hr hstop
            · cases htoken
          · next hnone =>
            obtain ⟨rfl, rfl⟩ := Prod.mk.inj (Except.ok.inj h)
            refine .text (endsText_eq_false_iff.2 ⟨readInterpolation?_eq_none_iff.1 hnone, ?_, ?_, ?_⟩)
            · simpa using hopen
            · simpa using hclose
            · simpa using hdecl

theorem ReadsToken.next {c d : Cursor} {t : Token} (h : ReadsToken c t d) :
    next c = .ok (t, d) := by
  cases h with
  | comment h hd => simp only [Template.next, h, if_true, readComment, hd]
  | closeTag h hd =>
    simp only [Template.next, startsCloseTag_only h, h, if_true, hd.readCloseTag]
    rfl
  | declaration h hn hd =>
    simp only [Template.next, hn, startsDeclaration_only h, h, if_true, readDeclaration, hd]
    rfl
  | openTag h hd hraw =>
    obtain ⟨hcomment, hclose, hdecl⟩ := startsOpenTag_only h
    simp only [Template.next, hcomment, hclose, hdecl, h, if_true, readElement, hd.readOpenTag, hraw]
    rfl
  | rawElement h hm hraw hd =>
    obtain ⟨hcomment, hclose, hdecl⟩ := startsOpenTag_only h
    simp only [Template.next, hcomment, hclose, hdecl, h, if_true, readElement, hm.readOpenTag, hraw,
      hd]
    rfl
  | interpolation h hd =>
    simp only [Template.next, readInterpolation?, h, hd]
    rfl
  | text h =>
    obtain ⟨hint, hopen, hclose, hdecl⟩ := endsText_eq_false_iff.1 h
    -- a comment would be a declaration
    have hcomment : startsComment c.rest = false := by
      rw [← Bool.not_eq_true]
      exact fun hc => by rw [startsDeclaration_of_comment hc] at hdecl; cases hdecl
    simp only [Template.next, hcomment, hclose, hdecl, hopen, readInterpolation?_eq_none_iff.2 hint]
    rfl

theorem next_eq_ok_iff {c d : Cursor} {t : Token} : next c = .ok (t, d) ↔ ReadsToken c t d :=
  ⟨readsToken_of_next, ReadsToken.next⟩

/-! ## §5. Texts -/

theorem textRun_more_spec (s : List Char) :
    ∃ r, s = textRun.more s ++ r ∧ (r = [] ∨ endsText r = true) ∧
      ∀ u v, textRun.more s = u ++ v → v ≠ [] → endsText (v ++ r) = false := by
  induction s with
  | nil => exact ⟨[], rfl, .inl rfl, fun u v h hv => absurd (List.append_eq_nil_iff.1 h.symm).2 hv⟩
  | cons c s ih =>
    rw [textRun.more]
    cases hends : endsText (c :: s) with
    | true =>
      refine ⟨c :: s, rfl, .inr hends, fun u v h hv => ?_⟩
      exact absurd (List.append_eq_nil_iff.1 h.symm).2 hv
    | false =>
      -- the run goes on with `c`, and stops where that of `s` stops
      obtain ⟨r, hs, hr, hin⟩ := ih
      refine ⟨r, congrArg (c :: ·) hs, hr, fun u v h hv => ?_⟩
      cases u with
      | nil =>
        rw [show v = c :: textRun.more s from h.symm, List.cons_append, ← hs]
        exact hends
      | cons x u => exact hin u v (List.cons.inj h).2 hv

/-- A text ends where something else begins, and not before. -/
theorem textRun_spec (s : List Char) :
    ∃ r, s = textRun s ++ r ∧ (r = [] ∨ endsText r = true) ∧
      ∀ u v, textRun s = u ++ v → u ≠ [] → v ≠ [] → endsText (v ++ r) = false := by
  cases s with
  | nil => exact ⟨[], rfl, .inl rfl, fun u v h hu => absurd (List.append_eq_nil_iff.1 h.symm).1 hu⟩
  | cons c s =>
    obtain ⟨r, hs, hr, hin⟩ := textRun_more_spec s
    refine ⟨r, congrArg (c :: ·) hs, hr, fun u v h hu hv => ?_⟩
    cases u with
    | nil => exact absurd rfl hu
    | cons x u => exact hin u v (List.cons.inj h).2 hv

theorem textRun_more_append {w r : List Char} (hr : r = [] ∨ endsText r = true)
    (hin : ∀ u v, w = u ++ v → v ≠ [] → endsText (v ++ r) = false) :
    textRun.more (w ++ r) = w := by
  induction w with
  | nil =>
    rcases hr with rfl | hr
    · rfl
    · cases r with
      | nil => rfl
      | cons c r => rw [List.nil_append, textRun.more, if_pos hr]
  | cons c w ih =>
    have hc : endsText (c :: (w ++ r)) = false := hin [] (c :: w) rfl (by simp)
    rw [List.cons_append, textRun.more, hc,
      ih fun u v h hv => hin (c :: u) v (congrArg (c :: ·) h) hv]
    rfl

theorem textRun_append {w r : List Char} (hw : w ≠ []) (hr : r = [] ∨ endsText r = true)
    (hin : ∀ u v, w = u ++ v → u ≠ [] → v ≠ [] → endsText (v ++ r) = false) :
    textRun (w ++ r) = w := by
  cases w with
  | nil => exact absurd rfl hw
  | cons c w =>
    show c :: textRun.more (w ++ r) = c :: w
    rw [textRun_more_append hr fun u v h hv => hin (c :: u) v (congrArg (c :: ·) h) (by simp) hv]

/-! ## §6. What a token takes -/

/-- The start tag of a token. -/
def Token.tag? : Token → Option OpenTag
  | .openTag tag _ | .rawElement tag _ _ _ => some tag
  | .comment _ _ | .declaration | .text _ _ | .interpolation _ _ | .closeTag _ => none

/-- The start tags of a list of tokens. -/
def tagsOf (tokens : List Token) : List OpenTag := tokens.filterMap Token.tag?

theorem mem_tagsOf_cons {t : Token} {ts : List Token} {tag : OpenTag} :
    tag ∈ tagsOf (t :: ts) ↔ t.tag? = some tag ∨ tag ∈ tagsOf ts := by
  simp only [tagsOf, List.mem_filterMap, List.mem_cons, exists_eq_or_imp]

theorem ReadsTag.mark_not_mem {c d : Cursor} {tag : OpenTag} {text : List Char}
    (h : ReadsTag c tag text d) : '>' ∉ tag.name.toList := by
  intro hmem
  have hpart := h.name _ hmem
  revert hpart
  decide

theorem takes_textRun (c : Cursor) : Takes c (textRun c.rest) (c.skip (textRun c.rest).length) := by
  obtain ⟨r, hr, -⟩ := textRun_spec c.rest
  have htake := Cursor.takes_skip c (textRun c.rest).length
  rwa [List.prefix_iff_eq_take.1 ⟨r, hr.symm⟩ |>.symm] at htake

theorem ReadsToken.takes {c d : Cursor} {t : Token} (hc : c.rest ≠ []) (h : ReadsToken c t d) :
    ∃ w, w ≠ [] ∧ Takes c w d := by
  cases h with
  | comment h hd =>
    exact ⟨_, by simp, (Cursor.takes_skip c 4).trans (Cursor.takes_takeUntil? hd)⟩
  | closeTag h hd => exact ⟨_, by simp, hd.takes⟩
  | declaration h hn hd => exact ⟨_, by simp, Cursor.takes_takeUntil? hd⟩
  | openTag h hd hraw => exact hd.takes
  | rawElement h hm hraw hd =>
    obtain ⟨w, -, hw⟩ := hm.takes
    obtain ⟨v, hv, -⟩ := readRawText_replace hm.mark_not_mem hd
    exact ⟨_, by simp, hw.trans hv⟩
  | interpolation h hd =>
    exact ⟨_, by simp, (Cursor.takes_skip c 2).trans (Cursor.takes_takeUntil? hd)⟩
  | text h =>
    refine ⟨textRun c.rest, ?_, takes_textRun c⟩
    exact List.ne_nil_of_length_pos (textRun_length_pos hc)

/-- A start tag stands in front of its token. -/
theorem ReadsToken.readsTag {c d : Cursor} {t : Token} {tag : OpenTag} (h : ReadsToken c t d)
    (ht : t.tag? = some tag) :
    startsOpenTag c.rest = true ∧ ∃ text m, ReadsTag c tag text m ∧ m.offset ≤ d.offset := by
  cases h with
  | comment h hd => cases ht
  | closeTag h hd => cases ht
  | declaration h hn hd => cases ht
  | openTag h hd hraw =>
    cases ht
    exact ⟨h, _, _, hd, Nat.le_refl _⟩
  | rawElement h hm hraw hd =>
    cases ht
    obtain ⟨v, hv, -⟩ := readRawText_replace hm.mark_not_mem hd
    exact ⟨h, _, _, hm, hv.offset_le⟩
  | interpolation h hd => cases ht
  | text h => cases ht

/-- Only where something other than a text begins a text ends. -/
theorem ReadsToken.endsText {c d : Cursor} {t : Token} (h : ReadsToken c t d)
    (ht : ∀ content start, t ≠ .text content start) : endsText c.rest = true := by
  cases h with
  | comment h hd => simp [Template.endsText, startsDeclaration_of_comment h]
  | closeTag h hd => simp [Template.endsText, h]
  | declaration h hn hd => simp [Template.endsText, h]
  | openTag h hd hraw => simp [Template.endsText, h]
  | rawElement h hm hraw hd => simp [Template.endsText, h]
  | @interpolation _ r content h hd =>
    have hfound : (Cursor.splitOn? ['}', '}'] r).isSome = true := by
      rw [Cursor.skip_two h] at hd
      obtain ⟨parts, hparts, -⟩ := Option.map_eq_some_iff.1 hd
      rw [hparts]
      rfl
    have hstarts : startsInterpolation c.rest = true := by
      rw [h]
      exact hfound
    simp [Template.endsText, hstarts]
  | text h => exact absurd rfl (ht _ _)

end Provenance.Template
