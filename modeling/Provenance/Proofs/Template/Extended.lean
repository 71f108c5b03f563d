import Provenance.Proofs.Template.Reread

/-! # Reading extended texts

  A text is read again with more text behind it (`Text.Cursor.extended`).

  The end of a comment, a declaration, a tag, raw text or an interpolation is looked for
  in all that remains of the file.  But once it is found nothing behind it matters, so
  each is found again and ends at the same place.

  A text is the one token that depends on all that follows: it holds `{{` if no `}}` comes
  behind it, and more text may bring one (`Token.Stays`).  Where none of the texts does
  so, a template is found again with the same content (`ReadsTemplate.extended`).
-/

namespace Provenance

open Text (Cursor)
open Text.Cursor (Takes)

/-! ## §1. Cursors -/

/-- The same place where more text follows. -/
def Text.Cursor.extended (c : Cursor) (y : List Char) : Cursor := ⟨c.offset, c.rest ++ y⟩

namespace Template

theorem skip_extended {c : Cursor} {n : Nat} (hn : n ≤ c.rest.length) (y : List Char) :
    (c.extended y).skip n = (c.skip n).extended y := by
  show Cursor.mk _ _ = Cursor.mk _ _
  rw [show (c.extended y).rest = c.rest ++ y from rfl, List.take_append_of_le_length hn,
    List.drop_append_of_le_length hn]
  rfl

theorem takeUntil?_extended {c d : Cursor} {p content : List Char} (hp : p ≠ [])
    (h : c.takeUntil? p = some (content, d)) (y : List Char) :
    (c.extended y).takeUntil? p = some (content, d.extended y) := by
  have hw := Cursor.takes_takeUntil? h
  have hfound := Cursor.takeUntil?_replace hp h c.offset (d.rest ++ y)
  rw [← hw.offset, ← List.append_assoc, ← hw.rest] at hfound
  exact hfound

/-- What is read behind a mark up to a pattern is found again. -/
theorem takeUntil?_mark_extended {c d : Cursor} {n : Nat} {p content : List Char} (hp : p ≠ [])
    (hn : n ≤ c.rest.length) (h : (c.skip n).takeUntil? p = some (content, d)) (y : List Char) :
    ((c.extended y).skip n).takeUntil? p = some (content, d.extended y) := by
  rw [skip_extended hn]
  exact takeUntil?_extended hp h y

/-! ## §2. What begins where -/

/-- A text is empty or ends with `>`. -/
def EndsWithMark (s : List Char) : Prop := ∀ x ∈ s.getLast?, x = '>'

theorem EndsWithMark.of_append {a b : List Char} (h : EndsWithMark (a ++ b)) :
    EndsWithMark b := by
  intro x hx
  refine h x ?_
  rw [List.getLast?_append, Option.mem_def.1 hx]
  rfl

theorem EndsWithMark.of_takes {c d : Cursor} {w : List Char} (h : EndsWithMark c.rest)
    (hw : Takes c w d) : EndsWithMark d.rest := by
  rw [hw.rest] at h
  exact h.of_append

/-- What a `<` begins shows in front of the last mark of a text. -/
theorem starts_extended {s : List Char} (hs : s ≠ []) (hend : EndsWithMark s) (y : List Char) :
    startsOpenTag (s ++ y) = startsOpenTag s ∧ startsCloseTag (s ++ y) = startsCloseTag s ∧
    startsDeclaration (s ++ y) = startsDeclaration s := by
  match s with
  | [] => exact absurd rfl hs
  | [x] =>
    obtain rfl : x = '>' := hend x rfl
    exact ⟨rfl, rfl, rfl⟩
  | [x, z] =>
    -- a `<` in front of the mark begins nothing
    obtain rfl : z = '>' := hend z rfl
    by_cases hx : x = '<'
    · subst hx
      exact ⟨rfl, rfl, rfl⟩
    · simp [startsOpenTag, startsCloseTag, startsDeclaration, hx]
  | x :: z :: w :: s =>
    obtain ⟨hopen, hclose, hdecl⟩ := starts_take_three (x :: z :: w :: s)
    obtain ⟨hopen', hclose', hdecl'⟩ := starts_take_three (x :: z :: w :: s ++ y)
    exact ⟨hopen'.trans hopen.symm, hclose'.trans hclose.symm, hdecl'.trans hdecl.symm⟩

theorem startsComment_extended {s : List Char} (hend : EndsWithMark s) (y : List Char)
    (h : startsComment s = false) (hdecl : startsDeclaration s = true) :
    startsComment (s ++ y) = false := by
  obtain ⟨r, rfl⟩ := startsDeclaration_eq hdecl
  have hlast := EndsWithMark.of_append (a := ['<', '!']) hend
  rcases List.eq_nil_or_concat r with rfl | ⟨v, x, rfl⟩
  · have hmark := hend '!' rfl
    cases hmark
  · obtain rfl : x = '>' := hlast x (by rw [List.concat_eq_append, List.getLast?_concat]; rfl)
    rw [List.concat_eq_append] at h ⊢
    have happend := startsComment_append v y []
    rw [← h, ← happend]
    simp

/-- A text that goes on as an interpolation was one already, or its `}}` is new. -/
theorem startsInterpolation_extended {s y : List Char} (hs : s ≠ []) (hend : EndsWithMark s)
    (h : startsInterpolation (s ++ y) = true) :
    startsInterpolation s = true ∨ (['{', '{'] <+: s ∧ ['}', '}'] <:+: y) := by
  obtain ⟨r, hr, hin⟩ := startsInterpolation_eq h
  rcases s with _ | ⟨x, _ | ⟨z, s⟩⟩
  · exact absurd rfl hs
  · -- one character is the mark
    obtain rfl : x = '>' := hend x rfl
    cases (List.cons.inj hr).1
  · obtain ⟨rfl, htail⟩ := List.cons.inj hr
    obtain ⟨rfl, rfl⟩ := List.cons.inj htail
    rcases Text.pair_infix_append hin with hin | hin | ⟨hlast, -⟩
    · exact .inl (Cursor.splitOn?_isSome_iff.2 hin)
    · exact .inr ⟨List.prefix_append ['{', '{'] s, hin⟩
    · have hmark := EndsWithMark.of_append (a := ['{', '{']) hend _ hlast
      cases hmark

theorem startsInterpolation_append {s : List Char} (h : startsInterpolation s = true)
    (y : List Char) : startsInterpolation (s ++ y) = true := by
  obtain ⟨r, rfl, hin⟩ := startsInterpolation_eq h
  exact Cursor.splitOn?_isSome_iff.2 (hin.trans (List.prefix_append r y).isInfix)

/-- Where a text ends it ends if more follows. -/
theorem endsText_append {s : List Char} (hs : s ≠ []) (hend : EndsWithMark s) (y : List Char)
    (h : endsText s = true) : endsText (s ++ y) = true := by
  obtain ⟨hopen, hclose, hdecl⟩ := starts_extended hs hend y
  rw [endsText, hopen, hclose, hdecl]
  cases hint : startsInterpolation s with
  | true => rw [startsInterpolation_append hint]; rfl
  | false =>
    rw [endsText, hint, Bool.false_or] at h
    rw [Bool.or_assoc, Bool.or_assoc, ← Bool.or_assoc (startsOpenTag s), h, Bool.or_true]

/-- Where a text goes on it goes on if what follows closes no `{{`. -/
theorem endsText_extended {s y : List Char} (hs : s ≠ []) (hend : EndsWithMark s)
    (hbraces : ['{', '{'] <+: s → ¬ ['}', '}'] <:+: y) (h : endsText s = false) :
    endsText (s ++ y) = false := by
  obtain ⟨hint, hopen, hclose, hdecl⟩ := endsText_eq_false_iff.1 h
  obtain ⟨hopen', hclose', hdecl'⟩ := starts_extended hs hend y
  refine endsText_eq_false_iff.2 ⟨?_, hopen'.trans hopen, hclose'.trans hclose, hdecl'.trans hdecl⟩
  rw [← Bool.not_eq_true]
  intro hstarts
  rcases startsInterpolation_extended hs hend hstarts with hold | ⟨hopen, hclose⟩
  · rw [hint] at hold
    cases hold
  · exact hbraces hopen hclose

/-! ## §3. Tags and raw text -/

theorem Entry.mapStart_zero (e : Entry) : e.mapStart (· + 0) = e := by
  cases e <;> rfl

/-- The rest of a start tag is found again. -/
theorem ReadsBody.extended {c d : Cursor} {body : TagBody} (h : ReadsBody c body d)
    (y : List Char) : ReadsBody (c.extended y) body (d.extended y) := by
  obtain ⟨w, hw⟩ := h.takes
  have hrest : c.rest = w ++ '>' :: d.rest := by rw [hw.rest, List.append_assoc]; rfl
  have hreads := h.replace hrest 0 (d.rest ++ y)
  have hentries : body.entries.map (·.mapStart (· + 0)) = body.entries := by
    simp only [Entry.mapStart_zero, List.map_id']
  have htext : w ++ '>' :: (d.rest ++ y) = c.rest ++ y := by rw [hrest]; simp
  rw [hentries, htext] at hreads
  exact hreads

/-- A start tag is found again. -/
theorem ReadsTag.extended {c d : Cursor} {tag : OpenTag} {text : List Char}
    (h : ReadsTag c tag text d) (y : List Char) :
    ReadsTag (c.extended y) tag (text ++ y) (d.extended y) where
  rest := by
    show c.rest ++ y = _
    rw [h.rest, List.cons_append, List.append_assoc]
  name := h.name
  stop := by
    obtain ⟨x, r, rfl, hx⟩ := h.stop
    exact ⟨x, r ++ y, rfl, hx⟩
  start := h.start
  nameEnd := h.nameEnd
  body := h.body.extended y

/-- An end tag where more text follows. -/
def CloseTag.extended (tag : CloseTag) (y : List Char) : CloseTag :=
  { tag with after := tag.after.extended y }

/-- An end tag is found again. -/
theorem ReadsClose.extended {c d : Cursor} {tag : CloseTag} {mark : List Char}
    (h : ReadsClose c tag mark d) (y : List Char) :
    ReadsClose (c.extended y) (tag.extended y) mark (d.extended y) where
  length := h.length
  rest := by
    show c.rest ++ y = mark ++ (tag.inner ++ '>' :: (d.rest ++ y))
    rw [h.rest]
    simp
  offset := h.offset
  inner := h.inner
  name := h.name
  start := h.start
  after := congrArg (Cursor.extended · y) h.after

/-- Raw text with its end tag is found again. -/
theorem readRawText_extended {c d : Cursor} {tag : OpenTag} {content : List Char}
    (hname : '>' ∉ tag.name.toList) (h : readRawText tag c = .ok (content, d)) (y : List Char) :
    readRawText tag (c.extended y) = .ok (content, d.extended y) := by
  obtain ⟨w, hw, hreplace⟩ := readRawText_replace hname h
  have htext : w ++ '>' :: (d.rest ++ y) = c.rest ++ y := by rw [hw.rest]; simp
  have hraw := hreplace tag 0 (d.rest ++ y) rfl
  rw [htext] at hraw
  exact hraw

/-! ## §4. Tokens -/

/-- A token where more text follows. -/
def Token.extended (y : List Char) : Token → Token
  | .closeTag tag => .closeTag (tag.extended y)
  | token => token

/-- More text behind a token leaves it alone: it closes no `{{` of a text. -/
def Token.Stays (y : List Char) : Token → Prop
  | .text content _ => ['{', '{'] <:+: content.toList → ¬ ['}', '}'] <:+: y
  | _ => True

theorem tagsOf_extended (y : List Char) (ts : List Token) :
    tagsOf (ts.map (Token.extended y)) = tagsOf ts := by
  rw [tagsOf, tagsOf, List.filterMap_map]
  congr 1
  funext t
  cases t <;> rfl

/-- A `{{` does not begin at the last character of a text.  Were what follows the text an
    interpolation, one would have begun there already. -/
theorem prefix_of_textRun {u v r : List Char} (hv : v ≠ []) (hr : endsText r = true)
    (hgo : endsText (v ++ r) = false) (h : ['{', '{'] <+: v ++ r) :
    ['{', '{'] <:+: u ++ v := by
  obtain ⟨t, ht⟩ := h
  match v with
  | [] => exact absurd rfl hv
  | [x] =>
    exfalso
    obtain ⟨rfl, htail⟩ := List.cons.inj ht
    obtain rfl : '{' :: t = r := htail
    -- a text ends in front of a brace only if an interpolation begins there
    have hstarts : startsInterpolation ('{' :: t) = true := by
      simpa [endsText, startsOpenTag, startsCloseTag, startsDeclaration] using hr
    obtain ⟨s, hs, hin⟩ := startsInterpolation_eq hstarts
    have hclosed : startsInterpolation (['{'] ++ '{' :: t) = true := by
      refine Cursor.splitOn?_isSome_iff.2 ?_
      rw [(List.cons.inj hs).2]
      exact hin.trans (List.suffix_cons '{' s).isInfix
    rw [(endsText_eq_false_iff.1 hgo).1] at hclosed
    cases hclosed
  | x :: z :: v =>
    obtain ⟨rfl, htail⟩ := List.cons.inj ht
    obtain ⟨rfl, -⟩ := List.cons.inj htail
    exact ⟨u, v, by simp⟩

/-- A text with something behind it is found again. -/
theorem text_extended {c : Cursor} {y : List Char} (hc : c.rest ≠ []) (hend : EndsWithMark c.rest)
    (h : endsText c.rest = false) (hnext : (c.skip (textRun c.rest).length).rest ≠ [])
    (hstays : ['{', '{'] <:+: textRun c.rest → ¬ ['}', '}'] <:+: y) :
    ReadsToken (c.extended y) (.text (String.ofList (textRun c.rest)) c.offset)
      ((c.skip (textRun c.rest).length).extended y) := by
  obtain ⟨r, hr, hstop, hin⟩ := textRun_spec c.rest
  have hw := takes_textRun c
  have hrest : (c.skip (textRun c.rest).length).rest = r :=
    List.append_cancel_left (hw.rest.symm.trans hr)
  rw [hrest] at hnext
  have hstop : endsText r = true := hstop.resolve_left hnext
  have hne : textRun c.rest ≠ [] := List.ne_nil_of_length_pos (textRun_length_pos hc)
  rw [hr] at hend
  -- at each of its characters the text goes on
  have hgo : ∀ u v, textRun c.rest = u ++ v → v ≠ [] → endsText (v ++ r) = false →
      endsText (v ++ (r ++ y)) = false := by
    intro u v huv hv hold
    have hendv : EndsWithMark (v ++ r) := by
      rw [huv, List.append_assoc] at hend
      exact hend.of_append
    rw [← List.append_assoc]
    refine endsText_extended (by simp [hv]) hendv (fun hopen => hstays ?_) hold
    rw [huv]
    exact prefix_of_textRun hv hstop hold hopen
  have hrun : textRun (c.rest ++ y) = textRun c.rest := by
    have hsplit : c.rest ++ y = textRun c.rest ++ (r ++ y) := by rw [← List.append_assoc, ← hr]
    rw [hsplit]
    refine textRun_append hne (.inr (endsText_append hnext hend.of_append y hstop)) ?_
    intro u v huv hu hv
    exact hgo u v huv hv (hin u v huv hu hv)
  have hstart : endsText (c.rest ++ y) = false := by
    rw [hr] at h
    rw [hr, List.append_assoc]
    exact hgo [] (textRun c.rest) rfl hne h
  have htoken := ReadsToken.text (c := c.extended y) hstart
  have hlen : (textRun c.rest).length ≤ c.rest.length := by
    have hlen := congrArg List.length hr
    rw [List.length_append] at hlen
    omega
  rw [show (c.extended y).rest = c.rest ++ y from rfl, hrun, skip_extended hlen] at htoken
  exact htoken

/-- A comment is found again. -/
theorem comment_extended {c d : Cursor} {content : List Char} (h : startsComment c.rest = true)
    (hd : (c.skip 4).takeUntil? ['-', '-', '>'] = some (content, d)) (y : List Char) :
    startsComment (c.extended y).rest = true ∧
    ((c.extended y).skip 4).takeUntil? ['-', '-', '>'] = some (content, d.extended y) := by
  obtain ⟨r, hr⟩ := startsComment_eq h
  constructor
  · show startsComment (c.rest ++ y) = true
    rw [hr]
    rfl
  · exact takeUntil?_mark_extended (by simp) (by rw [hr]; simp) hd y

/-- A token with something behind it is found again where more text leaves it alone. -/
theorem ReadsToken.extended {c d : Cursor} {t : Token} {y : List Char} (h : ReadsToken c t d)
    (hc : c.rest ≠ []) (hend : EndsWithMark c.rest) (hnext : d.rest ≠ []) (hstays : t.Stays y) :
    ReadsToken (c.extended y) (t.extended y) (d.extended y) := by
  obtain ⟨hopen, hclose, hdecl⟩ := starts_extended hc hend y
  cases h with
  | comment h hd =>
    obtain ⟨hstarts, hfound⟩ := comment_extended h hd y
    exact .comment hstarts hfound
  | closeTag h hd => exact .closeTag (hclose.trans h) (hd.extended y)
  | declaration h hn hd =>
    exact .declaration (hdecl.trans h) (startsComment_extended hend y hn h)
      (takeUntil?_extended (by simp) hd y)
  | openTag h hd hraw => exact .openTag (hopen.trans h) (hd.extended y) hraw
  | rawElement h hm hraw hd =>
    exact .rawElement (hopen.trans h) (hm.extended y) hraw
      (readRawText_extended hm.mark_not_mem hd y)
  | @interpolation _ r _ h hd =>
    refine .interpolation (r := r ++ y) ?_
      (takeUntil?_mark_extended (by simp) (by rw [h]; simp) hd y)
    show c.rest ++ y = _
    rw [h]
    rfl
  | text h =>
    refine text_extended hc hend h hnext ?_
    rw [Token.Stays, String.toList_ofList] at hstays
    exact hstays

/-- A scan with something behind it finds its tokens again. -/
theorem Scan.extended {c d : Cursor} {ts : List Token} {y : List Char} (h : Scan c ts d)
    (hend : EndsWithMark c.rest) (hd : d.rest ≠ []) (hstays : ∀ t ∈ ts, t.Stays y) :
    Scan (c.extended y) (ts.map (Token.extended y)) (d.extended y) := by
  induction h with
  | nil c => exact .nil _
  | @cons c m d t ts hc ht hs ih =>
    obtain ⟨w, -, hw⟩ := ht.takes hc
    have hm : m.rest ≠ [] := by
      cases hs with
      | nil => exact hd
      | cons hm _ _ => exact hm
    have htoken := ht.extended hc hend hm (hstays t List.mem_cons_self)
    have hrest := ih (hend.of_takes hw) hd fun t' ht' => hstays t' (List.mem_cons_of_mem t ht')
    exact .cons (by simp [Cursor.extended, hc]) htoken hrest

/-! ## §5. Templates -/

/-- The content of a block where more text follows. -/
def Content.extended (content : Content) (y : List Char) : Content :=
  { content with close := content.close.extended y }

/-- What is built from tokens does not depend on what follows their end tags. -/
theorem contentOf_extended (block : String) (failure : Option Error) (stop : Nat)
    (s : OpenElements) (ts : List Token) (y : List Char) :
    contentOf block failure stop s (ts.map (Token.extended y)) =
      (contentOf block failure stop s ts).map (·.extended y) := by
  induction ts generalizing s with
  | nil => rfl
  | cons t ts ih =>
    rw [List.map_cons]
    cases t with
    | comment content start | text content start | interpolation content start =>
      exact ih _
    | declaration => exact ih s
    | rawElement tag content start elementStop => exact ih _
    | openTag tag tagStop =>
      show contentOf block failure stop s (.openTag tag tagStop :: _) = _
      rw [contentOf, contentOf]
      split
      · exact ih _
      · exact ih _
    | closeTag tag =>
      rw [Token.extended, contentOf, contentOf]
      show (if sameName tag.name.toList _ = true then _ else _) = _
      split
      · cases s.frames with
        | nil => rfl
        | cons frame outer => exact ih _
      · rfl

/-- A template is found again, with the same content. -/
theorem ReadsTemplate.extended {k : Component} {c m d : Cursor} {tag : OpenTag}
    {tokens : List Token} {content : Content} {y : List Char}
    (h : ReadsTemplate k c tag m tokens content d) (hend : EndsWithMark c.rest)
    (hstays : ∀ t ∈ tokens, t.Stays y) :
    ReadsTemplate k (c.extended y) tag (m.extended y) (tokens.map (Token.extended y))
      (content.extended y) (d.extended y) := by
  obtain ⟨text, hm⟩ := h.startTag
  obtain ⟨v, -, hv⟩ := hm.takes
  obtain ⟨n, hn, hstarts, hclose⟩ := h.scan.split_closeTag
  obtain ⟨w, hw⟩ := hn.takes
  have hendm := hend.of_takes hv
  have hn' : n.rest ≠ [] := by
    intro hnil
    rw [hnil] at hstarts
    cases hstarts
  -- the end tag of the block stands behind its tokens, so they are found again
  have hscan := hn.extended hendm hn' hstays
  have hstarts' : startsCloseTag (n.extended y).rest = true :=
    (starts_extended hn' (hendm.of_takes hw) y).2.1.trans hstarts
  have hlast : Scan (n.extended y) [.closeTag (content.close.extended y)] (d.extended y) :=
    .cons (by simp [Cursor.extended, hn']) (.closeTag hstarts' (hclose.extended y)) (.nil _)
  refine ⟨?_, ⟨_, hm.extended y⟩, h.selfClosing, h.first, h.isTemplate,
    Scan.append_iff.2 ⟨_, hscan, hlast⟩, ?_, ?_, h.closeName⟩
  · refine (starts_extended ?_ hend y).1.trans h.opens
    rw [hm.rest]
    exact List.cons_ne_nil _ _
  · intro failure stop more
    have hbuilds := contentOf_extended tag.name none 0 {} (tokens ++ [.closeTag content.close]) y
    rw [h.builds none 0 [], List.map_append] at hbuilds
    have hmore := contentOf_append hbuilds failure stop more
    rw [List.append_assoc] at hmore
    exact hmore
  · rw [tagsOf_extended]
    exact h.openTags

end Template

end Provenance
