import Provenance.Proofs.Template.Component
import Provenance.Proofs.Template.Nesting

/-! # Where reading stops

  A component that cannot be read has one error.  Reading comes to some place, between two
  blocks or inside the template, with some elements open there (`OpenAt`), or to a start tag
  with raw text behind it (`RawAt`), and stops there:

  - what begins there is begun by the same marks at both places, and a reader of it fails
    (`Unreadable`),
  - raw text has no end tag, or only a part of one,
  - an end tag is not expected there,
  - or the text ends while an element is open.

  Main statement: these are exactly the errors (`parse_eq_error_iff`).
-/

namespace Provenance.Template

open Text (Cursor)

/-! ## §1. Where reading comes to -/

/-- Reading a source comes to a cursor with some elements open there, innermost first.  Between
    two blocks none is open; inside the template its block is the last one. -/
inductive OpenAt (source : List Char) : List OpenTag → Cursor → Prop where
  | between {k : Component} {c : Cursor} (hparts : Parts {} ⟨0, source⟩ k c) : OpenAt source [] c
  | within {k : Component} {b m c : Cursor} {block tag : OpenTag} {text : List Char}
    {tokens : List Token} {tags outer : List OpenTag} (hparts : Parts {} ⟨0, source⟩ k b)
    (hopen : startsOpenTag b.rest = true) (hm : ReadsTag b block text m)
    (hself : block.selfClosing = false) (hfirst : k.template = none)
    (htemplate : block.isTemplate = true) (hscan : Scan m tokens c) (hleaves : Leaves tokens tags)
    (htags : tags ++ [block] = tag :: outer) : OpenAt source (tag :: outer) c

/-- Reading a source comes to a start tag that ends at `m` and has raw text behind it: that of a
    block which is not the template, or of an element in the template. -/
inductive RawAt (source : List Char) (c : Cursor) (tag : OpenTag) (m : Cursor) : Prop where
  | block {k : Component} {text : List Char} (hparts : Parts {} ⟨0, source⟩ k c)
    (hopen : startsOpenTag c.rest = true) (hm : ReadsTag c tag text m)
    (hself : tag.selfClosing = false) (hraw : k.template = none → tag.isTemplate = false)
  | element {outer : OpenTag} {tags : List OpenTag} {text : List Char}
    (hin : OpenAt source (outer :: tags) c) (hopen : startsOpenTag c.rest = true)
    (hm : ReadsTag c tag text m) (hraw : tag.isRawText = true)

/-- A comment, a tag or a declaration begins at a cursor and cannot be read. -/
inductive Unreadable (c : Cursor) (e : Error) : Prop where
  | comment (hs : startsComment c.rest = true) (h : readComment c = .error e)
  | closeTag (hs : startsCloseTag c.rest = true) (h : readCloseTag c = .error e)
  | declaration (hs : startsDeclaration c.rest = true) (hn : startsComment c.rest = false)
    (h : readDeclaration c = .error e)
  | openTag (hs : startsOpenTag c.rest = true) (h : readOpenTag c = .error e)

/-- Reading a source stops with an error. -/
inductive Stops (source : List Char) : Error → Prop where
  | unreadable {tags : List OpenTag} {c : Cursor} {e : Error} (hin : OpenAt source tags c)
    (h : Unreadable c e) : Stops source e
  | rawText {c m : Cursor} {tag : OpenTag} {e : Error} (hraw : RawAt source c tag m)
    (h : readRawText tag m = .error e) : Stops source e
  | topLevel {c d : Cursor} {close : CloseTag} {mark : List Char} (hin : OpenAt source [] c)
    (hs : startsCloseTag c.rest = true) (h : ReadsClose c close mark d) :
    Stops source ⟨.unexpectedTopLevelEndTag close.name, c.offset⟩
  | unexpected {c d : Cursor} {close : CloseTag} {mark : List Char} {tag : OpenTag}
    {outer : List OpenTag} (hin : OpenAt source (tag :: outer) c)
    (hs : startsCloseTag c.rest = true) (h : ReadsClose c close mark d)
    (hname : sameName close.name.toList tag.name.toList = false) :
    Stops source ⟨.unexpectedEndTag close.name tag.name, c.offset⟩
  | ended {c : Cursor} {tag : OpenTag} {outer : List OpenTag}
    (hin : OpenAt source (tag :: outer) c) (hc : c.rest = []) :
    Stops source ⟨.missingEndTag tag.name, c.offset⟩

variable {source : List Char} {tags : List OpenTag} {c m : Cursor} {e : Error}

theorem OpenAt.standsIn (h : OpenAt source tags c) : c.StandsIn source := by
  have hsource : Cursor.StandsIn ⟨0, source⟩ source := ⟨[], rfl, rfl⟩
  cases h with
  | between hparts =>
    obtain ⟨w, hw⟩ := hparts.takes
    exact hsource.of_takes hw
  | within hparts hopen hm hself hfirst htemplate hscan hleaves htags =>
    obtain ⟨u, hu⟩ := hparts.takes
    obtain ⟨v, -, hv⟩ := hm.takes
    obtain ⟨w, hw⟩ := hscan.takes
    exact hsource.of_takes ((hu.trans hv).trans hw)

theorem RawAt.readsTag {tag : OpenTag} (h : RawAt source c tag m) :
    c.StandsIn source ∧ ∃ text, ReadsTag c tag text m ∧ m.StandsIn source := by
  have both : ∀ {text}, c.StandsIn source → ReadsTag c tag text m →
      c.StandsIn source ∧ ∃ text, ReadsTag c tag text m ∧ m.StandsIn source := by
    intro text hc hm
    obtain ⟨w, -, hw⟩ := hm.takes
    exact ⟨hc, text, hm, hc.of_takes hw⟩
  cases h with
  | block hparts hopen hm hself hraw => exact both (OpenAt.between hparts).standsIn hm
  | element hin hopen hm hraw => exact both hin.standsIn hm

/-! ## §2. Errors of tokens and parts -/

theorem Unreadable.rest_ne_nil (h : Unreadable c e) : c.rest ≠ [] := by
  intro hnil
  cases h with
  | comment hs h | closeTag hs h | declaration hs hn h | openTag hs h =>
    rw [hnil] at hs
    cases hs

theorem Unreadable.next (h : Unreadable c e) : next c = .error e := by
  cases h with
  | comment hs h =>
    rw [Template.next, if_pos hs]
    exact h
  | closeTag hs h => simp only [Template.next, startsCloseTag_only hs, hs, if_true, h]; rfl
  | declaration hs hn h =>
    simp only [Template.next, hn, startsDeclaration_only hs, hs, if_true, h]
    rfl
  | openTag hs h =>
    obtain ⟨hcomment, hclose, hdecl⟩ := startsOpenTag_only hs
    simp only [Template.next, hcomment, hclose, hdecl, hs, if_true, readElement, h]
    rfl

theorem Unreadable.readPart (h : Unreadable c e) (k : Component) : readPart k c = .error e := by
  cases h with
  | comment hs h =>
    rw [Template.readPart, if_pos hs, h]
    rfl
  | closeTag hs h => simp only [Template.readPart, startsCloseTag_only hs, hs, if_true, h]; rfl
  | declaration hs hn h =>
    simp only [Template.readPart, hn, startsDeclaration_only hs, hs, if_true, h]
    rfl
  | openTag hs h =>
    obtain ⟨hcomment, hclose, hdecl⟩ := startsOpenTag_only hs
    simp only [Template.readPart, hcomment, hclose, hdecl, hs, if_true, h]
    rfl

/-- A token cannot be read if it is unreadable, or if it is an element and its raw text is. -/
theorem next_eq_error_iff : next c = .error e ↔ Unreadable c e ∨
    ∃ tag text m, startsOpenTag c.rest = true ∧ ReadsTag c tag text m ∧ tag.isRawText = true ∧
      readRawText tag m = .error e := by
  constructor
  · intro h
    unfold next at h
    split at h
    · next hcomment => exact .inl (.comment hcomment h)
    · next hcomment =>
      split at h
      · next hclose =>
        split at h
        · next e' hread =>
          cases h
          exact .inl (.closeTag hclose hread)
        · cases h
      · split at h
        · next hdecl => exact .inl (.declaration hdecl (Bool.eq_false_iff.2 hcomment) h)
        · split at h
          · next hopen =>
            obtain ⟨x, r, hr, -⟩ := startsOpenTag_eq hopen
            unfold readElement at h
            split at h
            · next e' hread =>
              cases h
              exact .inl (.openTag hopen hread)
            · next tag m hread =>
              obtain ⟨text, htag⟩ := readsTag_of_readOpenTag hr hread
              split at h
              · next hraw =>
                split at h
                · next e' hcontent =>
                  cases h
                  exact .inr ⟨tag, text, m, hopen, htag, hraw, hcontent⟩
                · cases h
              · cases h
          · split at h <;> cases h
  · rintro (h | ⟨tag, text, m, hopen, htag, hraw, h⟩)
    · exact h.next
    · obtain ⟨hcomment, hclose, hdecl⟩ := startsOpenTag_only hopen
      simp only [next, hcomment, hclose, hdecl, hopen, if_true, readElement, htag.readOpenTag, hraw,
        h]
      rfl

/-- A part cannot be read if it is unreadable, if it is an end tag, or if it is a block and what
    follows its start tag cannot be read. -/
theorem readPart_eq_error_iff {k : Component} : readPart k c = .error e ↔ Unreadable c e ∨
    (∃ close mark d, startsCloseTag c.rest = true ∧ ReadsClose c close mark d ∧
      e = ⟨.unexpectedTopLevelEndTag close.name, c.offset⟩) ∨
    ∃ tag text m, startsOpenTag c.rest = true ∧ ReadsTag c tag text m ∧
      readBlockBody k tag m = .error e := by
  constructor
  · intro h
    unfold readPart at h
    split at h
    · next hcomment =>
      cases hread : readComment c with
      | error e' =>
        rw [hread] at h
        cases h
        exact .inl (.comment hcomment hread)
      | ok found =>
        rw [hread] at h
        cases h
    · next hcomment =>
      split at h
      · next hclose =>
        split at h
        · next e' hread =>
          cases h
          exact .inl (.closeTag hclose hread)
        · next close d hread =>
          cases h
          obtain ⟨mark, hmark⟩ := readsClose_of_readCloseTag hread
          exact .inr (.inl ⟨close, mark, d, hclose, hmark, by rw [hmark.start]⟩)
      · split at h
        · next hdecl =>
          cases hread : readDeclaration c with
          | error e' =>
            rw [hread] at h
            cases h
            exact .inl (.declaration hdecl (Bool.eq_false_iff.2 hcomment) hread)
          | ok found =>
            rw [hread] at h
            cases h
        · split at h
          · next hopen =>
            obtain ⟨x, r, hr, -⟩ := startsOpenTag_eq hopen
            split at h
            · next e' hread =>
              cases h
              exact .inl (.openTag hopen hread)
            · next tag m hread =>
              obtain ⟨text, htag⟩ := readsTag_of_readOpenTag hr hread
              exact .inr (.inr ⟨tag, text, m, hopen, htag, h⟩)
          · cases h
  · rintro (h | ⟨close, mark, d, hclose, hread, rfl⟩ | ⟨tag, text, m, hopen, htag, h⟩)
    · exact h.readPart k
    · simp only [readPart, startsCloseTag_only hclose, hclose, if_true, hread.readCloseTag,
        hread.start]
      rfl
    · rw [htag.readPart hopen, h]

/-- What follows the start tag of a block cannot be read in its content, or in its raw text. -/
theorem readBlockBody_eq_error_iff {k : Component} {tag : OpenTag} :
    readBlockBody k tag m = .error e ↔ tag.selfClosing = false ∧
      (k.template = none ∧ tag.isTemplate = true ∧
          contentOf tag.name (tokensFrom m).error (tokensFrom m).stop {} (tokensFrom m).tokens =
            .error e ∨
        (k.template = none → tag.isTemplate = false) ∧ readRawText tag m = .error e) := by
  constructor
  · intro h
    unfold readBlockBody at h
    simp only at h
    split at h
    · cases h
    · next hself =>
      refine ⟨by simpa using hself, ?_⟩
      split at h
      · next htemplate =>
        obtain ⟨hnone, htemplate⟩ := Bool.and_eq_true_iff.1 htemplate
        split at h
        · next e' hcontent =>
          cases h
          exact .inl ⟨by simpa using hnone, htemplate, hcontent⟩
        · cases h
      · next htemplate =>
        split at h
        · next e' hread =>
          cases h
          exact .inr ⟨fun hnone => by simpa [hnone] using htemplate, hread⟩
        · cases h
  · rintro ⟨hself, ⟨hnone, htemplate, h⟩ | ⟨hraw, h⟩⟩
    · simp only [readBlockBody, hself, hnone, htemplate, h]
      rfl
    · simp only [readBlockBody, hself, not_template hraw, h]
      rfl

/-! ## §3. Errors of components -/

/-- A component cannot be read exactly if some parts are read and the next one cannot be. -/
theorem readParts_eq_error_iff {k : Component} : readParts k c = .error e ↔
    ∃ k' d, Parts k c k' d ∧ d.rest ≠ [] ∧ readPart k' d = .error e := by
  constructor
  · intro h
    induction hn : c.rest.length using Nat.strongRecOn generalizing k c with
    | ind n ih =>
      subst hn
      rw [readParts] at h
      split at h
      · cases h
      · next hc =>
        split at h
        · next e' hp =>
          cases h
          exact ⟨k, c, .nil k c, hc, hp⟩
        · next k' m hp =>
          -- the part leaves less to read
          obtain ⟨k'', d, hd, hrest⟩ := ih _ (readPart_shorter hc hp) h rfl
          exact ⟨k'', d, .cons hc (readsPart_of_readPart hp) hd, hrest⟩
  · rintro ⟨k', d, hparts, hd, hp⟩
    rw [readParts_of_parts hparts, readParts, dif_neg hd]
    split
    · next e' he =>
      rw [hp] at he
      cases he
      rfl
    · next he =>
      rw [hp] at he
      cases he

/-- What fails in an element or the block that is the innermost one open there is an error. -/
theorem OpenAt.parse_error {tag : OpenTag} {outer : List OpenTag}
    (hin : OpenAt source (tag :: outer) c) (h : FailsIn tag.name c e) :
    Component.parse source = .error e := by
  cases hin with
  | @within k b m _ block _ text tokens tags _ hparts hopen hm hself hfirst htemplate hscan hleaves
      htags =>
    have hcontent := contentOf_eq_error_iff.2 ⟨tokens, c, tags, tag, outer, hscan, hleaves, htags, h⟩
    have hbody : readBlockBody k block m = .error e :=
      readBlockBody_eq_error_iff.2 ⟨hself, .inl ⟨hfirst, htemplate, hcontent⟩⟩
    refine readParts_eq_error_iff.2 ⟨k, b, hparts, by rw [hm.rest]; simp, ?_⟩
    exact readPart_eq_error_iff.2 (.inr (.inr ⟨block, text, m, hopen, hm, hbody⟩))

theorem parse_of_stops (h : Stops source e) : Component.parse source = .error e := by
  cases h with
  | @unreadable tags c e hin h =>
    cases tags with
    | nil =>
      cases hin with
      | between hparts =>
        exact readParts_eq_error_iff.2 ⟨_, c, hparts, h.rest_ne_nil, h.readPart _⟩
    | cons tag outer => exact hin.parse_error (.token h.rest_ne_nil h.next)
  | @rawText c m tag e hraw h =>
    -- raw text is read for a block by its part, and for an element by its token
    cases hraw with
    | block hparts hopen hm hself hraw =>
      have hbody := readBlockBody_eq_error_iff.2 ⟨hself, .inr ⟨hraw, h⟩⟩
      refine readParts_eq_error_iff.2 ⟨_, c, hparts, by rw [hm.rest]; simp, ?_⟩
      exact readPart_eq_error_iff.2 (.inr (.inr ⟨tag, _, m, hopen, hm, hbody⟩))
    | element hin hopen hm hraw =>
      refine hin.parse_error (.token (by rw [hm.rest]; simp) ?_)
      exact next_eq_error_iff.2 (.inr ⟨tag, _, m, hopen, hm, hraw, h⟩)
  | topLevel hin hs h =>
    cases hin with
    | between hparts =>
      refine readParts_eq_error_iff.2 ⟨_, _, hparts, ?_, ?_⟩
      · intro hnil
        rw [hnil] at hs
        cases hs
      · exact readPart_eq_error_iff.2 (.inr (.inl ⟨_, _, _, hs, h, rfl⟩))
  | unexpected hin hs h hname => exact hin.parse_error (.close hs h hname)
  | ended hin hc => exact hin.parse_error (.ended hc)

theorem stops_of_parse (h : Component.parse source = .error e) : Stops source e := by
  obtain ⟨k, b, hparts, -, hp⟩ := readParts_eq_error_iff.1 h
  rcases readPart_eq_error_iff.1 hp with h | ⟨close, mark, d, hs, hread, rfl⟩ |
    ⟨block, text, m, hopen, hm, hbody⟩
  · exact .unreadable (.between hparts) h
  · exact .topLevel (.between hparts) hs hread
  · obtain ⟨hself, ⟨hfirst, htemplate, hcontent⟩ | ⟨hraw, hread⟩⟩ :=
      readBlockBody_eq_error_iff.1 hbody
    · obtain ⟨tokens, c, tags, tag, outer, hscan, hleaves, htags, hfails⟩ :=
        contentOf_eq_error_iff.1 hcontent
      have hin : OpenAt source (tag :: outer) c :=
        .within hparts hopen hm hself hfirst htemplate hscan hleaves htags
      cases hfails with
      | ended hc => exact .ended hin hc
      | token hc hn =>
        rcases next_eq_error_iff.1 hn with h | ⟨inner, text, m, hopen, hm, hraw, hread⟩
        · exact .unreadable hin h
        · exact .rawText (.element hin hopen hm hraw) hread
      | close hs hclose hname => exact .unexpected hin hs hclose hname
    · exact .rawText (.block hparts hopen hm hself hraw) hread

/-- A component cannot be read exactly if reading it stops, and for the same error. -/
theorem parse_eq_error_iff : Component.parse source = .error e ↔ Stops source e :=
  ⟨stops_of_parse, parse_of_stops⟩

end Provenance.Template
