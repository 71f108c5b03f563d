import Provenance.Proofs.Template.Stops
import Provenance.Proofs.Template.ReaderErrors

/-! # Errors name what is there

  For each fault there is a rule that says what stands at the offset of the error and what is
  missing behind it (`Justified`).  The rules speak of the text and of the place that reading
  has come to (`OpenAt`, `RawAt`); that a reader fails there is not a part of them.

  Main statement: an error is reported exactly if it is justified at the place it names
  (`parse_error_iff_justified`).
-/

namespace Provenance.Template

open Text (Cursor IsBoundary)

/-! ## §1. What justifies an error -/

/-- What stands at a cursor is what a fault says, in these words. -/
inductive Justified (source : List Char) (c : Cursor) : Fault → String → Prop where
  | comment {tags : List OpenTag} {r : List Char} (hin : OpenAt source tags c)
    (hc : c.rest = '<' :: '!' :: '-' :: '-' :: r) (hend : ¬ ['-', '-', '>'] <:+: r) :
    Justified source c .unterminatedComment "unterminated comment"
  | declaration {tags : List OpenTag} {r : List Char} (hin : OpenAt source tags c)
    (hc : c.rest = '<' :: '!' :: r) (hcomment : ¬ ['-', '-'] <+: r) (hend : '>' ∉ r) :
    Justified source c .unterminatedDeclaration "unterminated markup declaration"
  | value {tags : List OpenTag} {b d : Cursor} {name : String} {q : Char} {r : List Char}
    (hin : OpenAt source tags b) (htag : EntersTag b name d) (hvalue : EntersValue d c)
    (hq : IsQuote q) (hc : c.rest = q :: r) (hend : q ∉ r) :
    Justified source c .unterminatedValue "unterminated attribute value"
  | startTag {tags : List OpenTag} {d : Cursor} {name : String} (hin : OpenAt source tags c)
    (htag : EntersTag c name d) (hend : d.rest = []) :
    Justified source c (.unterminatedStartTag name) ("unterminated start tag <" ++ name ++ ">")
  | endTag {tags : List OpenTag} {name : String} {r : List Char} (hin : OpenAt source tags c)
    (hopen : startsCloseTag c.rest = true) (hclose : EntersClose c name r) (hend : '>' ∉ r) :
    Justified source c (.unterminatedEndTag name) ("unterminated end tag </" ++ name ++ ">")
  /-- The first end tag behind raw text. -/
  | rawEndTag {b m : Cursor} {tag : OpenTag} {name : String} {r : List Char}
    (hraw : RawAt source b tag m) (hbehind : m.offset ≤ c.offset)
    (hat : ClosesAt source tag.name.toList c.offset)
    (hfirst : ∀ o, m.offset ≤ o → ClosesAt source tag.name.toList o → c.offset ≤ o)
    (hclose : EntersClose c name r) (hend : '>' ∉ r) :
    Justified source c (.unterminatedEndTag name) ("unterminated end tag </" ++ name ++ ">")
  | unexpected {tag : OpenTag} {outer : List OpenTag} {name : String} {r : List Char}
    (hin : OpenAt source (tag :: outer) c) (hopen : startsCloseTag c.rest = true)
    (hclose : EntersClose c name r) (hend : '>' ∈ r)
    (hname : sameName name.toList tag.name.toList = false) :
    Justified source c (.unexpectedEndTag name tag.name)
      ("unexpected end tag </" ++ name ++ "> inside <" ++ tag.name ++ ">")
  | topLevel {name : String} {r : List Char} (hin : OpenAt source [] c)
    (hopen : startsCloseTag c.rest = true) (hclose : EntersClose c name r) (hend : '>' ∈ r) :
    Justified source c (.unexpectedTopLevelEndTag name)
      ("unexpected top-level end tag </" ++ name ++ ">")
  | missing {tag : OpenTag} {outer : List OpenTag} (hin : OpenAt source (tag :: outer) c)
    (hc : c.rest = []) :
    Justified source c (.missingEndTag tag.name) ("missing end tag for <" ++ tag.name ++ ">")
  | missingRaw {m : Cursor} {tag : OpenTag} (hraw : RawAt source c tag m)
    (hend : ∀ o, m.offset ≤ o → ¬ ClosesAt source tag.name.toList o) :
    Justified source c (.missingEndTag tag.name) ("missing end tag for <" ++ tag.name ++ ">")

/-- An error is justified at a place of a source that has its offset. -/
def Error.IsJustified (e : Error) (source : List Char) : Prop :=
  ∃ c : Cursor, c.StandsIn source ∧ c.offset = e.offset ∧ Justified source c e.fault e.fault.message

variable {source : List Char} {tags : List OpenTag} {c : Cursor} {e : Error}

theorem Error.IsJustified.of {f : Fault} (hc : c.StandsIn source)
    (h : Justified source c f f.message) : Error.IsJustified ⟨f, c.offset⟩ source :=
  ⟨c, hc, rfl, h⟩

/-! ## §2. Errors of components -/

theorem Unreadable.justified (hin : OpenAt source tags c) (h : Unreadable c e) :
    e.IsJustified source := by
  cases h with
  | comment hs h =>
    obtain ⟨r, hr⟩ := startsComment_eq hs
    obtain ⟨hend, rfl⟩ := (readComment_eq_error_iff hr).1 h
    exact .of hin.standsIn (.comment hin hr hend)
  | closeTag hs h =>
    obtain ⟨x, s, hr, -⟩ := startsCloseTag_eq hs
    obtain ⟨hend, rfl⟩ := (entersClose hr).readCloseTag_eq_error_iff.1 h
    exact .of hin.standsIn (.endTag hin hs (entersClose hr) hend)
  | declaration hs hn h =>
    obtain ⟨r, hr⟩ := startsDeclaration_eq hs
    obtain ⟨hend, rfl⟩ := (readDeclaration_eq_error_iff hr).1 h
    refine .of hin.standsIn (.declaration hin hr ?_ hend)
    -- two more dashes would make it a comment
    rintro ⟨s, rfl⟩
    rw [hr] at hn
    cases hn
  | openTag hs h =>
    obtain ⟨name, d, htag, ⟨hend, rfl⟩ | ⟨hopens, he⟩⟩ := (readOpenTag_eq_error_iff hs).1 h
    · exact .of hin.standsIn (.startTag hin htag hend)
    · obtain ⟨hgap, hvalue⟩ := readEntry_eq_error_iff.1 he
      obtain ⟨q, r, hq, hr, hend, rfl⟩ := readValue_eq_error_iff.1 hvalue
      -- the value stands in the source behind the start of the tag
      obtain ⟨v, hv⟩ := htag.takes
      obtain ⟨w, hw⟩ := takes_valueStart d
      have hvalueAt := (hin.standsIn.of_takes hv).of_takes hw
      exact .of hvalueAt (.value hin htag ⟨hopens, hgap, rfl⟩ hq hr hend)

/-- Where reading stops its error is justified. -/
theorem Stops.justified (h : Stops source e) : e.IsJustified source := by
  cases h with
  | unreadable hin h => exact h.justified hin
  | rawText hraw h =>
    obtain ⟨hc, text, htag, hm⟩ := hraw.readsTag
    rcases (htag.readRawText_eq_error_iff hm).1 h with
      ⟨hall, rfl⟩ | ⟨d, name, r, hd, hle, hat, hfirst, hclose, hend, rfl⟩
    · exact .of hc (.missingRaw hraw hall)
    · exact .of hd (.rawEndTag hraw hle hat hfirst hclose hend)
  | topLevel hin hs h =>
    obtain ⟨r, hclose, hend⟩ := h.entersClose hs
    exact .of hin.standsIn (.topLevel hin hs hclose hend)
  | unexpected hin hs h hname =>
    obtain ⟨r, hclose, hend⟩ := h.entersClose hs
    exact .of hin.standsIn (.unexpected hin hs hclose hend hname)
  | ended hin hc => exact .of hin.standsIn (.missing hin hc)

/-- Reading stops where an error is justified. -/
theorem Justified.stops {f : Fault} {words : String} (hc : c.StandsIn source)
    (h : Justified source c f words) : Stops source ⟨f, c.offset⟩ := by
  cases h with
  | comment hin hr hend =>
    have hread := (readComment_eq_error_iff hr).2 ⟨hend, rfl⟩
    exact .unreadable hin (.comment (by rw [hr]; rfl) hread)
  | @declaration tags r hin hr hcomment hend =>
    -- where a comment begins it would be read instead
    have hno : startsComment c.rest = false := by
      rw [← Bool.not_eq_true]
      intro hs
      obtain ⟨s, hs⟩ := startsComment_eq hs
      rw [hr] at hs
      exact hcomment ⟨s, (List.cons.inj (List.cons.inj hs).2).2.symm⟩
    have hread := (readDeclaration_eq_error_iff hr).2 ⟨hend, rfl⟩
    exact .unreadable hin (.declaration (by rw [hr]; rfl) hno hread)
  | @value tags b d name q r hin htag hvalue hq hr hend =>
    obtain ⟨hopens, hgap, rfl⟩ := hvalue
    have hread := readValue_eq_error_iff.2 ⟨q, r, hq, hr, hend, rfl⟩
    have hentry := readEntry_eq_error_iff.2 ⟨hgap, hread⟩
    refine .unreadable hin (.openTag htag.opens ?_)
    exact (readOpenTag_eq_error_iff htag.opens).2 ⟨name, d, htag, .inr ⟨hopens, hentry⟩⟩
  | @startTag tags d name hin htag hend =>
    refine .unreadable hin (.openTag htag.opens ?_)
    exact (readOpenTag_eq_error_iff htag.opens).2 ⟨name, d, htag, .inl ⟨hend, rfl⟩⟩
  | endTag hin hopen hclose hend =>
    exact .unreadable hin (.closeTag hopen (hclose.readCloseTag_eq_error_iff.2 ⟨hend, rfl⟩))
  | @rawEndTag b m tag name r hraw hbehind hat hfirst hclose hend =>
    obtain ⟨-, text, htag, hm⟩ := hraw.readsTag
    refine .rawText hraw ((htag.readRawText_eq_error_iff hm).2 (.inr ?_))
    exact ⟨c, name, r, hc, hbehind, hat, hfirst, hclose, hend, rfl⟩
  | unexpected hin hopen hclose hend hname =>
    obtain ⟨close, mark, d, hread, rfl⟩ := hclose.readsClose hopen hend
    exact .unexpected hin hopen hread hname
  | topLevel hin hopen hclose hend =>
    obtain ⟨close, mark, d, hread, rfl⟩ := hclose.readsClose hopen hend
    exact .topLevel hin hopen hread
  | missing hin hr => exact .ended hin hr
  | missingRaw hraw hall =>
    obtain ⟨-, text, htag, hm⟩ := hraw.readsTag
    exact .rawText hraw ((htag.readRawText_eq_error_iff hm).2 (.inl ⟨hall, rfl⟩))

/-- Every error of a component is justified at the place it names, however deep inside the
    template: the offset lies between two characters of the source or at its end, the words of
    the error say what stands there, and what they say is missing is missing.  And wherever an
    error is justified it is the one that is reported. -/
theorem parse_error_iff_justified (source : List Char) (e : Error) :
    Component.parse source = .error e ↔ IsBoundary source e.offset ∧
      ∃ c : Cursor, c.StandsIn source ∧ c.offset = e.offset ∧
        Justified source c e.fault e.fault.message := by
  rw [parse_eq_error_iff]
  constructor
  · intro h
    obtain ⟨c, hc, hoffset, hjustified⟩ := h.justified
    exact ⟨hoffset ▸ hc.isBoundary, c, hc, hoffset, hjustified⟩
  · rintro ⟨-, c, hc, hoffset, hjustified⟩
    have hstops := hjustified.stops hc
    rw [hoffset] at hstops
    exact hstops

/-- An end tag of the element around the innermost one, behind a `>` in a value, a tag without
    content, an end tag in upper case and a character of two octets. -/
theorem parse_error_iff_justified_mismatch :
    ∃ (source : List Char) (e : Error),
      source = "<template><a b='>'><br></A><c><d>é</c></d></c></template>".toList ∧
      Component.parse source = .error e ∧
      e.message = "unexpected end tag </c> inside <d> (at byte 35)" ∧
      ∃ c : Cursor, c.StandsIn source ∧ c.offset = 35 ∧
        Justified source c e.fault "unexpected end tag </c> inside <d>" := by
  obtain ⟨source, hsource⟩ : ∃ source,
      source = "<template><a b='>'><br></A><c><d>é</c></d></c></template>".toList := ⟨_, rfl⟩
  have hfound : Except.casesOn (motive := fun _ => Option Error) (Component.parse source) some
      (fun _ => none) = some ⟨.unexpectedEndTag "c" "d", 35⟩ := by
    subst hsource
    decide +kernel
  cases hread : Component.parse source with
  | ok component =>
    rw [hread] at hfound
    cases hfound
  | error e =>
    rw [hread] at hfound
    obtain rfl := Option.some.inj hfound
    obtain ⟨-, c, hc, hoffset, hjustified⟩ := (parse_error_iff_justified source _).1 hread
    exact ⟨source, _, hsource, hread, by decide +kernel, c, hc, hoffset, hjustified⟩

end Provenance.Template
