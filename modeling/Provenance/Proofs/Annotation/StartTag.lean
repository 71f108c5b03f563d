import Provenance.Proofs.Annotation.Reparse
import Provenance.Proofs.Template.Shifted

/-! # Start tags with a marker

  The markup of a marker is spliced in right behind the name of a start tag.  Whatever
  characters its values have, and whatever follows it, the tag is then read with one
  attribute for each entry of the marker in front of what was read without it, and reading
  fails where it failed (`readOpenTag_markup`).

  The markup ends with a quote, so what follows is read as if it stood right behind the
  name, only at a later offset.
-/

namespace Provenance.Template

open Text (Cursor isTagBlank byteSize)
open Insertion (moved sizeBefore)

/-! ## §1. What stands behind a name -/

/-- The start tag of a name at `o`, by what is read behind the name. -/
def namedTag (name : List Char) (o : Nat) (read : Except Error (Option (TagBody × Cursor))) :
    Outcome OpenTag :=
  match read with
  | .ok none => .error ⟨.unterminatedStartTag (String.ofList name), o⟩
  | .ok (some (body, d)) =>
    .ok (⟨String.ofList name, o, o + 1 + byteSize name, body.entries, body.selfClosing⟩, d)
  | .error e => .error e

theorem readOpenTag_name {name rest : List Char} (hname : ∀ x ∈ name, isTagNamePart x = true)
    (hrest : endsTagName rest = true) (o : Nat) :
    readOpenTag ⟨o, '<' :: (name ++ rest)⟩ =
      namedTag name o (readTagBody ⟨o + 1 + byteSize name, rest⟩) := by
  have hstop := isTagNamePart_of_endsTagName hrest
  have hone : o + '<'.utf8Size + byteSize name = o + 1 + byteSize name := rfl
  unfold readOpenTag
  rw [Cursor.skip_one rfl]
  simp only [Cursor.takeWhile, Cursor.past, Text.takeWhile_run hname hstop,
    Text.dropWhile_run hname hstop, hone]
  cases readTagBody ⟨o + 1 + byteSize name, rest⟩ with
  | error e => rfl
  | ok found => cases found <;> rfl

/-- What is read behind a name stands behind it. -/
theorem lt_of_reads {p : Nat} {rest : List Char} {body : TagBody} {d : Cursor}
    (hrest : endsTagName rest = true) (h : ReadsBody ⟨p, rest⟩ body d) :
    p < d.offset ∧ ∀ e ∈ body.entries, p < e.start := by
  obtain ⟨w, hw⟩ := h.takes
  constructor
  · -- at least the mark at the end of the tag is read
    have hpos : 0 < byteSize (w ++ ['>']) := Text.byteSize_pos (by simp)
    rw [hw.offset]
    exact Nat.lt_add_of_pos_right hpos
  · intro e he
    cases rest with
    | nil =>
      have hempty : [] = w ++ ['>'] ++ d.rest := hw.rest
      simp at hempty
    | cons x r =>
      apply h.start_lt (x := x) (r := r) rfl
      · exact isTagNamePart_of_endsTagName hrest x rfl
      · exact he

/-! ## §2. Markers behind a name -/

/-- Only what stands behind a place moves when a text is inserted there. -/
theorem moved_of_lt {p q : Nat} (text : List Char) (h : p < q) :
    moved [⟨p, text⟩] q = q + byteSize text := by
  simp [moved, sizeBefore, h]

theorem moved_of_le {p q : Nat} (text : List Char) (h : q ≤ p) : moved [⟨p, text⟩] q = q := by
  simp [moved, sizeBefore, Nat.not_lt.2 h]

/-- What is read of a start tag once a marker is spliced in behind its name, which ends at
    `nameEnd`: the entries of the marker come first, as attributes, and all that stands
    behind the name moves by the size of the markup. -/
def withMarker (marker : Marker) (nameEnd : Nat) : Outcome OpenTag → Outcome OpenTag
  | .ok (tag, d) =>
    .ok (tag.relocated (moved [⟨nameEnd, marker.markup⟩]) (attributesAt nameEnd marker.entries),
      ⟨moved [⟨nameEnd, marker.markup⟩] d.offset, d.rest⟩)
  | .error e => .error ⟨e.fault, moved [⟨nameEnd, marker.markup⟩] e.offset⟩

/-- Entries of a marker in front of what is read at a later offset make the start tag with
    the marker. -/
theorem namedTag_withEntries (marker : Marker) (name : List Char) (o : Nat) {rest : List Char}
    (hrest : endsTagName rest = true) :
    namedTag name o (withEntries (attributesAt (o + 1 + byteSize name) marker.entries)
        (shiftedBody (byteSize marker.markup) (readTagBody ⟨o + 1 + byteSize name, rest⟩))) =
      withMarker marker (o + 1 + byteSize name)
        (namedTag name o (readTagBody ⟨o + 1 + byteSize name, rest⟩)) := by
  have hstart : moved [⟨o + 1 + byteSize name, marker.markup⟩] o = o :=
    moved_of_le marker.markup (by omega)
  cases hread : readTagBody ⟨o + 1 + byteSize name, rest⟩ with
  | error e =>
    -- reading fails at a value, which stands behind the name
    have hlt : o + 1 + byteSize name < e.offset := lt_of_readTagBody_error hread
    simp only [shiftedBody, withEntries, Except.map, namedTag, withMarker, Error.shift,
      moved_of_lt marker.markup hlt]
  | ok found =>
    cases found with
    | none =>
      -- that a tag has no end is told at its beginning
      simp only [shiftedBody, withEntries, Except.map, Option.map, namedTag, withMarker, hstart]
    | some found =>
      obtain ⟨body, d⟩ := found
      obtain ⟨hstop, hlt⟩ := lt_of_reads hrest (reads_of_readTagBody hread)
      have hentries : body.entries.map (Entry.mapStart (· + byteSize marker.markup)) =
          body.entries.map (Entry.mapStart (moved [⟨o + 1 + byteSize name, marker.markup⟩])) := by
        apply List.map_congr_left
        intro e he
        apply Entry.mapStart_congr
        exact (moved_of_lt marker.markup (hlt e he)).symm
      simp only [shiftedBody, withEntries, Except.map, Option.map, namedTag, withMarker,
        OpenTag.relocated, hstart, moved_of_le marker.markup (Nat.le_refl _),
        moved_of_lt marker.markup hstop, hentries, Cursor.shift]

/-- A marker is read back.  Where the names of the prefix can stand in a tag and name no
    directives, a start tag with the markup of a marker behind its name is read as it was
    without the markup, be it a tag or an error, only that the tag has the entries of the
    marker with their values as attributes in front of its own, and that what stands
    behind the name moves by the size of the markup. -/
theorem readOpenTag_markup (marker : Marker) (o : Nat) (name rest : List Char)
    (hnames : ∀ name ∈ [marker.attributePrefix ++ "-id", marker.attributePrefix ++ "-name"],
      (∀ x ∈ name.toList, isTagBlank x = false ∧ x ≠ '=' ∧ x ≠ '>') ∧
        name.toList.head? ≠ some '/' ∧ isDirectiveName name.toList = false)
    (hname : ∀ x ∈ name, isTagNamePart x = true) (hrest : endsTagName rest = true) :
    readOpenTag ⟨o, '<' :: (name ++ (marker.markup ++ rest))⟩ =
      withMarker marker (o + 1 + byteSize name) (readOpenTag ⟨o, '<' :: (name ++ rest)⟩) := by
  obtain ⟨hidPart, hidHead, hidPlain⟩ := hnames (marker.attributePrefix ++ "-id") (by simp)
  obtain ⟨hnamePart, hnameHead, hnamePlain⟩ := hnames (marker.attributePrefix ++ "-name") (by simp)
  have hread : ∀ e ∈ marker.entries, IsAttributeName e.1.toList := by
    intro e he
    apply Marker.isAttributeName_of_mem_entries _ _ he
    · exact isAttributeName_append (by decide) hidPart hidHead
    · exact isAttributeName_append (by decide) hnamePart hnameHead
  have hplain : ∀ e ∈ marker.entries, isDirectiveName e.1.toList = false := by
    intro e he
    exact Marker.isDirectiveName_of_mem_entries hidPlain hnamePlain he
  -- the markup begins with a blank, which ends the name
  have hends : endsTagName (marker.markup ++ rest) = true := rfl
  have hshift := readTagBody_shift (byteSize marker.markup) ⟨o + 1 + byteSize name, rest⟩
  have hmarkup : readTagBody ⟨o + 1 + byteSize name, marker.markup ++ rest⟩ =
      withEntries (attributesAt (o + 1 + byteSize name) marker.entries)
        (shiftedBody (byteSize marker.markup) (readTagBody ⟨o + 1 + byteSize name, rest⟩)) := by
    rw [← hshift, ← entriesAt_eq_attributesAt hplain]
    exact readTagBody_markup hread (o + 1 + byteSize name) rest
  rw [readOpenTag_name hname hends, readOpenTag_name hname hrest, hmarkup]
  exact namedTag_withEntries marker name o hrest

/-- Quotes, references, marks and a line break in the values of a marker, in front of two
    entries of the tag. -/
theorem readOpenTag_markup_references :
    ∃ (marker : Marker) (rest : List Char) (tag : OpenTag) (d : Cursor),
      marker = ⟨"x", "&amp;\"'", "<p/>", "&quot;&#34;&", 3, "\n🙂", some "a=\"b\">"⟩ ∧
      rest = " class='c' :d=e />".toList ∧
      readOpenTag ⟨0, '<' :: (['p'] ++ rest)⟩ = .ok (tag, d) ∧ tag.entries.length = 2 ∧
      readOpenTag ⟨0, '<' :: (['p'] ++ (marker.markup ++ rest))⟩ =
        withMarker marker 2 (.ok (tag, d)) := by
  obtain ⟨rest, hrest⟩ : ∃ rest, rest = " class='c' :d=e />".toList := ⟨_, rfl⟩
  have hcount : (readOpenTag ⟨0, '<' :: (['p'] ++ rest)⟩).toOption.map (·.1.entries.length) =
      some 2 := by
    subst hrest
    decide +kernel
  cases hread : readOpenTag ⟨0, '<' :: (['p'] ++ rest)⟩ with
  | error e =>
    rw [hread] at hcount
    cases hcount
  | ok found =>
    obtain ⟨tag, d⟩ := found
    rw [hread] at hcount
    refine ⟨_, rest, tag, d, rfl, hrest, hread, Option.some.inj hcount, ?_⟩
    rw [← hread]
    apply readOpenTag_markup
    · have hnames : ∀ name ∈ ["x" ++ "-id", "x" ++ "-name"],
          IsAttributeName name.toList ∧ isDirectiveName name.toList = false := by
        decide
      intro name hname
      exact ⟨(hnames name hname).1.part, (hnames name hname).1.head, (hnames name hname).2⟩
    · exact List.all_eq_true.1 (by decide)
    · rw [hrest]
      decide

end Provenance.Template
