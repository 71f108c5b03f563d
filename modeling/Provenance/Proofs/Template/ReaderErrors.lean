import Provenance.Proofs.Template.FirstClose

/-! # What cannot be read

  A reader fails for a reason that is in the text, and only for this reason.

  - Comments, declarations, values and end tags end at a mark, and cannot be read exactly if
    it does not follow.
  - The rest of a start tag is read over entries (`ReadsEntries`).  It fails exactly at the
    end of the text or at an entry that fails (`readOpenTag_eq_error_iff`).
  - Raw text fails exactly if no end tag follows or if the first one fails
    (`ReadsTag.readRawText_eq_error_iff`).
-/

namespace Provenance.Template

open Text (Cursor isTagBlank)
open Text.Cursor (Takes)

/-! ## §1. Tags that begin -/

/-- Reading moves over blanks, slashes and entries of a start tag to a cursor that stands behind
    blanks, without coming to the end of the tag. -/
inductive ReadsEntries : Cursor → Cursor → Prop where
  | nil (c : Cursor) : ReadsEntries c (c.skipWhile isTagBlank)
  | slash {c d : Cursor} {r : List Char} (h : (c.skipWhile isTagBlank).rest = '/' :: r)
    (hr : r.head? ≠ some '>') (tail : ReadsEntries ((c.skipWhile isTagBlank).skip 1) d) :
    ReadsEntries c d
  | entry {c next d : Cursor} {x : Char} {r : List Char} {e : Entry}
    (h : (c.skipWhile isTagBlank).rest = x :: r) (hx : x ≠ '>' ∧ x ≠ '/')
    (he : readEntry (c.skipWhile isTagBlank) = .ok (e, next)) (tail : ReadsEntries next d) :
    ReadsEntries c d

/-- A start tag of a name begins at a cursor, and its entries are read up to another. -/
structure EntersTag (c : Cursor) (name : String) (d : Cursor) : Prop where
  opens : startsOpenTag c.rest = true
  entries : ∃ text, c.rest = '<' :: (name.toList ++ text) ∧ endsTagName text = true ∧
    ReadsEntries (c.past ('<' :: name.toList) text) d
  name : ∀ x ∈ name.toList, isTagNamePart x = true

/-- The cursor at the value of an entry, behind its name, the equals sign and blanks. -/
def valueStart (c : Cursor) : Cursor := ((entryGap c).skip 1).skipWhile isTagBlank

/-- An entry begins at a cursor, and its value at another. -/
structure EntersValue (d c : Cursor) : Prop where
  opens : ∃ x r, d.rest = x :: r ∧ x ≠ '>' ∧ x ≠ '/'
  equals : ∃ s, (entryGap d).rest = '=' :: s
  place : c = valueStart d

/-- An end tag of a name begins at a cursor, with `text` behind the name. -/
structure EntersClose (c : Cursor) (name : String) (text : List Char) : Prop where
  rest : c.rest = '<' :: '/' :: (name.toList ++ text)
  name : ∀ x ∈ name.toList, isTagNamePart x = true
  stop : endsTagName text = true

variable {source : List Char} {c d m : Cursor} {e : Error}

/-! ## §2. Comments, declarations and end tags -/

theorem readComment_eq_error_iff {r : List Char} (hc : c.rest = '<' :: '!' :: '-' :: '-' :: r) :
    readComment c = .error e ↔
      ¬ ['-', '-', '>'] <:+: r ∧ e = ⟨.unterminatedComment, c.offset⟩ := by
  have hskip : (c.skip 4).rest = r := by
    rw [Cursor.skip, hc]
    rfl
  rw [← hskip, ← Cursor.takeUntil?_eq_none_iff, readComment]
  cases hd : (c.skip 4).takeUntil? ['-', '-', '>'] with
  | none => simp [eq_comm]
  | some found => simp

theorem readDeclaration_eq_error_iff {r : List Char} (hc : c.rest = '<' :: '!' :: r) :
    readDeclaration c = .error e ↔ '>' ∉ r ∧ e = ⟨.unterminatedDeclaration, c.offset⟩ := by
  have hmem : '>' ∉ r ↔ '>' ∉ c.rest := by simp [hc]
  rw [hmem, ← Cursor.takeUntil?_mark_eq_none_iff, readDeclaration]
  cases hd : c.takeUntil? ['>'] with
  | none => simp [eq_comm]
  | some found => simp

/-- What stands behind the characters of a tag name ends the name. -/
theorem endsTagName_dropWhile (s : List Char) : endsTagName (s.dropWhile isTagNamePart) = true := by
  cases hs : s.dropWhile isTagNamePart with
  | nil => rfl
  | cons x r =>
    have hx := List.head?_dropWhile_not isTagNamePart s
    rw [hs] at hx
    simpa [endsTagName, isTagNamePart, or_assoc, or_comm, Decidable.imp_iff_not_or] using hx

theorem isTagNamePart_of_mem_takeWhile {s : List Char} :
    ∀ x ∈ (String.ofList (s.takeWhile isTagNamePart)).toList, isTagNamePart x = true := by
  intro x hx
  rw [String.toList_ofList] at hx
  exact List.all_eq_true.1 List.all_takeWhile x hx

theorem entersClose {s : List Char} (hc : c.rest = '<' :: '/' :: s) :
    EntersClose c (String.ofList (s.takeWhile isTagNamePart)) (s.dropWhile isTagNamePart) where
  rest := by rw [hc, String.toList_ofList, List.takeWhile_append_dropWhile]
  name := isTagNamePart_of_mem_takeWhile
  stop := endsTagName_dropWhile s

/-- An end tag that is read ends at a `>` behind its name. -/
theorem ReadsClose.entersClose {close : CloseTag} {mark : List Char}
    (h : ReadsClose c close mark d) (hstarts : startsCloseTag c.rest = true) :
    ∃ r, EntersClose c close.name r ∧ '>' ∈ r := by
  have hrest : c.rest = '<' :: '/' :: (close.inner ++ '>' :: d.rest) := by
    rw [h.rest, h.mark_eq hstarts]
    rfl
  have hclose := Template.entersClose hrest
  rw [Text.takeWhile_append_stop (by decide), Text.dropWhile_append_stop (by decide),
    ← h.name] at hclose
  exact ⟨_, hclose, List.mem_append_right _ List.mem_cons_self⟩

section EntersClose

variable {name : String} {r : List Char}

theorem EntersClose.readCloseTag_eq_error_iff (h : EntersClose c name r) :
    readCloseTag c = .error e ↔ '>' ∉ r ∧ e = ⟨.unterminatedEndTag name, c.offset⟩ := by
  have hskip : (c.skip 2).rest = name.toList ++ r := by rw [Cursor.skip_two h.rest]
  have htake : (name.toList ++ r).takeWhile isTagNamePart = name.toList :=
    Text.takeWhile_run h.name (isTagNamePart_of_endsTagName h.stop)
  -- the mark is not in the name
  have hmem : '>' ∉ r ↔ '>' ∉ (c.skip 2).rest := by
    have hname : '>' ∉ name.toList := fun hmem => absurd (h.name _ hmem) (by decide)
    rw [hskip, List.mem_append, not_or, and_iff_right hname]
  rw [hmem, ← Cursor.takeUntil?_mark_eq_none_iff, readCloseTag, Cursor.takeWhile, hskip, htake]
  cases hd : (c.skip 2).takeUntil? ['>'] with
  | none => simp [eq_comm, String.ofList_toList]
  | some found => simp

theorem EntersClose.readsClose (h : EntersClose c name r) (hstarts : startsCloseTag c.rest = true)
    (hend : '>' ∈ r) : ∃ close mark d, ReadsClose c close mark d ∧ close.name = name := by
  cases hread : readCloseTag c with
  | error e => exact absurd hend (h.readCloseTag_eq_error_iff.1 hread).1
  | ok found =>
    obtain ⟨close, d⟩ := found
    obtain ⟨mark, hmark⟩ := readsClose_of_readCloseTag hread
    obtain ⟨r', h', -⟩ := hmark.entersClose hstarts
    -- both names stand up to the first character that ends a name
    have htake := Text.takeWhile_run h.name (isTagNamePart_of_endsTagName h.stop)
    have htake' := Text.takeWhile_run h'.name (isTagNamePart_of_endsTagName h'.stop)
    have hsame : name.toList ++ r = close.name.toList ++ r' :=
      (List.cons.inj (List.cons.inj (h.rest.symm.trans h'.rest)).2).2
    rw [hsame, htake'] at htake
    exact ⟨close, mark, d, hmark, String.toList_injective htake⟩

end EntersClose

/-! ## §3. Start tags -/

/-- A value cannot be read exactly if it is in quotes and the closing one is missing. -/
theorem readValue_eq_error_iff : readValue c = .error e ↔
    ∃ q r, IsQuote q ∧ c.rest = q :: r ∧ q ∉ r ∧ e = ⟨.unterminatedValue, c.offset⟩ := by
  obtain ⟨o, s⟩ := c
  cases s with
  | nil =>
    constructor
    · intro h
      cases h
    · rintro ⟨q, r, -, h, -⟩
      cases h
  | cons q r =>
    by_cases hq : IsQuote q
    · -- the value ends at the next such quote
      have hskip : (Cursor.skip ⟨o, q :: r⟩ 1).rest = r := rfl
      have hnone := Cursor.takeUntil?_mark_eq_none_iff (c := Cursor.skip ⟨o, q :: r⟩ 1) (q := q)
      rw [hskip] at hnone
      rw [readValue_of_quote hq]
      constructor
      · intro h
        split at h
        · cases h
        · next hd =>
          cases h
          exact ⟨q, r, hq, rfl, hnone.1 hd, rfl⟩
      · rintro ⟨q', r', -, hr, hend, rfl⟩
        obtain ⟨rfl, rfl⟩ := List.cons.inj hr
        rw [hnone.2 hend]
    · rw [readValue_of_not_quote hq]
      constructor
      · intro h
        cases h
      · rintro ⟨q', r', hq', hr, -⟩
        exact absurd ((List.cons.inj hr).1 ▸ hq') hq

theorem readEntry_eq_error_iff : readEntry c = .error e ↔
    (∃ s, (entryGap c).rest = '=' :: s) ∧ readValue (valueStart c) = .error e := by
  constructor
  · intro h
    by_cases hgap : ∃ s, (entryGap c).rest = '=' :: s
    · obtain ⟨s, hs⟩ := hgap
      refine ⟨⟨s, hs⟩, ?_⟩
      cases hv : readValue (valueStart c) with
      | error e' =>
        rw [readEntry_of_error hs hv] at h
        cases h
        rfl
      | ok found =>
        rw [readEntry_of_value hs hv] at h
        cases h
    · rw [readEntry_of_bare fun r hr => hgap ⟨r, hr⟩] at h
      cases h
  · rintro ⟨⟨s, hs⟩, h⟩
    exact readEntry_of_error hs h

/-- The rest of a start tag is read to its end, to the end of the text, or to an entry that
    cannot be read. -/
theorem readTagBody_cases (c : Cursor) :
    (∃ found, readTagBody c = .ok (some found)) ∨
    (∃ d, ReadsEntries c d ∧ d.rest = [] ∧ readTagBody c = .ok none) ∨
    (∃ d e, ReadsEntries c d ∧ (∃ x r, d.rest = x :: r ∧ x ≠ '>' ∧ x ≠ '/') ∧
      readEntry d = .error e ∧ readTagBody c = .error e) := by
  induction c using readTagBody_induction with
  | @ended c h => exact .inr (.inl ⟨_, .nil c, h, readTagBody_end h⟩)
  | close h => exact .inl ⟨_, readTagBody_close h⟩
  | selfClose h => exact .inl ⟨_, readTagBody_selfClose h⟩
  | slash h hr ih =>
    rw [readTagBody_slash h hr]
    rcases ih with hread | ⟨d, hd, hrest, hread⟩ | ⟨d, e, hd, hopens, he, hread⟩
    · exact .inl hread
    · exact .inr (.inl ⟨d, .slash h hr hd, hrest, hread⟩)
    · exact .inr (.inr ⟨d, e, .slash h hr hd, hopens, he, hread⟩)
  | @fails c x r e h hx he =>
    exact .inr (.inr ⟨_, e, .nil c, ⟨x, r, h, hx⟩, he, readTagBody_error h hx he⟩)
  | entry h hx he ih =>
    -- the entry is put in front of what is found, but neither ends the tag nor fails
    rw [readTagBody_entry h hx he]
    rcases ih with ⟨found, hread⟩ | ⟨d, hd, hrest, hread⟩ | ⟨d, e, hd, hopens, he', hread⟩
    · exact .inl ⟨_, by rw [hread]; rfl⟩
    · exact .inr (.inl ⟨d, .entry h hx he hd, hrest, by rw [hread]; rfl⟩)
    · exact .inr (.inr ⟨d, e, .entry h hx he hd, hopens, he', by rw [hread]; rfl⟩)

theorem ReadsEntries.readTagBody_end (h : ReadsEntries c d) (hd : d.rest = []) :
    readTagBody c = .ok none := by
  induction h with
  | nil c => exact Template.readTagBody_end hd
  | slash h hr tail ih =>
    rw [readTagBody_slash h hr]
    exact ih hd
  | entry h hx he tail ih =>
    rw [readTagBody_entry h hx he, ih hd]
    rfl

theorem ReadsEntries.readTagBody_error (h : ReadsEntries c d)
    (hd : ∃ x r, d.rest = x :: r ∧ x ≠ '>' ∧ x ≠ '/') (he : readEntry d = .error e) :
    readTagBody c = .error e := by
  induction h with
  | nil c =>
    obtain ⟨x, r, hr, hx⟩ := hd
    exact Template.readTagBody_error hr hx he
  | slash h hr tail ih =>
    rw [readTagBody_slash h hr]
    exact ih hd he
  | entry h hx he' tail ih =>
    rw [readTagBody_entry h hx he', ih hd he]
    rfl

theorem ReadsEntries.takes (h : ReadsEntries c d) : ∃ w, Takes c w d := by
  induction h with
  | nil c => exact ⟨_, Cursor.takes_skipWhile c isTagBlank⟩
  | @slash c d r h hr tail ih =>
    obtain ⟨w, hw⟩ := ih
    exact ⟨_, ((Cursor.takes_skipWhile c isTagBlank).trans (Cursor.takes_skip_one h)).trans hw⟩
  | @entry c next d x r e h hx he tail ih =>
    obtain ⟨w, hw⟩ := ih
    obtain ⟨-, v, hv⟩ := readEntry_takes he
    exact ⟨_, ((Cursor.takes_skipWhile c isTagBlank).trans hv).trans hw⟩

theorem EntersTag.takes {name : String} (h : EntersTag c name d) : ∃ w, Takes c w d := by
  obtain ⟨text, hrest, -, hentries⟩ := h.entries
  obtain ⟨w, hw⟩ := hentries.takes
  exact ⟨_, (Cursor.takes_past (w := '<' :: name.toList) hrest).trans hw⟩

theorem takes_valueStart (c : Cursor) : ∃ w, Takes c w (valueStart c) := by
  have hgap := (Cursor.takes_skip c (attributeName c.rest).length).trans
    (Cursor.takes_skipWhile _ isTagBlank)
  exact ⟨_, (hgap.trans (Cursor.takes_skip (entryGap c) 1)).trans
    (Cursor.takes_skipWhile _ isTagBlank)⟩

/-- The name of a start tag is what stands up to a character that ends it. -/
theorem takeWhile_name {name : String} {text : List Char}
    (hc : c.rest = '<' :: (name.toList ++ text)) (hname : ∀ x ∈ name.toList, isTagNamePart x = true)
    (hstop : endsTagName text = true) :
    (c.skip 1).takeWhile isTagNamePart = (name.toList, c.past ('<' :: name.toList) text) := by
  have hhead := isTagNamePart_of_endsTagName hstop
  rw [Cursor.skip_one hc, Cursor.takeWhile, Text.takeWhile_run hname hhead,
    Text.dropWhile_run hname hhead]
  simp [Cursor.past, Text.byteSize_cons, Nat.add_assoc]

/-- A start tag cannot be read exactly if its entries are read up to the end of the text, or up
    to an entry that cannot be read. -/
theorem readOpenTag_eq_error_iff (hopen : startsOpenTag c.rest = true) :
    readOpenTag c = .error e ↔ ∃ name d, EntersTag c name d ∧
      (d.rest = [] ∧ e = ⟨.unterminatedStartTag name, c.offset⟩ ∨
        (∃ x r, d.rest = x :: r ∧ x ≠ '>' ∧ x ≠ '/') ∧ readEntry d = .error e) := by
  constructor
  · intro h
    obtain ⟨x, t, hc, -⟩ := startsOpenTag_eq hopen
    generalize x :: t = s at hc
    -- the name is what stands up to a character that ends it, and `text` what is behind it
    have hrest : c.rest = '<' :: ((String.ofList (s.takeWhile isTagNamePart)).toList ++
        s.dropWhile isTagNamePart) := by
      rw [hc, String.toList_ofList, List.takeWhile_append_dropWhile]
    have hname := isTagNamePart_of_mem_takeWhile (s := s)
    have hstop := endsTagName_dropWhile s
    generalize String.ofList (s.takeWhile isTagNamePart) = name at hrest hname
    generalize s.dropWhile isTagNamePart = text at hrest hstop
    have enters : ∀ {d}, ReadsEntries (c.past ('<' :: name.toList) text) d → EntersTag c name d :=
      fun hd => ⟨hopen, ⟨text, hrest, hstop, hd⟩, hname⟩
    unfold readOpenTag at h
    rw [takeWhile_name hrest hname hstop] at h
    simp only [String.ofList_toList] at h
    rcases readTagBody_cases (c.past ('<' :: name.toList) text) with
      ⟨found, hread⟩ | ⟨d, hd, hend, hread⟩ | ⟨d, e', hd, hopens, he, hread⟩
    · rw [hread] at h
      cases h
    · rw [hread] at h
      cases h
      exact ⟨name, d, enters hd, .inl ⟨hend, rfl⟩⟩
    · rw [hread] at h
      cases h
      exact ⟨name, d, enters hd, .inr ⟨hopens, he⟩⟩
  · rintro ⟨name, d, ⟨-, ⟨text, hrest, hstop, hd⟩, hname⟩, h⟩
    unfold readOpenTag
    rw [takeWhile_name hrest hname hstop]
    simp only [String.ofList_toList]
    rcases h with ⟨hend, rfl⟩ | ⟨hopens, he⟩
    · rw [hd.readTagBody_end hend]
    · rw [hd.readTagBody_error hopens he]

/-! ## §4. Raw text -/

/-- Raw text cannot be read exactly if no end tag follows, or if the first one is not ended. -/
theorem ReadsTag.readRawText_eq_error_iff {tag : OpenTag} {text : List Char}
    (htag : ReadsTag c tag text m) (hm : m.StandsIn source) :
    readRawText tag m = .error e ↔
      (∀ o, m.offset ≤ o → ¬ ClosesAt source tag.name.toList o) ∧
          e = ⟨.missingEndTag tag.name, c.offset⟩ ∨
        ∃ d name r, d.StandsIn source ∧ m.offset ≤ d.offset ∧
          ClosesAt source tag.name.toList d.offset ∧
          (∀ o, m.offset ≤ o → ClosesAt source tag.name.toList o → d.offset ≤ o) ∧
          EntersClose d name r ∧ '>' ∉ r ∧ e = ⟨.unterminatedEndTag name, d.offset⟩ := by
  unfold readRawText
  rcases findCloseTag?_cases (slash_not_mem_name htag.readOpenTag) hm with
    ⟨content, close, hfound, htakes, hcloses, hfirst⟩ | ⟨hnone, hall⟩
  · have hclose := hm.of_takes htakes
    obtain ⟨-, r, hr⟩ := Scanner.closeMark_of_findCloseTag? hfound
    simp only [hfound]
    constructor
    · intro h
      split at h
      · next e' hread =>
        cases h
        obtain ⟨hend, rfl⟩ := (entersClose hr).readCloseTag_eq_error_iff.1 hread
        exact .inr ⟨close, _, _, hclose, htakes.offset_le, hcloses, hfirst, entersClose hr, hend, rfl⟩
      · cases h
    · rintro (⟨hall, -⟩ | ⟨d, name, r', hd, hle, hat, hleast, henters, hend, rfl⟩)
      · exact absurd hcloses (hall _ htakes.offset_le)
      · -- the first end tag stands at one place only
        obtain rfl := hclose.eq_of_offset hd
          (Nat.le_antisymm (hfirst _ hle hat) (hleast _ htakes.offset_le hcloses))
        rw [henters.readCloseTag_eq_error_iff.2 ⟨hend, rfl⟩]
  · simp only [hnone, htag.start]
    constructor
    · intro h
      cases h
      exact .inl ⟨hall, rfl⟩
    · rintro (⟨-, rfl⟩ | ⟨d, name, r, -, hle, hat, -⟩)
      · rfl
      · exact absurd hat (hall _ hle)

end Provenance.Template
