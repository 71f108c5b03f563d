import Provenance.Proofs.Template.Markup
import Provenance.Proofs.Template.Relocated

/-! # Tokens of edited texts

  Attributes are spliced into a template behind the names of some of its start
  tags.  Each token is found again in the edited text (`ReadsToken.edited`), since
  what its end is looked for by stands where it stood.

  A text is the one token whose end depends on all that follows: it holds `{{`
  if no `}}` comes behind it.  So what is spliced in must not bring one (`Quiet`).
-/

namespace Provenance.Template

open Text (Cursor byteSize byteSize_append byteSize_cons)
open Text.Cursor (Takes)
open Insertion (edit moved sizeBefore textsAt)
open Marker (attributeMarkup)

variable {ins : List Insertion}

/-! ## §1. Start tags in the edited text -/

/-- What is inserted right behind a tag name counts for all places behind it. -/
theorem sizeBefore_behind {o p : Nat} (hlt : o < p) (h : ∀ x ∈ ins, x.offset ≤ o ∨ p ≤ x.offset) :
    sizeBefore ins p = sizeBefore ins o + byteSize (textsAt ins o) := by
  have hin : ∀ x ∈ ins, x.offset < o + 1 ∨ p ≤ x.offset := by
    intro x hx
    have := h x hx
    omega
  rw [Insertion.sizeBefore_eq hlt hin, Insertion.sizeBefore_succ]

/-- Insertions stand in front of a start tag, right behind its name, or behind it. -/
def AroundName (ins : List Insertion) (c : Cursor) (tag : OpenTag) (m : Cursor) : Prop :=
  ∀ x ∈ ins, x.offset < c.offset ∨ x.offset = tag.nameEnd ∨ m.offset ≤ x.offset

theorem AroundName.behind {c m : Cursor} {tag : OpenTag} {text : List Char}
    (hins : AroundName ins c tag m) (h : ReadsTag c tag text m) :
    ∀ x ∈ ins, x.offset ≤ tag.nameEnd ∨ m.offset ≤ x.offset := by
  intro x hx
  have hstart : c.offset ≤ tag.nameEnd := h.takes_name.offset_le
  have := hins x hx
  omega

/-- Behind the name of a start tag stands in the edited text what was spliced in, and
    then what stood there. -/
theorem ReadsTag.edit_text {c m : Cursor} {tag : OpenTag} {text w : List Char}
    (h : ReadsTag c tag text m) (hins : AroundName ins c tag m) (hw : text = w ++ '>' :: m.rest)
    (hm : m.offset = tag.nameEnd + byteSize (w ++ ['>'])) :
    edit ins tag.nameEnd text =
      textsAt ins tag.nameEnd ++ (w ++ '>' :: (m.edited ins).rest) := by
  have hafter := hins.behind h
  rw [hm] at hafter
  have hedit := Insertion.edit_append_at (by simp) m.rest hafter
  rw [← hm] at hedit
  rw [hw, show w ++ '>' :: m.rest = w ++ ['>'] ++ m.rest by simp, hedit]
  simp [Cursor.edited]

/-- The entries of a start tag are found again behind those that were spliced in. -/
theorem ReadsTag.edited_body {c m : Cursor} {tag : OpenTag} {text w : List Char}
    (h : ReadsTag c tag text m) (hins : AroundName ins c tag m) (hw : text = w ++ '>' :: m.rest)
    {added : List (String × String)}
    (htext : textsAt ins tag.nameEnd = added.flatMap attributeMarkup)
    (hnames : ∀ e ∈ added, IsAttributeName e.1.toList) :
    ReadsBody ⟨moved ins tag.nameEnd,
        added.flatMap attributeMarkup ++ (w ++ '>' :: (m.edited ins).rest)⟩
      ⟨entriesAt (moved ins tag.nameEnd) added ++ tag.entries.map (·.mapStart (moved ins)),
        tag.selfClosing⟩ (m.edited ins) := by
  have hafter := hins.behind h
  -- all that stands behind the name moves by the same size
  obtain ⟨k, hk⟩ : ∃ k, k = sizeBefore ins tag.nameEnd +
      byteSize (added.flatMap attributeMarkup) := ⟨_, rfl⟩
  have hmove : ∀ p, tag.nameEnd < p → p ≤ m.offset → p + k = moved ins p := by
    intro p hlt hle
    have hin : ∀ x ∈ ins, x.offset ≤ tag.nameEnd ∨ p ≤ x.offset := by
      intro x hx
      have := hafter x hx
      omega
    rw [moved, sizeBefore_behind hlt hin, htext, hk]
  have hreads := h.body.replace hw k (m.edited ins).rest
  have hentries : tag.entries.map (·.mapStart (· + k)) =
      tag.entries.map (·.mapStart (moved ins)) := by
    refine List.map_congr_left fun e he => Entry.mapStart_congr ?_
    obtain ⟨hstart, hstop⟩ := h.start_lt he
    exact hmove e.start hstart hstop
  have hend : (⟨m.offset + k, (m.edited ins).rest⟩ : Cursor) = m.edited ins := by
    rw [hmove m.offset h.nameEnd_lt (Nat.le_refl _)]
    rfl
  have hstart : tag.nameEnd + k = moved ins tag.nameEnd + byteSize (added.flatMap attributeMarkup) := by
    rw [hk, moved]
    omega
  rw [hend] at hreads
  dsimp only at hreads
  rw [hentries, hstart] at hreads
  exact readsBody_markup hnames hreads

/-- A start tag is found again, with the attributes that were spliced in behind its
    name as entries in front of the others. -/
theorem ReadsTag.edited {c m : Cursor} {tag : OpenTag} {text : List Char}
    (h : ReadsTag c tag text m) (hins : AroundName ins c tag m)
    {added : List (String × String)}
    (htext : textsAt ins tag.nameEnd = added.flatMap attributeMarkup)
    (hnames : ∀ e ∈ added, IsAttributeName e.1.toList) :
    ∃ text', ReadsTag (c.edited ins)
      (tag.relocated (moved ins) (entriesAt (moved ins tag.nameEnd) added)) text'
      (m.edited ins) := by
  obtain ⟨w, hw, hbody⟩ := h.takes_body
  have hedit := h.edit_text hins hw hbody.offset
  rw [htext] at hedit
  obtain ⟨hc, hn⟩ := h.takes_name.edited fun x hx => by
    show x.offset < c.offset ∨ tag.nameEnd ≤ x.offset
    have hlt := h.nameEnd_lt
    have := hins x hx
    omega
  have hmoved : moved ins tag.nameEnd = tag.nameEnd + sizeBefore ins c.offset :=
    congrArg Cursor.offset hn
  refine ⟨edit ins tag.nameEnd text, ?_, h.name, ?_, ?_, ?_, ?_⟩
  · rw [hc]
    rfl
  · -- behind the name stands what stood there, or the blank of an attribute
    obtain ⟨x, r, hx, hpart⟩ := h.stop
    rw [hedit]
    cases added with
    | nil =>
      rw [hw] at hx
      cases w with
      | nil => exact ⟨'>', _, rfl, by decide⟩
      | cons y w =>
        obtain ⟨rfl, -⟩ := List.cons.inj hx
        exact ⟨y, _, rfl, hpart⟩
    | cons e added => exact ⟨' ', _, rfl, by decide⟩
  · show moved ins tag.start = moved ins c.offset
    rw [h.start]
  · show moved ins tag.nameEnd = moved ins c.offset + 1 + byteSize tag.name.toList
    rw [hmoved, moved, h.nameEnd]
    omega
  · rw [hedit]
    exact h.edited_body hins hw htext hnames

/-- A start tag with nothing spliced into it is found again. -/
theorem ReadsTag.edited_plain {c m : Cursor} {tag : OpenTag} {text : List Char}
    (h : ReadsTag c tag text m) (hins : ∀ x ∈ ins, x.offset < c.offset ∨ m.offset ≤ x.offset) :
    ∃ text', ReadsTag (c.edited ins) (tag.relocated (moved ins) []) text' (m.edited ins) := by
  have haround : AroundName ins c tag m := by
    intro x hx
    have := hins x hx
    omega
  have hnone : textsAt ins tag.nameEnd = [].flatMap attributeMarkup := by
    refine Insertion.textsAt_eq_nil fun x hx => ?_
    have hstart : c.offset ≤ tag.nameEnd := h.takes_name.offset_le
    have hlt := h.nameEnd_lt
    have := hins x hx
    omega
  exact h.edited haround hnone (by simp)

/-! ## §2. Texts in the edited text -/

theorem take_three_append {w y y' : List Char} (hw : w ≠ []) (hy : y.take 2 = y'.take 2) :
    (w ++ y).take 3 = (w ++ y').take 3 := by
  cases w with
  | nil => exact absurd rfl hw
  | cons x w =>
    have hn : ∀ n, n ≤ 2 → y.take n = y'.take n := by
      intro n hn
      rw [← Nat.min_eq_left hn, ← List.take_take, ← List.take_take, hy]
    rw [List.cons_append, List.cons_append, List.take_succ_cons, List.take_succ_cons,
      List.take_append, List.take_append, hn _ (by omega)]

/-- What a `<` begins shows in three characters. -/
theorem starts_take_three (s : List Char) :
    startsOpenTag s = startsOpenTag (s.take 3) ∧ startsCloseTag s = startsCloseTag (s.take 3) ∧
    startsDeclaration s = startsDeclaration (s.take 3) := by
  match s with
  | [] | [_] | [_, _] => exact ⟨rfl, rfl, rfl⟩
  | x :: y :: z :: s =>
    refine ⟨?_, ?_, ?_⟩
    · unfold startsOpenTag
      split <;> simp_all
    · unfold startsCloseTag
      split <;> split <;> simp_all
    · unfold startsDeclaration
      split <;> simp_all

theorem starts_append {w y y' : List Char} (hw : w ≠ []) (hy : y.take 2 = y'.take 2) :
    startsOpenTag (w ++ y) = startsOpenTag (w ++ y') ∧
    startsCloseTag (w ++ y) = startsCloseTag (w ++ y') ∧
    startsDeclaration (w ++ y) = startsDeclaration (w ++ y') := by
  obtain ⟨hopen, hclose, hdecl⟩ := starts_take_three (w ++ y)
  obtain ⟨hopen', hclose', hdecl'⟩ := starts_take_three (w ++ y')
  rw [take_three_append hw hy] at hopen hclose hdecl
  exact ⟨hopen.trans hopen'.symm, hclose.trans hclose'.symm, hdecl.trans hdecl'.symm⟩

/-- A `{{` that begins in a piece of `size` bytes and has no `}}` behind it has none in
    the edited text either. -/
def Quiet (ins : List Insertion) (c : Cursor) (size : Nat) : Prop :=
  ∀ u r, c.rest = u ++ '{' :: '{' :: r → byteSize u < size → ¬ ['}', '}'] <:+: r →
    ¬ ['}', '}'] <:+: edit ins (c.offset + byteSize u + 2) r

/-- A `{{` of the edited text that begins in front of a settled cursor is one of the
    original, and behind it stands, edited, what stood there. -/
theorem braces_of_edited {d : Cursor} {v r' : List Char} {o : Nat} (hv : v ≠ [])
    (hd : Settled ins d) (ho : d.offset = o + byteSize v)
    (hins : ∀ x ∈ ins, x.offset < o ∨ d.offset ≤ x.offset)
    (h : v ++ (d.edited ins).rest = '{' :: '{' :: r') :
    ∃ r, v ++ d.rest = '{' :: '{' :: r ∧ edit ins (o + 2) r = r' := by
  have hone : '{'.utf8Size = 1 := rfl
  match v with
  | [] => exact absurd rfl hv
  | [x] =>
    -- the second brace stands at the cursor, where nothing is inserted
    obtain ⟨rfl, hrest'⟩ := List.cons.inj h
    have hrest' : (d.edited ins).rest = '{' :: r' := hrest'
    have htwo := hd.take_two
    rw [hrest'] at htwo
    cases hrest : d.rest with
    | nil =>
      rw [hrest] at htwo
      cases htwo
    | cons y r =>
      rw [hrest] at htwo
      obtain ⟨rfl, -⟩ := List.cons.inj htwo
      refine ⟨r, rfl, ?_⟩
      have hedit : edit ins d.offset ('{' :: r) = '{' :: r' := by
        rw [← hrest]
        exact hrest'
      have hsize : d.offset + '{'.utf8Size = o + 2 := by
        have hbrace : byteSize ['{'] = 1 := rfl
        omega
      rw [edit, Insertion.textsAt_eq_nil hd.not_at, hsize] at hedit
      exact (List.cons.inj hedit).2
  | x :: y :: v =>
    obtain ⟨rfl, htail⟩ := List.cons.inj h
    obtain ⟨rfl, htail'⟩ := List.cons.inj htail
    have hrest' : v ++ (d.edited ins).rest = r' := htail'
    refine ⟨v ++ d.rest, rfl, ?_⟩
    rw [byteSize_cons, byteSize_cons] at ho
    have hsize : o + 2 + byteSize v = d.offset := by omega
    rw [Insertion.edit_append d.rest, hsize]
    · exact hrest'
    · intro x hx
      have := hins x hx
      omega

/-- Where a text goes on, it goes on in the edited text. -/
theorem endsText_edited {c d : Cursor} {u v : List Char} (hw : Takes c (u ++ v) d) (hv : v ≠ [])
    (hclear : Apart ins c d)
    (hquiet : Quiet ins c (byteSize (u ++ v))) (h : endsText (v ++ d.rest) = false) :
    endsText (v ++ (d.edited ins).rest) = false := by
  have hd : Settled ins d := hclear.settled hw.offset_le
  have hpos := Text.byteSize_pos hv
  have hoff := hw.offset
  rw [byteSize_append] at hoff
  obtain ⟨hint, hopen, hclose, hdecl⟩ := endsText_eq_false_iff.1 h
  obtain ⟨hopen', hclose', hdecl'⟩ := starts_append hv hd.take_two
  refine endsText_eq_false_iff.2 ⟨?_, hopen'.trans hopen, hclose'.trans hclose, hdecl'.trans hdecl⟩
  -- an interpolation would need a `}}` that the original does not have
  rw [← Bool.not_eq_true]
  intro hstarts
  obtain ⟨r', hr', hbraces⟩ := startsInterpolation_eq hstarts
  have hins : ∀ x ∈ ins, x.offset < c.offset + byteSize u ∨ d.offset ≤ x.offset := by
    intro x hx
    have := hclear.outside x hx
    omega
  obtain ⟨r, hr, rfl⟩ := braces_of_edited hv hd (by omega) hins hr'
  have hnot : ¬ ['}', '}'] <:+: r := by
    intro hin
    rw [hr] at hint
    have hfound := Cursor.splitOn?_isSome_iff.2 hin
    rw [show startsInterpolation ('{' :: '{' :: r) = (Cursor.splitOn? ['}', '}'] r).isSome from rfl,
      hfound] at hint
    cases hint
  have hrest : c.rest = u ++ '{' :: '{' :: r := by rw [hw.rest, List.append_assoc, hr]
  refine hquiet u r hrest ?_ hnot hbraces
  rw [byteSize_append]
  omega

/-- A text is found again. -/
theorem text_edited {c d : Cursor} (hc : c.rest ≠ []) (h : endsText c.rest = false)
    (hd : d = c.skip (textRun c.rest).length)
    (hclear : Apart ins c d)
    (hquiet : Quiet ins c (byteSize (textRun c.rest)))
    (hend : endsText d.rest = true → endsText (d.edited ins).rest = true)
    (hnil : d.rest = [] → (d.edited ins).rest = []) :
    ReadsToken (c.edited ins)
      (.text (String.ofList (textRun c.rest)) (moved ins c.offset)) (d.edited ins) := by
  have hw : Takes c (textRun c.rest) d := hd ▸ takes_textRun c
  obtain ⟨r, hr, hstop, hin⟩ := textRun_spec c.rest
  have hrest : d.rest = r := List.append_cancel_left (hw.rest.symm.trans hr)
  have hne : textRun c.rest ≠ [] := List.ne_nil_of_length_pos (textRun_length_pos hc)
  obtain ⟨hc', hd'⟩ := hw.edited hclear.outside
  have hrun : textRun (c.edited ins).rest = textRun c.rest := by
    rw [hc']
    refine textRun_append hne ?_ fun u v huv hu hv => ?_
    · rcases hstop with hstop | hstop
      · exact .inl (hnil (hrest.trans hstop))
      · exact .inr (hend (by rw [hrest]; exact hstop))
    · have hgo := hin u v huv hu hv
      rw [← hrest] at hgo
      rw [huv] at hw hquiet
      exact endsText_edited hw hv hclear hquiet hgo
  have hstart : endsText (c.edited ins).rest = false := by
    rw [hw.rest] at h
    rw [hc']
    exact endsText_edited (u := []) hw hne hclear hquiet h
  have hskip : (c.edited ins).skip (textRun c.rest).length = d.edited ins := by
    rw [hc', hd', Cursor.skip, Cursor.past, List.take_left, List.drop_left, hw.offset]
    simp only [Nat.add_right_comm]
  have htoken := ReadsToken.text hstart
  rw [hrun, hskip] at htoken
  exact htoken

/-! ## §3. Tokens in the edited text -/

/-- A start tag of the edited text, where `added` says what was spliced in. -/
def OpenTag.edited (ins : List Insertion) (added : OpenTag → List (String × String))
    (tag : OpenTag) : OpenTag :=
  tag.relocated (moved ins) (entriesAt (moved ins tag.nameEnd) (added tag))

theorem keepsClass_edited (added : OpenTag → List (String × String)) :
    KeepsClass (OpenTag.edited ins added) := ⟨fun _ => rfl, fun _ => rfl⟩

/-- What is read behind a mark up to a pattern is found again. -/
theorem takeUntil?_edited {c d : Cursor} {mark p content : List Char} (hp : p ≠ [])
    (hmark : ∃ r, c.rest = mark ++ r)
    (hd : (c.skip mark.length).takeUntil? p = some (content, d))
    (hins : ∀ x ∈ ins, x.offset < c.offset ∨ d.offset ≤ x.offset) :
    (c.edited ins).rest = mark ++ (content ++ p ++ (d.edited ins).rest) ∧
    ((c.edited ins).skip mark.length).takeUntil? p = some (content, d.edited ins) := by
  obtain ⟨r, hr⟩ := hmark
  rw [Cursor.skip_append hr] at hd
  have hmarked : Takes c mark ⟨c.offset + byteSize mark, r⟩ := ⟨hr, rfl⟩
  have hw := hmarked.trans (Cursor.takes_takeUntil? hd)
  obtain ⟨hc', hd'⟩ := hw.edited hins
  have hrest : (c.edited ins).rest = mark ++ (content ++ p ++ (d.edited ins).rest) := by
    rw [hc', List.append_assoc]
  have hfound := Cursor.takeUntil?_replace hp hd (c.offset + sizeBefore ins c.offset + byteSize mark)
    (d.edited ins).rest
  have hend : c.offset + sizeBefore ins c.offset + byteSize mark + byteSize (content ++ p) =
      d.offset + sizeBefore ins c.offset := by
    rw [hw.offset, byteSize_append mark]
    omega
  rw [hend, ← hd'] at hfound
  refine ⟨hrest, ?_⟩
  rw [Cursor.skip_append hrest]
  exact hfound

theorem startsComment_append (v y y' : List Char) :
    startsComment ('<' :: '!' :: (v ++ '>' :: y)) = startsComment ('<' :: '!' :: (v ++ '>' :: y')) := by
  match v with
  | [] => rfl
  | [x] => simp [startsComment]
  | x :: z :: v =>
    unfold startsComment
    split <;> split <;> simp_all

/-- An end tag is found again. -/
theorem closeTag_edited {c d : Cursor} {tag : CloseTag} (hstarts : startsCloseTag c.rest = true)
    (h : ReadsClose c tag ['<', '/'] d)
    (hins : ∀ x ∈ ins, x.offset < c.offset ∨ d.offset ≤ x.offset) :
    startsCloseTag (c.edited ins).rest = true ∧
    ReadsClose (c.edited ins) (tag.edited ins) ['<', '/'] (d.edited ins) := by
  obtain ⟨hc', hd'⟩ := h.takes.edited hins
  have hreplace := h.replace (sizeBefore ins c.offset) (d.edited ins).rest
  have htag : tag.edited ins =
      { tag with start := c.offset + sizeBefore ins c.offset,
                 after := ⟨d.offset + sizeBefore ins c.offset, (d.edited ins).rest⟩ } := by
    rw [CloseTag.edited, h.start, h.after, ← hd']
    rfl
  have hrest : (c.edited ins).rest =
      ['<', '/'] ++ (tag.inner ++ '>' :: (d.edited ins).rest) := by
    rw [hc']
    simp
  constructor
  · obtain ⟨x, r, hr, hx⟩ := startsCloseTag_eq hstarts
    have hinner : tag.inner ++ '>' :: d.rest = x :: r := by
      have hrest := h.rest
      rw [hr] at hrest
      exact (List.cons.inj (List.cons.inj hrest).2).2.symm
    rw [hrest]
    -- the character behind `</` is not the mark, so it is one of the tag
    have hx' : x ≠ '>' := by
      rintro rfl
      cases hx
    obtain ⟨g, hg, -⟩ := Text.cons_of_append_mark hinner hx'
    rw [hg]
    exact hx
  · rw [htag, hd', hc']
    have hsame : ['<', '/'] ++ (tag.inner ++ ['>']) ++ (d.edited ins).rest =
        ['<', '/'] ++ (tag.inner ++ '>' :: (d.edited ins).rest) := by simp
    rw [hsame]
    exact hreplace

/-- A declaration is found again. -/
theorem declaration_edited {c d : Cursor} {content : List Char}
    (h : startsDeclaration c.rest = true) (hn : startsComment c.rest = false)
    (hd : c.takeUntil? ['>'] = some (content, d))
    (hins : ∀ x ∈ ins, x.offset < c.offset ∨ d.offset ≤ x.offset) :
    startsDeclaration (c.edited ins).rest = true ∧ startsComment (c.edited ins).rest = false ∧
    (c.edited ins).takeUntil? ['>'] = some (content, d.edited ins) := by
  obtain ⟨r, hr⟩ := startsDeclaration_eq h
  obtain ⟨hrest, hfound⟩ := @takeUntil?_edited ins c d [] ['>'] content (by simp) ⟨_, rfl⟩ hd hins
  have htext : content ++ '>' :: d.rest = '<' :: '!' :: r := by
    rw [← hr, (Cursor.takes_takeUntil? hd).rest, List.append_assoc]
    rfl
  -- the declaration begins inside `content`
  obtain ⟨v, rfl⟩ : ∃ v, content = '<' :: '!' :: v := by
    match content with
    | [] => exact absurd (List.cons.inj htext).1 (by decide)
    | [x] => exact absurd (List.cons.inj (List.cons.inj htext).2).1 (by decide)
    | x :: y :: v =>
      obtain ⟨rfl, htail⟩ := List.cons.inj htext
      obtain ⟨rfl, -⟩ := List.cons.inj htail
      exact ⟨v, rfl⟩
  have hrest' : (c.edited ins).rest = '<' :: '!' :: (v ++ '>' :: (d.edited ins).rest) := by
    rw [hrest]
    simp
  refine ⟨by rw [hrest']; rfl, ?_, hfound⟩
  rw [hrest', startsComment_append v (d.edited ins).rest d.rest,
    show '<' :: '!' :: (v ++ '>' :: d.rest) = c.rest from htext.trans hr.symm]
  exact hn

/-- A start tag begins in the edited text where it began. -/
theorem ReadsTag.edited_opens {c m : Cursor} {tag : OpenTag} {text : List Char}
    (h : ReadsTag c tag text m) (hopen : startsOpenTag c.rest = true)
    {text' : List Char} {tag' : OpenTag} {c' m' : Cursor} (h' : ReadsTag c' tag' text' m')
    (hname : tag'.name = tag.name) : startsOpenTag c'.rest = true := by
  obtain ⟨x, r, hx, halpha⟩ := (h.standsIn hopen).name
  rw [h'.rest, hname, hx]
  exact halpha

/-- Raw text with its end tag is found again. -/
theorem rawText_edited {m d : Cursor} {tag tag' : OpenTag} {content : List Char}
    (hname : '>' ∉ tag.name.toList) (h : readRawText tag m = .ok (content, d))
    (htag : tag'.name = tag.name) (hins : ∀ x ∈ ins, x.offset < m.offset ∨ d.offset ≤ x.offset) :
    readRawText tag' (m.edited ins) = .ok (content, d.edited ins) := by
  obtain ⟨w, hw, hreplace⟩ := readRawText_replace hname h
  obtain ⟨hm', hd'⟩ := hw.edited hins
  have hraw := hreplace tag' (sizeBefore ins m.offset) (d.edited ins).rest htag
  rw [← hd'] at hraw
  rw [hm', show w ++ ['>'] ++ (d.edited ins).rest = w ++ '>' :: (d.edited ins).rest by simp]
  exact hraw

/-- Insertions stand in front of a token, right behind the name of its start tag, or
    well behind it. -/
def AroundToken (ins : List Insertion) (c : Cursor) (t : Token) (d : Cursor) : Prop :=
  ∀ x ∈ ins, x.offset < c.offset ∨ (∃ tag, t.tag? = some tag ∧ x.offset = tag.nameEnd) ∨ x.Behind d

/-- A token without a start tag holds no insertion. -/
theorem AroundToken.clear {c d : Cursor} {t : Token} (h : AroundToken ins c t d)
    (ht : t.tag? = none) : Apart ins c d := by
  intro x hx
  rcases h x hx with hlt | ⟨tag, htag, -⟩ | hbehind
  · exact .inl hlt
  · rw [ht] at htag
    cases htag
  · exact .inr hbehind

/-- One with a start tag holds the insertions behind its name. -/
theorem AroundToken.aroundName {c m d : Cursor} {t : Token} {tag : OpenTag}
    (h : AroundToken ins c t d) (ht : t.tag? = some tag) (hm : m.offset ≤ d.offset) :
    AroundName ins c tag m := by
  intro x hx
  rcases h x hx with hlt | ⟨tag', htag', heq⟩ | hbehind
  · exact .inl hlt
  · rw [ht] at htag'
    obtain rfl := Option.some.inj htag'
    exact .inr (.inl heq)
  · have := hbehind.offset_lt
    exact .inr (.inr (by omega))

/-- A token is found again where the insertions into it are those behind the name of
    its start tag. -/
theorem ReadsToken.edited {c d : Cursor} {t : Token} {added : OpenTag → List (String × String)}
    (h : ReadsToken c t d) (hc : c.rest ≠ [])
    (hins : AroundToken ins c t d)
    (hadded : ∀ tag, t.tag? = some tag →
      textsAt ins tag.nameEnd = (added tag).flatMap attributeMarkup ∧
      ∀ e ∈ added tag, IsAttributeName e.1.toList)
    (htext : ∀ content start, t = .text content start →
      Quiet ins c (d.offset - c.offset) ∧
      (Template.endsText d.rest = true → Template.endsText (d.edited ins).rest = true) ∧
      (d.rest = [] → (d.edited ins).rest = [])) :
    ReadsToken (c.edited ins) (t.edited ins (OpenTag.edited ins added)) (d.edited ins) := by
  cases h with
  | @comment _ content h hd =>
    have hmark : ∃ r, c.rest = ['<', '!', '-', '-'] ++ r := startsComment_eq h
    obtain ⟨hrest, hfound⟩ := takeUntil?_edited (by simp) hmark hd (hins.clear rfl).outside
    exact .comment (by rw [hrest]; rfl) hfound
  | closeTag h hd =>
    have hmark := hd.mark_eq h
    subst hmark
    obtain ⟨hstarts, hclose⟩ := closeTag_edited h hd (hins.clear rfl).outside
    exact .closeTag hstarts hclose
  | declaration h hn hd =>
    obtain ⟨hstarts, hn', hfound⟩ := declaration_edited h hn hd (hins.clear rfl).outside
    exact .declaration hstarts hn' hfound
  | openTag h hd hraw =>
    obtain ⟨hnames, hvalid⟩ := hadded _ rfl
    obtain ⟨text', htag⟩ := hd.edited (hins.aroundName rfl (Nat.le_refl _)) hnames hvalid
    refine .openTag (hd.edited_opens h htag rfl) htag ?_
    rw [← hraw]
    exact (keepsClass_edited added).isRawText _
  | rawElement h hm hraw hd =>
    obtain ⟨hnames, hvalid⟩ := hadded _ rfl
    obtain ⟨w, hw, -⟩ := readRawText_replace hm.mark_not_mem hd
    have haround := hins.aroundName rfl hw.offset_le
    obtain ⟨text', htag⟩ := hm.edited haround hnames hvalid
    refine .rawElement (hm.edited_opens h htag rfl) htag ?_ (rawText_edited hm.mark_not_mem hd rfl ?_)
    · rw [← hraw]
      exact (keepsClass_edited added).isRawText _
    · intro x hx
      have hlt := hm.nameEnd_lt
      rcases hm.takes with ⟨v, -, hv⟩
      have hle := hv.offset_le
      rcases hins x hx with hlt' | ⟨tag, htag, heq⟩ | hbehind
      · exact .inl (by omega)
      · cases htag
        exact .inl (by omega)
      · have := hbehind.offset_lt
        exact .inr (by omega)
  | interpolation h hd =>
    have hmark : ∃ r, c.rest = ['{', '{'] ++ r := ⟨_, h⟩
    obtain ⟨hrest, hfound⟩ := takeUntil?_edited (by simp) hmark hd (hins.clear rfl).outside
    exact .interpolation hrest hfound
  | text h =>
    obtain ⟨hquiet, hend, hnil⟩ := htext _ _ rfl
    have hsize : (c.skip (textRun c.rest).length).offset - c.offset = byteSize (textRun c.rest) := by
      rw [(takes_textRun c).offset]
      omega
    rw [hsize] at hquiet
    exact text_edited hc h rfl (hins.clear rfl) hquiet hend hnil

end Provenance.Template
