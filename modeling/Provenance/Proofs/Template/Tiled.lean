import Provenance.Proofs.Template.Tiling
import Provenance.Proofs.Template.Walk
import Provenance.Proofs.Annotation.Marked

/-! # Trees that are read tile their source

  Reading a component leaves a tree that lies in the source as `Tiling` says
  (`parse_tiles`).

  The invariant is on the open elements: at each token the children of every open element
  tile the source from its start tag on, the innermost ones up to the token and the others
  up to the next open element (`OpenElements.TilesTo`).  Each token makes one step of it
  (`Scan.tiles`).
-/

namespace Provenance

open Text (byteSize byteSize_append byteSize_cons IsBoundary slice? slice?_eq_some_iff isTagBlank)
open Text.Cursor (Takes)

/-! ## §1. Cursors in a source -/

/-- A cursor stands in a source at its offset. -/
def Text.Cursor.StandsIn (c : Text.Cursor) (source : List Char) : Prop :=
  ∃ front, source = front ++ c.rest ∧ byteSize front = c.offset

variable {source w : List Char} {c d : Text.Cursor}

theorem Text.Cursor.StandsIn.of_takes (h : c.StandsIn source) (hw : Takes c w d) :
    d.StandsIn source := by
  obtain ⟨front, hsource, hsize⟩ := h
  refine ⟨front ++ w, ?_, ?_⟩
  · rw [hsource, hw.rest, List.append_assoc]
  · rw [byteSize_append, hw.offset, hsize]

theorem Text.Cursor.StandsIn.isBoundary (h : c.StandsIn source) : IsBoundary source c.offset := by
  obtain ⟨front, hsource, hsize⟩ := h
  exact ⟨front, c.rest, hsource, hsize⟩

/-- A source has one cursor at an offset. -/
theorem Text.Cursor.StandsIn.eq_of_offset (h : c.StandsIn source) (h' : d.StandsIn source)
    (hoffset : c.offset = d.offset) : c = d := by
  obtain ⟨o, s⟩ := c
  obtain ⟨p, t⟩ := d
  obtain ⟨front, hfront, hsize⟩ := h
  obtain ⟨front', hfront', hsize'⟩ := h'
  obtain rfl : o = p := hoffset
  obtain ⟨-, rfl⟩ := Text.append_inj_of_byteSize_eq (hfront.symm.trans hfront')
    (hsize.trans hsize'.symm)
  rfl

/-- What reading moves over stands in the source between the two offsets. -/
theorem Text.Cursor.StandsIn.slice (h : c.StandsIn source) (hw : Takes c w d) :
    slice? source c.offset d.offset = some w := by
  obtain ⟨front, hsource, hsize⟩ := h
  exact slice?_eq_some_iff.2 ⟨front, d.rest, by rw [hsource, hw.rest], hsize, hw.offset⟩

/-- What remains at a cursor is the rest of the source. -/
theorem Text.Cursor.StandsIn.slice_rest (h : c.StandsIn source) :
    slice? source c.offset (byteSize source) = some c.rest := by
  obtain ⟨front, hsource, hsize⟩ := h
  refine slice?_eq_some_iff.2 ⟨front, [], by rw [List.append_nil]; exact hsource, hsize, ?_⟩
  rw [hsource, byteSize_append, hsize]

namespace Template

open Text (Cursor)

/-! ## §2. Start tags -/

theorem Entry.rawName_ofName (name : List Char) (value : Option (List Char)) (start : Nat) :
    (Entry.ofName name value start).rawName = String.ofList name := by
  unfold Entry.ofName
  split <;> rfl

/-- An entry is read from its name on. -/
theorem readEntry_takes_name {e : Entry} (h : readEntry c = .ok (e, d)) :
    ∃ w, Takes c (e.rawName.toList ++ w) d := by
  have hskip := Cursor.takes_skip c (attributeName c.rest).length
  rw [← List.prefix_iff_eq_take.1 (prefix_attributeName c.rest)] at hskip
  rcases readEntry_cases h with ⟨r, value, hgap, hvalue, rfl⟩ | ⟨-, rfl, rfl⟩
  · obtain ⟨w, hw⟩ := readValue_takes hvalue
    rw [Entry.rawName_ofName, String.toList_ofList]
    have hblank := hskip.trans (Cursor.takes_takeWhile _ isTagBlank)
    have hmark := hblank.trans (Cursor.takes_skip _ 1)
    have hall := (hmark.trans (Cursor.takes_takeWhile _ _)).trans hw
    simp only [List.append_assoc] at hall
    exact ⟨_, hall⟩
  · rw [Entry.rawName_ofName, String.toList_ofList]
    exact ⟨[], by rw [List.append_nil]; exact hskip⟩

/-- The entries of a start tag stand in the source where they say, in order. -/
theorem ReadsBody.entries_stand {body : TagBody} (h : ReadsBody c body d)
    (hc : c.StandsIn source) :
    body.entries.Pairwise (·.start < ·.start) ∧
      ∀ e ∈ body.entries, ∃ p, slice? source e.start p = some e.rawName.toList ∧ p < d.offset := by
  induction h with
  | close h => exact ⟨.nil, by simp⟩
  | selfClose h => exact ⟨.nil, by simp⟩
  | @slash c d r body h hr tail ih =>
    exact ih (hc.of_takes
      ((Cursor.takes_skipWhile c isTagBlank).trans (Cursor.takes_skip_one h)))
  | @entry c next d x r e body h hx he tail ih =>
    have hin := hc.of_takes (Cursor.takes_skipWhile c isTagBlank)
    obtain ⟨hstart, -⟩ := readEntry_takes he
    obtain ⟨w, hw⟩ := readEntry_takes_name he
    obtain ⟨v, hv⟩ := tail.takes
    obtain ⟨horder, hentries⟩ := ih (hin.of_takes hw)
    -- the entry takes something, so the next one starts behind it
    have hshort := readEntry_shorter (by rw [h]; simp) he
    have hne : e.rawName.toList ++ w ≠ [] := by
      intro hnil
      have hrest := hw.rest
      rw [hnil, List.nil_append] at hrest
      rw [hrest] at hshort
      exact Nat.lt_irrefl _ hshort
    have hpos := Text.byteSize_pos hne
    have hoff := hw.offset
    refine ⟨List.pairwise_cons.2 ⟨?_, horder⟩, ?_⟩
    · intro e' he'
      have := (tail.start_mem he').1
      omega
    · intro e' he'
      rcases List.mem_cons.1 he' with rfl | he'
      · have hname : Takes (c.skipWhile isTagBlank) e'.rawName.toList _ :=
          Cursor.takes_past (by rw [hw.rest, List.append_assoc])
        have hlast := hv.offset
        rw [byteSize_append] at hoff hlast
        have hone : byteSize ['>'] = 1 := rfl
        refine ⟨_, by rw [hstart]; exact hin.slice hname, ?_⟩
        show (c.skipWhile isTagBlank).offset + byteSize e'.rawName.toList < d.offset
        omega
      · exact hentries e' he'

/-- A start tag that is read stands in the source. -/
theorem ReadsTag.spans {tag : OpenTag} {text : List Char} (h : ReadsTag c tag text d)
    (hc : c.StandsIn source) : tag.Spans source d.offset where
  name := by rw [h.start]; exact hc.slice h.takes_name
  behind := by
    obtain ⟨inner, -, hw⟩ := h.takes_body
    exact ⟨inner, (hc.of_takes h.takes_name).slice hw⟩
  order := (h.body.entries_stand (hc.of_takes h.takes_name)).1
  entry := by
    intro e he
    exact ⟨(h.start_lt he).1, (h.body.entries_stand (hc.of_takes h.takes_name)).2 e he⟩
  again := by
    refine ⟨c.rest, d.rest, ?_, ?_⟩
    · rw [h.start]
      exact hc.slice_rest
    · rw [h.start]
      exact h.readOpenTag

/-! ## §3. End tags -/

/-- The characters that end the name of a tag. -/
theorem isTagNamePart_eq_false_iff {x : Char} :
    isTagNamePart x = false ↔ x ∈ [' ', '\t', '\n', '\x0c', '\r', '>', '/'] := by
  simp only [isTagNamePart, isTagBlank, List.mem_cons, List.not_mem_nil]
  grind

/-- Whether a character belongs to the name of a tag does not depend on its case. -/
theorem isTagNamePart_toLower (x : Char) : isTagNamePart x.toLower = isTagNamePart x := by
  have hall : [' ', '\t', '\n', '\x0c', '\r', '>', '/'].all
      (fun y => y.toNat < 'a'.toNat ∧ y.toLower = y) = true := by decide
  simp only [List.all_eq_true, decide_eq_true_eq] at hall
  cases hx : isTagNamePart x with
  | false =>
    rw [(hall x (isTagNamePart_eq_false_iff.1 hx)).2]
    exact hx
  | true =>
    cases hlower : isTagNamePart x.toLower with
    | true => rfl
    | false =>
      -- only a mark becomes a mark
      have hmark := (hall _ (isTagNamePart_eq_false_iff.1 hlower)).1
      rw [← eq_of_toLower_eq hmark rfl, hx] at hlower
      cases hlower

/-- An end tag of the name of an element closes the element. -/
theorem ReadsClose.endTag {tag : CloseTag} {name : String}
    (h : ReadsClose c tag ['<', '/'] d) (hc : c.StandsIn source)
    (hname : sameName tag.name.toList name.toList = true) :
    EndTag source name c.offset d.offset := by
  refine ⟨tag.inner, hc.slice h.takes, h.inner, ?_⟩
  rw [h.name, String.toList_ofList] at hname
  exact hname

/-- Raw text ends in front of an end tag whose name has the characters looked for. -/
theorem splitBeforeClose?_ends {needle s a b : List Char} {skip : Nat}
    (h : splitBeforeClose? needle skip s = some (a, b)) :
    endsTagName (b.drop needle.length) = true := by
  induction s generalizing skip a b with
  | nil => simp [splitBeforeClose?] at h
  | cons x r ih =>
    have step {n : Nat}
        (h : (splitBeforeClose? needle n r).map (fun parts => (x :: parts.1, parts.2)) =
          some (a, b)) : endsTagName (b.drop needle.length) = true := by
      obtain ⟨⟨u, v⟩, huv, heq⟩ := Option.map_eq_some_iff.1 h
      obtain ⟨-, rfl⟩ := Prod.mk.inj heq
      exact ih huv
    cases skip with
    | succ n => exact step (by simpa [splitBeforeClose?] using h)
    | zero =>
      rw [splitBeforeClose?] at h
      split at h
      · split at h
        · next hends =>
          obtain ⟨-, rfl⟩ := Prod.mk.inj (Option.some.inj h)
          exact hends
        · exact step h
      · exact step h

/-- The name at the front of a text that begins with a name up to case. -/
theorem sameName_takeWhile {name s : List Char} (hname : ∀ x ∈ name, isTagNamePart x = true)
    (hpre : lowered name <+: lowered s) (hends : endsTagName (s.drop name.length) = true) :
    sameName (s.takeWhile isTagNamePart) name = true := by
  obtain ⟨r, hr⟩ := hpre
  -- the front of the text is the name up to case, and what follows ends it
  have hfront : lowered (s.take name.length) = lowered name := by
    have htake := congrArg (List.take name.length) hr
    rw [← length_lowered name, List.take_left, length_lowered] at htake
    rw [lowered, List.map_take]
    exact htake.symm
  have hpart : ∀ x ∈ s.take name.length, isTagNamePart x = true := by
    intro x hx
    have hmem : x.toLower ∈ lowered (s.take name.length) := List.mem_map_of_mem hx
    rw [hfront] at hmem
    obtain ⟨y, hy, heq⟩ := List.mem_map.1 hmem
    rw [← isTagNamePart_toLower, ← heq, isTagNamePart_toLower]
    exact hname y hy
  have hall : s.takeWhile isTagNamePart = s.take name.length := by
    have htake := Text.takeWhile_run hpart (isTagNamePart_of_endsTagName hends)
    rwa [List.take_append_drop] at htake
  rw [hall]
  exact decide_eq_true hfront

/-- Raw text stands in the source in front of the end tag of its element. -/
theorem readRawText_stands {tag : OpenTag} {content : List Char}
    (hname : ∀ x ∈ tag.name.toList, isTagNamePart x = true) (hc : c.StandsIn source)
    (h : readRawText tag c = .ok (content, d)) :
    ∃ p, slice? source c.offset p = some content ∧ EndTag source tag.name p d.offset := by
  unfold readRawText findCloseTag? at h
  split at h
  · cases h
  · next content' close hfind =>
    split at h
    · cases h
    · next t stop hread =>
      obtain ⟨rfl, rfl⟩ := Prod.mk.inj (Except.ok.inj h)
      obtain ⟨⟨a, b⟩, hsplit, heq⟩ := Option.map_eq_some_iff.1 hfind
      obtain ⟨rfl, rfl⟩ := Prod.mk.inj heq
      obtain ⟨hrest, hpre⟩ := splitBeforeClose?_eq_some hsplit
      have hends := splitBeforeClose?_ends hsplit
      obtain ⟨mark, hclose⟩ := readsClose_of_readCloseTag hread
      have hpiece : Takes c a (c.past a b) := Cursor.takes_past hrest
      have hb : b = mark ++ (t.inner ++ '>' :: stop.rest) := hclose.rest
      -- the mark is `</`, since no other characters become these
      obtain ⟨x, z, rfl⟩ : ∃ x z, mark = [x, z] := by
        match mark, hclose.length with
        | [x, z], _ => exact ⟨x, z, rfl⟩
      rw [hb, List.isPrefixOf_iff_prefix] at hpre
      obtain ⟨hx, hpre'⟩ := List.cons_prefix_cons.1 hpre
      obtain ⟨hz, hlowered⟩ := List.cons_prefix_cons.1 hpre'
      obtain rfl := eq_of_toLower_eq (by decide) hx.symm
      obtain rfl := eq_of_toLower_eq (by decide) hz.symm
      have hlen : ('<' :: '/' :: lowered tag.name.toList).length = tag.name.toList.length + 2 := by
        rw [List.length_cons, List.length_cons, length_lowered]
      have hdrop : b.drop ('<' :: '/' :: lowered tag.name.toList).length =
          (t.inner ++ '>' :: stop.rest).drop tag.name.toList.length := by
        rw [hb, hlen]
        rfl
      rw [hdrop] at hends
      have hinner : lowered tag.name.toList <+: lowered (t.inner ++ '>' :: stop.rest) := hlowered
      have hsame := sameName_takeWhile hname hinner hends
      rw [Text.takeWhile_append_stop (by decide)] at hsame
      refine ⟨_, hc.slice hpiece, hclose.endTag (hc.of_takes hpiece) ?_⟩
      rw [hclose.name, String.toList_ofList]
      exact hsame

/-! ## §4. Other tokens -/

/-- A comment that is read stands in the source. -/
theorem comment_spans {content : List Char} (hc : c.StandsIn source)
    (hstarts : startsComment c.rest = true)
    (hd : (c.skip 4).takeUntil? ['-', '-', '>'] = some (content, d)) :
    Node.Spans source d.offset (.comment (String.ofList content) c.offset) := by
  obtain ⟨r, hr⟩ := startsComment_eq hstarts
  have hskip := Cursor.takes_skip c 4
  rw [hr] at hskip
  have hslice := hc.slice (hskip.trans (Cursor.takes_takeUntil? hd))
  rw [Node.Spans, String.toList_ofList]
  exact hslice

/-- An interpolation that is read stands in the source. -/
theorem interpolation_spans {r content : List Char} (hc : c.StandsIn source)
    (hr : c.rest = '{' :: '{' :: r)
    (hd : (c.skip 2).takeUntil? ['}', '}'] = some (content, d)) :
    Node.Spans source d.offset
      (.interpolation (String.ofList (Text.trim content)) c.offset) := by
  have hskip := Cursor.takes_skip c 2
  rw [hr] at hskip
  rw [Node.Spans]
  exact ⟨content, hc.slice (hskip.trans (Cursor.takes_takeUntil? hd)), rfl⟩

/-- A text that is read stands in the source. -/
theorem text_spans {content : List Char} (hc : c.StandsIn source) (hne : content ≠ [])
    (hw : Takes c content d) :
    Node.Spans source d.offset (.text (String.ofList content) c.offset) := by
  rw [Node.Spans, String.toList_ofList]
  refine ⟨?_, hc.slice hw⟩
  intro hempty
  have hnil := congrArg String.toList hempty
  rw [String.toList_ofList] at hnil
  exact hne hnil

/-- A declaration that is read stands in the source. -/
theorem declaration_spans {content : List Char} (hc : c.StandsIn source)
    (hstarts : startsDeclaration c.rest = true) (hn : startsComment c.rest = false)
    (hd : c.takeUntil? ['>'] = some (content, d)) :
    Declarations source c.offset d.offset := by
  obtain ⟨r, hr⟩ := startsDeclaration_eq hstarts
  have htakes := Cursor.takes_takeUntil? hd
  have hmark := Cursor.not_mem_of_takeUntil? hd
  have hrest := htakes.rest
  -- the two marks stand in front of what is taken
  obtain ⟨inner, rfl⟩ : ∃ inner, content = '<' :: '!' :: inner := by
    rw [hr] at hrest
    match content, hrest with
    | [], hrest => cases hrest
    | [x], hrest => cases hrest
    | x :: y :: inner, hrest =>
      obtain ⟨rfl, htail⟩ := List.cons.inj hrest
      obtain ⟨rfl, -⟩ := List.cons.inj htail
      exact ⟨inner, rfl⟩
  refine .cons (hc.slice htakes) ?_ ?_ (.nil (hc.of_takes htakes).isBoundary)
  · intro hmem
    exact hmark (List.mem_cons_of_mem _ (List.mem_cons_of_mem _ hmem))
  · rintro ⟨t, rfl⟩
    rw [hrest] at hn
    cases hn

/-- The children of an element with raw text tile it. -/
theorem rawChildren_tiles {content : List Char} {p : Nat} (hc : c.StandsIn source)
    (h : slice? source c.offset p = some content) :
    Tiles source c.offset p (rawChildren (String.ofList content) c.offset) := by
  have hbounds := Text.isBoundary_of_slice? h
  unfold rawChildren
  by_cases hnil : content = []
  · subst hnil
    have hp : p = c.offset := hbounds.2.2
    subst hp
    exact Declarations.nil hc.isBoundary
  · have hne : String.ofList content ≠ "" := by
      intro hempty
      have hlist := congrArg String.toList hempty
      rw [String.toList_ofList] at hlist
      exact hnil hlist
    rw [if_neg (by simpa using hne)]
    refine ⟨.nil hc.isBoundary, p, ?_, .nil hbounds.2.1⟩
    rw [Node.Spans, String.toList_ofList]
    exact ⟨hne, h⟩

/-! ## §5. Open elements -/

/-- The children of open elements tile the source: those of the innermost one up to `o`,
    those of any other up to the element inside it, and those of the block, which begins
    at `start`, up to the outermost one. -/
def framesTile (source : List Char) (start : Nat) (children : List Node) :
    List Frame → Nat → Prop
  | [], o => Tiles source start o children.reverse
  | frame :: outer, o =>
    frame.tag.isLeaf = false ∧
      (∃ m, frame.tag.Spans source m ∧ Tiles source m o frame.children.reverse) ∧
      framesTile source start children outer frame.tag.start

/-- What has been built tiles the source up to an offset. -/
def OpenElements.TilesTo (source : List Char) (start : Nat) (s : OpenElements) (o : Nat) : Prop :=
  framesTile source start s.children s.frames o

namespace OpenElements

variable {start o p : Nat} {s : OpenElements}

/-- A stretch that adds no node. -/
theorem TilesTo.skip (h : s.TilesTo source start o) (hdecl : Declarations source o p) :
    s.TilesTo source start p := by
  have hempty : Tiles source o p [] := hdecl
  unfold TilesTo at h ⊢
  cases hframes : s.frames with
  | nil =>
    rw [hframes] at h
    have htiles := Tiles.append h hempty
    rw [List.append_nil] at htiles
    exact htiles
  | cons frame outer =>
    rw [hframes] at h
    obtain ⟨hleaf, ⟨m, htag, hchildren⟩, houter⟩ := h
    have htiles := hchildren.append hempty
    rw [List.append_nil] at htiles
    exact ⟨hleaf, ⟨m, htag, htiles⟩, houter⟩

/-- A node that is added. -/
theorem TilesTo.add {node : Node} (h : s.TilesTo source start node.start)
    (hnode : Node.Spans source p node) : (s.add node).TilesTo source start p := by
  unfold TilesTo at h
  cases hframes : s.frames with
  | nil =>
    rw [hframes] at h
    have htiles := Tiles.add h hnode
    rw [← List.reverse_cons] at htiles
    simp only [TilesTo, OpenElements.add, hframes]
    exact htiles
  | cons frame outer =>
    rw [hframes] at h
    obtain ⟨hleaf, ⟨m, htag, hchildren⟩, houter⟩ := h
    have htiles := hchildren.add hnode
    rw [← List.reverse_cons] at htiles
    simp only [TilesTo, OpenElements.add, hframes]
    exact ⟨hleaf, ⟨m, htag, htiles⟩, houter⟩

/-- An element that is opened. -/
theorem TilesTo.push {tag : OpenTag} (h : s.TilesTo source start tag.start)
    (hleaf : tag.isLeaf = false) (htag : tag.Spans source p) :
    ({ s with frames := ⟨tag, []⟩ :: s.frames } : OpenElements).TilesTo source start p :=
  ⟨hleaf, ⟨p, htag, .nil htag.bounds.2.2.1⟩, h⟩

/-- The innermost element, closed. -/
theorem TilesTo.pop {frame : Frame} {outer : List Frame} (hframes : s.frames = frame :: outer)
    (h : s.TilesTo source start o) (hend : EndTag source frame.tag.name o p) :
    (({ s with frames := outer } : OpenElements).add
      (.element frame.tag frame.children.reverse p)).TilesTo source start p := by
  unfold TilesTo at h
  rw [hframes] at h
  obtain ⟨hleaf, ⟨m, htag, hchildren⟩, houter⟩ := h
  have hin : ({ s with frames := outer } : OpenElements).TilesTo source start
      (Node.element frame.tag frame.children.reverse p).start := houter
  refine hin.add ?_
  rw [Node.Spans, if_neg (by simp [hleaf])]
  exact ⟨rfl, m, o, htag, hchildren, hend⟩

end OpenElements

/-- Building the content of a block tiles the source up to the end tag that ends it. -/
theorem Scan.tiles {block : String} {failure : Option Error} {stop start : Nat}
    {ts : List Token} {s : OpenElements} {content : Content} (h : Scan c ts d)
    (hc : c.StandsIn source) (hs : s.TilesTo source start c.offset)
    (hcontent : contentOf block failure stop s ts = .ok content) :
    Tiles source start content.close.start content.children ∧
      EndTag source block content.close.start content.close.after.offset := by
  induction h generalizing s with
  | nil c =>
    rw [contentOf] at hcontent
    cases hcontent
  | @cons c m d t ts hne ht hscan ih =>
    obtain ⟨w, -, hw⟩ := ht.takes hne
    have hm := hc.of_takes hw
    cases ht with
    | comment hstarts hd =>
      rw [contentOf] at hcontent
      exact ih hm (OpenElements.TilesTo.add hs (comment_spans hc hstarts hd)) hcontent
    | declaration hstarts hn hd =>
      rw [contentOf] at hcontent
      exact ih hm (hs.skip (declaration_spans hc hstarts hn hd)) hcontent
    | interpolation hr hd =>
      rw [contentOf] at hcontent
      exact ih hm (OpenElements.TilesTo.add hs (interpolation_spans hc hr hd)) hcontent
    | text hends =>
      rw [contentOf] at hcontent
      have hnil : textRun c.rest ≠ [] := List.ne_nil_of_length_pos (textRun_length_pos hne)
      exact ih hm (OpenElements.TilesTo.add hs (text_spans hc hnil (takes_textRun c))) hcontent
    | @openTag _ tag text hstarts hd hraw =>
      have htag := hd.spans hc
      rw [← hd.start] at hs
      rw [contentOf] at hcontent
      split at hcontent
      · next hleaf =>
        refine ih hm (OpenElements.TilesTo.add hs ?_) hcontent
        rw [Node.Spans, if_pos hleaf]
        exact ⟨rfl, rfl, htag⟩
      · next hleaf => exact ih hm (hs.push (by simpa using hleaf) htag) hcontent
    | @rawElement e _ tag text raw hstarts hd hraw hread =>
      obtain ⟨v, -, hv⟩ := hd.takes
      have he := hc.of_takes hv
      obtain ⟨p, hslice, hend⟩ := readRawText_stands hd.name he hread
      have hleaf : ¬ tag.isLeaf = true := by
        intro hleaf
        rw [OpenTag.isRawText, hleaf] at hraw
        cases hraw
      rw [← hd.start] at hs
      rw [contentOf] at hcontent
      refine ih hm (OpenElements.TilesTo.add hs ?_) hcontent
      rw [Node.Spans, if_neg hleaf]
      exact ⟨rfl, e.offset, p, hd.spans hc, rawChildren_tiles he hslice, hend⟩
    | @closeTag _ tag mark hstarts hclose =>
      obtain rfl := hclose.mark_eq hstarts
      rw [contentOf] at hcontent
      split at hcontent
      · next hname =>
        cases hframes : s.frames with
        | nil =>
          -- no element is open, so the block ends here
          rw [hframes] at hcontent
          obtain rfl := Except.ok.inj hcontent
          rw [OpenElements.innermost, hframes] at hname
          unfold OpenElements.TilesTo at hs
          rw [hframes, ← hclose.start] at hs
          refine ⟨hs, ?_⟩
          have hend := hclose.endTag hc hname
          rw [← hclose.after, ← hclose.start] at hend
          exact hend
        | cons frame outer =>
          rw [hframes] at hcontent
          rw [OpenElements.innermost, hframes] at hname
          have hend := hclose.endTag hc hname
          have hpop := hs.pop hframes hend
          rw [hclose.after] at hcontent
          exact ih hm hpop hcontent
      · cases hcontent

/-! ## §6. Blocks -/

/-- The content of a block ends at a boundary inside its end tag. -/
theorem ReadsClose.contentEnd {tag : CloseTag} (h : ReadsClose c tag ['<', '/'] d)
    (hc : c.StandsIn source) :
    IsBoundary source tag.contentEnd ∧ c.offset ≤ tag.contentEnd ∧ tag.contentEnd < d.offset := by
  have htakes : Takes c (('<' :: '/' :: tag.inner) ++ ['>']) d := h.takes
  obtain ⟨front, back, hsplit, -, hend⟩ := tag.contentEnd_split
  have hoff := htakes.offset
  have hone : byteSize ['>'] = 1 := rfl
  rw [hsplit, byteSize_append, byteSize_append] at hoff
  have hfront : Takes c front _ := Cursor.takes_past (by rw [htakes.rest, hsplit, List.append_assoc,
    List.append_assoc])
  rw [hend, h.start]
  exact ⟨(hc.of_takes hfront).isBoundary, by omega, by omega⟩

/-- The tree of a template that is read is a picture of its source.  Its block lies between
    a start tag and an end tag named `template`, the children of the block tile what is
    between them, and the same holds inside every element.  All offsets are boundaries of
    characters and come in order.  The walk over the elements of the tree meets each of them
    once, and they start, and their names end, one behind the other. -/
theorem parse_tiles {source : List Char} {component : Component} {block : Block}
    (h : Component.parse source = .ok component) (hblock : component.template = some block) :
    ∃ (tag : OpenTag) (close stop : Nat),
      tag.name = "template" ∧ tag.Spans source block.contentStart ∧
      Tiles source block.contentStart close block.children ∧
      EndTag source "template" close stop ∧
      close ≤ block.contentEnd ∧ block.contentEnd < stop ∧
      (∀ x ∈ block.offsets, IsBoundary source x) ∧ block.offsets.Pairwise (· ≤ ·) ∧
      IsWalk (elementAt? block.children) (openTagsOf block.children) ∧
      (openTagsOf block.children).Pairwise fun a b =>
        a.start < b.start ∧ a.nameEnd < b.nameEnd := by
  have hpairs := pairwise_of_parse h
  have hnames := pairwise_nameEnd_of_parse h
  have hstands := fun {tag : OpenTag} (ht : tag ∈ component.openTags) => standsIn_of_parse h ht
  rw [Component.openTags, hblock] at hpairs hnames hstands
  obtain ⟨k, b, tag, m, tokens, content, e, d, hfront, htemplate, rfl, -, -⟩ :=
    parse_template h hblock
  -- the cursors at the block and behind its start tag
  have hzero : Cursor.StandsIn ⟨0, source⟩ source := ⟨[], rfl, rfl⟩
  obtain ⟨u, hu⟩ := hfront.takes
  have hb := hzero.of_takes hu
  obtain ⟨text, htag⟩ := htemplate.startTag
  obtain ⟨v, -, hv⟩ := htag.takes
  have hm := hb.of_takes hv
  have hname : tag.name = "template" :=
    of_decide_eq_true (Bool.and_eq_true_iff.1 htemplate.isTemplate).1
  have hempty : ({} : OpenElements).TilesTo source m.offset m.offset :=
    Declarations.nil hm.isBoundary
  obtain ⟨htiles, hend⟩ := htemplate.scan.tiles hm hempty (htemplate.builds none 0 [])
  rw [hname] at hend
  -- the end tag of the block, and where its content ends
  obtain ⟨n, hn, hstarts, hclose⟩ := htemplate.scan.split_closeTag
  obtain ⟨w, hw⟩ := hn.takes
  obtain ⟨hboundary, hle, hlt⟩ := hclose.contentEnd (hm.of_takes hw)
  rw [← hclose.start] at hle
  rw [← hclose.after] at hlt
  have hfirst : Ordered source m.offset m.offset [m.offset] :=
    .one hm.isBoundary (Nat.le_refl _) (Nat.le_refl _)
  have hlast : Ordered source content.close.start content.close.contentEnd
      [content.close.contentEnd] := .one hboundary hle (Nat.le_refl _)
  have hall := hfirst.append ((Tiles.offsets content.children htiles).append hlast)
  refine ⟨tag, content.close.start, content.close.after.offset, hname, htag.spans hb, htiles, hend,
    hle, hlt, hall.isBoundary, hall.order, openTagsOf_isWalk _, ?_⟩
  refine (hpairs.and hnames).imp_of_mem ?_
  intro x y hx hy hxy
  have hnameEnd := (hstands hx).nameEnd
  omega

/-- Every kind of node, with a declaration between two of them. -/
theorem parse_tiles_declaration :
    ∃ source component block close,
      source = ("<template><p :a='b'>x\x7b\x7b y \x7d\x7d<br><!--c--><!d></P >" ++
        "<title><q</title></template>").toList ∧
      Component.parse source = .ok component ∧ component.template = some block ∧
      block.offsets = [10, 10, 12, 13, 20, 21, 28, 31, 32, 32, 49, 49, 55, 56, 66, 66] ∧
      Tiles source 10 close block.children := by
  obtain ⟨source, hsource⟩ : ∃ source,
      source = ("<template><p :a='b'>x\x7b\x7b y \x7d\x7d<br><!--c--><!d></P >" ++
        "<title><q</title></template>").toList := ⟨_, rfl⟩
  have hoffsets : ((Component.parse source).toOption.bind (·.template)).map Block.offsets =
      some [10, 10, 12, 13, 20, 21, 28, 31, 32, 32, 49, 49, 55, 56, 66, 66] := by
    subst hsource
    decide +kernel
  obtain ⟨block, hfound, hlist⟩ := Option.map_eq_some_iff.1 hoffsets
  obtain ⟨component, hok, hblock⟩ := Option.bind_eq_some_iff.1 hfound
  cases h : Component.parse source with
  | error e => rw [h] at hok; cases hok
  | ok component' =>
    rw [h] at hok
    obtain rfl : component' = component := Option.some.inj hok
    obtain ⟨tag, close, stop, -, -, htiles, -⟩ := parse_tiles h hblock
    have hstart : block.contentStart = 10 := (List.cons.inj hlist).1
    rw [hstart] at htiles
    exact ⟨source, component', block, close, hsource, h, hblock, hlist, htiles⟩

end Template

end Provenance
