import Provenance.Template.Component
import Provenance.Proofs.Template.Token

/-! # Scans

  A scan is a run of the tokenizer from one cursor to another (`Scan`).

  - The tokens of a text are what a scan of it finds (`tokensFrom_of_scan`,
    `scan_of_tokensFrom`).
  - Each start tag of a scan stands in the text at its offset, and the tags do not
    overlap (`Scan.standsIn`, `Scan.pairwise_tags`).
  - The content of a block depends on its tokens up to the end tag of the block
    alone, and its elements are the start tags among them (`contentOf_eq_ok`).
-/

namespace Provenance.Template

open Text (Cursor byteSize byteSize_append byteSize_cons)
open Text.Cursor (Takes)

/-! ## §1. Runs of the tokenizer -/

/-- Reading finds some tokens between two cursors. -/
inductive Scan : Cursor → List Token → Cursor → Prop where
  | nil (c : Cursor) : Scan c [] c
  | cons {c m d : Cursor} {t : Token} {ts : List Token} (hc : c.rest ≠ [])
    (ht : ReadsToken c t m) (hs : Scan m ts d) : Scan c (t :: ts) d

theorem tokensFrom_step {c d : Cursor} {t : Token} (hc : c.rest ≠ []) (h : ReadsToken c t d) :
    tokensFrom c = { tokensFrom d with tokens := t :: (tokensFrom d).tokens } := by
  have hnext := h.next
  rw [tokensFrom, dif_neg hc]
  split
  · next e he =>
    rw [hnext] at he
    cases he
  · next t' d' ht =>
    rw [hnext] at ht
    cases ht
    rfl

theorem tokensFrom_of_scan {c d : Cursor} {ts : List Token} (h : Scan c ts d) :
    tokensFrom c = { tokensFrom d with tokens := ts ++ (tokensFrom d).tokens } := by
  induction h with
  | nil c => rfl
  | cons hc ht hs ih => rw [tokensFrom_step hc ht, ih]; rfl

theorem scan_of_tokensFrom {c : Cursor} {ts more : List Token}
    (h : (tokensFrom c).tokens = ts ++ more) : ∃ d, Scan c ts d := by
  induction ts generalizing c with
  | nil => exact ⟨c, .nil c⟩
  | cons t ts ih =>
    rw [tokensFrom] at h
    split at h
    · cases h
    · next hc =>
      split at h
      · cases h
      · next t' d hd =>
        -- reading goes on where the first token ended
        obtain ⟨rfl, hts⟩ := List.cons.inj h
        obtain ⟨e, he⟩ := ih hts
        exact ⟨e, .cons hc (readsToken_of_next hd) he⟩

theorem Scan.takes {c d : Cursor} {ts : List Token} (h : Scan c ts d) : ∃ w, Takes c w d := by
  induction h with
  | nil c => exact ⟨[], .refl c⟩
  | cons hc ht hs ih =>
    obtain ⟨v, -, hv⟩ := ht.takes hc
    obtain ⟨w, hw⟩ := ih
    exact ⟨v ++ w, hv.trans hw⟩

theorem Scan.append_iff {c d : Cursor} {ts us : List Token} :
    Scan c (ts ++ us) d ↔ ∃ m, Scan c ts m ∧ Scan m us d := by
  constructor
  · intro h
    induction ts generalizing c with
    | nil => exact ⟨c, .nil c, h⟩
    | cons t ts ih =>
      cases h with
      | cons hc ht hs =>
        obtain ⟨m, hm, hd⟩ := ih hs
        exact ⟨m, .cons hc ht hm, hd⟩
  · rintro ⟨m, hm, hd⟩
    induction hm with
    | nil c => exact hd
    | cons hc ht hs ih => exact .cons hc ht (ih hd)

/-- The last token of a scan, where it is an end tag. -/
theorem Scan.split_closeTag {c d : Cursor} {ts : List Token} {tag : CloseTag}
    (h : Scan c (ts ++ [.closeTag tag]) d) :
    ∃ m, Scan c ts m ∧ startsCloseTag m.rest = true ∧ ReadsClose m tag ['<', '/'] d := by
  obtain ⟨m, hm, hlast⟩ := Scan.append_iff.1 h
  cases hlast with
  | cons hc ht hs =>
    cases hs with
    | nil =>
      cases ht with
      | closeTag hstarts hclose =>
        have hmark := hclose.mark_eq hstarts
        exact ⟨m, hm, hstarts, hmark ▸ hclose⟩

/-- A scan that ends with an end tag ends behind it. -/
theorem Scan.after_eq {c d : Cursor} {ts : List Token} {tag : CloseTag}
    (h : Scan c (ts ++ [.closeTag tag]) d) : tag.after = d := by
  obtain ⟨m, -, -, hclose⟩ := h.split_closeTag
  exact hclose.after

/-! ## §2. Where start tags stand -/

/-- A start tag stands in the text of a cursor, where its offsets say. -/
structure OpenTag.StandsIn (tag : OpenTag) (c : Cursor) : Prop where
  text : ∃ before after, c.rest = before ++ '<' :: (tag.name.toList ++ after) ∧
    tag.start = c.offset + byteSize before
  nameEnd : tag.nameEnd = tag.start + 1 + byteSize tag.name.toList
  name : ∃ x r, tag.name.toList = x :: r ∧ x.isAlpha = true

theorem OpenTag.StandsIn.of_takes {tag : OpenTag} {c d : Cursor} {w : List Char}
    (hw : Takes c w d) (h : tag.StandsIn d) : tag.StandsIn c where
  text := by
    obtain ⟨a, b, hrest, hstart⟩ := h.text
    refine ⟨w ++ a, b, by rw [hw.rest, hrest, List.append_assoc], ?_⟩
    rw [hstart, hw.offset, byteSize_append]
    omega
  nameEnd := h.nameEnd
  name := h.name

theorem OpenTag.StandsIn.offset_le {tag : OpenTag} {c : Cursor} (h : tag.StandsIn c) :
    c.offset ≤ tag.start := by
  obtain ⟨a, b, -, hstart⟩ := h.text
  omega

theorem ReadsTag.standsIn {c d : Cursor} {tag : OpenTag} {text : List Char}
    (h : ReadsTag c tag text d) (hopen : startsOpenTag c.rest = true) : tag.StandsIn c where
  text := ⟨[], text, h.rest, h.start⟩
  nameEnd := by rw [h.nameEnd, h.start]
  name := by
    obtain ⟨x, r, hr, hx⟩ := startsOpenTag_eq hopen
    have hrest := h.rest
    rw [hr] at hrest
    have htail := (List.cons.inj hrest).2
    cases hname : tag.name.toList with
    | nil =>
      -- the character behind `<` would end the name
      obtain ⟨y, t, rfl, hy⟩ := h.stop
      rw [hname] at htail
      obtain ⟨rfl, -⟩ := List.cons.inj htail
      rw [isTagNamePart_of_isAlpha hx] at hy
      cases hy
    | cons y t =>
      rw [hname] at htail
      obtain ⟨rfl, -⟩ := List.cons.inj htail
      exact ⟨x, t, rfl, hx⟩

theorem Scan.standsIn {c d : Cursor} {ts : List Token} (h : Scan c ts d) {tag : OpenTag}
    (ht : tag ∈ tagsOf ts) : tag.StandsIn c ∧ tag.nameEnd < d.offset := by
  induction h with
  | nil c => cases ht
  | @cons c m d t ts hc htoken hs ih =>
    -- the tag belongs to the first token, or to the scan behind it
    obtain ⟨w, -, hw⟩ := htoken.takes hc
    obtain ⟨v, hv⟩ := hs.takes
    rcases mem_tagsOf_cons.1 ht with ht | ht
    · obtain ⟨hopen, text, e, htag, he⟩ := htoken.readsTag ht
      have hlt := htag.nameEnd_lt
      have hle := hv.offset_le
      exact ⟨htag.standsIn hopen, by omega⟩
    · obtain ⟨hin, hlt⟩ := ih ht
      exact ⟨hin.of_takes hw, hlt⟩

/-- A start tag ends before the next one begins. -/
theorem Scan.pairwise_tags {c d : Cursor} {ts : List Token} (h : Scan c ts d) :
    (tagsOf ts).Pairwise fun a b => a.nameEnd < b.start := by
  induction h with
  | nil c => exact .nil
  | @cons c m d t ts hc htoken hs ih =>
    cases ht : t.tag? with
    | none =>
      rw [tagsOf, List.filterMap_cons_none ht]
      exact ih
    | some tag =>
      rw [tagsOf, List.filterMap_cons_some ht]
      refine List.pairwise_cons.2 ⟨fun b hb => ?_, ih⟩
      -- `tag` ends inside its token, and `b` begins behind that token
      obtain ⟨-, text, e, htag, he⟩ := htoken.readsTag ht
      have hlt := htag.nameEnd_lt
      have hle := (hs.standsIn hb).1.offset_le
      omega

/-! ## §3. The content of a block -/

theorem openTagsOf_append (a b : List Node) : openTagsOf (a ++ b) = openTagsOf a ++ openTagsOf b := by
  induction a with
  | nil => rfl
  | cons node a ih => rw [List.cons_append, openTagsOf, openTagsOf, ih, List.append_assoc]

/-- The start tags that open elements have seen so far. -/
def OpenElements.openTags (s : OpenElements) : List OpenTag :=
  openTagsOf s.children.reverse ++
    s.frames.reverse.flatMap fun frame => frame.tag :: openTagsOf frame.children.reverse

theorem OpenElements.openTags_add (s : OpenElements) (node : Node) :
    (s.add node).openTags = s.openTags ++ node.openTags := by
  have hone : openTagsOf [node] = node.openTags := by
    rw [openTagsOf, openTagsOf, List.append_nil]
  unfold OpenElements.add OpenElements.openTags
  split
  · next hframes => simp [hframes, openTagsOf_append, hone]
  · next hframes => simp [hframes, openTagsOf_append, hone]

theorem OpenElements.openTags_push (s : OpenElements) (tag : OpenTag) :
    ({ s with frames := ⟨tag, []⟩ :: s.frames } : OpenElements).openTags = s.openTags ++ [tag] := by
  simp [OpenElements.openTags, openTagsOf]

/-- Closing an element loses none of its start tags. -/
theorem OpenElements.openTags_pop {s : OpenElements} {frame : Frame} {outer : List Frame}
    (h : s.frames = frame :: outer) (stop : Nat) :
    (({ s with frames := outer } : OpenElements).add
      (.element frame.tag frame.children.reverse stop)).openTags = s.openTags := by
  rw [OpenElements.openTags_add]
  simp [OpenElements.openTags, h, Node.openTags]

theorem openTagsOf_rawChildren (content : String) (start : Nat) :
    openTagsOf (rawChildren content start) = [] := by
  unfold rawChildren
  split <;> rfl

/-- A token leads to other open elements, ends the block, or is an error. -/
theorem contentOf_cons (block : String) (s : OpenElements) (t : Token) :
    (∃ s' : OpenElements, s'.openTags = s.openTags ++ t.tag?.toList ∧
      ∀ failure stop rest, contentOf block failure stop s (t :: rest) =
        contentOf block failure stop s' rest) ∨
    (∃ tag, t = .closeTag tag ∧ s.frames = [] ∧ sameName tag.name.toList block.toList = true ∧
      ∀ failure stop rest, contentOf block failure stop s (t :: rest) =
        .ok ⟨s.children.reverse, tag⟩) ∨
    (∃ e, ∀ failure stop rest, contentOf block failure stop s (t :: rest) = .error e) := by
  -- a finished node is added, and its start tags are those of the token
  have added : ∀ node : Node, node.openTags = t.tag?.toList →
      (s.add node).openTags = s.openTags ++ t.tag?.toList := by
    intro node hnode
    rw [OpenElements.openTags_add, hnode]
  cases t with
  | comment content start => exact .inl ⟨_, added (.comment content start) rfl, fun _ _ _ => rfl⟩
  | declaration => exact .inl ⟨s, (List.append_nil _).symm, fun _ _ _ => rfl⟩
  | text content start => exact .inl ⟨_, added (.text content start) rfl, fun _ _ _ => rfl⟩
  | interpolation content start =>
    exact .inl ⟨_, added (.interpolation content start) rfl, fun _ _ _ => rfl⟩
  | openTag tag tagStop =>
    left
    cases hleaf : tag.isLeaf with
    | true =>
      refine ⟨s.add (.element tag [] tagStop), added _ ?_, fun _ _ _ => ?_⟩
      · simp [Node.openTags, openTagsOf, Token.tag?]
      · simp [contentOf, hleaf]
    | false =>
      refine ⟨{ s with frames := ⟨tag, []⟩ :: s.frames }, s.openTags_push tag, fun _ _ _ => ?_⟩
      simp [contentOf, hleaf]
  | rawElement tag content start elementStop =>
    refine .inl ⟨_, added (.element tag (rawChildren content start) elementStop) ?_,
      fun _ _ _ => rfl⟩
    simp [Node.openTags, openTagsOf_rawChildren, Token.tag?]
  | closeTag tag =>
    cases hname : sameName tag.name.toList (s.innermost block).toList with
    | false => exact .inr (.inr ⟨_, fun _ _ _ => by simp only [contentOf, hname]; rfl⟩)
    | true =>
      cases hframes : s.frames with
      | nil =>
        right; left
        have hblock : s.innermost block = block := by rw [OpenElements.innermost, hframes]
        rw [hblock] at hname
        exact ⟨tag, rfl, rfl, hname, fun _ _ _ => by simp [contentOf, hblock, hname, hframes]⟩
      | cons frame outer =>
        left
        refine ⟨_, ?_, fun _ _ _ => by simp only [contentOf, hname, hframes, if_true]; rfl⟩
        rw [OpenElements.openTags_pop hframes]
        exact (List.append_nil _).symm

/-- The content of a block ends at an end tag with the name of the block, and not in
    front of it.  Its elements are the start tags in front of that end tag, and what
    follows the end tag does not matter. -/
theorem contentOf_eq_ok {block : String} {failure : Option Error} {stop : Nat}
    {s : OpenElements} {tokens : List Token} {content : Content}
    (h : contentOf block failure stop s tokens = .ok content) :
    ∃ ts more, tokens = ts ++ .closeTag content.close :: more ∧
      openTagsOf content.children = s.openTags ++ tagsOf ts ∧
      sameName content.close.name.toList block.toList = true ∧
      (∀ failure' stop' more',
        contentOf block failure' stop' s (ts ++ .closeTag content.close :: more') = .ok content) ∧
      ∀ failure' stop', (contentOf block failure' stop' s ts).toOption = none := by
  induction tokens generalizing s with
  | nil => simp [contentOf] at h
  | cons t rest ih =>
    rcases contentOf_cons block s t with ⟨s', htags, hstep⟩ | ⟨tag, rfl, hframes, hname, hend⟩ |
      ⟨e, herror⟩
    · -- the token leads on to `s'`, from where the content is built
      rw [hstep] at h
      obtain ⟨ts, more, hrest, hopen, hclose, hall, hnone⟩ := ih h
      refine ⟨t :: ts, more, by rw [hrest]; rfl, ?_, hclose, fun f p m => ?_, fun f p => ?_⟩
      · rw [hopen, htags, List.append_assoc]
        cases ht : t.tag? <;> simp [tagsOf, ht]
      · rw [List.cons_append, hstep]
        exact hall f p m
      · rw [hstep]
        exact hnone f p
    · -- the token ends the block
      have heq := Except.ok.inj ((hend failure stop rest).symm.trans h)
      subst heq
      refine ⟨[], rest, rfl, ?_, hname, fun f p m => hend f p m, fun _ _ => rfl⟩
      simp [OpenElements.openTags, hframes, tagsOf]
    · rw [herror] at h
      cases h

end Provenance.Template
