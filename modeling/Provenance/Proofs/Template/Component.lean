import Provenance.Proofs.Template.Scan

/-! # Reading components

  One rule for each kind of part says when reading moves over a part of a
  component (`ReadsPart`), and a component that parses is a chain of parts up to
  the end of the text (`Parts`).

  Main statement: where a component has a template, exactly one part is that
  template, and its elements are the start tags of one scan (`parse_template`).
  The content of its block ends in front of the last `</` of the end tag
  (`CloseTag.contentEnd_split`).
-/

namespace Provenance.Template

open Text (Cursor byteSize byteSize_append byteSize_cons)
open Text.Cursor (Takes)

/-! ## §1. Parts -/

/-- A component with one more block. -/
def Component.withBlock (component : Component) (name : String) : Component :=
  { component with blocks := component.blocks ++ [name] }

/-- The block of a start tag, the cursor behind it and its content. -/
def Block.of (tag : OpenTag) (m : Cursor) (content : Content) : Block where
  lang := (tag.attribute? "lang").bind (·.value)
  children := content.children
  contentStart := m.offset
  contentEnd := content.close.contentEnd

/-- Reading moves from `c` over the template of a component to `d`: its start tag
    up to `m`, the tokens inside it, and its end tag. -/
structure ReadsTemplate (component : Component) (c : Cursor) (tag : OpenTag) (m : Cursor)
    (tokens : List Token) (content : Content) (d : Cursor) : Prop where
  opens : startsOpenTag c.rest = true
  startTag : ∃ text, ReadsTag c tag text m
  selfClosing : tag.selfClosing = false
  first : component.template = none
  isTemplate : tag.isTemplate = true
  scan : Scan m (tokens ++ [.closeTag content.close]) d
  builds : ∀ failure stop more, contentOf tag.name failure stop {}
    (tokens ++ .closeTag content.close :: more) = .ok content
  openTags : openTagsOf content.children = tagsOf tokens
  closeName : sameName content.close.name.toList tag.name.toList = true

/-- Reading moves over a part of a component. -/
inductive ReadsPart : Component → Cursor → Component → Cursor → Prop where
  | comment {k : Component} {c d : Cursor} {content : List Char}
    (h : startsComment c.rest = true)
    (hd : (c.skip 4).takeUntil? ['-', '-', '>'] = some (content, d)) : ReadsPart k c k d
  | declaration {k : Component} {c d : Cursor} {content : List Char}
    (h : startsDeclaration c.rest = true) (hn : startsComment c.rest = false)
    (hd : c.takeUntil? ['>'] = some (content, d)) : ReadsPart k c k d
  | empty {k : Component} {c d : Cursor} {tag : OpenTag} {text : List Char}
    (h : startsOpenTag c.rest = true) (hd : ReadsTag c tag text d)
    (hself : tag.selfClosing = true) : ReadsPart k c (k.withBlock tag.name) d
  | template {k : Component} {c m d : Cursor} {tag : OpenTag} {tokens : List Token}
    {content : Content} (h : ReadsTemplate k c tag m tokens content d) :
    ReadsPart k c { k.withBlock tag.name with template := some (.of tag m content) } d
  | raw {k : Component} {c m d : Cursor} {tag : OpenTag} {text content : List Char}
    (h : startsOpenTag c.rest = true) (hm : ReadsTag c tag text m)
    (hself : tag.selfClosing = false) (hraw : k.template = none → tag.isTemplate = false)
    (hd : readRawText tag m = .ok (content, d)) : ReadsPart k c (k.withBlock tag.name) d
  | other {k : Component} {c : Cursor} (hopen : startsOpenTag c.rest = false)
    (hclose : startsCloseTag c.rest = false) (hdecl : startsDeclaration c.rest = false) :
    ReadsPart k c k (c.skip 1)

theorem readsPart_of_readBlockBody {k k' : Component} {c m d : Cursor} {tag : OpenTag}
    {text : List Char} (hopen : startsOpenTag c.rest = true) (hm : ReadsTag c tag text m)
    (h : readBlockBody k tag m = .ok (k', d)) : ReadsPart k c k' d := by
  unfold readBlockBody at h
  simp only at h
  split at h
  · next hself =>
    obtain ⟨rfl, rfl⟩ := Prod.mk.inj (Except.ok.inj h)
    exact .empty hopen hm hself
  · next hself =>
    have hself : tag.selfClosing = false := by simpa using hself
    split at h
    · next htemplate =>
      obtain ⟨hnone, htemplate⟩ := Bool.and_eq_true_iff.1 htemplate
      split at h
      · cases h
      · next content hcontent =>
        obtain ⟨rfl, rfl⟩ := Prod.mk.inj (Except.ok.inj h)
        obtain ⟨ts, more, htokens, htags, hname, hall, -⟩ := contentOf_eq_ok hcontent
        -- the tokens up to the end tag of the block are a scan of their own
        rw [show ts ++ .closeTag content.close :: more =
          ts ++ [.closeTag content.close] ++ more by simp] at htokens
        obtain ⟨d, hscan⟩ := scan_of_tokensFrom htokens
        rw [hscan.after_eq]
        exact .template ⟨hopen, ⟨text, hm⟩, hself, by simpa using hnone, htemplate, hscan, hall, htags,
          hname⟩
    · next htemplate =>
      split at h
      · cases h
      · next content stop hraw =>
        obtain ⟨rfl, rfl⟩ := Prod.mk.inj (Except.ok.inj h)
        refine .raw hopen hm hself (fun hnone => ?_) hraw
        simpa [hnone] using htemplate

theorem readsPart_of_readPart {k k' : Component} {c d : Cursor}
    (h : readPart k c = .ok (k', d)) : ReadsPart k c k' d := by
  unfold readPart at h
  split at h
  · next hcomment =>
    unfold readComment at h
    split at h
    · next content stop hstop =>
      obtain ⟨rfl, rfl⟩ := Prod.mk.inj (Except.ok.inj h)
      exact .comment hcomment hstop
    · cases h
  · next hcomment =>
    split at h
    · split at h <;> cases h
    · next hclose =>
      split at h
      · next hdecl =>
        unfold readDeclaration at h
        split at h
        · next content stop hstop =>
          obtain ⟨rfl, rfl⟩ := Prod.mk.inj (Except.ok.inj h)
          exact .declaration hdecl (by simpa using hcomment) hstop
        · cases h
      · next hdecl =>
        split at h
        · next hopen =>
          split at h
          · cases h
          · next tag m hread =>
            obtain ⟨x, r, hr, -⟩ := startsOpenTag_eq hopen
            obtain ⟨text, htag⟩ := readsTag_of_readOpenTag hr hread
            exact readsPart_of_readBlockBody hopen htag h
        · next hopen =>
          obtain ⟨rfl, rfl⟩ := Prod.mk.inj (Except.ok.inj h)
          exact .other (by simpa using hopen) (by simpa using hclose) (by simpa using hdecl)

/-- The tokens behind the start tag of a template build its content. -/
theorem ReadsTemplate.contentOf_tokensFrom {k : Component} {c m d : Cursor} {tag : OpenTag}
    {tokens : List Token} {content : Content} (h : ReadsTemplate k c tag m tokens content d) :
    contentOf tag.name (tokensFrom m).error (tokensFrom m).stop {} (tokensFrom m).tokens =
      .ok content := by
  have htokens : (tokensFrom m).tokens =
      tokens ++ .closeTag content.close :: (tokensFrom d).tokens := by
    rw [tokensFrom_of_scan h.scan, List.append_assoc]
    rfl
  rw [htokens]
  exact h.builds _ _ _

theorem ReadsTemplate.readBlockBody {k : Component} {c m d : Cursor} {tag : OpenTag}
    {tokens : List Token} {content : Content} (h : ReadsTemplate k c tag m tokens content d) :
    readBlockBody k tag m =
      .ok ({ k.withBlock tag.name with template := some (.of tag m content) }, d) := by
  unfold Template.readBlockBody
  simp only [h.selfClosing, h.first, h.isTemplate, h.contentOf_tokensFrom, h.scan.after_eq]
  rfl

theorem not_template {k : Component} {tag : OpenTag}
    (h : k.template = none → tag.isTemplate = false) :
    (k.template.isNone && tag.isTemplate) = false := by
  cases hk : k.template with
  | none => rw [h hk]; rfl
  | some block => rfl

/-- A block is read where a start tag begins. -/
theorem ReadsTag.readPart {k : Component} {c m : Cursor} {tag : OpenTag} {text : List Char}
    (hm : ReadsTag c tag text m) (hopen : startsOpenTag c.rest = true) :
    readPart k c = Template.readBlockBody k tag m := by
  obtain ⟨hcomment, hclose, hdecl⟩ := startsOpenTag_only hopen
  simp only [Template.readPart, hcomment, hclose, hdecl, hopen, if_true, hm.readOpenTag]
  rfl

theorem ReadsPart.readPart {k k' : Component} {c d : Cursor} (h : ReadsPart k c k' d) :
    readPart k c = .ok (k', d) := by
  cases h with
  | comment h hd =>
    simp only [Template.readPart, h, if_true, readComment, hd]
    rfl
  | declaration h hn hd =>
    simp only [Template.readPart, hn, startsDeclaration_only h, h, if_true, readDeclaration, hd]
    rfl
  | empty h hd hself =>
    rw [hd.readPart h]
    simp only [readBlockBody, hself, if_true]
    rfl
  | template h =>
    obtain ⟨text, hm⟩ := h.startTag
    rw [hm.readPart h.opens, h.readBlockBody]
  | raw h hm hself hraw hd =>
    rw [hm.readPart h]
    simp only [readBlockBody, hself, not_template hraw, hd]
    rfl
  | other hopen hclose hdecl =>
    have hcomment : startsComment c.rest = false := by
      rw [← Bool.not_eq_true]
      exact fun hc => by rw [startsDeclaration_of_comment hc] at hdecl; cases hdecl
    simp only [Template.readPart, hcomment, hclose, hdecl, hopen]
    rfl

theorem readPart_eq_ok_iff {k k' : Component} {c d : Cursor} :
    readPart k c = .ok (k', d) ↔ ReadsPart k c k' d :=
  ⟨readsPart_of_readPart, ReadsPart.readPart⟩

/-! ## §2. Chains of parts -/

/-- Reading moves over some parts of a component. -/
inductive Parts : Component → Cursor → Component → Cursor → Prop where
  | nil (k : Component) (c : Cursor) : Parts k c k c
  | cons {k k' final : Component} {c m d : Cursor} (hc : c.rest ≠ []) (hp : ReadsPart k c k' m)
    (tail : Parts k' m final d) : Parts k c final d

theorem readParts_of_parts {k k' : Component} {c d : Cursor} (h : Parts k c k' d) :
    readParts k c = readParts k' d := by
  induction h with
  | nil k c => rfl
  | @cons k k' final c m d hc hp tail ih =>
    have hpart := hp.readPart
    rw [readParts, dif_neg hc]
    split
    · next e he =>
      rw [hpart] at he
      cases he
    · next k'' m' hp' =>
      rw [hpart] at hp'
      cases hp'
      exact ih

theorem parts_of_readParts {k final : Component} {c : Cursor} (h : readParts k c = .ok final) :
    ∃ d, Parts k c final d ∧ d.rest = [] := by
  induction hn : c.rest.length using Nat.strongRecOn generalizing k c with
  | ind n ih =>
    subst hn
    rw [readParts] at h
    split at h
    · next hc =>
      cases h
      exact ⟨c, .nil _ c, hc⟩
    · next hc =>
      split at h
      · cases h
      · next k' m hp =>
        -- the part leaves less to read
        obtain ⟨d, hd, hend⟩ := ih _ (readPart_shorter hc hp) h rfl
        exact ⟨d, .cons hc (readsPart_of_readPart hp) hd, hend⟩

/-- A component parses exactly if its parts reach the end of the text. -/
theorem parse_eq_ok_iff {code : List Char} {component : Component} :
    Component.parse code = .ok component ↔
      ∃ d, Parts {} ⟨0, code⟩ component d ∧ d.rest = [] := by
  constructor
  · exact parts_of_readParts
  · rintro ⟨d, hd, hend⟩
    show readParts {} ⟨0, code⟩ = .ok component
    rw [readParts_of_parts hd, readParts, dif_pos hend]

theorem ReadsPart.takes {k k' : Component} {c d : Cursor} (hc : c.rest ≠ [])
    (h : ReadsPart k c k' d) : ∃ w, w ≠ [] ∧ Takes c w d := by
  cases h with
  | comment h hd => exact ⟨_, by simp, (Cursor.takes_skip c 4).trans (Cursor.takes_takeUntil? hd)⟩
  | declaration h hn hd => exact ⟨_, by simp, Cursor.takes_takeUntil? hd⟩
  | empty h hd hself => exact hd.takes
  | template h =>
    obtain ⟨text, hm⟩ := h.startTag
    obtain ⟨w, hne, hw⟩ := hm.takes
    obtain ⟨v, hv⟩ := h.scan.takes
    exact ⟨_, by simp [hne], hw.trans hv⟩
  | raw h hm hself hraw hd =>
    obtain ⟨w, hne, hw⟩ := hm.takes
    obtain ⟨v, hv, -⟩ := readRawText_replace hm.mark_not_mem hd
    exact ⟨_, by simp, hw.trans hv⟩
  | other hopen hclose hdecl =>
    cases hr : c.rest with
    | nil => exact absurd hr hc
    | cons x r => exact ⟨[x], by simp, Cursor.takes_skip_one hr⟩

theorem Parts.takes {k k' : Component} {c d : Cursor} (h : Parts k c k' d) : ∃ w, Takes c w d := by
  induction h with
  | nil k c => exact ⟨[], .refl c⟩
  | cons hc hp tail ih =>
    obtain ⟨v, -, hv⟩ := hp.takes hc
    obtain ⟨w, hw⟩ := ih
    exact ⟨v ++ w, hv.trans hw⟩

/-! ## §3. The template -/

/-- Only the template part changes what the template is. -/
theorem ReadsPart.template_cases {k k' : Component} {c d : Cursor} (h : ReadsPart k c k' d) :
    k'.template = k.template ∨ ∃ tag m tokens content,
      ReadsTemplate k c tag m tokens content d ∧
      k' = { k.withBlock tag.name with template := some (.of tag m content) } := by
  cases h with
  | comment h hd => exact .inl rfl
  | declaration h hn hd => exact .inl rfl
  | empty h hd hself => exact .inl rfl
  | template h => exact .inr ⟨_, _, _, _, h, rfl⟩
  | raw h hm hself hraw hd => exact .inl rfl
  | other hopen hclose hdecl => exact .inl rfl

/-- A template that was read stays the template. -/
theorem Parts.template_eq {k k' : Component} {c d : Cursor} (h : Parts k c k' d)
    (hk : k.template.isSome = true) : k'.template = k.template := by
  induction h with
  | nil k c => rfl
  | cons hc hp tail ih =>
    rcases hp.template_cases with heq | ⟨tag, m, tokens, content, htemplate, -⟩
    · rw [ih (by rw [heq]; exact hk), heq]
    · rw [htemplate.first] at hk
      cases hk

/-- Where a chain of parts finds a template, one of the parts is that template. -/
theorem Parts.split_template {k final : Component} {c d : Cursor} {block : Block}
    (h : Parts k c final d) (hk : k.template = none) (hfinal : final.template = some block) :
    ∃ k' b tag m tokens content e, Parts k c k' b ∧
      ReadsTemplate k' b tag m tokens content e ∧ block = .of tag m content ∧
      Parts { k'.withBlock tag.name with template := some block } e final d := by
  induction h with
  | nil k c =>
    rw [hk] at hfinal
    cases hfinal
  | @cons k k' final c e d hc hp tail ih =>
    rcases hp.template_cases with heq | ⟨tag, m, tokens, content, htemplate, rfl⟩
    · -- the template comes later
      obtain ⟨k'', b, tag, m, tokens, content, e', hparts, hrest⟩ := ih (by rw [heq, hk]) hfinal
      exact ⟨k'', b, tag, m, tokens, content, e', .cons hc hp hparts, hrest⟩
    · -- this part is the template, and no later part changes it
      have hblock := tail.template_eq rfl
      rw [hfinal] at hblock
      obtain rfl := Option.some.inj hblock
      exact ⟨k, c, tag, m, tokens, content, e, .nil k c, htemplate, rfl, tail⟩

/-- A component with a template is a chain of parts around that template. -/
theorem parse_template {code : List Char} {component : Component} {block : Block}
    (h : Component.parse code = .ok component) (hb : component.template = some block) :
    ∃ k b tag m tokens content e d, Parts {} ⟨0, code⟩ k b ∧
      ReadsTemplate k b tag m tokens content e ∧ block = .of tag m content ∧
      Parts { k.withBlock tag.name with template := some block } e component d ∧ d.rest = [] := by
  obtain ⟨d, hparts, hend⟩ := parse_eq_ok_iff.1 h
  obtain ⟨k, b, tag, m, tokens, content, e, hfront, htemplate, hblock, htail⟩ :=
    hparts.split_template rfl hb
  exact ⟨k, b, tag, m, tokens, content, e, d, hfront, htemplate, hblock, htail, hend⟩

/-! ## §4. Where the content of a block ends -/

theorem lastCloseMark?_eq_none_iff {o : Nat} {s : List Char} :
    lastCloseMark? o s = none ↔ ¬ ['<', '/'] <:+: s := by
  induction s generalizing o with
  | nil => simp [lastCloseMark?]
  | cons x s ih =>
    rw [lastCloseMark?, Option.or_eq_none_iff, ih, List.infix_cons_iff, not_or, and_comm]
    refine and_congr_left fun _ => ?_
    cases s with
    | nil => simp
    | cons y s => simp [List.cons_prefix_cons, eq_comm]

/-- The last `</` of a text stands in it, and none behind it. -/
theorem lastCloseMark?_split {o p : Nat} {s : List Char} (h : lastCloseMark? o s = some p) :
    ∃ a b, s = a ++ '<' :: '/' :: b ∧ ¬ ['<', '/'] <:+: b ∧ p = o + byteSize a := by
  induction s generalizing o with
  | nil => cases h
  | cons x s ih =>
    rw [lastCloseMark?] at h
    cases hs : lastCloseMark? (o + x.utf8Size) s with
    | some q =>
      rw [hs] at h
      obtain rfl : q = p := Option.some.inj h
      obtain ⟨a, b, rfl, hlast, rfl⟩ := ih hs
      exact ⟨x :: a, b, rfl, hlast, by rw [byteSize_cons]; omega⟩
    | none =>
      have hnone := lastCloseMark?_eq_none_iff.1 hs
      rw [hs, Option.none_or] at h
      split at h
      · next hmark =>
        obtain rfl := Option.some.inj h
        obtain ⟨rfl, hslash⟩ := hmark
        cases s with
        | nil => cases hslash
        | cons y b =>
          obtain rfl : y = '/' := Option.some.inj hslash
          rw [List.infix_cons_iff, not_or] at hnone
          exact ⟨[], b, rfl, hnone.2, rfl⟩
      · cases h

/-- The content of a block ends in front of the last `</` of its end tag. -/
theorem CloseTag.contentEnd_split (tag : CloseTag) :
    ∃ front back, '<' :: '/' :: tag.inner = front ++ '<' :: '/' :: back ∧
      ¬ ['<', '/'] <:+: back ∧ tag.contentEnd = tag.start + byteSize front := by
  rw [CloseTag.contentEnd]
  cases hlast : lastCloseMark? tag.start ('<' :: '/' :: tag.inner) with
  | none => exact absurd ⟨[], tag.inner, rfl⟩ (lastCloseMark?_eq_none_iff.1 hlast)
  | some p => exact lastCloseMark?_split hlast

/-- That is in front of the whole tag exactly if no second mark stands in it. -/
theorem CloseTag.contentEnd_eq_start_iff (tag : CloseTag) :
    tag.contentEnd = tag.start ↔ ¬ ['<', '/'] <:+: tag.inner := by
  obtain ⟨front, back, hsplit, hlast, hend⟩ := tag.contentEnd_split
  rw [hend, Nat.add_eq_left]
  constructor
  · intro hsize
    obtain rfl : front = [] := by
      cases front with
      | nil => rfl
      | cons x front =>
        have hpos := Text.byteSize_pos (List.cons_ne_nil x front)
        omega
    obtain rfl : tag.inner = back := (List.cons.inj (List.cons.inj hsplit).2).2
    exact hlast
  · intro hinner
    -- a front that is not empty takes at least the two characters of the first mark
    match front with
    | [] => rfl
    | [x] => exact absurd (List.cons.inj (List.cons.inj hsplit).2).1 (by decide)
    | x :: y :: front =>
      have hmark : tag.inner = front ++ '<' :: '/' :: back :=
        (List.cons.inj (List.cons.inj hsplit).2).2
      exact absurd ⟨front, back, by rw [hmark]; simp⟩ hinner

end Provenance.Template
