import Provenance.Proofs.Template.Extended
import Provenance.Proofs.Template.Printed
import Provenance.Proofs.Template.Tiled

/-! # Blocks behind a template

  A block that follows a component is raw text, and its body should not change how the
  template in front of it is read.

  All but one of the searches made while reading a template end inside it, however much of
  the file they may scan.  The exception is the `}}` of an interpolation: where the template
  has a `{{` that nothing closes, which is then text, the first `}}` of a later block
  closes it.

  Main statement: a component to which a script block is appended parses with the same
  template and one more block if and only if its body has no `}}` or no text of the
  template has a `{{` (`parse_append_script_iff`).
-/

namespace Provenance.Template

open Text (Cursor byteSize)
open Text.Cursor (Takes)

/-! ## §1. Texts of a tree -/

mutual

/-- The texts of a node that are not raw text, each with its offset. -/
def Node.texts : Node → List (String × Nat)
  | .element tag children _ => if tag.isRawText then [] else textsOf children
  | .text content start => [(content, start)]
  | .interpolation _ _ | .comment _ _ => []

/-- The texts of some nodes that are not raw text. -/
def textsOf : List Node → List (String × Nat)
  | [] => []
  | node :: rest => node.texts ++ textsOf rest

end

theorem textsOf_append (a b : List Node) : textsOf (a ++ b) = textsOf a ++ textsOf b := by
  induction a with
  | nil => rfl
  | cons node a ih => rw [List.cons_append, textsOf, textsOf, ih, List.append_assoc]

/-- The text of a token. -/
def Token.text? : Token → Option (String × Nat)
  | .text content start => some (content, start)
  | _ => none

/-- The texts of a list of tokens. -/
def textTokens (tokens : List Token) : List (String × Nat) := tokens.filterMap Token.text?

theorem mem_textTokens {tokens : List Token} {content : String} {start : Nat} :
    (content, start) ∈ textTokens tokens ↔ .text content start ∈ tokens := by
  rw [textTokens, List.mem_filterMap]
  constructor
  · rintro ⟨t, ht, htext⟩
    cases t with
    | text content' start' =>
      obtain ⟨rfl, rfl⟩ := Prod.mk.inj (Option.some.inj htext)
      exact ht
    | comment | declaration | interpolation | openTag | rawElement | closeTag => cases htext
  · intro ht
    exact ⟨_, ht, rfl⟩

namespace OpenElements

/-- The texts that open elements have seen so far. -/
def texts (s : OpenElements) : List (String × Nat) :=
  textsOf s.children.reverse ++ s.frames.reverse.flatMap fun frame => textsOf frame.children.reverse

theorem texts_add (s : OpenElements) (node : Node) : (s.add node).texts = s.texts ++ node.texts := by
  have hone : textsOf [node] = node.texts := by rw [textsOf, textsOf, List.append_nil]
  unfold add texts
  split
  · next hframes => simp [hframes, textsOf_append, hone]
  · next hframes => simp [hframes, textsOf_append, hone]

theorem texts_push (s : OpenElements) (tag : OpenTag) :
    ({ s with frames := ⟨tag, []⟩ :: s.frames } : OpenElements).texts = s.texts := by
  simp [texts, textsOf]

/-- Closing an element loses none of its texts, unless they are raw text. -/
theorem texts_pop {s : OpenElements} {frame : Frame} {outer : List Frame}
    (h : s.frames = frame :: outer) (hraw : frame.tag.isRawText = false) (stop : Nat) :
    (({ s with frames := outer } : OpenElements).add
      (.element frame.tag frame.children.reverse stop)).texts = s.texts := by
  rw [texts_add]
  simp [texts, h, Node.texts, hraw]

/-- No open element has raw text as its content. -/
def NoRawText (s : OpenElements) : Prop := ∀ frame ∈ s.frames, frame.tag.isRawText = false

theorem NoRawText.add {s : OpenElements} (h : s.NoRawText) (node : Node) :
    (s.add node).NoRawText := by
  unfold OpenElements.add
  split
  · next hframes => exact h
  · next frame outer hframes =>
    intro frame' hframe
    rcases List.mem_cons.1 hframe with rfl | hframe
    · exact h frame (by rw [hframes]; exact List.mem_cons_self)
    · exact h frame' (by rw [hframes]; exact List.mem_cons_of_mem _ hframe)

end OpenElements

/-- Building the content of a block takes the texts of its tokens, in their order. -/
theorem Scan.texts {block : String} {failure : Option Error} {stop : Nat} {c d : Cursor}
    {ts : List Token} {s : OpenElements} {content : Content} (h : Scan c ts d)
    (hs : s.NoRawText) (hcontent : contentOf block failure stop s ts = .ok content) :
    ∃ front more, ts = front ++ .closeTag content.close :: more ∧
      textsOf content.children = s.texts ++ textTokens front := by
  induction h generalizing s with
  | nil c =>
    rw [contentOf] at hcontent
    cases hcontent
  | @cons c m d t ts hne ht hscan ih =>
    -- the token leads to open elements that have seen its text too
    have step : ∀ {s' : OpenElements}, s'.NoRawText → s'.texts = s.texts ++ t.text?.toList →
        contentOf block failure stop s' ts = .ok content →
        ∃ front more, t :: ts = front ++ .closeTag content.close :: more ∧
          textsOf content.children = s.texts ++ textTokens front := by
      intro s' hs' htexts hcontent'
      obtain ⟨front, more, hts, hchildren⟩ := ih hs' hcontent'
      refine ⟨t :: front, more, by rw [hts]; rfl, ?_⟩
      rw [hchildren, htexts, List.append_assoc]
      cases htext : t.text? with
      | none => rw [textTokens, textTokens, List.filterMap_cons_none htext]; rfl
      | some text => rw [textTokens, textTokens, List.filterMap_cons_some htext]; rfl
    cases ht with
    | comment hstarts hd => exact step (hs.add _) (OpenElements.texts_add _ _) hcontent
    | declaration hstarts hn hd => exact step hs (List.append_nil _).symm hcontent
    | interpolation hr hd => exact step (hs.add _) (OpenElements.texts_add _ _) hcontent
    | text hends => exact step (hs.add _) (OpenElements.texts_add _ _) hcontent
    | @openTag _ tag text hstarts hd hraw =>
      rw [contentOf] at hcontent
      split at hcontent
      · refine step (hs.add _) ?_ hcontent
        rw [OpenElements.texts_add]
        simp [Node.texts, textsOf, Token.text?]
      · refine step (fun frame hframe => ?_) ?_ hcontent
        · rcases List.mem_cons.1 hframe with rfl | hframe
          · exact hraw
          · exact hs frame hframe
        · rw [OpenElements.texts_push]
          exact (List.append_nil _).symm
    | rawElement hstarts hm hraw hd =>
      refine step (hs.add _) ?_ hcontent
      rw [OpenElements.texts_add]
      simp [Node.texts, hraw, Token.text?]
    | closeTag hstarts hclose =>
      rw [contentOf] at hcontent
      split at hcontent
      · cases hframes : s.frames with
        | nil =>
          -- no element is open, so the block ends here
          rw [hframes] at hcontent
          obtain rfl := Except.ok.inj hcontent
          refine ⟨[], ts, rfl, ?_⟩
          simp [OpenElements.texts, hframes, textTokens]
        | cons frame outer =>
          rw [hframes] at hcontent
          have hraw : frame.tag.isRawText = false := hs frame (by rw [hframes]; exact List.mem_cons_self)
          have hs' : ({ s with frames := outer } : OpenElements).NoRawText := fun frame' hframe =>
            hs frame' (by rw [hframes]; exact List.mem_cons_of_mem _ hframe)
          refine step (hs'.add _) ?_ hcontent
          rw [OpenElements.texts_pop hframes hraw]
          exact (List.append_nil _).symm
      · cases hcontent

/-- A scan that ends where it begins has no tokens. -/
theorem Scan.eq_nil {c d : Cursor} {ts : List Token} (h : Scan c ts d)
    (heq : d.offset = c.offset) : ts = [] := by
  cases h with
  | nil => rfl
  | cons hc ht hs =>
    exfalso
    obtain ⟨v, hne, hv⟩ := ht.takes hc
    obtain ⟨w, hw⟩ := hs.takes
    have hpos := Text.byteSize_pos hne
    have hoff := hv.offset
    have hle := hw.offset_le
    omega

/-- The texts of a template are its text tokens. -/
theorem ReadsTemplate.texts {k : Component} {c m d : Cursor} {tag : OpenTag} {tokens : List Token}
    {content : Content} (h : ReadsTemplate k c tag m tokens content d) :
    textsOf content.children = textTokens tokens := by
  have hempty : ({} : OpenElements).NoRawText := by
    intro frame hframe
    cases hframe
  obtain ⟨front, more, htokens, hchildren⟩ := h.scan.texts hempty (h.builds none 0 [])
  -- two scans that end behind the same end tag are the same
  have hsplit := h.scan
  rw [htokens, List.append_cons] at hsplit
  obtain ⟨n, hn, hmore⟩ := Scan.append_iff.1 hsplit
  have hback : n = d := hn.after_eq.symm.trans h.scan.after_eq
  subst hback
  rw [hmore.eq_nil rfl] at htokens
  rw [hchildren, (List.append_inj' htokens rfl).1]
  rfl

/-! ## §2. Braces of a text -/

theorem Scan.split_mem {c d : Cursor} {ts : List Token} (h : Scan c ts d) {t : Token}
    (ht : t ∈ ts) : ∃ e f u v, Takes c u e ∧ ReadsToken e t f ∧ e.rest ≠ [] ∧ Takes f v d := by
  obtain ⟨front, back, rfl⟩ := List.append_of_mem ht
  obtain ⟨e, hfront, hback⟩ := Scan.append_iff.1 h
  obtain ⟨u, hu⟩ := hfront.takes
  cases hback with
  | cons he ht hs =>
    obtain ⟨v, hv⟩ := hs.takes
    exact ⟨e, _, u, v, hu, ht, he, hv⟩

/-- Nothing behind a text closes a `{{` that the text holds. -/
theorem ReadsToken.not_closed {c d : Cursor} {content : String} {start : Nat}
    (h : ReadsToken c (.text content start) d) (hopen : ['{', '{'] <:+: content.toList) :
    ¬ ['}', '}'] <:+: d.rest := by
  cases h with
  | text hends =>
    obtain ⟨r, hr, -, hin⟩ := textRun_spec c.rest
    have hrest : (c.skip (textRun c.rest).length).rest = r :=
      List.append_cancel_left ((takes_textRun c).rest.symm.trans hr)
    rw [String.toList_ofList] at hopen
    obtain ⟨u, v, huv⟩ := hopen
    rw [List.append_assoc] at huv
    -- at the `{{` the text goes on
    have hgo : Template.endsText (['{', '{'] ++ v ++ r) = false := by
      cases u with
      | nil =>
        rw [hr, ← huv] at hends
        exact hends
      | cons x u => exact hin (x :: u) _ huv.symm (by simp) (by simp)
    rw [hrest]
    intro hclose
    have hstarts : startsInterpolation ('{' :: '{' :: (v ++ r)) = true :=
      Cursor.splitOn?_isSome_iff.2 (hclose.trans (List.suffix_append v r).isInfix)
    rw [show '{' :: '{' :: (v ++ r) = ['{', '{'] ++ v ++ r from rfl] at hstarts
    rw [(endsText_eq_false_iff.1 hgo).1] at hstarts
    cases hstarts

theorem ReadsToken.text_offset {c d : Cursor} {content : String} {start : Nat}
    (h : ReadsToken c (.text content start) d) : d.offset = start + byteSize content.toList := by
  cases h with
  | text hends =>
    rw [(takes_textRun c).offset, String.toList_ofList]

/-- Where a text of a template is found again in a longer source, what is new closes no
    `{{` of it. -/
theorem not_closed_of_found {source y : List Char} {k k' : Component} {c c' m m' d d' : Cursor}
    {tag tag' : OpenTag} {tokens tokens' : List Token} {content content' : Content}
    (hc : c.StandsIn source) (h : ReadsTemplate k c tag m tokens content d)
    (hc' : c'.StandsIn (source ++ y)) (h' : ReadsTemplate k' c' tag' m' tokens' content' d')
    (hchildren : content'.children = content.children) {t : String × Nat}
    (ht : t ∈ textsOf content.children) (hopen : ['{', '{'] <:+: t.1.toList) :
    ¬ ['}', '}'] <:+: y := by
  obtain ⟨text, start⟩ := t
  have ht' := ht
  rw [← hchildren, h'.texts, mem_textTokens] at ht'
  rw [h.texts, mem_textTokens] at ht
  obtain ⟨_, hm⟩ := h.startTag
  obtain ⟨_, hm'⟩ := h'.startTag
  obtain ⟨_, -, hv⟩ := hm.takes
  obtain ⟨_, -, hv'⟩ := hm'.takes
  obtain ⟨e, f, u, v, hu, htoken, he, -⟩ := h.scan.split_mem (List.mem_append_left _ ht)
  obtain ⟨e', f', u', v', hu', htoken', he', -⟩ := h'.scan.split_mem (List.mem_append_left _ ht')
  obtain ⟨w, -, hw⟩ := htoken.takes he
  obtain ⟨w', -, hw'⟩ := htoken'.takes he'
  -- the text ends at the same place of both sources
  obtain ⟨front, hfront, hsize⟩ := ((hc.of_takes hv).of_takes hu).of_takes hw
  obtain ⟨front', hfront', hsize'⟩ := ((hc'.of_takes hv').of_takes hu').of_takes hw'
  have hplace : byteSize front = byteSize front' := by
    rw [hsize, hsize', htoken.text_offset, htoken'.text_offset]
  rw [hfront, List.append_assoc] at hfront'
  have hrest := (Text.append_inj_of_byteSize_eq hfront' hplace).2
  intro hclose
  refine htoken'.not_closed hopen ?_
  rw [← hrest]
  exact hclose.trans (List.suffix_append f.rest y).isInfix

/-! ## §3. Components in extended texts -/

/-- More text behind a component leaves its template alone: it closes no `{{` of a text. -/
def Component.Stays (component : Component) (y : List Char) : Prop :=
  ∀ block, component.template = some block → ['}', '}'] <:+: y →
    ∀ t ∈ textsOf block.children, ¬ ['{', '{'] <:+: t.1.toList

theorem ReadsTemplate.stays {k : Component} {c m d : Cursor} {tag : OpenTag} {tokens : List Token}
    {content : Content} {y : List Char} (h : ReadsTemplate k c tag m tokens content d)
    (hstays : ['}', '}'] <:+: y → ∀ t ∈ textsOf content.children, ¬ ['{', '{'] <:+: t.1.toList) :
    ∀ t ∈ tokens, t.Stays y := by
  intro t ht
  cases t with
  | text text start =>
    intro hopen hclose
    refine hstays hclose (text, start) ?_ hopen
    rw [h.texts]
    exact mem_textTokens.2 ht
  | comment | declaration | interpolation | openTag | rawElement | closeTag => trivial

/-- A part of a component is found again. -/
theorem ReadsPart.extended {k k' : Component} {c d : Cursor} {y : List Char}
    (h : ReadsPart k c k' d) (hc : c.rest ≠ []) (hend : EndsWithMark c.rest)
    (hstays : k'.Stays y) : ReadsPart k (c.extended y) k' (d.extended y) := by
  obtain ⟨hopen, hclose, hdecl⟩ := starts_extended hc hend y
  cases h with
  | comment h hd =>
    obtain ⟨hstarts, hfound⟩ := comment_extended h hd y
    exact .comment hstarts hfound
  | declaration h hn hd =>
    exact .declaration (hdecl.trans h) (startsComment_extended hend y hn h)
      (takeUntil?_extended (by simp) hd y)
  | empty h hd hself => exact .empty (hopen.trans h) (hd.extended y) hself
  | template h =>
    have hpart := ReadsPart.template (h.extended hend (h.stays (hstays _ rfl)))
    exact hpart
  | raw h hm hself hraw hd =>
    exact .raw (hopen.trans h) (hm.extended y) hself hraw
      (readRawText_extended hm.mark_not_mem hd y)
  | other hopen' hclose' hdecl' =>
    rw [← skip_extended (List.length_pos_iff.2 hc)]
    exact .other (hopen.trans hopen') (hclose.trans hclose') (hdecl.trans hdecl')

/-- The parts of a component are found again. -/
theorem Parts.extended {k final : Component} {c d : Cursor} {y : List Char}
    (h : Parts k c final d) (hend : EndsWithMark c.rest) (hstays : final.Stays y) :
    Parts k (c.extended y) final (d.extended y) := by
  induction h with
  | nil k c => exact .nil k _
  | @cons k k' final c m d hc hp tail ih =>
    obtain ⟨w, -, hw⟩ := hp.takes hc
    -- what is the template behind this part is the template of the component
    have hstays' : k'.Stays y := by
      intro block hblock
      refine hstays block ?_
      rw [tail.template_eq (by rw [hblock]; rfl), hblock]
    have hpart := hp.extended hc hend hstays'
    exact .cons (by simp [Cursor.extended, hc]) hpart (ih (hend.of_takes hw) hstays)

/-! ## §4. Script blocks -/

/-- A script block. -/
def scriptBlock (body : List Char) : List Char :=
  "<script>".toList ++ (body ++ "</script>".toList)

/-- A script block brings the braces of its body, and no others. -/
theorem braces_scriptBlock {body : List Char} :
    ['}', '}'] <:+: scriptBlock body ↔ ['}', '}'] <:+: body := by
  constructor
  · intro h
    have hfront : '}' ∉ "<script>".toList := by decide
    rcases Text.pair_infix_append h with h | h | ⟨hlast, -⟩
    · exact absurd (h.subset List.mem_cons_self) hfront
    · exact Text.pair_infix_of_append (by decide) h
    · exact absurd (List.mem_of_getLast? hlast) hfront
  · intro h
    have hin : body <:+: body ++ "</script>".toList := (List.prefix_append body _).isInfix
    exact (h.trans hin).trans (List.suffix_append "<script>".toList _).isInfix

theorem scriptBlock_ne_nil (body : List Char) : scriptBlock body ≠ [] :=
  List.append_ne_nil_of_left_ne_nil (by decide) _

/-- A script block behind a template is read up to its end tag. -/
theorem readsPart_scriptBlock {component : Component} {body : List Char}
    (hsome : component.template.isSome = true) (hbody : ¬ "</script".toList <:+: lowered body)
    (o : Nat) :
    ∃ e, e.rest = [] ∧
      ReadsPart component ⟨o, scriptBlock body⟩ (component.withBlock "script") e := by
  have htag : IsTagName "script".toList := by decide
  have hplain : ∀ w ∈ ([] : List Written), w.WellFormed := by simp
  have hm := readsTag_open htag hplain o (body ++ "</script>".toList)
  have hd := readRawText_print htag (by decide) hbody
    (openTagAt o "script".toList [] false) rfl
    (o + byteSize (printStart "script".toList []) + 1) []
  rw [List.append_nil] at hd
  refine ⟨_, rfl, .raw (startsOpenTag_print htag _) hm rfl (fun hnone => ?_) hd⟩
  rw [hnone] at hsome
  cases hsome

/-- The template of a component that parses, from what is computed of it. -/
theorem exists_template {α : Type} {source : List Char} {f : Block → α} {x : α}
    (h : ((Component.parse source).toOption.bind (·.template)).map f = some x) :
    ∃ component block, Component.parse source = .ok component ∧
      component.template = some block ∧ f block = x := by
  obtain ⟨block, hfound, hx⟩ := Option.map_eq_some_iff.1 h
  obtain ⟨component, hok, hblock⟩ := Option.bind_eq_some_iff.1 hfound
  cases hparse : Component.parse source with
  | error e => rw [hparse] at hok; cases hok
  | ok component' =>
    rw [hparse] at hok
    obtain rfl : component' = component := Option.some.inj hok
    exact ⟨component', block, rfl, hblock, hx⟩

/-- A component to which a script block is appended keeps its template, with the same
    children at the same places, and has one more block, if and only if the body of the
    script closes no `{{` of the template: it has no `}}`, or no text has a `{{`. -/
theorem parse_append_script_iff {source body : List Char} {component : Component} {block : Block}
    (hparse : Component.parse source = .ok component) (hblock : component.template = some block)
    (hend : source.getLast? = some '>') (hbody : ¬ "</script".toList <:+: lowered body) :
    Component.parse (source ++ scriptBlock body) = .ok (component.withBlock "script") ↔
      (['}', '}'] <:+: body → ∀ t ∈ textsOf block.children, ¬ ['{', '{'] <:+: t.1.toList) := by
  constructor
  · -- the same texts are found, and nothing behind them closes a `{{`
    intro hparse' hclose t ht hopen
    have hblock' : (component.withBlock "script").template = some block := hblock
    obtain ⟨k, c, tag, m, tokens, content, d, -, hfront, htemplate, rfl, -, -⟩ :=
      parse_template hparse hblock
    obtain ⟨k', c', tag', m', tokens', content', d', -, hfront', htemplate', hsame, -, -⟩ :=
      parse_template hparse' hblock'
    obtain ⟨u, hu⟩ := hfront.takes
    obtain ⟨u', hu'⟩ := hfront'.takes
    have hzero : ∀ s, Cursor.StandsIn ⟨0, s⟩ s := fun s => ⟨[], rfl, rfl⟩
    refine not_closed_of_found ((hzero _).of_takes hu) htemplate ((hzero _).of_takes hu') htemplate'
      (congrArg Block.children hsame).symm ht hopen (braces_scriptBlock.2 hclose)
  · intro hstays
    obtain ⟨d, hparts, hrest⟩ := parse_eq_ok_iff.1 hparse
    have hmark : EndsWithMark source := by
      intro x hx
      exact (Option.some.inj (hend.symm.trans hx)).symm
    have hstays' : component.Stays (scriptBlock body) := by
      intro block' hblock' hclose
      rw [hblock] at hblock'
      obtain rfl := Option.some.inj hblock'
      exact hstays (braces_scriptBlock.1 hclose)
    -- the parts of the source come first, and then the script block
    have hfront := hparts.extended hmark hstays'
    obtain ⟨e, he, hscript⟩ := readsPart_scriptBlock (by rw [hblock]; rfl) hbody d.offset
    have hd : d.extended (scriptBlock body) = ⟨d.offset, scriptBlock body⟩ := by
      rw [Cursor.extended, hrest, List.nil_append]
    rw [hd] at hfront
    have hlast := Parts.cons (scriptBlock_ne_nil body) hscript (.nil _ e)
    exact parse_eq_ok_iff.2 ⟨e, hfront.trans hlast, he⟩

/-- Behind a template that leaves a `{{` open, a script without `}}` and one with it. -/
theorem parse_append_script_open :
    ∃ source component block,
      source = "<template>\x7b\x7b<p/></template>".toList ∧
      Component.parse source = .ok component ∧ component.template = some block ∧
      Component.parse (source ++ scriptBlock "f(\x7b\x7d)".toList) =
        .ok (component.withBlock "script") ∧
      Component.parse (source ++ scriptBlock "f(\x7bx: \x7b\x7d\x7d)".toList) ≠
        .ok (component.withBlock "script") := by
  obtain ⟨source, hsource⟩ : ∃ source, source = "<template>\x7b\x7b<p/></template>".toList :=
    ⟨_, rfl⟩
  have htexts : ((Component.parse source).toOption.bind (·.template)).map (textsOf ·.children) =
      some [("\x7b\x7b", 10)] := by
    subst hsource
    decide +kernel
  obtain ⟨component, block, hparse, hblock, hlist⟩ := exists_template htexts
  have hend : source.getLast? = some '>' := by
    subst hsource
    decide
  refine ⟨source, component, block, hsource, hparse, hblock, ?_, ?_⟩
  · refine (parse_append_script_iff hparse hblock hend (by decide +kernel)).2 fun hclose => ?_
    exact absurd hclose (by decide +kernel)
  · intro hparse'
    have hplain := (parse_append_script_iff hparse hblock hend (by decide +kernel)).1 hparse'
      (by decide +kernel)
    rw [hlist] at hplain
    exact hplain _ List.mem_cons_self (by decide +kernel)

/-- A `}}` in a script ends an interpolation that begins in a text of the template.  What is
    left of the script is then read as part of the template, and its end tag is an error. -/
theorem parse_append_script_fails :
    let source := "<template>\x7b\x7b</template>".toList
    let body := "\x7d\x7d".toList
    (∃ component block, Component.parse source = .ok component ∧
      component.template = some block ∧ textsOf block.children = [("\x7b\x7b", 10)]) ∧
    source.getLast? = some '>' ∧ ¬ "</script".toList <:+: lowered body ∧
    ∀ component, Component.parse (source ++ scriptBlock body) ≠ .ok component := by
  intro source body
  have herror : (Component.parse (source ++ scriptBlock body)).toOption.isNone = true := by
    decide +kernel
  refine ⟨exists_template (by decide +kernel), by decide, by decide +kernel, ?_⟩
  intro component hparse
  rw [hparse] at herror
  cases herror

end Provenance.Template
