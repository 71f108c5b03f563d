import Provenance.Annotation.Template
import Provenance.Proofs.Template.Component
import Provenance.Proofs.Template.Edited

/-! # Reading edited texts

  Reading a text with attributes spliced into its start tags finds what reading
  the original finds, moved to its new places, with the attributes as entries of
  those tags in front of the others.

  By induction a whole scan is found again (`Scan.edited`), and with it the
  component (`parse_edited`).
-/

namespace Provenance.Template

open Text (Cursor byteSize byteSize_append byteSize_cons)
open Text.Cursor (Takes)
open Insertion (edit moved sizeBefore textsAt)
open Marker (attributeMarkup)

variable {ins : List Insertion}

/-! ## §1. Braces in the edited text -/

/-- What is spliced in brings no `}}` and does not complete one. -/
def BringsNoBraces (text : List Char) : Prop :=
  ¬ ['}', '}'] <:+: text ∧ text.head? ≠ some '}' ∧ text.getLast? ≠ some '}'

theorem head?_edit_ne {o : Nat} {s : List Char} (ht : (textsAt ins o).head? ≠ some '}')
    (hs : s.head? ≠ some '}') : (edit ins o s).head? ≠ some '}' := by
  cases s with
  | nil => exact ht
  | cons c s =>
    rw [edit, List.head?_append]
    cases h : (textsAt ins o).head? with
    | none => exact hs
    | some x => rw [h] at ht; exact ht

/-- An edited text has no `}}` where neither the original nor what is spliced in has
    one. -/
theorem not_infix_edit {q : Nat} {s : List Char}
    (h : ∀ o, q ≤ o → BringsNoBraces (textsAt ins o)) (hs : ¬ ['}', '}'] <:+: s) :
    ¬ ['}', '}'] <:+: edit ins q s := by
  induction s generalizing q with
  | nil => exact (h q (Nat.le_refl q)).1
  | cons c s ih =>
    have hpos := c.utf8Size_pos
    obtain ⟨hin, hhead, hlast⟩ := h q (Nat.le_refl q)
    have hbehind := ih (q := q + c.utf8Size) (fun o ho => h o (by omega)) fun hin' =>
      hs (hin'.trans (List.suffix_cons c s).isInfix)
    -- a pair that `c` begins would be one of the original
    have hcons : ¬ ['}', '}'] <:+: c :: edit ins (q + c.utf8Size) s := by
      intro hpair
      rcases List.infix_cons_iff.1 hpair with hfront | hpair
      · obtain ⟨t, ht⟩ := hfront
        obtain ⟨rfl, htail⟩ := List.cons.inj ht
        have htail : '}' :: t = edit ins (q + '}'.utf8Size) s := htail
        have hhead' : (edit ins (q + '}'.utf8Size) s).head? = some '}' := by rw [← htail]; rfl
        refine head?_edit_ne (h _ (by omega)).2.1 ?_ hhead'
        intro hnext
        obtain ⟨r, rfl⟩ := List.head?_eq_some_iff.1 hnext
        exact hs (List.prefix_append ['}', '}'] r).isInfix
      · exact hbehind hpair
    rw [edit]
    intro hpair
    rcases Text.pair_infix_append hpair with h' | h' | ⟨h', -⟩
    · exact hin h'
    · exact hcons h'
    · exact hlast h'

theorem getLast?_attributeMarkup (e : String × String) :
    (attributeMarkup e).getLast? = some '"' := by
  rw [attributeMarkup, List.getLast?_concat]

theorem bringsNoBraces_markup {added : List (String × String)}
    (h : ¬ ['}', '}'] <:+: added.flatMap attributeMarkup) :
    BringsNoBraces (added.flatMap attributeMarkup) := by
  refine ⟨h, ?_, ?_⟩
  · cases added with
    | nil => simp
    | cons e added => simp [attributeMarkup]
  · cases hrev : added.reverse with
    | nil =>
      rw [List.reverse_eq_nil_iff.1 hrev]
      simp
    | cons e front =>
      have hadded : added = front.reverse ++ [e] := by
        rw [← List.reverse_reverse added, hrev, List.reverse_cons]
      rw [hadded, List.flatMap_append, List.flatMap_singleton, List.getLast?_append,
        getLast?_attributeMarkup]
      simp

/-! ## §2. Scans in the edited text -/

/-- What is spliced in leaves the interpolations alone: each `{{` of the text has its
    `}}` already, or no marker brings one that its tag has not. -/
def KeepsBraces (c : Cursor) (tags : List OpenTag) (added : OpenTag → List (String × String)) :
    Prop :=
  (∀ u r, c.rest = u ++ '{' :: '{' :: r → ['}', '}'] <:+: r) ∨
  ∀ tag ∈ tags, ['}', '}'] <:+: (added tag).flatMap attributeMarkup →
    ['}', '}'] <:+: tag.name.toList

theorem KeepsBraces.of_takes {c d : Cursor} {w : List Char} {tags tags' : List OpenTag}
    {added : OpenTag → List (String × String)} (hw : Takes c w d) (hsub : tags' ⊆ tags)
    (h : KeepsBraces c tags added) : KeepsBraces d tags' added := by
  rcases h with hclosed | hnames
  · refine .inl fun u r hr => hclosed (w ++ u) r ?_
    rw [hw.rest, hr, List.append_assoc]
  · exact .inr fun tag ht => hnames tag (hsub ht)

/-- The name of a start tag behind a piece of text is part of what stands behind a `{{`
    that begins in the piece. -/
theorem OpenTag.StandsIn.name_isInfix {c d : Cursor} {w u r : List Char} {tag : OpenTag}
    (hin : tag.StandsIn d) (hw : Takes c w d) (hr : c.rest = u ++ '{' :: '{' :: r)
    (hlt : byteSize u < byteSize w) : tag.name.toList <:+: r := by
  obtain ⟨a, b, hd, -⟩ := hin.text
  obtain ⟨v, rfl, hv⟩ := Text.append_split_of_byteSize_le (hr.symm.trans hw.rest) (Nat.le_of_lt hlt)
  rw [hd] at hv
  match v with
  | [] =>
    rw [List.append_nil] at hlt
    omega
  | [x] =>
    have htail : '{' :: r = a ++ '<' :: (tag.name.toList ++ b) := (List.cons.inj hv).2
    cases a with
    | nil => exact absurd (List.cons.inj htail).1 (by decide)
    | cons y a => exact ⟨a ++ ['<'], b, by rw [(List.cons.inj htail).2]; simp⟩
  | x :: y :: v =>
    have htail : r = v ++ (a ++ '<' :: (tag.name.toList ++ b)) :=
      (List.cons.inj (List.cons.inj hv).2).2
    exact ⟨v ++ (a ++ ['<']), b, by rw [htail]; simp⟩

/-- In front of the start tags of a scan nothing quiet becomes loud. -/
theorem quiet_of_keepsBraces {c d e : Cursor} {w : List Char} {ts : List Token}
    {added : OpenTag → List (String × String)} (hw : Takes c w d) (hs : Scan d ts e)
    (hcover : ∀ x ∈ ins, x.offset < c.offset ∨ ∃ tag ∈ tagsOf ts, x.offset = tag.nameEnd)
    (hadded : ∀ tag ∈ tagsOf ts, textsAt ins tag.nameEnd = (added tag).flatMap attributeMarkup)
    (hbraces : KeepsBraces c (tagsOf ts) added) : Quiet ins c (byteSize w) := by
  intro u r hr hlt hnot
  rcases hbraces with hclosed | hnames
  · exact absurd (hclosed u r hr) hnot
  · refine not_infix_edit (fun o ho => ?_) hnot
    -- what is inserted from here on belongs to a start tag behind the piece
    by_cases hany : ∃ x ∈ ins, x.offset = o
    · obtain ⟨x, hx, hxo⟩ := hany
      rcases hcover x hx with hlt' | ⟨tag, ht, hend⟩
      · omega
      · rw [← hxo, hend, hadded tag ht]
        refine bringsNoBraces_markup fun hin => hnot ?_
        exact (hnames tag ht hin).trans ((hs.standsIn ht).1.name_isInfix hw hr hlt)
    · rw [Insertion.textsAt_eq_nil fun x hx hxo => hany ⟨x, hx, hxo⟩]
      exact ⟨by simp, by simp, by simp⟩

theorem OpenTag.StandsIn.behind {tag : OpenTag} {c : Cursor} (h : tag.StandsIn c) {x : Insertion}
    (hx : x.offset = tag.nameEnd) : x.Behind c := by
  obtain ⟨a, b, hrest, hstart⟩ := h.text
  obtain ⟨l, name, hname, -⟩ := h.name
  refine ⟨a, l, name ++ b, by rw [hrest, hname]; rfl, ?_⟩
  rw [hx, h.nameEnd, hstart, hname, byteSize_append, byteSize_cons, byteSize_cons, byteSize_cons]
  have hone : '<'.utf8Size = 1 := rfl
  have hnil : byteSize [] = 0 := rfl
  omega

/-- Nothing changes behind a scan if insertions are made in front of it and into it. -/
theorem Scan.edited_rest {c d : Cursor} {ts : List Token} (h : Scan c ts d)
    (hcover : ∀ x ∈ ins, x.offset < c.offset ∨ ∃ tag ∈ tagsOf ts, x.offset = tag.nameEnd) :
    (d.edited ins).rest = d.rest := by
  refine Cursor.edited_rest_of_lt fun x hx => ?_
  rcases hcover x hx with hlt | ⟨tag, htag, hend⟩
  · obtain ⟨w, hw⟩ := h.takes
    have := hw.offset_le
    omega
  · have := (h.standsIn htag).2
    omega

/-- Where a text ends in front of a scan that is found again, it ends in the edited
    text, if it does so behind the scan. -/
theorem endsText_of_scan {c d : Cursor} {ts : List Token} {g : OpenTag → OpenTag}
    (h : Scan c ts d) (h' : Scan (c.edited ins) (ts.map (Token.edited ins g)) (d.edited ins))
    (hd : endsText d.rest = true → endsText (d.edited ins).rest = true)
    (hend : endsText c.rest = true) : endsText (c.edited ins).rest = true := by
  cases h with
  | nil => exact hd hend
  | @cons _ m _ t ts hc ht hs =>
    have hkind : ∀ content start, t ≠ .text content start := by
      rintro content start rfl
      cases ht with
      | text hgo =>
        rw [hend] at hgo
        cases hgo
    cases h' with
    | cons hc' ht' hs' =>
      refine ht'.endsText fun content start heq => ?_
      cases t with
      | text content start => exact hkind _ _ rfl
      | comment content start => cases heq
      | declaration => cases heq
      | interpolation content start => cases heq
      | openTag tag stop => cases heq
      | rawElement tag content start stop => cases heq
      | closeTag tag => cases heq

/-- A scan finds its tokens again, with what was spliced in behind the names of its
    start tags. -/
theorem Scan.edited {c d : Cursor} {ts : List Token} {added : OpenTag → List (String × String)}
    (h : Scan c ts d)
    (hcover : ∀ x ∈ ins, x.offset < c.offset ∨ ∃ tag ∈ tagsOf ts, x.offset = tag.nameEnd)
    (hadded : ∀ tag ∈ tagsOf ts, textsAt ins tag.nameEnd = (added tag).flatMap attributeMarkup ∧
      ∀ e ∈ added tag, IsAttributeName e.1.toList)
    (hbraces : KeepsBraces c (tagsOf ts) added) :
    Scan (c.edited ins) (ts.map (Token.edited ins (OpenTag.edited ins added))) (d.edited ins) := by
  induction h with
  | nil c => exact .nil _
  | @cons c m d t ts hc ht hs ih =>
    obtain ⟨w, hne, hw⟩ := ht.takes hc
    have hlt := Text.byteSize_pos hne
    have hoff := hw.offset
    have hmem : tagsOf ts ⊆ tagsOf (t :: ts) := fun tag htag => mem_tagsOf_cons.2 (.inr htag)
    -- an insertion into the token is behind the name of its start tag
    have hsplit : ∀ x ∈ ins, x.offset < c.offset ∨
        (∃ tag, t.tag? = some tag ∧ x.offset = tag.nameEnd) ∨
        ∃ tag ∈ tagsOf ts, x.offset = tag.nameEnd := by
      intro x hx
      rcases hcover x hx with hlt | ⟨tag, htag, hend⟩
      · exact .inl hlt
      · rcases mem_tagsOf_cons.1 htag with htag | htag
        · exact .inr (.inl ⟨tag, htag, hend⟩)
        · exact .inr (.inr ⟨tag, htag, hend⟩)
    have hcover' : ∀ x ∈ ins, x.offset < m.offset ∨ ∃ tag ∈ tagsOf ts, x.offset = tag.nameEnd := by
      intro x hx
      rcases hsplit x hx with hlt | ⟨tag, htag, hend⟩ | hrest
      · exact .inl (by omega)
      · obtain ⟨-, text, e, hreads, hle⟩ := ht.readsTag htag
        have := hreads.nameEnd_lt
        exact .inl (by omega)
      · exact .inr hrest
    have ih' := ih hcover' (fun tag htag => hadded tag (hmem htag)) (hbraces.of_takes hw hmem)
    refine .cons (Insertion.edit_ne_nil hc) (ht.edited hc ?_ ?_ ?_) ih'
    · intro x hx
      rcases hsplit x hx with hlt | htag | ⟨tag, htag, hend⟩
      · exact .inl hlt
      · exact .inr (.inl htag)
      · exact .inr (.inr ((hs.standsIn htag).1.behind hend))
    · intro tag htag
      exact hadded tag (mem_tagsOf_cons.2 (.inl htag))
    · rintro content start rfl
      have hsize : m.offset - c.offset = byteSize w := by omega
      rw [hsize]
      refine ⟨quiet_of_keepsBraces hw hs hcover (fun tag htag => (hadded tag htag).1) hbraces,
        endsText_of_scan hs ih' fun hd => (hs.edited_rest hcover') ▸ hd, fun hnil => ?_⟩
      cases hs with
      | nil => rw [(Scan.nil m).edited_rest hcover', hnil]
      | cons hm ht' hs' => exact absurd hnil hm

/-! ## §3. Parts in the edited text -/

theorem attribute?_relocated (f : Nat → Nat) (tag : OpenTag) (name : String) :
    (tag.relocated f []).attribute? name =
      (tag.attribute? name).map fun a => { a with start := f a.start } := by
  show (tag.entries.map (·.mapStart f)).findSome? _ = (tag.entries.findSome? _).map _
  induction tag.entries with
  | nil => rfl
  | cons e entries ih =>
    rw [List.map_cons, List.findSome?_cons, List.findSome?_cons, ih]
    rcases e with a | d
    · by_cases ha : a.name = name
      · simp [Entry.mapStart, ha]
      · simp [Entry.mapStart, ha]
    · simp [Entry.mapStart]

theorem lang_relocated (f : Nat → Nat) (tag : OpenTag) :
    ((tag.relocated f []).attribute? "lang").bind (·.value) =
      (tag.attribute? "lang").bind (·.value) := by
  rw [attribute?_relocated]
  cases tag.attribute? "lang" <;> rfl

theorem isTemplate_relocated (f : Nat → Nat) (tag : OpenTag) :
    (tag.relocated f []).isTemplate = tag.isTemplate := by
  rw [OpenTag.isTemplate, OpenTag.isTemplate, lang_relocated]
  rfl

/-- A character between blocks is found again. -/
theorem other_edited {k : Component} {c : Cursor} (hc : c.rest ≠ [])
    (hopen : startsOpenTag c.rest = false) (hclose : startsCloseTag c.rest = false)
    (hdecl : startsDeclaration c.rest = false) (hclear : Apart ins c (c.skip 1)) :
    ReadsPart k (c.edited ins) k ((c.skip 1).edited ins) := by
  obtain ⟨x, r, hr⟩ := List.exists_cons_of_ne_nil hc
  have hw := Cursor.takes_skip_one hr
  obtain ⟨hc', hd'⟩ := hw.edited hclear.outside
  -- two more characters show what a `<` begins
  have hsettled := hclear.settled hw.offset_le
  have hstarts := starts_append (w := [x]) (by simp) hsettled.take_two
  rw [← hw.rest] at hstarts
  have hrest : (c.edited ins).rest = x :: ((c.skip 1).edited ins).rest := by rw [hc']; rfl
  have hrest' : (c.edited ins).rest = [x] ++ ((c.skip 1).edited ins).rest := hrest
  have hskip : (c.edited ins).skip 1 = (c.skip 1).edited ins := by
    rw [Cursor.skip_one hrest, hd', hc', hw.offset]
    have hone : byteSize [x] = x.utf8Size := rfl
    rw [hone, Nat.add_right_comm]
  rw [← hskip]
  refine .other ?_ ?_ ?_
  · rw [hrest', hstarts.1, hopen]
  · rw [hrest', hstarts.2.1, hclose]
  · rw [hrest', hstarts.2.2, hdecl]

/-- A part other than the template is found again where no insertion is inside it. -/
theorem ReadsPart.edited {k k' : Component} {c d : Cursor} {g : OpenTag → OpenTag}
    (h : ReadsPart k c k' d) (hc : c.rest ≠ []) (hkeep : k'.template = k.template)
    (hclear : Apart ins c d) :
    ReadsPart (k.relocated (moved ins) g) (c.edited ins) (k'.relocated (moved ins) g)
      (d.edited ins) := by
  have hplain := hclear.outside
  -- nothing is spliced into the start tag of a block
  have htag : ∀ {tag : OpenTag} {text : List Char} {m : Cursor}, ReadsTag c tag text m →
      m.offset ≤ d.offset →
      ∃ text', ReadsTag (c.edited ins) (tag.relocated (moved ins) []) text' (m.edited ins) := by
    intro tag text m hm hle
    refine hm.edited_plain fun x hx => ?_
    have := hplain x hx
    omega
  cases h with
  | comment h hd =>
    have hmark : ∃ r, c.rest = ['<', '!', '-', '-'] ++ r := startsComment_eq h
    obtain ⟨hrest, hfound⟩ := takeUntil?_edited (by simp) hmark hd hplain
    exact .comment (by rw [hrest]; rfl) hfound
  | declaration h hn hd =>
    obtain ⟨hstarts, hn', hfound⟩ := declaration_edited h hn hd hplain
    exact .declaration hstarts hn' hfound
  | empty h hd hself =>
    obtain ⟨text', hd'⟩ := htag hd (Nat.le_refl _)
    have hpart := ReadsPart.empty (k := k.relocated (moved ins) g) (hd.edited_opens h hd' rfl) hd'
      hself
    exact hpart
  | template h =>
    rw [h.first] at hkeep
    cases hkeep
  | @raw m _ tag _ _ h hm hself hraw hd =>
    obtain ⟨w, hw, -⟩ := readRawText_replace hm.mark_not_mem hd
    obtain ⟨text', hm'⟩ := htag hm hw.offset_le
    have hplain' : ∀ x ∈ ins, x.offset < m.offset ∨ d.offset ≤ x.offset := by
      intro x hx
      have := hplain x hx
      obtain ⟨v, -, hv⟩ := hm.takes
      have := hv.offset_le
      omega
    have hraw' : (k.relocated (moved ins) g).template = none →
        (tag.relocated (moved ins) []).isTemplate = false := by
      intro hnone
      rw [isTemplate_relocated]
      exact hraw (Option.map_eq_none_iff.1 hnone)
    have hpart := ReadsPart.raw (k := k.relocated (moved ins) g) (hm.edited_opens h hm' rfl) hm'
      hself hraw' (rawText_edited hm.mark_not_mem hd rfl hplain')
    exact hpart
  | other hopen hclose hdecl => exact other_edited hc hopen hclose hdecl hclear

/-- Parts other than the template are found again where no insertion is inside them. -/
theorem Parts.edited {k final : Component} {c d : Cursor} {g : OpenTag → OpenTag}
    (h : Parts k c final d) (hkeep : k.template.isSome = true ∨ final.template = none)
    (hclear : Apart ins c d) :
    Parts (k.relocated (moved ins) g) (c.edited ins) (final.relocated (moved ins) g)
      (d.edited ins) := by
  induction h with
  | nil k c => exact .nil _ _
  | @cons k k' final c m d hc hp tail ih =>
    obtain ⟨v, -, hv⟩ := hp.takes hc
    obtain ⟨w, hw⟩ := tail.takes
    have hle := hv.offset_le
    have hsame : k'.template = k.template := by
      rcases hp.template_cases with heq | ⟨tag, n, tokens, content, htemplate, rfl⟩
      · exact heq
      · have hfinal := tail.template_eq rfl
        rcases hkeep with hsome | hnone
        · rw [htemplate.first] at hsome
          cases hsome
        · rw [hnone] at hfinal
          cases hfinal
    have hpart := hp.edited (g := g) hc hsame (hclear.of_takes hw)
    have hrest := ih (by rw [hsame]; exact hkeep) (hclear.mono hle)
    exact .cons (Insertion.edit_ne_nil hc) hpart hrest

/-! ## §4. Templates in the edited text -/

theorem lastCloseMark?_add (o k : Nat) (s : List Char) :
    lastCloseMark? (o + k) s = (lastCloseMark? o s).map (· + k) := by
  induction s generalizing o with
  | nil => rfl
  | cons c s ih =>
    rw [lastCloseMark?, lastCloseMark?, Nat.add_right_comm, ih]
    cases lastCloseMark? (o + c.utf8Size) s with
    | some p => rfl
    | none => split <;> rfl

theorem lastCloseMark?_bounds {o p : Nat} {s : List Char} (h : lastCloseMark? o s = some p) :
    o ≤ p ∧ p < o + byteSize s := by
  obtain ⟨front, back, rfl, -, rfl⟩ := lastCloseMark?_split h
  have hpos : 0 < byteSize ('<' :: '/' :: back) := Text.byteSize_pos (List.cons_ne_nil _ _)
  rw [byteSize_append]
  omega

/-- The content of a block ends in the edited text where it ended. -/
theorem CloseTag.contentEnd_edited {tag : CloseTag} {stop : Nat}
    (hstop : tag.start + byteSize ('<' :: '/' :: tag.inner) ≤ stop)
    (h : ∀ x ∈ ins, x.offset < tag.start ∨ stop ≤ x.offset) :
    (tag.edited ins).contentEnd = moved ins tag.contentEnd := by
  show (lastCloseMark? (moved ins tag.start) ('<' :: '/' :: tag.inner)).getD
    (moved ins tag.start) = _
  have hstart : moved ins tag.start = tag.start + sizeBefore ins tag.start := rfl
  rw [CloseTag.contentEnd, hstart, lastCloseMark?_add]
  cases hp : lastCloseMark? tag.start ('<' :: '/' :: tag.inner) with
  | none => rfl
  | some p =>
    obtain ⟨hle, hlt⟩ := lastCloseMark?_bounds hp
    exact (moved_between h hle (by omega)).symm

theorem contentOf_append {block : String} {failure : Option Error} {stop : Nat}
    {s : OpenElements} {ts : List Token} {content : Content}
    (h : contentOf block failure stop s ts = .ok content) (failure' : Option Error) (stop' : Nat)
    (more : List Token) : contentOf block failure' stop' s (ts ++ more) = .ok content := by
  obtain ⟨front, rest, rfl, -, -, hall, -⟩ := contentOf_eq_ok h
  rw [List.append_assoc, List.cons_append]
  exact hall failure' stop' (rest ++ more)

theorem tagsOf_closeTag (ts : List Token) (tag : CloseTag) :
    tagsOf (ts ++ [.closeTag tag]) = tagsOf ts := by
  simp [tagsOf, Token.tag?]

section Template

variable {k : Component} {c m d : Cursor} {tag : OpenTag} {tokens : List Token} {content : Content}
  {added : OpenTag → List (String × String)}

/-- Each element of a template stands in front of its end tag. -/
theorem ReadsTemplate.standsIn (h : ReadsTemplate k c tag m tokens content d) {t : OpenTag}
    (ht : t ∈ tagsOf tokens) : t.StandsIn m ∧ t.nameEnd < content.close.start := by
  obtain ⟨n, hn, -, hclose⟩ := h.scan.split_closeTag
  rw [hclose.start]
  exact hn.standsIn ht

/-- The block of a template is found again. -/
theorem ReadsTemplate.block_edited (h : ReadsTemplate k c tag m tokens content d)
    (hcover : ∀ x ∈ ins, ∃ t ∈ tagsOf tokens, x.offset = t.nameEnd) (g : OpenTag → OpenTag) :
    Block.of (tag.relocated (moved ins) []) (m.edited ins) (content.edited ins g) =
      (Block.of tag m content).relocated (moved ins) g := by
  have hend : (content.close.edited ins).contentEnd = moved ins content.close.contentEnd := by
    refine CloseTag.contentEnd_edited (Nat.le_refl _) fun x hx => .inl ?_
    obtain ⟨t, ht, hx⟩ := hcover x hx
    rw [hx]
    exact (h.standsIn ht).2
  unfold Block.of Block.relocated
  rw [lang_relocated]
  congr 1

/-- A template is found again, with what was spliced in behind the names of its start
    tags. -/
theorem ReadsTemplate.edited (h : ReadsTemplate k c tag m tokens content d)
    (hcover : ∀ x ∈ ins, ∃ t ∈ tagsOf tokens, x.offset = t.nameEnd)
    (hadded : ∀ t ∈ tagsOf tokens, textsAt ins t.nameEnd = (added t).flatMap attributeMarkup ∧
      ∀ e ∈ added t, IsAttributeName e.1.toList)
    (hbraces : KeepsBraces m (tagsOf tokens) added) :
    ReadsTemplate (k.relocated (moved ins) (OpenTag.edited ins added)) (c.edited ins)
      (tag.relocated (moved ins) []) (m.edited ins)
      (tokens.map (Token.edited ins (OpenTag.edited ins added)))
      (content.edited ins (OpenTag.edited ins added)) (d.edited ins) := by
  obtain ⟨text, hm⟩ := h.startTag
  -- nothing is spliced into the start tag of the block
  have hbehind : ∀ x ∈ ins, m.offset ≤ x.offset := by
    intro x hx
    obtain ⟨t, ht, hx⟩ := hcover x hx
    have := ((h.standsIn ht).1.behind hx).offset_lt
    omega
  obtain ⟨text', hm'⟩ := hm.edited_plain fun x hx => .inr (hbehind x hx)
  have hscan := h.scan.edited (fun x hx => .inr (by rw [tagsOf_closeTag]; exact hcover x hx))
    (by rw [tagsOf_closeTag]; exact hadded) (by rw [tagsOf_closeTag]; exact hbraces)
  rw [List.map_append] at hscan
  refine ⟨hm.edited_opens h.opens hm' rfl, ⟨text', hm'⟩, h.selfClosing, ?_, ?_, hscan, ?_, ?_,
    h.closeName⟩
  · show k.template.map _ = none
    rw [h.first]
    rfl
  · rw [isTemplate_relocated]
    exact h.isTemplate
  · intro failure stop more
    have hbuilds : contentOf tag.name none 0 {}
        ((tokens ++ [Token.closeTag content.close]).map (Token.edited ins (OpenTag.edited ins added))) =
        .ok (content.edited ins (OpenTag.edited ins added)) :=
      contentOf_edited (keepsClass_edited added) (h.builds none 0 []) none 0
    have hmore := contentOf_append hbuilds failure stop more
    rw [List.map_append, List.append_assoc] at hmore
    exact hmore
  · show openTagsOf (relocatedNodes _ _ content.children) = _
    rw [openTagsOf_relocated, h.openTags, tagsOf_edited]

end Template

/-! ## §5. Components in the edited text -/

theorem Parts.trans {k k' final : Component} {c m d : Cursor} (h : Parts k c k' m)
    (h' : Parts k' m final d) : Parts k c final d := by
  induction h with
  | nil k c => exact h'
  | cons hc hp tail ih => exact .cons hc hp (ih h')

theorem edited_zero (code : List Char) :
    (⟨0, code⟩ : Cursor).edited ins = ⟨0, edit ins 0 code⟩ := by
  have hzero : sizeBefore ins 0 = 0 := by
    rw [sizeBefore, List.filter_eq_nil_iff.2 (by simp)]
    rfl
  rw [Cursor.edited, moved, hzero]

/-- An edited component parses as the original does: at the places to which they
    moved are the same parts, and the attributes that were spliced into a start tag
    are in front of its other entries. -/
theorem parse_edited {code : List Char} {component : Component}
    {added : OpenTag → List (String × String)} (h : Component.parse code = .ok component)
    (hcover : ∀ x ∈ ins, ∃ t ∈ component.openTags, x.offset = t.nameEnd)
    (hadded : ∀ t ∈ component.openTags,
      textsAt ins t.nameEnd = (added t).flatMap attributeMarkup ∧
        ∀ e ∈ added t, IsAttributeName e.1.toList)
    (hbraces : KeepsBraces ⟨0, code⟩ component.openTags added) :
    Component.parse (edit ins 0 code) =
      .ok (component.relocated (moved ins) (OpenTag.edited ins added)) := by
  cases hb : component.template with
  | none =>
    -- without a template nothing is spliced in
    have hnil : ins = [] := by
      refine List.eq_nil_iff_forall_not_mem.2 fun x hx => ?_
      obtain ⟨t, ht, -⟩ := hcover x hx
      rw [Component.openTags, hb] at ht
      cases ht
    rw [hnil, Insertion.edit_of_lt (by simp), h, Component.relocated, hb]
    obtain ⟨template, blocks⟩ := component
    exact congrArg (fun t => Except.ok (Component.mk t blocks)) hb
  | some block =>
    obtain ⟨k, b, tag, m, tokens, content, e, d, hfront, htemplate, rfl, htail, hend⟩ :=
      parse_template h hb
    have hopen : component.openTags = tagsOf tokens := by
      rw [Component.openTags, hb]
      exact htemplate.openTags
    rw [hopen] at hcover hadded hbraces
    obtain ⟨text, hm⟩ := htemplate.startTag
    obtain ⟨u, hu⟩ := hfront.takes
    obtain ⟨v, -, hv⟩ := hm.takes
    obtain ⟨w, hw⟩ := htail.takes
    -- nothing is spliced into the parts in front of the template or behind it
    have hbehind : ∀ x ∈ ins, x.Behind b := by
      intro x hx
      obtain ⟨t, ht, hx⟩ := hcover x hx
      exact ((htemplate.standsIn ht).1.behind hx).of_takes hv
    have hbefore : ∀ x ∈ ins, x.offset < e.offset := by
      intro x hx
      obtain ⟨t, ht, hx⟩ := hcover x hx
      rw [hx]
      exact (htemplate.scan.standsIn (by rw [tagsOf_closeTag]; exact ht)).2
    have hfront' := hfront.edited (g := OpenTag.edited ins added) (.inr htemplate.first)
      fun x hx => .inr (hbehind x hx)
    have htemplate' := htemplate.edited hcover hadded
      (hbraces.of_takes (hu.trans hv) (List.Subset.refl _))
    have hpart := ReadsPart.template htemplate'
    rw [htemplate.block_edited hcover] at hpart
    have htail' := htail.edited (g := OpenTag.edited ins added) (.inl rfl)
      fun x hx => .inl (hbefore x hx)
    have hb' : b.rest ≠ [] := by
      rw [hm.rest]
      exact List.cons_ne_nil _ _
    rw [parse_eq_ok_iff, ← edited_zero]
    refine ⟨d.edited ins, hfront'.trans (.cons (Insertion.edit_ne_nil hb') hpart htail'), ?_⟩
    rw [Cursor.edited_rest_of_lt fun x hx => ?_, hend]
    have := hbefore x hx
    have := hw.offset_le
    omega

end Provenance.Template
