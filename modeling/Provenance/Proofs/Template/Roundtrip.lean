import Provenance.Proofs.Template.Component
import Provenance.Proofs.Template.Printed

/-! # Parsing what was printed

  A component that holds the text of well-formed trees parses to their nodes.

  The induction goes over the trees and not over the tokens.  Its statement leaves open which
  elements are open and what follows: reading moves over the text of a tree, and what it
  leaves behind is one node more in the innermost open element (`Builds`).

  Main statement: `parse_print`.
-/

namespace Provenance.Template

open Text (Cursor byteSize byteSize_append byteSize_cons)

/-! ## §1. Reading that adds nodes -/

namespace OpenElements

/-- Nodes go into the innermost open element. -/
theorem foldl_add_frame (nodes : List Node) (frame : Frame) (outer : List Frame)
    (finished : List Node) :
    nodes.foldl OpenElements.add ⟨frame :: outer, finished⟩ =
      ⟨⟨frame.tag, nodes.reverse ++ frame.children⟩ :: outer, finished⟩ := by
  induction nodes generalizing frame with
  | nil => rfl
  | cons node nodes ih =>
    have hadd : OpenElements.add ⟨frame :: outer, finished⟩ node =
        ⟨⟨frame.tag, node :: frame.children⟩ :: outer, finished⟩ := rfl
    rw [List.foldl_cons, hadd, ih, List.reverse_cons, List.append_assoc]
    rfl

/-- Where no element is open, nodes are children of the block. -/
theorem foldl_add_block (nodes finished : List Node) :
    nodes.foldl OpenElements.add ⟨[], finished⟩ = ⟨[], nodes.reverse ++ finished⟩ := by
  induction nodes generalizing finished with
  | nil => rfl
  | cons node nodes ih =>
    have hadd : OpenElements.add ⟨[], finished⟩ node = ⟨[], node :: finished⟩ := rfl
    rw [List.foldl_cons, hadd, ih, List.reverse_cons, List.append_assoc]
    rfl

end OpenElements

/-- Reading from one cursor to another adds some nodes, whatever elements are open and
    whatever follows. -/
def Builds (c : Cursor) (nodes : List Node) (d : Cursor) : Prop :=
  ∃ tokens, Scan c tokens d ∧ ∀ block failure stop s more,
    contentOf block failure stop s (tokens ++ more) =
      contentOf block failure stop (nodes.foldl OpenElements.add s) more

namespace Builds

variable {c m e d : Cursor} {a b children : List Node} {text : List Char}

theorem nil (c : Cursor) : Builds c [] c := ⟨[], .nil c, fun _ _ _ _ _ => rfl⟩

theorem append (ha : Builds c a m) (hb : Builds m b d) : Builds c (a ++ b) d := by
  obtain ⟨ts, hts, hadds⟩ := ha
  obtain ⟨us, hus, haddb⟩ := hb
  refine ⟨ts ++ us, Scan.append_iff.2 ⟨m, hts, hus⟩, ?_⟩
  intro block failure stop s more
  rw [List.append_assoc, hadds, haddb, List.foldl_append]

/-- One token that is a node of its own. -/
theorem token {t : Token} {node : Node} (hc : c.rest ≠ []) (ht : ReadsToken c t d)
    (hadd : ∀ block failure stop s more, contentOf block failure stop s (t :: more) =
      contentOf block failure stop (s.add node) more) : Builds c [node] d :=
  ⟨[t], .cons hc ht (.nil d), hadd⟩

/-- An element without content. -/
theorem leaf {tag : OpenTag} (hopen : startsOpenTag c.rest = true) (ht : ReadsTag c tag text d)
    (hleaf : tag.isLeaf = true) : Builds c [.element tag [] d.offset] d := by
  have hc : c.rest ≠ [] := by rw [ht.rest]; simp
  have hraw : tag.isRawText = false := by rw [OpenTag.isRawText, hleaf]; rfl
  refine .token hc (.openTag hopen ht hraw) ?_
  intro block failure stop s more
  rw [contentOf, if_pos hleaf]

/-- An element around nodes: while they are read it is the innermost open one. -/
theorem element {tag : OpenTag} {close : CloseTag} (hopen : startsOpenTag c.rest = true)
    (ht : ReadsTag c tag text m) (hleaf : tag.isLeaf = false) (hraw : tag.isRawText = false)
    (hin : Builds m children e) (hclose : startsCloseTag e.rest = true)
    (hend : ReadsClose e close ['<', '/'] d)
    (hsame : sameName close.name.toList tag.name.toList = true) :
    Builds c [.element tag children d.offset] d := by
  obtain ⟨ts, hts, hadd⟩ := hin
  have hc : c.rest ≠ [] := by rw [ht.rest]; simp
  have he : e.rest ≠ [] := by rw [hend.rest]; simp
  have hlast : Scan e [.closeTag close] d := .cons he (.closeTag hclose hend) (.nil d)
  refine ⟨.openTag tag m.offset :: (ts ++ [.closeTag close]),
    .cons hc (.openTag hopen ht hraw) (Scan.append_iff.2 ⟨e, hts, hlast⟩), ?_⟩
  intro block failure stop s more
  calc contentOf block failure stop s (.openTag tag m.offset :: (ts ++ [.closeTag close]) ++ more)
      = contentOf block failure stop ⟨⟨tag, []⟩ :: s.frames, s.children⟩
          (ts ++ .closeTag close :: more) := by
        rw [List.cons_append, List.append_assoc, contentOf, if_neg (by simp [hleaf])]
        rfl
    _ = contentOf block failure stop ⟨⟨tag, children.reverse⟩ :: s.frames, s.children⟩
          (.closeTag close :: more) := by
        rw [hadd, OpenElements.foldl_add_frame, List.append_nil]
    _ = contentOf block failure stop (s.add (.element tag children d.offset)) more := by
        simp only [contentOf, OpenElements.innermost, hsame, if_true, List.reverse_reverse,
          hend.after]

end Builds

/-! ## §2. Where texts end -/

variable {tag : List Char} {attributes : List Written}

theorem endsText_printStart (htag : IsTagName tag) (r : List Char) :
    endsText (printStart tag attributes ++ r) = true := by
  simp [endsText, startsOpenTag_print htag]

theorem endsText_printEnd (htag : IsTagName tag) (r : List Char) :
    endsText (printEnd tag ++ r) = true := by
  simp [endsText, startsCloseTag_print htag]

/-- A text does not go on into another kind of tree. -/
theorem Tree.endsText_print {t : Tree} (h : t.WellFormed) (ht : t.isText = false)
    (r : List Char) : endsText (t.print ++ r) = true := by
  cases t with
  | selfClosed | void | raw | element =>
    -- each of them begins with its start tag
    rw [Tree.print, List.append_assoc]
    exact endsText_printStart h.1 _
  | text content => cases ht
  | interpolation content =>
    -- the two braces count only because their end follows
    have hclosed : ['}', '}'] <:+: ' ' :: (content ++ [' ', '}', '}']) ++ r :=
      ⟨' ' :: (content ++ [' ']), r, by simp⟩
    have hstarts : startsInterpolation ((Tree.interpolation content).print ++ r) = true :=
      Cursor.splitOn?_isSome_iff.2 hclosed
    rw [endsText, hstarts]
    rfl
  | comment content => simp [Tree.print, endsText, startsDeclaration]

/-- A text ends in front of trees that do not begin with a text. -/
theorem endsText_printAll {trees : List Tree} (h : AllWellFormed trees)
    (hhead : ∀ next ∈ trees.head?, next.isText = false) {r : List Char}
    (hr : endsText r = true) : endsText (printAll trees ++ r) = true := by
  cases trees with
  | nil => exact hr
  | cons next rest =>
    rw [printAll, List.append_assoc]
    exact Tree.endsText_print h.1 (hhead next rfl) _

/-! ## §3. One kind of tree at a time -/

theorem isLeaf_openTagAt (o : Nat) (selfClosing : Bool) :
    (openTagAt o tag attributes selfClosing).isLeaf = (selfClosing || isVoidName tag) := by
  simp only [OpenTag.isLeaf, openTagAt, isVoidName, String.toList_ofList]

theorem isRawText_openTagAt (o : Nat) :
    (openTagAt o tag attributes false).isRawText = (!isVoidName tag && isRawTextName tag) := by
  rw [OpenTag.isRawText, isLeaf_openTagAt]
  simp only [openTagAt, isRawTextName, String.toList_ofList, Bool.false_or]

theorem isRawTextName.isVoidName_eq_false (h : isRawTextName tag = true) :
    isVoidName tag = false := by
  have hall : ∀ name ∈ rawTextTags, voidTags.contains name = false := by decide
  exact hall _ (List.contains_iff_mem.1 h)

/-- The children of raw text are what stands between the tags, if that is anything. -/
theorem rawChildren_ofList (content : List Char) (start : Nat) :
    rawChildren (String.ofList content) start =
      if content = [] then [] else [.text (String.ofList content) start] := by
  unfold rawChildren
  cases content with
  | nil => rfl
  | cons x r => simp [String.isEmpty_iff]

theorem builds_selfClosed (htag : IsTagName tag) (h : ∀ w ∈ attributes, w.WellFormed) (o : Nat)
    (r : List Char) :
    Builds ⟨o, (Tree.selfClosed tag attributes).print ++ r⟩
      [(Tree.selfClosed tag attributes).node o]
      ⟨o + byteSize (Tree.selfClosed tag attributes).print, r⟩ := by
  have htext : (Tree.selfClosed tag attributes).print ++ r =
      printStart tag attributes ++ '/' :: '>' :: r := by simp [Tree.print]
  have hsize : o + byteSize (Tree.selfClosed tag attributes).print =
      o + byteSize (printStart tag attributes) + 2 := by
    rw [Tree.print, byteSize_append, ← Nat.add_assoc]
    rfl
  rw [Tree.node, htext, hsize]
  exact .leaf (startsOpenTag_print htag _) (readsTag_selfClosed htag h o r)
    (isLeaf_openTagAt o true)

theorem builds_void (htag : IsTagName tag) (h : ∀ w ∈ attributes, w.WellFormed)
    (hvoid : isVoidName tag = true) (o : Nat) (r : List Char) :
    Builds ⟨o, (Tree.void tag attributes).print ++ r⟩ [(Tree.void tag attributes).node o]
      ⟨o + byteSize (Tree.void tag attributes).print, r⟩ := by
  have htext : (Tree.void tag attributes).print ++ r =
      printStart tag attributes ++ '>' :: r := by simp [Tree.print]
  have hsize : o + byteSize (Tree.void tag attributes).print =
      o + byteSize (printStart tag attributes) + 1 := by
    rw [Tree.print, byteSize_append, ← Nat.add_assoc]
    rfl
  have hleaf : (openTagAt o tag attributes false).isLeaf = true := by
    rw [isLeaf_openTagAt, hvoid]
    rfl
  rw [Tree.node, htext, hsize]
  exact .leaf (startsOpenTag_print htag _) (readsTag_open htag h o r) hleaf

/-- The size of an element is that of its tags and of what stands between them. -/
theorem byteSize_between (o : Nat) (content : List Char) :
    o + byteSize (printStart tag attributes ++ '>' :: (content ++ printEnd tag)) =
      o + byteSize (printStart tag attributes) + 1 + byteSize content +
        byteSize (printEnd tag) := by
  have hone : '>'.utf8Size = 1 := rfl
  rw [byteSize_append, byteSize_cons, byteSize_append, hone]
  omega

theorem builds_raw (htag : IsTagName tag) (h : ∀ w ∈ attributes, w.WellFormed)
    (hraw : isRawTextName tag = true) {content : List Char}
    (hcontent : ¬ '<' :: '/' :: lowered tag <:+: lowered content) (o : Nat) (r : List Char) :
    Builds ⟨o, (Tree.raw tag attributes content).print ++ r⟩
      [(Tree.raw tag attributes content).node o]
      ⟨o + byteSize (Tree.raw tag attributes content).print, r⟩ := by
  have htext : (Tree.raw tag attributes content).print ++ r =
      printStart tag attributes ++ '>' :: (content ++ (printEnd tag ++ r)) := by
    simp [Tree.print]
  have hread := readRawText_print htag hraw hcontent (openTagAt o tag attributes false) rfl
    (o + byteSize (printStart tag attributes) + 1) r
  have hkind : (openTagAt o tag attributes false).isRawText = true := by
    rw [isRawText_openTagAt, hraw, isRawTextName.isVoidName_eq_false hraw]
    rfl
  rw [Tree.node, htext, Tree.print, byteSize_between, ← rawChildren_ofList]
  exact .token (by simp [printStart])
    (.rawElement (startsOpenTag_print htag _) (readsTag_open htag h o _) hkind hread)
    fun _ _ _ _ _ => rfl

/-- An element is read for itself if its children are. -/
theorem builds_element (htag : IsTagName tag) (h : ∀ w ∈ attributes, w.WellFormed)
    (hvoid : isVoidName tag = false) (hraw : isRawTextName tag = false) {children : List Tree}
    (o : Nat) (r : List Char)
    (hin : Builds ⟨o + byteSize (printStart tag attributes) + 1,
        printAll children ++ (printEnd tag ++ r)⟩
      (nodesFrom (o + byteSize (printStart tag attributes) + 1) children)
      ⟨o + byteSize (printStart tag attributes) + 1 + byteSize (printAll children),
        printEnd tag ++ r⟩) :
    Builds ⟨o, (Tree.element tag attributes children).print ++ r⟩
      [(Tree.element tag attributes children).node o]
      ⟨o + byteSize (Tree.element tag attributes children).print, r⟩ := by
  have htext : (Tree.element tag attributes children).print ++ r =
      printStart tag attributes ++ '>' :: (printAll children ++ (printEnd tag ++ r)) := by
    simp [Tree.print]
  have hleaf : (openTagAt o tag attributes false).isLeaf = false := by
    rw [isLeaf_openTagAt, hvoid]
    rfl
  have hkind : (openTagAt o tag attributes false).isRawText = false := by
    rw [isRawText_openTagAt, hvoid, hraw]
    rfl
  rw [Tree.node, htext, Tree.print, byteSize_between]
  exact .element (startsOpenTag_print htag _) (readsTag_open htag h o _) hleaf hkind hin
    (startsCloseTag_print htag r) (readsClose_print htag _ r) (decide_eq_true rfl)

theorem builds_text {content : List Char} (hne : content ≠ []) (hmark : '<' ∉ content)
    (hbrace : '{' ∉ content) (o : Nat) {r : List Char} (hr : endsText r = true) :
    Builds ⟨o, content ++ r⟩ [.text (String.ofList content) o] ⟨o + byteSize content, r⟩ := by
  have hrun : textRun (content ++ r) = content := textRun_print hne hmark hbrace hr
  have hstarts : endsText (content ++ r) = false := by
    obtain ⟨x, t, rfl⟩ := List.exists_cons_of_ne_nil hne
    refine endsText_eq_false ?_ ?_
    · rintro rfl
      exact hmark List.mem_cons_self
    · rintro rfl
      exact hbrace List.mem_cons_self
  have htoken : ReadsToken ⟨o, content ++ r⟩ _ _ := .text hstarts
  rw [hrun, Cursor.skip_append rfl] at htoken
  exact .token (by simp [hne]) htoken fun _ _ _ _ _ => rfl

theorem builds_interpolation {content : List Char} (htrim : Text.trim content = content)
    (hclosed : ¬ ['}', '}'] <:+: content) (o : Nat) (r : List Char) :
    Builds ⟨o, (Tree.interpolation content).print ++ r⟩ [(Tree.interpolation content).node o]
      ⟨o + byteSize (Tree.interpolation content).print, r⟩ := by
  have hsize : o + byteSize (Tree.interpolation content).print =
      o + 1 + 1 + byteSize (' ' :: (content ++ [' ', '}', '}'])) := by
    have hone : '{'.utf8Size = 1 := rfl
    rw [Tree.print, byteSize_cons, byteSize_cons, hone]
    omega
  have hstop := takeUntil?_interpolation hclosed (o + 1 + 1) r
  have htoken : ReadsToken ⟨o, (Tree.interpolation content).print ++ r⟩ _ _ :=
    .interpolation rfl hstop
  rw [trim_pad htrim] at htoken
  rw [hsize]
  exact .token (by simp [Tree.print]) htoken fun _ _ _ _ _ => rfl

theorem builds_comment {content : List Char} (hclosed : ¬ ['-', '-', '>'] <:+: content)
    (o : Nat) (r : List Char) :
    Builds ⟨o, (Tree.comment content).print ++ r⟩ [(Tree.comment content).node o]
      ⟨o + byteSize (Tree.comment content).print, r⟩ := by
  have hsize : o + byteSize (Tree.comment content).print =
      o + 4 + byteSize (content ++ ['-', '-', '>']) := by
    have h1 : '<'.utf8Size = 1 := rfl
    have h2 : '!'.utf8Size = 1 := rfl
    have h3 : '-'.utf8Size = 1 := rfl
    rw [Tree.print, byteSize_cons, byteSize_cons, byteSize_cons, byteSize_cons, h1, h2, h3]
    omega
  have hstop := takeUntil?_comment hclosed (o + 4) r
  rw [hsize]
  exact .token (by simp [Tree.print]) (.comment rfl hstop) fun _ _ _ _ _ => rfl

/-! ## §4. All trees -/

mutual

/-- The text of a tree is read for its node; a text needs something behind it that ends
    it. -/
theorem Tree.builds (t : Tree) (h : t.WellFormed) (o : Nat) (r : List Char)
    (hr : t.isText = true → endsText r = true) :
    Builds ⟨o, t.print ++ r⟩ [t.node o] ⟨o + byteSize t.print, r⟩ :=
  match t with
  | .selfClosed _ _ => builds_selfClosed h.1 h.2 o r
  | .void _ _ => builds_void h.1 h.2.1 h.2.2 o r
  | .raw _ _ _ => builds_raw h.1 h.2.1 h.2.2.1 h.2.2.2 o r
  | .element _ _ children =>
    builds_element h.1 h.2.1 h.2.2.1 h.2.2.2.1 o r
      (builds_all children h.2.2.2.2 _ _ (endsText_printEnd h.1 r))
  | .text _ => builds_text h.1 h.2.1 h.2.2 o (hr rfl)
  | .interpolation _ => builds_interpolation h.1 h.2 o r
  | .comment _ => builds_comment h o r

/-- The text of trees is read for their nodes, where something follows that ends a text. -/
theorem builds_all (trees : List Tree) (h : AllWellFormed trees) (o : Nat) (r : List Char)
    (hr : endsText r = true) :
    Builds ⟨o, printAll trees ++ r⟩ (nodesFrom o trees) ⟨o + byteSize (printAll trees), r⟩ :=
  match trees with
  | [] => .nil _
  | tree :: rest => by
    obtain ⟨htree, hapart, hrest⟩ := h
    have hfirst := tree.builds htree o (printAll rest ++ r)
      fun htext => endsText_printAll hrest (hapart htext) hr
    have htail := builds_all rest hrest (o + byteSize tree.print) r hr
    have hboth := hfirst.append htail
    rw [printAll, nodesFrom, List.append_assoc, byteSize_append, ← Nat.add_assoc]
    exact hboth

end

/-! ## §5. Components -/

/-- The content of a block ends where its printed end tag begins. -/
theorem contentEnd_closeTagAt (hmark : '<' ∉ tag) (o : Nat) (r : List Char) :
    (closeTagAt o tag r).contentEnd = o := by
  refine (closeTagAt o tag r).contentEnd_eq_start_iff.2 fun hinfix => hmark ?_
  exact hinfix.subset List.mem_cons_self

/-- The content of a block whose start tag ends at a cursor. -/
def contentAt (block : String) (c : Cursor) : Except Error Content :=
  contentOf block (tokensFrom c).error (tokensFrom c).stop {} (tokensFrom c).tokens

/-- Behind nodes that are read for themselves, an end tag ends the block or is an error. -/
theorem contentAt_of_builds {c e d : Cursor} {nodes : List Node} {close : CloseTag}
    (h : Builds c nodes e) (hstarts : startsCloseTag e.rest = true)
    (hclose : ReadsClose e close ['<', '/'] d) (block : String) :
    contentAt block c =
      if sameName close.name.toList block.toList then .ok ⟨nodes, close⟩
      else .error ⟨.unexpectedEndTag close.name block, close.start⟩ := by
  obtain ⟨tokens, hscan, hadd⟩ := h
  have he : e.rest ≠ [] := by rw [hclose.rest]; simp
  have hlast := Scan.cons he (.closeTag hstarts hclose) (.nil d)
  have hrun := tokensFrom_of_scan (Scan.append_iff.2 ⟨e, hscan, hlast⟩)
  rw [contentAt, hrun, List.append_assoc, hadd, OpenElements.foldl_add_block]
  simp [contentOf, OpenElements.innermost]

/-- Printed trees and the end tag of their block are the content of that block. -/
theorem contentOf_print {trees : List Tree} (h : AllWellFormed trees) (htag : IsTagName tag)
    (o : Nat) (r : List Char) :
    let run := tokensFrom ⟨o, printAll trees ++ (printEnd tag ++ r)⟩
    contentOf (String.ofList tag) run.error run.stop {} run.tokens =
      .ok ⟨nodesFrom o trees, closeTagAt (o + byteSize (printAll trees)) tag r⟩ := by
  intro run
  have hcontent := contentAt_of_builds (builds_all trees h o _ (endsText_printEnd htag r))
    (startsCloseTag_print htag r) (readsClose_print htag (o + byteSize (printAll trees)) r)
    (String.ofList tag)
  have hsame : sameName (String.ofList tag).toList (String.ofList tag).toList = true :=
    decide_eq_true rfl
  rw [show (closeTagAt (o + byteSize (printAll trees)) tag r).name = String.ofList tag from rfl,
    if_pos hsame] at hcontent
  exact hcontent

theorem isTagName_template : IsTagName "template".toList := by decide

/-- A template is read behind its start tag if its content is. -/
theorem readBlockBody_template (c : Cursor) :
    readBlockBody {} (openTagAt 0 "template".toList [] false) c =
      (contentAt "template" c).map fun content =>
        ({ template := some ⟨none, content.children, c.offset, content.close.contentEnd⟩
           blocks := ["template"] },
          content.close.after) := by
  have hname : (openTagAt 0 "template".toList [] false).name = "template" := rfl
  have hself : (openTagAt 0 "template".toList [] false).selfClosing = false := rfl
  have hkind : (openTagAt 0 "template".toList [] false).isTemplate = true := by decide
  unfold readBlockBody contentAt
  simp only [hname, hself, hkind]
  cases contentOf "template" (tokensFrom c).error (tokensFrom c).stop {} (tokensFrom c).tokens with
  | error e => rfl
  | ok content => rfl

/-- Behind its start tag, a template is read up to its printed end tag. -/
theorem readBlockBody_print {trees : List Tree} (h : AllWellFormed trees) (o : Nat) :
    readBlockBody {} (openTagAt 0 "template".toList [] false)
        ⟨o, printAll trees ++ printEnd "template".toList⟩ =
      .ok ({ template := some ⟨none, nodesFrom o trees, o, o + byteSize (printAll trees)⟩
             blocks := ["template"] },
        ⟨o + byteSize (printAll trees) + byteSize (printEnd "template".toList), []⟩) := by
  have hcontent := contentOf_print h isTagName_template o []
  have hstop := contentEnd_closeTagAt (show '<' ∉ "template".toList by decide)
    (o + byteSize (printAll trees)) []
  rw [List.append_nil, show String.ofList "template".toList = "template" from rfl] at hcontent
  rw [readBlockBody_template, show contentAt "template" _ = _ from hcontent, ← hstop]
  rfl

/-- Parsing undoes printing: a component that holds the text of well-formed trees is read
    as one template block whose nodes are those of the trees. -/
theorem parse_print (trees : List Tree) (h : AllWellFormed trees) :
    Component.parse ("<template>".toList ++ (printAll trees ++ "</template>".toList)) =
      .ok { template := some ⟨none, nodesFrom 10 trees, 10, 10 + byteSize (printAll trees)⟩
            blocks := ["template"] } := by
  -- the tags of the block are printed as those of an element
  have htext : "<template>".toList ++ (printAll trees ++ "</template>".toList) =
      printStart "template".toList [] ++ '>' :: (printAll trees ++ printEnd "template".toList) :=
    rfl
  have hopen : startsOpenTag (printStart "template".toList [] ++
      '>' :: (printAll trees ++ printEnd "template".toList)) = true :=
    startsOpenTag_print isTagName_template _
  have htag := readsTag_open isTagName_template (List.forall_mem_nil Written.WellFormed) 0
    (printAll trees ++ printEnd "template".toList)
  have hpart := readsPart_of_readBlockBody hopen htag (readBlockBody_print h 10)
  rw [htext]
  exact parse_eq_ok_iff.2 ⟨_, .cons (by simp [printStart]) hpart (.nil _ _), rfl⟩

/-- Elements in elements, a written reference, an attribute without a value, raw text that
    holds a `</`, and a void element. -/
theorem parse_print_nested :
    Component.parse
        ("<template><b id=\"&lt;\" a>\x7b\x7b y \x7d\x7d".toList ++
          "<Title>p</b</Title></b><br/>x</template>".toList) =
      .ok { template := some ⟨none,
              [.element ⟨"b", 10, 12, [.attribute ⟨"id", some "<", 13⟩,
                  .attribute ⟨"a", none, 23⟩], false⟩
                [.interpolation "y" 25,
                 .element ⟨"Title", 32, 38, [], false⟩ [.text "p</b" 39] 51] 55,
               .element ⟨"br", 55, 58, [], true⟩ [] 60, .text "x" 60], 10, 61⟩
            blocks := ["template"] } := by
  have hvalue : Entry.ofName "id".toList (some "&lt;".toList) 13 =
      .attribute ⟨"id", some "<", 13⟩ := by
    have hread := @Text.decodeReferences_reference ['l', 't'] [] '<' (by decide) rfl
    rw [Text.decodeReferences.eq_1] at hread
    exact congrArg (fun value => Entry.attribute ⟨"id", some (String.ofList value), 13⟩) hread
  rw [← hvalue]
  exact parse_print
    [.element "b".toList [⟨"id".toList, some "&lt;".toList⟩, ⟨"a".toList, none⟩]
      [.interpolation "y".toList, .raw "Title".toList [] "p</b".toList],
     .selfClosed "br".toList [], .text "x".toList] (by decide)

end Provenance.Template
