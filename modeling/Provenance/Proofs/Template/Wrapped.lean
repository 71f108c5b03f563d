import Provenance.Tag
import Provenance.Proofs.Template.Inside
import Provenance.Proofs.Template.Later
import Provenance.Proofs.Text.Letter

/-! # Elements named like a component

  A name with an upper-case letter in front stands for a component of the project.  This
  module says what becomes of the content of a template when it is put inside an element of
  such a name.

  The tables of void and of raw-text tags are searched without regard to case, so a few
  names are taken for those of the platform: `Link` has no content, and that of `Title` is
  one text.

  Main statement: `parse_inElement_iff`.  The content is found inside the element, moved by
  the size of its start tag, if and only if the name is none of these, or is that of a
  raw-text tag and the content was one text anyway.
-/

namespace Provenance.Template

open Text (Cursor byteSize byteSize_append byteSize_cons)
open Text.Cursor (Takes)
open Insertion (moved)

/-! ## §1. Templates around a text -/

/-- A component that is one template. -/
def inTemplate (content : List Char) : List Char :=
  "<template>".toList ++ (content ++ "</template>".toList)

/-- The template a text is read as, behind its start tag. -/
theorem contentAt_of_parse {s : List Char} {component : Component}
    (h : Component.parse ("<template>".toList ++ s) = .ok component) :
    ∃ content, contentAt "template" ⟨10, s⟩ = .ok content ∧
      component.template = some ⟨none, content.children, 10, content.close.contentEnd⟩ := by
  have hopen : startsOpenTag (printStart "template".toList [] ++ '>' :: s) = true :=
    startsOpenTag_print isTagName_template _
  have htag := readsTag_open isTagName_template (List.forall_mem_nil Written.WellFormed) 0 s
  obtain ⟨d, hparts, hend⟩ := parse_eq_ok_iff.1 h
  cases hparts with
  | nil => cases hend
  | @cons _ k' _ _ m _ hc hp tail =>
    -- the first part is the block of the start tag
    have hread := (htag.readPart (k := {}) hopen).symm.trans hp.readPart
    rw [readBlockBody_template] at hread
    cases hcontent : contentAt "template"
        ⟨0 + byteSize (printStart "template".toList []) + 1, s⟩ with
    | error e =>
      rw [hcontent] at hread
      cases hread
    | ok content =>
      rw [hcontent] at hread
      obtain ⟨rfl, rfl⟩ := Prod.mk.inj (Except.ok.inj hread)
      exact ⟨content, hcontent, tail.template_eq rfl⟩

/-- A template around a text that is read for its nodes. -/
theorem parse_of_builds {content : List Char} {nodes : List Node}
    (h : Builds ⟨10, content ++ "</template>".toList⟩ nodes
      ⟨10 + byteSize content, "</template>".toList⟩) :
    Component.parse (inTemplate content) =
      .ok { template := some ⟨none, nodes, 10, 10 + byteSize content⟩, blocks := ["template"] } := by
  have htext : inTemplate content = printStart "template".toList [] ++
      '>' :: (content ++ "</template>".toList) := rfl
  have hopen : startsOpenTag (printStart "template".toList [] ++
      '>' :: (content ++ "</template>".toList)) = true :=
    startsOpenTag_print isTagName_template _
  have htag := readsTag_open isTagName_template (List.forall_mem_nil Written.WellFormed) 0
    (content ++ "</template>".toList)
  have hclose := readsClose_print isTagName_template (10 + byteSize content) []
  rw [List.append_nil] at hclose
  have hcontent := contentAt_of_builds h (startsCloseTag_print isTagName_template []) hclose "template"
  have hsame : sameName "template".toList "template".toList = true := decide_eq_true rfl
  rw [show (closeTagAt (10 + byteSize content) "template".toList []).name = "template" from rfl,
    if_pos hsame] at hcontent
  have hstop := contentEnd_closeTagAt (show '<' ∉ "template".toList by decide)
    (10 + byteSize content) []
  have hbody := readBlockBody_template ⟨10, content ++ "</template>".toList⟩
  rw [hcontent] at hbody
  have hpart := readsPart_of_readBlockBody hopen htag hbody
  rw [← hstop, htext]
  exact parse_eq_ok_iff.2 ⟨_, .cons (by simp [printStart]) hpart (.nil _ _), rfl⟩

/-! ## §2. Texts inside an element -/

/-- Whether a name is that of a component: a capital letter, then letters and digits. -/
def isComponentName : List Char → Bool
  | [] => false
  | x :: r => x.isUpper && r.all Char.isAlphanum

theorem isTagName_of_isComponentName {name : List Char} (h : isComponentName name = true) :
    IsTagName name := by
  cases name with
  | nil => cases h
  | cons x r =>
    obtain ⟨hx, hr⟩ := Bool.and_eq_true_iff.1 h
    have halpha : x.isAlpha = true := Bool.or_eq_true_iff.2 (.inl hx)
    refine ⟨⟨x, r, rfl, halpha⟩, ?_⟩
    intro y hy
    have hy : y.isAlphanum = true := by
      rcases List.mem_cons.1 hy with rfl | hy
      · exact Bool.or_eq_true_iff.2 (.inl halpha)
      · exact List.all_eq_true.1 hr y hy
    -- none of the characters that end a name is a letter or a digit
    have hall : [' ', '\t', '\n', '\x0c', '\r', '>', '/'].all (!·.isAlphanum) = true := by decide
    rw [← Bool.not_eq_false]
    intro hpart
    have hnot := List.all_eq_true.1 hall y (isTagNamePart_eq_false_iff.1 hpart)
    rw [hy] at hnot
    cases hnot

/-- An element with a text between its tags. -/
def inElement (name content : List Char) : List Char :=
  printStart name [] ++ '>' :: (content ++ printEnd name)

/-- What is inserted into a template to put its content inside an element.  The end tag
    shares its mark with that of the template. -/
def wrapping (name content : List Char) : List Insertion :=
  [⟨9, '>' :: '<' :: name⟩, ⟨10 + byteSize content + 2, name ++ ['>', '<', '/']⟩]

section Wrapping

variable {name content v : List Char} {c : Cursor}

theorem moved_wrapping {p : Nat} (hlow : 10 ≤ p) (hhigh : p ≤ 10 + byteSize content) :
    moved (wrapping name content) p = p + (byteSize name + 2) := by
  have hone : '>'.utf8Size = 1 := rfl
  have hone' : '<'.utf8Size = 1 := rfl
  rw [moved, wrapping, Insertion.sizeBefore_cons, Insertion.sizeBefore_cons, if_pos (by simp; omega),
    if_neg (by simp; omega), byteSize_cons, byteSize_cons, hone, hone']
  show p + (1 + (1 + byteSize name) + (0 + 0)) = _
  omega

/-- Behind the start tag of the template nothing changes up to its end tag, in front of
    which the end tag of the element appears. -/
theorem edited_wrapping (name : List Char)
    (hv : Takes c v ⟨10 + byteSize content, "</template>".toList⟩) (hc : 10 ≤ c.offset) :
    c.edited (wrapping name content) =
      ⟨c.offset + (byteSize name + 2), v ++ (printEnd name ++ "</template>".toList)⟩ := by
  have hoff := hv.offset
  simp only at hoff
  have hmark : byteSize ['<', '/'] = 2 := rfl
  rw [Cursor.edited, moved_wrapping hc (by omega), wrapping,
    Insertion.edit_cons_of_lt (by simp; omega), hv.rest, Insertion.edit_append _ (by simp; omega),
    ← hoff, show "</template>".toList = ['<', '/'] ++ "template>".toList from rfl,
    Insertion.edit_append _ (by simp [hmark]), hmark,
    Insertion.edit_cons_self ⟨10 + byteSize content + 2, name ++ ['>', '<', '/']⟩,
    Insertion.edit_of_lt (by simp)]
  simp [printEnd]

theorem apart_wrapping (name : List Char) (hc : 10 ≤ c.offset) :
    Apart (wrapping name content) c ⟨10 + byteSize content, "</template>".toList⟩ := by
  intro x hx
  simp only [wrapping, List.mem_cons, List.not_mem_nil, or_false] at hx
  rcases hx with rfl | rfl
  · exact .inl (by simp; omega)
  · exact .inr ⟨[], '/', "template>".toList, rfl, Nat.le_refl _⟩

/-- The tokens of a content whose end tag begins right behind it. -/
theorem scan_content {body : Content}
    (hbody : contentAt "template" ⟨10, content ++ "</template>".toList⟩ = .ok body)
    (hclose : body.close.start = 10 + byteSize content) :
    ∃ ts d, Scan ⟨10, content ++ "</template>".toList⟩ ts
        ⟨10 + byteSize content, "</template>".toList⟩ ∧
      ReadsClose ⟨10 + byteSize content, "</template>".toList⟩ body.close ['<', '/'] d ∧
      contentOf "template" none 0 {} (ts ++ [.closeTag body.close]) = .ok body ∧
      (contentOf "template" none 0 {} ts).toOption = none := by
  obtain ⟨ts, e, d, hscan, -, hread, -, hok, hnone⟩ := contentAt_eq_ok hbody
  obtain ⟨w, hw⟩ := hscan.takes
  -- the scan takes as many bytes as the content has
  have hoff : e.offset = 10 + byteSize content := hread.start.symm.trans hclose
  have hsize : byteSize content = byteSize w := by
    have := hw.offset
    simp only at this
    omega
  obtain ⟨-, hrest⟩ := Text.append_inj_of_byteSize_eq hw.rest hsize
  obtain rfl : e = ⟨10 + byteSize content, "</template>".toList⟩ := by
    obtain ⟨o, r⟩ := e
    simp only at hoff hrest
    rw [hoff, hrest]
  exact ⟨ts, d, hscan, hread, hok, hnone⟩

/-- The nodes of a content are read behind the start tag of an element. -/
theorem builds_content {body : Content} (hname : isComponentName name = true)
    (hbraces : ¬ ['{', '{'] <:+: content)
    (hbody : contentAt "template" ⟨10, content ++ "</template>".toList⟩ = .ok body)
    (hclose : body.close.start = 10 + byteSize content) :
    Builds ⟨10 + (byteSize name + 2), content ++ (printEnd name ++ "</template>".toList)⟩
      (movedNodes (byteSize name + 2) body.children)
      ⟨10 + byteSize content + (byteSize name + 2), printEnd name ++ "</template>".toList⟩ := by
  obtain ⟨ts, d, hscan, hread, hok, hnone⟩ := scan_content hbody hclose
  have hall : Takes ⟨10, content ++ "</template>".toList⟩ content
      ⟨10 + byteSize content, "</template>".toList⟩ := ⟨rfl, rfl⟩
  have hstands : Cursor.StandsIn ⟨10, content ++ "</template>".toList⟩ (inTemplate content) :=
    ⟨"<template>".toList, rfl, rfl⟩
  have hquiet : ¬ ['{', '{'] <:+: content ++ "</template>".toList := fun hin =>
    hbraces (Text.pair_infix_of_append (by decide) hin)
  have hedited := edited_wrapping name (.refl ⟨10 + byteSize content, "</template>".toList⟩)
    (Nat.le_add_right 10 (byteSize content))
  have hend : endsText (printEnd name ++ "</template>".toList) = true :=
    endsText_printEnd (isTagName_of_isComponentName hname) _
  have hbuilds := builds_moved hstands hscan rfl hread hok hnone
    (apart_wrapping name (Nat.le_refl 10)) hquiet (by rw [hedited]; exact hend)
    fun p => moved_wrapping
  rw [edited_wrapping name hall (Nat.le_refl 10), hedited] at hbuilds
  exact hbuilds

end Wrapping

/-! ## §3. Contents that are one text -/

theorem OpenElements.finished_suffix (s : OpenElements) (node : Node) :
    s.children <:+ (s.add node).children := by
  cases hframes : s.frames with
  | nil =>
    simp only [OpenElements.add, hframes]
    exact List.suffix_cons node s.children
  | cons frame outer =>
    simp only [OpenElements.add, hframes]
    exact List.suffix_refl s.children

/-- The nodes of a block that are finished stay its first children. -/
theorem contentOf_finished {block : String} {failure : Option Error} {stop : Nat}
    {s : OpenElements} {ts : List Token} {content : Content}
    (h : contentOf block failure stop s ts = .ok content) :
    s.children.reverse <+: content.children := by
  induction ts generalizing s with
  | nil => simp [contentOf] at h
  | cons t ts ih =>
    have step : ∀ {s' : OpenElements}, s.children <:+ s'.children →
        contentOf block failure stop s' ts = .ok content →
        s.children.reverse <+: content.children :=
      fun hs h => (List.reverse_prefix.2 hs).trans (ih h)
    cases t with
    | comment text start | text text start | interpolation text start =>
      exact step (s.finished_suffix _) h
    | rawElement tag text start elementStop => exact step (s.finished_suffix _) h
    | declaration => exact ih h
    | openTag tag tagStop =>
      rw [contentOf] at h
      split at h
      · exact step (s.finished_suffix _) h
      · have hpushed := ih h
        exact hpushed
    | closeTag tag =>
      rw [contentOf] at h
      split at h
      · cases hframes : s.frames with
        | nil =>
          rw [hframes] at h
          obtain rfl := Except.ok.inj h
          exact List.prefix_refl _
        | cons frame outer =>
          rw [hframes] at h
          exact step (OpenElements.finished_suffix ⟨outer, s.children⟩ _) h
      · cases h

/-- A text token takes its text, and nothing in it ends a text. -/
theorem ReadsToken.text_run {c d : Cursor} {content : String} {start : Nat}
    (h : ReadsToken c (.text content start) d) :
    start = c.offset ∧ Takes c content.toList d ∧
      ∀ u v, content.toList = u ++ v → v ≠ [] → Template.endsText (v ++ d.rest) = false := by
  cases h with
  | text hends =>
    obtain ⟨r, hr, -, hin⟩ := textRun_spec c.rest
    have htakes := takes_textRun c
    have hrest : (c.skip (textRun c.rest).length).rest = r :=
      List.append_cancel_left (htakes.rest.symm.trans hr)
    rw [String.toList_ofList]
    refine ⟨rfl, htakes, fun u v huv hv => ?_⟩
    cases u with
    | nil =>
      -- the text begins here
      rw [hrest, show v = textRun c.rest from huv.symm, ← hr]
      exact hends
    | cons x u =>
      rw [hrest]
      exact hin (x :: u) v huv (by simp) hv

/-- Where a text is all that a block holds, reading begins with that text. -/
theorem reads_text {block : String} {c e d : Cursor} {ts : List Token} {content : Content}
    {text : List Char} (hscan : Scan c ts e) (hread : Scan e [.closeTag content.close] d)
    (hok : contentOf block none 0 {} (ts ++ [.closeTag content.close]) = .ok content)
    (hchildren : content.children = rawChildren (String.ofList text) c.offset) :
    ∃ m front back, ts = front ++ back ∧ Takes c text m ∧ Scan m back e ∧
      (∀ more, contentOf block none 0 {} (front ++ more) =
        contentOf block none 0 ⟨[], content.children⟩ more) ∧
      ∀ u v, text = u ++ v → v ≠ [] → endsText (v ++ m.rest) = false := by
  rw [rawChildren_ofList] at hchildren
  by_cases htext : text = []
  · -- nothing is read
    rw [if_pos htext] at hchildren
    subst htext
    refine ⟨c, [], ts, rfl, .refl c, hscan, fun more => by rw [hchildren]; rfl, ?_⟩
    intro u v huv hv
    exact absurd (List.append_eq_nil_iff.1 huv.symm).2 hv
  · rw [if_neg htext] at hchildren
    -- the text is one of the tokens
    have hempty : ({} : OpenElements).NoRawText := by
      intro frame hframe
      cases hframe
    obtain ⟨front, more, htokens, htexts⟩ :=
      (Scan.append_iff.2 ⟨e, hscan, hread⟩).texts hempty hok
    rw [hchildren] at htexts
    have hmem : Token.text (String.ofList text) c.offset ∈ front := by
      rw [← mem_textTokens]
      have hin : (String.ofList text, c.offset) ∈ [(String.ofList text, c.offset)] :=
        List.mem_cons_self
      rwa [show [(String.ofList text, c.offset)] = textTokens front from htexts] at hin
    have hmem' : Token.text (String.ofList text) c.offset ∈ ts := by
      have hall : Token.text (String.ofList text) c.offset ∈ ts ++ [.closeTag content.close] := by
        rw [htokens]
        exact List.mem_append_left _ hmem
      rcases List.mem_append.1 hall with h | h
      · exact h
      · cases List.mem_singleton.1 h
    -- it begins where reading begins, so it is the first one
    obtain ⟨before, behind, rfl⟩ := List.append_of_mem hmem'
    obtain ⟨b, hbefore, hback⟩ := Scan.append_iff.1 hscan
    cases hback with
    | @cons _ m _ _ _ hb ht hs =>
      obtain ⟨hstart, htakes, hends⟩ := ht.text_run
      rw [String.toList_ofList] at htakes hends
      obtain rfl := hbefore.eq_nil hstart.symm
      cases hbefore with
      | nil =>
        refine ⟨m, [.text (String.ofList text) c.offset], behind, rfl, htakes, hs, ?_, hends⟩
        intro more
        rw [hchildren]
        rfl

/-- An end tag of a name up to case begins with the marks of an end tag. -/
theorem startsCloseTag_of_prefix {name v : List Char} (hname : IsTagName name)
    (h : '<' :: '/' :: lowered name <+: lowered v) (r : List Char) :
    startsCloseTag (v ++ r) = true := by
  obtain ⟨x, t, rfl, hx⟩ := hname.head
  obtain ⟨s, hs⟩ := h
  obtain ⟨a, v, rfl, ha, hs⟩ := List.map_eq_cons_iff.1 hs.symm
  obtain ⟨b, v, rfl, hb, hs⟩ := List.map_eq_cons_iff.1 hs
  obtain ⟨y, v, rfl, hy, -⟩ := List.map_eq_cons_iff.1 hs
  obtain rfl := eq_of_toLower_eq (by decide) ha
  obtain rfl := eq_of_toLower_eq (by decide) hb
  -- the name begins with a letter, of either case
  show y.isAlpha = true
  rw [← Text.isAlpha_toLower, hy, Text.isAlpha_toLower]
  exact hx

/-- A text that is a node of its own holds no end tag. -/
theorem not_infix_of_endsText {name text r : List Char} (hname : IsTagName name)
    (h : ∀ u v, text = u ++ v → v ≠ [] → endsText (v ++ r) = false) :
    ¬ '<' :: '/' :: lowered name <:+: lowered text := by
  rintro ⟨a, b, hab⟩
  rw [List.append_assoc] at hab
  obtain ⟨u, v, rfl, -, hv⟩ := List.map_eq_append_iff.1 hab.symm
  have hstarts := startsCloseTag_of_prefix hname ⟨b, hv.symm⟩ r
  have hne : v ≠ [] := by
    rintro rfl
    cases hv
  have hgo := h u v rfl hne
  rw [endsText, hstarts] at hgo
  simp at hgo

/-! ## §4. Elements around a content -/

/-- A text parses to a component whose template holds one element and nothing else. -/
def HoldsElement (source name : List Char) (children : List Node) : Prop :=
  ∃ component block tag stop, Component.parse source = .ok component ∧
    component.template = some block ∧ block.children = [.element tag children stop] ∧
    tag.name = String.ofList name

section Element

variable {name content : List Char} {body : Content}

theorem inElement_append (name content r : List Char) :
    inElement name content ++ r = printStart name [] ++ '>' :: (content ++ (printEnd name ++ r)) := by
  simp [inElement]

theorem byteSize_printStart (name : List Char) : byteSize (printStart name []) = byteSize name + 1 := by
  have hone : '<'.utf8Size = 1 := rfl
  rw [printStart, List.flatMap_nil, List.append_nil, byteSize_cons, hone]
  omega

theorem byteSize_inElement (name content : List Char) :
    10 + byteSize (inElement name content) =
      10 + byteSize content + (byteSize name + 2) + byteSize (printEnd name) := by
  have hone : '>'.utf8Size = 1 := rfl
  rw [inElement, byteSize_append, byteSize_cons, byteSize_append, byteSize_printStart, hone]
  omega

/-- The start tag of the element ends in front of the content. -/
theorem readsTag_inElement (hname : IsTagName name) (content r : List Char) :
    ReadsTag ⟨10, inElement name content ++ r⟩ (openTagAt 10 name [] false)
      ('>' :: (content ++ (printEnd name ++ r)))
      ⟨10 + (byteSize name + 2), content ++ (printEnd name ++ r)⟩ := by
  have htag := readsTag_open hname (List.forall_mem_nil Written.WellFormed) 10
    (content ++ (printEnd name ++ r))
  rw [byteSize_printStart, ← inElement_append] at htag
  exact htag

theorem startsOpenTag_inElement (hname : IsTagName name) (content r : List Char) :
    startsOpenTag (inElement name content ++ r) = true := by
  rw [inElement_append]
  exact startsOpenTag_print hname _

/-- An element whose children are read for themselves is all that its template holds. -/
theorem holdsElement_of_builds {children : List Node} {tag : OpenTag} {stop : Nat}
    (h : Builds ⟨10, inElement name content ++ "</template>".toList⟩ [.element tag children stop]
      ⟨10 + byteSize (inElement name content), "</template>".toList⟩)
    (htag : tag.name = String.ofList name) :
    HoldsElement (inTemplate (inElement name content)) name children :=
  ⟨_, _, tag, stop, parse_of_builds h, rfl, rfl, htag⟩

/-- The content is found inside an element of a name that no table holds. -/
theorem holdsElement_of_normal (hname : isComponentName name = true)
    (hbraces : ¬ ['{', '{'] <:+: content)
    (hbody : contentAt "template" ⟨10, content ++ "</template>".toList⟩ = .ok body)
    (hclose : body.close.start = 10 + byteSize content) (hvoid : isVoidName name = false)
    (hraw : isRawTextName name = false) :
    HoldsElement (inTemplate (inElement name content)) name
      (movedNodes (byteSize name + 2) body.children) := by
  have htag := isTagName_of_isComponentName hname
  have hleaf : (openTagAt 10 name [] false).isLeaf = false := by
    rw [isLeaf_openTagAt, hvoid]
    rfl
  have hkind : (openTagAt 10 name [] false).isRawText = false := by
    rw [isRawText_openTagAt, hvoid, hraw]
    rfl
  have helement := Builds.element (startsOpenTag_inElement htag content _)
    (readsTag_inElement htag content _) hleaf hkind (builds_content hname hbraces hbody hclose)
    (startsCloseTag_print htag _) (readsClose_print htag _ "</template>".toList)
    (decide_eq_true rfl)
  rw [← byteSize_inElement] at helement
  exact holdsElement_of_builds helement rfl

/-- An element of a void tag has no content, so its end tag is an error. -/
theorem not_parse_of_void (hname : isComponentName name = true)
    (hbraces : ¬ ['{', '{'] <:+: content)
    (hbody : contentAt "template" ⟨10, content ++ "</template>".toList⟩ = .ok body)
    (hclose : body.close.start = 10 + byteSize content) (hvoid : isVoidName name = true)
    (component : Component) :
    Component.parse (inTemplate (inElement name content)) ≠ .ok component := by
  intro hparse
  have htag := isTagName_of_isComponentName hname
  have hleaf : (openTagAt 10 name [] false).isLeaf = true := by
    rw [isLeaf_openTagAt, hvoid]
    rfl
  have hall := (Builds.leaf (startsOpenTag_inElement htag content _)
    (readsTag_inElement htag content "</template>".toList) hleaf).append
      (builds_content hname hbraces hbody hclose)
  have hcontent := contentAt_of_builds hall (startsCloseTag_print htag _)
    (readsClose_print htag _ "</template>".toList) "template"
  -- no void tag has the name of the block
  have hother : sameName name "template".toList = false := by
    have hnone : voidTags.contains (String.ofList (lowered "template".toList)) = false := by decide
    rw [← Bool.not_eq_true]
    intro hsame
    rw [isVoidName, of_decide_eq_true hsame, hnone] at hvoid
    cases hvoid
  obtain ⟨found, hfound, -⟩ := contentAt_of_parse hparse
  rw [hcontent, closeTagAt, String.toList_ofList, hother, if_neg (by decide)] at hfound
  cases hfound

theorem movedNodes_rawChildren (k : Nat) (text : List Char) (o : Nat) :
    movedNodes k (rawChildren (String.ofList text) o) =
      rawChildren (String.ofList text) (o + k) :=
  relocatedNodes_rawChildren _ _

/-- Only one text is moved to one text. -/
theorem eq_rawChildren_of_moved {k o : Nat} {nodes : List Node} {text : List Char}
    (h : movedNodes k nodes = rawChildren (String.ofList text) (o + k)) :
    nodes = rawChildren (String.ofList text) o := by
  rw [rawChildren_ofList] at h ⊢
  split at h
  · next htext =>
    rw [if_pos htext]
    cases nodes with
    | nil => rfl
    | cons node rest => cases h
  · next htext =>
    rw [if_neg htext]
    match nodes with
    | [] => cases h
    | node :: next :: rest => cases (List.cons.inj h).2
    | [node] =>
      have hnode := (List.cons.inj h).1
      cases node with
      | text content start =>
        obtain ⟨rfl, hstart⟩ := Node.text.inj hnode
        rw [show start = o from Nat.add_right_cancel hstart]
      | element tag children stop => cases hnode
      | interpolation content start => cases hnode
      | comment content start => cases hnode

/-- Where the start tag of a raw-text element begins, that element is the next token. -/
theorem ReadsToken.of_rawTag {c m d : Cursor} {t : Token} {tag : OpenTag} {text : List Char}
    (h : ReadsToken c t d) (hopen : startsOpenTag c.rest = true) (htag : ReadsTag c tag text m)
    (hraw : tag.isRawText = true) :
    ∃ raw, t = .rawElement tag (String.ofList raw) m.offset d.offset ∧
      readRawText tag m = .ok (raw, d) := by
  have hnext := h.next
  obtain ⟨hcomment, hclose, hdecl⟩ := startsOpenTag_only hopen
  rw [Template.next, hcomment, hclose, hdecl, hopen] at hnext
  simp only [readElement, htag.readOpenTag, hraw, if_true] at hnext
  cases hread : readRawText tag m with
  | error e =>
    rw [hread] at hnext
    cases hnext
  | ok found =>
    obtain ⟨raw, d'⟩ := found
    rw [hread] at hnext
    obtain ⟨rfl, rfl⟩ := Prod.mk.inj (Except.ok.inj hnext)
    exact ⟨raw, rfl, rfl⟩

/-- Where an end tag begins, an end tag is the next token. -/
theorem ReadsToken.of_closeMark {c d : Cursor} {t : Token} (h : ReadsToken c t d)
    (hstarts : startsCloseTag c.rest = true) : ∃ tag, t = .closeTag tag := by
  have hnext := h.next
  rw [Template.next, startsCloseTag_only hstarts, hstarts] at hnext
  cases hread : readCloseTag c with
  | error e =>
    simp only [hread] at hnext
    cases hnext
  | ok found =>
    simp only [hread] at hnext
    obtain ⟨rfl, -⟩ := Prod.mk.inj (Except.ok.inj hnext)
    exact ⟨found.1, rfl⟩

/-- Raw text stops in front of an end tag of its element. -/
theorem startsCloseTag_of_readRawText {tag : OpenTag} {c d : Cursor} {raw : List Char}
    (htag : IsTagName tag.name.toList) (h : readRawText tag c = .ok (raw, d)) :
    ∃ b, c.rest = raw ++ b ∧ startsCloseTag b = true := by
  unfold readRawText at h
  split at h
  · cases h
  · next content close hfind =>
    obtain ⟨⟨a, b⟩, hab, heq⟩ := Option.map_eq_some_iff.1 hfind
    obtain ⟨rfl, -⟩ := Prod.mk.inj heq
    obtain ⟨hrest, hpre⟩ := splitBeforeClose?_eq_some hab
    have hstarts := startsCloseTag_of_prefix htag (List.isPrefixOf_iff_prefix.1 hpre) []
    rw [List.append_nil] at hstarts
    split at h
    · cases h
    · obtain ⟨rfl, -⟩ := Prod.mk.inj (Except.ok.inj h)
      exact ⟨b, hrest, hstarts⟩

/-- Behind the start tag of a raw-text element its text is read, and it is all the element
    holds. -/
theorem reads_rawElement (htag : IsTagName name) (hraw : isRawTextName name = true)
    {children : List Node}
    (h : HoldsElement (inTemplate (inElement name content)) name children) :
    ∃ raw d,
      readRawText (openTagAt 10 name [] false)
        ⟨10 + (byteSize name + 2), content ++ (printEnd name ++ "</template>".toList)⟩ =
          .ok (raw, d) ∧
      children = rawChildren (String.ofList raw) (10 + (byteSize name + 2)) := by
  obtain ⟨component, block, tag, stop, hparse, hblock, hchildren, -⟩ := h
  obtain ⟨found, hfound, htemplate⟩ := contentAt_of_parse hparse
  obtain rfl := Option.some.inj (hblock.symm.trans htemplate)
  have hchildren : found.children = [.element tag children stop] := hchildren
  have hopen := startsOpenTag_inElement htag content "</template>".toList
  have hstart := readsTag_inElement htag content "</template>".toList
  have hkind : (openTagAt 10 name [] false).isRawText = true := by
    rw [isRawText_openTagAt, hraw, isRawTextName.isVoidName_eq_false hraw]
    rfl
  obtain ⟨ts, e, d, hscan, hstarts, hread, -, hok, -⟩ := contentAt_eq_ok hfound
  cases hscan with
  | nil =>
    -- no end tag begins where a start tag does
    rw [(startsOpenTag_only hopen).2.1] at hstarts
    cases hstarts
  | @cons _ m _ t ts hc ht hs =>
    obtain ⟨raw, rfl, hread⟩ := ht.of_rawTag hopen hstart hkind
    refine ⟨raw, m, hread, ?_⟩
    -- it is finished at once, so it is the first child of the template
    rw [List.cons_append, contentOf] at hok
    have hfirst := contentOf_finished hok
    rw [hchildren] at hfirst
    obtain ⟨rest, hrest⟩ := hfirst
    exact (Node.element.inj (List.cons.inj hrest).1).2.1.symm

/-- The content is found inside an element of a raw-text tag if and only if it is one text
    anyway. -/
theorem holdsElement_raw_iff (hname : isComponentName name = true)
    (hbody : contentAt "template" ⟨10, content ++ "</template>".toList⟩ = .ok body)
    (hclose : body.close.start = 10 + byteSize content) (hraw : isRawTextName name = true) :
    HoldsElement (inTemplate (inElement name content)) name
        (movedNodes (byteSize name + 2) body.children) ↔
      body.children = rawChildren (String.ofList content) 10 := by
  have htag := isTagName_of_isComponentName hname
  obtain ⟨ts, d, hscan, hclosing, hok, hnone⟩ := scan_content hbody hclose
  have hend : Scan ⟨10 + byteSize content, "</template>".toList⟩ [.closeTag body.close] d :=
    .cons (by simp) (.closeTag rfl hclosing) (.nil d)
  constructor
  · intro h
    obtain ⟨raw, stop, hread, hchildren⟩ := reads_rawElement htag hraw h
    have hone := eq_rawChildren_of_moved hchildren
    obtain ⟨m, front, back, rfl, hm, hback, hfront, -⟩ := reads_text hscan hend hok hone
    obtain ⟨b, hb, hstarts⟩ := startsCloseTag_of_readRawText
      (show IsTagName (openTagAt 10 name [] false).name.toList by
        rw [openTagAt, String.toList_ofList]; exact htag) hread
    -- the text is the content up to some `y`
    obtain ⟨y, hy⟩ := hback.takes
    have hsplit : content = raw ++ y := by
      have hall : content ++ "</template>".toList = raw ++ (y ++ "</template>".toList) :=
        hm.rest.trans (congrArg (raw ++ ·) hy.rest)
      rw [← List.append_assoc] at hall
      exact List.append_cancel_right hall
    cases hback with
    | nil =>
      have hnil : y = [] := by
        have hrest := hy.rest
        simpa using hrest
      rw [hnil, List.append_nil] at hsplit
      rw [hone, hsplit]
    | @cons _ m' _ t back hrest ht hs =>
      -- an end tag begins behind the text, and it would end the block
      exfalso
      have hne : y ≠ [] := by
        rintro rfl
        cases (Scan.cons hrest ht hs).eq_nil hy.offset
      have hcut : b = y ++ (printEnd name ++ "</template>".toList) := by
        have hall : content ++ (printEnd name ++ "</template>".toList) = raw ++ b := hb
        rw [hsplit, List.append_assoc] at hall
        exact (List.append_cancel_left hall).symm
      have htwo : (printEnd name ++ "</template>".toList).take 2 = "</template>".toList.take 2 := rfl
      have hsame := (starts_append hne htwo).2.1
      rw [hcut, hsame, show y ++ "</template>".toList = m.rest from hy.rest.symm] at hstarts
      obtain ⟨tag, rfl⟩ := ht.of_closeMark hstarts
      rw [hfront] at hnone
      rw [List.append_assoc, hfront] at hok
      simp only [contentOf, List.cons_append] at hnone hok
      split at hok
      · next hsame =>
        rw [if_pos hsame] at hnone
        cases hnone
      · cases hok
  · intro hone
    obtain ⟨m, front, back, -, hm, -, -, hends⟩ := reads_text hscan hend hok hone
    have hprint := builds_raw htag (List.forall_mem_nil Written.WellFormed) hraw
      (not_infix_of_endsText htag hends) 10 "</template>".toList
    have hnode : (Tree.raw name [] content).node 10 =
        .element (openTagAt 10 name [] false)
          (rawChildren (String.ofList content) (10 + (byteSize name + 2)))
          (10 + byteSize (inElement name content)) := by
      rw [Tree.node, ← rawChildren_ofList, byteSize_printStart]
      rfl
    rw [hone, movedNodes_rawChildren]
    rw [hnode] at hprint
    exact holdsElement_of_builds hprint rfl

end Element

/-! ## §5. Which names keep their content -/

/-- The end tag that ends the template around a content begins right behind that content. -/
def EndsBehind (content : List Char) : Prop :=
  ∃ body, contentAt "template" ⟨10, content ++ "</template>".toList⟩ = .ok body ∧
    body.close.start = 10 + byteSize content

instance (content : List Char) : Decidable (EndsBehind content) :=
  decidable_of_iff
    ((contentAt "template" ⟨10, content ++ "</template>".toList⟩).toOption.map (·.close.start) =
      some (10 + byteSize content)) <| by
    unfold EndsBehind
    cases contentAt "template" ⟨10, content ++ "</template>".toList⟩ with
    | error e => simp [Except.toOption]
    | ok body => simp [Except.toOption]

/-- A content without `{{` is put inside an element with the name of a component.  The
    result parses to a template that holds this element and in it the nodes of the content,
    moved by the size of the start tag, if and only if the name is not that of a void tag
    and, where it is that of a raw-text tag, the content is one text anyway. -/
theorem parse_inElement_iff {name content : List Char} {component : Component} {block : Block}
    (hname : isComponentName name = true) (hbraces : ¬ ['{', '{'] <:+: content)
    (hparse : Component.parse (inTemplate content) = .ok component)
    (hblock : component.template = some block) (hend : EndsBehind content) :
    HoldsElement (inTemplate (inElement name content)) name
        (movedNodes (byteSize name + 2) block.children) ↔
      isVoidName name = false ∧
        (isRawTextName name = true → block.children = rawChildren (String.ofList content) 10) := by
  obtain ⟨body, hbody, hclose⟩ := hend
  obtain ⟨found, hfound, htemplate⟩ := contentAt_of_parse hparse
  obtain rfl := Except.ok.inj (hbody.symm.trans hfound)
  obtain rfl := Option.some.inj (hblock.symm.trans htemplate)
  constructor
  · intro h
    have hvoid : isVoidName name = false := by
      rw [← Bool.not_eq_true]
      intro hvoid
      obtain ⟨component', -, -, -, hparse', -⟩ := h
      exact not_parse_of_void hname hbraces hbody hclose hvoid component' hparse'
    exact ⟨hvoid, fun hraw => (holdsElement_raw_iff hname hbody hclose hraw).1 h⟩
  · rintro ⟨hvoid, hone⟩
    cases hraw : isRawTextName name with
    | false => exact holdsElement_of_normal hname hbraces hbody hclose hvoid hraw
    | true => exact (holdsElement_raw_iff hname hbody hclose hraw).2 (hone hraw)

/-- The tag of a component, and a content with an attribute and an element of its own. -/
theorem parse_inElement_card :
    ∃ content component block,
      content = "a<b c>d</b>".toList ∧ Component.parse (inTemplate content) = .ok component ∧
      component.template = some block ∧ offsetsOf block.children = [10, 11, 13, 14, 16, 21] ∧
      HoldsElement (inTemplate (inElement "Card".toList content)) "Card".toList
        (movedNodes 6 block.children) := by
  obtain ⟨content, hcontent⟩ : ∃ content, content = "a<b c>d</b>".toList := ⟨_, rfl⟩
  have hoffsets : ((Component.parse (inTemplate content)).toOption.bind (·.template)).map
      (offsetsOf ·.children) = some [10, 11, 13, 14, 16, 21] := by
    subst hcontent
    decide +kernel
  have hend : EndsBehind content := by
    subst hcontent
    decide +kernel
  have hbraces : ¬ ['{', '{'] <:+: content := by
    subst hcontent
    decide +kernel
  obtain ⟨component, block, hparse, hblock, hlist⟩ := exists_template hoffsets
  refine ⟨content, component, block, hcontent, hparse, hblock, hlist, ?_⟩
  have hraw : isRawTextName "Card".toList = false := by decide
  exact (parse_inElement_iff (by decide) hbraces hparse hblock hend).2
    ⟨by decide, fun h => by rw [hraw] at h; cases h⟩

/-- The name of a component is taken for that of a void tag, which has no end tag. -/
theorem parse_inElement_link :
    isComponentName "Link".toList = true ∧ Tag.classify "Link" = .firstParty ∧
    (∃ component block, Component.parse (inTemplate []) = .ok component ∧
      component.template = some block ∧ offsetsOf block.children = []) ∧
    EndsBehind [] ∧
    ∀ component, Component.parse (inTemplate (inElement "Link".toList [])) ≠ .ok component := by
  have herror : (Component.parse (inTemplate (inElement "Link".toList []))).toOption.isNone =
      true := by
    decide +kernel
  refine ⟨by decide, by decide, exists_template (by decide +kernel), by decide +kernel, ?_⟩
  intro component hparse
  rw [hparse] at herror
  cases herror

end Provenance.Template
