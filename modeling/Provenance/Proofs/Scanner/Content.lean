import Provenance.Proofs.Scanner.Tag
import Provenance.Proofs.Template.Roundtrip

/-! # The scanner reads components

  The scanner reads raw text, texts, children and blocks, and so components.  Every cut that it
  makes has a value, every loop ends, and it comes to what the reader by cursors comes to, for
  whatever text (`parse_eq`).

  The reader by cursors builds a tree from tokens, with the elements that are open on a stack;
  the scanner calls itself for each child.  The two are compared by what stands between two
  places of the text: either the tokens there build the nodes that the scanner reads (`Builds`),
  or they lead to the error that it finds, whatever is open around them (`Fails`).
-/

namespace Provenance

open Text (Cursor byteSize byteSize_append byteSize_cons slice? octetAt?)
open Text.Cursor (Takes)

namespace Scanner

open Template (CloseTag OpenTag Node Error lowered sameName startsComment startsCloseTag
  startsDeclaration startsOpenTag startsInterpolation endsText textRun Builds ReadsToken ReadsClose
  contentOf tokensFrom)

variable {source : List Char} {c d m : Cursor}

/-! ## §1. Raw text -/

/-- The end tag that is found begins with the mark of one. -/
theorem closeMark_of_findCloseTag? {name content : List Char}
    (h : Template.findCloseTag? c name = some (content, d)) :
    Takes c content d ∧ ∃ r, d.rest = '<' :: '/' :: r := by
  obtain ⟨⟨a, b⟩, hab, heq⟩ := Option.map_eq_some_iff.1 h
  obtain ⟨rfl, rfl⟩ := Prod.mk.inj heq
  obtain ⟨hrest, hpre⟩ := Template.splitBeforeClose?_eq_some hab
  refine ⟨Cursor.takes_past hrest, ?_⟩
  obtain ⟨t, ht⟩ := List.isPrefixOf_iff_prefix.1 hpre
  cases b with
  | nil => cases ht
  | cons x b =>
    obtain ⟨hx, htail⟩ := List.cons.inj ht
    obtain rfl := Template.eq_of_toLower_eq (by decide) hx.symm
    cases b with
    | nil => cases htail
    | cons y r =>
      obtain rfl := Template.eq_of_toLower_eq (by decide) (List.cons.inj htail).1.symm
      exact ⟨r, rfl⟩

theorem readRawText_follows (h : c.StandsIn source) {tag : OpenTag} {name : List Char}
    (hname : lowered name = lowered tag.name.toList) :
    Follows source Eq (Template.readRawText tag c) (readRawText source tag name c.offset) := by
  have hfind : Template.findCloseTag? c name = Template.findCloseTag? c tag.name.toList := by
    rw [Template.findCloseTag?, hname]
    rfl
  unfold Template.readRawText readRawText
  rw [findCloseTag_eq h, hfind]
  cases hclose : Template.findCloseTag? c tag.name.toList with
  | none => exact .inr ⟨_, rfl, rfl⟩
  | some found =>
    obtain ⟨content, m⟩ := found
    obtain ⟨htakes, r, hr⟩ := closeMark_of_findCloseTag? hclose
    have hm := h.of_takes htakes
    simp only [Option.map_some, Option.bind_eq_bind, Option.bind_some]
    rcases readCloseTag_follows hm hr with ⟨_, _, d, hread, hscan, -, hd⟩ | ⟨e, hread, hscan⟩
    · refine .inl ⟨content, content, d, by rw [hread], ?_, rfl, hd⟩
      simp only [hscan, Option.bind_some, h.slice htakes, Option.pure_def]
    · refine .inr ⟨e, by rw [hread], ?_⟩
      simp only [hscan, Option.bind_some, Option.pure_def]

/-! ## §2. Texts -/

theorem atMarkup_eq (h : c.StandsIn source) :
    atMarkup source c.offset =
      some (startsOpenTag c.rest || startsCloseTag c.rest || startsDeclaration c.rest) := by
  unfold atMarkup
  rw [atOpenTag_eq h, atCloseTag_eq h, startsWith_declaration h]
  simp only [Option.bind_eq_bind, Option.bind_some, Option.pure_def]
  by_cases hmark : octetAt? source c.offset = some '<'
  · rw [if_neg fun hne => hne hmark]
    cases startsOpenTag c.rest <;> cases startsCloseTag c.rest <;> rfl
  · rw [if_pos hmark]
    -- each of the three begins with the mark
    have hhead : c.rest.head? ≠ some '<' := mt (h.octetAt_eq_iff (by decide)).2 hmark
    have hopen : startsOpenTag c.rest = false := by
      rw [← Bool.not_eq_true]
      intro ht
      obtain ⟨x, r, hr, -⟩ := Template.startsOpenTag_eq ht
      exact hhead (by rw [hr]; rfl)
    have hclose : startsCloseTag c.rest = false := by
      rw [← Bool.not_eq_true]
      intro ht
      obtain ⟨x, r, hr, -⟩ := Template.startsCloseTag_eq ht
      exact hhead (by rw [hr]; rfl)
    have hdecl : startsDeclaration c.rest = false := by
      rw [← Bool.not_eq_true]
      intro ht
      obtain ⟨r, hr⟩ := Template.startsDeclaration_eq ht
      exact hhead (by rw [hr]; rfl)
    rw [hopen, hclose, hdecl]
    rfl

/-- The scanner sees an interpolation where one is read, and only there. -/
theorem interpolationAt_cases (h : c.StandsIn source) :
    (∃ content d, interpolationAt source c.offset = some (some (byteSize content)) ∧
      ReadsToken c (.interpolation (String.ofList (Text.trim content)) c.offset) d ∧
      slice? source (c.offset + 2) (c.offset + 2 + byteSize content) = some content ∧
      d.offset = c.offset + 2 + byteSize content + 2 ∧ d.StandsIn source ∧
      startsInterpolation c.rest = true) ∨
    (interpolationAt source c.offset = some none ∧ startsInterpolation c.rest = false) := by
  unfold interpolationAt
  rw [h.startsWith]
  simp only [Option.bind_eq_bind, Option.bind_some]
  by_cases hmark : ['{', '{'].isPrefixOf c.rest = true
  · obtain ⟨r, hr⟩ := List.isPrefixOf_iff_prefix.1 hmark
    have hc : c.rest = '{' :: '{' :: r := hr.symm
    have hbody := h.of_takes (Cursor.takes_skip c 2)
    have hoff : (c.skip 2).offset = c.offset + 2 := by
      rw [Cursor.skip_two hc]
      rfl
    have hrest : (c.skip 2).rest = r := by rw [Cursor.skip_two hc]
    rw [if_pos hmark, ← hoff, hbody.sliceFrom, Option.bind_some]
    rcases hbody.find ['}', '}'] with ⟨text, d, hd, hfind, hcut, hstop, hstands⟩ | ⟨hd, hfind⟩
    · refine .inl ⟨text, d, by rw [hfind]; rfl, .interpolation hc hd, hcut, hstop, hstands, ?_⟩
      rw [hc, startsInterpolation, Cursor.splitOn?_isSome_iff]
      exact ⟨text, d.rest, by rw [← hrest]; exact (Cursor.takes_takeUntil? hd).rest.symm⟩
    · refine .inr ⟨by rw [hfind]; rfl, ?_⟩
      rw [hc, startsInterpolation, ← hrest, Option.isSome_eq_false_iff, Option.isNone_iff_eq_none]
      exact Option.map_eq_none_iff.1 hd
  · rw [if_neg hmark]
    refine .inr ⟨rfl, ?_⟩
    rw [← Bool.not_eq_true]
    intro ht
    obtain ⟨r, hr, -⟩ := Template.startsInterpolation_eq ht
    exact hmark (by rw [hr]; rfl)

/-- A text begins at a cursor and goes on at least to the end of `w`. -/
structure TextTo (c : Cursor) (w r : List Char) : Prop where
  rest : c.rest = w ++ r
  run : w ≠ [] → endsText c.rest = false ∧ textRun c.rest = w ++ textRun.more r

theorem TextTo.start (c : Cursor) : TextTo c [] c.rest := ⟨rfl, fun hne => absurd rfl hne⟩

/-- Where the text ends, the scanner adds it to the nodes in front, unless it is empty. -/
theorem addText_builds (h : c.StandsIn source) {w r : List Char} (hw : TextTo c w r)
    (hends : r = [] ∨ endsText r = true) (nodes : List Node) :
    ∃ new, addText source nodes c.offset (c.past w r).offset = some (nodes ++ new) ∧
      Builds c new (c.past w r) := by
  have htakes := Cursor.takes_past hw.rest
  unfold addText
  by_cases hempty : w = []
  · subst hempty
    have hsame : c.past [] r = c := by
      rw [← show c.rest = r from hw.rest]
      rfl
    rw [hsame, if_neg (Nat.lt_irrefl _)]
    exact ⟨[], by rw [List.append_nil], .nil c⟩
  · obtain ⟨hstart, hrun⟩ := hw.run hempty
    have hmore : textRun.more r = [] := by
      rcases hends with rfl | hr
      · rfl
      · cases r with
        | nil => rfl
        | cons x r => rw [textRun.more, if_pos hr]
    rw [hmore, List.append_nil] at hrun
    have hlt : c.offset < (c.past w r).offset := by
      have := Text.byteSize_pos hempty
      have := htakes.offset
      omega
    have hc : c.rest ≠ [] := by
      rw [hw.rest]
      exact fun heq => hempty (List.append_eq_nil_iff.1 heq).1
    have htoken := ReadsToken.text hstart
    rw [hrun, Cursor.skip_append hw.rest] at htoken
    refine ⟨[.text (String.ofList w) c.offset], ?_, .token hc htoken fun _ _ _ _ _ => rfl⟩
    rw [if_pos hlt]
    simp only [h.slice htakes, Option.bind_eq_bind, Option.bind_some, Option.pure_def]

/-- Where nothing else begins, a text takes one character more. -/
theorem TextTo.extend {w r : List Char} {x : Char} (hw : TextTo c w (x :: r))
    (hends : endsText (x :: r) = false) : TextTo c (w ++ [x]) r := by
  refine ⟨by rw [hw.rest, List.append_assoc]; rfl, fun _ => ?_⟩
  by_cases hempty : w = []
  · have hc : c.rest = x :: r := by rw [hw.rest, hempty, List.nil_append]
    rw [hc, hempty]
    exact ⟨hends, rfl⟩
  · obtain ⟨hbegin, hrun⟩ := hw.run hempty
    have hmore : textRun.more (x :: r) = x :: textRun.more r := by
      rw [textRun.more, hends]
      rfl
    rw [hrun, hmore, List.append_assoc]
    exact ⟨hbegin, rfl⟩

/-- Texts and interpolations are read up to where something else begins, and something is
    read unless it begins at once. -/
theorem readText_builds (h : c.StandsIn source) {w r : List Char} (hw : TextTo c w r)
    (nodes : List Node) {n : Nat} (hn : r.length < n) :
    ∃ new d,
      readText source n nodes c.offset (c.past w r).offset = some (nodes ++ new, d.offset) ∧
      Builds c new d ∧ d.StandsIn source ∧ d.rest.length ≤ r.length ∧
      (r ≠ [] → startsOpenTag r = false → startsCloseTag r = false → startsDeclaration r = false →
        d.rest.length < r.length) := by
  -- `w` is what the rounds so far have passed of the text that is being read
  induction n generalizing c w r nodes with
  | zero => cases hn
  | succ n ih =>
    have hm := h.of_takes (Cursor.takes_past hw.rest)
    rw [readText]
    by_cases hend : r = []
    · obtain ⟨new, hadd, hbuilds⟩ := addText_builds h hw (.inl hend) nodes
      rw [if_pos (hm.size_le_iff.2 hend), hadd]
      exact ⟨new, _, rfl, hbuilds, hm, Nat.le_refl _, fun hne => absurd hend hne⟩
    · rw [if_neg (mt hm.size_le_iff.1 hend)]
      simp only [Option.bind_eq_bind]
      rcases interpolationAt_cases hm with
        ⟨content, d, hat, htoken, hcut, hstop, hd, hstart⟩ | ⟨hat, hstart⟩
      · -- the text ends in front of the interpolation, and another one may follow it
        have hends : endsText r = true := by
          rw [endsText, show startsInterpolation r = true from hstart]
          rfl
        obtain ⟨new, hadd, hbuilds⟩ := addText_builds h hw (.inr hends) nodes
        have hnode : Builds (c.past w r) [.interpolation (String.ofList (Text.trim content))
            (c.past w r).offset] d := .token hend htoken fun _ _ _ _ _ => rfl
        have hshort : d.rest.length < r.length := Template.next_shorter hend htoken.next
        obtain ⟨new', e, hread, hbuilds', he, hle, -⟩ := ih hd (.start d)
          (nodes ++ new ++ [.interpolation (String.ofList (Text.trim content)) (c.past w r).offset])
          (by omega)
        refine ⟨new ++ ([.interpolation (String.ofList (Text.trim content)) (c.past w r).offset] ++
          new'), e, ?_, hbuilds.append (hnode.append hbuilds'), he, by omega,
          fun _ _ _ _ => by omega⟩
        simp only [hat, hadd, hcut, Option.bind_some]
        rw [← hstop]
        refine hread.trans ?_
        simp only [List.append_assoc]
      · have hrest : (c.past w r).rest = r := rfl
        simp only [hat, atMarkup_eq hm, hrest, Option.bind_some]
        by_cases hmark : (startsOpenTag r || startsCloseTag r || startsDeclaration r) = true
        · have hends : endsText r = true := by
            rw [endsText, Bool.or_assoc, Bool.or_assoc, ← Bool.or_assoc (startsOpenTag r), hmark,
              Bool.or_true]
          obtain ⟨new, hadd, hbuilds⟩ := addText_builds h hw (.inr hends) nodes
          refine ⟨new, _, ?_, hbuilds, hm, Nat.le_refl _, fun _ hopen hclose hdecl => ?_⟩
          · rw [if_pos hmark, hadd]
            rfl
          · rw [hopen, hclose, hdecl] at hmark
            cases hmark
        · rw [if_neg hmark]
          simp only [hm.sliceFrom, hrest, Option.bind_some]
          -- nothing else begins here, so the text takes one character more
          have hends : endsText r = false := by
            rw [Bool.not_eq_true, Bool.or_eq_false_iff, Bool.or_eq_false_iff] at hmark
            exact Template.endsText_eq_false_iff.2 ⟨hstart, hmark.1.1, hmark.1.2, hmark.2⟩
          obtain ⟨x, r', rfl⟩ := List.exists_cons_of_ne_nil hend
          have hoff : (c.past w (x :: r')).offset + x.utf8Size = (c.past (w ++ [x]) r').offset := by
            show c.offset + byteSize w + x.utf8Size = c.offset + byteSize (w ++ [x])
            rw [byteSize_append, byteSize_cons, Text.byteSize_nil]
            omega
          obtain ⟨new, d, hread, hbuilds, hd, hle, -⟩ := ih h (hw.extend hends) nodes
            (Nat.lt_of_succ_lt_succ hn)
          refine ⟨new, d, ?_, hbuilds, hd, Nat.le_succ_of_le hle,
            fun _ _ _ _ => Nat.lt_succ_of_le hle⟩
          rw [List.head?_cons, Option.elim_some, hoff]
          exact hread

/-! ## §3. Errors inside a block -/

/-- What stands at a cursor leads to an error, whatever elements are open, if the innermost of
    them has a given name. -/
def Fails (parent : String) (c : Cursor) (e : Error) : Prop :=
  ∀ block s, s.innermost block = parent →
    contentOf block (tokensFrom c).error (tokensFrom c).stop s (tokensFrom c).tokens = .error e

theorem innermost_foldl_add (nodes : List Node) (s : Template.OpenElements) (block : String) :
    (nodes.foldl Template.OpenElements.add s).innermost block = s.innermost block := by
  induction nodes generalizing s with
  | nil => rfl
  | cons node nodes ih =>
    rw [List.foldl_cons, ih]
    obtain ⟨frames, children⟩ := s
    cases frames <;> rfl

namespace Fails

variable {parent : String} {e : Error}

/-- Nodes in front of an error do not prevent it. -/
theorem behind {nodes : List Node} (hb : Builds c nodes m) (h : Fails parent m e) :
    Fails parent c e := by
  obtain ⟨tokens, hscan, hadd⟩ := hb
  intro block s hs
  rw [Template.tokensFrom_of_scan hscan, hadd]
  exact h block _ (by rw [innermost_foldl_add, hs])

/-- A token that cannot be read is the error. -/
theorem of_next (hc : c.rest ≠ []) (hn : Template.next c = .error e) : Fails parent c e := by
  have hrun : tokensFrom c = ⟨[], some e, c.offset⟩ := by
    rw [tokensFrom, dif_neg hc]
    split
    · next e' he =>
      rw [hn] at he
      cases he
      rfl
    · next he =>
      rw [hn] at he
      cases he
  intro block s hs
  rw [hrun]
  rfl

/-- At the end of the text an end tag is missing. -/
theorem of_end (hc : c.rest = []) : Fails parent c ⟨.missingEndTag parent, c.offset⟩ := by
  intro block s hs
  rw [tokensFrom, dif_pos hc]
  show Except.error (⟨.missingEndTag (s.innermost block), c.offset⟩ : Error) = _
  rw [hs]

/-- An end tag of another name is the error. -/
theorem of_close {close : CloseTag} {mark : List Char} (hstarts : startsCloseTag c.rest = true)
    (hclose : ReadsClose c close mark d)
    (hname : sameName close.name.toList parent.toList = false) :
    Fails parent c ⟨.unexpectedEndTag close.name parent, c.offset⟩ := by
  have hc : c.rest ≠ [] := by
    intro hnil
    rw [hnil] at hstarts
    cases hstarts
  intro block s hs
  rw [Template.tokensFrom_step hc (.closeTag hstarts hclose)]
  simp only [contentOf, hs, hname, Bool.false_eq_true, if_false, hclose.start]

/-- An error among the children of an element is one around it. -/
theorem of_child {tag : OpenTag} {text : List Char} (hopen : startsOpenTag c.rest = true)
    (ht : Template.ReadsTag c tag text m) (hleaf : tag.isLeaf = false)
    (hraw : tag.isRawText = false) (h : Fails tag.name m e) : Fails parent c e := by
  have hc : c.rest ≠ [] := by rw [ht.rest]; simp
  intro block s hs
  rw [Template.tokensFrom_step hc (.openTag hopen ht hraw)]
  simp only [contentOf, hleaf, Bool.false_eq_true, if_false]
  exact h block _ rfl

end Fails

/-! ## §4. Children -/

/-- A declaration is no node. -/
theorem builds_declaration (hc : c.rest ≠ []) (h : ReadsToken c .declaration d) : Builds c [] d :=
  ⟨[.declaration], .cons hc h (.nil d), fun _ _ _ _ _ => rfl⟩

theorem Builds.stands {nodes : List Node} (hb : Builds c nodes d) (h : c.StandsIn source) :
    d.StandsIn source ∧ d.rest.length ≤ c.rest.length := by
  obtain ⟨ts, hscan, -⟩ := hb
  obtain ⟨w, hw⟩ := hscan.takes
  refine ⟨h.of_takes hw, ?_⟩
  rw [hw.rest, List.length_append]
  omega

/-- The scanner reads children up to the end tag of their element, or finds the error that
    stands among them. -/
def ReadsChildren (source : List Char) (n : Nat) (parent : String) (nodes : List Node)
    (c : Cursor) : Prop :=
  (∃ children close e d,
    readChildren source n parent nodes c.offset = some (.ok (nodes ++ children, d.offset)) ∧
      Builds c children e ∧ startsCloseTag e.rest = true ∧ ReadsClose e close ['<', '/'] d ∧
      sameName close.name.toList parent.toList = true) ∨
  ∃ e, readChildren source n parent nodes c.offset = some (.error e) ∧ Fails parent c e

theorem ReadsChildren.behind {n k : Nat} {parent : String} {nodes new : List Node}
    (hb : Builds c new m)
    (hread : readChildren source n parent nodes c.offset =
      readChildren source k parent (nodes ++ new) m.offset)
    (h : ReadsChildren source k parent (nodes ++ new) m) :
    ReadsChildren source n parent nodes c := by
  rcases h with ⟨children, close, e, d, hok, hin, hstarts, hclose, hname⟩ | ⟨e, herror, hfails⟩
  · refine .inl ⟨new ++ children, close, e, d, ?_, hb.append hin, hstarts, hclose, hname⟩
    rw [hread, hok, List.append_assoc]
  · exact .inr ⟨e, hread.trans herror, hfails.behind hb⟩

theorem next_of_openTag (hopen : startsOpenTag c.rest = true) :
    Template.next c = Template.readElement c := by
  obtain ⟨hcomment, hclose, hdecl⟩ := Template.startsOpenTag_only hopen
  rw [Template.next, hcomment, hclose, hdecl, hopen]
  rfl

/-- Behind a start tag the scanner reads the rest of the element, if it reads children. -/
theorem readElement_cases (h : c.StandsIn source) (hopen : startsOpenTag c.rest = true)
    {tag : OpenTag} {text : List Char} (ht : Template.ReadsTag c tag text m) {n : Nat}
    (hin : ReadsChildren source n tag.name [] m) :
    let inner := fun parent o => readChildren source n parent [] o
    (∃ node d, readElement source inner tag m.offset = some (.ok (node, d.offset)) ∧
      Builds c [node] d ∧ d.rest.length < c.rest.length) ∨
    ∃ e, readElement source inner tag m.offset = some (.error e) ∧ ∀ parent, Fails parent c e := by
  intro inner
  have hc : c.rest ≠ [] := by rw [ht.rest]; simp
  obtain ⟨w, hw, htakes⟩ := ht.takes
  have hm := h.of_takes htakes
  have hshort : m.rest.length < c.rest.length := Template.readOpenTag_shorter ht.readOpenTag
  rw [readElement]
  by_cases hleaf : tag.isLeaf = true
  · rw [if_pos hleaf]
    exact .inl ⟨_, m, rfl, .leaf hopen ht hleaf, hshort⟩
  · by_cases hraw : tag.isRawText = true
    · rw [if_neg hleaf, if_pos hraw]
      simp only [Option.bind_eq_bind]
      rcases readRawText_follows hm (lowered_lowered tag.name.toList) with
        ⟨content, _, d, hread, hscan, rfl, hd⟩ | ⟨e, hread, hscan⟩
      · rw [hscan]
        have htoken := ReadsToken.rawElement hopen ht hraw hread
        refine .inl ⟨_, d, rfl, .token hc htoken fun _ _ _ _ _ => rfl, ?_⟩
        exact Template.next_shorter hc htoken.next
      · rw [hscan]
        refine .inr ⟨e, rfl, fun parent => .of_next hc ?_⟩
        rw [next_of_openTag hopen, Template.readElement, ht.readOpenTag]
        simp only [hraw, hread, if_true]
    · rw [if_neg hleaf, if_neg hraw]
      rw [Bool.not_eq_true] at hleaf hraw
      simp only [inner, Option.bind_eq_bind]
      rcases hin with ⟨children, close, e, d, hread, hb, hstarts, hclose, hname⟩ |
        ⟨e, hread, hfails⟩
      · rw [hread]
        refine .inl ⟨_, d, rfl, .element hopen ht hleaf hraw hb hstarts hclose hname, ?_⟩
        obtain ⟨he, hle⟩ := Builds.stands hb hm
        have hlast := Template.readCloseTag_shorter hclose.readCloseTag
        omega
      · rw [hread]
        exact .inr ⟨e, rfl, fun parent => .of_child hopen ht hleaf hraw hfails⟩

/-! One step of reading children, by what stands at the cursor. -/

section Steps

variable {n : Nat} {parent : String} {nodes : List Node}
variable (behind : ∀ {d : Cursor}, d.rest.length < c.rest.length → d.StandsIn source →
  ∀ parent nodes, ReadsChildren source n parent nodes d)

include behind

theorem readsChildren_comment (h : c.StandsIn source) (hcomment : startsComment c.rest = true) :
    ReadsChildren source (n + 1) parent nodes c := by
  obtain ⟨r, hr⟩ := Template.startsComment_eq hcomment
  have hc : c.rest ≠ [] := by rw [hr]; simp
  have hunfold := readChildren.eq_2 source parent nodes c.offset n
  rw [if_neg (mt h.size_le_iff.1 hc)] at hunfold
  simp only [startsWith_comment h, hcomment, if_true, Option.bind_eq_bind, Option.bind_some]
    at hunfold
  have hnext : Template.next c = Template.readComment c := by rw [Template.next, if_pos hcomment]
  rcases readComment_follows h hcomment with ⟨t, content, d, hread, hscan, rfl, hd⟩ |
    ⟨e, hread, hscan⟩
  · rw [hscan] at hunfold
    have htoken := Template.readsToken_of_next (hnext.trans hread)
    exact .behind (.token hc htoken fun _ _ _ _ _ => rfl) hunfold
      (behind (Template.next_shorter hc htoken.next) hd _ _)
  · rw [hscan] at hunfold
    exact .inr ⟨e, hunfold, .of_next hc (hnext.trans hread)⟩

theorem readsChildren_declaration (h : c.StandsIn source) (hcomment : startsComment c.rest = false)
    (hdecl : startsDeclaration c.rest = true) : ReadsChildren source (n + 1) parent nodes c := by
  obtain ⟨r, hr⟩ := Template.startsDeclaration_eq hdecl
  have hc : c.rest ≠ [] := by rw [hr]; simp
  have hclose := Template.startsDeclaration_only hdecl
  have hunfold := readChildren.eq_2 source parent nodes c.offset n
  rw [if_neg (mt h.size_le_iff.1 hc)] at hunfold
  simp only [startsWith_comment h, atCloseTag_eq h, startsWith_declaration h, hcomment, hclose,
    hdecl, if_true, Bool.false_eq_true, if_false, Option.bind_eq_bind, Option.bind_some] at hunfold
  have hnext : Template.next c = Template.readDeclaration c := by
    rw [Template.next, hcomment, hclose, hdecl]
    rfl
  rcases readDeclaration_follows h with ⟨t, _, d, hread, hscan, rfl, hd⟩ | ⟨e, hread, hscan⟩
  · rw [hscan] at hunfold
    have htoken := Template.readsToken_of_next (hnext.trans hread)
    refine .behind (builds_declaration hc htoken) (by rw [List.append_nil]; exact hunfold) ?_
    exact behind (Template.next_shorter hc htoken.next) hd _ _
  · rw [hscan] at hunfold
    exact .inr ⟨e, hunfold, .of_next hc (hnext.trans hread)⟩

theorem readsChildren_element (h : c.StandsIn source) (hopen : startsOpenTag c.rest = true) :
    ReadsChildren source (n + 1) parent nodes c := by
  obtain ⟨x, r, hr, -⟩ := Template.startsOpenTag_eq hopen
  have hc : c.rest ≠ [] := by rw [hr]; simp
  obtain ⟨hcomment, hclose, hdecl⟩ := Template.startsOpenTag_only hopen
  have hunfold := readChildren.eq_2 source parent nodes c.offset n
  rw [if_neg (mt h.size_le_iff.1 hc)] at hunfold
  simp only [startsWith_comment h, atCloseTag_eq h, startsWith_declaration h, atOpenTag_eq h,
    hcomment, hclose, hdecl, hopen, if_true, Bool.false_eq_true, if_false, Option.bind_eq_bind,
    Option.bind_some] at hunfold
  rcases readOpenTag_follows h hopen with ⟨tag, _, m, hread, hscan, rfl, hm⟩ | ⟨e, hread, hscan⟩
  · simp only [hscan, Option.bind_some] at hunfold
    obtain ⟨text, htag⟩ := Template.readsTag_of_readOpenTag hr hread
    have hin := behind (Template.readOpenTag_shorter hread) hm tag.name []
    rcases readElement_cases h hopen htag hin with ⟨node, d, helement, hb, hshort⟩ |
      ⟨e, helement, hfails⟩
    · rw [helement] at hunfold
      exact .behind hb hunfold (behind hshort (Builds.stands hb h).1 _ _)
    · rw [helement] at hunfold
      exact .inr ⟨e, hunfold, hfails parent⟩
  · rw [hscan] at hunfold
    refine .inr ⟨e, hunfold, .of_next hc ?_⟩
    rw [next_of_openTag hopen, Template.readElement, hread]

theorem readsChildren_text (h : c.StandsIn source) (hc : c.rest ≠ [])
    (hopen : startsOpenTag c.rest = false) (hclose : startsCloseTag c.rest = false)
    (hdecl : startsDeclaration c.rest = false) : ReadsChildren source (n + 1) parent nodes c := by
  have hcomment : startsComment c.rest = false := by
    rw [← Bool.not_eq_true]
    exact fun ht => by rw [Template.startsDeclaration_of_comment ht] at hdecl; cases hdecl
  have hunfold := readChildren.eq_2 source parent nodes c.offset n
  rw [if_neg (mt h.size_le_iff.1 hc)] at hunfold
  simp only [startsWith_comment h, atCloseTag_eq h, startsWith_declaration h, atOpenTag_eq h,
    hcomment, hclose, hdecl, hopen, Bool.false_eq_true, if_false, Option.bind_eq_bind,
    Option.bind_some] at hunfold
  obtain ⟨new, d, hread, hb, hd, -, hshort⟩ := readText_builds h (.start c) nodes h.lt_rounds
  rw [show readText source (Text.rounds source) nodes c.offset c.offset = _ from hread] at hunfold
  exact .behind hb hunfold (behind (hshort hc hopen hclose hdecl) hd _ _)

end Steps

theorem readsChildren_close (h : c.StandsIn source) {n : Nat} {parent : String} {nodes : List Node}
    (hclose : startsCloseTag c.rest = true) : ReadsChildren source (n + 1) parent nodes c := by
  obtain ⟨x, r, hr, -⟩ := Template.startsCloseTag_eq hclose
  have hc : c.rest ≠ [] := by rw [hr]; simp
  have hcomment := Template.startsCloseTag_only hclose
  have hunfold := readChildren.eq_2 source parent nodes c.offset n
  rw [if_neg (mt h.size_le_iff.1 hc)] at hunfold
  simp only [startsWith_comment h, atCloseTag_eq h, hcomment, hclose, if_true, Bool.false_eq_true,
    if_false, Option.bind_eq_bind, Option.bind_some] at hunfold
  rcases readCloseTag_follows h hr with ⟨close, name, d, hread, hscan, rfl, hd⟩ |
    ⟨e, hread, hscan⟩
  · rw [hscan] at hunfold
    simp only [Option.bind_some] at hunfold
    obtain ⟨mark, hreads⟩ := Template.readsClose_of_readCloseTag hread
    obtain rfl := hreads.mark_eq hclose
    cases hname : sameName close.name.toList parent.toList with
    | true =>
      rw [if_pos hname] at hunfold
      exact .inl ⟨[], close, c, d, by rw [hunfold, List.append_nil], .nil c, hclose, hreads, hname⟩
    | false =>
      rw [if_neg (by rw [hname]; decide)] at hunfold
      exact .inr ⟨_, hunfold, .of_close hclose hreads hname⟩
  · rw [hscan] at hunfold
    refine .inr ⟨e, hunfold, .of_next hc ?_⟩
    rw [Template.next, hcomment, hclose, hread]
    rfl

/-- Every cut in reading children has a value: they are read as the tokens build them, and an
    error among them is the one that is found there. -/
theorem readsChildren (h : c.StandsIn source) (parent : String) (nodes : List Node) {n : Nat}
    (hn : c.rest.length < n) : ReadsChildren source n parent nodes c := by
  induction n generalizing c parent nodes with
  | zero => cases hn
  | succ n ih =>
    -- whatever stands behind is read in the rounds that are left, siblings and children alike
    have behind : ∀ {d : Cursor}, d.rest.length < c.rest.length → d.StandsIn source →
        ∀ parent nodes, ReadsChildren source n parent nodes d :=
      fun hshort hd parent nodes => ih hd parent nodes (by omega)
    by_cases hc : c.rest = []
    · refine .inr ⟨_, ?_, .of_end hc⟩
      rw [readChildren, if_pos (h.size_le_iff.2 hc)]
    cases hcomment : startsComment c.rest with
    | true => exact readsChildren_comment behind h hcomment
    | false =>
      cases hclose : startsCloseTag c.rest with
      | true => exact readsChildren_close h hclose
      | false =>
        cases hdecl : startsDeclaration c.rest with
        | true => exact readsChildren_declaration behind h hcomment hdecl
        | false =>
          cases hopen : startsOpenTag c.rest with
          | true => exact readsChildren_element behind h hopen
          | false => exact readsChildren_text behind h hc hopen hclose hdecl

/-! ## §5. Components -/

/-- What stands in front of the last `</` has no part in finding it. -/
theorem lastCloseMark?_append {o p : Nat} {a b : List Char}
    (h : Template.lastCloseMark? (o + byteSize a) b = some p) :
    Template.lastCloseMark? o (a ++ b) = some p := by
  induction a generalizing o with
  | nil => exact h
  | cons x a ih =>
    rw [byteSize_cons, ← Nat.add_assoc] at h
    rw [List.cons_append, Template.lastCloseMark?, ih h]
    rfl

theorem lastCloseMark?_mark (o : Nat) (b : List Char) :
    Template.lastCloseMark? o (b ++ ['>']) = Template.lastCloseMark? o b := by
  induction b generalizing o with
  | nil => rfl
  | cons x b ih =>
    rw [List.cons_append, Template.lastCloseMark?, Template.lastCloseMark?, ih]
    cases b with
    | nil => simp
    | cons y b => rfl

/-- The content of a block ends at the last `</` up to the end of its end tag. -/
theorem contentEnd_eq {e : Cursor} {close : CloseTag} (he : e.StandsIn source)
    (hclose : ReadsClose e close ['<', '/'] d) (default : Nat) :
    ∃ front, slice? source 0 d.offset = some front ∧
      (Template.lastCloseMark? 0 front).getD default = close.contentEnd := by
  obtain ⟨f, hsource, hsize⟩ := he
  have htakes : Takes e ('<' :: '/' :: close.inner ++ ['>']) d := hclose.takes
  have hall : Takes ⟨0, source⟩ (f ++ ('<' :: '/' :: close.inner ++ ['>'])) d := by
    refine ⟨?_, ?_⟩
    · rw [List.append_assoc, ← htakes.rest]
      exact hsource
    · rw [byteSize_append, hsize, htakes.offset, Nat.zero_add]
  have hzero : (⟨0, source⟩ : Cursor).StandsIn source := ⟨[], rfl, rfl⟩
  refine ⟨_, hzero.slice hall, ?_⟩
  -- the mark of the end tag itself is one, so the last one does not lie in front of it
  obtain ⟨p, hp⟩ : ∃ p, Template.lastCloseMark? e.offset ('<' :: '/' :: close.inner) = some p := by
    rw [Template.lastCloseMark?]
    cases Template.lastCloseMark? (e.offset + '<'.utf8Size) ('/' :: close.inner) with
    | some p => exact ⟨p, rfl⟩
    | none => exact ⟨e.offset, rfl⟩
  have hlast : Template.lastCloseMark? 0 (f ++ ('<' :: '/' :: close.inner ++ ['>'])) = some p := by
    refine lastCloseMark?_append ?_
    rw [lastCloseMark?_mark, Nat.zero_add, hsize]
    exact hp
  rw [hlast, CloseTag.contentEnd, hclose.start, hp]
  rfl

theorem readBlock_follows (h : c.StandsIn source) (component : Template.Component) (tag : OpenTag) :
    Follows source Eq (Template.readBlockBody component tag c)
      (readBlock source component tag c.offset) := by
  unfold Template.readBlockBody readBlock
  by_cases hself : tag.selfClosing = true
  · exact .inl ⟨_, _, c, if_pos hself, if_pos hself, rfl, h⟩
  simp only [if_neg hself]
  by_cases hkind : (component.template.isNone && tag.isTemplate) = true
  · have hname : tag.name = "template" :=
      of_decide_eq_true (Bool.and_eq_true_iff.1 (Bool.and_eq_true_iff.1 hkind).2).1
    simp only [if_pos hkind, hname]
    rcases readsChildren h "template" [] h.lt_rounds with
      ⟨children, close, e, d, hscan, hb, hstarts, hclose, hsame⟩ | ⟨e, hscan, hfails⟩
    · obtain ⟨he, -⟩ := Builds.stands hb h
      obtain ⟨front, hfront, hend⟩ := contentEnd_eq he hclose d.offset
      have hread := Template.contentAt_of_builds hb hstarts hclose "template"
      rw [if_pos hsame, Template.contentAt] at hread
      refine .inl ⟨_, _, d, by simp only [hread, hclose.after]; rfl, ?_, rfl,
        he.of_takes hclose.takes⟩
      simp only [hscan, hfront, hend, List.nil_append, Option.bind_eq_bind, Option.bind_some,
        Option.pure_def]
    · have hread := hfails "template" {} rfl
      refine .inr ⟨e, by rw [hread], ?_⟩
      simp only [hscan, Option.bind_eq_bind, Option.bind_some, Option.pure_def]
  · simp only [if_neg hkind]
    rcases readRawText_follows h (Eq.refl (lowered tag.name.toList)) with
      ⟨content, _, d, hread, hscan, rfl, hd⟩ | ⟨e, hread, hscan⟩
    · refine .inl ⟨_, _, d, by rw [hread], ?_, rfl, hd⟩
      simp only [hscan, Option.bind_eq_bind, Option.bind_some, Option.pure_def]
    · refine .inr ⟨e, by rw [hread], ?_⟩
      simp only [hscan, Option.bind_eq_bind, Option.bind_some, Option.pure_def]

/-- The scanner goes on behind a part of a component, or finds the error in it. -/
theorem readParts_step (h : c.StandsIn source) (hc : c.rest ≠ []) (n : Nat)
    (component : Template.Component) :
    (∃ next d, Template.readPart component c = .ok (next, d) ∧ d.StandsIn source ∧
      readParts source (n + 1) component c.offset = readParts source n next d.offset) ∨
    ∃ e, Template.readPart component c = .error e ∧
      readParts source (n + 1) component c.offset = some (.error e) := by
  have hunfold := readParts.eq_2 source component c.offset n
  rw [if_neg (mt h.size_le_iff.1 hc)] at hunfold
  simp only [startsWith_comment h, atCloseTag_eq h, startsWith_declaration h, atOpenTag_eq h,
    Option.bind_eq_bind, Option.bind_some] at hunfold
  rw [Template.readPart]
  by_cases hcomment : startsComment c.rest = true
  · rw [if_pos hcomment] at hunfold ⊢
    rcases readComment_follows h hcomment with ⟨t, _, d, hread, hscan, -, hd⟩ | ⟨e, hread, hscan⟩
    · exact .inl ⟨component, d, by rw [hread]; rfl, hd, by rw [hunfold, hscan]; rfl⟩
    · exact .inr ⟨e, by rw [hread]; rfl, by rw [hunfold, hscan]; rfl⟩
  rw [if_neg hcomment] at hunfold ⊢
  by_cases hclose : startsCloseTag c.rest = true
  · rw [if_pos hclose] at hunfold ⊢
    obtain ⟨x, r, hr, -⟩ := Template.startsCloseTag_eq hclose
    right
    rcases readCloseTag_follows h hr with ⟨tag, _, d, hread, hscan, rfl, -⟩ | ⟨e, hread, hscan⟩
    · obtain ⟨mark, hreads⟩ := Template.readsClose_of_readCloseTag hread
      exact ⟨_, by rw [hread], by rw [hunfold, hscan, hreads.start]; rfl⟩
    · exact ⟨e, by rw [hread], by rw [hunfold, hscan]; rfl⟩
  rw [if_neg hclose] at hunfold ⊢
  by_cases hdecl : startsDeclaration c.rest = true
  · rw [if_pos hdecl] at hunfold ⊢
    rcases readDeclaration_follows h with ⟨t, _, d, hread, hscan, -, hd⟩ | ⟨e, hread, hscan⟩
    · exact .inl ⟨component, d, by rw [hread]; rfl, hd, by rw [hunfold, hscan]; rfl⟩
    · exact .inr ⟨e, by rw [hread]; rfl, by rw [hunfold, hscan]; rfl⟩
  rw [if_neg hdecl] at hunfold ⊢
  by_cases hopen : startsOpenTag c.rest = true
  · rw [if_pos hopen] at hunfold ⊢
    rcases readOpenTag_follows h hopen with ⟨tag, _, m, hread, hscan, rfl, hm⟩ | ⟨e, hread, hscan⟩
    · simp only [hscan, Option.bind_some] at hunfold
      rcases readBlock_follows hm component tag with ⟨next, _, d, hblock, hscan', rfl, hd⟩ |
        ⟨e, hblock, hscan'⟩
      · exact .inl ⟨next, d, by rw [hread]; exact hblock, hd, by rw [hunfold, hscan']; rfl⟩
      · exact .inr ⟨e, by rw [hread]; exact hblock, by rw [hunfold, hscan']; rfl⟩
    · exact .inr ⟨e, by rw [hread], by rw [hunfold, hscan]; rfl⟩
  -- any other character between two parts is passed over
  rw [if_neg hopen] at hunfold ⊢
  obtain ⟨x, r, hr⟩ := List.exists_cons_of_ne_nil hc
  have hskip := Cursor.takes_skip_one hr
  refine .inl ⟨component, c.skip 1, rfl, h.of_takes hskip, ?_⟩
  rw [hunfold, h.sliceFrom, hr, hskip.offset]
  rfl

/-- Every cut in reading the parts of a component has a value. -/
theorem readParts_eq (h : c.StandsIn source) (component : Template.Component) {n : Nat}
    (hn : c.rest.length < n) :
    readParts source n component c.offset = some (Template.readParts component c) := by
  induction n generalizing c component with
  | zero => cases hn
  | succ n ih =>
    rw [Template.readParts]
    by_cases hc : c.rest = []
    · rw [readParts, if_pos (h.size_le_iff.2 hc), dif_pos hc]
    rw [dif_neg hc]
    rcases readParts_step h hc n component with ⟨next, d, hread, hd, hscan⟩ | ⟨e, hread, hscan⟩
    · have hshort := Template.readPart_shorter hc hread
      rw [hscan, ih hd next (Nat.lt_of_lt_of_le hshort (Nat.le_of_lt_succ hn))]
      split
      · next hp => rw [hread] at hp; cases hp
      · next hp => rw [hread] at hp; cases hp; rfl
    · rw [hscan]
      split
      · next hp => rw [hread] at hp; cases hp; rfl
      · next hp => rw [hread] at hp; cases hp

/-- Reading a component by offsets never makes a bad cut, always comes to an end, and comes to
    what the reader by cursors comes to. -/
theorem parse_eq (source : List Char) : parse source = some (Template.Component.parse source) :=
  readParts_eq (c := ⟨0, source⟩) ⟨[], rfl, rfl⟩ {} (Nat.lt_succ_self source.length)

end Scanner

end Provenance
