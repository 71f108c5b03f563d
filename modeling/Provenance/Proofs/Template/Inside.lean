import Provenance.Proofs.Template.Reread
import Provenance.Proofs.Template.Roundtrip
import Provenance.Proofs.Template.Tiled

/-! # The content of a block, read inside an element

  What a block holds can stand inside an element of that block as well.  Its tokens are
  found there again, only further behind (`Scan.edited_around`), and its nodes are built
  whatever elements are open around them (`builds_of_content`).

  Main statement: `builds_moved`.  Nodes that end where the end tag of their block begins
  are read for themselves, at moved places, where another end tag is put in front of it.
-/

namespace Provenance.Template

open Text (Cursor)
open Insertion (moved)

/-! ## §1. Open elements around a block -/

/-- The open elements of a block, put on top of those that are open around it. -/
def OpenElements.onto (s base : OpenElements) : OpenElements :=
  let outer := s.children.reverse.foldl OpenElements.add base
  ⟨s.frames ++ outer.frames, outer.children⟩

namespace OpenElements

theorem onto_nil (base : OpenElements) : ({} : OpenElements).onto base = base := rfl

theorem onto_of_frames_nil {s : OpenElements} (h : s.frames = []) (base : OpenElements) :
    s.onto base = s.children.reverse.foldl OpenElements.add base := by
  rw [onto, h]
  rfl

theorem onto_add (s base : OpenElements) (node : Node) :
    (s.onto base).add node = (s.add node).onto base := by
  cases hframes : s.frames with
  | nil =>
    -- the node goes to the innermost element around the block
    have hadd : s.add node = ⟨[], node :: s.children⟩ := by
      simp only [add, hframes]
    rw [onto_of_frames_nil hframes, hadd, onto_of_frames_nil rfl, List.reverse_cons,
      List.foldl_append]
    rfl
  | cons frame outer => simp [add, onto, hframes]

theorem onto_push (s base : OpenElements) (frame : Frame) :
    ({ s with frames := frame :: s.frames } : OpenElements).onto base =
      { s.onto base with frames := frame :: (s.onto base).frames } := rfl

end OpenElements

/-- Tokens in front of the end tag of a block add the nodes of that block, whatever
    elements are open around them. -/
theorem contentOf_onto {block : String} {failure : Option Error} {stop : Nat} {ts : List Token}
    {close : CloseTag} {content : Content} {s : OpenElements}
    (hnone : (contentOf block failure stop s ts).toOption = none)
    (hok : contentOf block failure stop s (ts ++ [.closeTag close]) = .ok content)
    (base : OpenElements) (outer : String) (failure' : Option Error) (stop' : Nat)
    (rest : List Token) :
    contentOf outer failure' stop' (s.onto base) (ts ++ rest) =
      contentOf outer failure' stop' (content.children.foldl OpenElements.add base) rest := by
  induction ts generalizing s with
  | nil =>
    -- the end tag ends the block, so none of its elements is open
    simp only [List.nil_append, contentOf] at hok
    split at hok
    · cases hframes : s.frames with
      | nil =>
        rw [hframes] at hok
        obtain rfl := Except.ok.inj hok
        rw [List.nil_append, OpenElements.onto_of_frames_nil hframes]
      | cons frame frames =>
        rw [hframes] at hok
        cases hok
    · cases hok
  | cons t ts ih =>
    rw [List.cons_append] at hok ⊢
    cases t with
    | comment text start | text text start | interpolation text start =>
      rw [contentOf] at hnone hok ⊢
      rw [OpenElements.onto_add]
      exact ih hnone hok
    | declaration =>
      rw [contentOf] at hnone hok ⊢
      exact ih hnone hok
    | rawElement tag text start elementStop =>
      rw [contentOf] at hnone hok ⊢
      rw [OpenElements.onto_add]
      exact ih hnone hok
    | openTag tag tagStop =>
      rw [contentOf] at hnone hok ⊢
      cases hleaf : tag.isLeaf with
      | true =>
        rw [hleaf, if_pos rfl] at hnone hok
        rw [if_pos rfl, OpenElements.onto_add]
        exact ih hnone hok
      | false =>
        rw [hleaf, if_neg (by decide)] at hnone hok
        rw [if_neg (by decide), ← OpenElements.onto_push]
        exact ih hnone hok
    | closeTag tag =>
      cases hframes : s.frames with
      | nil =>
        -- the block would end here
        simp only [contentOf, hframes] at hnone hok
        split at hok
        · next hname =>
          rw [if_pos hname] at hnone
          cases hnone
        · cases hok
      | cons frame frames =>
        simp only [contentOf, OpenElements.innermost, OpenElements.onto, hframes,
          List.cons_append] at hnone hok ⊢
        split at hok
        · next hname =>
          rw [if_pos hname] at hnone
          rw [if_pos hname]
          have hrest := ih hnone hok
          rw [← OpenElements.onto_add] at hrest
          exact hrest
        · cases hok

/-- What a block holds is read for itself, too. -/
theorem builds_of_content {c e : Cursor} {ts : List Token} {close : CloseTag} {block : String}
    {failure : Option Error} {stop : Nat} {content : Content} (hscan : Scan c ts e)
    (hnone : (contentOf block failure stop {} ts).toOption = none)
    (hok : contentOf block failure stop {} (ts ++ [.closeTag close]) = .ok content) :
    Builds c content.children e := by
  refine ⟨ts, hscan, ?_⟩
  intro outer failure' stop' s rest
  have h := contentOf_onto hnone hok s outer failure' stop' rest
  rwa [OpenElements.onto_nil] at h

/-- The tokens that build the content of a block are a scan up to the end tag of that
    block, and no end tag among them ends it. -/
theorem contentAt_eq_ok {block : String} {c : Cursor} {content : Content}
    (h : contentAt block c = .ok content) :
    ∃ ts e d, Scan c ts e ∧ startsCloseTag e.rest = true ∧
      ReadsClose e content.close ['<', '/'] d ∧
      sameName content.close.name.toList block.toList = true ∧
      contentOf block none 0 {} (ts ++ [.closeTag content.close]) = .ok content ∧
      (contentOf block none 0 {} ts).toOption = none := by
  obtain ⟨ts, more, htokens, -, hname, hall, hnone⟩ := contentOf_eq_ok h
  rw [show ts ++ .closeTag content.close :: more = ts ++ [.closeTag content.close] ++ more by
    simp] at htokens
  obtain ⟨d, hscan⟩ := scan_of_tokensFrom htokens
  obtain ⟨e, hts, hstarts, hclose⟩ := hscan.split_closeTag
  exact ⟨ts, e, d, hts, hstarts, hclose, hname, hall none 0 [], hnone none 0⟩

/-! ## §2. Tokens between insertions -/

variable {ins : List Insertion}

/-- A scan finds its tokens again where insertions are made in front of it and well behind
    it, and a text still ends where the scan does. -/
theorem Scan.edited_around {c d : Cursor} {ts : List Token} (h : Scan c ts d)
    (hclear : Apart ins c d) (hbraces : ¬ ['{', '{'] <:+: c.rest) (hd : d.rest ≠ [])
    (hend : endsText d.rest = true → endsText (d.edited ins).rest = true) :
    Scan (c.edited ins) (ts.map (Token.edited ins (OpenTag.edited ins fun _ => [])))
      (d.edited ins) := by
  induction h with
  | nil c => exact .nil _
  | @cons c m d t ts hc ht hs ih =>
    obtain ⟨w, -, hw⟩ := ht.takes hc
    obtain ⟨v, hv⟩ := hs.takes
    have hle := hw.offset_le
    have hbraces' : ¬ ['{', '{'] <:+: m.rest := by
      intro hin
      rw [hw.rest] at hbraces
      exact hbraces (hin.trans (List.suffix_append w m.rest).isInfix)
    have ih' := ih (hclear.mono hle) hbraces' hd hend
    refine .cons (Insertion.edit_ne_nil hc) (ht.edited hc ?_ ?_ ?_) ih'
    · intro x hx
      rcases hclear x hx with hlt | hbehind
      · exact .inl hlt
      · exact .inr (.inr (hbehind.of_takes hv))
    · -- nothing is inserted behind the name of a start tag
      intro tag htag
      obtain ⟨hopen, text, e, hreads, he⟩ := ht.readsTag htag
      have hin := hreads.nameEnd_lt
      have hstart := hreads.takes_name.offset_le
      refine ⟨Insertion.textsAt_eq_nil fun x hx => ?_, by simp⟩
      have hout := hclear.outside x hx
      have hvle := hv.offset_le
      simp only at hstart
      omega
    · intro content start _
      refine ⟨?_, endsText_of_scan hs ih' hend, fun hnil => ?_⟩
      · intro u r hr
        exact absurd ⟨u, r, by rw [hr]; simp⟩ hbraces
      · cases hs with
        | nil => exact absurd hnil hd
        | cons hm ht' hs' => exact absurd hnil hm

/-! ## §3. Moved nodes -/

section Congr

variable {f g : Nat → Nat}

theorem OpenTag.relocated_congr {tag : OpenTag} (h : ∀ x ∈ tag.offsets, f x = g x) :
    tag.relocated f [] = tag.relocated g [] := by
  have hentries : tag.entries.map (·.mapStart f) = tag.entries.map (·.mapStart g) := by
    refine List.map_congr_left fun e he => Entry.mapStart_congr (h _ ?_)
    simpa [OpenTag.offsets] using .inr (.inr ⟨e, he, rfl⟩)
  have hstart : f tag.start = g tag.start := h _ (by simp [OpenTag.offsets])
  have hnameEnd : f tag.nameEnd = g tag.nameEnd := h _ (by simp [OpenTag.offsets])
  simp only [OpenTag.relocated, hentries, hstart, hnameEnd]

mutual

/-- Only where the offsets of a node go decides where it is moved to. -/
theorem Node.relocated_congr : ∀ (node : Node), (∀ x ∈ node.offsets, f x = g x) →
    node.relocated f (OpenTag.relocated f []) = node.relocated g (OpenTag.relocated g [])
  | .element tag children stop, h => by
    have htag : tag.relocated f [] = tag.relocated g [] :=
      OpenTag.relocated_congr fun x hx => h x (by simp [Node.offsets, hx])
    have hchildren := relocatedNodes_congr children fun x hx => h x (by simp [Node.offsets, hx])
    have hstop : f stop = g stop := h stop (by simp [Node.offsets])
    simp only [Node.relocated, htag, hchildren, hstop]
  | .text content start, h => congrArg (Node.text content) (h start (by simp [Node.offsets]))
  | .interpolation content start, h =>
    congrArg (Node.interpolation content) (h start (by simp [Node.offsets]))
  | .comment content start, h =>
    congrArg (Node.comment content) (h start (by simp [Node.offsets]))

theorem relocatedNodes_congr : ∀ (nodes : List Node), (∀ x ∈ offsetsOf nodes, f x = g x) →
    relocatedNodes f (OpenTag.relocated f []) nodes =
      relocatedNodes g (OpenTag.relocated g []) nodes
  | [], _ => rfl
  | node :: rest, h => by
    have hnode := Node.relocated_congr node fun x hx => h x (by simp [offsetsOf, hx])
    have hrest := relocatedNodes_congr rest fun x hx => h x (by simp [offsetsOf, hx])
    simp only [relocatedNodes, hnode, hrest]

end

end Congr

/-- Nodes with all their offsets moved by `k`. -/
def movedNodes (k : Nat) (nodes : List Node) : List Node :=
  relocatedNodes (· + k) (OpenTag.relocated (· + k) []) nodes

/-- The nodes of a block are read for themselves where insertions are made in front of them
    and well behind them, if all their places move by the same size. -/
theorem builds_moved {source : List Char} {block : String} {c e d : Cursor} {ts : List Token}
    {content : Content} {k : Nat} (hc : c.StandsIn source) (hscan : Scan c ts e)
    (hstarts : startsCloseTag e.rest = true) (hclose : ReadsClose e content.close ['<', '/'] d)
    (hok : contentOf block none 0 {} (ts ++ [.closeTag content.close]) = .ok content)
    (hnone : (contentOf block none 0 {} ts).toOption = none) (hclear : Apart ins c e)
    (hbraces : ¬ ['{', '{'] <:+: c.rest)
    (hend : endsText (e.edited ins).rest = true)
    (hmoved : ∀ p, c.offset ≤ p → p ≤ e.offset → moved ins p = p + k) :
    Builds (c.edited ins) (movedNodes k content.children) (e.edited ins) := by
  have he : e.rest ≠ [] := by rw [hclose.rest]; simp
  have hg : KeepsClass (OpenTag.edited ins fun _ => []) := keepsClass_edited _
  -- the tokens are found again, and they build the moved content
  have hscan' := hscan.edited_around hclear hbraces he fun _ => hend
  have hok' : contentOf block none 0 {}
      ((ts ++ [Token.closeTag content.close]).map (Token.edited ins _)) =
        .ok (content.edited ins _) :=
    contentOf_edited hg hok none 0
  rw [List.map_append] at hok'
  have hnone' : (contentOf block none 0 {} (ts.map (Token.edited ins _))).toOption = _ :=
    toOption_contentOf_edited hg block none none 0 0 {} ts
  rw [hnone] at hnone'
  have hbuilds := builds_of_content hscan' hnone' hok'
  -- all offsets of the nodes are between the two cursors
  have hempty : ({} : OpenElements).TilesTo source c.offset c.offset :=
    Declarations.nil hc.isBoundary
  have hall := Scan.append_iff.2 ⟨e, hscan, .cons he (.closeTag hstarts hclose) (.nil d)⟩
  obtain ⟨htiles, -⟩ := hall.tiles hc hempty hok
  rw [hclose.start] at htiles
  have hin := (Tiles.offsets content.children htiles).between
  have hnodes : relocatedNodes (moved ins) (OpenTag.relocated (moved ins) []) content.children =
      movedNodes k content.children :=
    relocatedNodes_congr content.children fun x hx => hmoved x (hin x hx).1 (hin x hx).2
  rw [← hnodes]
  exact hbuilds

end Provenance.Template
