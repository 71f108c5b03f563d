import Provenance.Template.Token

/-! # Components

  A single-file component is a sequence of blocks.  The first `<template>` block
  that holds HTML is read as a tree, all other blocks are raw text up to their
  end tags.

  - The tree is built from tokens by a stack of open elements, innermost first.
  - The block ends at the end tag that finds no element open (`contentOf`).
  - What comes after that end tag is read as blocks again, so tokens beyond it
    have no influence.
-/

namespace Provenance.Template

open Text (Cursor)

/-! ## §1. Open elements -/

/-- An element whose end tag has not come yet; its children are in reverse. -/
structure Frame where
  tag : OpenTag
  children : List Node := []

/-- The open elements, innermost first, and the finished children of the block in
    reverse. -/
structure OpenElements where
  frames : List Frame := []
  children : List Node := []

namespace OpenElements

/-- Adds a finished node to the innermost open element. -/
def add (s : OpenElements) (node : Node) : OpenElements :=
  match s.frames with
  | [] => { s with children := node :: s.children }
  | frame :: outer => { s with frames := { frame with children := node :: frame.children } :: outer }

/-- The name of the innermost open element, or else of the block. -/
def innermost (s : OpenElements) (block : String) : String :=
  match s.frames with
  | [] => block
  | frame :: _ => frame.tag.name

end OpenElements

/-! ## §2. The content of a block -/

/-- The children of a block and the end tag that closes it. -/
structure Content where
  children : List Node
  close : CloseTag

/-- The children of the raw text of an element. -/
def rawChildren (content : String) (start : Nat) : List Node :=
  if content.isEmpty then [] else [.text content start]

/-- Builds the content of a block from its tokens.  Where they run out, `failure`
    is the error that stopped them, and without one an end tag is missing. -/
def contentOf (block : String) (failure : Option Error) (stop : Nat) :
    OpenElements → List Token → Except Error Content
  | s, [] => .error (failure.getD ⟨.missingEndTag (s.innermost block), stop⟩)
  | s, .comment content start :: rest =>
    contentOf block failure stop (s.add (.comment content start)) rest
  | s, .declaration :: rest => contentOf block failure stop s rest
  | s, .text content start :: rest =>
    contentOf block failure stop (s.add (.text content start)) rest
  | s, .interpolation content start :: rest =>
    contentOf block failure stop (s.add (.interpolation content start)) rest
  | s, .openTag tag tagStop :: rest =>
    if tag.isLeaf then contentOf block failure stop (s.add (.element tag [] tagStop)) rest
    else contentOf block failure stop { s with frames := ⟨tag, []⟩ :: s.frames } rest
  | s, .rawElement tag content start elementStop :: rest =>
    contentOf block failure stop
      (s.add (.element tag (rawChildren content start) elementStop)) rest
  | s, .closeTag tag :: rest =>
    if sameName tag.name.toList (s.innermost block).toList then
      match s.frames with
      | [] => .ok ⟨s.children.reverse, tag⟩
      | frame :: outer =>
        contentOf block failure stop
          ({ s with frames := outer }.add
            (.element frame.tag frame.children.reverse tag.after.offset)) rest
    else .error ⟨.unexpectedEndTag tag.name (s.innermost block), tag.start⟩

/-- The offset of the last `</` in a text that stands at `offset`. -/
def lastCloseMark? (offset : Nat) : List Char → Option Nat
  | [] => none
  | c :: r =>
    (lastCloseMark? (offset + c.utf8Size) r).or
      (if c = '<' ∧ r.head? = some '/' then some offset else none)

/-- The offset at which the content of a block ends: that of the last `</` up to
    the end of its end tag. -/
def CloseTag.contentEnd (tag : CloseTag) : Nat :=
  (lastCloseMark? tag.start ('<' :: '/' :: tag.inner)).getD tag.start

/-! ## §3. Progress of a block -/

theorem contentOf_close_mem {block : String} {failure : Option Error} {stop : Nat}
    {s : OpenElements} {tokens : List Token} {content : Content}
    (h : contentOf block failure stop s tokens = .ok content) :
    .closeTag content.close ∈ tokens := by
  induction tokens generalizing s with
  | nil => simp [contentOf] at h
  | cons token rest ih =>
    cases token with
    | closeTag tag =>
      simp only [contentOf] at h
      split at h
      · split at h
        · rw [← Except.ok.inj h]; exact List.mem_cons_self
        · exact List.mem_cons_of_mem _ (ih h)
      · cases h
    | openTag tag tagStop =>
      simp only [contentOf] at h
      split at h <;> exact List.mem_cons_of_mem _ (ih h)
    | comment | declaration | text | interpolation | rawElement =>
      simp only [contentOf] at h
      exact List.mem_cons_of_mem _ (ih h)

theorem readCloseTag_after {c d : Cursor} {t : CloseTag} (h : readCloseTag c = .ok (t, d)) :
    t.after = d := by
  unfold readCloseTag at h
  simp only at h
  split at h
  · obtain ⟨rfl, rfl⟩ := Prod.mk.inj (Except.ok.inj h)
    rfl
  · cases h

theorem next_closeTag_after {c d : Cursor} {t : CloseTag} (h : next c = .ok (.closeTag t, d)) :
    t.after = d := by
  unfold next at h
  split at h
  · unfold readComment at h; split at h <;> simp at h
  · split at h
    · split at h
      · cases h
      · next tag e he =>
        obtain ⟨ht, rfl⟩ := Prod.mk.inj (Except.ok.inj h)
        cases ht
        exact readCloseTag_after he
    · split at h
      · unfold readDeclaration at h; split at h <;> simp at h
      · split at h
        · unfold readElement at h
          split at h
          · cases h
          · split at h
            · split at h <;> simp at h
            · simp at h
        · split at h
          · next token ht =>
            cases Except.ok.inj h
            unfold readInterpolation? at ht
            split at ht
            · obtain ⟨_, _, heq⟩ := Option.map_eq_some_iff.1 ht
              simp at heq
            · cases ht
          · simp at h

theorem tokensFrom_close_shorter {c : Cursor} {t : CloseTag}
    (h : .closeTag t ∈ (tokensFrom c).tokens) : t.after.rest.length < c.rest.length := by
  induction hn : c.rest.length using Nat.strongRecOn generalizing c with
  | ind n ih =>
    subst hn
    rw [tokensFrom] at h
    split at h
    · simp at h
    · next hc =>
      split at h
      · simp at h
      · next token d hd =>
        have h1 := next_shorter hc hd
        rcases List.mem_cons.1 h with rfl | h
        · rw [next_closeTag_after hd]; exact h1
        · exact Nat.lt_trans (ih _ h1 h rfl) h1

/-! ## §4. Blocks -/

/-- Whether a block is to be read as a tree, if no template has been read yet. -/
def OpenTag.isTemplate (tag : OpenTag) : Bool :=
  tag.name = "template" &&
    match (tag.attribute? "lang").bind (·.value) with
    | none => true
    | some lang => sameName lang.toList ['h', 't', 'm', 'l']

/-- Reads what follows the start tag of a block up to the block's end. -/
def readBlockBody (component : Component) (tag : OpenTag) (c : Cursor) : Outcome Component :=
  let component := { component with blocks := component.blocks ++ [tag.name] }
  if tag.selfClosing then .ok (component, c)
  else if component.template.isNone && tag.isTemplate then
    let run := tokensFrom c
    match contentOf tag.name run.error run.stop {} run.tokens with
    | .error e => .error e
    | .ok content =>
      let block : Block :=
        { lang := (tag.attribute? "lang").bind (·.value)
          children := content.children
          contentStart := c.offset
          contentEnd := content.close.contentEnd }
      .ok ({ component with template := some block }, content.close.after)
  else
    match readRawText tag c with
    | .error e => .error e
    | .ok (_, d) => .ok (component, d)

theorem readBlockBody_length_le {component next : Component} {tag : OpenTag} {c d : Cursor}
    (h : readBlockBody component tag c = .ok (next, d)) : d.rest.length ≤ c.rest.length := by
  unfold readBlockBody at h
  simp only at h
  split at h
  · obtain ⟨_, rfl⟩ := Prod.mk.inj (Except.ok.inj h)
    exact Nat.le_refl _
  · split at h
    · split at h
      · cases h
      · next content hcontent =>
        obtain ⟨_, rfl⟩ := Prod.mk.inj (Except.ok.inj h)
        exact Nat.le_of_lt (tokensFrom_close_shorter (contentOf_close_mem hcontent))
    · split at h
      · cases h
      · next hraw =>
        obtain ⟨_, rfl⟩ := Prod.mk.inj (Except.ok.inj h)
        exact Nat.le_of_lt (readRawText_shorter hraw)

/-- Reads one part of a component: a comment, a declaration, a block, or a
    character between them. -/
def readPart (component : Component) (c : Cursor) : Outcome Component :=
  if startsComment c.rest then (readComment c).map fun (_, d) => (component, d)
  else if startsCloseTag c.rest then
    match readCloseTag c with
    | .error e => .error e
    | .ok (tag, _) => .error ⟨.unexpectedTopLevelEndTag tag.name, tag.start⟩
  else if startsDeclaration c.rest then
    (readDeclaration c).map fun (_, d) => (component, d)
  else if startsOpenTag c.rest then
    match readOpenTag c with
    | .error e => .error e
    | .ok (tag, d) => readBlockBody component tag d
  else .ok (component, c.skip 1)

theorem readPart_shorter {component next : Component} {c d : Cursor} (hc : c.rest ≠ [])
    (h : readPart component c = .ok (next, d)) : d.rest.length < c.rest.length := by
  unfold readPart at h
  split at h
  · cases hr : readComment c with
    | error e => rw [hr] at h; cases h
    | ok r => rw [hr] at h; cases h; exact readComment_shorter hr
  · split at h
    · split at h <;> cases h
    · split at h
      · cases hr : readDeclaration c with
        | error e => rw [hr] at h; cases h
        | ok r => rw [hr] at h; cases h; exact readDeclaration_shorter hr
      · split at h
        · split at h
          · cases h
          · next tag e he =>
            exact Nat.lt_of_le_of_lt (readBlockBody_length_le h) (readOpenTag_shorter he)
        · obtain ⟨_, rfl⟩ := Prod.mk.inj (Except.ok.inj h)
          have := List.length_pos_iff.2 hc
          rw [Cursor.length_skip]
          omega

/-- Reads the parts of a component from a cursor on. -/
def readParts (component : Component) (c : Cursor) : Except Error Component :=
  if hc : c.rest = [] then .ok component
  else
    match hp : readPart component c with
    | .error e => .error e
    | .ok (next, d) =>
      have := readPart_shorter hc hp
      readParts next d
termination_by c.rest.length

/-- The component that a text holds. -/
def Component.parse (source : List Char) : Except Error Component := readParts {} ⟨0, source⟩

end Provenance.Template
