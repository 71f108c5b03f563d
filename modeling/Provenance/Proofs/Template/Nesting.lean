import Provenance.Proofs.Scanner.Content

/-! # Open elements

  Which elements are open behind some tokens can be said without the stack that builds the
  tree.  In tokens that are balanced each start tag is followed by its end tag, with balanced
  tokens between the two (`Balanced`); the elements that are open are those whose start tags
  have balanced tokens between them (`Leaves`).

  The stack holds these elements: each token that is taken keeps it so (`carries_cases`), and
  for all tokens that leave some elements open there is such a stack (`Leaves.carries`).

  Main statement: the content of a block cannot be built exactly if some tokens in front of a
  place are taken and at this place the text ends, no token can be read, or an end tag stands
  that is not the one of the innermost open element (`contentOf_eq_error_iff`).
-/

namespace Provenance.Template

open Text (Cursor)

/-! ## §1. Balanced tokens -/

/-- Whether a token opens no element and closes none. -/
def Token.isWhole : Token → Bool
  | .openTag tag _ => tag.isLeaf
  | .closeTag _ => false
  | .comment _ _ | .declaration | .text _ _ | .interpolation _ _ | .rawElement _ _ _ _ => true

/-- Tokens that close what they open, and nothing else. -/
inductive Balanced : List Token → Prop where
  | nil : Balanced []
  | whole {t : Token} {ts : List Token} (ht : t.isWhole = true) (hs : Balanced ts) :
    Balanced (t :: ts)
  | element {tag : OpenTag} {stop : Nat} {close : CloseTag} {inside ts : List Token}
    (hleaf : tag.isLeaf = false) (hin : Balanced inside)
    (hname : sameName close.name.toList tag.name.toList = true) (hs : Balanced ts) :
    Balanced (.openTag tag stop :: (inside ++ .closeTag close :: ts))

theorem Balanced.append {ts us : List Token} (h : Balanced ts) (hs : Balanced us) :
    Balanced (ts ++ us) := by
  induction h with
  | nil => exact hs
  | whole ht _ ih => exact .whole ht ih
  | element hleaf hin hname _ _ ih =>
    rw [List.cons_append, List.append_assoc]
    exact .element hleaf hin hname ih

/-- Tokens leave the elements of some start tags open, innermost first. -/
inductive Leaves : List Token → List OpenTag → Prop where
  | none {ts : List Token} (h : Balanced ts) : Leaves ts []
  | inside {front ts : List Token} {tags : List OpenTag} {tag : OpenTag} {stop : Nat}
    (hfront : Leaves front tags) (hleaf : tag.isLeaf = false) (h : Balanced ts) :
    Leaves (front ++ .openTag tag stop :: ts) (tag :: tags)

namespace Leaves

variable {ts us : List Token} {tags : List OpenTag} {tag : OpenTag}

theorem append (h : Leaves ts tags) (hs : Balanced us) : Leaves (ts ++ us) tags := by
  cases h with
  | none h => exact .none (h.append hs)
  | inside hfront hleaf h =>
    rw [List.append_assoc]
    exact .inside hfront hleaf (h.append hs)

/-- A start tag opens its element inside those that are open. -/
theorem push (h : Leaves ts tags) (hleaf : tag.isLeaf = false) (stop : Nat) :
    Leaves (ts ++ [.openTag tag stop]) (tag :: tags) :=
  .inside h hleaf .nil

/-- An end tag closes the innermost open element. -/
theorem pop (h : Leaves ts (tag :: tags)) {close : CloseTag}
    (hname : sameName close.name.toList tag.name.toList = true) :
    Leaves (ts ++ [.closeTag close]) tags := by
  cases h with
  | @inside front us _ _ stop hfront hleaf hin =>
    have helement : Balanced (.openTag tag stop :: (us ++ [.closeTag close])) :=
      .element hleaf hin hname .nil
    rw [List.append_assoc]
    exact hfront.append helement

end Leaves

/-! ## §2. The stack -/

/-- The start tags of the open elements, innermost first. -/
def OpenElements.unclosed (s : OpenElements) : List OpenTag := s.frames.map (·.tag)

theorem OpenElements.unclosed_add (s : OpenElements) (node : Node) :
    (s.add node).unclosed = s.unclosed := by
  obtain ⟨frames, children⟩ := s
  cases frames <;> rfl

/-- The innermost open element, or else the block around all of them. -/
theorem OpenElements.innermost_eq (s : OpenElements) (block : OpenTag) :
    ∃ tag outer, s.unclosed ++ [block] = tag :: outer ∧ s.innermost block.name = tag.name := by
  obtain ⟨frames, children⟩ := s
  cases frames with
  | nil => exact ⟨block, [], rfl, rfl⟩
  | cons frame frames => exact ⟨frame.tag, _, rfl, rfl⟩

/-- Some tokens lead from open elements to others, whatever follows. -/
def Carries (block : String) (s : OpenElements) (ts : List Token) (s' : OpenElements) : Prop :=
  ∀ failure stop rest,
    contentOf block failure stop s (ts ++ rest) = contentOf block failure stop s' rest

section Carries

variable {block : String} {s s' s'' : OpenElements} {ts us : List Token} {t : Token}

theorem Carries.append (h : Carries block s ts s') (h' : Carries block s' us s'') :
    Carries block s (ts ++ us) s'' := by
  intro failure stop rest
  rw [List.append_assoc, h, h']

/-- A token that is whole leaves open what is open. -/
theorem carries_whole (ht : t.isWhole = true) (block : String) (s : OpenElements) :
    ∃ s', s'.unclosed = s.unclosed ∧ Carries block s [t] s' := by
  cases t with
  | comment content start => exact ⟨_, s.unclosed_add (.comment content start), fun _ _ _ => rfl⟩
  | declaration => exact ⟨s, rfl, fun _ _ _ => rfl⟩
  | text content start => exact ⟨_, s.unclosed_add (.text content start), fun _ _ _ => rfl⟩
  | interpolation content start =>
    exact ⟨_, s.unclosed_add (.interpolation content start), fun _ _ _ => rfl⟩
  | rawElement tag content start stop =>
    exact ⟨_, s.unclosed_add (.element tag (rawChildren content start) stop), fun _ _ _ => rfl⟩
  | openTag tag stop =>
    have hleaf : tag.isLeaf = true := ht
    exact ⟨_, s.unclosed_add (.element tag [] stop), fun _ _ _ => by
      simp only [List.cons_append, contentOf, hleaf, if_true]; rfl⟩
  | closeTag tag => cases ht

theorem carries_open {tag : OpenTag} (hleaf : tag.isLeaf = false) (tagStop : Nat) (block : String)
    (s : OpenElements) :
    ∃ s', s'.unclosed = tag :: s.unclosed ∧ Carries block s [.openTag tag tagStop] s' := by
  refine ⟨{ s with frames := ⟨tag, []⟩ :: s.frames }, rfl, fun _ _ _ => ?_⟩
  simp only [List.cons_append, contentOf, hleaf, Bool.false_eq_true, if_false]
  rfl

theorem carries_close {tag : OpenTag} {outer : List OpenTag} (hs : s.unclosed = tag :: outer)
    {close : CloseTag} (hname : sameName close.name.toList tag.name.toList = true)
    (block : String) : ∃ s', s'.unclosed = outer ∧ Carries block s [.closeTag close] s' := by
  obtain ⟨frames, children⟩ := s
  cases frames with
  | nil => cases hs
  | cons frame frames =>
    obtain ⟨rfl, rfl⟩ := List.cons.inj hs
    refine ⟨_, OpenElements.unclosed_add ⟨frames, children⟩
      (.element frame.tag frame.children.reverse close.after.offset), fun _ _ _ => ?_⟩
    simp only [List.cons_append, contentOf, OpenElements.innermost, hname, if_true]
    rfl

/-- Balanced tokens leave open what is open. -/
theorem Balanced.carries (h : Balanced ts) (block : String) (s : OpenElements) :
    ∃ s', s'.unclosed = s.unclosed ∧ Carries block s ts s' := by
  induction h generalizing s with
  | nil => exact ⟨s, rfl, fun _ _ _ => rfl⟩
  | whole ht hs ih =>
    obtain ⟨s₁, heq₁, h₁⟩ := carries_whole ht block s
    obtain ⟨s₂, heq₂, h₂⟩ := ih s₁
    exact ⟨s₂, heq₂.trans heq₁, h₁.append h₂⟩
  | @element tag stop close inside ts hleaf hin hname hs ihin ih =>
    -- the start tag opens the element, and its end tag finds it as the innermost one
    obtain ⟨s₁, heq₁, h₁⟩ := carries_open hleaf stop block s
    obtain ⟨s₂, heq₂, h₂⟩ := ihin s₁
    obtain ⟨s₃, heq₃, h₃⟩ := carries_close (heq₂.trans heq₁) hname block
    obtain ⟨s₄, heq₄, h₄⟩ := ih s₃
    exact ⟨s₄, heq₄.trans heq₃, h₁.append (h₂.append (h₃.append h₄))⟩

/-- The elements that some tokens leave open are on the stack behind them. -/
theorem Leaves.carries {tags : List OpenTag} (h : Leaves ts tags) (block : String) :
    ∃ s : OpenElements, s.unclosed = tags ∧ Carries block {} ts s := by
  induction h with
  | none h => exact h.carries block {}
  | @inside front ts tags tag stop hfront hleaf h ih =>
    obtain ⟨s₁, heq₁, h₁⟩ := ih
    obtain ⟨s₂, heq₂, h₂⟩ := carries_open hleaf stop block s₁
    obtain ⟨s₃, heq₃, h₃⟩ := h.carries block s₂
    exact ⟨s₃, by rw [heq₃, heq₂, heq₁], h₁.append (h₂.append h₃)⟩

/-- A token leads to other open elements, ends the block, or is an end tag that is not the one
    of the innermost open element. -/
theorem carries_cases {front : List Token} (h : Leaves front s.unclosed) (t : Token) :
    (∃ s', Leaves (front ++ [t]) s'.unclosed ∧ Carries block s [t] s') ∨
    (∃ content, ∀ failure stop rest, contentOf block failure stop s (t :: rest) = .ok content) ∨
    (∃ tag, t = .closeTag tag ∧ sameName tag.name.toList (s.innermost block).toList = false) := by
  -- besides whole tokens there are start tags with content, and end tags
  by_cases ht : t.isWhole = true
  · obtain ⟨s', heq, hs'⟩ := carries_whole ht block s
    exact .inl ⟨s', heq ▸ h.append (.whole ht .nil), hs'⟩
  · cases t with
    | comment | declaration | text | interpolation | rawElement => exact absurd rfl ht
    | openTag tag stop =>
      have hleaf : tag.isLeaf = false := Bool.eq_false_iff.2 ht
      obtain ⟨s', heq, hs'⟩ := carries_open hleaf stop block s
      exact .inl ⟨s', heq ▸ h.push hleaf stop, hs'⟩
    | closeTag tag =>
      cases hname : sameName tag.name.toList (s.innermost block).toList with
      | false => exact .inr (.inr ⟨tag, rfl, hname⟩)
      | true =>
        -- the end tag closes the innermost element, or the block if none is open
        cases hs : s.unclosed with
        | nil =>
          obtain ⟨frames, children⟩ := s
          obtain rfl : frames = [] := List.map_eq_nil_iff.1 hs
          exact .inr (.inl ⟨_, fun _ _ _ => by simp only [contentOf, hname, if_true]; rfl⟩)
        | cons inner outer =>
          obtain ⟨frame, frames, hframes, rfl, -⟩ := List.map_eq_cons_iff.1 hs
          rw [OpenElements.innermost, hframes] at hname
          obtain ⟨s', heq, hs'⟩ := carries_close hs hname block
          rw [hs] at h
          exact .inl ⟨s', heq ▸ h.pop hname, hs'⟩

end Carries

/-! ## §3. Where the content of a block fails -/

/-- The content of an element or a block cannot be built behind a cursor. -/
inductive FailsIn (parent : String) (c : Cursor) : Error → Prop where
  | ended (hc : c.rest = []) : FailsIn parent c ⟨.missingEndTag parent, c.offset⟩
  | token {e : Error} (hc : c.rest ≠ []) (hn : next c = .error e) : FailsIn parent c e
  | close {d : Cursor} {tag : CloseTag} {mark : List Char} (hopen : startsCloseTag c.rest = true)
    (hclose : ReadsClose c tag mark d)
    (hname : sameName tag.name.toList parent.toList = false) :
    FailsIn parent c ⟨.unexpectedEndTag tag.name parent, c.offset⟩

theorem FailsIn.fails {parent : String} {c : Cursor} {e : Error} (h : FailsIn parent c e) :
    Scanner.Fails parent c e := by
  cases h with
  | ended hc => exact .of_end hc
  | token hc hn => exact .of_next hc hn
  | close hopen hclose hname => exact .of_close hopen hclose hname

/-- An error in the content of a block comes up behind tokens that are taken. -/
theorem contentOf_error {block : String} {m c : Cursor} {front : List Token} {s : OpenElements}
    {e : Error} (hscan : Scan m front c) (hfront : Leaves front s.unclosed)
    (h : contentOf block (tokensFrom c).error (tokensFrom c).stop s (tokensFrom c).tokens =
      .error e) :
    ∃ (tokens : List Token) (d : Cursor) (s' : OpenElements), Scan m tokens d ∧
      Leaves tokens s'.unclosed ∧ FailsIn (s'.innermost block) d e := by
  induction hn : c.rest.length using Nat.strongRecOn generalizing c front s with
  | ind n ih =>
    subst hn
    -- where nothing can be taken, this is the error
    have here : ∀ {e'}, FailsIn (s.innermost block) c e' →
        ∃ (tokens : List Token) (d : Cursor) (s' : OpenElements), Scan m tokens d ∧
          Leaves tokens s'.unclosed ∧ FailsIn (s'.innermost block) d e := by
      intro e' hfails
      cases h.symm.trans (hfails.fails block s rfl)
      exact ⟨front, c, s, hscan, hfront, hfails⟩
    by_cases hc : c.rest = []
    · exact here (.ended hc)
    · cases hread : next c with
      | error e' => exact here (.token hc hread)
      | ok found =>
        obtain ⟨t, d⟩ := found
        have ht := readsToken_of_next hread
        rcases carries_cases hfront t with ⟨s', hleaves, hstep⟩ | ⟨content, hend⟩ |
          ⟨tag, rfl, hname⟩
        · -- the token is taken, and the error comes up behind it
          rw [tokensFrom_step hc ht] at h
          have hd : Scan m (front ++ [t]) d := Scan.append_iff.2 ⟨c, hscan, .cons hc ht (.nil d)⟩
          exact ih _ (next_shorter hc hread) hd hleaves ((hstep _ _ _).symm.trans h) rfl
        · rw [tokensFrom_step hc ht, hend] at h
          cases h
        · cases ht with
          | closeTag hopen hclose => exact here (.close hopen hclose hname)

/-- The content of a block cannot be built exactly if it fails behind tokens that are taken, in
    the innermost element that they leave open or in the block itself. -/
theorem contentOf_eq_error_iff {block : OpenTag} {m : Cursor} {e : Error} :
    contentOf block.name (tokensFrom m).error (tokensFrom m).stop {} (tokensFrom m).tokens =
        .error e ↔
      ∃ tokens c tags tag outer, Scan m tokens c ∧ Leaves tokens tags ∧
        tags ++ [block] = tag :: outer ∧ FailsIn tag.name c e := by
  constructor
  · intro h
    -- right behind the start tag of the block nothing is open
    have hnothing : Leaves [] ({} : OpenElements).unclosed := .none .nil
    obtain ⟨tokens, c, s, hscan, hleaves, hfails⟩ := contentOf_error (.nil m) hnothing h
    obtain ⟨tag, outer, hopen, hname⟩ := s.innermost_eq block
    exact ⟨tokens, c, s.unclosed, tag, outer, hscan, hleaves, hopen, hname ▸ hfails⟩
  · rintro ⟨tokens, c, tags, tag, outer, hscan, hleaves, hopen, hfails⟩
    obtain ⟨s, rfl, hcarries⟩ := hleaves.carries block.name
    obtain ⟨tag', outer', hopen', hname⟩ := s.innermost_eq block
    obtain ⟨rfl, -⟩ := List.cons.inj (hopen.symm.trans hopen')
    -- the tokens lead to a stack on which the same element is the innermost one
    rw [tokensFrom_of_scan hscan]
    exact (hcarries _ _ _).trans (hfails.fails block.name s hname)

end Provenance.Template
