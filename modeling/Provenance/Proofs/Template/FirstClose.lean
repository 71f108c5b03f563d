import Provenance.Proofs.Scanner.Content

/-! # Where raw text ends

  Raw text ends at the first end tag of its element: `</`, the name in either case, and
  behind it something that ends a name (`BeginsClose`).

  The search for it does not look at every place.  Where the name stands but goes on, all of
  its characters are passed over at once, and what is found must be shown to be the first end
  tag all the same.  It is, since an end tag that began inside the characters passed over would
  have its slash there: not in the name, which has none, nor right behind it, where a slash
  would have ended the name (`not_beginsClose_inside`).

  Main statement: the search finds the least offset at which an end tag begins, and nothing
  exactly if there is none (`findCloseTag?_least`).
-/

namespace Provenance.Template

open Text (Cursor byteSize byteSize_append slice?)
open Text.Cursor (Takes)

/-! ## §1. End tags of a name -/

/-- An end tag of a name begins in front of some characters: `</`, the name up to case, and
    behind it a mark that ends a name, or nothing. -/
def BeginsClose (name s : List Char) : Prop :=
  ∃ word rest, s = '<' :: '/' :: (word ++ rest) ∧ lowered word = lowered name ∧
    endsTagName rest = true

/-- An end tag of a name begins at a byte offset of a text. -/
def ClosesAt (source name : List Char) (o : Nat) : Prop :=
  ∃ front s, source = front ++ s ∧ byteSize front = o ∧ BeginsClose name s

variable {name s : List Char}

/-- What the search looks for, in lower case, is in front of an end tag, and of nothing else
    that ends a name behind it. -/
theorem beginsClose_iff : BeginsClose name s ↔
    '<' :: '/' :: lowered name <+: lowered s ∧ endsTagName (s.drop (name.length + 2)) = true := by
  constructor
  · rintro ⟨word, rest, rfl, hword, hends⟩
    have hlen : word.length = name.length := by
      rw [← length_lowered word, hword, length_lowered]
    refine ⟨⟨lowered rest, ?_⟩, ?_⟩
    · rw [← hword, List.cons_append, List.cons_append, ← lowered_append]
      rfl
    · rw [← hlen, List.drop_succ_cons, List.drop_succ_cons, List.drop_left]
      exact hends
  · rintro ⟨⟨t, ht⟩, hends⟩
    obtain ⟨w, rest, rfl, hw, -⟩ := List.map_eq_append_iff.1 ht.symm
    -- only the two marks become the two marks
    obtain ⟨x, w, rfl, hx, hw⟩ := List.map_eq_cons_iff.1 hw
    obtain ⟨y, word, rfl, hy, hword⟩ := List.map_eq_cons_iff.1 hw
    obtain rfl := eq_of_toLower_eq (by decide) hx
    obtain rfl := eq_of_toLower_eq (by decide) hy
    have hlen : word.length = name.length := by
      rw [← length_lowered word, show lowered word = lowered name from hword, length_lowered]
    rw [← hlen, List.cons_append, List.cons_append, List.drop_succ_cons, List.drop_succ_cons,
      List.drop_left] at hends
    exact ⟨word, rest, rfl, hword, hends⟩

/-- No end tag begins behind the first character of a longer name, up to where that name is
    known to go on. -/
theorem not_beginsClose_inside (hname : '/' ∉ name) {u v : List Char}
    (hfront : '<' :: '/' :: lowered name <+: lowered (u ++ v))
    (hlonger : endsTagName ((u ++ v).drop (name.length + 2)) = false) (hu : u ≠ [])
    (hlen : u.length < name.length + 2) : ¬ BeginsClose name v := by
  rintro ⟨word, rest, rfl, -, -⟩
  match u, hu with
  | [x], _ =>
    -- the slash of the longer name would be the `<` of the end tag
    obtain ⟨-, hslash⟩ := List.cons_prefix_cons.1 hfront
    cases (List.cons_prefix_cons.1 hslash).1
  | x :: y :: u, _ =>
    obtain ⟨-, hslash⟩ := List.cons_prefix_cons.1 hfront
    obtain ⟨-, hpre⟩ := List.cons_prefix_cons.1 hslash
    have hmark : lowered u ++ ['<', '/'] <+: lowered (u ++ '<' :: '/' :: (word ++ rest)) :=
      ⟨lowered (word ++ rest), by rw [List.append_assoc, lowered_append u]; rfl⟩
    rw [List.length_cons, List.length_cons] at hlen
    by_cases hin : u.length + 2 ≤ name.length
    · -- the slash of the end tag is a character of the name
      have hlong : (lowered u ++ ['<', '/']).length ≤ (lowered name).length := by
        rw [List.length_append, length_lowered, length_lowered]
        exact hin
      have hmem := (List.prefix_of_prefix_length_le hmark hpre hlong).subset
        (List.mem_append_right _ (List.mem_cons_of_mem _ List.mem_cons_self))
      exact not_mem_lowered (by decide) hname hmem
    · -- the slash of the end tag stands right behind the name
      obtain hend : name.length = u.length + 1 := by omega
      have hdrop : (x :: y :: u ++ '<' :: '/' :: (word ++ rest)).drop (name.length + 2) =
          '/' :: (word ++ rest) := by
        rw [hend, List.cons_append, List.cons_append, List.drop_succ_cons, List.drop_succ_cons,
          ← List.drop_drop, List.drop_left]
        rfl
      rw [hdrop] at hlonger
      cases hlonger

/-! ## §2. The first end tag -/

/-- A text is split in front of the first end tag of a name. -/
structure FirstClose (name s a b : List Char) : Prop where
  split : s = a ++ b
  begins : BeginsClose name b
  first : ∀ u v, s = u ++ v → u.length < a.length → ¬ BeginsClose name v

theorem FirstClose.cons {x : Char} {a b : List Char} (hx : ¬ BeginsClose name (x :: s))
    (h : FirstClose name s a b) : FirstClose name (x :: s) (x :: a) b where
  split := congrArg (x :: ·) h.split
  begins := h.begins
  first := by
    intro u v hsplit hlen
    cases u with
    | nil =>
      rw [← show x :: s = v from hsplit]
      exact hx
    | cons y u => exact h.first u v (List.cons.inj hsplit).2 (Nat.lt_of_succ_lt_succ hlen)

/-- What the search may find in a text: what is in front of the first end tag and the end tag
    with what follows, or nothing if there is none. -/
inductive FindsClose (name s : List Char) : Option (List Char × List Char) → Prop where
  | first {a b : List Char} (h : FirstClose name s a b) : FindsClose name s (some (a, b))
  | nothing (h : ∀ u v, s = u ++ v → ¬ BeginsClose name v) : FindsClose name s none

/-- One character is passed over that begins no end tag. -/
theorem FindsClose.cons {x : Char} {found : Option (List Char × List Char)}
    (hx : ¬ BeginsClose name (x :: s)) (h : FindsClose name s found) :
    FindsClose name (x :: s) (found.map fun parts => (x :: parts.1, parts.2)) := by
  cases h with
  | first h => exact .first (h.cons hx)
  | nothing h =>
    refine .nothing fun u v hsplit => ?_
    cases u with
    | nil =>
      rw [← show x :: s = v from hsplit]
      exact hx
    | cons y u => exact h u v (List.cons.inj hsplit).2

/-- The search finds the first end tag, if none begins in what it passes over. -/
theorem splitBeforeClose?_first (hname : '/' ∉ name) {skip : Nat}
    (hskip : ∀ u v, s = u ++ v → u.length < skip → ¬ BeginsClose name v) :
    FindsClose name s (splitBeforeClose? ('<' :: '/' :: lowered name) skip s) := by
  induction s generalizing skip with
  | nil =>
    refine .nothing ?_
    rintro u v hnil ⟨word, rest, rfl, -, -⟩
    exact absurd (List.append_eq_nil_iff.1 hnil.symm).2 (List.cons_ne_nil _ _)
  | cons x r ih =>
    cases skip with
    | succ n =>
      refine (ih ?_).cons (hskip [] _ rfl (Nat.succ_pos n))
      intro u v hr hlen
      exact hskip (x :: u) v (congrArg (x :: ·) hr) (Nat.succ_lt_succ hlen)
    | zero =>
      rw [splitBeforeClose?]
      split
      · next hpre =>
        have hfront := List.isPrefixOf_iff_prefix.1 hpre
        have hlen : ('<' :: '/' :: lowered name).length = name.length + 2 := by
          rw [List.length_cons, List.length_cons, length_lowered]
        rw [hlen]
        cases hends : endsTagName ((x :: r).drop (name.length + 2)) with
        | true =>
          have hbegins := beginsClose_iff.2 ⟨hfront, hends⟩
          exact .first ⟨rfl, hbegins, fun u v _ hnone => absurd hnone (Nat.not_lt_zero _)⟩
        | false =>
          -- the name goes on, and its characters are passed over
          refine (ih ?_).cons fun hbegins => ?_
          · intro u v hr hin
            rw [hr] at hfront hends
            exact not_beginsClose_inside hname (u := x :: u) hfront hends (List.cons_ne_nil _ _)
              (Nat.succ_lt_succ hin)
          · rw [(beginsClose_iff.1 hbegins).2] at hends
            cases hends
      · next hpre =>
        refine (ih ?_).cons fun hbegins => ?_
        · exact fun u v _ hnone => absurd hnone (Nat.not_lt_zero _)
        · exact hpre (List.isPrefixOf_iff_prefix.2 (beginsClose_iff.1 hbegins).1)

/-! ## §3. The search in a source -/

variable {source : List Char} {c d : Cursor}

/-- Behind a cursor end tags begin where they begin in what remains. -/
theorem closesAt_iff (hc : c.StandsIn source) {o : Nat} :
    c.offset ≤ o ∧ ClosesAt source name o ↔
      ∃ u v, c.rest = u ++ v ∧ o = c.offset + byteSize u ∧ BeginsClose name v := by
  obtain ⟨front, hsource, hsize⟩ := hc
  constructor
  · rintro ⟨hle, before, v, hsplit, hbefore, hbegins⟩
    obtain ⟨u, rfl, hrest⟩ := Text.append_split_of_byteSize_le (hsource.symm.trans hsplit)
      (by omega)
    rw [byteSize_append] at hbefore
    exact ⟨u, v, hrest, by omega, hbegins⟩
  · rintro ⟨u, v, hrest, rfl, hbegins⟩
    refine ⟨Nat.le_add_right _ _, front ++ u, v, ?_, ?_, hbegins⟩
    · rw [hsource, hrest, List.append_assoc]
    · rw [byteSize_append, hsize]

/-- No end tag begins in front of the first one. -/
theorem FirstClose.le {a b : List Char} (h : FirstClose name c.rest a b) (hc : c.StandsIn source)
    {o : Nat} (hle : c.offset ≤ o) (ho : ClosesAt source name o) : c.offset + byteSize a ≤ o := by
  obtain ⟨u, v, hrest, rfl, hbegins⟩ := (closesAt_iff hc).1 ⟨hle, ho⟩
  by_cases hlen : u.length < a.length
  · exact absurd hbegins (h.first u v hrest hlen)
  · -- both are parts of the same text, so the longer one takes at least as many bytes
    obtain ⟨w, rfl⟩ : a <+: u :=
      List.prefix_of_prefix_length_le ⟨b, h.split.symm⟩ ⟨v, hrest.symm⟩ (by omega)
    rw [byteSize_append]
    omega

/-- The search finds the first end tag behind a cursor, or nothing where there is none. -/
theorem findCloseTag?_cases (hname : '/' ∉ name) (hc : c.StandsIn source) :
    (∃ content close, findCloseTag? c name = some (content, close) ∧ Takes c content close ∧
      ClosesAt source name close.offset ∧
      ∀ o, c.offset ≤ o → ClosesAt source name o → close.offset ≤ o) ∨
    (findCloseTag? c name = none ∧ ∀ o, c.offset ≤ o → ¬ ClosesAt source name o) := by
  have hskip : ∀ u v, c.rest = u ++ v → u.length < 0 → ¬ BeginsClose name v :=
    fun u v _ hnone => absurd hnone (Nat.not_lt_zero _)
  have hfinds := splitBeforeClose?_first hname hskip
  unfold findCloseTag?
  generalize splitBeforeClose? ('<' :: '/' :: lowered name) 0 c.rest = found at hfinds
  cases hfinds with
  | @first a b hfirst =>
    refine .inl ⟨a, c.past a b, rfl, Cursor.takes_past hfirst.split, ?_, ?_⟩
    · exact ((closesAt_iff hc).2 ⟨a, b, hfirst.split, rfl, hfirst.begins⟩).2
    · intro o hle ho
      exact hfirst.le hc hle ho
  | nothing hall =>
    refine .inr ⟨rfl, fun o hle ho => ?_⟩
    obtain ⟨u, v, hrest, -, hbegins⟩ := (closesAt_iff hc).1 ⟨hle, ho⟩
    exact hall u v hrest hbegins

/-- The name of a start tag that is read has no slash. -/
theorem slash_not_mem_name {b : Cursor} {tag : OpenTag} (h : readOpenTag b = .ok (tag, d)) :
    '/' ∉ tag.name.toList := by
  intro hmem
  have hpart : isTagNamePart '/' = true := by
    unfold readOpenTag at h
    simp only at h
    split at h
    · cases h
    · cases h
    · obtain ⟨rfl, -⟩ := Prod.mk.inj (Except.ok.inj h)
      rw [String.toList_ofList] at hmem
      exact List.all_eq_true.1 List.all_takeWhile '/' hmem
  revert hpart
  decide

/-- Looking for the end tag of a start tag that was read, from anywhere in a source, finds the
    least offset at which one begins, whichever candidates are passed over on the way, and
    nothing exactly if none begins there.  The scanner by octets finds the same.  So raw text
    is what stands in front of the first end tag. -/
theorem findCloseTag?_least {b : Cursor} {tag : OpenTag} (hc : c.StandsIn source)
    (hread : readOpenTag b = .ok (tag, d)) :
    (∀ p, (findCloseTag? c tag.name.toList).map (·.2.offset) = some p ↔
      c.offset ≤ p ∧ ClosesAt source tag.name.toList p ∧
        ∀ q, c.offset ≤ q → ClosesAt source tag.name.toList q → p ≤ q) ∧
    (findCloseTag? c tag.name.toList = none ↔
      ∀ q, c.offset ≤ q → ¬ ClosesAt source tag.name.toList q) ∧
    Scanner.findCloseTag source tag.name.toList c.offset =
      some ((findCloseTag? c tag.name.toList).map (·.2.offset)) ∧
    ∀ content stop, readRawText tag c = .ok (content, stop) →
      ∃ p, slice? source c.offset p = some content ∧ ClosesAt source tag.name.toList p ∧
        ∀ q, c.offset ≤ q → ClosesAt source tag.name.toList q → p ≤ q := by
  have hscan := Scanner.findCloseTag_eq hc tag.name.toList
  rcases findCloseTag?_cases (slash_not_mem_name hread) hc with
    ⟨text, close, hfound, htakes, hcloses, hleast⟩ | ⟨hnone, hall⟩
  · refine ⟨fun p => ?_, ?_, hscan, fun content stop hraw => ?_⟩
    · rw [hfound, Option.map_some, Option.some.injEq]
      constructor
      · rintro rfl
        exact ⟨htakes.offset_le, hcloses, hleast⟩
      · rintro ⟨hle, hp, hfirst⟩
        exact Nat.le_antisymm (hleast p hle hp) (hfirst _ htakes.offset_le hcloses)
    · rw [hfound]
      exact iff_of_false (by simp) fun hall => hall _ htakes.offset_le hcloses
    · unfold readRawText at hraw
      rw [hfound] at hraw
      simp only at hraw
      split at hraw
      · cases hraw
      · obtain ⟨rfl, -⟩ := Prod.mk.inj (Except.ok.inj hraw)
        exact ⟨close.offset, hc.slice htakes, hcloses, hleast⟩
  · refine ⟨fun p => ?_, iff_of_true hnone hall, hscan, fun content stop hraw => ?_⟩
    · rw [hnone, Option.map_none]
      exact iff_of_false (by simp) fun hp => hall p hp.1 hp.2.1
    · rw [readRawText, hnone] at hraw
      cases hraw

/-- A name that holds the mark of a tag, and a candidate in front of the end tag that is
    followed by one more mark. -/
theorem findCloseTag?_least_mark :
    ∃ (source : List Char) (c d : Cursor) (tag : OpenTag),
      source = "<a<b>é</a<b</a<B</A<B x".toList ∧ c.StandsIn source ∧
      readOpenTag ⟨0, source⟩ = .ok (tag, d) ∧ c = d ∧ tag.name = "a<b" ∧
      ClosesAt source "a<b".toList 17 ∧ ∀ q, 5 ≤ q → ClosesAt source "a<b".toList q → 17 ≤ q := by
  obtain ⟨source, hsource⟩ : ∃ source, source = "<a<b>é</a<b</a<B</A<B x".toList := ⟨_, rfl⟩
  have htag : (readOpenTag ⟨0, source⟩).toOption =
      some (⟨"a<b", 0, 4, [], false⟩, ⟨5, "é</a<b</a<B</A<B x".toList⟩) := by
    subst hsource
    decide +kernel
  have hstands : Cursor.StandsIn ⟨5, "é</a<b</a<B</A<B x".toList⟩ source :=
    ⟨"<a<b>".toList, by rw [hsource]; rfl, rfl⟩
  have hfound : (findCloseTag? ⟨5, "é</a<b</a<B</A<B x".toList⟩ "a<b".toList).map (·.2.offset) =
      some 17 := by
    decide +kernel
  cases hread : readOpenTag ⟨0, source⟩ with
  | error e =>
    rw [hread] at htag
    cases htag
  | ok found =>
    rw [hread] at htag
    obtain rfl := Option.some.inj htag
    obtain ⟨-, hcloses, hfirst⟩ := ((findCloseTag?_least hstands hread).1 17).1 hfound
    exact ⟨source, _, _, _, hsource, hstands, hread, rfl, rfl, hcloses, hfirst⟩

end Provenance.Template
