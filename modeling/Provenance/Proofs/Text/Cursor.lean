import Provenance.Text.Cursor
import Provenance.Proofs.Text.Size

/-! # What a cursor takes

  A cursor moves over a piece of the text, and its offset grows by the size of
  that piece (`Takes`).

  - Reading up to a pattern depends only on the characters up to the end of its
    first occurrence: what follows may be replaced (`splitOn?_replace`).
  - A pattern is not found exactly when it occurs nowhere
    (`splitOn?_eq_none_iff`).
-/

namespace Provenance.Text

/-! ## §1. Patterns in front -/

theorem isPrefixOf?_append (p r : List Char) : p.isPrefixOf? (p ++ r) = some r := by
  induction p with
  | nil => cases r <;> rfl
  | cons x p ih =>
    show (if x == x then p.isPrefixOf? (p ++ r) else none) = some r
    rw [if_pos (beq_self_eq_true x)]
    exact ih

theorem isPrefixOf?_eq_some_iff {p s r : List Char} :
    p.isPrefixOf? s = some r ↔ s = p ++ r := by
  constructor
  · exact Cursor.eq_append_of_isPrefixOf?
  · rintro rfl
    exact isPrefixOf?_append p r

theorem isPrefixOf?_eq_none_iff {p s : List Char} : p.isPrefixOf? s = none ↔ ¬ p <+: s := by
  constructor
  · rintro h ⟨r, rfl⟩
    rw [isPrefixOf?_append] at h
    cases h
  · intro h
    cases hs : p.isPrefixOf? s with
    | none => rfl
    | some r => exact absurd ⟨r, (isPrefixOf?_eq_some_iff.1 hs).symm⟩ h

/-! ## §2. Patterns anywhere -/

namespace Cursor

/-- What follows the first occurrence of a pattern has no part in finding it. -/
theorem splitOn?_replace {p s a r : List Char} (hp : p ≠ []) (h : splitOn? p s = some (a, r))
    (r' : List Char) : splitOn? p (a ++ p ++ r') = some (a, r') := by
  induction s generalizing a with
  | nil =>
    rw [splitOn?] at h
    split at h
    · next he => exact absurd (List.isEmpty_iff.1 he) hp
    · cases h
  | cons c s ih =>
    rw [splitOn?] at h
    split at h
    · -- the pattern stands in front, so nothing is before it
      next rest hrest =>
      obtain ⟨rfl, -⟩ := Prod.mk.inj (Option.some.inj h)
      cases p with
      | nil => exact absurd rfl hp
      | cons x p =>
        rw [List.nil_append, List.cons_append, splitOn?, ← List.cons_append,
          isPrefixOf?_append]
    · next hnone =>
      obtain ⟨⟨b, q⟩, hb, heq⟩ := Option.map_eq_some_iff.1 h
      obtain ⟨rfl, rfl⟩ := Prod.mk.inj heq
      have hs : s = b ++ p ++ q := splitOn?_eq_some hb
      -- an occurrence in front would already end inside `c :: b ++ p`
      have hfront : p.isPrefixOf? (c :: (b ++ p ++ r')) = none := by
        rw [isPrefixOf?_eq_none_iff] at hnone ⊢
        intro hpre
        have hlen : p.length ≤ (c :: (b ++ p)).length := by simp; omega
        have hin : p <+: c :: (b ++ p) :=
          List.prefix_of_prefix_length_le hpre ⟨r', by simp⟩ hlen
        exact hnone (hin.trans ⟨q, by simp [hs]⟩)
      rw [List.cons_append, List.cons_append, splitOn?, hfront]
      simp only [ih hb, Option.map_some]

theorem splitOn?_eq_none_iff {p s : List Char} : splitOn? p s = none ↔ ¬ p <:+: s := by
  constructor
  · rintro h ⟨a, r, rfl⟩
    induction a with
    | nil =>
      cases hs : p ++ r with
      | nil =>
        obtain ⟨rfl, rfl⟩ := List.append_eq_nil_iff.1 hs
        cases h
      | cons c s =>
        rw [List.nil_append, hs, splitOn?, ← hs, isPrefixOf?_append] at h
        cases h
    | cons c a ih =>
      rw [List.cons_append, List.cons_append, splitOn?] at h
      split at h
      · cases h
      · exact ih (Option.map_eq_none_iff.1 h)
  · intro h
    cases hs : splitOn? p s with
    | none => rfl
    | some parts => exact absurd ⟨parts.1, parts.2, (splitOn?_eq_some hs).symm⟩ h

theorem splitOn?_isSome_iff {p s : List Char} : (splitOn? p s).isSome ↔ p <:+: s := by
  constructor
  · intro h
    obtain ⟨parts, hs⟩ := Option.isSome_iff_exists.1 h
    exact ⟨parts.1, parts.2, (splitOn?_eq_some hs).symm⟩
  · intro h
    rw [← Option.ne_none_iff_isSome]
    exact fun hnone => splitOn?_eq_none_iff.1 hnone h

/-- A pattern is found where it was written, if it does not end earlier. -/
theorem splitOn?_append {p a : List Char} (hp : p ≠ []) (h : ¬ p <:+: a ++ p.dropLast)
    (r : List Char) : splitOn? p (a ++ (p ++ r)) = some (a, r) := by
  induction a with
  | nil =>
    obtain ⟨x, q, rfl⟩ := List.exists_cons_of_ne_nil hp
    have hfront : (x :: q).isPrefixOf? (x :: (q ++ r)) = some r := isPrefixOf?_append (x :: q) r
    rw [List.nil_append, List.cons_append, splitOn?, hfront]
  | cons c a ih =>
    have hrest : ¬ p <:+: a ++ p.dropLast := fun hin => h (hin.trans (List.suffix_cons c _).isInfix)
    -- an occurrence in front would end in front of the last character of the one behind `a`
    have hfront : p.isPrefixOf? (c :: (a ++ (p ++ r))) = none := by
      rw [isPrefixOf?_eq_none_iff]
      intro hpre
      have hlast : p ++ r = p.dropLast ++ (p.getLast hp :: r) := by
        conv => lhs; rw [← List.dropLast_concat_getLast hp]
        rw [List.append_assoc]
        rfl
      have hlen : p.length ≤ (c :: (a ++ p.dropLast)).length := by
        rw [List.length_cons, List.length_append, List.length_dropLast]
        omega
      have hin : p <+: c :: (a ++ p.dropLast) := by
        refine List.prefix_of_prefix_length_le hpre ⟨p.getLast hp :: r, ?_⟩ hlen
        rw [hlast, List.cons_append, List.append_assoc]
      exact h hin.isInfix
    rw [List.cons_append, splitOn?, hfront]
    simp only [ih hrest, Option.map_some]

/-- A character is found where it stands first. -/
theorem splitOn?_singleton {q : Char} {a : List Char} (h : q ∉ a) (r : List Char) :
    splitOn? [q] (a ++ q :: r) = some (a, r) := by
  induction a with
  | nil =>
    have hfront : [q].isPrefixOf? (q :: r) = some r := isPrefixOf?_append [q] r
    rw [List.nil_append, splitOn?, hfront]
  | cons c a ih =>
    have hc : q ≠ c := fun hqc => h (hqc ▸ List.mem_cons_self)
    have hfront : [q].isPrefixOf? (c :: (a ++ q :: r)) = none := by
      rw [isPrefixOf?_eq_none_iff]
      rintro ⟨t, ht⟩
      exact hc (List.cons.inj ht).1
    rw [List.cons_append, splitOn?, hfront]
    simp only [ih (fun hq => h (List.mem_cons_of_mem _ hq)), Option.map_some]

/-- What is before the first place of a character does not hold it. -/
theorem not_mem_of_splitOn? {q : Char} {s a r : List Char} (h : splitOn? [q] s = some (a, r)) :
    q ∉ a := by
  intro hq
  obtain ⟨b, t, rfl, hb⟩ := List.eq_append_cons_of_mem hq
  have hs : s = b ++ q :: (t ++ [q] ++ r) := by rw [splitOn?_eq_some h]; simp
  rw [hs, splitOn?_singleton hb] at h
  have hlen := congrArg List.length (Prod.mk.inj (Option.some.inj h)).1
  simp at hlen

end Cursor

/-- A character other than the mark stands in front of it. -/
theorem cons_of_append_mark {t r r' : List Char} {x mark : Char} (h : t ++ mark :: r' = x :: r)
    (hx : x ≠ mark) : ∃ g, t = x :: g ∧ r = g ++ mark :: r' := by
  cases t with
  | nil =>
    obtain ⟨rfl, -⟩ := List.cons.inj h
    exact absurd rfl hx
  | cons y g =>
    obtain ⟨rfl, htail⟩ := List.cons.inj h
    exact ⟨g, rfl, htail.symm⟩

/-- Two equal characters in a row of a text in two parts. -/
theorem pair_infix_append {x : Char} {a b : List Char} (h : [x, x] <:+: a ++ b) :
    [x, x] <:+: a ∨ [x, x] <:+: b ∨ (a.getLast? = some x ∧ b.head? = some x) := by
  induction a with
  | nil => exact .inr (.inl h)
  | cons y a ih =>
    rcases List.infix_cons_iff.1 h with ⟨t, ht⟩ | hin
    · obtain ⟨rfl, htail⟩ := List.cons.inj ht
      cases a with
      | nil =>
        have hb : x :: t = b := htail
        exact .inr (.inr ⟨rfl, by rw [← hb]; rfl⟩)
      | cons z a =>
        obtain ⟨rfl, -⟩ := List.cons.inj htail
        exact .inl (List.prefix_append [x, x] a).isInfix
    · rcases ih hin with hin | hin | ⟨hlast, hhead⟩
      · exact .inl (hin.trans (List.suffix_cons y a).isInfix)
      · exact .inr (.inl hin)
      · refine .inr (.inr ⟨?_, hhead⟩)
        cases a with
        | nil => cases hlast
        | cons z a => exact hlast

/-- Characters other than the one of a pair bring no pair. -/
theorem pair_infix_of_append {x : Char} {a b : List Char} (hb : x ∉ b)
    (h : [x, x] <:+: a ++ b) : [x, x] <:+: a := by
  rcases pair_infix_append h with ha | hb' | ⟨-, hhead⟩
  · exact ha
  · exact absurd (hb'.subset List.mem_cons_self) hb
  · exact absurd (List.mem_of_mem_head? hhead) hb

/-- A character that does not end a pattern brings no occurrence of it. -/
theorem infix_of_append_singleton {p a : List Char} {x : Char} (hp : p ≠ [])
    (hlast : p.getLast hp ≠ x) (h : p <:+: a ++ [x]) : p <:+: a := by
  obtain ⟨u, v, huv⟩ := h
  rcases List.eq_nil_or_concat v with rfl | ⟨v, z, rfl⟩
  · -- the pattern would end with the character
    have hall : (u ++ p ++ []).getLast? = (a ++ [x]).getLast? := by rw [huv]
    rw [List.append_nil, List.getLast?_append, List.getLast?_eq_some_getLast hp,
      List.getLast?_concat] at hall
    exact absurd (Option.some.inj hall) hlast
  · rw [List.concat_eq_append, ← List.append_assoc] at huv
    exact ⟨u, v, (List.append_inj' huv rfl).1⟩

/-! ## §3. Runs of a class

    A run that stops at a mark inside a text does not see what follows the mark. -/

theorem takeWhile_append_stop {p : Char → Bool} {x : Char} (hx : p x = false)
    (s r : List Char) : (s ++ x :: r).takeWhile p = s.takeWhile p := by
  induction s with
  | nil => simp [hx]
  | cons c s ih =>
    rw [List.cons_append, List.takeWhile_cons, List.takeWhile_cons, ih]

theorem dropWhile_append_stop {p : Char → Bool} {x : Char} (hx : p x = false)
    (s r : List Char) : (s ++ x :: r).dropWhile p = s.dropWhile p ++ x :: r := by
  induction s with
  | nil => simp [hx]
  | cons c s ih =>
    rw [List.cons_append, List.dropWhile_cons, List.dropWhile_cons, ih]
    split <;> rfl

/-- A run of a class goes up to the first character that is not of the class. -/
theorem takeWhile_run {p : Char → Bool} {s r : List Char} (hs : ∀ x ∈ s, p x = true)
    (hr : ∀ x ∈ r.head?, p x = false) : (s ++ r).takeWhile p = s := by
  rw [List.takeWhile_append_of_pos hs]
  cases r with
  | nil => simp
  | cons x r => simp [hr x rfl]

theorem dropWhile_run {p : Char → Bool} {s r : List Char} (hs : ∀ x ∈ s, p x = true)
    (hr : ∀ x ∈ r.head?, p x = false) : (s ++ r).dropWhile p = r := by
  rw [List.dropWhile_append_of_pos hs]
  cases r with
  | nil => simp
  | cons x r => simp [hr x rfl]

theorem dropWhile_of_takeWhile_eq_nil {p : Char → Bool} {s : List Char}
    (h : s.takeWhile p = []) : s.dropWhile p = s := by
  have hsplit := List.takeWhile_append_dropWhile (p := p) (l := s)
  rw [h, List.nil_append] at hsplit
  exact hsplit

/-- All that stands in front of a character is not that character. -/
theorem decide_ne_of_not_mem {c : Char} {s : List Char} (h : c ∉ s) :
    ∀ x ∈ s, decide (x ≠ c) = true := by
  intro x hx
  apply decide_eq_true
  intro heq
  exact h (heq ▸ hx)

theorem takeWhile_ne_run {c : Char} {s r : List Char} (hs : c ∉ s) (hr : ∀ x ∈ r.head?, x = c) :
    (s ++ r).takeWhile (· ≠ c) = s := by
  apply takeWhile_run (decide_ne_of_not_mem hs)
  intro x hx
  simp [hr x hx]

theorem dropWhile_ne_run {c : Char} {s r : List Char} (hs : c ∉ s) (hr : ∀ x ∈ r.head?, x = c) :
    (s ++ r).dropWhile (· ≠ c) = r := by
  apply dropWhile_run (decide_ne_of_not_mem hs)
  intro x hx
  simp [hr x hx]

/-- A character that ends a run of others is the one they are not. -/
theorem eq_of_dropWhile_ne {c d : Char} {s r : List Char} (h : s.dropWhile (· ≠ c) = d :: r) :
    d = c := by
  have hstop := List.head?_dropWhile_not (· ≠ c) s
  rw [h] at hstop
  simpa using hstop

/-! ## §4. Pieces -/

namespace Cursor

/-- Reading moves from `c` over the piece `w` to `d`. -/
structure Takes (c : Cursor) (w : List Char) (d : Cursor) : Prop where
  rest : c.rest = w ++ d.rest
  offset : d.offset = c.offset + byteSize w

theorem Takes.refl (c : Cursor) : Takes c [] c := ⟨rfl, rfl⟩

theorem Takes.trans {c d e : Cursor} {v w : List Char} (h : Takes c v d) (h' : Takes d w e) :
    Takes c (v ++ w) e where
  rest := by rw [h.rest, h'.rest, List.append_assoc]
  offset := by rw [h'.offset, h.offset, byteSize_append]; omega

theorem Takes.offset_le {c d : Cursor} {w : List Char} (h : Takes c w d) :
    c.offset ≤ d.offset := by
  rw [h.offset]; omega

theorem takes_past {c : Cursor} {w r : List Char} (h : c.rest = w ++ r) :
    Takes c w (c.past w r) := ⟨h, rfl⟩

theorem takes_skip (c : Cursor) (n : Nat) : Takes c (c.rest.take n) (c.skip n) :=
  ⟨(List.take_append_drop n c.rest).symm, rfl⟩

theorem takes_takeWhile (c : Cursor) (p : Char → Bool) :
    Takes c (c.takeWhile p).1 (c.takeWhile p).2 :=
  ⟨List.takeWhile_append_dropWhile.symm, rfl⟩

theorem takes_skipWhile (c : Cursor) (p : Char → Bool) :
    Takes c (c.rest.takeWhile p) (c.skipWhile p) :=
  takes_takeWhile c p

theorem skip_one {c : Cursor} {x : Char} {r : List Char} (h : c.rest = x :: r) :
    c.skip 1 = ⟨c.offset + x.utf8Size, r⟩ := by
  rw [skip, h]
  rfl

theorem skip_two {c : Cursor} {x z : Char} {r : List Char} (h : c.rest = x :: z :: r) :
    c.skip 2 = ⟨c.offset + (x.utf8Size + z.utf8Size), r⟩ := by
  rw [skip, h]
  rfl

theorem skip_append {c : Cursor} {w r : List Char} (h : c.rest = w ++ r) :
    c.skip w.length = ⟨c.offset + byteSize w, r⟩ := by
  rw [skip, h, List.take_left, List.drop_left]
  rfl

/-- Skipping a character in front moves on by its size. -/
theorem takes_skip_one {c : Cursor} {x : Char} {r : List Char} (h : c.rest = x :: r) :
    Takes c [x] (c.skip 1) := by
  rw [skip_one h]
  exact takes_past h

theorem takes_takeUntil? {c d : Cursor} {p text : List Char}
    (h : c.takeUntil? p = some (text, d)) : Takes c (text ++ p) d := by
  obtain ⟨⟨a, r⟩, hs, heq⟩ := Option.map_eq_some_iff.1 h
  obtain ⟨rfl, rfl⟩ := Prod.mk.inj heq
  exact takes_past (splitOn?_eq_some hs)

theorem not_mem_of_takeUntil? {c d : Cursor} {q : Char} {text : List Char}
    (h : c.takeUntil? [q] = some (text, d)) : q ∉ text := by
  obtain ⟨⟨a, r⟩, hs, heq⟩ := Option.map_eq_some_iff.1 h
  obtain ⟨rfl, rfl⟩ := Prod.mk.inj heq
  exact not_mem_of_splitOn? hs

theorem takeUntil?_eq_none_iff {c : Cursor} {p : List Char} :
    c.takeUntil? p = none ↔ ¬ p <:+: c.rest := by
  rw [takeUntil?, Option.map_eq_none_iff, splitOn?_eq_none_iff]

theorem takeUntil?_mark_eq_none_iff {c : Cursor} {q : Char} :
    c.takeUntil? [q] = none ↔ q ∉ c.rest := by
  rw [takeUntil?_eq_none_iff]
  refine not_congr ?_
  constructor
  · intro h
    exact h.subset List.mem_cons_self
  · intro h
    obtain ⟨a, r, hr⟩ := List.append_of_mem h
    exact ⟨a, r, by rw [hr, List.append_assoc]; rfl⟩

/-- What follows a pattern has no part in reading up to it. -/
theorem takeUntil?_replace {c d : Cursor} {p text : List Char} (hp : p ≠ [])
    (h : c.takeUntil? p = some (text, d)) (o : Nat) (r : List Char) :
    Cursor.takeUntil? ⟨o, text ++ p ++ r⟩ p = some (text, ⟨o + byteSize (text ++ p), r⟩) := by
  obtain ⟨⟨a, r'⟩, hs, heq⟩ := Option.map_eq_some_iff.1 h
  obtain ⟨rfl, rfl⟩ := Prod.mk.inj heq
  rw [takeUntil?, splitOn?_replace hp hs]
  rfl

end Cursor

end Provenance.Text
