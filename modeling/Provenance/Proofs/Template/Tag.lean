import Provenance.Template.Token
import Provenance.Proofs.Text.Cursor

/-! # Reading tags

  What reading a tag takes from the text, and why nothing behind the tag matters:

  - Each reader moves over a piece of the text.
  - A start tag is read up to its `>`.  Inside it every reader stops at that `>`
    at the latest, so the text behind it may be replaced (`readTagBody_replace`).
  - Raw text is read up to the end tag of its element, and the search for that
    end tag does not look behind it (`readRawText_replace`).
-/

namespace Provenance.Template

open Text (Cursor isTagBlank byteSize byteSize_append byteSize_cons)
open Text.Cursor (Takes)

/-! ## §1. Entries that move -/

/-- An entry whose place is moved. -/
def Entry.mapStart (f : Nat → Nat) : Entry → Entry
  | .attribute a => .attribute { a with start := f a.start }
  | .directive d => .directive { d with start := f d.start }

/-- The place of an entry. -/
def Entry.start : Entry → Nat
  | .attribute a => a.start
  | .directive d => d.start

theorem Entry.mapStart_ofName (f : Nat → Nat) (name : List Char) (value : Option (List Char))
    (start : Nat) :
    (Entry.ofName name value start).mapStart f = Entry.ofName name value (f start) := by
  unfold Entry.ofName
  split <;> rfl

theorem Entry.start_ofName (name : List Char) (value : Option (List Char)) (start : Nat) :
    (Entry.ofName name value start).start = start := by
  unfold Entry.ofName
  split <;> rfl

theorem Entry.mapStart_congr {f g : Nat → Nat} {e : Entry} (h : f e.start = g e.start) :
    e.mapStart f = e.mapStart g := by
  rcases e with a | d
  · have ha : f a.start = g a.start := h
    simp only [mapStart, ha]
  · have hd : f d.start = g d.start := h
    simp only [mapStart, hd]

/-! ## §2. Places in front of a mark

    A cursor in front of a `>` is `⟨o, s ++ '>' :: y⟩`.  What is read inside `s`
    leaves `y` alone. -/

theorem takeWhile_mark {p : Char → Bool} (hp : p '>' = false) (o : Nat) (s y : List Char) :
    Cursor.takeWhile ⟨o, s ++ '>' :: y⟩ p =
      (s.takeWhile p, ⟨o + byteSize (s.takeWhile p), s.dropWhile p ++ '>' :: y⟩) := by
  simp only [Cursor.takeWhile, Cursor.past, Text.takeWhile_append_stop hp,
    Text.dropWhile_append_stop hp]

theorem skipWhile_mark (o : Nat) (s y : List Char) :
    Cursor.skipWhile ⟨o, s ++ '>' :: y⟩ isTagBlank =
      ⟨o + byteSize (s.takeWhile isTagBlank), s.dropWhile isTagBlank ++ '>' :: y⟩ := by
  rw [Cursor.skipWhile, takeWhile_mark (by decide)]

theorem skip_mark (o : Nat) {s : List Char} {n : Nat} (hn : n ≤ s.length) (y : List Char) :
    Cursor.skip ⟨o, s ++ '>' :: y⟩ n =
      ⟨o + byteSize (s.take n), s.drop n ++ '>' :: y⟩ := by
  simp only [Cursor.skip, Cursor.past, List.take_append_of_le_length hn,
    List.drop_append_of_le_length hn]

/-! ## §3. Values -/

/-- Whether a character opens a value in quotes. -/
abbrev IsQuote (q : Char) : Prop := q = '"' ∨ q = '\''

theorem readValue_of_quote {q : Char} (hq : IsQuote q) (o : Nat) (r : List Char) :
    readValue ⟨o, q :: r⟩ =
      match Cursor.takeUntil? (Cursor.skip ⟨o, q :: r⟩ 1) [q] with
      | some (value, d) => .ok (value, d)
      | none => .error ⟨.unterminatedValue, o⟩ := by
  have hcond : (decide (q = '"') || decide (q = '\'')) = true := by
    rw [Bool.or_eq_true, decide_eq_true_iff, decide_eq_true_iff]
    exact hq
  exact if_pos hcond

theorem readValue_of_not_quote {q : Char} (hq : ¬ IsQuote q) (o : Nat) (r : List Char) :
    readValue ⟨o, q :: r⟩ =
      .ok (Cursor.takeWhile ⟨o, q :: r⟩ fun x => !isTagBlank x && x ≠ '>') := by
  have hcond : ¬ (decide (q = '"') || decide (q = '\'')) = true := by
    rw [Bool.or_eq_true, decide_eq_true_iff, decide_eq_true_iff]
    exact hq
  exact if_neg hcond

theorem readValue_takes {c d : Cursor} {value : List Char} (h : readValue c = .ok (value, d)) :
    ∃ w, Takes c w d := by
  obtain ⟨o, s⟩ := c
  cases s with
  | nil =>
    obtain ⟨_, rfl⟩ := Prod.mk.inj (Except.ok.inj h)
    exact ⟨[], .refl _⟩
  | cons q r =>
    by_cases hq : IsQuote q
    · rw [readValue_of_quote hq] at h
      split at h
      · next value' d' hd =>
        obtain ⟨_, rfl⟩ := Prod.mk.inj (Except.ok.inj h)
        exact ⟨_, (Cursor.takes_skip _ 1).trans (Cursor.takes_takeUntil? hd)⟩
      · cases h
    · rw [readValue_of_not_quote hq] at h
      obtain ⟨_, rfl⟩ := Prod.mk.inj (Except.ok.inj h)
      exact ⟨_, Cursor.takes_takeWhile _ _⟩

/-- A value that ends in front of a mark does not depend on what follows the mark. -/
theorem readValue_replace {o o' : Nat} {s u y value : List Char}
    (h : readValue ⟨o, s ++ '>' :: y⟩ = .ok (value, ⟨o', u ++ '>' :: y⟩)) (k : Nat)
    (y' : List Char) :
    readValue ⟨o + k, s ++ '>' :: y'⟩ = .ok (value, ⟨o' + k, u ++ '>' :: y'⟩) := by
  have hstop : (fun x => !isTagBlank x && decide (x ≠ '>')) '>' = false := by decide
  -- a bare value is a run that stops at the mark
  have bare : ∀ {q r}, s ++ '>' :: y = q :: r → ¬ IsQuote q →
      value = s.takeWhile (fun x => !isTagBlank x && decide (x ≠ '>')) ∧
      o' = o + byteSize (s.takeWhile fun x => !isTagBlank x && decide (x ≠ '>')) ∧
      u = s.dropWhile fun x => !isTagBlank x && decide (x ≠ '>') := by
    intro q r hs hq
    rw [hs, readValue_of_not_quote hq, ← hs, takeWhile_mark hstop] at h
    obtain ⟨hv, hd⟩ := Prod.mk.inj (Except.ok.inj h)
    obtain ⟨ho, hu⟩ := Cursor.mk.inj hd
    exact ⟨hv.symm, ho.symm, (List.append_cancel_right hu).symm⟩
  cases s with
  | nil =>
    have hq : ¬ IsQuote '>' := by decide
    obtain ⟨rfl, rfl, rfl⟩ := bare rfl hq
    rw [List.nil_append, readValue_of_not_quote hq]
    rfl
  | cons q s =>
    by_cases hq : IsQuote q
    · rw [List.cons_append, readValue_of_quote hq] at h ⊢
      split at h
      · next value' d' hd =>
        obtain ⟨rfl, rfl⟩ := Prod.mk.inj (Except.ok.inj h)
        obtain ⟨hrest, hoff⟩ := Cursor.takes_takeUntil? hd
        -- the closing quote stands in front of the mark
        have hs : s = value' ++ [q] ++ u := by
          have hrest : s ++ '>' :: y = value' ++ [q] ++ u ++ '>' :: y := by
            rw [List.append_assoc _ u]
            exact hrest
          exact List.append_cancel_right hrest
        have hd' := Cursor.takeUntil?_replace (by simp) hd (o + k + q.utf8Size) (u ++ '>' :: y')
        have hskip : Cursor.skip ⟨o + k, q :: (s ++ '>' :: y')⟩ 1 =
            ⟨o + k + q.utf8Size, value' ++ [q] ++ (u ++ '>' :: y')⟩ := by
          simp [Cursor.skip, Cursor.past, hs]
        have hoff' : o + k + q.utf8Size + byteSize (value' ++ [q]) = o' + k := by
          have : o' = o + (q.utf8Size + 0) + byteSize (value' ++ [q]) := hoff
          omega
        rw [hskip, hd', hoff']
      · cases h
    · obtain ⟨rfl, rfl, rfl⟩ := bare rfl hq
      rw [List.cons_append, readValue_of_not_quote hq, ← List.cons_append, takeWhile_mark hstop]
      simp only [Nat.add_right_comm]

/-! ## §4. Entries -/

theorem prefix_attributeName_more (s : List Char) : attributeName.more s <+: s := by
  induction s with
  | nil => exact List.prefix_refl _
  | cons c s ih =>
    rw [attributeName.more]
    split
    · exact List.nil_prefix
    · exact List.cons_prefix_cons.2 ⟨rfl, ih⟩

theorem prefix_attributeName (s : List Char) : attributeName s <+: s := by
  cases s with
  | nil => exact List.prefix_refl _
  | cons c s => exact List.cons_prefix_cons.2 ⟨rfl, prefix_attributeName_more s⟩

/-- A name stops in front of a mark at the latest. -/
theorem attributeName_more_mark (s y y' : List Char) :
    attributeName.more (s ++ '>' :: y) = attributeName.more (s ++ '>' :: y') ∧
    (attributeName.more (s ++ '>' :: y)).length ≤ s.length := by
  induction s with
  | nil => simp [attributeName.more]
  | cons c s ih =>
    have hhead : (s ++ '>' :: y).head? = (s ++ '>' :: y').head? := by
      cases s <;> rfl
    -- a slash ends a name if the next character is `>`, be it the mark
    rw [List.cons_append, List.cons_append, attributeName.more, attributeName.more, hhead, ih.1]
    split
    · simp
    · have := ih.2
      rw [ih.1] at this
      simp only [List.length_cons, true_and]
      omega

theorem attributeName_mark {s : List Char} (hs : s ≠ []) (y y' : List Char) :
    attributeName (s ++ '>' :: y) = attributeName (s ++ '>' :: y') ∧
    (attributeName (s ++ '>' :: y)).length ≤ s.length := by
  cases s with
  | nil => exact absurd rfl hs
  | cons c s =>
    obtain ⟨heq, hlen⟩ := attributeName_more_mark s y y'
    simp only [List.cons_append, attributeName, List.length_cons]
    exact ⟨by rw [heq], by omega⟩

/-- The cursor behind the name of an entry and the blanks after it. -/
def entryGap (c : Cursor) : Cursor :=
  (c.skip (attributeName c.rest).length).skipWhile isTagBlank

theorem readEntry_of_value {c d : Cursor} {r value : List Char}
    (hgap : (entryGap c).rest = '=' :: r)
    (hvalue : readValue (((entryGap c).skip 1).skipWhile isTagBlank) = .ok (value, d)) :
    readEntry c = .ok (.ofName (attributeName c.rest) (some value) c.offset, d) := by
  unfold entryGap at hgap hvalue
  simp only [readEntry, hgap, hvalue]

theorem readEntry_of_error {c : Cursor} {r : List Char} {e : Error}
    (hgap : (entryGap c).rest = '=' :: r)
    (hvalue : readValue (((entryGap c).skip 1).skipWhile isTagBlank) = .error e) :
    readEntry c = .error e := by
  unfold entryGap at hgap hvalue
  simp only [readEntry, hgap, hvalue]

theorem readEntry_of_bare {c : Cursor} (hgap : ∀ r, (entryGap c).rest ≠ '=' :: r) :
    readEntry c =
      .ok (.ofName (attributeName c.rest) none c.offset, c.skip (attributeName c.rest).length) := by
  unfold entryGap at hgap
  simp only [readEntry]

/-- An entry has a value behind an equals sign, or ends with its name. -/
theorem readEntry_cases {c d : Cursor} {e : Entry} (h : readEntry c = .ok (e, d)) :
    (∃ r value, (entryGap c).rest = '=' :: r ∧
      readValue (((entryGap c).skip 1).skipWhile isTagBlank) = .ok (value, d) ∧
      e = .ofName (attributeName c.rest) (some value) c.offset) ∨
    ((∀ r, (entryGap c).rest ≠ '=' :: r) ∧ e = .ofName (attributeName c.rest) none c.offset ∧
      d = c.skip (attributeName c.rest).length) := by
  by_cases hgap : ∃ r, (entryGap c).rest = '=' :: r
  · obtain ⟨r, hr⟩ := hgap
    cases hv : readValue (((entryGap c).skip 1).skipWhile isTagBlank) with
    | error e =>
      rw [readEntry_of_error hr hv] at h
      cases h
    | ok read =>
      obtain ⟨value, d'⟩ := read
      rw [readEntry_of_value hr hv] at h
      obtain ⟨rfl, rfl⟩ := Prod.mk.inj (Except.ok.inj h)
      exact .inl ⟨r, value, hr, rfl, rfl⟩
  · have hbare : ∀ r, (entryGap c).rest ≠ '=' :: r := fun r hr => hgap ⟨r, hr⟩
    rw [readEntry_of_bare hbare] at h
    obtain ⟨rfl, rfl⟩ := Prod.mk.inj (Except.ok.inj h)
    exact .inr ⟨hbare, rfl, rfl⟩

theorem readEntry_takes {c d : Cursor} {e : Entry} (h : readEntry c = .ok (e, d)) :
    e.start = c.offset ∧ ∃ w, Takes c w d := by
  have hname := Cursor.takes_skip c (attributeName c.rest).length
  rcases readEntry_cases h with ⟨r, value, hgap, hvalue, rfl⟩ | ⟨-, rfl, rfl⟩
  · obtain ⟨w, hw⟩ := readValue_takes hvalue
    have hgap := hname.trans (Cursor.takes_takeWhile _ isTagBlank)
    exact ⟨Entry.start_ofName _ _ _,
      _, ((hgap.trans (Cursor.takes_skip _ 1)).trans (Cursor.takes_takeWhile _ _)).trans hw⟩
  · exact ⟨Entry.start_ofName _ _ _, _, hname⟩

theorem entryGap_mark (o : Nat) {s : List Char} (hs : s ≠ []) (y : List Char) :
    ∃ n g, ∀ k y', (attributeName (s ++ '>' :: y')).length = n ∧
      attributeName (s ++ '>' :: y') = attributeName (s ++ '>' :: y) ∧
      Cursor.skip ⟨o + k, s ++ '>' :: y'⟩ n = ⟨o + byteSize (s.take n) + k, s.drop n ++ '>' :: y'⟩ ∧
      entryGap ⟨o + k, s ++ '>' :: y'⟩ = ⟨o + byteSize (s.take n) + byteSize
        ((s.drop n).takeWhile isTagBlank) + k, g ++ '>' :: y'⟩ := by
  refine ⟨(attributeName (s ++ '>' :: y)).length,
    (s.drop (attributeName (s ++ '>' :: y)).length).dropWhile isTagBlank, fun k y' => ?_⟩
  obtain ⟨heq, hlen⟩ := attributeName_mark hs y' y
  rw [heq] at hlen
  have hskip := skip_mark (o + k) hlen y'
  rw [Nat.add_right_comm] at hskip
  refine ⟨by rw [heq], heq, hskip, ?_⟩
  rw [entryGap, heq, hskip, skipWhile_mark, Nat.add_right_comm _ k]

/-- An entry that ends in front of a mark does not depend on what follows the mark. -/
theorem readEntry_replace {o o' : Nat} {s u y : List Char} {e : Entry} (hs : s ≠ [])
    (h : readEntry ⟨o, s ++ '>' :: y⟩ = .ok (e, ⟨o', u ++ '>' :: y⟩)) (k : Nat)
    (y' : List Char) :
    readEntry ⟨o + k, s ++ '>' :: y'⟩ =
      .ok (e.mapStart (· + k), ⟨o' + k, u ++ '>' :: y'⟩) := by
  obtain ⟨n, g, hmark⟩ := entryGap_mark o hs y
  obtain ⟨hn, -, hskip, hgap⟩ := hmark 0 y
  obtain ⟨hn', hname, hskip', hgap'⟩ := hmark k y'
  simp only [Nat.add_zero] at hskip hgap
  rcases readEntry_cases h with ⟨r, value, hr, hvalue, rfl⟩ | ⟨hr, rfl, hd⟩
  · -- the equals sign stands in front of the mark, and so does the value
    rw [hgap] at hr hvalue
    obtain ⟨g, rfl, -⟩ := Text.cons_of_append_mark hr (by decide)
    have hone : 1 ≤ ('=' :: g).length := by simp
    rw [skip_mark _ hone, skipWhile_mark] at hvalue
    have hvalue' := readValue_replace hvalue k y'
    have hr' : (entryGap ⟨o + k, s ++ '>' :: y'⟩).rest = '=' :: (g ++ '>' :: y') := by
      rw [hgap']
      rfl
    have hread : readValue (((entryGap ⟨o + k, s ++ '>' :: y'⟩).skip 1).skipWhile isTagBlank) =
        .ok (value, ⟨o' + k, u ++ '>' :: y'⟩) := by
      rw [hgap', skip_mark _ hone, skipWhile_mark, ← hvalue']
      simp only [Nat.add_right_comm]
    rw [readEntry_of_value hr' hread, Entry.mapStart_ofName, hname]
  · -- no equals sign stands in front of the mark, and the mark is none
    rw [hgap] at hr
    have hr' : ∀ r, (entryGap ⟨o + k, s ++ '>' :: y'⟩).rest ≠ '=' :: r := by
      rw [hgap']
      intro r hr'
      obtain ⟨g, rfl, -⟩ := Text.cons_of_append_mark hr' (by decide)
      exact hr (g ++ '>' :: y) rfl
    rw [readEntry_of_bare hr', Entry.mapStart_ofName, hname]
    show Except.ok (_, Cursor.skip _ _) = _
    rw [← hname, hn', hskip']
    rw [hn, hskip] at hd
    obtain ⟨rfl, hu⟩ := Cursor.mk.inj hd
    rw [List.append_cancel_right hu]

/-! ## §5. What stands behind a tag name -/

/-- What reading the rest of a start tag finds, with more entries in front. -/
def withEntries (front : List Entry) (read : Except Error (Option (TagBody × Cursor))) :
    Except Error (Option (TagBody × Cursor)) :=
  read.map (Option.map fun found => (⟨front ++ found.1.entries, found.1.selfClosing⟩, found.2))

theorem withEntries_nil (read : Except Error (Option (TagBody × Cursor))) :
    withEntries [] read = read := by
  cases read with
  | error e => rfl
  | ok found => cases found <;> rfl

theorem withEntries_withEntries (front more : List Entry)
    (read : Except Error (Option (TagBody × Cursor))) :
    withEntries front (withEntries more read) = withEntries (front ++ more) read := by
  cases read with
  | error e => rfl
  | ok found =>
    cases found with
    | none => rfl
    | some found =>
      simp [withEntries, Except.map, List.append_assoc]

section TagBody

variable {c : Cursor} {x : Char} {r : List Char}

theorem readTagBody_end (h : (c.skipWhile isTagBlank).rest = []) : readTagBody c = .ok none := by
  rw [readTagBody]
  split <;> simp_all

theorem readTagBody_close (h : (c.skipWhile isTagBlank).rest = '>' :: r) :
    readTagBody c = .ok (some (⟨[], false⟩, (c.skipWhile isTagBlank).skip 1)) := by
  rw [readTagBody]
  split <;> simp_all

theorem readTagBody_selfClose (h : (c.skipWhile isTagBlank).rest = '/' :: '>' :: r) :
    readTagBody c = .ok (some (⟨[], true⟩, (c.skipWhile isTagBlank).skip 2)) := by
  rw [readTagBody]
  split <;> simp_all

theorem readTagBody_slash (h : (c.skipWhile isTagBlank).rest = '/' :: r) (hr : r.head? ≠ some '>') :
    readTagBody c = readTagBody ((c.skipWhile isTagBlank).skip 1) := by
  rw [readTagBody]
  split
  · next hd => rw [h] at hd; cases hd
  · next hd => rw [h] at hd; cases hd
  · next hd => rw [h] at hd; cases hd; exact absurd rfl hr
  · rfl
  · next hslash hd => rw [h] at hd; cases hd; exact (hslash rfl).elim

/-- An entry comes in front of those that are read behind it. -/
theorem readTagBody_entry (h : (c.skipWhile isTagBlank).rest = x :: r) (hx : x ≠ '>' ∧ x ≠ '/')
    {entry : Entry} {next : Cursor} (he : readEntry (c.skipWhile isTagBlank) = .ok (entry, next)) :
    readTagBody c = withEntries [entry] (readTagBody next) := by
  rw [readTagBody]
  split
  · next hd => rw [h] at hd; cases hd
  · next hd => rw [h] at hd; cases hd; exact absurd rfl hx.1
  · next hd => rw [h] at hd; cases hd; exact absurd rfl hx.2
  · next hd => rw [h] at hd; cases hd; exact absurd rfl hx.2
  · split
    · next he' => rw [he] at he'; cases he'
    · next he' =>
      rw [he] at he'
      cases he'
      cases readTagBody next with
      | error e => rfl
      | ok found => cases found <;> rfl

theorem readTagBody_error (h : (c.skipWhile isTagBlank).rest = x :: r) (hx : x ≠ '>' ∧ x ≠ '/')
    {e : Error} (he : readEntry (c.skipWhile isTagBlank) = .error e) :
    readTagBody c = .error e := by
  rw [readTagBody]
  split
  · next hd => rw [h] at hd; cases hd
  · next hd => rw [h] at hd; cases hd; exact absurd rfl hx.1
  · next hd => rw [h] at hd; cases hd; exact absurd rfl hx.2
  · next hd => rw [h] at hd; cases hd; exact absurd rfl hx.2
  · split
    · next he' => rw [he] at he'; cases he'; rfl
    · next he' => rw [he] at he'; cases he'


/-- An induction over the rest of a start tag, by what stands behind the blanks: nothing, the
    end of the tag, a slash that does not end it, or an entry. -/
theorem readTagBody_induction {motive : Cursor → Prop}
    (ended : ∀ {c : Cursor}, (c.skipWhile isTagBlank).rest = [] → motive c)
    (close : ∀ {c : Cursor} {r : List Char}, (c.skipWhile isTagBlank).rest = '>' :: r → motive c)
    (selfClose : ∀ {c : Cursor} {r : List Char},
      (c.skipWhile isTagBlank).rest = '/' :: '>' :: r → motive c)
    (slash : ∀ {c : Cursor} {r : List Char}, (c.skipWhile isTagBlank).rest = '/' :: r →
      r.head? ≠ some '>' → motive ((c.skipWhile isTagBlank).skip 1) → motive c)
    (fails : ∀ {c : Cursor} {x : Char} {r : List Char} {e : Error},
      (c.skipWhile isTagBlank).rest = x :: r → x ≠ '>' ∧ x ≠ '/' →
      readEntry (c.skipWhile isTagBlank) = .error e → motive c)
    (entry : ∀ {c next : Cursor} {x : Char} {r : List Char} {e : Entry},
      (c.skipWhile isTagBlank).rest = x :: r → x ≠ '>' ∧ x ≠ '/' →
      readEntry (c.skipWhile isTagBlank) = .ok (e, next) → motive next → motive c)
    (c : Cursor) : motive c := by
  induction hn : c.rest.length using Nat.strongRecOn generalizing c with
  | ind n ih =>
    subst hn
    cases hd : (c.skipWhile isTagBlank).rest with
    | nil => exact ended hd
    | cons x r =>
      by_cases hclose : x = '>'
      · subst hclose
        exact close hd
      · by_cases hslash : x = '/'
        · subst hslash
          by_cases hr : r.head? = some '>'
          · obtain ⟨t, rfl⟩ := List.head?_eq_some_iff.1 hr
            exact selfClose hd
          · exact slash hd hr (ih _ (skip_shorter hd 0) _ rfl)
        · cases he : readEntry (c.skipWhile isTagBlank) with
          | error e => exact fails hd ⟨hclose, hslash⟩ he
          | ok found =>
            have hshort := readEntry_skipWhile_shorter hd he
            exact entry hd ⟨hclose, hslash⟩ he (ih _ hshort _ rfl)

end TagBody

/-- Reading moves from a cursor over the rest of a start tag to another cursor, and
    finds a body there. -/
inductive ReadsBody : Cursor → TagBody → Cursor → Prop where
  | close {c : Cursor} {r : List Char} (h : (c.skipWhile isTagBlank).rest = '>' :: r) :
    ReadsBody c ⟨[], false⟩ ((c.skipWhile isTagBlank).skip 1)
  | selfClose {c : Cursor} {r : List Char} (h : (c.skipWhile isTagBlank).rest = '/' :: '>' :: r) :
    ReadsBody c ⟨[], true⟩ ((c.skipWhile isTagBlank).skip 2)
  | slash {c d : Cursor} {r : List Char} {body : TagBody}
    (h : (c.skipWhile isTagBlank).rest = '/' :: r) (hr : r.head? ≠ some '>')
    (tail : ReadsBody ((c.skipWhile isTagBlank).skip 1) body d) : ReadsBody c body d
  | entry {c next d : Cursor} {x : Char} {r : List Char} {e : Entry} {body : TagBody}
    (h : (c.skipWhile isTagBlank).rest = x :: r) (hx : x ≠ '>' ∧ x ≠ '/')
    (he : readEntry (c.skipWhile isTagBlank) = .ok (e, next)) (tail : ReadsBody next body d) :
    ReadsBody c ⟨e :: body.entries, body.selfClosing⟩ d

theorem readTagBody_of_reads {c d : Cursor} {body : TagBody} (h : ReadsBody c body d) :
    readTagBody c = .ok (some (body, d)) := by
  induction h with
  | close h => exact readTagBody_close h
  | selfClose h => exact readTagBody_selfClose h
  | slash h hr tail ih =>
    rw [readTagBody_slash h hr]
    exact ih
  | entry h hx he tail ih =>
    rw [readTagBody_entry h hx he, ih]
    rfl

theorem reads_of_readTagBody {c d : Cursor} {body : TagBody}
    (h : readTagBody c = .ok (some (body, d))) : ReadsBody c body d := by
  induction c using readTagBody_induction generalizing body with
  | ended hd =>
    rw [readTagBody_end hd] at h
    cases h
  | close hd =>
    rw [readTagBody_close hd] at h
    cases h
    exact .close hd
  | selfClose hd =>
    rw [readTagBody_selfClose hd] at h
    cases h
    exact .selfClose hd
  | slash hd hr ih =>
    rw [readTagBody_slash hd hr] at h
    exact .slash hd hr (ih h)
  | fails hd hx he =>
    rw [readTagBody_error hd hx he] at h
    cases h
  | @entry c next x r e hd hx he ih =>
    rw [readTagBody_entry hd hx he] at h
    cases hnext : readTagBody next with
    | error e =>
      rw [hnext] at h
      cases h
    | ok found =>
      rw [hnext] at h
      cases found with
      | none => cases h
      | some found =>
        cases h
        exact .entry hd hx he (ih hnext)

theorem readTagBody_eq_some_iff {c d : Cursor} {body : TagBody} :
    readTagBody c = .ok (some (body, d)) ↔ ReadsBody c body d :=
  ⟨reads_of_readTagBody, readTagBody_of_reads⟩

theorem ReadsBody.takes {c d : Cursor} {body : TagBody} (h : ReadsBody c body d) :
    ∃ w, Takes c (w ++ ['>']) d := by
  -- a piece that ends with the mark stays one when something is read in front of it
  have front : ∀ {c next d : Cursor} {v w : List Char}, Takes c v next →
      Takes next (w ++ ['>']) d → ∃ w', Takes c (w' ++ ['>']) d := by
    intro c next d v w hv hw
    exact ⟨v ++ w, by rw [List.append_assoc]; exact hv.trans hw⟩
  induction h with
  | @close c r h =>
    exact front (w := []) (Cursor.takes_skipWhile c isTagBlank) (Cursor.takes_skip_one h)
  | @selfClose c r h =>
    have hskip := Cursor.takes_skip (c.skipWhile isTagBlank) 2
    rw [h] at hskip
    exact front (w := ['/']) (Cursor.takes_skipWhile c isTagBlank) hskip
  | @slash c d r body h hr tail ih =>
    obtain ⟨w, hw⟩ := ih
    exact front ((Cursor.takes_skipWhile c isTagBlank).trans (Cursor.takes_skip_one h)) hw
  | @entry c next d x r e body h hx he tail ih =>
    obtain ⟨w, hw⟩ := ih
    obtain ⟨-, v, hv⟩ := readEntry_takes he
    exact front ((Cursor.takes_skipWhile c isTagBlank).trans hv) hw

/-- Entries start inside the piece that is read. -/
theorem ReadsBody.start_mem {c d : Cursor} {body : TagBody} (h : ReadsBody c body d) {e : Entry}
    (he : e ∈ body.entries) : c.offset ≤ e.start ∧ e.start ≤ d.offset := by
  induction h with
  | close h => cases he
  | selfClose h => cases he
  | @slash c d r body h hr tail ih =>
    have hle := ((Cursor.takes_skipWhile c isTagBlank).trans (Cursor.takes_skip_one h)).offset_le
    exact ⟨Nat.le_trans hle (ih he).1, (ih he).2⟩
  | @entry c next d x r e' body h hx he' tail ih =>
    obtain ⟨hstart, v, hv⟩ := readEntry_takes he'
    obtain ⟨w, hw⟩ := tail.takes
    have hblank := (Cursor.takes_skipWhile c isTagBlank).offset_le
    have hnext := hv.offset_le
    rcases List.mem_cons.1 he with rfl | he
    · rw [hstart]
      exact ⟨hblank, Nat.le_trans hnext hw.offset_le⟩
    · exact ⟨Nat.le_trans (Nat.le_trans hblank hnext) (ih he).1, (ih he).2⟩

/-- No entry starts right where a tag name ends. -/
theorem ReadsBody.start_lt {c d : Cursor} {x : Char} {r : List Char} {body : TagBody}
    (h : ReadsBody c body d) (hc : c.rest = x :: r) (hx : isTagNamePart x = false) {e : Entry}
    (he : e ∈ body.entries) : c.offset < e.start := by
  have hblank := Cursor.takes_skipWhile c isTagBlank
  cases h with
  | close h => cases he
  | selfClose h => cases he
  | slash h hr tail =>
    have hskip := (Cursor.takes_skip_one h).offset
    have hstart := (tail.start_mem he).1
    have hle := hblank.offset_le
    have hone : byteSize ['/'] = 1 := rfl
    omega
  | @entry _ next _ x' r' e' body h hx' he' tail =>
    have hlt : c.offset < (c.skipWhile isTagBlank).offset := by
      cases hb : isTagBlank x with
      | true =>
        have hsize := hblank.offset
        rw [hc, List.takeWhile_cons_of_pos hb, byteSize_cons] at hsize
        have := x.utf8Size_pos
        omega
      | false =>
        -- the first character is not skipped, so the entry starts with it
        have hsame : (c.skipWhile isTagBlank).rest = x :: r := by
          show c.rest.dropWhile isTagBlank = x :: r
          rw [hc, List.dropWhile_cons_of_neg (by simp [hb])]
        rw [hsame] at h
        obtain ⟨rfl, -⟩ := List.cons.inj h
        simp [isTagNamePart, hb, hx'] at hx
    obtain ⟨hstart, v, hv⟩ := readEntry_takes he'
    have hnext := hv.offset_le
    rcases List.mem_cons.1 he with rfl | he
    · omega
    · have := (tail.start_mem he).1
      omega

/-- Blanks in front of a mark are skipped whatever follows the mark. -/
theorem skipWhile_replace {c : Cursor} {s r : List Char} (hs : c.rest = s ++ '>' :: r) (k : Nat)
    (y : List Char) :
    (c.skipWhile isTagBlank).rest = s.dropWhile isTagBlank ++ '>' :: r ∧
    Cursor.skipWhile ⟨c.offset + k, s ++ '>' :: y⟩ isTagBlank =
      ⟨(c.skipWhile isTagBlank).offset + k, s.dropWhile isTagBlank ++ '>' :: y⟩ := by
  obtain ⟨o, _⟩ := c
  subst hs
  rw [skipWhile_mark, skipWhile_mark, Nat.add_right_comm]
  exact ⟨rfl, rfl⟩

/-- What follows a start tag has no part in reading it. -/
theorem ReadsBody.replace {c d : Cursor} {body : TagBody} (h : ReadsBody c body d) {s : List Char}
    (hs : c.rest = s ++ '>' :: d.rest) (k : Nat) (y : List Char) :
    ReadsBody ⟨c.offset + k, s ++ '>' :: y⟩
      ⟨body.entries.map (·.mapStart (· + k)), body.selfClosing⟩ ⟨d.offset + k, y⟩ := by
  induction h generalizing s with
  | @close c r h =>
    rw [Cursor.skip_one h] at hs ⊢
    obtain ⟨hrest, hnew⟩ := skipWhile_replace hs k y
    rw [h] at hrest
    -- the mark is the first one behind the blanks
    have hnil : s.dropWhile isTagBlank = [] :=
      List.append_cancel_right (show s.dropWhile isTagBlank ++ '>' :: r = [] ++ '>' :: r from hrest.symm)
    rw [hnil] at hnew
    have hclose := ReadsBody.close (c := ⟨c.offset + k, s ++ '>' :: y⟩) (r := y) (by rw [hnew]; rfl)
    rw [hnew, Cursor.skip_one rfl, Nat.add_right_comm] at hclose
    exact hclose
  | @selfClose c r h =>
    rw [Cursor.skip_two h] at hs ⊢
    obtain ⟨hrest, hnew⟩ := skipWhile_replace hs k y
    rw [h] at hrest
    have hslash : s.dropWhile isTagBlank = ['/'] :=
      List.append_cancel_right
        (show s.dropWhile isTagBlank ++ '>' :: r = ['/'] ++ '>' :: r from hrest.symm)
    rw [hslash] at hnew
    have hclose := ReadsBody.selfClose (c := ⟨c.offset + k, s ++ '>' :: y⟩) (r := y)
      (by rw [hnew]; rfl)
    rw [hnew, Cursor.skip_two rfl, Nat.add_right_comm] at hclose
    exact hclose
  | @slash c d r body h hr tail ih =>
    obtain ⟨hrest, hnew⟩ := skipWhile_replace hs k y
    rw [h] at hrest
    obtain ⟨g, hg, hr'⟩ := Text.cons_of_append_mark hrest.symm (by decide)
    rw [hg] at hnew
    rw [Cursor.skip_one h] at ih
    have htail := ih hr'
    refine .slash (r := g ++ '>' :: y) (by rw [hnew]; rfl) ?_ ?_
    · -- whether `>` follows the slash shows in front of the mark
      rw [hr'] at hr
      cases g with
      | nil => exact absurd rfl hr
      | cons x g => exact hr
    · rw [hnew, Cursor.skip_one rfl, Nat.add_right_comm]
      exact htail
  | @entry c next d x r e body h hx he tail ih =>
    obtain ⟨w, hw⟩ := tail.takes
    obtain ⟨-, v, hv⟩ := readEntry_takes he
    obtain ⟨hrest, hnew⟩ := skipWhile_replace hs k y
    have hnext : next.rest = w ++ '>' :: d.rest := by rw [hw.rest, List.append_assoc]; rfl
    -- there is something in front of the mark, since the mark itself starts no entry
    obtain ⟨g, hg, -⟩ := Text.cons_of_append_mark (hrest.symm.trans h) hx.1
    have hread : readEntry ⟨(c.skipWhile isTagBlank).offset, x :: g ++ '>' :: d.rest⟩ =
        .ok (e, ⟨next.offset, w ++ '>' :: d.rest⟩) := by
      rw [← hnext, ← hg, ← hrest]
      exact he
    have hread' := readEntry_replace (by simp) hread k y
    rw [hg] at hnew
    have hrest' : (Cursor.skipWhile ⟨c.offset + k, s ++ '>' :: y⟩ isTagBlank).rest =
        x :: (g ++ '>' :: y) := by
      rw [hnew]
      rfl
    rw [← hnew] at hread'
    have hentry := ReadsBody.entry hrest' hx hread' (ih hnext)
    exact hentry

/-! ## §6. Start tags -/

theorem isTagNamePart_of_isAlpha {x : Char} (h : x.isAlpha = true) : isTagNamePart x = true := by
  have not_mark : ∀ {y : Char}, y.isAlpha = false → x ≠ y := by
    rintro y hy rfl
    rw [hy] at h
    cases h
  have hblank : isTagBlank x = false := by
    simp [isTagBlank, not_mark (y := ' ') (by decide), not_mark (y := '\t') (by decide),
      not_mark (y := '\n') (by decide), not_mark (y := '\x0c') (by decide),
      not_mark (y := '\r') (by decide)]
  simp [isTagNamePart, hblank, not_mark (y := '>') (by decide), not_mark (y := '/') (by decide)]

/-- The character that ends a tag name does not belong to it. -/
theorem isTagNamePart_of_endsTagName {s : List Char} (h : endsTagName s = true) :
    ∀ x ∈ s.head?, isTagNamePart x = false := by
  cases s with
  | nil => simp
  | cons y r =>
    intro x hx
    obtain rfl : y = x := by simpa using hx
    simp only [endsTagName, Bool.or_eq_true, decide_eq_true_eq] at h
    rcases h with (rfl | rfl) | hblank
    · decide
    · decide
    · simp [isTagNamePart, hblank]

/-- A start tag stands in front of a cursor: its name, and `text` behind the name up
    to the end of the file.  Reading the tag ends at `d`. -/
structure ReadsTag (c : Cursor) (tag : OpenTag) (text : List Char) (d : Cursor) : Prop where
  rest : c.rest = '<' :: (tag.name.toList ++ text)
  name : ∀ x ∈ tag.name.toList, isTagNamePart x = true
  stop : ∃ x r, text = x :: r ∧ isTagNamePart x = false
  start : tag.start = c.offset
  nameEnd : tag.nameEnd = c.offset + 1 + byteSize tag.name.toList
  body : ReadsBody ⟨tag.nameEnd, text⟩ ⟨tag.entries, tag.selfClosing⟩ d

theorem readsTag_of_readOpenTag {c d : Cursor} {tag : OpenTag} {s : List Char}
    (hc : c.rest = '<' :: s) (h : readOpenTag c = .ok (tag, d)) : ∃ text, ReadsTag c tag text d := by
  unfold readOpenTag at h
  rw [Cursor.skip_one hc] at h
  simp only [Cursor.takeWhile, Cursor.past] at h
  split at h
  · cases h
  · cases h
  · next body stop hbody =>
    obtain ⟨rfl, rfl⟩ := Prod.mk.inj (Except.ok.inj h)
    have hreads := reads_of_readTagBody hbody
    refine ⟨s.dropWhile isTagNamePart, ?_, ?_, ?_, rfl, ?_, hreads⟩
    · rw [hc, String.toList_ofList, List.takeWhile_append_dropWhile]
    · intro x hx
      rw [String.toList_ofList] at hx
      exact List.all_eq_true.1 List.all_takeWhile x hx
    · -- the body ends with a mark, so something stands behind the name
      obtain ⟨w, hw⟩ := hreads.takes
      cases hd : s.dropWhile isTagNamePart with
      | nil =>
        have hrest := hw.rest
        rw [hd] at hrest
        simp at hrest
      | cons x r =>
        have hstop := List.head?_dropWhile_not isTagNamePart s
        rw [hd] at hstop
        exact ⟨x, r, rfl, by simpa using hstop⟩
    · rw [String.toList_ofList]
      rfl

theorem ReadsTag.readOpenTag {c d : Cursor} {tag : OpenTag} {text : List Char}
    (h : ReadsTag c tag text d) : readOpenTag c = .ok (tag, d) := by
  obtain ⟨x, r, rfl, hx⟩ := h.stop
  have hstop : ∀ y ∈ (x :: r).head?, isTagNamePart y = false := by
    intro y hy
    obtain rfl : x = y := by simpa using hy
    exact hx
  have hname := Text.takeWhile_run h.name hstop
  have hbehind := Text.dropWhile_run h.name hstop
  have hbody := readTagBody_of_reads h.body
  unfold Template.readOpenTag
  rw [Cursor.skip_one h.rest]
  simp only [Cursor.takeWhile, Cursor.past, hname, hbehind]
  rw [show c.offset + '<'.utf8Size + byteSize tag.name.toList = tag.nameEnd from h.nameEnd.symm,
    hbody]
  simp only [String.ofList_toList, ← h.start]

theorem ReadsTag.takes_name {c d : Cursor} {tag : OpenTag} {text : List Char}
    (h : ReadsTag c tag text d) : Takes c ('<' :: tag.name.toList) ⟨tag.nameEnd, text⟩ where
  rest := h.rest
  offset := by
    have hone : '<'.utf8Size = 1 := rfl
    have hend := h.nameEnd
    rw [byteSize_cons]
    show tag.nameEnd = _
    omega

theorem ReadsTag.takes_body {c d : Cursor} {tag : OpenTag} {text : List Char}
    (h : ReadsTag c tag text d) : ∃ w, text = w ++ '>' :: d.rest ∧
      Takes ⟨tag.nameEnd, text⟩ (w ++ ['>']) d := by
  obtain ⟨w, hw⟩ := h.body.takes
  have hrest : text = w ++ ['>'] ++ d.rest := hw.rest
  exact ⟨w, by rw [hrest, List.append_assoc]; rfl, hw⟩

theorem ReadsTag.takes {c d : Cursor} {tag : OpenTag} {text : List Char}
    (h : ReadsTag c tag text d) : ∃ w, w ≠ [] ∧ Takes c w d := by
  obtain ⟨w, -, hw⟩ := h.takes_body
  exact ⟨_, by simp, h.takes_name.trans hw⟩

/-- The name of a start tag ends inside the tag. -/
theorem ReadsTag.nameEnd_lt {c d : Cursor} {tag : OpenTag} {text : List Char}
    (h : ReadsTag c tag text d) : tag.nameEnd < d.offset := by
  obtain ⟨w, hw⟩ := h.body.takes
  have hoff : d.offset = tag.nameEnd + byteSize (w ++ ['>']) := hw.offset
  have hpos : 0 < byteSize (w ++ ['>']) := Text.byteSize_pos (by simp)
  omega

theorem ReadsTag.start_lt {c d : Cursor} {tag : OpenTag} {text : List Char}
    (h : ReadsTag c tag text d) {e : Entry} (he : e ∈ tag.entries) :
    tag.nameEnd < e.start ∧ e.start ≤ d.offset := by
  obtain ⟨x, r, hx, hpart⟩ := h.stop
  exact ⟨h.body.start_lt hx hpart he, (h.body.start_mem he).2⟩

end Provenance.Template
