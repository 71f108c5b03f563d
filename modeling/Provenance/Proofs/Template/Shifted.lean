import Provenance.Proofs.Template.Tag

/-! # Reading at another offset

  What a reader finds depends on the characters that remain at a cursor.  The offset of the
  cursor only shows in the places that are told, those of what is found and that of an error.

  - With the same characters at a later offset the rest of a start tag is read to the same
    end, and all places move along (`readTagBody_shift`).
  - If reading it fails, it fails behind the cursor (`lt_of_readTagBody_error`).
-/

namespace Provenance

/-! ## §1. Cursors at another offset -/

namespace Text.Cursor

/-- The same characters at a later offset. -/
def shift (k : Nat) (c : Cursor) : Cursor := ⟨c.offset + k, c.rest⟩

@[simp] theorem shift_rest (k : Nat) (c : Cursor) : (c.shift k).rest = c.rest := rfl

@[simp] theorem shift_offset (k : Nat) (c : Cursor) : (c.shift k).offset = c.offset + k := rfl

@[simp] theorem skip_shift (k n : Nat) (c : Cursor) : (c.shift k).skip n = (c.skip n).shift k := by
  simp [skip, past, shift, Nat.add_right_comm]

@[simp] theorem takeWhile_shift (k : Nat) (p : Char → Bool) (c : Cursor) :
    (c.shift k).takeWhile p = ((c.takeWhile p).1, (c.takeWhile p).2.shift k) := by
  simp [takeWhile, past, shift, Nat.add_right_comm]

@[simp] theorem skipWhile_shift (k : Nat) (p : Char → Bool) (c : Cursor) :
    (c.shift k).skipWhile p = (c.skipWhile p).shift k := by
  simp [skipWhile]

theorem takeUntil?_shift (k : Nat) (pattern : List Char) (c : Cursor) :
    (c.shift k).takeUntil? pattern =
      (c.takeUntil? pattern).map fun found => (found.1, found.2.shift k) := by
  simp [takeUntil?, past, shift, Nat.add_right_comm, Function.comp_def]

end Text.Cursor

namespace Template

open Text (Cursor isTagBlank byteSize)

/-! ## §2. Entries at another offset -/

/-- An error at a later place. -/
def Error.shift (k : Nat) (e : Error) : Error := ⟨e.fault, e.offset + k⟩

/-- What a reader finds at a later offset, where `place` moves what is found. -/
def shifted {α : Type} (k : Nat) (place : α → α) : Outcome α → Outcome α
  | .ok (found, d) => .ok (place found, d.shift k)
  | .error e => .error (e.shift k)

theorem readValue_shift (k : Nat) (c : Cursor) :
    readValue (c.shift k) = shifted k id (readValue c) := by
  obtain ⟨o, s⟩ := c
  cases s with
  | nil => rfl
  | cons q r =>
    have hshift : Cursor.shift k ⟨o, q :: r⟩ = ⟨o + k, q :: r⟩ := rfl
    by_cases hq : IsQuote q
    · have hskip := Cursor.skip_shift k 1 ⟨o, q :: r⟩
      have hfound := Cursor.takeUntil?_shift k [q] (Cursor.skip ⟨o, q :: r⟩ 1)
      rw [hshift] at hskip ⊢
      rw [readValue_of_quote hq, readValue_of_quote hq, hskip, hfound]
      cases (Cursor.skip ⟨o, q :: r⟩ 1).takeUntil? [q] with
      | none => rfl
      | some found => rfl
    · have hfound := Cursor.takeWhile_shift k (fun x => !isTagBlank x && x ≠ '>') ⟨o, q :: r⟩
      rw [hshift] at hfound ⊢
      rw [readValue_of_not_quote hq, readValue_of_not_quote hq, hfound]
      rfl

theorem readEntry_shift (k : Nat) (c : Cursor) :
    readEntry (c.shift k) = shifted k (Entry.mapStart (· + k)) (readEntry c) := by
  have hname : entryGap (c.shift k) = (entryGap c).shift k := by
    simp [entryGap]
  have hvalue : ((entryGap (c.shift k)).skip 1).skipWhile isTagBlank =
      (((entryGap c).skip 1).skipWhile isTagBlank).shift k := by
    simp [hname]
  by_cases hgap : ∃ r, (entryGap c).rest = '=' :: r
  · obtain ⟨r, hr⟩ := hgap
    have hr' : (entryGap (c.shift k)).rest = '=' :: r := by rw [hname]; exact hr
    have hread := readValue_shift k (((entryGap c).skip 1).skipWhile isTagBlank)
    rw [← hvalue] at hread
    cases hv : readValue (((entryGap c).skip 1).skipWhile isTagBlank) with
    | error e =>
      rw [hv] at hread
      rw [readEntry_of_error hr hv, readEntry_of_error hr' hread]
      rfl
    | ok found =>
      obtain ⟨value, d⟩ := found
      rw [hv] at hread
      rw [readEntry_of_value hr hv, readEntry_of_value hr' hread]
      show _ = Except.ok (Entry.mapStart _ _, _)
      rw [Entry.mapStart_ofName]
      rfl
  · have hbare : ∀ r, (entryGap c).rest ≠ '=' :: r := fun r hr => hgap ⟨r, hr⟩
    have hbare' : ∀ r, (entryGap (c.shift k)).rest ≠ '=' :: r := by
      rw [hname]
      exact hbare
    rw [readEntry_of_bare hbare, readEntry_of_bare hbare']
    show _ = Except.ok (Entry.mapStart _ _, _)
    rw [Entry.mapStart_ofName, ← Cursor.skip_shift]
    rfl

/-! ## §3. The rest of a start tag at another offset -/

/-- What is read of the rest of a start tag at a later offset. -/
def shiftedBody (k : Nat) (read : Except Error (Option (TagBody × Cursor))) :
    Except Error (Option (TagBody × Cursor)) :=
  match read with
  | .ok none => .ok none
  | .ok (some (body, d)) =>
    .ok (some (⟨body.entries.map (Entry.mapStart (· + k)), body.selfClosing⟩, d.shift k))
  | .error e => .error (e.shift k)

theorem shiftedBody_withEntries (k : Nat) (front : List Entry)
    (read : Except Error (Option (TagBody × Cursor))) :
    shiftedBody k (withEntries front read) =
      withEntries (front.map (Entry.mapStart (· + k))) (shiftedBody k read) := by
  cases read with
  | error e => rfl
  | ok found =>
    cases found with
    | none => rfl
    | some found => simp [withEntries, shiftedBody, Except.map]

/-- The offset at which the rest of a start tag is read is added to all places. -/
theorem readTagBody_shift (k : Nat) (c : Cursor) :
    readTagBody (c.shift k) = shiftedBody k (readTagBody c) := by
  have hblank : ∀ c : Cursor, ((c.shift k).skipWhile isTagBlank) =
      (c.skipWhile isTagBlank).shift k := by
    intro c
    exact Cursor.skipWhile_shift k isTagBlank c
  have hrest : ∀ {c : Cursor} {s : List Char}, (c.skipWhile isTagBlank).rest = s →
      ((c.shift k).skipWhile isTagBlank).rest = s := by
    intro c s h
    rw [hblank]
    exact h
  induction c using readTagBody_induction with
  | ended h =>
    rw [readTagBody_end h, readTagBody_end (hrest h)]
    rfl
  | close h =>
    rw [readTagBody_close h, readTagBody_close (hrest h), hblank, Cursor.skip_shift]
    rfl
  | selfClose h =>
    rw [readTagBody_selfClose h, readTagBody_selfClose (hrest h), hblank, Cursor.skip_shift]
    rfl
  | slash h hr ih =>
    rw [readTagBody_slash h hr, readTagBody_slash (hrest h) hr, hblank, Cursor.skip_shift]
    exact ih
  | @fails c x r e h hx he =>
    have he' := readEntry_shift k (c.skipWhile isTagBlank)
    rw [he, ← hblank] at he'
    rw [readTagBody_error h hx he, readTagBody_error (hrest h) hx he']
    rfl
  | @entry c next x r e h hx he ih =>
    have he' := readEntry_shift k (c.skipWhile isTagBlank)
    rw [he, ← hblank] at he'
    rw [readTagBody_entry h hx he, readTagBody_entry (hrest h) hx he', ih, shiftedBody_withEntries]
    rfl

/-! ## §4. Places of errors -/

theorem readValue_error {c : Cursor} {e : Error} (h : readValue c = .error e) :
    e.offset = c.offset := by
  obtain ⟨o, s⟩ := c
  cases s with
  | nil => cases h
  | cons q r =>
    by_cases hq : IsQuote q
    · rw [readValue_of_quote hq] at h
      split at h
      · cases h
      · cases h
        rfl
    · rw [readValue_of_not_quote hq] at h
      cases h

/-- An entry fails behind its name. -/
theorem lt_of_readEntry_error {c : Cursor} {e : Error} (h : readEntry c = .error e) :
    c.offset < e.offset := by
  by_cases hgap : ∃ r, (entryGap c).rest = '=' :: r
  · obtain ⟨r, hr⟩ := hgap
    cases hv : readValue (((entryGap c).skip 1).skipWhile isTagBlank) with
    | ok found =>
      rw [readEntry_of_value hr hv] at h
      cases h
    | error e' =>
      rw [readEntry_of_error hr hv] at h
      cases h
      -- between the two stand the equals sign and what is in front of it
      have hgap : c.offset ≤ (entryGap c).offset :=
        ((Cursor.takes_skip c (attributeName c.rest).length).trans
          (Cursor.takes_skipWhile _ isTagBlank)).offset_le
      have hone : (entryGap c).offset < ((entryGap c).skip 1).offset := by
        rw [Cursor.skip_one hr]
        exact Nat.lt_add_of_pos_right (by decide)
      have hblank := (Cursor.takes_skipWhile ((entryGap c).skip 1) isTagBlank).offset_le
      rw [readValue_error hv]
      exact Nat.lt_of_le_of_lt hgap (Nat.lt_of_lt_of_le hone hblank)
  · rw [readEntry_of_bare fun r hr => hgap ⟨r, hr⟩] at h
    cases h

theorem lt_of_readTagBody_error {c : Cursor} {e : Error} (h : readTagBody c = .error e) :
    c.offset < e.offset := by
  induction c using readTagBody_induction with
  | ended hd =>
    rw [readTagBody_end hd] at h
    cases h
  | close hd =>
    rw [readTagBody_close hd] at h
    cases h
  | selfClose hd =>
    rw [readTagBody_selfClose hd] at h
    cases h
  | @slash c r hd hr ih =>
    rw [readTagBody_slash hd hr] at h
    have hblank := (Cursor.takes_skipWhile c isTagBlank).offset_le
    have hskip := (Cursor.takes_skip (c.skipWhile isTagBlank) 1).offset_le
    exact Nat.lt_of_le_of_lt (Nat.le_trans hblank hskip) (ih h)
  | @fails c x r e' hd hx he =>
    rw [readTagBody_error hd hx he] at h
    cases h
    have hblank := (Cursor.takes_skipWhile c isTagBlank).offset_le
    exact Nat.lt_of_le_of_lt hblank (lt_of_readEntry_error he)
  | @entry c next x r entry hd hx he ih =>
    rw [readTagBody_entry hd hx he] at h
    have hblank := (Cursor.takes_skipWhile c isTagBlank).offset_le
    obtain ⟨-, w, hw⟩ := readEntry_takes he
    cases hnext : readTagBody next with
    | ok found =>
      rw [hnext] at h
      cases h
    | error e' =>
      rw [hnext] at h
      cases h
      exact Nat.lt_of_le_of_lt (Nat.le_trans hblank hw.offset_le) (ih hnext)

end Template

end Provenance
