import Provenance.Proofs.Scanner.Annotation

/-! # The order of insertions

  A buffer is filled by calls in any order, with offsets that repeat and that may lie past
  the end of the text.  What it reads out is said without a sort and without a cursor: at
  every position of the text first what the calls insert there, in the order of the calls,
  and then the character that starts there (`writtenOut`).

  - Insertions in order are known by the insertions at each offset (`eq_of_inOrder`), and
    sorting keeps these (`filter_sorted`).  So calls at different places may be exchanged
    (`Reordered`), and the buffer reads out the same, as text and as map.
  - Between insertions in order the text can be cut exactly if all of them stand at
    boundaries (`cutAt_isSome_iff`).  Text and map are read out by two loops that slice the
    whole text by offsets, and both of them fail where cutting fails
    (`finishFrom?_eq`, `segmentsFrom?_eq`).

  Main statement: `filled_reads_out`.
-/

namespace Provenance

open Text (byteSize byteSize_nil byteSize_append byteSize_cons IsBoundary slice? cut?)
open Insertion (textsAt edit textsAt_cons textsAt_eq_nil)

/-! ## §1. Filling a buffer -/

/-- Where a call inserts into a text: an offset past the end means the end. -/
def Insertion.place (original : List Char) (call : Insertion) : Nat :=
  min call.offset (byteSize original)

namespace SpliceBuffer

/-- The buffer over a text that calls have filled, one after another. -/
def filled (original : List Char) (calls : List Insertion) : SpliceBuffer :=
  calls.foldl (fun buffer call => buffer.insert call.offset call.text) { original }

/-- Two sequences of calls that differ by exchanges of neighbours with different places. -/
inductive Reordered (original : List Char) : List Insertion → List Insertion → Prop where
  | refl (calls : List Insertion) : Reordered original calls calls
  | swap {calls front back : List Insertion} {a b : Insertion}
      (before : Reordered original calls (front ++ a :: b :: back))
      (apart : a.place original ≠ b.place original) :
      Reordered original calls (front ++ b :: a :: back)

variable {original : List Char} {calls calls' : List Insertion}

theorem foldl_insert (buffer : SpliceBuffer) (calls : List Insertion) :
    calls.foldl (fun buffer call => buffer.insert call.offset call.text) buffer =
      { buffer with
        insertions := buffer.insertions ++
          calls.map fun call => ⟨call.place buffer.original, call.text⟩ } := by
  induction calls generalizing buffer with
  | nil => simp
  | cons call calls ih =>
    rw [List.foldl_cons, ih]
    simp [SpliceBuffer.insert, Insertion.place]

/-- The calls, each with its place in the text. -/
theorem filled_eq (original : List Char) (calls : List Insertion) :
    filled original calls =
      { original, insertions := calls.map fun call => ⟨call.place original, call.text⟩ } := by
  rw [filled, foldl_insert]
  rfl

@[simp] theorem filled_original (original : List Char) (calls : List Insertion) :
    (filled original calls).original = original := by
  rw [filled_eq]

theorem forall_insertions_filled {p : Nat → Prop} :
    (∀ x ∈ (filled original calls).insertions, p x.offset) ↔
      ∀ call ∈ calls, p (call.place original) := by
  simp [filled_eq]

/-! ## §2. Sorted insertions -/

/-- No insertion stands in front of the first of those in order. -/
theorem InOrder.head_le {x y : Insertion} {l : List Insertion} (h : InOrder (x :: l))
    (hy : y ∈ x :: l) : x.offset ≤ y.offset := by
  rcases List.mem_cons.1 hy with rfl | hy
  · exact Nat.le_refl _
  · exact (List.pairwise_cons.1 h).1 y hy

theorem mem_iff_of_filter_eq {l l' : List Insertion}
    (h : ∀ o, l.filter (·.offset = o) = l'.filter (·.offset = o)) (x : Insertion) :
    x ∈ l ↔ x ∈ l' := by
  have hx := congrArg (x ∈ ·) (h x.offset)
  simpa using hx

/-- Insertions in order are known by those at each offset. -/
theorem eq_of_inOrder {l l' : List Insertion} (h : InOrder l) (h' : InOrder l')
    (hsame : ∀ o, l.filter (·.offset = o) = l'.filter (·.offset = o)) : l = l' := by
  have hmem := mem_iff_of_filter_eq hsame
  induction l generalizing l' with
  | nil =>
    cases l' with
    | nil => rfl
    | cons y l' => exact absurd ((hmem y).2 List.mem_cons_self) List.not_mem_nil
  | cons x l ih =>
    cases l' with
    | nil => exact absurd ((hmem x).1 List.mem_cons_self) List.not_mem_nil
    | cons y l' =>
      -- each of the two first ones is among the others, so they stand at one offset
      have hxy := h.head_le ((hmem y).2 List.mem_cons_self)
      have hyx := h'.head_le ((hmem x).1 List.mem_cons_self)
      have hoffset : y.offset = x.offset := Nat.le_antisymm hyx hxy
      have hfirst := hsame x.offset
      rw [List.filter_cons_of_pos (by simp), List.filter_cons_of_pos (by simpa using hoffset)]
        at hfirst
      obtain ⟨rfl, -⟩ := List.cons.inj hfirst
      have hrest : ∀ o, l.filter (·.offset = o) = l'.filter (·.offset = o) := by
        intro o
        have ho := hsame o
        rw [List.filter_cons, List.filter_cons] at ho
        by_cases hx : x.offset = o
        · rw [if_pos (by simpa using hx), if_pos (by simpa using hx)] at ho
          exact (List.cons.inj ho).2
        · rwa [if_neg (by simpa using hx), if_neg (by simpa using hx)] at ho
      rw [ih (List.pairwise_cons.1 h).2 (List.pairwise_cons.1 h').2 hrest
        (mem_iff_of_filter_eq hrest)]

theorem sorted_eq_of_filter {buffer buffer' : SpliceBuffer}
    (h : ∀ o, buffer'.insertions.filter (·.offset = o) = buffer.insertions.filter (·.offset = o)) :
    buffer'.sorted = buffer.sorted := by
  apply eq_of_inOrder (inOrder_sorted buffer') (inOrder_sorted buffer)
  intro o
  rw [filter_sorted, filter_sorted, h]

/-- Reordered calls make the same insertions at each place. -/
theorem Reordered.filter_eq (h : Reordered original calls calls') (o : Nat) :
    calls'.filter (·.place original = o) = calls.filter (·.place original = o) := by
  induction h with
  | refl => rfl
  | @swap front back a b before apart ih =>
    rw [← ih, List.filter_append, List.filter_append]
    -- at most one of the two neighbours stands at `o`
    by_cases ha : a.place original = o
    · have hb : b.place original ≠ o := by
        intro hb
        exact apart (ha.trans hb.symm)
      simp [ha, hb]
    · by_cases hb : b.place original = o <;> simp [ha, hb]

/-- Reordered calls leave a buffer with the same insertions when it is read out. -/
theorem Reordered.sorted_eq (h : Reordered original calls calls') :
    (filled original calls').sorted = (filled original calls).sorted := by
  apply sorted_eq_of_filter
  intro o
  have hfilter : ∀ calls : List Insertion,
      (filled original calls).insertions.filter (·.offset = o) =
        (calls.filter (·.place original = o)).map fun call =>
          ⟨call.place original, call.text⟩ := by
    intro calls
    rw [filled_eq]
    exact List.filter_map
  rw [hfilter, hfilter, h.filter_eq]

/-- Reordered calls give the same stretches. -/
theorem Reordered.chunks?_eq (h : Reordered original calls calls') :
    (filled original calls').chunks? = (filled original calls).chunks? := by
  rw [chunks?, chunks?, h.sorted_eq, filled_original, filled_original]

/-! ## §3. Position by position -/

/-- What the calls insert at a position, in the order of the calls. -/
def insertedAt (original : List Char) (calls : List Insertion) (position : Nat) : List Char :=
  (calls.filter (·.place original = position)).flatMap (·.text)

/-- The character that starts at a position of a text. -/
def characterAt? (s : List Char) (position : Nat) : Option Char :=
  (cut? position s).bind (·.2.head?)

/-- A text with what calls insert into it: at each position from the start to the end first
    what is inserted there, and then the character that starts there. -/
def writtenOut (original : List Char) (calls : List Insertion) : List Char :=
  (List.range (byteSize original + 1)).flatMap fun position =>
    insertedAt original calls position ++ (characterAt? original position).toList

theorem textsAt_filled (original : List Char) (calls : List Insertion) (o : Nat) :
    textsAt (filled original calls).insertions o = insertedAt original calls o := by
  rw [filled_eq, textsAt, insertedAt, List.filter_map, List.flatMap_map]
  rfl

theorem characterAt?_zero (c : Char) (r : List Char) : characterAt? (c :: r) 0 = some c := rfl

/-- No character starts inside another one. -/
theorem characterAt?_inside {c : Char} {p : Nat} (hpos : 0 < p) (hlt : p < c.utf8Size)
    (r : List Char) : characterAt? (c :: r) p = none := by
  obtain ⟨n, rfl⟩ := Nat.exists_eq_add_of_lt hpos
  rw [characterAt?, Nat.zero_add, cut?, if_neg (by omega)]
  rfl

theorem characterAt?_behind (c : Char) (r : List Char) (p : Nat) :
    characterAt? (c :: r) (c.utf8Size + p) = characterAt? r p := by
  have hpos := c.utf8Size_pos
  obtain ⟨n, hn⟩ : ∃ n, c.utf8Size + p = n + 1 := ⟨c.utf8Size + p - 1, by omega⟩
  rw [characterAt?, hn, cut?, if_pos (by omega), show n + 1 - c.utf8Size = p by omega,
    characterAt?]
  cases cut? p r <;> rfl

/-- Behind the first byte of a character nothing is inserted and nothing starts until its
    end. -/
theorem flatMap_inside {ins : List Insertion} {o : Nat} {c : Char} {r : List Char}
    (h : ∀ x ∈ ins, x.offset ≤ o ∨ o + c.utf8Size ≤ x.offset) :
    (List.range c.utf8Size).flatMap
        (fun p => textsAt ins (o + p) ++ (characterAt? (c :: r) p).toList) =
      textsAt ins o ++ [c] := by
  have hpos := c.utf8Size_pos
  obtain ⟨n, hn⟩ : ∃ n, c.utf8Size = n + 1 := ⟨c.utf8Size - 1, by omega⟩
  have hrest : (List.range n).flatMap
      (fun p => textsAt ins (o + (p + 1)) ++ (characterAt? (c :: r) (p + 1)).toList) = [] := by
    apply List.flatMap_eq_nil_iff.2
    intro p hp
    have hlt : p < n := List.mem_range.1 hp
    have hnone : textsAt ins (o + (p + 1)) = [] := by
      apply textsAt_eq_nil
      intro x hx
      have := h x hx
      omega
    rw [hnone, characterAt?_inside (by omega) (by omega)]
    rfl
  rw [hn, List.range_succ_eq_map, List.flatMap_cons, List.flatMap_map, hrest, List.append_nil,
    characterAt?_zero]
  rfl

/-- The edited text, position by position. -/
theorem edit_eq_flatMap {ins : List Insertion} {o : Nat} {s : List Char}
    (h : ∀ x ∈ ins, x.offset < o ∨ IsBoundary s (x.offset - o)) :
    edit ins o s = (List.range (byteSize s + 1)).flatMap fun p =>
      textsAt ins (o + p) ++ (characterAt? s p).toList := by
  induction s generalizing o with
  | nil =>
    rw [edit]
    simp [characterAt?, cut?]
  | cons c r ih =>
    have hpos := c.utf8Size_pos
    -- an insertion stands at `c` or in front of it, or not before its end
    have hin : ∀ x ∈ ins, x.offset ≤ o ∨
        o + c.utf8Size ≤ x.offset ∧ IsBoundary r (x.offset - (o + c.utf8Size)) := by
      intro x hx
      rcases h x hx with hlt | ⟨a, b, hsplit, ha⟩
      · exact .inl (by omega)
      · cases a with
        | nil =>
          rw [byteSize_nil] at ha
          exact .inl (by omega)
        | cons d a =>
          obtain ⟨rfl, hr⟩ := List.cons.inj (hsplit.trans (List.cons_append ..))
          rw [byteSize_cons] at ha
          exact .inr ⟨by omega, a, b, hr, by omega⟩
    have hfront := flatMap_inside (r := r) fun x hx => (hin x hx).imp_right And.left
    have hbehind := ih (o := o + c.utf8Size) fun x hx => by
      rcases hin x hx with hle | ⟨-, hb⟩
      · exact .inl (by omega)
      · exact .inr hb
    have hrange : List.range (c.utf8Size + (byteSize r + 1)) =
        List.range c.utf8Size ++ (List.range (byteSize r + 1)).map (c.utf8Size + ·) :=
      List.range_add ..
    rw [edit, hbehind, byteSize_cons, Nat.add_assoc c.utf8Size, hrange, List.flatMap_append,
      hfront, List.flatMap_map, List.append_assoc, List.singleton_append]
    simp only [characterAt?_behind, Nat.add_assoc]

/-- The edited text of a filled buffer, position by position. -/
theorem edit_filled (h : ∀ call ∈ calls, IsBoundary original (call.place original)) :
    edit (filled original calls).insertions 0 original = writtenOut original calls := by
  rw [edit_eq_flatMap, writtenOut]
  · simp only [Nat.zero_add, textsAt_filled]
  · intro x hx
    exact .inr (forall_insertions_filled.2 h x hx)

/-! ## §4. Where reading fails -/

/-- Insertions in order cut a text exactly if all of them stand at its boundaries. -/
theorem cutAt_isSome_iff {l : List Insertion} (hl : InOrder l) {o : Nat} {s : List Char}
    (ho : ∀ x ∈ l, o ≤ x.offset) :
    (cutAt o s l).isSome ↔ ∀ x ∈ l, IsBoundary s (x.offset - o) := by
  constructor
  · intro h
    induction l generalizing o s with
    | nil => simp
    | cons x l ih =>
      obtain ⟨hx, hl⟩ := List.pairwise_cons.1 hl
      have hle := ho x List.mem_cons_self
      rw [cutAt] at h
      cases hcut : cut? (x.offset - o) s with
      | none =>
        rw [hcut] at h
        cases h
      | some parts =>
        rw [hcut, Option.bind_some, Option.isSome_map] at h
        obtain ⟨hs, hsize⟩ := Text.cut?_eq_some hcut
        have hrest := ih hl hx h
        intro y hy
        rcases List.mem_cons.1 hy with rfl | hy
        · exact ⟨parts.1, parts.2, hs, hsize⟩
        · obtain ⟨a, b, hab, ha⟩ := hrest y hy
          have := hx y hy
          refine ⟨parts.1 ++ a, b, ?_, ?_⟩
          · rw [hs, hab, List.append_assoc]
          · rw [byteSize_append]
            omega
  · intro h
    obtain ⟨chunks, hcut, -⟩ := cutAt_eq_some hl fun x hx => ⟨ho x hx, h x hx⟩
    rw [hcut]
    rfl

theorem chunks?_isSome_iff (buffer : SpliceBuffer) :
    buffer.chunks?.isSome ↔ ∀ x ∈ buffer.insertions, IsBoundary buffer.original x.offset := by
  unfold chunks?
  rw [cutAt_isSome_iff (inOrder_sorted buffer) fun _ _ => Nat.zero_le _]
  simp only [Nat.sub_zero, mem_sorted]

/-! ## §5. Reading out by offsets -/

/-- A slice of the whole text from a cursor on is what is cut off at the cursor. -/
theorem slice?_of_standsIn {source : List Char} {k : Text.Cursor} (h : k.StandsIn source)
    {p : Nat} (hp : k.offset ≤ p) :
    slice? source k.offset p = (cut? (p - k.offset) k.rest).map (·.1) := by
  obtain ⟨front, rfl, hsize⟩ := h
  rw [slice?, if_pos hp, ← hsize, Text.cut?_append]
  rfl

/-- Behind a piece that is cut off stands the next cursor. -/
theorem takes_of_cut? {k : Text.Cursor} {p : Nat} (hp : k.offset ≤ p) {w r : List Char}
    (h : cut? (p - k.offset) k.rest = some (w, r)) : Text.Cursor.Takes k w ⟨p, r⟩ := by
  obtain ⟨hrest, hsize⟩ := Text.cut?_eq_some h
  refine ⟨hrest, ?_⟩
  show p = k.offset + byteSize w
  omega

/-- Slicing stretch by stretch gives the text of the chunks, and fails where cutting fails. -/
theorem finishFrom?_eq {l : List Insertion} (hl : InOrder l) {k : Text.Cursor}
    (h : k.StandsIn original) (hk : ∀ x ∈ l, k.offset ≤ x.offset) :
    finishFrom? original k.offset l =
      (cutAt k.offset k.rest l).map fun chunks =>
        chunks.flatMap fun chunk => chunk.text ++ chunk.inserted := by
  induction l generalizing k with
  | nil =>
    rw [finishFrom?, h.sliceFrom, cutAt]
    simp
  | cons x l ih =>
    obtain ⟨hx, hl⟩ := List.pairwise_cons.1 hl
    have hle := hk x List.mem_cons_self
    rw [finishFrom?, slice?_of_standsIn h hle, cutAt]
    cases hcut : cut? (x.offset - k.offset) k.rest with
    | none => rfl
    | some parts =>
      have hnext := ih hl (h.of_takes (takes_of_cut? hle hcut)) hx
      simp only [Option.map_some, Option.bind_eq_bind, Option.bind_some, hnext]
      cases cutAt x.offset parts.2 l <;> simp

/-- The segments of sliced stretches are those of the chunks, where no number of a line is
    too large, and slicing fails where cutting fails. -/
theorem segmentsFrom?_eq (hsize : byteSize original < UInt32.size) {l : List Insertion}
    (hl : InOrder l) {k : Text.Cursor} (h : k.StandsIn original)
    (hk : ∀ x ∈ l, k.offset ≤ x.offset) (cursor : Cursor) :
    segmentsFrom? (LineIndex.ofText original) cursor k.offset (stops original l) =
      (cutAt k.offset k.rest l).map (segmentsFrom (LineIndex.ofText original) cursor) := by
  have htext : (LineIndex.ofText original).text = original := rfl
  induction l generalizing k cursor with
  | nil =>
    have hend : Text.Cursor.Takes k k.rest ⟨byteSize original, []⟩ := by
      obtain ⟨front, hfront, hfrontSize⟩ := h
      refine ⟨(List.append_nil _).symm, ?_⟩
      show byteSize original = k.offset + byteSize k.rest
      rw [hfront, byteSize_append, hfrontSize]
    show segmentsFrom? _ cursor k.offset [(byteSize original, [])] = _
    simp only [segmentsFrom?, htext, h.slice_rest, segmentsOf?_eq hsize h hend,
      Option.bind_eq_bind, Option.bind_some, Option.pure_def]
    rfl
  | cons x l ih =>
    obtain ⟨hx, hl⟩ := List.pairwise_cons.1 hl
    have hle := hk x List.mem_cons_self
    show segmentsFrom? _ cursor k.offset ((x.offset, x.text) :: stops original l) = _
    rw [segmentsFrom?, htext, slice?_of_standsIn h hle, cutAt]
    cases hcut : cut? (x.offset - k.offset) k.rest with
    | none => rfl
    | some parts =>
      have hw := takes_of_cut? hle hcut
      have hnext := ih hl (h.of_takes hw) hx ((parts.1 ++ x.text).foldl Cursor.advance cursor)
      simp only [Option.map_some, Option.bind_eq_bind, Option.bind_some, hnext,
        segmentsOf?_eq hsize h hw, Option.pure_def]
      cases cutAt x.offset parts.2 l <;> rfl

/-- A buffer that is read out by offsets, as text and as map, comes to what it holds. -/
theorem read_out_by_offsets (buffer : SpliceBuffer) :
    finishFrom? buffer.original 0 buffer.sorted = buffer.finish? ∧
      (byteSize buffer.original < UInt32.size →
        segmentsFrom? (LineIndex.ofText buffer.original) {} 0
            (stops buffer.original buffer.sorted) =
          buffer.chunks?.map (segmentsFrom (LineIndex.ofText buffer.original) {})) := by
  have hstart : (⟨0, buffer.original⟩ : Text.Cursor).StandsIn buffer.original := ⟨[], rfl, rfl⟩
  have hzero : ∀ x ∈ buffer.sorted, (0 : Nat) ≤ x.offset := fun _ _ => Nat.zero_le _
  constructor
  · exact finishFrom?_eq (inOrder_sorted buffer) hstart hzero
  · intro hsize
    exact segmentsFrom?_eq hsize (inOrder_sorted buffer) hstart hzero {}

/-! ## §6. What a filled buffer reads out -/

/-- A buffer that any calls have filled reads out as the text that is written position by
    position, and its map exists, if all the places of the calls are boundaries; if one lies
    inside a character, it reads out as nothing, and neither does its map.  Calls with
    different places may change their order, and what was inserted can be taken out again.

    The two loops of the last part slice the original by offsets, each on its own: they fail
    together, and come to the same text and the same segments. -/
theorem filled_reads_out (original : List Char) (calls : List Insertion) (path : String) :
    ((∀ call ∈ calls, IsBoundary original (call.place original)) →
      (filled original calls).finish? = some (writtenOut original calls) ∧
      ((filled original calls).map? path).isSome ∧
      Insertion.takeOut? 0 (filled original calls).sorted (writtenOut original calls) =
        some original) ∧
    ((∃ call ∈ calls, ¬ IsBoundary original (call.place original)) →
      (filled original calls).finish? = none ∧ (filled original calls).map? path = none) ∧
    (∀ calls', Reordered original calls calls' →
      (filled original calls').finish? = (filled original calls).finish? ∧
      (filled original calls').map? path = (filled original calls).map? path) ∧
    finishFrom? original 0 (filled original calls).sorted = (filled original calls).finish? ∧
    (byteSize original < UInt32.size →
      segmentsFrom? (LineIndex.ofText original) {} 0
          (stops original (filled original calls).sorted) =
        ((filled original calls).map? path).map (·.segments)) := by
  have hsome := chunks?_isSome_iff (filled original calls)
  rw [filled_original, forall_insertions_filled] at hsome
  refine ⟨?_, ?_, ?_, ?_⟩
  · intro h
    have hinsertions := forall_insertions_filled.2 h
    obtain ⟨chunks, hchunks, htext⟩ := @finish?_eq_edit (filled original calls)
      (by rwa [filled_original])
    rw [filled_original, edit_filled h] at htext
    refine ⟨?_, ?_, ?_⟩
    · rw [finish?, hchunks, Option.map_some, htext]
    · rw [map?, hchunks]
      rfl
    · -- sorted insertions make the same text
      have hsorted : edit (filled original calls).sorted 0 original =
          writtenOut original calls := by
        rw [Insertion.edit_congr (textsAt_sorted _), edit_filled h]
      rw [← hsorted]
      apply Insertion.takeOut?_edit (inOrder_sorted _)
      intro x hx
      exact ⟨Nat.zero_le _, hinsertions x (mem_sorted.1 hx)⟩
  · rintro ⟨call, hcall, hinside⟩
    have hnone : (filled original calls).chunks? = none := by
      cases hchunks : (filled original calls).chunks? with
      | none => rfl
      | some chunks => exact absurd (hsome.1 (by rw [hchunks]; rfl) call hcall) hinside
    rw [finish?, map?, hnone]
    exact ⟨rfl, rfl⟩
  · intro calls' h
    rw [finish?, finish?, map?, map?, h.chunks?_eq, filled_original, filled_original]
    exact ⟨rfl, rfl⟩
  · obtain ⟨htext, hsegments⟩ := read_out_by_offsets (filled original calls)
    rw [filled_original] at htext hsegments
    refine ⟨htext, ?_⟩
    intro hsize
    rw [hsegments hsize, map?, Option.map_map, filled_original]
    rfl

/-- Two offsets past the end are one place, so what comes first there stays first. -/
example : (filled "ab".toList [⟨11, "x".toList⟩, ⟨1, "y".toList⟩, ⟨10, "z".toList⟩]).finish? =
    some "aybxz".toList := by decide

end SpliceBuffer

end Provenance
