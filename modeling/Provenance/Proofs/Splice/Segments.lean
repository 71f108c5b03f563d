import Provenance.Proofs.SourceMap.Decode
import Provenance.Proofs.Splice.Edit
import Provenance.Proofs.Splice.Place

/-! # Segments of an edited text

  Which characters of the original have a segment in the map of an edited text, and
  what their segments say.

  - A character opens a segment if it is the first one, if something was inserted in
    front of it, or if it stands behind a line feed (`OpensSegment`).
  - Its segment leads from its place in the edited text to its position in the original
    (`segmentAt`).
  - Reading the text of the map gives these segments, in order, and no others
    (`decode_map`).

  The induction is on the insertions that are still to be made: `Pending` says what the
  edited text shows so far.
-/

namespace Provenance

open Text (byteSize byteSize_nil byteSize_append byteSize_cons IsBoundary)

namespace Insertion

/-! ## §1. The edited text in front of a character -/

/-- What is shown in front of a character does not depend on what follows it. -/
theorem edit_append_cons (ins : List Insertion) (o : Nat) (a : List Char) (c : Char)
    (r : List Char) :
    edit ins o (a ++ c :: r) = edit ins o a ++ c :: edit ins (o + byteSize a + c.utf8Size) r := by
  induction a generalizing o with
  | nil => rfl
  | cons x a ih =>
    rw [List.cons_append, edit, edit, ih, byteSize_cons]
    simp only [List.append_assoc, List.cons_append, Nat.add_assoc]

/-- A piece with no insertion inside it is shown behind what is shown in front of it,
    with what is inserted at its end. -/
theorem edit_append_piece {ins : List Insertion} {front a : List Char} (ha : a ≠ [])
    (h : ∀ x ∈ ins, x.offset ≤ byteSize front ∨ byteSize (front ++ a) ≤ x.offset) :
    edit ins 0 (front ++ a) = edit ins 0 front ++ a ++ textsAt ins (byteSize (front ++ a)) := by
  cases a with
  | nil => exact absurd rfl ha
  | cons c r =>
    have hpos := c.utf8Size_pos
    have hinside : ∀ x ∈ ins, x.offset < 0 + byteSize front + c.utf8Size ∨
        0 + byteSize front + c.utf8Size + byteSize r ≤ x.offset := by
      intro x hx
      have := h x hx
      rw [byteSize_append, byteSize_cons] at this
      omega
    have htail := edit_append (w := r) [] hinside
    have hend : 0 + byteSize front + c.utf8Size + byteSize r = byteSize (front ++ c :: r) := by
      rw [byteSize_append, byteSize_cons]
      omega
    rw [List.append_nil, hend] at htail
    rw [edit_append_cons, htail, List.append_assoc, List.cons_append]
    rfl

/-- The bytes of a text with insertions made into it. -/
theorem byteSize_edit {ins : List Insertion} {o : Nat} {a b : List Char}
    (h : ∀ x ∈ ins, x.offset < o ∨ IsBoundary (a ++ b) (x.offset - o)) :
    sizeBefore ins o + byteSize (edit ins o a) =
      byteSize a + sizeBefore ins (o + byteSize a + 1) := by
  induction a generalizing o with
  | nil =>
    rw [edit, byteSize_nil, Nat.add_zero, sizeBefore_succ]
    omega
  | cons c r ih =>
    have hpos := c.utf8Size_pos
    have hend : o + c.utf8Size + byteSize r = o + byteSize (c :: r) := by
      rw [byteSize_cons]
      omega
    -- an insertion stands in front of `c` or behind it, never inside it
    have hin : ∀ x ∈ ins, x.offset < o + 1 ∨
        o + c.utf8Size ≤ x.offset ∧ IsBoundary (r ++ b) (x.offset - (o + c.utf8Size)) := by
      intro x hx
      rcases h x hx with hlt | ⟨p, q, hsplit, hp⟩
      · exact .inl (by omega)
      · cases p with
        | nil =>
          rw [byteSize_nil] at hp
          exact .inl (by omega)
        | cons d p =>
          obtain ⟨rfl, hrest⟩ := List.cons.inj (hsplit.trans (List.cons_append ..))
          rw [byteSize_cons] at hp
          exact .inr ⟨by omega, p, q, hrest, by omega⟩
    have htail := ih (o := o + c.utf8Size) fun x hx => by
      rcases hin x hx with hlt | ⟨-, hb⟩
      · exact .inl (by omega)
      · exact .inr hb
    have hsame : sizeBefore ins (o + c.utf8Size) = sizeBefore ins (o + 1) := by
      refine sizeBefore_eq (by omega) fun x hx => ?_
      rcases hin x hx with hlt | ⟨hle, -⟩
      · exact .inl hlt
      · exact .inr hle
    rw [hsame, sizeBefore_succ, hend] at htail
    rw [edit, byteSize_append, byteSize_cons, byteSize_cons] at *
    omega

/-- The bytes shown in front of a character: those of the original, and all that was
    inserted up to there. -/
theorem byteSize_edit_front {ins : List Insertion} {a b : List Char}
    (h : ∀ x ∈ ins, IsBoundary (a ++ b) x.offset) :
    byteSize (edit ins 0 a) = byteSize a + sizeBefore ins (byteSize a + 1) := by
  have hbytes := byteSize_edit (o := 0) (a := a) (b := b) fun x hx => .inr (h x hx)
  have hnone : ins.filter (·.offset < 0) = [] := List.filter_eq_nil_iff.2 (by simp)
  have hzero : sizeBefore ins 0 = 0 := by
    rw [sizeBefore, hnone]
    rfl
  rw [hzero, Nat.zero_add, Nat.zero_add] at hbytes
  exact hbytes

end Insertion

namespace SpliceBuffer

open Insertion (edit textsAt textsAt_cons textsAt_eq_nil edit_append_cons edit_append_piece)

/-! ## §2. Which characters have a segment -/

/-- The character behind `front` opens a segment: it is the first one, something was
    inserted in front of it, or it stands behind a line feed. -/
def OpensSegment (ins : List Insertion) (front : List Char) : Prop :=
  front = [] ∨ (∃ x ∈ ins, x.offset = byteSize front) ∨ front.getLast? = some '\n'

instance (ins : List Insertion) : DecidablePred (OpensSegment ins) := fun _ =>
  inferInstanceAs (Decidable (_ ∨ _ ∨ _))

/-- The segment of the character behind `front`. -/
def segmentAt (ins : List Insertion) (original front : List Char) : Segment where
  generatedLine := (Cursor.behind (edit ins 0 front)).line
  generatedColumn := (Cursor.behind (edit ins 0 front)).column
  line := ((LineIndex.ofText original).position (byteSize front)).line - 1
  column := ((LineIndex.ofText original).position (byteSize front)).column

/-- The segments of the characters that stand behind `front`. -/
def segmentsBehind (ins : List Insertion) (original front : List Char) :
    List Char → List Segment
  | [] => []
  | c :: r =>
    if OpensSegment ins front then
      segmentAt ins original front :: segmentsBehind ins original (front ++ [c]) r
    else segmentsBehind ins original (front ++ [c]) r

variable {ins l : List Insertion} {original front emitted : List Char}

/-- The segments of a stretch are those of its characters, if nothing is inserted inside
    it. -/
theorem segmentsBehind_append {text : List Char} (rest : List Char)
    (h : ∀ x ∈ ins, x.offset ≤ byteSize front ∨ byteSize (front ++ text) ≤ x.offset) :
    segmentsBehind ins original front (text ++ rest) =
      segmentsOf (LineIndex.ofText original) (byteSize front) (Cursor.behind (edit ins 0 front))
        (OpensSegment ins front) text ++
      segmentsBehind ins original (front ++ text) rest := by
  induction text generalizing front with
  | nil => rw [List.append_nil]; rfl
  | cons c text ih =>
    have hpos := c.utf8Size_pos
    have hsize : byteSize (front ++ [c]) = byteSize front + c.utf8Size := byteSize_append front [c]
    have hfront : front ++ [c] ++ text = front ++ c :: text := by
      rw [List.append_assoc]
      rfl
    have htail : segmentsBehind ins original (front ++ [c]) (text ++ rest) =
        segmentsOf (LineIndex.ofText original) (byteSize front + c.utf8Size)
          ((Cursor.behind (edit ins 0 front)).advance c) (c = '\n') text ++
        segmentsBehind ins original (front ++ c :: text) rest := by
      by_cases htext : text = []
      · subst htext
        rfl
      · -- nothing is inserted behind `c`, since the stretch goes on
        have hlen := Text.byteSize_pos htext
        have hbehind : ∀ x ∈ ins, x.offset ≤ byteSize front ∨
            byteSize (front ++ [c]) + byteSize text ≤ x.offset := by
          intro x hx
          have := h x hx
          rw [← hfront, byteSize_append _ text] at this
          exact this
        have hnone : textsAt ins (byteSize (front ++ [c])) = [] := by
          refine textsAt_eq_nil fun x hx => ?_
          have := hbehind x hx
          omega
        have hshown : edit ins 0 (front ++ [c]) = edit ins 0 front ++ [c] := by
          rw [edit_append_piece (by simp), hnone, List.append_nil]
          intro x hx
          have := hbehind x hx
          omega
        have hopens : OpensSegment ins (front ++ [c]) ↔ c = '\n' := by
          unfold OpensSegment
          constructor
          · rintro (hnil | ⟨x, hx, hoff⟩ | hlast)
            · simp at hnil
            · have := hbehind x hx
              omega
            · simpa using hlast
          · rintro rfl
            exact .inr (.inr (by simp))
        have hin : ∀ x ∈ ins, x.offset ≤ byteSize (front ++ [c]) ∨
            byteSize (front ++ [c] ++ text) ≤ x.offset := by
          intro x hx
          have := hbehind x hx
          rw [byteSize_append _ text]
          omega
        rw [ih hin, hshown, Cursor.advance_behind, hfront, hsize]
        simp only [hopens]
    rw [List.cons_append, segmentsBehind, segmentsOf, htail]
    by_cases hopens : OpensSegment ins front
    · simp only [hopens, if_true, decide_true]
      rfl
    · simp only [hopens, if_false, decide_false]
      rfl

/-! ## §3. Insertions that are still to be made -/

/-- Of all insertions `l` is still to be made behind `front`, and the edited text shows
    `emitted` so far. -/
structure Pending (ins l : List Insertion) (front emitted : List Char) : Prop where
  order : InOrder l
  behind : ∀ x ∈ l, x ∈ ins ∧ byteSize front ≤ x.offset
  made : ∀ x ∈ ins, x.offset ≤ byteSize front ∨ x ∈ l
  texts : ∀ o, byteSize front < o → textsAt ins o = textsAt l o
  shown : edit ins 0 front = emitted ++ textsAt l (byteSize front)

theorem Pending.start (buffer : SpliceBuffer) : Pending buffer.insertions buffer.sorted [] [] where
  order := inOrder_sorted buffer
  behind := fun _ hx => ⟨mem_sorted.1 hx, Nat.zero_le _⟩
  made := fun _ hx => .inr (mem_sorted.2 hx)
  texts := fun o _ => (textsAt_sorted buffer o).symm
  shown := (textsAt_sorted buffer 0).symm

/-- Where nothing is to be inserted any more, all that stands in front is shown. -/
theorem Pending.shown_eq (h : Pending ins l front emitted)
    (hl : ∀ x ∈ l, byteSize front < x.offset) : edit ins 0 front = emitted := by
  have hnone : textsAt l (byteSize front) = [] := by
    refine textsAt_eq_nil fun x hx => ?_
    have := hl x hx
    omega
  rw [h.shown, hnone, List.append_nil]

/-- Inside a stretch up to the next insertion nothing is inserted. -/
theorem Pending.stretch {a : List Char} (h : Pending ins l front emitted)
    (ha : ∀ x ∈ l, byteSize (front ++ a) ≤ x.offset) :
    ∀ x ∈ ins, x.offset ≤ byteSize front ∨ byteSize (front ++ a) ≤ x.offset := by
  intro x hx
  rcases h.made x hx with hle | hmem
  · exact .inl hle
  · exact .inr (ha x hmem)

theorem Pending.le_of_head {x : Insertion} (h : Pending ins (x :: l) front emitted) :
    ∀ y ∈ x :: l, x.offset ≤ y.offset := by
  intro y hy
  rcases List.mem_cons.1 hy with rfl | hy
  · exact Nat.le_refl _
  · exact (List.pairwise_cons.1 h.order).1 y hy

/-- Making the next insertion, behind the stretch `a`. -/
theorem Pending.step {x : Insertion} {a : List Char} (h : Pending ins (x :: l) front emitted)
    (ha : byteSize (front ++ a) = x.offset) :
    Pending ins l (front ++ a) (emitted ++ (a ++ x.text)) where
  order := (List.pairwise_cons.1 h.order).2
  behind := by
    intro y hy
    rw [ha]
    exact ⟨(h.behind y (List.mem_cons_of_mem x hy)).1, h.le_of_head y (List.mem_cons_of_mem x hy)⟩
  made := by
    intro y hy
    rw [byteSize_append]
    rcases h.made y hy with hle | hmem
    · exact .inl (by omega)
    · rcases List.mem_cons.1 hmem with rfl | hmem
      · exact .inl (Nat.le_of_eq (by rw [← byteSize_append, ha]))
      · exact .inr hmem
  texts := by
    intro o ho
    rw [ha] at ho
    have hle := (h.behind x List.mem_cons_self).2
    rw [h.texts o (by omega), textsAt_cons, if_neg (by omega), List.nil_append]
  shown := by
    have hhead : textsAt (x :: l) x.offset = x.text ++ textsAt l x.offset := by
      rw [textsAt_cons, if_pos rfl]
    by_cases hnil : a = []
    · -- `x` stands where the insertion before it stood
      subst hnil
      rw [List.append_nil] at ha ⊢
      rw [h.shown, ha, hhead, List.nil_append, List.append_assoc]
    · have hlen := Text.byteSize_pos hnil
      have hsize := byteSize_append front a
      have hlater : ∀ y ∈ x :: l, byteSize front < y.offset := by
        intro y hy
        have := h.le_of_head y hy
        omega
      have hstretch := h.stretch (a := a) fun y hy => by
        have := h.le_of_head y hy
        omega
      rw [edit_append_piece hnil hstretch, h.shown_eq hlater, h.texts _ (by omega), ha, hhead]
      simp only [List.append_assoc]

/-- The segments of the stretches that are left are those of the characters that are
    left. -/
theorem segmentsFrom_cutAt {s : List Char} {chunks : List Chunk}
    (h : Pending ins l front emitted) (hopens : OpensSegment ins front)
    (hb : ∀ x ∈ l, IsBoundary s (x.offset - byteSize front))
    (hcut : cutAt (byteSize front) s l = some chunks) :
    segmentsFrom (LineIndex.ofText original) (Cursor.behind emitted) chunks =
      segmentsBehind ins original front s := by
  -- in front of a stretch that is not empty everything has been shown
  have stretch : ∀ {l' : List Insertion} {front' emitted' a : List Char},
      Pending ins l' front' emitted' → OpensSegment ins front' →
      (∀ x ∈ l', byteSize (front' ++ a) ≤ x.offset) → ∀ rest,
      segmentsBehind ins original front' (a ++ rest) =
        segmentsOf (LineIndex.ofText original) (byteSize front') (Cursor.behind emitted') true a ++
        segmentsBehind ins original (front' ++ a) rest := by
    intro l' front' emitted' a h hopens ha rest
    by_cases hnil : a = []
    · subst hnil
      rw [List.append_nil]
      rfl
    · have hlen := Text.byteSize_pos hnil
      have hshown := h.shown_eq fun x hx => by
        have := ha x hx
        rw [byteSize_append] at this
        omega
      rw [segmentsBehind_append rest (h.stretch ha), hshown, decide_eq_true hopens]
  induction l generalizing front emitted s chunks with
  | nil =>
    obtain rfl := Option.some.inj hcut
    have hall := stretch (a := s) h hopens (by simp) []
    rw [List.append_nil] at hall
    rw [hall, segmentsFrom, segmentsFrom]
    rfl
  | cons x l ih =>
    obtain ⟨a, b, rfl, ha⟩ := hb x List.mem_cons_self
    have hle := (h.behind x List.mem_cons_self).2
    have hend : byteSize (front ++ a) = x.offset := by
      rw [byteSize_append]
      omega
    rw [cutAt, ← ha, Text.cut?_append, Option.bind_some, ← hend] at hcut
    obtain ⟨more, hmore, rfl⟩ := Option.map_eq_some_iff.1 hcut
    have hnext : OpensSegment ins (front ++ a) :=
      .inr (.inl ⟨x, (h.behind x List.mem_cons_self).1, hend.symm⟩)
    have hbehind : ∀ y ∈ l, IsBoundary b (y.offset - byteSize (front ++ a)) := by
      intro y hy
      obtain ⟨c, d, hcd, hc⟩ := hb y (List.mem_cons_of_mem x hy)
      have hxy := h.le_of_head y (List.mem_cons_of_mem x hy)
      obtain ⟨m, rfl, rfl⟩ := Text.append_split_of_byteSize_le hcd (by omega)
      rw [byteSize_append] at hc
      exact ⟨m, d, rfl, by omega⟩
    rw [segmentsFrom, Cursor.foldl_advance, ih (h.step hend) hnext hbehind hmore,
      stretch (a := a) h hopens (by rw [hend]; exact h.le_of_head) b]

/-! ## §4. The map -/

/-- The segments behind some text, by the characters there are. -/
theorem segmentsBehind_eq (ins : List Insertion) (original front s : List Char) :
    segmentsBehind ins original front s =
      ((List.range s.length).filter fun i => OpensSegment ins (front ++ s.take i)).map fun i =>
        segmentAt ins original (front ++ s.take i) := by
  induction s generalizing front with
  | nil => rfl
  | cons c s ih =>
    -- the characters behind the first one, with the first one as part of the front
    have hfront : ∀ i, front ++ (c :: s).take (i + 1) = front ++ [c] ++ s.take i := by
      intro i
      rw [List.take_succ_cons, List.append_assoc]
      rfl
    have hfilter : (fun i => decide (OpensSegment ins (front ++ (c :: s).take i))) ∘ Nat.succ =
        fun i => decide (OpensSegment ins (front ++ [c] ++ s.take i)) :=
      funext fun i => congrArg (fun f => decide (OpensSegment ins f)) (hfront i)
    have hmap : (fun i => segmentAt ins original (front ++ (c :: s).take i)) ∘ Nat.succ =
        fun i => segmentAt ins original (front ++ [c] ++ s.take i) :=
      funext fun i => congrArg (segmentAt ins original) (hfront i)
    rw [segmentsBehind, ih, List.length_cons, List.range_succ_eq_map, List.filter_cons,
      List.filter_map, hfilter, List.take_zero, List.append_nil]
    by_cases hopens : OpensSegment ins front
    · rw [if_pos hopens, if_pos (decide_eq_true hopens), List.map_cons, List.map_map, hmap,
        List.take_zero, List.append_nil]
    · rw [if_neg hopens, if_neg (by simpa using hopens), List.map_map, hmap]

/-- Where a segment comes from. -/
theorem mem_segmentsBehind {s : Segment} (h : s ∈ segmentsBehind ins original [] original) :
    ∃ before c after, original = before ++ c :: after ∧ OpensSegment ins before ∧
      s = segmentAt ins original before := by
  rw [segmentsBehind_eq] at h
  obtain ⟨i, hi, rfl⟩ := List.mem_map.1 h
  obtain ⟨hrange, hopens⟩ := List.mem_filter.1 hi
  have hlt := List.mem_range.1 hrange
  have hsplit : original = original.take i ++ original[i] :: original.drop (i + 1) := by
    rw [← List.drop_eq_getElem_cons hlt, List.take_append_drop]
  exact ⟨original.take i, original[i], original.drop (i + 1), hsplit, of_decide_eq_true hopens, rfl⟩

/-- What is shown in front of a character grows with what stands in front of it. -/
theorem segmentAt_before (ins : List Insertion) (original before : List Char) {m : List Char}
    (hm : m ≠ []) :
    (segmentAt ins original before).Before (segmentAt ins original (before ++ m)) := by
  cases m with
  | nil => exact absurd rfl hm
  | cons d m =>
    have hshown := edit_append_cons ins 0 before d m
    have hbefore := Cursor.behind_before (edit ins 0 before)
      (s := d :: edit ins (0 + byteSize before + d.utf8Size) m) (by simp)
    rw [← hshown] at hbefore
    exact hbefore

/-- The segments go forward. -/
theorem pairwise_segmentsBehind (ins : List Insertion) (original : List Char) :
    (segmentsBehind ins original [] original).Pairwise Segment.Before := by
  rw [segmentsBehind_eq, List.pairwise_map]
  refine (List.pairwise_lt_range.filter _).imp_of_mem ?_
  intro i j hi hj hij
  have hlt := List.mem_range.1 (List.mem_filter.1 hj).1
  -- the characters from the one of `i` up to the one of `j`
  have hsplit : original.take j = original.take i ++ (original.take j).drop i := by
    have htake : original.take i = (original.take j).take i := by
      rw [List.take_take, Nat.min_eq_left (Nat.le_of_lt hij)]
    rw [htake, List.take_append_drop]
  have hne : (original.take j).drop i ≠ [] := by
    rw [Ne, List.drop_eq_nil_iff, List.length_take]
    omega
  have := segmentAt_before ins original (original.take i) hne
  rw [← hsplit] at this
  exact this

/-- The map of an edited text has the segments of the characters that open one. -/
theorem map?_eq {buffer : SpliceBuffer} (path : String)
    (h : ∀ x ∈ buffer.insertions, IsBoundary buffer.original x.offset) :
    buffer.finish? = some (edit buffer.insertions 0 buffer.original) ∧
    buffer.map? path = some
      { path, source := String.ofList buffer.original,
        segments := segmentsBehind buffer.insertions buffer.original [] buffer.original } := by
  obtain ⟨chunks, hchunks, htext⟩ := finish?_eq_edit h
  have hsegments : segmentsFrom (LineIndex.ofText buffer.original) {} chunks =
      segmentsBehind buffer.insertions buffer.original [] buffer.original :=
    segmentsFrom_cutAt (Pending.start buffer) (.inl rfl) (fun x hx => h x (mem_sorted.1 hx)) hchunks
  rw [finish?, map?, hchunks, Option.map_some, Option.map_some, htext, hsegments]
  exact ⟨rfl, rfl⟩

/-- The map of an edited text, read back, lists one segment for each character of the
    original that opens one, in order, and no others.  Its generated place is the place
    behind what the edited text shows in front of this character, and no other piece of
    the edited text ends there, so no segment points at what was inserted. -/
theorem decode_map (buffer : SpliceBuffer) (path : String)
    (h : ∀ x ∈ buffer.insertions, IsBoundary buffer.original x.offset) :
    ∃ code map segments,
      buffer.finish? = some code ∧ buffer.map? path = some map ∧
      map.toJson = .object
        [("version", .number (.whole 3)), ("names", .array []),
         ("sources", .array [.string path]),
         ("sourcesContent", .array [.string (String.ofList buffer.original)]),
         ("mappings", .string (String.ofList map.mappings))] ∧
      SourceMap.decode? map.mappings = some segments ∧
      segments = (((List.range buffer.original.length).filter fun i =>
        OpensSegment buffer.insertions (buffer.original.take i)).map fun i =>
          segmentAt buffer.insertions buffer.original (buffer.original.take i)) ∧
      segments.Pairwise Segment.Before ∧
      (∀ before c after, buffer.original = before ++ c :: after →
        ∃ rest, code = edit buffer.insertions 0 before ++ c :: rest) ∧
      (∀ s ∈ segments, ∃ before c after, buffer.original = before ++ c :: after ∧
        s = segmentAt buffer.insertions buffer.original before ∧
        ∀ p q, code = p ++ q → Cursor.behind p = ⟨s.generatedLine, s.generatedColumn⟩ →
          p = edit buffer.insertions 0 before) ∧
      (Text.unitSize code < UInt32.size → ∀ s ∈ segments,
        s.generatedLine < UInt32.size ∧ s.generatedColumn < UInt32.size) := by
  obtain ⟨hcode, hmap⟩ := map?_eq path h
  have hshown : ∀ before c after, buffer.original = before ++ c :: after →
      ∃ rest, edit buffer.insertions 0 buffer.original =
        edit buffer.insertions 0 before ++ c :: rest := by
    intro before c after hsplit
    exact ⟨_, by rw [hsplit, edit_append_cons]⟩
  refine ⟨_, _, _, hcode, hmap, rfl,
    SourceMap.decode?_mappings _ (pairwise_segmentsBehind buffer.insertions buffer.original),
    segmentsBehind_eq _ _ [] _, pairwise_segmentsBehind _ _, hshown, ?_, ?_⟩
  · intro s hs
    obtain ⟨before, c, after, hsplit, -, rfl⟩ := mem_segmentsBehind hs
    obtain ⟨rest, hrest⟩ := hshown before c after hsplit
    exact ⟨before, c, after, hsplit, rfl, fun p q hpq hplace =>
      Cursor.behind_injective (hpq.symm.trans hrest) hplace⟩
  · intro hsize s hs
    obtain ⟨before, c, after, hsplit, -, rfl⟩ := mem_segmentsBehind hs
    obtain ⟨rest, hrest⟩ := hshown before c after hsplit
    have hle := Cursor.behind_le (edit buffer.insertions 0 before)
    rw [hrest, Text.unitSize_append] at hsize
    exact ⟨Nat.lt_of_le_of_lt hle.1 (by omega), Nat.lt_of_le_of_lt hle.2 (by omega)⟩

/-- Two insertions at one offset, one of them of two lines, an empty one behind a line feed
    and one behind a character of two units. -/
theorem decode_map_surrogate_pair :
    ∃ map, SpliceBuffer.map? ⟨"ab\n😀c\n".toList,
        [⟨7, "t".toList⟩, ⟨1, "x\ny".toList⟩, ⟨3, []⟩, ⟨1, "z".toList⟩]⟩ "p" = some map ∧
      SourceMap.decode? map.mappings =
        some [⟨0, 0, 0, 0, none⟩, ⟨1, 2, 0, 1, none⟩, ⟨2, 0, 1, 0, none⟩, ⟨2, 3, 1, 2, none⟩] := by
  obtain ⟨-, map, segments, -, hmap, -, hdecode, hsegments, -⟩ :=
    decode_map ⟨"ab\n😀c\n".toList,
      [⟨7, "t".toList⟩, ⟨1, "x\ny".toList⟩, ⟨3, []⟩, ⟨1, "z".toList⟩]⟩ "p" (by decide)
  refine ⟨map, hmap, ?_⟩
  rw [hdecode, hsegments]
  decide

end SpliceBuffer

end Provenance
