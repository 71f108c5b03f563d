import Provenance.Proofs.Scanner.Content
import Provenance.Proofs.Text.Lines

/-! # Annotating by offsets

  The passes behind the scanner cut pieces out of the text as well: the line index takes the text
  in front of an element on its line, and a buffer is read out stretch by stretch, to the edited
  text and again to the source map.  Here they go by offsets too, and each has no value where a
  cut, the search for a line or the number of a line fails.

  None of them fails, since all offsets are ends of tag names, starts of elements or starts of
  lines, and so boundaries of the text (`LineIndex.position?_eq`, `SpliceBuffer.read?_eq`).
  Together with the scanner's reading of components, annotating a file by offsets comes to what
  annotating comes to, whatever the file holds (`annotate_eq`).
-/

namespace Provenance

open Text (Cursor byteSize byteSize_append byteSize_cons slice? sliceFrom? IsBoundary unitSize)
open Text.Cursor (Takes)

/-! ## §1. Positions -/

namespace LineIndex

/-- The line that an offset lies on, counted from zero, by the starts of the lines: the one that
    starts there, or else the one in front of the next start. -/
def lineAt? (starts : List Nat) (o : Nat) : Option Nat :=
  let below := (starts.takeWhile (· < o)).length
  if starts[below]? = some o then some below
  else if below = 0 then none else some (below - 1)

/-- The position of an offset; `none` where the text in front of it on its line cannot be cut
    out, or where the number of the line does not fit in 32 bits. -/
def position? (index : LineIndex) (offset : Nat) : Option Position := do
  let offset := min offset (byteSize index.text)
  let line ← lineAt? index.starts offset
  let start ← index.starts[line]?
  let front ← slice? index.text start offset
  let number := line % UInt32.size + 1
  if number < UInt32.size then
    return { line := number, column := unitSize front % UInt32.size, offset }
  else none

theorem takeWhile_le_eq {l : List Nat} (hl : l.Pairwise (· < ·)) (o : Nat) :
    l.takeWhile (· ≤ o) = l.takeWhile (· < o) ++
      if l[(l.takeWhile (· < o)).length]? = some o then [o] else [] := by
  induction l with
  | nil => rfl
  | cons x l ih =>
    obtain ⟨hx, hl⟩ := List.pairwise_cons.1 hl
    rcases Nat.lt_trichotomy x o with hlt | rfl | hgt
    · have hle := Nat.le_of_lt hlt
      simp [hlt, hle, ih hl]
    · have hnone : l.takeWhile (· ≤ x) = [] := by
        cases l with
        | nil => rfl
        | cons y l =>
          have := hx y List.mem_cons_self
          rw [List.takeWhile_cons_of_neg (by simpa using this)]
      simp [hnone]
    · have hnot : ¬ x ≤ o := by omega
      have hnot' : ¬ x < o := by omega
      simp [hnot, hnot']
      omega

theorem filter_le_eq {l : List Nat} (hl : l.Pairwise (· < ·)) (o : Nat) :
    l.filter (· ≤ o) = l.takeWhile (· ≤ o) := by
  induction l with
  | nil => rfl
  | cons x l ih =>
    obtain ⟨hx, hl⟩ := List.pairwise_cons.1 hl
    by_cases hle : x ≤ o
    · simp [hle, ih hl]
    · -- all that follow are larger still
      have hnone : l.filter (· ≤ o) = [] := by
        rw [List.filter_eq_nil_iff]
        intro y hy
        have := hx y hy
        simp only [decide_eq_true_eq]
        omega
      simp [hle, hnone]

/-- The line of an offset is the last one that starts up to it. -/
theorem lineAt?_eq {l : List Nat} (hl : l.Pairwise (· < ·)) {o : Nat}
    (hne : l.filter (· ≤ o) ≠ []) :
    ∃ i, lineAt? l o = some i ∧ (l.filter (· ≤ o)).length = i + 1 ∧
      l[i]? = (l.filter (· ≤ o)).getLast? := by
  have hsplit := takeWhile_le_eq hl o
  rw [filter_le_eq hl] at hne ⊢
  -- a line start is found in the list where it is found in a part in front
  have hfront : ∀ i, i < (l.takeWhile (· ≤ o)).length →
      l[i]? = (l.takeWhile (· ≤ o))[i]? := by
    intro i hi
    conv => lhs; rw [← List.takeWhile_append_dropWhile (p := (· ≤ o)) (l := l)]
    exact List.getElem?_append_left hi
  have hpos := List.length_pos_iff.2 hne
  unfold lineAt?
  by_cases hat : l[(l.takeWhile (· < o)).length]? = some o
  · rw [if_pos hat] at hsplit
    have hlen := congrArg List.length hsplit
    rw [List.length_append, List.length_singleton] at hlen
    refine ⟨_, if_pos hat, hlen, ?_⟩
    rw [hat, hsplit, List.getLast?_concat]
  · rw [if_neg hat, List.append_nil] at hsplit
    rw [hsplit] at hpos
    refine ⟨(l.takeWhile (· < o)).length - 1, ?_, by rw [hsplit]; omega, ?_⟩
    · rw [if_neg hat, if_neg (by omega)]
    · rw [hfront _ (by rw [hsplit]; omega), hsplit, List.getLast?_eq_getElem?]

/-- In front of a character there are no more line starts than bytes up to its end. -/
theorem length_startsUpTo_lt {text : List Char} {c : Cursor} (h : c.StandsIn text)
    (hc : c.rest ≠ []) : (startsUpTo text c.offset).length ≤ byteSize text := by
  obtain ⟨front, rfl, hsize⟩ := h
  have hpos := Text.byteSize_pos hc
  have hcount := (filter_lineStartsFrom 0 front c.rest).1
  have hle := Text.lineEnds_le c.rest front
  rw [startsUpTo, Text.lineStarts, List.filter_cons_of_pos (by simp), List.length_cons, ← hsize,
    ← Nat.zero_add (byteSize front), hcount, byteSize_append]
  omega

/-- The position of a character can be told, and its line is not zero. -/
theorem position?_eq {text : List Char} (hsize : byteSize text < UInt32.size) {c : Cursor}
    (h : c.StandsIn text) (hc : c.rest ≠ []) :
    (ofText text).position? c.offset = some ((ofText text).position c.offset) ∧
      ((ofText text).position c.offset).line ≠ 0 := by
  obtain ⟨start, a, m, b, hlast, htext, ha, hm, hpos⟩ := position_of_boundary h.isBoundary
  obtain ⟨i, hline, hlen, hstart⟩ := lineAt?_eq (Text.pairwise_lineStarts text)
    (startsUpTo_ne_nil text c.offset)
  have hcount : (startsUpTo text c.offset).length = i + 1 := hlen
  -- there are no more lines than bytes, so the number of the line fits
  have hle := length_startsUpTo_lt h hc
  have hslice : slice? text start c.offset = some m := by
    rw [htext, ← ha, ← hm, Text.slice?_append]
  have hmin : min c.offset (byteSize text) = c.offset := Nat.min_eq_left h.isBoundary.le_byteSize
  have hfirst : i % UInt32.size = i := Nat.mod_eq_of_lt (by omega)
  have hnumber : (i + 1) % UInt32.size = i + 1 := Nat.mod_eq_of_lt (by omega)
  rw [hpos, hcount, hnumber]
  refine ⟨?_, Nat.succ_ne_zero i⟩
  unfold position?
  simp only [show (ofText text).text = text from rfl, hmin,
    show (ofText text).starts = Text.lineStarts text from rfl, hline, hstart,
    show ((Text.lineStarts text).filter (· ≤ c.offset)).getLast? = some start from hlast, hslice,
    hfirst, Option.bind_eq_bind, Option.bind_some, Option.pure_def]
  rw [if_pos (by omega)]

end LineIndex

/-! ## §2. Reading a buffer out -/

namespace SpliceBuffer

/-- Reads out the text from an offset on with what is inserted behind it. -/
def finishFrom? (original : List Char) (cursor : Nat) : List Insertion → Option (List Char)
  | [] => sliceFrom? original cursor
  | x :: more => do
    let stretch ← slice? original cursor x.offset
    let rest ← finishFrom? original x.offset more
    return stretch ++ x.text ++ rest

/-- The segments of a stretch at an offset; `none` where the position of one cannot be told, or
    its line is none.  Their places in the edited text are counted, and cut nothing. -/
def segmentsOf? (index : LineIndex) (offset : Nat) (cursor : Cursor) (fresh : Bool) :
    List Char → Option (List Segment)
  | [] => some []
  | c :: r => do
    let first ←
      if fresh then do
        let position ← index.position? offset
        if position.line = 0 then none
        else
          pure [{ generatedLine := cursor.line, generatedColumn := cursor.column,
                  line := position.line - 1, column := position.column }]
      else pure []
    let rest ← segmentsOf? index (offset + c.utf8Size) (cursor.advance c) (c = '\n') r
    return first ++ rest

/-- The segments of the stretches from an offset on, each up to a stop with what is inserted
    there. -/
def segmentsFrom? (index : LineIndex) (cursor : Cursor) (offset : Nat) :
    List (Nat × List Char) → Option (List Segment)
  | [] => some []
  | (stop, inserted) :: more => do
    let stretch ← slice? index.text offset stop
    let here ← segmentsOf? index offset cursor true stretch
    let rest ← segmentsFrom? index ((stretch ++ inserted).foldl Cursor.advance cursor) stop more
    return here ++ rest

/-- The insertions of a buffer as stops, and a last stop at the end of the text. -/
def stops (original : List Char) (insertions : List Insertion) : List (Nat × List Char) :=
  insertions.map (fun x => (x.offset, x.text)) ++ [(byteSize original, [])]

/-- The output of a buffer, read out by offsets. -/
def read? (buffer : SpliceBuffer) (path : String) : Option Output := do
  let code ← finishFrom? buffer.original 0 buffer.sorted
  let segments ← segmentsFrom? (LineIndex.ofText buffer.original) {} 0
    (stops buffer.original buffer.sorted)
  return ⟨code, { path, source := String.ofList buffer.original, segments }⟩

theorem segmentsOf?_eq {text : List Char} (hsize : byteSize text < UInt32.size) {w : List Char}
    {k d : Text.Cursor} (h : k.StandsIn text) (hw : Takes k w d) (cursor : Cursor) (fresh : Bool) :
    segmentsOf? (LineIndex.ofText text) k.offset cursor fresh w =
      some (segmentsOf (LineIndex.ofText text) k.offset cursor fresh w) := by
  induction w generalizing k cursor fresh with
  | nil => rfl
  | cons x w ih =>
    have hk : k.rest = x :: (w ++ d.rest) := hw.rest
    obtain ⟨hposition, hline⟩ := LineIndex.position?_eq hsize h (by rw [hk]; simp)
    have hskip := Text.Cursor.takes_skip_one hk
    have hrest : Takes (k.skip 1) w d := by
      refine ⟨by rw [Text.Cursor.skip_one hk], ?_⟩
      rw [hw.offset, hskip.offset, byteSize_cons, byteSize_cons, Text.byteSize_nil]
      omega
    have hnext := ih (h.of_takes hskip) hrest (cursor.advance x) (x = '\n')
    rw [Text.Cursor.skip_one hk] at hnext
    rw [segmentsOf?, segmentsOf]
    cases fresh with
    | true =>
      simp only [if_true, hposition, Option.bind_eq_bind, Option.bind_some, if_neg hline,
        Option.pure_def]
      rw [show segmentsOf? _ (k.offset + x.utf8Size) _ _ w = _ from hnext]
      rfl
    | false =>
      simp only [Bool.false_eq_true, if_false, Option.bind_eq_bind, Option.bind_some,
        Option.pure_def]
      rw [show segmentsOf? _ (k.offset + x.utf8Size) _ _ w = _ from hnext]
      rfl

/-- A cursor reaches every boundary behind it. -/
theorem exists_takes {text : List Char} {k : Text.Cursor} (h : k.StandsIn text) {o : Nat}
    (ho : IsBoundary text o) (hle : k.offset ≤ o) : ∃ w d, Takes k w d ∧ d.offset = o := by
  obtain ⟨a, m, b, htext, ha, hm⟩ := h.isBoundary.split ho hle
  obtain ⟨front, hfront, hsize⟩ := h
  obtain ⟨rfl, hrest⟩ := Text.append_inj_of_byteSize_eq (hfront.symm.trans htext) (by omega)
  rw [byteSize_append] at hm
  exact ⟨m, ⟨o, b⟩, ⟨hrest, by show o = _; omega⟩, rfl⟩

/-- Between insertions at boundaries that come in order, every stretch can be cut out. -/
theorem read_cutAt {original : List Char} (hsize : byteSize original < UInt32.size)
    {l : List Insertion} (hl : InOrder l) {k : Text.Cursor} (h : k.StandsIn original)
    (hb : ∀ x ∈ l, k.offset ≤ x.offset ∧ IsBoundary original x.offset) :
    ∃ chunks, cutAt k.offset k.rest l = some chunks ∧
      finishFrom? original k.offset l =
        some (chunks.flatMap fun chunk => chunk.text ++ chunk.inserted) ∧
      ∀ cursor, segmentsFrom? (LineIndex.ofText original) cursor k.offset (stops original l) =
        some (segmentsFrom (LineIndex.ofText original) cursor chunks) := by
  -- the cursor stands where the insertion in front was made
  induction l generalizing k with
  | nil =>
    have hend : Takes k k.rest ⟨byteSize original, []⟩ := by
      obtain ⟨front, hfront, hsize⟩ := h
      refine ⟨(List.append_nil _).symm, ?_⟩
      show byteSize original = _
      rw [hfront, byteSize_append, hsize]
    refine ⟨_, rfl, ?_, fun cursor => ?_⟩
    · rw [finishFrom?, h.sliceFrom]
      simp
    · show segmentsFrom? _ cursor k.offset [(byteSize original, [])] = _
      simp only [segmentsFrom?, show (LineIndex.ofText original).text = original from rfl,
        h.slice_rest, segmentsOf?_eq hsize h hend, Option.bind_eq_bind, Option.bind_some,
        Option.pure_def]
      rfl
  | cons x l ih =>
    obtain ⟨hx, hl⟩ := List.pairwise_cons.1 hl
    obtain ⟨hle, hboundary⟩ := hb x List.mem_cons_self
    obtain ⟨w, d, hw, hd⟩ := exists_takes h hboundary hle
    obtain ⟨chunks, hcut, hfinish, hsegments⟩ := ih hl (h.of_takes hw) fun y hy =>
      ⟨by rw [hd]; exact hx y hy, (hb y (List.mem_cons_of_mem _ hy)).2⟩
    have hslice := h.slice hw
    rw [hd] at hcut hfinish hsegments hslice
    have hsub : x.offset - k.offset = byteSize w := by
      have := hw.offset
      omega
    refine ⟨⟨k.offset, w, x.text⟩ :: chunks, ?_, ?_, fun cursor => ?_⟩
    · rw [cutAt, hw.rest, hsub, Text.cut?_append, Option.bind_some]
      show (cutAt x.offset d.rest l).map _ = _
      rw [hcut]
      rfl
    · simp only [finishFrom?, hslice, hfinish, Option.bind_eq_bind, Option.bind_some,
        Option.pure_def, List.flatMap_cons]
    · show segmentsFrom? _ cursor k.offset ((x.offset, x.text) :: stops original l) = _
      simp only [segmentsFrom?, show (LineIndex.ofText original).text = original from rfl,
        hslice, segmentsOf?_eq hsize h hw, hsegments, Option.bind_eq_bind, Option.bind_some,
        Option.pure_def]
      rfl

/-- A buffer whose insertions stand at boundaries can be read out by offsets, to what it holds. -/
theorem read?_eq {buffer : SpliceBuffer} (path : String)
    (hsize : byteSize buffer.original < UInt32.size)
    (hb : ∀ x ∈ buffer.insertions, IsBoundary buffer.original x.offset) :
    ∃ output, buffer.read? path = some output ∧ buffer.output? path = some output := by
  have hzero : (⟨0, buffer.original⟩ : Text.Cursor).StandsIn buffer.original := ⟨[], rfl, rfl⟩
  obtain ⟨chunks, hcut, hfinish, hsegments⟩ := read_cutAt hsize (inOrder_sorted buffer) hzero
    fun x hx => ⟨Nat.zero_le _, hb x (mem_sorted.1 hx)⟩
  have hchunks : buffer.chunks? = some chunks := hcut
  have hsegments := hsegments {}
  refine ⟨⟨chunks.flatMap fun chunk => chunk.text ++ chunk.inserted,
    { path, source := String.ofList buffer.original,
      segments := segmentsFrom (LineIndex.ofText buffer.original) {} chunks }⟩, ?_, ?_⟩
  · rw [read?, show finishFrom? buffer.original 0 buffer.sorted = _ from hfinish,
      show segmentsFrom? _ {} 0 _ = _ from hsegments]
    rfl
  · rw [output?, finish?, map?, hchunks]
    rfl

end SpliceBuffer

/-! ## §3. Annotating -/

namespace Scanner

open Template (OpenTag Component)

/-- Splices the marker of an element in, if it gets one. -/
def splice? (context : FileContext) (buffer : SpliceBuffer) (tag : OpenTag) :
    Option SpliceBuffer :=
  if !(Tag.classify tag.name).isAnnotatable then some buffer
  else if tag.hasAttribute context.options.idAttribute then some buffer
  else do
    let position ← context.lines.position? tag.start
    let marker := Marker.synthesize context.identity position tag.name tag.snapshot context.options
    return buffer.insert tag.nameEnd marker.markup

/-- Annotates a component file by offsets; `none` where a cut fails. -/
def annotate (code : List Char) (path : String) (options : TransformOptions) :
    Option (Except TransformError (Option Output)) := do
  match ← parse code with
  | .error e => return .error (.parse path e.message)
  | .ok component =>
    let context := FileContext.of code path options
    let buffer ← component.openTags.foldlM (splice? context) { original := code }
    if buffer.isEmpty then return .ok none
    else
      let output ← buffer.read? path
      return .ok (some output)

theorem splice?_eq {code : List Char} (hsize : byteSize code < UInt32.size) (path : String)
    (options : TransformOptions) (buffer : SpliceBuffer) {tag : OpenTag}
    (h : tag.StandsIn ⟨0, code⟩) :
    splice? (.of code path options) buffer tag =
      some (tag.splice (.of code path options) buffer) := by
  obtain ⟨front, after, hcode, hstart⟩ := h.text
  have hstart : tag.start = 0 + byteSize front := hstart
  have hstands : (⟨tag.start, '<' :: (tag.name.toList ++ after)⟩ : Cursor).StandsIn code :=
    ⟨front, hcode, by show byteSize front = tag.start; omega⟩
  obtain ⟨hposition, -⟩ := LineIndex.position?_eq hsize hstands (by simp)
  unfold splice? OpenTag.splice OpenTag.decide FileContext.decide
  by_cases hannotatable : (!(Tag.classify tag.name).isAnnotatable) = true
  · simp only [if_pos hannotatable]
  by_cases hidentified : tag.hasAttribute options.idAttribute = true
  · have hidentified : tag.hasAttribute (FileContext.of code path options).options.idAttribute =
        true := hidentified
    simp only [if_neg hannotatable, if_pos hidentified]
  · have hidentified : ¬ tag.hasAttribute (FileContext.of code path options).options.idAttribute =
        true := hidentified
    have hposition : (FileContext.of code path options).lines.position? tag.start =
        some ((FileContext.of code path options).lines.position tag.start) := hposition
    simp only [if_neg hannotatable, if_neg hidentified, hposition, Option.bind_eq_bind,
      Option.bind_some, Option.pure_def]

/-- Every cut in filling the buffer has a value. -/
theorem foldlM_splice?_eq {code : List Char} (hsize : byteSize code < UInt32.size) (path : String)
    (options : TransformOptions) {tags : List OpenTag} (h : ∀ tag ∈ tags, tag.StandsIn ⟨0, code⟩)
    (buffer : SpliceBuffer) :
    tags.foldlM (splice? (.of code path options)) buffer =
      some (tags.foldl (OpenTag.splice (.of code path options)) buffer) := by
  induction tags generalizing buffer with
  | nil => rfl
  | cons tag tags ih =>
    rw [List.foldlM_cons, splice?_eq hsize path options buffer (h tag List.mem_cons_self)]
    exact ih (fun t ht => h t (List.mem_cons_of_mem _ ht)) _

/-- Annotating a component never makes a bad cut.  The scanner, the line index and the buffer cut
    pieces out of the text only between two boundaries in order (`Text.slice?_isSome_iff`), every
    loop comes to an end, and what they come to is what annotating comes to, an error included. -/
theorem annotate_eq (code : List Char) (path : String) (options : TransformOptions)
    (hsize : byteSize code < UInt32.size) :
    annotate code path options = some (Template.annotate code path options).result := by
  rw [annotate, parse_eq]
  cases hparse : Component.parse code with
  | error e => rw [Template.annotate_error hparse]; rfl
  | ok component =>
    have hfold := foldlM_splice?_eq hsize path options
      (fun tag ht => Template.standsIn_of_parse hparse ht) { original := code }
    have hspliced : component.openTags.foldl (OpenTag.splice (.of code path options))
        { original := code } = component.spliced (.of code path options) := rfl
    rw [hspliced] at hfold
    have hboundary : ∀ x ∈ (component.spliced (.of code path options)).insertions,
        IsBoundary (component.spliced (.of code path options)).original x.offset := by
      rw [Template.spliced_eq hparse]
      exact (Template.insertions_of_parse hparse _).2
    have horiginal : (component.spliced (.of code path options)).original = code := by
      rw [Template.spliced_eq hparse]
    obtain ⟨output, hread, houtput⟩ := SpliceBuffer.read?_eq path
      (by rw [horiginal]; exact hsize) hboundary
    have hresult : (Template.annotate code path options).result =
        .ok (if (component.spliced (.of code path options)).isEmpty then none
          else (component.spliced (.of code path options)).output? path) := by
      rw [Template.annotate, hparse]
    rw [hresult, houtput]
    simp only [hfold, hread, Option.bind_eq_bind, Option.bind_some, Option.pure_def]
    split <;> rfl

/-- Characters of two and three bytes stand in a name, a value and a text of the first file; the
    second ends in the middle of one of its values. -/
theorem annotate_eq_multibyte :
    (byteSize "<template><Größe title=\"é\">日本 \x7b\x7b ü \x7d\x7d</Größe></template>".toList <
        UInt32.size ∧
      annotate "<template><Größe title=\"é\">日本 \x7b\x7b ü \x7d\x7d</Größe></template>".toList
        "src/Größe.vue" {} =
      some (Template.annotate
        "<template><Größe title=\"é\">日本 \x7b\x7b ü \x7d\x7d</Größe></template>".toList
        "src/Größe.vue" {}).result) ∧
    byteSize "<template><p title='日".toList < UInt32.size ∧
      annotate "<template><p title='日".toList "p.vue" {} =
        some (Template.annotate "<template><p title='日".toList "p.vue" {}).result :=
  ⟨⟨by decide +kernel, annotate_eq _ _ _ (by decide +kernel)⟩, by decide +kernel,
    annotate_eq _ _ _ (by decide +kernel)⟩

end Scanner

end Provenance
