import Provenance.Proofs.Text.Letter
import Provenance.Proofs.Text.Percent
import Provenance.Text.Reference

/-! # Decoding components

  A component of a URI is written byte by byte: a byte that a component may hold
  bare stands for itself, and every other byte is an escape of two digits
  (`encodeUriComponent_eq`).  The two steps of the encoder come to this because
  an escape that is put back never overlaps another one: the text in between is a
  row of pieces, each a bare character or a whole escape.

  Decoding reads the bytes back and then the characters that they write in UTF-8
  (`decodeUriComponent?_encode`).

  Main statement: an encoded text is the standard's one, which gives its rule for
  each byte of the text for itself, and texts that differ are encoded differently
  (`encodeUriComponent_bytewise`).
-/

namespace Provenance.Text

/-! ## §1. Bytes of a component -/

/-- The characters that a component may hold bare. -/
def isBareCharacter (c : Char) : Bool := isUnreserved c || bareMarks.any fun mark => mark.2 = c

/-- One byte of a component. -/
def componentByte (b : UInt8) : List Char :=
  if isBareCharacter (Char.ofNat b.toNat) then [Char.ofNat b.toNat] else percentEscape b

/-- One byte of a component before the escapes of the marks are put back. -/
def reservedByte (b : UInt8) : List Char :=
  if isUnreserved (Char.ofNat b.toNat) then [Char.ofNat b.toNat] else percentEscape b

/-- What holds of the bytes below 256 one by one holds of every byte. -/
theorem forall_byte {p : UInt8 → Prop} (h : ∀ n, n < 256 → p (UInt8.ofNat n)) (b : UInt8) :
    p b := by
  have hb := h b.toNat b.toNat_lt
  rwa [UInt8.ofNat_toNat] at hb

theorem toNat_ofNat_byte : ∀ b : UInt8, (Char.ofNat b.toNat).toNat = b.toNat :=
  forall_byte (p := fun b => (Char.ofNat b.toNat).toNat = b.toNat) (by decide +kernel)

theorem utf8EncodeChar_of_lt {c : Char} (h : c.toNat < 128) :
    String.utf8EncodeChar c = [UInt8.ofNat c.toNat] := by
  have hle : c.val.toNat ≤ 127 := Nat.le_of_lt_succ h
  simp only [String.utf8EncodeChar, if_pos hle]
  rfl

/-- The bytes of a character beyond ASCII are beyond ASCII themselves. -/
theorem le_of_mem_utf8EncodeChar {c : Char} (hc : 128 ≤ c.toNat) {b : UInt8}
    (hb : b ∈ String.utf8EncodeChar c) : 128 ≤ b.toNat := by
  have hgt : ¬ c.val.toNat ≤ 127 := Nat.not_le.2 hc
  unfold String.utf8EncodeChar at hb
  simp only [if_neg hgt] at hb
  split at hb
  · simp only [List.mem_cons, List.not_mem_nil, or_false] at hb
    rcases hb with rfl | rfl <;> rw [UInt8.toNat_ofNat'] <;> omega
  · split at hb
    · simp only [List.mem_cons, List.not_mem_nil, or_false] at hb
      rcases hb with rfl | rfl | rfl <;> rw [UInt8.toNat_ofNat'] <;> omega
    · simp only [List.mem_cons, List.not_mem_nil, or_false] at hb
      rcases hb with rfl | rfl | rfl | rfl <;> rw [UInt8.toNat_ofNat'] <;> omega

/-- The escapes of a text, byte by byte. -/
theorem percentEncode_eq (s : List Char) :
    percentEncode s = (s.flatMap String.utf8EncodeChar).flatMap reservedByte := by
  rw [percentEncode, List.flatMap_assoc]
  congr 1
  funext c
  by_cases hc : c.toNat < 128
  · have hbyte : (UInt8.ofNat c.toNat).toNat = c.toNat := by
      rw [UInt8.toNat_ofNat']
      omega
    rw [utf8EncodeChar_of_lt hc]
    simp only [List.flatMap_cons, List.flatMap_nil, List.append_nil, reservedByte, hbyte,
      Char.ofNat_toNat]
  · -- no byte of a longer character is a character that an encoder leaves bare
    have hreserved : ¬ isUnreserved c = true := fun h => hc (toNat_lt_of_isUnreserved h)
    have hescape : ∀ b ∈ String.utf8EncodeChar c, reservedByte b = percentEscape b := by
      intro b hb
      have hle := le_of_mem_utf8EncodeChar (Nat.le_of_not_lt hc) hb
      have hlt := b.toNat_lt
      have hchar : (Char.ofNat b.toNat).toNat = b.toNat :=
        toNat_ofNat_byte b
      refine if_neg fun h => ?_
      have := toNat_lt_of_isUnreserved h
      omega
    rw [if_neg hreserved, List.flatMap_def, List.flatMap_def, List.map_congr_left hescape]

/-! ## §2. Putting the marks back -/

/-- A piece of an encoded text: a character that is not a percent sign, or a
    whole escape. -/
inductive IsPiece : List Char → Prop where
  | bare {c : Char} (h : c ≠ '%') : IsPiece [c]
  | escape {x y : Char} (hx : x ≠ '%') (hy : y ≠ '%') : IsPiece ['%', x, y]

theorem ne_percent_of_isUnreserved {c : Char} (h : isUnreserved c = true) : c ≠ '%' := by
  rintro rfl
  revert h
  decide

theorem isPiece_reservedByte (b : UInt8) : IsPiece (reservedByte b) := by
  have hb := b.toNat_lt
  unfold reservedByte
  split
  · next h => exact .bare (ne_percent_of_isUnreserved h)
  · exact .escape (ne_percent_of_isUnreserved (isUnreserved_hexDigit _ (by omega)))
      (ne_percent_of_isUnreserved (isUnreserved_hexDigit _ (by omega)))

/-- The pieces of a text after one mark is put back. -/
def putBack (f : UInt8 → List Char) (mark : List Char × Char) (b : UInt8) : List Char :=
  if f b = mark.1 then [mark.2] else f b

theorem isPiece_putBack {f : UInt8 → List Char} (hf : ∀ b, IsPiece (f b))
    {mark : List Char × Char} (hmark : mark.2 ≠ '%') (b : UInt8) : IsPiece (putBack f mark b) := by
  unfold putBack
  split
  · exact .bare hmark
  · exact hf b

theorem replaceFrom_bare {x y m c : Char} (h : c ≠ '%') (r : List Char) :
    replaceFrom ['%', x, y] [m] 0 (c :: r) = c :: replaceFrom ['%', x, y] [m] 0 r := by
  have hprefix : ¬ ['%', x, y].isPrefixOf (c :: r) = true := by
    simp [List.isPrefixOf, Ne.symm h]
  rw [replaceFrom, if_neg hprefix]

/-- An escape is found where a piece is that escape, and nowhere across pieces. -/
theorem replaceAll_flatMap {f : UInt8 → List Char} (hf : ∀ b, IsPiece (f b)) (x y m : Char)
    (bytes : List UInt8) :
    replaceAll ['%', x, y] [m] (bytes.flatMap f) =
      bytes.flatMap (putBack f (['%', x, y], m)) := by
  unfold replaceAll
  induction bytes with
  | nil => rfl
  | cons b bytes ih =>
    rw [List.flatMap_cons, List.flatMap_cons, ← ih, putBack]
    have hpiece := hf b
    revert hpiece
    generalize f b = piece
    intro hpiece
    cases hpiece with
    | @bare c hc =>
      rw [if_neg (by simp)]
      exact replaceFrom_bare hc _
    | @escape u v hu hv =>
      by_cases huv : u = x ∧ v = y
      · obtain ⟨rfl, rfl⟩ := huv
        simp [replaceFrom, List.isPrefixOf]
      · -- the three characters of another escape are passed one by one
        have hprefix : ¬ ['%', x, y].isPrefixOf ('%' :: u :: v :: bytes.flatMap f) = true := by
          intro h
          simp only [List.isPrefixOf, beq_self_eq_true, Bool.true_and, Bool.and_true,
            Bool.and_eq_true, beq_iff_eq] at h
          exact huv ⟨h.1.symm, h.2.symm⟩
        have hne : ¬ ['%', u, v] = ['%', x, y] := by
          intro h
          simp only [List.cons.injEq, and_true, true_and] at h
          exact huv h
        rw [if_neg hne]
        show replaceFrom ['%', x, y] [m] 0 ('%' :: u :: v :: bytes.flatMap f) = _
        rw [replaceFrom, if_neg hprefix, replaceFrom_bare hu, replaceFrom_bare hv]
        rfl

theorem foldl_replaceAll_flatMap {marks : List (List Char × Char)}
    (hmarks : ∀ mark ∈ marks, mark.2 ≠ '%' ∧ ∃ x y, mark.1 = ['%', x, y])
    {f : UInt8 → List Char} (hf : ∀ b, IsPiece (f b)) (bytes : List UInt8) :
    marks.foldl (fun text mark => replaceAll mark.1 [mark.2] text) (bytes.flatMap f) =
      bytes.flatMap (marks.foldl putBack f) := by
  induction marks generalizing f with
  | nil => rfl
  | cons mark marks ih =>
    obtain ⟨hmark, x, y, hescape⟩ := hmarks mark List.mem_cons_self
    have hstep := replaceAll_flatMap hf x y mark.2 bytes
    rw [← hescape] at hstep
    rw [List.foldl_cons, List.foldl_cons, hstep]
    exact ih (fun m hm => hmarks m (List.mem_cons_of_mem _ hm)) (isPiece_putBack hf hmark)

theorem foldl_putBack_reservedByte : bareMarks.foldl putBack reservedByte = componentByte := by
  funext b
  exact forall_byte (p := fun b => bareMarks.foldl putBack reservedByte b = componentByte b)
    (by decide +kernel) b

/-- The encoder writes the bytes of a text one by one. -/
theorem encodeUriComponent_eq (s : List Char) :
    encodeUriComponent s = (s.flatMap String.utf8EncodeChar).flatMap componentByte := by
  have hmarks : ∀ mark ∈ bareMarks, mark.2 ≠ '%' ∧ ∃ x y, mark.1 = ['%', x, y] := by
    intro mark hmark
    simp only [bareMarks, List.mem_cons, List.not_mem_nil, or_false] at hmark
    rcases hmark with rfl | rfl | rfl | rfl | rfl <;> exact ⟨by decide, _, _, rfl⟩
  rw [encodeUriComponent, percentEncode_eq, foldl_replaceAll_flatMap hmarks isPiece_reservedByte,
    foldl_putBack_reservedByte]

/-! ## §3. Decoding -/

/-- The bytes that a component writes: an escape is one byte, and any other
    character its own bytes.  A percent sign that begins no escape is an error. -/
def percentDecode? : List Char → Option (List UInt8)
  | [] => some []
  | '%' :: x :: y :: r =>
    match digitValue? 16 x, digitValue? 16 y with
    | some high, some low => (percentDecode? r).map (UInt8.ofNat (16 * high + low) :: ·)
    | _, _ => none
  | c :: r => if c = '%' then none else (percentDecode? r).map (String.utf8EncodeChar c ++ ·)

/-- The text that a component writes in UTF-8. -/
def decodeUriComponent? (s : List Char) : Option (List Char) := do
  let bytes ← percentDecode? s
  let text ← bytes.toByteArray.utf8Decode?
  some text.toList

theorem percentDecode?_bare {c : Char} (h : c ≠ '%') (r : List Char) :
    percentDecode? (c :: r) = (percentDecode? r).map (String.utf8EncodeChar c ++ ·) := by
  rw [percentDecode?]
  · exact if_neg h
  · intro x y r hc
    exact absurd hc h

theorem digitValue?_hexDigit : ∀ n, n < 16 → digitValue? 16 (hexDigit n) = some n := by decide

theorem percentDecode?_percentEscape (b : UInt8) (r : List Char) :
    percentDecode? (percentEscape b ++ r) = (percentDecode? r).map (b :: ·) := by
  have hb := b.toNat_lt
  have hvalue : 16 * (b.toNat / 16) + b.toNat % 16 = b.toNat := by omega
  simp only [percentEscape, List.cons_append, List.nil_append, percentDecode?,
    digitValue?_hexDigit _ (show b.toNat / 16 < 16 by omega),
    digitValue?_hexDigit _ (show b.toNat % 16 < 16 by omega), hvalue, UInt8.ofNat_toNat]

theorem percentDecode?_componentByte (b : UInt8) (r : List Char) :
    percentDecode? (componentByte b ++ r) = (percentDecode? r).map (b :: ·) := by
  unfold componentByte
  split
  · next h =>
    have hbare : ∀ n, n < 256 → isBareCharacter (Char.ofNat n) = true →
        Char.ofNat n ≠ '%' ∧ String.utf8EncodeChar (Char.ofNat n) = [UInt8.ofNat n] := by
      decide +kernel
    obtain ⟨hne, hbytes⟩ := hbare b.toNat b.toNat_lt h
    rw [List.singleton_append, percentDecode?_bare hne, hbytes, UInt8.ofNat_toNat]
    rfl
  · exact percentDecode?_percentEscape b r

theorem percentDecode?_flatMap_componentByte (bytes : List UInt8) :
    percentDecode? (bytes.flatMap componentByte) = some bytes := by
  induction bytes with
  | nil => rfl
  | cons b bytes ih => rw [List.flatMap_cons, percentDecode?_componentByte, ih]; rfl

/-- Decoding gives back the text that was encoded. -/
theorem decodeUriComponent?_encode (s : List Char) :
    decodeUriComponent? (encodeUriComponent s) = some s := by
  have htext : (s.flatMap String.utf8EncodeChar).toByteArray.utf8Decode? = some s.toArray :=
    List.utf8Decode?_utf8Encode
  simp only [decodeUriComponent?, encodeUriComponent_eq, percentDecode?_flatMap_componentByte,
    Option.bind_eq_bind, Option.bind_some, htext]

/-! ## §4. The rule of the standard -/

/-- The characters that the standard leaves as they are: `A-Z a-z 0-9` and
    `- _ . ! ~ * ' ( )`. -/
def isComponentCharacter (c : Char) : Bool :=
  ('A' ≤ c && c ≤ 'Z') || ('a' ≤ c && c ≤ 'z') || ('0' ≤ c && c ≤ '9') ||
    ['-', '_', '.', '!', '~', '*', '\'', '(', ')'].contains c

/-- The digits of an escape, by their value. -/
def escapeDigits : List Char :=
  ['0', '1', '2', '3', '4', '5', '6', '7', '8', '9', 'A', 'B', 'C', 'D', 'E', 'F']

/-- What the standard writes for one byte. -/
def standardByte (b : UInt8) : List Char :=
  if isComponentCharacter (Char.ofNat b.toNat) then [Char.ofNat b.toNat]
  else ['%', escapeDigits.getD (b.toNat / 16) '0', escapeDigits.getD (b.toNat % 16) '0']

theorem componentByte_eq_standardByte (b : UInt8) : componentByte b = standardByte b :=
  forall_byte (p := fun b => componentByte b = standardByte b) (by decide +kernel) b

/-- The bytes of a text in UTF-8 are those of its characters. -/
theorem toList_toUTF8 (s : List Char) :
    (String.ofList s).toUTF8.data.toList = s.flatMap String.utf8EncodeChar := by
  show (String.ofList s).toByteArray.data.toList = _
  rw [String.toByteArray_ofList, List.utf8Encode, List.data_toByteArray]

theorem encodeUriComponent_injective : Function.Injective encodeUriComponent := by
  intro s t h
  have hs := decodeUriComponent?_encode s
  rw [h, decodeUriComponent?_encode t] at hs
  exact (Option.some.inj hs).symm

/-- A text is encoded as the standard says, byte by byte of its UTF-8 form;
    decoding gives it back, and so no two texts have the same encoded form. -/
theorem encodeUriComponent_bytewise :
    (∀ s : List Char, encodeUriComponent s =
      (String.ofList s).toUTF8.data.toList.flatMap standardByte) ∧
    (∀ s : List Char, decodeUriComponent? (encodeUriComponent s) = some s) ∧
    Function.Injective encodeUriComponent := by
  refine ⟨fun s => ?_, decodeUriComponent?_encode, encodeUriComponent_injective⟩
  have hbyte : componentByte = standardByte := funext componentByte_eq_standardByte
  rw [encodeUriComponent_eq, toList_toUTF8, hbyte]

/-- Marks, an escaped percent sign and a character of two bytes. -/
example : encodeUriComponent "*%2A (é)".toList = "*%252A%20(%C3%A9)".toList := by
  decide +kernel

end Provenance.Text
