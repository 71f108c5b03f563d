import Provenance.Proofs.Template.Tiled
import Provenance.Proofs.Text.Letter

/-! # Texts as octets

  A scanner moves through a text by the offsets of its octets in UTF-8 and looks at single
  octets, while it cuts pieces out of the text only between characters.

  What it relies on is that UTF-8 keeps ASCII apart: an octet below 128 is a character of its
  own, and the octets of any other character are 128 or more (`octet_cases`).  A test that
  tells no two characters beyond ASCII apart therefore stops between characters
  (`takeWhile_octets`).
-/

namespace Provenance.Text

/-! ## §1. Octets -/

/-- The octets of a character in UTF-8, each as the character with its number. -/
def octetsOf (c : Char) : List Char := (String.utf8EncodeChar c).map Char.ofUInt8

/-- The octets of a text in UTF-8, each as the character with its number. -/
def octets (s : List Char) : List Char := s.flatMap octetsOf

@[simp] theorem octets_nil : octets [] = [] := rfl

theorem octets_cons (c : Char) (r : List Char) : octets (c :: r) = octetsOf c ++ octets r := rfl

theorem octets_append (a b : List Char) : octets (a ++ b) = octets a ++ octets b :=
  List.flatMap_append

theorem length_octetsOf (c : Char) : (octetsOf c).length = c.utf8Size := by
  rw [octetsOf, List.length_map, String.length_utf8EncodeChar]

theorem length_octets (s : List Char) : (octets s).length = byteSize s := by
  induction s with
  | nil => rfl
  | cons c r ih => rw [octets_cons, List.length_append, length_octetsOf, ih, byteSize_cons]

theorem exists_octetsOf_eq_cons (c : Char) : ∃ x xs, octetsOf c = x :: xs := by
  refine List.exists_cons_of_length_pos ?_
  rw [length_octetsOf]
  exact c.utf8Size_pos

/-- An octet is its character, or both lie beyond ASCII. -/
theorem octet_cases {c x : Char} (h : x ∈ octetsOf c) :
    (octetsOf c = [c] ∧ c.toNat < 128) ∨ 128 ≤ c.toNat ∧ 128 ≤ x.toNat := by
  obtain ⟨b, hb, rfl⟩ := List.mem_map.1 h
  have hval : c.val.toNat = c.toNat := rfl
  have hnum : (Char.ofUInt8 b).toNat = b.toNat := UInt8.toNat_toUInt32 b
  have hmax : c.toNat < 0x110000 := by
    rcases c.valid with hlow | hhigh <;> omega
  have henc : octetsOf c = (String.utf8EncodeChar c).map Char.ofUInt8 := rfl
  rw [hnum]
  unfold String.utf8EncodeChar at hb henc
  simp only [hval] at hb henc
  split at hb
  · next hle =>
    rw [if_pos hle] at henc
    refine .inl ⟨?_, by omega⟩
    rw [henc, List.map_singleton]
    refine congrArg (· :: []) (Char.toNat_inj.1 ?_)
    have hone : (Char.ofUInt8 (UInt8.ofNat c.toNat)).toNat = (UInt8.ofNat c.toNat).toNat :=
      UInt8.toNat_toUInt32 _
    rw [hone, UInt8.toNat_ofNat']
    omega
  · -- every octet of a longer sequence carries its highest bit
    right
    refine ⟨by omega, ?_⟩
    split at hb
    · simp only [List.mem_cons, List.not_mem_nil, or_false] at hb
      rcases hb with rfl | rfl <;> rw [UInt8.toNat_ofNat'] <;> omega
    · split at hb
      · simp only [List.mem_cons, List.not_mem_nil, or_false] at hb
        rcases hb with rfl | rfl | rfl <;> rw [UInt8.toNat_ofNat'] <;> omega
      · simp only [List.mem_cons, List.not_mem_nil, or_false] at hb
        rcases hb with rfl | rfl | rfl | rfl <;> rw [UInt8.toNat_ofNat'] <;> omega

/-- A character of ASCII is its only octet. -/
theorem octetsOf_ascii {c : Char} (h : c.toNat < 128) : octetsOf c = [c] := by
  obtain ⟨x, xs, hx⟩ := exists_octetsOf_eq_cons c
  have hmem : x ∈ octetsOf c := by rw [hx]; exact List.mem_cons_self
  rcases octet_cases hmem with ⟨hone, -⟩ | ⟨hlarge, -⟩
  · exact hone
  · omega

/-- The octets of a character beyond ASCII lie beyond ASCII. -/
theorem octet_large {c x : Char} (h : x ∈ octetsOf c) (hc : 128 ≤ c.toNat) : 128 ≤ x.toNat := by
  rcases octet_cases h with ⟨-, hsmall⟩ | ⟨-, hx⟩
  · omega
  · exact hx

/-! ## §2. Tests on octets -/

/-- A test that tells no two characters beyond ASCII apart. -/
def IsAsciiTest (p : Char → Bool) : Prop :=
  ∀ c d : Char, 128 ≤ c.toNat → 128 ≤ d.toNat → p c = p d

/-- Such a test finds the same of a character and of its octets. -/
theorem IsAsciiTest.octet {p : Char → Bool} (hp : IsAsciiTest p) {c x : Char}
    (h : x ∈ octetsOf c) : p x = p c := by
  rcases octet_cases h with ⟨hone, -⟩ | ⟨hc, hx⟩
  · rw [hone] at h
    rw [List.mem_singleton.1 h]
  · exact hp x c hx hc

/-- An octet is a mark of ASCII exactly if its character is that mark. -/
theorem octet_eq_iff {mark c x : Char} (hmark : mark.toNat < 128) (h : x ∈ octetsOf c) :
    x = mark ↔ c = mark := by
  rcases octet_cases h with ⟨hone, -⟩ | ⟨hc, hx⟩
  · rw [hone] at h
    rw [List.mem_singleton.1 h]
  · have hleft : x ≠ mark := fun heq => by rw [heq] at hx; omega
    have hright : c ≠ mark := fun heq => by rw [heq] at hc; omega
    exact iff_of_false hleft hright

theorem isAsciiTest_eq {mark : Char} (hmark : mark.toNat < 128) :
    IsAsciiTest fun x => x = mark := by
  intro c d hc hd
  have hne : ∀ x : Char, 128 ≤ x.toNat → x ≠ mark := fun x hx heq => by rw [heq] at hx; omega
  show decide (c = mark) = decide (d = mark)
  rw [decide_eq_false (hne c hc), decide_eq_false (hne d hd)]

theorem isAsciiTest_ne {mark : Char} (hmark : mark.toNat < 128) :
    IsAsciiTest fun x => x ≠ mark := by
  intro c d hc hd
  have hne : ∀ x : Char, 128 ≤ x.toNat → x ≠ mark := fun x hx heq => by rw [heq] at hx; omega
  show decide (c ≠ mark) = decide (d ≠ mark)
  rw [decide_eq_true (hne c hc), decide_eq_true (hne d hd)]

theorem IsAsciiTest.or {p q : Char → Bool} (hp : IsAsciiTest p) (hq : IsAsciiTest q) :
    IsAsciiTest fun x => p x || q x := by
  intro c d hc hd
  show (p c || q c) = (p d || q d)
  rw [hp c d hc hd, hq c d hc hd]

theorem IsAsciiTest.and {p q : Char → Bool} (hp : IsAsciiTest p) (hq : IsAsciiTest q) :
    IsAsciiTest fun x => p x && q x := by
  intro c d hc hd
  show (p c && q c) = (p d && q d)
  rw [hp c d hc hd, hq c d hc hd]

theorem IsAsciiTest.not {p : Char → Bool} (hp : IsAsciiTest p) : IsAsciiTest fun x => !p x := by
  intro c d hc hd
  show (!p c) = (!p d)
  rw [hp c d hc hd]

theorem isAsciiTest_isTagBlank : IsAsciiTest isTagBlank :=
  ((((isAsciiTest_eq (by decide)).or (isAsciiTest_eq (by decide))).or
    (isAsciiTest_eq (by decide))).or (isAsciiTest_eq (by decide))).or (isAsciiTest_eq (by decide))

theorem isAsciiTest_isTagNamePart : IsAsciiTest Template.isTagNamePart :=
  (isAsciiTest_isTagBlank.not.and (isAsciiTest_ne (by decide))).and (isAsciiTest_ne (by decide))

theorem isAsciiTest_isAlpha : IsAsciiTest Char.isAlpha := by
  have hno : ∀ x : Char, 128 ≤ x.toNat → x.isAlpha = false := by
    intro x hx
    rw [← Bool.not_eq_true, isAlpha_iff]
    omega
  intro c d hc hd
  rw [hno c hc, hno d hd]

/-- A run of octets that pass such a test ends between characters. -/
theorem takeWhile_octets {p : Char → Bool} (hp : IsAsciiTest p) (s : List Char) :
    (octets s).takeWhile p = octets (s.takeWhile p) := by
  induction s with
  | nil => rfl
  | cons c r ih =>
    rw [octets_cons, List.takeWhile_cons]
    cases hc : p c with
    | true =>
      rw [List.takeWhile_append_of_pos fun x hx => (hp.octet hx).trans hc, ih, if_pos rfl,
        octets_cons]
    | false =>
      -- the first octet of the character fails the test already
      rw [if_neg (by decide), octets_nil]
      obtain ⟨x, xs, hx⟩ := exists_octetsOf_eq_cons c
      have hfail : p x = false :=
        (hp.octet (by rw [hx]; exact List.mem_cons_self)).trans hc
      rw [hx, List.cons_append, List.takeWhile_cons, hfail]
      rfl

/-- The first octet of a text is a mark of ASCII exactly if its first character is. -/
theorem head?_octets_eq_iff {mark : Char} (hmark : mark.toNat < 128) (s : List Char) :
    (octets s).head? = some mark ↔ s.head? = some mark := by
  cases s with
  | nil => rfl
  | cons x r =>
    obtain ⟨y, ys, hy⟩ := exists_octetsOf_eq_cons x
    have hmem : y ∈ octetsOf x := by rw [hy]; exact List.mem_cons_self
    rw [octets_cons, hy, List.cons_append, List.head?_cons, List.head?_cons, Option.some.injEq,
      Option.some.injEq, octet_eq_iff hmark hmem]

/-! ## §3. Looking and cutting -/

/-- A cut has a value exactly between two boundaries in order. -/
theorem slice?_isSome_iff {s : List Char} {o p : Nat} :
    (slice? s o p).isSome ↔ IsBoundary s o ∧ IsBoundary s p ∧ o ≤ p := by
  constructor
  · intro h
    obtain ⟨w, hw⟩ := Option.isSome_iff_exists.1 h
    obtain ⟨ho, hp, hsize⟩ := isBoundary_of_slice? hw
    exact ⟨ho, hp, by omega⟩
  · rintro ⟨ho, hp, hle⟩
    obtain ⟨a, m, b, rfl, rfl, rfl⟩ := ho.split hp hle
    rw [slice?_append]
    rfl

/-- The octet at an offset. -/
def octetAt? (s : List Char) (o : Nat) : Option Char := (octets s)[o]?

/-- The offset behind the octets from `o` on that pass a test. -/
def skipOctets (p : Char → Bool) (s : List Char) (o : Nat) : Nat :=
  o + (((octets s).drop o).takeWhile p).length

/-- The octets from an offset on; `none` where it lies behind the end. -/
def octetsFrom? (s : List Char) (o : Nat) : Option (List Char) :=
  if o ≤ byteSize s then some ((octets s).drop o) else none

/-- The text from an offset on; `none` where a character does not start there. -/
def sliceFrom? (s : List Char) (o : Nat) : Option (List Char) := slice? s o (byteSize s)

/-- The offset at which a pattern stands first. -/
def find? (pattern s : List Char) : Option Nat :=
  (Cursor.splitOn? pattern s).map fun parts => byteSize parts.1

/-- Whether a pattern stands at an offset; `none` where a character does not start there. -/
def startsWith? (pattern s : List Char) (o : Nat) : Option Bool :=
  (sliceFrom? s o).map pattern.isPrefixOf

/-- As many rounds as there are characters to pass, and one to end with. -/
def rounds (s : List Char) : Nat := s.length + 1

section Cursors

variable {source : List Char} {c d : Cursor}

theorem Cursor.StandsIn.drop_octets (h : c.StandsIn source) :
    (octets source).drop c.offset = octets c.rest := by
  obtain ⟨front, hsource, hsize⟩ := h
  rw [hsource, octets_append, ← hsize, ← length_octets, List.drop_left]

theorem Cursor.StandsIn.sliceFrom (h : c.StandsIn source) :
    sliceFrom? source c.offset = some c.rest := h.slice_rest

theorem Cursor.StandsIn.startsWith (h : c.StandsIn source) (pattern : List Char) :
    startsWith? pattern source c.offset = some (pattern.isPrefixOf c.rest) := by
  rw [startsWith?, h.sliceFrom, Option.map_some]

theorem Cursor.StandsIn.octetsFrom (h : c.StandsIn source) :
    octetsFrom? source c.offset = some (octets c.rest) := by
  rw [octetsFrom?, if_pos h.isBoundary.le_byteSize, h.drop_octets]

theorem Cursor.StandsIn.octetAt (h : c.StandsIn source) :
    octetAt? source c.offset = (octets c.rest).head? := by
  rw [octetAt?, ← h.drop_octets, List.head?_drop]

/-- At the end there is no octet. -/
theorem Cursor.StandsIn.octetAt_nil (h : c.StandsIn source) (hc : c.rest = []) :
    octetAt? source c.offset = none := by
  rw [h.octetAt, hc]
  rfl

/-- Elsewhere the octet is the first one of the character in front. -/
theorem Cursor.StandsIn.octetAt_cons (h : c.StandsIn source) {x : Char} {r : List Char}
    (hc : c.rest = x :: r) : ∃ y ∈ octetsOf x, octetAt? source c.offset = some y := by
  obtain ⟨y, ys, hy⟩ := exists_octetsOf_eq_cons x
  refine ⟨y, by rw [hy]; exact List.mem_cons_self, ?_⟩
  rw [h.octetAt, hc, octets_cons, hy]
  rfl

/-- The octet at a cursor is a mark of ASCII exactly if the character is. -/
theorem Cursor.StandsIn.octetAt_eq_iff (h : c.StandsIn source) {mark : Char}
    (hmark : mark.toNat < 128) :
    octetAt? source c.offset = some mark ↔ c.rest.head? = some mark := by
  rw [h.octetAt, head?_octets_eq_iff hmark]

theorem Cursor.StandsIn.octetAt_eq_iff_of_cons (h : c.StandsIn source) {mark x : Char}
    {r : List Char} (hc : c.rest = x :: r) (hmark : mark.toNat < 128) :
    octetAt? source c.offset = some mark ↔ x = mark := by
  rw [h.octetAt_eq_iff hmark, hc, List.head?_cons, Option.some.injEq]

/-- A test of ASCII finds the same of the octet at a cursor and of the character. -/
theorem Cursor.StandsIn.any_octetAt (h : c.StandsIn source) {p : Char → Bool}
    (hp : IsAsciiTest p) : (octetAt? source c.offset).any p = c.rest.head?.any p := by
  cases hc : c.rest with
  | nil => rw [h.octetAt_nil hc]; rfl
  | cons x r =>
    obtain ⟨y, hy, hat⟩ := h.octetAt_cons hc
    rw [hat]
    exact hp.octet hy

theorem Cursor.StandsIn.all_octetAt (h : c.StandsIn source) {p : Char → Bool}
    (hp : IsAsciiTest p) : (octetAt? source c.offset).all p = c.rest.head?.all p := by
  cases hc : c.rest with
  | nil => rw [h.octetAt_nil hc]; rfl
  | cons x r =>
    obtain ⟨y, hy, hat⟩ := h.octetAt_cons hc
    rw [hat]
    exact hp.octet hy

/-- Octets are passed over as characters are. -/
theorem Cursor.StandsIn.skipOctets (h : c.StandsIn source) {p : Char → Bool}
    (hp : IsAsciiTest p) : skipOctets p source c.offset = (c.skipWhile p).offset := by
  rw [Text.skipOctets, h.drop_octets, takeWhile_octets hp, length_octets]
  rfl

/-- The end of the text is where no character remains. -/
theorem Cursor.StandsIn.size_le_iff (h : c.StandsIn source) :
    byteSize source ≤ c.offset ↔ c.rest = [] := by
  obtain ⟨front, hsource, hsize⟩ := h
  rw [hsource, byteSize_append, ← hsize]
  by_cases hnil : c.rest = []
  · simp [hnil]
  · have := byteSize_pos hnil
    exact iff_of_false (by omega) hnil

/-- The rounds of a loop over the text suffice for what remains of it. -/
theorem Cursor.StandsIn.lt_rounds (h : c.StandsIn source) : c.rest.length < rounds source := by
  obtain ⟨front, hsource, -⟩ := h
  rw [rounds, hsource, List.length_append]
  omega

end Cursors

end Provenance.Text
