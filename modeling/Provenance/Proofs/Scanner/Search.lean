import Provenance.Proofs.Scanner.Reader
import Provenance.Proofs.Text.Reference

/-! # Searching by offsets

  A search gives the offset at which something stands.  Each of them finds what the reader by
  cursors finds, and what it passes over can be cut out:

  - a pattern, in characters or in octets (`Text.Cursor.StandsIn.find`, `Text.findIdx?_octets`);
  - a character reference (`Text.decodeBehind?_eq`);
  - the end tag of a name, in a copy of the text in lower case.  The copy has the offsets of the
    text itself, since only letters of ASCII change their case (`byteSize_lowered`).
-/

namespace Provenance

open Text (Cursor byteSize byteSize_append byteSize_cons octetAt? find? isTagBlank)
open Text.Cursor (Takes splitOn?)

namespace Text

/-! ## §1. Searching -/

/-- A mark stands in front, or is looked for behind the first character. -/
theorem splitOn?_mark_cons (mark x : Char) (r : List Char) :
    splitOn? [mark] (x :: r) =
      if x = mark then some ([], r)
      else (splitOn? [mark] r).map fun parts => (x :: parts.1, parts.2) := by
  by_cases hx : x = mark
  · rw [if_pos hx, hx, splitOn?, show mark :: r = [mark] ++ r from rfl, isPrefixOf?_append]
  · have hfront : [mark].isPrefixOf? (x :: r) = none := by
      rw [isPrefixOf?_eq_none_iff]
      rintro ⟨t, ht⟩
      exact hx (List.cons.inj ht).1.symm
    rw [if_neg hx, splitOn?, hfront]

theorem find?_mark_cons (mark x : Char) (r : List Char) :
    find? [mark] (x :: r) =
      if x = mark then some 0 else (find? [mark] r).map (x.utf8Size + ·) := by
  rw [find?, splitOn?_mark_cons]
  split
  · rfl
  · rw [find?, Option.map_map, Option.map_map]
    rfl

/-- A mark is looked for behind a text that does not hold it. -/
theorem splitOn?_mark_append {mark : Char} {a : List Char} (ha : mark ∉ a) (r : List Char) :
    splitOn? [mark] (a ++ r) = (splitOn? [mark] r).map fun parts => (a ++ parts.1, parts.2) := by
  induction a with
  | nil => simp
  | cons x a ih =>
    have hx : x ≠ mark := fun heq => ha (by rw [heq]; exact List.mem_cons_self)
    rw [List.cons_append, splitOn?_mark_cons, if_neg hx,
      ih (fun h => ha (List.mem_cons_of_mem _ h)), Option.map_map]
    rfl

theorem splitSemicolon?_eq (s : List Char) : splitSemicolon? s = splitOn? [';'] s := by
  induction s with
  | nil => rfl
  | cons x r ih => rw [splitSemicolon?, splitOn?_mark_cons, ih]

/-- The first octet that is a mark of ASCII stands where the mark does. -/
theorem findIdx?_octets {mark : Char} (hmark : mark.toNat < 128) (s : List Char) :
    (octets s).findIdx? (· = mark) = find? [mark] s := by
  induction s with
  | nil => rfl
  | cons x r ih =>
    rw [octets_cons, find?_mark_cons]
    by_cases hx : x = mark
    · rw [if_pos hx, hx, octetsOf_ascii hmark]
      simp [List.findIdx?_cons]
    · have hnone : (octetsOf x).findIdx? (· = mark) = none := by
        rw [List.findIdx?_eq_none_iff]
        intro y hy
        exact decide_eq_false fun heq => hx ((octet_eq_iff hmark hy).1 heq)
      rw [if_neg hx, List.findIdx?_append, hnone, Option.none_or, ih, length_octetsOf]
      simp only [Nat.add_comm]

/-- A pattern that a cursor finds is found by its offset, and what is in front of it can be
    cut out. -/
theorem Cursor.StandsIn.find {source : List Char} {c : Cursor} (h : c.StandsIn source)
    (pattern : List Char) :
    (∃ text d, c.takeUntil? pattern = some (text, d) ∧
      find? pattern c.rest = some (byteSize text) ∧
      slice? source c.offset (c.offset + byteSize text) = some text ∧
      d.offset = c.offset + byteSize text + byteSize pattern ∧ d.StandsIn source) ∨
    (c.takeUntil? pattern = none ∧ find? pattern c.rest = none) := by
  cases hs : splitOn? pattern c.rest with
  | none => exact .inr ⟨by rw [Cursor.takeUntil?, hs]; rfl, by rw [find?, hs]; rfl⟩
  | some parts =>
    obtain ⟨text, r⟩ := parts
    have hrest : c.rest = text ++ (pattern ++ r) := by
      rw [← List.append_assoc]
      exact Cursor.splitOn?_eq_some hs
    have hd : c.takeUntil? pattern = some (text, c.past (text ++ pattern) r) := by
      rw [Cursor.takeUntil?, hs]
      rfl
    refine .inl ⟨text, _, hd, by rw [find?, hs]; rfl, ?_, ?_,
      h.of_takes (Cursor.takes_takeUntil? hd)⟩
    · exact h.slice (Cursor.takes_past hrest)
    · show c.offset + byteSize (text ++ pattern) = _
      rw [byteSize_append]
      omega

/-! ## §2. References -/

/-- An ampersand is replaced with what follows it up to a semicolon, or stays. -/
theorem decodeReferences_ampersand (r : List Char) :
    decodeReferences ('&' :: r) =
      match (splitOn? [';'] r).bind fun parts =>
        (namedCharacter? parts.1).map fun c => (c, parts.2) with
      | some (c, rest) => c :: decodeReferences rest
      | none => '&' :: decodeReferences r := by
  rw [decodeReferences, if_pos rfl, ← splitSemicolon?_eq]
  split
  · next name rest hsplit =>
    simp only [hsplit, Option.bind_some]
    cases namedCharacter? name with
    | some c => rfl
    | none => rfl
  · next hsplit =>
    rw [hsplit]
    rfl

/-- Behind an ampersand the scanner finds the reference that is replaced, or none. -/
theorem referenceAt?_cases (r : List Char) :
    (∃ name rest c, r = name ++ ';' :: rest ∧
      referenceAt? ('&' :: r) = some (some (c, byteSize name + 2)) ∧
      decodeReferences ('&' :: r) = c :: decodeReferences rest) ∨
    (referenceAt? ('&' :: r) = some none ∧
      decodeReferences ('&' :: r) = '&' :: decodeReferences r) := by
  have hone : '&'.utf8Size = 1 := rfl
  rw [decodeReferences_ampersand, referenceAt?, find?_mark_cons, if_neg (by decide), find?, hone]
  cases hs : splitOn? [';'] r with
  | none => exact .inr ⟨rfl, rfl⟩
  | some parts =>
    obtain ⟨name, rest⟩ := parts
    have hr : r = name ++ ';' :: rest := by
      rw [Cursor.splitOn?_eq_some hs, List.append_assoc]
      rfl
    have hname : slice? ('&' :: r) 1 (1 + byteSize name) = some name := by
      have hcut := slice?_append ['&'] name (';' :: rest)
      rw [byteSize_append, ← hr] at hcut
      exact hcut
    simp only [Option.map_some, hname, Option.bind_eq_bind, Option.bind_some, Option.pure_def]
    cases hc : namedCharacter? name with
    | some c =>
      refine .inl ⟨name, rest, c, hr, ?_, rfl⟩
      rw [Option.map_some, show 1 + byteSize name + 1 = byteSize name + 2 by omega]
    | none => exact .inr ⟨rfl, rfl⟩

/-- Without an ampersand nothing is replaced. -/
theorem decodeReferences_append {a : List Char} (ha : '&' ∉ a) (r : List Char) :
    decodeReferences (a ++ r) = a ++ decodeReferences r := by
  induction a with
  | nil => rfl
  | cons x a ih =>
    have hx : x ≠ '&' := fun heq => ha (by rw [heq]; exact List.mem_cons_self)
    rw [List.cons_append, decodeReferences_cons_of_ne hx, ih fun h => ha (List.mem_cons_of_mem _ h)]
    rfl

/-- Every cut in decoding a value has a value, and the result is the decoded text. -/
theorem decodeBehind?_eq {n : Nat} {rest : List Char} (h : rest.length < n)
    (decoded : List Char) :
    decodeBehind? n decoded rest = some (decoded ++ decodeReferences rest) := by
  induction n generalizing decoded rest with
  | zero => cases h
  | succ n ih =>
    -- a round passes at least the ampersand that it finds
    rw [decodeBehind?, find?]
    cases hs : splitOn? ['&'] rest with
    | none =>
      have hmem : '&' ∉ rest := by
        intro hin
        obtain ⟨a, b, rfl⟩ := List.append_of_mem hin
        exact Cursor.splitOn?_eq_none_iff.1 hs ⟨a, b, by simp⟩
      have hall := decodeReferences_append hmem []
      rw [List.append_nil, decodeReferences, List.append_nil] at hall
      rw [hall]
      rfl
    | some parts =>
      obtain ⟨a, r⟩ := parts
      have ha : '&' ∉ a := Cursor.not_mem_of_splitOn? hs
      obtain rfl : rest = a ++ '&' :: r := by
        rw [Cursor.splitOn?_eq_some hs, List.append_assoc]
        rfl
      have hzero : (⟨0, a ++ '&' :: r⟩ : Cursor).StandsIn (a ++ '&' :: r) := ⟨[], rfl, rfl⟩
      have hpast : Takes ⟨0, a ++ '&' :: r⟩ a ⟨0 + byteSize a, '&' :: r⟩ := Cursor.takes_past rfl
      have hfront := hzero.slice hpast
      have htail := (hzero.of_takes hpast).sliceFrom
      simp only [Nat.zero_add] at hfront htail
      -- behind the ampersand a piece `w` of the tail is passed over
      have behind : ∀ {w rest' : List Char} (c : Char), '&' :: r = w ++ rest' → w ≠ [] →
          ((sliceFrom? ('&' :: r) (byteSize w)).bind fun rest =>
            decodeBehind? n (decoded ++ a ++ [c]) rest) =
          some (decoded ++ (a ++ c :: decodeReferences rest')) := by
        intro w rest' c hw hne
        have htail : (⟨0, '&' :: r⟩ : Cursor).StandsIn ('&' :: r) := ⟨[], rfl, rfl⟩
        have hcut := (htail.of_takes (Cursor.takes_past hw)).sliceFrom
        simp only [Cursor.past, Nat.zero_add] at hcut
        have hlen := congrArg List.length hw
        have hpos := List.length_pos_iff.2 hne
        rw [List.length_append] at hlen
        rw [List.length_append] at h
        rw [hcut, Option.bind_some, ih (by omega), List.append_assoc, List.append_assoc,
          List.singleton_append]
      rw [decodeReferences_append ha]
      simp only [Option.map_some, hfront, htail, Option.bind_eq_bind, Option.bind_some]
      rcases referenceAt?_cases r with ⟨name, rest', c, hr, hat, hdecode⟩ | ⟨hat, hdecode⟩
      · have hsize : byteSize ('&' :: name ++ [';']) = byteSize name + 2 := by
          rw [byteSize_append, byteSize_cons]
          show 1 + byteSize name + 1 = _
          omega
        rw [hat, hdecode, Option.bind_some, ← hsize]
        exact behind c (by rw [hr]; simp) (by simp)
      · rw [hat, hdecode, Option.bind_some]
        exact behind (w := ['&']) '&' rfl (by simp)

end Text

namespace Scanner

open Template (lowered splitBeforeClose? endsTagName)

/-! ## §3. End tags -/

theorem lowered_lowered (s : List Char) : lowered (lowered s) = lowered s := by
  have hchar : ∀ x : Char, x.toLower.toLower = x.toLower := by
    intro x
    rcases Text.toLower_cases x with hsame | ⟨hA, -, hlow⟩
    · rw [hsame, hsame]
    · rcases Text.toLower_cases x.toLower with hsame | ⟨-, hZ, -⟩
      · exact hsame
      · omega
  simp [lowered, hchar]

/-- The other case of a letter takes as much. -/
theorem utf8Size_toLower (x : Char) : x.toLower.utf8Size = x.utf8Size := by
  have small : ∀ z : Char, z.toNat < 128 → z.utf8Size = 1 := fun z hz => by
    rw [← Text.length_octetsOf, Text.octetsOf_ascii hz]
    rfl
  rcases Text.toLower_cases x with hsame | ⟨-, hZ, hlow⟩
  · rw [hsame]
  · rw [small x (by omega), small x.toLower (by omega)]

theorem byteSize_lowered (s : List Char) : byteSize (lowered s) = byteSize s := by
  induction s with
  | nil => rfl
  | cons x r ih =>
    show x.toLower.utf8Size + byteSize (lowered r) = _
    rw [utf8Size_toLower, ih, byteSize_cons]

/-- The characters of a pattern that is passed over are counted off one by one. -/
theorem splitBeforeClose?_skip (needle w v : List Char) :
    splitBeforeClose? needle w.length (w ++ v) =
      (splitBeforeClose? needle 0 v).map fun parts => (w ++ parts.1, parts.2) := by
  induction w with
  | nil => simp
  | cons x w ih =>
    rw [List.cons_append, List.length_cons, splitBeforeClose?, ih, Option.map_map]
    rfl

/-- Where the pattern stands in front it is found, unless a longer name stands there. -/
theorem splitBeforeClose?_front {w : List Char} (hne : w ≠ []) (v : List Char) :
    splitBeforeClose? (lowered w) 0 (w ++ v) =
      if endsTagName v then some ([], w ++ v)
      else (splitBeforeClose? (lowered w) 0 v).map fun parts => (w ++ parts.1, parts.2) := by
  have hfront : (lowered w).isPrefixOf (lowered (w ++ v)) = true := by
    rw [List.isPrefixOf_iff_prefix, Template.lowered_append]
    exact List.prefix_append _ _
  have hskip := splitBeforeClose?_skip (lowered w)
  cases w with
  | nil => exact absurd rfl hne
  | cons x w =>
    rw [List.cons_append] at hfront ⊢
    rw [splitBeforeClose?, if_pos hfront, Template.length_lowered, List.length_cons,
      Nat.add_sub_cancel, hskip w v, Option.map_map, List.drop_succ_cons, List.drop_left]
    rfl

/-- What stands in front of a pattern in lower case is passed over in looking for an end tag, and
    so is the pattern where a longer name stands. -/
theorem splitBeforeClose?_cases {needle : List Char} (hne : needle ≠ []) (b : List Char) :
    (splitOn? needle (lowered b) = none ∧ splitBeforeClose? needle 0 b = none) ∨
    ∃ u w v, b = u ++ (w ++ v) ∧ lowered w = needle ∧
      splitOn? needle (lowered b) = some (lowered u, lowered v) ∧
      splitBeforeClose? needle 0 b =
        if endsTagName v then some (u, w ++ v)
        else (splitBeforeClose? needle 0 v).map fun parts => (u ++ (w ++ parts.1), parts.2) := by
  induction b with
  | nil =>
    left
    cases needle with
    | nil => exact absurd rfl hne
    | cons p ps => exact ⟨rfl, rfl⟩
  | cons x r ih =>
    cases hp : needle.isPrefixOf? (lowered (x :: r)) with
    | some t =>
      have hsplit : splitOn? needle (lowered (x :: r)) = some ([], t) := by
        show splitOn? needle (x.toLower :: lowered r) = _
        rw [splitOn?, show x.toLower :: lowered r = lowered (x :: r) from rfl, hp]
      obtain ⟨w, v, hb, rfl, rfl⟩ := List.map_eq_append_iff.1 (Cursor.eq_append_of_isPrefixOf? hp)
      have hw : w ≠ [] := fun hnil => hne (by rw [hnil]; rfl)
      refine .inr ⟨[], w, v, hb, rfl, hsplit, ?_⟩
      rw [hb]
      exact splitBeforeClose?_front hw v
    | none =>
      have hfront : ¬ needle.isPrefixOf (lowered (x :: r)) = true := by
        rw [List.isPrefixOf_iff_prefix]
        exact Text.isPrefixOf?_eq_none_iff.1 hp
      have hsplit : splitOn? needle (lowered (x :: r)) =
          (splitOn? needle (lowered r)).map fun parts => (x.toLower :: parts.1, parts.2) := by
        show splitOn? needle (x.toLower :: lowered r) = _
        rw [splitOn?, show x.toLower :: lowered r = lowered (x :: r) from rfl, hp]
      rw [hsplit, splitBeforeClose?, if_neg hfront]
      rcases ih with ⟨hnone, hclose⟩ | ⟨u, w, v, hr, hw, hsome, hclose⟩
      · exact .inl ⟨by rw [hnone]; rfl, by rw [hclose]; rfl⟩
      · refine .inr ⟨x :: u, w, v, by rw [hr]; rfl, hw, by rw [hsome]; rfl, ?_⟩
        rw [hclose]
        split
        · rfl
        · rw [Option.map_map]
          rfl

/-- A name ends where no part of a name stands, in either case. -/
theorem endsTagName_lowered (v : List Char) :
    (lowered v).head?.all (fun x => x = '>' || x = '/' || isTagBlank x) = endsTagName v := by
  have hpart : ∀ x : Char, (decide (x = '>') || decide (x = '/') || isTagBlank x) =
      !Template.isTagNamePart x := by
    intro x
    unfold Template.isTagNamePart
    cases isTagBlank x <;> simp
  cases v with
  | nil => rfl
  | cons x v =>
    show (decide (x.toLower = '>') || decide (x.toLower = '/') || isTagBlank x.toLower) =
      (decide (x = '>') || decide (x = '/') || isTagBlank x)
    rw [hpart, hpart, Template.isTagNamePart_toLower]

/-- The scanner finds the end tag that comes next, in the copy in lower case. -/
theorem searchClose_eq {needle a b : List Char} (hne : needle ≠ []) {n : Nat} (h : b.length < n) :
    searchClose needle (lowered (a ++ b)) n (byteSize a) =
      some ((splitBeforeClose? needle 0 b).map fun parts => byteSize a + byteSize parts.1) := by
  induction n generalizing a b with
  | zero => cases h
  | succ n ih =>
    have hstands : (⟨byteSize a, lowered b⟩ : Cursor).StandsIn (lowered (a ++ b)) :=
      ⟨lowered a, Template.lowered_append a b, byteSize_lowered a⟩
    have hslice := hstands.sliceFrom
    rw [searchClose]
    simp only [hslice, Option.bind_eq_bind, Option.bind_some]
    rcases splitBeforeClose?_cases hne b with ⟨hnone, hclose⟩ | ⟨u, w, v, rfl, rfl, hsome, hclose⟩
    · simp only [find?, hnone, hclose, Option.map_none]
    · have hbehind : (⟨byteSize a + byteSize u + byteSize w, lowered v⟩ : Cursor).StandsIn
          (lowered (a ++ (u ++ (w ++ v)))) :=
        ⟨lowered (a ++ (u ++ w)), by simp [Template.lowered_append], by
          rw [byteSize_lowered, byteSize_append, byteSize_append, Nat.add_assoc]⟩
      have hends : (octetAt? (lowered (a ++ (u ++ (w ++ v))))
          (byteSize a + byteSize u + byteSize w)).all
          (fun x => x = '>' || x = '/' || isTagBlank x) = endsTagName v := by
        rw [hbehind.all_octetAt (((Text.isAsciiTest_eq (by decide)).or
          (Text.isAsciiTest_eq (by decide))).or Text.isAsciiTest_isTagBlank)]
        exact endsTagName_lowered v
      simp only [find?, hsome, hclose, Option.map_some, byteSize_lowered, hends]
      cases hv : endsTagName v with
      | true => simp
      | false =>
        -- a longer name stands here, so the search goes on behind the pattern
        have hlen : v.length < n := by
          have hpos := List.length_pos_iff.2 hne
          rw [Template.length_lowered] at hpos
          rw [List.length_append, List.length_append] at h
          omega
        have hrest := ih hlen (a := a ++ (u ++ w))
        simp only [List.append_assoc, byteSize_append, ← Nat.add_assoc] at hrest
        simp only [Bool.false_eq_true, if_false, hrest]
        simp only [Option.map_map, Function.comp_def, byteSize_append, Nat.add_assoc]

/-- The scanner finds the end tag of a name where the reader by cursors does. -/
theorem findCloseTag_eq {source : List Char} {c : Cursor} (h : c.StandsIn source)
    (name : List Char) :
    findCloseTag source name c.offset =
      some ((Template.findCloseTag? c name).map fun found => found.2.offset) := by
  have hneedle : '<' :: '/' :: lowered name ≠ [] := List.cons_ne_nil _ _
  have hsearch := searchClose_eq hneedle (a := []) (Nat.lt_succ_self c.rest.length)
  unfold findCloseTag Template.findCloseTag?
  simp only [List.nil_append, Text.byteSize_nil, Nat.zero_add] at hsearch
  simp only [h.sliceFrom, Text.rounds, hsearch, Option.bind_eq_bind, Option.bind_some,
    Option.pure_def, Option.map_map]
  rfl

end Scanner

end Provenance
