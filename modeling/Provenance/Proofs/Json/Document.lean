import Provenance.Json.Reader
import Provenance.Proofs.Json.Number

/-! # Documents by their text

  A reader of JSON that follows the grammar of the format and keeps what a text
  says: numbers by their text, and the members of an object in the order in which
  they stand, repeated keys included.

  What is written is read back (`Document.read?_write`).  Each part of the grammar
  is read in front of any text that does not continue it, so that the parts can be
  put together by recursion over the document.
-/

namespace Provenance.Json

/-! ## §1. Documents -/

/-- A document as its text gives it. -/
inductive Document where
  | null
  | bool (value : Bool)
  /-- A number, by its text. -/
  | number (text : List Char)
  | string (value : String)
  | array (items : List Document)
  | object (members : List (String × Document))
deriving Inhabited

mutual

/-- What the text of a value gives. -/
def document : Json → Document
  | .null => .null
  | .bool value => .bool value
  | .number value => .number value.write
  | .string value => .string value
  | .array items => .array (documents items)
  | .object members => .object (memberDocuments members)

/-- What the texts of the items of an array give. -/
def documents : List Json → List Document
  | [] => []
  | item :: rest => document item :: documents rest

/-- What the texts of the members of an object give. -/
def memberDocuments : List (String × Json) → List (String × Document)
  | [] => []
  | (key, value) :: rest => (key, document value) :: memberDocuments rest

end

namespace Document

mutual

/-- No object of the document has two members of one key. -/
def HasDistinctKeys : Document → Prop
  | .null | .bool _ | .number _ | .string _ => True
  | .array items => ItemsDistinct items
  | .object members => (members.map (·.1)).Nodup ∧ MembersDistinct members

/-- No object in the items has two members of one key. -/
def ItemsDistinct : List Document → Prop
  | [] => True
  | item :: rest => HasDistinctKeys item ∧ ItemsDistinct rest

/-- No object in the values of the members has two members of one key. -/
def MembersDistinct : List (String × Document) → Prop
  | [] => True
  | (_, value) :: rest => HasDistinctKeys value ∧ MembersDistinct rest

end

/-! ## §2. The reader -/

/-- The text behind blanks. -/
def skipBlanks (s : List Char) : List Char := s.dropWhile Reader.isJsonBlank

/-- The text behind a word. -/
def word? (word s : List Char) : Option (List Char) :=
  if word.isPrefixOf s then some (s.drop word.length) else none

/-- The number of four hexadecimal digits. -/
def codeUnit? : List Char → Option (Nat × List Char)
  | a :: b :: c :: d :: r => do
    let digits ← [a, b, c, d].mapM Reader.hexValue?
    some (digits.foldl (fun n digit => 16 * n + digit) 0, r)
  | _ => none

/-- The character of an escape by its code units, of which there are two beyond
    the basic plane. -/
def codeEscape? (s : List Char) : Option (Char × List Char) := do
  let (unit, s) ← codeUnit? s
  if unit < 0xD800 ∨ 0xDFFF < unit then some (Char.ofNat unit, s)
  else if 0xDC00 ≤ unit then none
  else
    let (low, s) ← codeUnit? (← word? ['\\', 'u'] s)
    if 0xDC00 ≤ low ∧ low ≤ 0xDFFF then
      some (Char.ofNat (0x10000 + (unit - 0xD800) * 0x400 + (low - 0xDC00)), s)
    else none

/-- The character of an escape, whose backslash is read. -/
def escape? : List Char → Option (Char × List Char)
  | [] => none
  | c :: r =>
    if c = 'u' then codeEscape? r
    else
      let named := [('"', '"'), ('\\', '\\'), ('/', '/'), ('b', '\x08'), ('f', '\x0c'),
        ('n', '\n'), ('r', '\r'), ('t', '\t')]
      (named.find? fun escape => escape.1 = c).map fun escape => (escape.2, r)

/-- The characters of a string up to its closing quote. -/
def characters? : Nat → List Char → Option (List Char × List Char)
  | 0, _ => none
  | _ + 1, [] => none
  | fuel + 1, c :: r =>
    if c = '"' then some ([], r)
    else if c = '\\' then do
      let (c, r) ← escape? r
      let (more, r) ← characters? fuel r
      some (c :: more, r)
    else if c.toNat < 0x20 then none
    else do
      let (more, r) ← characters? fuel r
      some (c :: more, r)

/-- A string whose opening quote is read. -/
def string? (s : List Char) : Option (String × List Char) :=
  (characters? (s.length + 1) s).map fun (characters, r) => (String.ofList characters, r)

mutual

/-- A value.  Each step of the recursion reads a character, so the length of a
    text bounds how deep it goes. -/
def value? : Nat → List Char → Option (Document × List Char)
  | 0, _ => none
  | fuel + 1, s =>
    match skipBlanks s with
    | [] => none
    | c :: r =>
      if c = 'n' then (word? ['u', 'l', 'l'] r).map (.null, ·)
      else if c = 't' then (word? ['r', 'u', 'e'] r).map (.bool true, ·)
      else if c = 'f' then (word? ['a', 'l', 's', 'e'] r).map (.bool false, ·)
      else if c = '"' then (string? r).map fun (text, r) => (.string text, r)
      else if c = '[' then
        match word? [']'] (skipBlanks r) with
        | some r => some (.array [], r)
        | none => (items? fuel r).map fun (items, r) => (.array items, r)
      else if c = '{' then
        match word? ['}'] (skipBlanks r) with
        | some r => some (.object [], r)
        | none => (members? fuel r).map fun (members, r) => (.object members, r)
      else (number? (c :: r)).map fun (text, r) => (.number text, r)

/-- One or more items up to the end of their array. -/
def items? : Nat → List Char → Option (List Document × List Char)
  | 0, _ => none
  | fuel + 1, s => do
    let (item, s) ← value? fuel s
    match skipBlanks s with
    | ',' :: r => (items? fuel r).map fun (items, r) => (item :: items, r)
    | ']' :: r => some ([item], r)
    | _ => none

/-- One or more members up to the end of their object. -/
def members? : Nat → List Char → Option (List (String × Document) × List Char)
  | 0, _ => none
  | fuel + 1, s => do
    let (key, s) ← string? (← word? ['"'] (skipBlanks s))
    let (value, s) ← value? fuel (← word? [':'] (skipBlanks s))
    match skipBlanks s with
    | ',' :: r => (members? fuel r).map fun (members, r) => ((key, value) :: members, r)
    | '}' :: r => some ([(key, value)], r)
    | _ => none

end

/-- The document of a text that holds one and nothing else. -/
def read? (s : List Char) : Option Document := do
  let (document, s) ← value? (s.length + 1) s
  if skipBlanks s = [] then some document else none

/-! ## §3. Strings -/

theorem word?_append (word s : List Char) : word? word (word ++ s) = some s := by
  simp [word?]

theorem word?_cons_of_ne {c d : Char} (h : c ≠ d) (s : List Char) : word? [c] (d :: s) = none := by
  simp [word?, List.isPrefixOf, h]

theorem skipBlanks_cons {c : Char} (h : Reader.isJsonBlank c = false) (s : List Char) :
    skipBlanks (c :: s) = c :: s := by
  rw [skipBlanks, List.dropWhile_cons_of_neg (by rw [h]; decide)]

theorem hexValue?_digitChar : ∀ n, n < 16 → Reader.hexValue? (Nat.digitChar n) = some n := by
  decide

theorem codeUnit?_lowerHex {n : Nat} (h : n < 0x10000) (s : List Char) :
    codeUnit? (lowerHex 4 n ++ s) = some (n, s) := by
  have hdigit : ∀ k, Reader.hexValue? (Nat.digitChar (k % 16)) = some (k % 16) :=
    fun k => hexValue?_digitChar _ (Nat.mod_lt k (by decide))
  have hsum : 16 * (16 * (16 * (16 * 0 + n / 16 / 16 / 16 % 16) + n / 16 / 16 % 16) +
      n / 16 % 16) + n % 16 = n := by omega
  simp only [lowerHex, List.nil_append, List.cons_append, codeUnit?, List.mapM_cons, hdigit,
    List.mapM_nil, Option.pure_def, Option.bind_eq_bind, Option.bind_some, List.foldl_cons,
    List.foldl_nil, hsum]

/-- The escape of a control character is read as that character. -/
theorem escape?_lowerHex {c : Char} (h : c.toNat < 0x20) (s : List Char) :
    escape? ('u' :: (lowerHex 4 c.toNat ++ s)) = some (c, s) := by
  have hunit : c.toNat < 0xD800 ∨ 0xDFFF < c.toNat := .inl (by omega)
  simp only [escape?, if_true, codeEscape?, codeUnit?_lowerHex (show c.toNat < 0x10000 by omega),
    Option.bind_eq_bind, Option.bind_some, if_pos hunit, Char.ofNat_toNat]

/-- A character of a string is read back, whatever follows. -/
theorem characters?_escapeCharacter (c : Char) (fuel : Nat) (s : List Char) :
    characters? (fuel + 1) (Json.escapeCharacter c ++ s) =
      (characters? fuel s).map fun (more, r) => (c :: more, r) := by
  have hescaped : ∀ {escape}, escape? escape = some (c, s) →
      characters? (fuel + 1) ('\\' :: escape) =
        (characters? fuel s).map fun (more, r) => (c :: more, r) := by
    intro escape hread
    rw [characters?, if_neg (by decide), if_pos rfl, hread]
    show ((characters? fuel s).bind fun (more, r) => some (c :: more, r)) = _
    cases characters? fuel s <;> rfl
  unfold Json.escapeCharacter
  -- one case for each escape by name, one by code, one for a character as itself
  split
  · next h => subst h; exact hescaped rfl
  split
  · next h => subst h; exact hescaped rfl
  split
  · next h => subst h; exact hescaped rfl
  split
  · next h => subst h; exact hescaped rfl
  split
  · next h => subst h; exact hescaped rfl
  split
  · next h => subst h; exact hescaped rfl
  split
  · next h => subst h; exact hescaped rfl
  split
  · next h => exact hescaped (escape?_lowerHex h s)
  · next hquote hbackslash _ _ _ _ _ hcontrol =>
    rw [List.singleton_append, characters?, if_neg hquote, if_neg hbackslash, if_neg hcontrol]
    cases characters? fuel s <;> rfl

theorem characters?_quote {characters s : List Char} {fuel : Nat}
    (h : characters.length < fuel) :
    characters? fuel (characters.flatMap Json.escapeCharacter ++ '"' :: s) =
      some (characters, s) := by
  induction characters generalizing fuel with
  | nil =>
    obtain ⟨fuel, rfl⟩ := Nat.exists_eq_add_one_of_ne_zero (Nat.ne_of_gt h)
    rfl
  | cons c characters ih =>
    obtain ⟨fuel, rfl⟩ := Nat.exists_eq_add_one_of_ne_zero (Nat.ne_of_gt (Nat.zero_lt_of_lt h))
    rw [List.flatMap_cons, List.append_assoc, characters?_escapeCharacter,
      ih (Nat.lt_of_succ_lt_succ h)]
    rfl

theorem length_escapeCharacter_pos (c : Char) : 0 < (Json.escapeCharacter c).length := by
  unfold Json.escapeCharacter
  repeat' split
  all_goals exact Nat.succ_pos _

theorem length_le_length_escaped (characters : List Char) :
    characters.length ≤ (characters.flatMap Json.escapeCharacter).length := by
  induction characters with
  | nil => exact Nat.le_refl 0
  | cons c characters ih =>
    have hc := length_escapeCharacter_pos c
    rw [List.flatMap_cons, List.length_append, List.length_cons]
    omega

/-- A string in quotes is read back, whatever follows. -/
theorem string?_quote (text : String) (s : List Char) :
    string? (text.toList.flatMap Json.escapeCharacter ++ '"' :: s) = some (text, s) := by
  have hfuel : text.toList.length <
      (text.toList.flatMap Json.escapeCharacter ++ '"' :: s).length + 1 := by
    have hle := length_le_length_escaped text.toList
    rw [List.length_append]
    omega
  rw [string?, characters?_quote hfuel]
  simp only [Option.map_some, String.ofList_toList]

/-! ## §4. Values -/

/-- What follows a value inside a document: nothing that a number could go on with. -/
theorem endsNumber_cons {c : Char} (h : c = ',' ∨ c = ']' ∨ c = '}') (s : List Char) :
    EndsNumber (c :: s) := by
  intro d r heq
  obtain ⟨rfl, -⟩ := List.cons.inj heq
  rcases h with rfl | rfl | rfl <;> decide

theorem endsNumber_nil : EndsNumber [] := fun _ _ h => nomatch h

/-- A value does not begin with a blank or with the end of an array. -/
theorem exists_write_eq_cons (value : Json) :
    ∃ c r, value.write = c :: r ∧ Reader.isJsonBlank c = false ∧ c ≠ ']' := by
  cases value with
  | null => exact ⟨'n', _, rfl, by decide⟩
  | bool value => cases value <;> exact ⟨_, _, rfl, by decide⟩
  | string value => exact ⟨'"', _, rfl, by decide⟩
  | array items => exact ⟨'[', _, rfl, by decide⟩
  | object members => exact ⟨'{', _, rfl, by decide⟩
  | number value =>
    obtain ⟨c, r, htext, hc⟩ := (isNumber_write value).eq_cons
    refine ⟨c, r, htext, ?_⟩
    rcases hc with rfl | hc
    · decide
    · have hne : ∀ d, d.isDigit = false → c ≠ d := by
        rintro d hd rfl
        rw [hc] at hd
        exact absurd hd (by decide)
      have hblank : Reader.isJsonBlank c = false := by
        simp [Reader.isJsonBlank, hne ' ' (by decide), hne '\n' (by decide),
          hne '\t' (by decide), hne '\r' (by decide)]
      exact ⟨hblank, hne ']' (by decide)⟩

/-- A text that begins with a sign or a digit is read as a number. -/
theorem value?_of_number {c : Char} (hc : c = '-' ∨ c.isDigit = true) (fuel : Nat)
    (s : List Char) :
    value? (fuel + 1) (c :: s) = (number? (c :: s)).map fun (text, r) => (.number text, r) := by
  have hne : ∀ d, d ≠ '-' → d.isDigit = false → c ≠ d := by
    rintro d hd hdigit rfl
    rcases hc with hc | hc
    · exact hd hc
    · rw [hc] at hdigit
      exact absurd hdigit (by decide)
  have hblank : Reader.isJsonBlank c = false := by
    simp [Reader.isJsonBlank, hne ' ' (by decide) (by decide), hne '\n' (by decide) (by decide),
      hne '\t' (by decide) (by decide), hne '\r' (by decide) (by decide)]
  simp only [value?, skipBlanks_cons hblank, if_neg (hne 'n' (by decide) (by decide)),
    if_neg (hne 't' (by decide) (by decide)), if_neg (hne 'f' (by decide) (by decide)),
    if_neg (hne '"' (by decide) (by decide)), if_neg (hne '[' (by decide) (by decide)),
    if_neg (hne '{' (by decide) (by decide))]

theorem exists_items_eq_cons (item : Json) (rest : List Json) :
    ∃ c r, commaSeparated (writeItems (item :: rest)) = c :: r ∧
      Reader.isJsonBlank c = false ∧ c ≠ ']' := by
  obtain ⟨c, r, htext, hc⟩ := exists_write_eq_cons item
  cases rest with
  | nil => exact ⟨c, r, htext, hc⟩
  | cons next rest =>
    refine ⟨c, r ++ ',' :: commaSeparated (writeItems (next :: rest)), ?_, hc⟩
    simp only [writeItems, commaSeparated, htext, List.cons_append]

theorem exists_members_eq_cons (member : String × Json) (rest : List (String × Json)) :
    ∃ r, commaSeparated (writeMembers (member :: rest)) = '"' :: r := by
  obtain ⟨key, value⟩ := member
  cases rest with
  | nil => exact ⟨_, rfl⟩
  | cons next rest => exact ⟨_, rfl⟩

section

variable {fuel : Nat} {text s : List Char}

theorem value?_array {items : List Document} {c : Char} (hblank : Reader.isJsonBlank c = false)
    (hc : c ≠ ']') (h : items? fuel (c :: text) = some (items, s)) :
    value? (fuel + 1) ('[' :: c :: text) = some (.array items, s) := by
  rw [value?, skipBlanks_cons (by decide)]
  simp only [skipBlanks_cons hblank, word?_cons_of_ne hc.symm, h]
  rfl

theorem value?_object {members : List (String × Document)}
    (h : members? fuel ('"' :: text) = some (members, s)) :
    value? (fuel + 1) ('{' :: '"' :: text) = some (.object members, s) := by
  rw [value?, skipBlanks_cons (by decide)]
  simp only [skipBlanks_cons (show Reader.isJsonBlank '"' = false by decide),
    word?_cons_of_ne (show '}' ≠ '"' by decide), h]
  rfl

theorem items?_last {item : Document} (h : value? fuel text = some (item, ']' :: s)) :
    items? (fuel + 1) text = some ([item], s) := by
  rw [items?, h]
  rfl

theorem items?_next {item : Document} {items : List Document} {rest : List Char}
    (h : value? fuel text = some (item, ',' :: rest)) (hrest : items? fuel rest = some (items, s)) :
    items? (fuel + 1) text = some (item :: items, s) := by
  rw [items?, h]
  show (items? fuel rest).map _ = _
  rw [hrest]
  rfl

/-- The key of a member is read, and its value comes next. -/
theorem members?_key (key : String) :
    members? (fuel + 1) (quote key ++ ':' :: text) =
      (value? fuel text).bind fun (value, s) =>
        match skipBlanks s with
        | ',' :: r => (members? fuel r).map fun (members, r) => ((key, value) :: members, r)
        | '}' :: r => some ([(key, value)], r)
        | _ => none := by
  have hread := string?_quote key (':' :: text)
  have hquote : word? ['"'] ('"' :: (key.toList.flatMap Json.escapeCharacter ++ '"' :: ':' :: text))
      = some (key.toList.flatMap Json.escapeCharacter ++ '"' :: ':' :: text) := word?_append ['"'] _
  have hcolon : word? [':'] (':' :: text) = some text := word?_append [':'] text
  simp only [quote, List.cons_append, List.append_assoc, List.nil_append, members?,
    skipBlanks_cons (show Reader.isJsonBlank '"' = false by decide),
    skipBlanks_cons (show Reader.isJsonBlank ':' = false by decide), hquote, hread, hcolon,
    Option.bind_eq_bind, Option.bind_some]

theorem members?_last {key : String} {value : Document}
    (h : value? fuel text = some (value, '}' :: s)) :
    members? (fuel + 1) (quote key ++ ':' :: text) = some ([(key, value)], s) := by
  rw [members?_key, h]
  rfl

theorem members?_next {key : String} {value : Document} {members : List (String × Document)}
    {rest : List Char} (h : value? fuel text = some (value, ',' :: rest))
    (hrest : members? fuel rest = some (members, s)) :
    members? (fuel + 1) (quote key ++ ':' :: text) = some ((key, value) :: members, s) := by
  rw [members?_key, h]
  show (members? fuel rest).map _ = _
  rw [hrest]
  rfl

end

/-- The texts of items, one behind the other. -/
theorem commaSeparated_cons (text next : List Char) (rest : List (List Char)) :
    commaSeparated (text :: next :: rest) = text ++ ',' :: commaSeparated (next :: rest) := rfl

theorem commaSeparated_writeMembers (key : String) (value : Json) (next : String × Json)
    (rest : List (String × Json)) :
    commaSeparated (writeMembers ((key, value) :: next :: rest)) =
      quote key ++ ':' :: (value.write ++ ',' :: commaSeparated (writeMembers (next :: rest))) := by
  obtain ⟨nextKey, nextValue⟩ := next
  simp only [writeMembers, commaSeparated_cons, List.append_assoc, List.cons_append]

mutual

/-- A value is read back in front of anything that does not go on with it. -/
theorem value?_write : ∀ (value : Json) {fuel : Nat} {s : List Char},
    value.write.length < fuel → EndsNumber s →
      value? fuel (value.write ++ s) = some (document value, s)
  | _, 0, _, hfuel, _ => absurd hfuel (Nat.not_lt_zero _)
  | .null, _ + 1, _, _, _ => rfl
  | .bool true, _ + 1, _, _, _ => rfl
  | .bool false, _ + 1, _, _, _ => rfl
  | .number value, fuel + 1, s, _, hs => by
    have hnumber := isNumber_write value
    obtain ⟨c, r, htext, hc⟩ := hnumber.eq_cons
    have hread := number?_append hnumber hs
    rw [htext] at hread
    simp only [Json.write, htext, List.cons_append] at hread ⊢
    rw [value?_of_number hc, hread, document, htext]
    rfl
  | .string text, fuel + 1, s, _, _ => by
    have hread := string?_quote text s
    simp only [Json.write, quote, List.cons_append, List.append_assoc, List.nil_append]
    rw [value?, skipBlanks_cons (by decide)]
    simp [hread, document]
  | .array [], _ + 1, _, _, _ => rfl
  | .array (item :: rest), fuel + 1, s, hfuel, _ => by
    have hlt : (commaSeparated (writeItems (item :: rest))).length + 1 < fuel := by
      simp only [Json.write, List.length_cons, List.length_append, List.length_nil] at hfuel
      omega
    have hread := items?_write item rest (s := s) hlt
    obtain ⟨c, r, htext, hblank, hc⟩ := exists_items_eq_cons item rest
    rw [htext] at hread
    simp only [Json.write, htext, List.cons_append, List.append_assoc, List.nil_append]
    exact value?_array hblank hc hread
  | .object [], _ + 1, _, _, _ => rfl
  | .object (member :: rest), fuel + 1, s, hfuel, _ => by
    have hlt : (commaSeparated (writeMembers (member :: rest))).length + 1 < fuel := by
      simp only [Json.write, List.length_cons, List.length_append, List.length_nil] at hfuel
      omega
    have hread := members?_write member rest (s := s) hlt
    obtain ⟨r, htext⟩ := exists_members_eq_cons member rest
    rw [htext] at hread
    simp only [Json.write, htext, List.cons_append, List.append_assoc, List.nil_append]
    exact value?_object hread

/-- Items are read back up to the end of their array. -/
theorem items?_write : ∀ (item : Json) (rest : List Json) {fuel : Nat} {s : List Char},
    (commaSeparated (writeItems (item :: rest))).length + 1 < fuel →
      items? fuel (commaSeparated (writeItems (item :: rest)) ++ ']' :: s) =
        some (documents (item :: rest), s)
  | _, _, 0, _, hfuel => absurd hfuel (Nat.not_lt_zero _)
  | item, [], fuel + 1, s, hfuel => by
    have hlt : item.write.length < fuel := by
      simp only [writeItems, commaSeparated] at hfuel
      omega
    exact items?_last (value?_write item hlt (endsNumber_cons (.inr (.inl rfl)) s))
  | item, next :: rest, fuel + 1, s, hfuel => by
    simp only [writeItems, commaSeparated_cons, List.length_append, List.length_cons] at hfuel
    have hlt : (commaSeparated (writeItems (next :: rest))).length + 1 < fuel := by
      simp only [writeItems]
      omega
    have hlt' : item.write.length < fuel := by omega
    have hrest := items?_write next rest (s := s) hlt
    have hitem := value?_write item hlt'
      (endsNumber_cons (.inl rfl) (commaSeparated (writeItems (next :: rest)) ++ ']' :: s))
    simp only [writeItems, commaSeparated_cons, List.append_assoc, List.cons_append] at hitem ⊢
    exact items?_next hitem hrest

/-- Members are read back up to the end of their object. -/
theorem members?_write : ∀ (member : String × Json) (rest : List (String × Json)) {fuel : Nat}
    {s : List Char}, (commaSeparated (writeMembers (member :: rest))).length + 1 < fuel →
      members? fuel (commaSeparated (writeMembers (member :: rest)) ++ '}' :: s) =
        some (memberDocuments (member :: rest), s)
  | _, _, 0, _, hfuel => absurd hfuel (Nat.not_lt_zero _)
  | (key, value), [], fuel + 1, s, hfuel => by
    simp only [writeMembers, commaSeparated, List.length_append, List.length_cons] at hfuel
    have hlt : value.write.length < fuel := by omega
    have hvalue := value?_write value hlt (endsNumber_cons (.inr (.inr rfl)) s)
    simp only [writeMembers, commaSeparated, List.append_assoc, List.cons_append]
    exact members?_last hvalue
  | (key, value), next :: rest, fuel + 1, s, hfuel => by
    simp only [commaSeparated_writeMembers, List.length_append, List.length_cons] at hfuel
    have hlt : (commaSeparated (writeMembers (next :: rest))).length + 1 < fuel := by omega
    have hlt' : value.write.length < fuel := by omega
    have hrest := members?_write next rest (s := s) hlt
    have hvalue := value?_write value hlt'
      (endsNumber_cons (.inl rfl) (commaSeparated (writeMembers (next :: rest)) ++ '}' :: s))
    simp only [commaSeparated_writeMembers, List.append_assoc, List.cons_append] at hvalue ⊢
    exact members?_next hvalue hrest

end

/-- A document is read back from its text. -/
theorem read?_write (value : Json) : read? value.write = some (document value) := by
  have h := value?_write value (Nat.lt_succ_self _) endsNumber_nil
  rw [List.append_nil] at h
  rw [read?, h]
  rfl

/-- A comma has to be followed by another item. -/
example : read? ['[', '1', ',', ']'] = none := rfl

end Document

end Provenance.Json
