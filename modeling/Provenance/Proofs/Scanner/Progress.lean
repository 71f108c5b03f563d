import Provenance.Proofs.Scanner.Content

/-! # The scanner advances

  What the scanner does is followed from call to call and from turn to turn of its loops, in
  the order of its tests:

  - A loop takes its next turn at another offset (`Turn`), a reader is called (`Calls`), and
    an element is read inside the children around it, which is the recursion (`Nests`).
  - A run leads through these steps (`Leads`), and counts how deep the recursion has gone.

  No loop counts down, and two of the readers may stop where they are: a text at a tag, an
  attribute at the end of its tag.  What carries the argument is that each reader is called
  only where its callers have ruled this out (`Task.Fits`), and this is kept by every step.

  Main statement: whatever a run of the scanner comes to lies in the text, every call that
  returns has advanced, and so does every turn of a loop; the recursion is no deeper than the
  text that remains is long, and reading ends for every text (`leads_advances`).
-/

namespace Provenance

open Text (Cursor byteSize byteSize_append IsBoundary octetAt? skipOctets sliceFrom? isTagBlank
  rounds startsWith?)

/-- Of two cursors in a text the one with less behind it stands further on. -/
theorem Text.Cursor.StandsIn.offset_lt {source : List Char} {c d : Cursor}
    (hc : c.StandsIn source) (hd : d.StandsIn source) (h : d.rest.length < c.rest.length) :
    c.offset < d.offset := by
  obtain ⟨f, hf, hsize⟩ := hc
  obtain ⟨g, hg, hsize'⟩ := hd
  have hlen := congrArg List.length (hf.symm.trans hg)
  rw [List.length_append, List.length_append] at hlen
  obtain ⟨m, rfl⟩ : f <+: g :=
    List.prefix_of_prefix_length_le ⟨c.rest, hf.symm⟩ ⟨d.rest, hg.symm⟩ (by omega)
  have hm : m ≠ [] := by
    rintro rfl
    rw [List.append_nil] at hlen
    omega
  have hpos := Text.byteSize_pos hm
  rw [byteSize_append] at hsize'
  omega

theorem Text.Cursor.StandsIn.offset_le {source : List Char} {c d : Cursor}
    (hc : c.StandsIn source) (hd : d.StandsIn source) (h : d.rest.length ≤ c.rest.length) :
    c.offset ≤ d.offset := by
  rcases Nat.lt_or_eq_of_le h with hlt | heq
  · exact Nat.le_of_lt (hc.offset_lt hd hlt)
  · obtain ⟨f, hf, hsize⟩ := hc
    obtain ⟨g, hg, hsize'⟩ := hd
    obtain ⟨rfl, -⟩ := List.append_inj' (hf.symm.trans hg) heq.symm
    omega

namespace Scanner

open Template (Component OpenTag Entry Node Outcome Error lowered isTagNamePart startsComment
  startsCloseTag startsDeclaration startsOpenTag ReadsTag)

/-! ## §1. What the scanner does -/

/-- What stands at an offset, as far as the scanner tells it apart between two parts of a
    component and between two children. -/
inductive Sight where
  | comment | closeTag | declaration | openTag | other
deriving DecidableEq, Repr

/-- What the scanner does: it takes a turn of a loop, or a reader is called. -/
inductive Task where
  /-- A turn of the loop over the parts, with the component that was read so far. -/
  | parts (component : Component)
  /-- A turn of the loop over the children of an element or of the block. -/
  | children
  /-- A turn of the loop over the characters of a text. -/
  | characters
  /-- A turn of the loop over what stands behind the name of a start tag. -/
  | tagBody
  | openTag | entry | closeTag | comment | declaration | text
  /-- Reading what stands behind the start tag of an element. -/
  | element (tag : OpenTag)

/-- Whether a task is a loop that looks for comments, declarations and tags. -/
def Task.looks : Task → Bool
  | .parts _ | .children => true
  | _ => false

/-- Whether a task is to read an element. -/
def Task.isElement : Task → Bool
  | .element _ => true
  | _ => false

/-- A task at the offset at which it is taken up. -/
structure State where
  task : Task
  offset : Nat

section Steps

variable (s : List Char)

/-- The tests in their order. -/
def sight? (o : Nat) : Option Sight := do
  if ← startsWith? ['<', '!', '-', '-'] s o then return .comment
  else if ← atCloseTag s o then return .closeTag
  else if ← startsWith? ['<', '!'] s o then return .declaration
  else if atOpenTag s o then return .openTag
  else return .other

/-- Reading what stands behind the start tag of an element, with rounds for all its children. -/
def readElementWhole (tag : OpenTag) (o : Nat) : Option (Reading Node) :=
  readElement s (fun parent o => readChildren s (rounds s) parent [] o) tag o

/-- A loop takes its next turn. -/
inductive Turn : State → State → Prop where
  | comment {t : Task} {o p : Nat} {content : List Char} (ht : t.looks = true)
    (ho : o < byteSize s) (h : sight? s o = some .comment)
    (hp : readComment s o = some (.ok (content, p))) : Turn ⟨t, o⟩ ⟨t, p⟩
  | declaration {t : Task} {o p : Nat} (ht : t.looks = true) (ho : o < byteSize s)
    (h : sight? s o = some .declaration) (hp : readDeclaration s o = some (.ok ((), p))) :
    Turn ⟨t, o⟩ ⟨t, p⟩
  | element {o m p : Nat} {tag : OpenTag} {node : Node} (ho : o < byteSize s)
    (h : sight? s o = some .openTag) (hm : readOpenTag s o = some (.ok (tag, m)))
    (hp : readElementWhole s tag m = some (.ok (node, p))) : Turn ⟨.children, o⟩ ⟨.children, p⟩
  | text {o p : Nat} {nodes nodes' : List Node} (ho : o < byteSize s)
    (h : sight? s o = some .other)
    (hp : readText s (rounds s) nodes o o = some (nodes', p)) : Turn ⟨.children, o⟩ ⟨.children, p⟩
  | block {k k' : Component} {o m p : Nat} {tag : OpenTag} (ho : o < byteSize s)
    (h : sight? s o = some .openTag) (hm : readOpenTag s o = some (.ok (tag, m)))
    (hp : readBlock s k tag m = some (.ok (k', p))) : Turn ⟨.parts k, o⟩ ⟨.parts k', p⟩
  | between {k : Component} {o : Nat} {rest : List Char} (ho : o < byteSize s)
    (h : sight? s o = some .other) (hr : sliceFrom? s o = some rest) :
    Turn ⟨.parts k, o⟩ ⟨.parts k, o + rest.head?.elim 1 Char.utf8Size⟩
  | interpolation {o n : Nat} (ho : o < byteSize s) (h : interpolationAt s o = some (some n)) :
    Turn ⟨.characters, o⟩ ⟨.characters, o + 2 + n + 2⟩
  | character {o : Nat} {rest : List Char} (ho : o < byteSize s)
    (h : interpolationAt s o = some none) (hmark : atMarkup s o = some false)
    (hr : sliceFrom? s o = some rest) :
    Turn ⟨.characters, o⟩ ⟨.characters, o + rest.head?.elim 1 Char.utf8Size⟩
  | slash {o : Nat} (h : octetAt? s (skipOctets isTagBlank s o) = some '/')
    (hr : octetAt? s (skipOctets isTagBlank s o + 1) ≠ some '>') :
    Turn ⟨.tagBody, o⟩ ⟨.tagBody, skipOctets isTagBlank s o + 1⟩
  | entry {o p : Nat} {x : Char} {e : Entry} (h : octetAt? s (skipOctets isTagBlank s o) = some x)
    (hx : x ≠ '>' ∧ x ≠ '/') (hp : readEntry s (skipOctets isTagBlank s o) = some (.ok (e, p))) :
    Turn ⟨.tagBody, o⟩ ⟨.tagBody, p⟩

/-- A reader is called, or a reader takes the first turn of its loop. -/
inductive Calls : State → State → Prop where
  | comment {t : Task} {o : Nat} (ht : t.looks = true) (ho : o < byteSize s)
    (h : sight? s o = some .comment) : Calls ⟨t, o⟩ ⟨.comment, o⟩
  | closeTag {t : Task} {o : Nat} (ht : t.looks = true) (ho : o < byteSize s)
    (h : sight? s o = some .closeTag) : Calls ⟨t, o⟩ ⟨.closeTag, o⟩
  | declaration {t : Task} {o : Nat} (ht : t.looks = true) (ho : o < byteSize s)
    (h : sight? s o = some .declaration) : Calls ⟨t, o⟩ ⟨.declaration, o⟩
  | openTag {t : Task} {o : Nat} (ht : t.looks = true) (ho : o < byteSize s)
    (h : sight? s o = some .openTag) : Calls ⟨t, o⟩ ⟨.openTag, o⟩
  | text {o : Nat} (ho : o < byteSize s) (h : sight? s o = some .other) :
    Calls ⟨.children, o⟩ ⟨.text, o⟩
  | characters {o : Nat} : Calls ⟨.text, o⟩ ⟨.characters, o⟩
  | tagBody {o : Nat} : Calls ⟨.openTag, o⟩ ⟨.tagBody, skipOctets isTagNamePart s (o + 1)⟩
  | entry {o : Nat} {x : Char} (h : octetAt? s (skipOctets isTagBlank s o) = some x)
    (hx : x ≠ '>' ∧ x ≠ '/') : Calls ⟨.tagBody, o⟩ ⟨.entry, skipOctets isTagBlank s o⟩
  | children {o : Nat} {tag : OpenTag} (hleaf : tag.isLeaf = false)
    (hraw : tag.isRawText = false) : Calls ⟨.element tag, o⟩ ⟨.children, o⟩
  | rawClose {o p : Nat} {tag : OpenTag} (hraw : tag.isRawText = true)
    (hp : findCloseTag s (lowered tag.name.toList) o = some (some p)) :
    Calls ⟨.element tag, o⟩ ⟨.closeTag, p⟩
  | template {k : Component} {o m : Nat} {tag : OpenTag} (ho : o < byteSize s)
    (h : sight? s o = some .openTag) (hm : readOpenTag s o = some (.ok (tag, m)))
    (hself : tag.selfClosing = false) (ht : (k.template.isNone && tag.isTemplate) = true) :
    Calls ⟨.parts k, o⟩ ⟨.children, m⟩
  | blockClose {k : Component} {o m p : Nat} {tag : OpenTag} (ho : o < byteSize s)
    (h : sight? s o = some .openTag) (hm : readOpenTag s o = some (.ok (tag, m)))
    (hself : tag.selfClosing = false) (ht : (k.template.isNone && tag.isTemplate) = false)
    (hp : findCloseTag s tag.name.toList m = some (some p)) : Calls ⟨.parts k, o⟩ ⟨.closeTag, p⟩

/-- An element is read among the children around it. -/
inductive Nests : State → State → Prop where
  | element {o m : Nat} {tag : OpenTag} (ho : o < byteSize s) (h : sight? s o = some .openTag)
    (hm : readOpenTag s o = some (.ok (tag, m))) : Nests ⟨.children, o⟩ ⟨.element tag, m⟩

/-- From one state the scanner comes to another one, which lies a number of elements deeper
    in the recursion. -/
inductive Leads (a : State) : Nat → State → Prop where
  | refl : Leads a 0 a
  | turn {n : Nat} {b c : State} (h : Leads a n b) (hc : Turn s b c) : Leads a n c
  | call {n : Nat} {b c : State} (h : Leads a n b) (hc : Calls s b c) : Leads a n c
  | nest {n : Nat} {b c : State} (h : Leads a n b) (hc : Nests s b c) : Leads a (n + 1) c

/-- A reader returns, without an error, at an offset. -/
inductive Returns : State → Nat → Prop where
  | comment {o p : Nat} {content : List Char} (h : readComment s o = some (.ok (content, p))) :
    Returns ⟨.comment, o⟩ p
  | declaration {o p : Nat} (h : readDeclaration s o = some (.ok ((), p))) :
    Returns ⟨.declaration, o⟩ p
  | closeTag {o p : Nat} {name : String} (h : readCloseTag s o = some (.ok (name, p))) :
    Returns ⟨.closeTag, o⟩ p
  | openTag {o p : Nat} {tag : OpenTag} (h : readOpenTag s o = some (.ok (tag, p))) :
    Returns ⟨.openTag, o⟩ p
  | entry {o p : Nat} {e : Entry} (h : readEntry s o = some (.ok (e, p))) : Returns ⟨.entry, o⟩ p
  | text {o p : Nat} {nodes nodes' : List Node}
    (h : readText s (rounds s) nodes o o = some (nodes', p)) : Returns ⟨.text, o⟩ p
  | element {o p : Nat} {tag : OpenTag} {node : Node}
    (h : readElementWhole s tag o = some (.ok (node, p))) : Returns ⟨.element tag, o⟩ p

end Steps

/-! ## §2. What the callers have ruled out -/

variable {source : List Char} {c d : Cursor}

/-- What a cursor stands in front of, by what the scanner saw there. -/
def Sight.Fits (c : Cursor) : Sight → Prop
  | .comment => startsComment c.rest = true
  | .closeTag => startsCloseTag c.rest = true
  | .declaration => startsDeclaration c.rest = true
  | .openTag => startsOpenTag c.rest = true
  | .other => startsOpenTag c.rest = false ∧ startsCloseTag c.rest = false ∧
      startsDeclaration c.rest = false

/-- What a cursor stands in front of where a task is taken up.  A text does not begin at a tag,
    nor an attribute at the end of its tag. -/
def Task.Fits (c : Cursor) : Task → Prop
  | .parts _ | .children | .characters | .tagBody | .element _ => True
  | .comment => startsComment c.rest = true
  | .declaration => startsDeclaration c.rest = true
  | .closeTag => ∃ r, c.rest = '<' :: '/' :: r
  | .openTag => startsOpenTag c.rest = true
  | .entry => ∃ x r, c.rest = x :: r ∧ isTagBlank x = false ∧ x ≠ '>' ∧ x ≠ '/'
  | .text => c.rest ≠ [] ∧ startsOpenTag c.rest = false ∧ startsCloseTag c.rest = false ∧
      startsDeclaration c.rest = false

/-- A state lies between two characters, where its task fits. -/
def State.Fits (source : List Char) (a : State) : Prop :=
  ∃ c : Cursor, c.StandsIn source ∧ c.offset = a.offset ∧ a.task.Fits c

/-- The scanner sees what is there. -/
theorem fits_of_sight? (h : c.StandsIn source) {x : Sight}
    (hx : sight? source c.offset = some x) : x.Fits c := by
  unfold sight? at hx
  simp only [startsWith_comment h, atCloseTag_eq h, startsWith_declaration h, atOpenTag_eq h,
    Option.bind_eq_bind, Option.bind_some] at hx
  split at hx
  · next hcomment =>
    cases hx
    exact hcomment
  split at hx
  · next hclose =>
    cases hx
    exact hclose
  split at hx
  · next hdecl =>
    cases hx
    exact hdecl
  split at hx
  · next hopen =>
    cases hx
    exact hopen
  · next hclose hdecl hopen =>
    cases hx
    exact ⟨Bool.eq_false_iff.2 hopen, Bool.eq_false_iff.2 hclose, Bool.eq_false_iff.2 hdecl⟩

theorem rest_ne_nil (h : c.StandsIn source) (hlt : c.offset < byteSize source) : c.rest ≠ [] :=
  fun hnil => Nat.not_le_of_lt hlt (h.size_le_iff.2 hnil)

/-- The place behind the blanks of a tag, where an octet stands. -/
theorem exists_cons_of_octetAt (h : c.StandsIn source) {x : Char}
    (hx : octetAt? source (skipOctets isTagBlank source c.offset) = some x) :
    skipOctets isTagBlank source c.offset = (c.skipWhile isTagBlank).offset ∧
      (c.skipWhile isTagBlank).StandsIn source ∧
      ∃ y r, (c.skipWhile isTagBlank).rest = y :: r ∧ isTagBlank y = false ∧
        ∀ mark : Char, mark.toNat < 128 → (x = mark ↔ y = mark) := by
  have hskip := h.skipOctets Text.isAsciiTest_isTagBlank
  have hm := h.of_takes (Cursor.takes_skipWhile c isTagBlank)
  rw [hskip] at hx
  refine ⟨hskip, hm, ?_⟩
  cases hr : (c.skipWhile isTagBlank).rest with
  | nil =>
    rw [hm.octetAt_nil hr] at hx
    cases hx
  | cons y r =>
    obtain ⟨z, hz, hat⟩ := hm.octetAt_cons hr
    obtain rfl := Option.some.inj (hat.symm.trans hx)
    have hhead := List.head?_dropWhile_not isTagBlank c.rest
    rw [show c.rest.dropWhile isTagBlank = y :: r from hr] at hhead
    exact ⟨y, r, rfl, by simpa using hhead, fun mark hmark => Text.octet_eq_iff hmark hz⟩

/-! ## §3. Readers advance -/

/-- A reader that follows one by cursors advances as that one does. -/
theorem Follows.advances {α β : Type} {related : α → β → Prop} {read : Outcome α}
    {scan : Option (Reading β)} (h : Follows source related read scan) (hc : c.StandsIn source)
    (hshort : ∀ {a d}, read = .ok (a, d) → d.rest.length < c.rest.length) {b : β} {p : Nat}
    (hp : scan = some (.ok (b, p))) : IsBoundary source p ∧ c.offset < p := by
  rcases h with ⟨a, b', d, hread, hscan, -, hd⟩ | ⟨e, -, hscan⟩
  · rw [hscan] at hp
    cases hp
    exact ⟨hd.isBoundary, hc.offset_lt hd (hshort hread)⟩
  · rw [hscan] at hp
    cases hp

theorem readOpenTag_advances (h : c.StandsIn source) (hopen : startsOpenTag c.rest = true)
    {tag : OpenTag} {p : Nat} (hp : readOpenTag source c.offset = some (.ok (tag, p))) :
    IsBoundary source p ∧ c.offset < p :=
  (readOpenTag_follows h hopen).advances h Template.readOpenTag_shorter hp

/-- Behind a start tag that the scanner has seen it stands at a cursor again. -/
theorem exists_behind_openTag (h : c.StandsIn source)
    (hopen : sight? source c.offset = some .openTag) {tag : OpenTag} {p : Nat}
    (hp : readOpenTag source c.offset = some (.ok (tag, p))) :
    ∃ d : Cursor, d.StandsIn source ∧ d.offset = p ∧ c.offset < d.offset := by
  obtain ⟨⟨front, rest, hsource, hsize⟩, hlt⟩ :=
    readOpenTag_advances h (fits_of_sight? h hopen) hp
  exact ⟨⟨p, rest⟩, ⟨front, hsource, hsize⟩, rfl, hlt⟩

theorem readComment_advances (h : c.StandsIn source) (hcomment : startsComment c.rest = true)
    {content : List Char} {p : Nat} (hp : readComment source c.offset = some (.ok (content, p))) :
    IsBoundary source p ∧ c.offset < p :=
  (readComment_follows h hcomment).advances h Template.readComment_shorter hp

theorem readDeclaration_advances (h : c.StandsIn source) {p : Nat}
    (hp : readDeclaration source c.offset = some (.ok ((), p))) :
    IsBoundary source p ∧ c.offset < p :=
  (readDeclaration_follows h).advances h Template.readDeclaration_shorter hp

theorem readCloseTag_advances (h : c.StandsIn source) {r : List Char}
    (hmark : c.rest = '<' :: '/' :: r) {name : String} {p : Nat}
    (hp : readCloseTag source c.offset = some (.ok (name, p))) :
    IsBoundary source p ∧ c.offset < p :=
  (readCloseTag_follows h hmark).advances h Template.readCloseTag_shorter hp

theorem readEntry_advances (h : c.StandsIn source) {x : Char} {r : List Char}
    (hc : c.rest = x :: r) (hblank : isTagBlank x = false) (hx : x ≠ '>' ∧ x ≠ '/') {e : Entry}
    {p : Nat} (hp : readEntry source c.offset = some (.ok (e, p))) :
    IsBoundary source p ∧ c.offset < p :=
  (readEntry_follows h hc hblank hx).advances h
    (Template.readEntry_shorter (by rw [hc]; exact List.cons_ne_nil x r)) hp

/-- A text advances, since neither a tag nor a declaration begins where it does. -/
theorem readText_advances (h : c.StandsIn source) (hc : c.rest ≠ [])
    (hother : Sight.Fits c .other) {nodes nodes' : List Node} {p : Nat}
    (hp : readText source (rounds source) nodes c.offset c.offset = some (nodes', p)) :
    IsBoundary source p ∧ c.offset < p := by
  obtain ⟨hopen, hclose, hdecl⟩ := hother
  obtain ⟨new, d, hread, -, hd, -, hshort⟩ := readText_builds h (.start c) nodes h.lt_rounds
  have hsame : readText source (rounds source) nodes c.offset c.offset =
      some (nodes ++ new, d.offset) := hread
  rw [hsame] at hp
  cases hp
  exact ⟨hd.isBoundary, h.offset_lt hd (hshort hc hopen hclose hdecl)⟩

/-- Behind a start tag nothing needs to follow, so an element may end where its tag does. -/
theorem readElementWhole_advances (h : c.StandsIn source) {tag : OpenTag} {node : Node} {p : Nat}
    (hp : readElementWhole source tag c.offset = some (.ok (node, p))) :
    IsBoundary source p ∧ c.offset ≤ p := by
  unfold readElementWhole readElement at hp
  split at hp
  · cases hp
    exact ⟨h.isBoundary, Nat.le_refl _⟩
  split at hp
  · have hraw : Follows source Eq (Template.readRawText tag c)
        (readRawText source tag (lowered tag.name.toList) c.offset) :=
      readRawText_follows h (lowered_lowered tag.name.toList)
    cases hread : readRawText source tag (lowered tag.name.toList) c.offset with
    | none =>
      rw [hread] at hp
      cases hp
    | some reading =>
      rw [hread] at hp
      cases reading with
      | error e => cases hp
      | ok found =>
        obtain ⟨hboundary, hlt⟩ := hraw.advances h Template.readRawText_shorter hread
        cases hp
        exact ⟨hboundary, Nat.le_of_lt hlt⟩
  · rcases readsChildren h tag.name [] h.lt_rounds with
      ⟨children, close, e, d, hread, hb, -, hclose, -⟩ | ⟨e, hread, -⟩
    · simp only [hread, Option.bind_eq_bind, Option.bind_some] at hp
      cases hp
      obtain ⟨he, hle⟩ := Builds.stands hb h
      have hd := he.of_takes hclose.takes
      have hshort := Template.readCloseTag_shorter hclose.readCloseTag
      exact ⟨hd.isBoundary, h.offset_le hd (by omega)⟩
    · simp only [hread, Option.bind_eq_bind, Option.bind_some] at hp
      cases hp

/-- A block takes no less than its start tag. -/
theorem readBlock_advances (h : c.StandsIn source) {k k' : Component} {tag : OpenTag} {p : Nat}
    (hp : readBlock source k tag c.offset = some (.ok (k', p))) :
    IsBoundary source p ∧ c.offset ≤ p := by
  rcases readBlock_follows h k tag with ⟨a, b, d, hread, hscan, -, hd⟩ | ⟨e, -, hscan⟩
  · rw [hscan] at hp
    cases hp
    exact ⟨hd.isBoundary, h.offset_le hd (Template.readBlockBody_length_le hread)⟩
  · rw [hscan] at hp
    cases hp

/-- One character is passed over. -/
theorem advances_one (h : c.StandsIn source) (hlt : c.offset < byteSize source) {rest : List Char}
    (hr : sliceFrom? source c.offset = some rest) :
    IsBoundary source (c.offset + rest.head?.elim 1 Char.utf8Size) ∧
      c.offset < c.offset + rest.head?.elim 1 Char.utf8Size := by
  obtain ⟨x, r, hc⟩ := List.exists_cons_of_ne_nil (rest_ne_nil h hlt)
  obtain rfl := Option.some.inj (h.sliceFrom.symm.trans hr)
  have hd := h.of_takes (Cursor.takes_skip_one hc)
  rw [Cursor.skip_one hc] at hd
  rw [hc]
  exact ⟨hd.isBoundary, Nat.lt_add_of_pos_right x.utf8Size_pos⟩

/-! ## §4. Steps -/

/-- A task that fits anywhere fits between two characters. -/
theorem fits_of_isBoundary {t : Task} {p : Nat} (ht : ∀ c, t.Fits c) (h : IsBoundary source p) :
    State.Fits source ⟨t, p⟩ := by
  obtain ⟨front, rest, hsource, hsize⟩ := h
  exact ⟨⟨p, rest⟩, ⟨front, hsource, hsize⟩, rfl, ht _⟩

theorem Task.fits_of_looks {t : Task} (h : t.looks = true) (c : Cursor) : t.Fits c := by
  cases t with
  | parts | children => trivial
  | _ => cases h

/-- Every turn of a loop advances. -/
theorem Turn.advances {a b : State} (h : Turn source a b) (ha : a.Fits source) :
    b.Fits source ∧ a.offset < b.offset := by
  obtain ⟨c, hc, hoff, hfits⟩ := ha
  -- it is enough that the next turn begins further on, between two characters
  have anywhere : (∀ c, b.task.Fits c) → IsBoundary source b.offset ∧ c.offset < b.offset →
      b.Fits source ∧ a.offset < b.offset := by
    rintro ht ⟨hboundary, hlt⟩
    exact ⟨fits_of_isBoundary ht hboundary, by omega⟩
  cases h with
  | comment ht ho h hp =>
    obtain rfl := hoff
    exact anywhere (Task.fits_of_looks ht) (readComment_advances hc (fits_of_sight? hc h) hp)
  | declaration ht ho h hp =>
    obtain rfl := hoff
    exact anywhere (Task.fits_of_looks ht) (readDeclaration_advances hc hp)
  | element ho h hm hp =>
    obtain rfl := hoff
    obtain ⟨d, hd, rfl, hlt⟩ := exists_behind_openTag hc h hm
    obtain ⟨hboundary, hle⟩ := readElementWhole_advances hd hp
    exact anywhere (fun _ => trivial) ⟨hboundary, Nat.lt_of_lt_of_le hlt hle⟩
  | text ho h hp =>
    obtain rfl := hoff
    exact anywhere (fun _ => trivial)
      (readText_advances hc (rest_ne_nil hc ho) (fits_of_sight? hc h) hp)
  | block ho h hm hp =>
    obtain rfl := hoff
    obtain ⟨d, hd, rfl, hlt⟩ := exists_behind_openTag hc h hm
    obtain ⟨hboundary, hle⟩ := readBlock_advances hd hp
    exact anywhere (fun _ => trivial) ⟨hboundary, Nat.lt_of_lt_of_le hlt hle⟩
  | between ho h hr =>
    obtain rfl := hoff
    exact anywhere (fun _ => trivial) (advances_one hc ho hr)
  | @interpolation o n ho h =>
    obtain rfl := hoff
    rcases interpolationAt_cases hc with ⟨content, d, hat, -, -, hstop, hd, -⟩ | ⟨hat, -⟩
    · obtain rfl := Option.some.inj (Option.some.inj (hat.symm.trans h))
      refine anywhere (fun _ => trivial) ⟨?_, ?_⟩
      · show IsBoundary source (c.offset + 2 + byteSize content + 2)
        rw [← hstop]
        exact hd.isBoundary
      · show c.offset < c.offset + 2 + byteSize content + 2
        omega
    · cases hat.symm.trans h
  | character ho h hmark hr =>
    obtain rfl := hoff
    exact anywhere (fun _ => trivial) (advances_one hc ho hr)
  | slash h hr =>
    obtain rfl := hoff
    obtain ⟨hskip, hm, y, r, hy, -, hmark⟩ := exists_cons_of_octetAt hc h
    obtain rfl := (hmark '/' (by decide)).1 rfl
    have hd := hm.of_takes (Cursor.takes_skip_one hy)
    have hle := (Cursor.takes_skipWhile c isTagBlank).offset_le
    rw [Cursor.skip_one hy, ← hskip] at hd
    exact anywhere (fun _ => trivial) ⟨hd.isBoundary, by
      show c.offset < skipOctets isTagBlank source c.offset + 1
      omega⟩
  | @entry o p x e h hx hp =>
    obtain rfl := hoff
    obtain ⟨hskip, hm, y, r, hy, hblank, hmark⟩ := exists_cons_of_octetAt hc h
    rw [hskip] at hp
    have hle := (Cursor.takes_skipWhile c isTagBlank).offset_le
    obtain ⟨hboundary, hlt⟩ := readEntry_advances hm hy hblank
      ⟨mt (hmark '>' (by decide)).2 hx.1, mt (hmark '/' (by decide)).2 hx.2⟩ hp
    exact anywhere (fun _ => trivial) ⟨hboundary, Nat.lt_of_le_of_lt hle hlt⟩

/-- An end tag that was looked for is read where it begins. -/
theorem closeTag_fits (h : c.StandsIn source) {name : List Char} {p : Nat}
    (hp : findCloseTag source name c.offset = some (some p)) :
    State.Fits source ⟨.closeTag, p⟩ ∧ c.offset ≤ p := by
  rw [findCloseTag_eq h, Option.some.injEq, Option.map_eq_some_iff] at hp
  obtain ⟨⟨content, d⟩, hfound, rfl⟩ := hp
  obtain ⟨htakes, hmark⟩ := closeMark_of_findCloseTag? hfound
  exact ⟨⟨d, h.of_takes htakes, rfl, hmark⟩, htakes.offset_le⟩

/-- A reader is called no earlier than where its caller is, and where it fits. -/
theorem Calls.fits {a b : State} (h : Calls source a b) (ha : a.Fits source) :
    b.Fits source ∧ a.offset ≤ b.offset := by
  obtain ⟨c, hc, hoff, hfits⟩ := ha
  cases h with
  | comment ht ho h =>
    obtain rfl := hoff
    exact ⟨⟨c, hc, rfl, fits_of_sight? hc h⟩, Nat.le_refl _⟩
  | closeTag ht ho h =>
    obtain rfl := hoff
    obtain ⟨x, r, hr, -⟩ := Template.startsCloseTag_eq (fits_of_sight? hc h)
    exact ⟨⟨c, hc, rfl, x :: r, hr⟩, Nat.le_refl _⟩
  | declaration ht ho h =>
    obtain rfl := hoff
    exact ⟨⟨c, hc, rfl, fits_of_sight? hc h⟩, Nat.le_refl _⟩
  | openTag ht ho h =>
    obtain rfl := hoff
    exact ⟨⟨c, hc, rfl, fits_of_sight? hc h⟩, Nat.le_refl _⟩
  | text ho h =>
    obtain rfl := hoff
    exact ⟨⟨c, hc, rfl, rest_ne_nil hc ho, fits_of_sight? hc h⟩, Nat.le_refl _⟩
  | characters => exact ⟨⟨c, hc, hoff, trivial⟩, Nat.le_refl _⟩
  | tagBody =>
    obtain rfl := hoff
    obtain ⟨x, r, hr, -⟩ := Template.startsOpenTag_eq hfits
    have hname := hc.of_takes (Cursor.takes_skip_one hr)
    have hskip := hname.skipOctets Text.isAsciiTest_isTagNamePart
    have hboundary := (hname.of_takes (Cursor.takes_skipWhile _ isTagNamePart)).isBoundary
    have hone : (c.skip 1).offset = c.offset + 1 := by
      rw [Cursor.skip_one hr]
      rfl
    rw [← hskip, hone] at hboundary
    refine ⟨fits_of_isBoundary (fun _ => trivial) hboundary, ?_⟩
    show c.offset ≤ c.offset + 1 + _
    omega
  | entry h hx =>
    obtain rfl := hoff
    obtain ⟨hskip, hm, y, r, hy, hblank, hmark⟩ := exists_cons_of_octetAt hc h
    refine ⟨⟨_, hm, hskip.symm, y, r, hy, hblank, mt (hmark '>' (by decide)).2 hx.1,
      mt (hmark '/' (by decide)).2 hx.2⟩, Nat.le_add_right _ _⟩
  | children hleaf hraw => exact ⟨⟨c, hc, hoff, trivial⟩, Nat.le_refl _⟩
  | rawClose hraw hp =>
    obtain rfl := hoff
    exact closeTag_fits hc hp
  | template ho h hm hself ht =>
    obtain rfl := hoff
    obtain ⟨d, hd, rfl, hlt⟩ := exists_behind_openTag hc h hm
    exact ⟨⟨d, hd, rfl, trivial⟩, Nat.le_of_lt hlt⟩
  | blockClose ho h hm hself ht hp =>
    obtain rfl := hoff
    obtain ⟨d, hd, rfl, hlt⟩ := exists_behind_openTag hc h hm
    obtain ⟨hclose, hle⟩ := closeTag_fits hd hp
    exact ⟨hclose, Nat.le_of_lt (Nat.lt_of_lt_of_le hlt hle)⟩

/-- An element is nested behind its start tag. -/
theorem Nests.fits {a b : State} (h : Nests source a b) (ha : a.Fits source) :
    b.Fits source ∧ a.offset < b.offset := by
  obtain ⟨c, hc, hoff, hfits⟩ := ha
  cases h with
  | element ho h hm =>
    obtain rfl := hoff
    obtain ⟨d, hd, rfl, hlt⟩ := exists_behind_openTag hc h hm
    exact ⟨⟨d, hd, rfl, trivial⟩, hlt⟩

/-- A run of the scanner keeps between characters, and goes one byte at least with each element
    that it comes into. -/
theorem Leads.fits {a b : State} {n : Nat} (h : Leads source a n b) (ha : a.Fits source) :
    b.Fits source ∧ a.offset + n ≤ b.offset := by
  induction h with
  | refl => exact ⟨ha, Nat.le_refl _⟩
  | turn h hc ih =>
    obtain ⟨hb, hle⟩ := ih
    obtain ⟨hfits, hlt⟩ := hc.advances hb
    exact ⟨hfits, by omega⟩
  | call h hc ih =>
    obtain ⟨hb, hle⟩ := ih
    obtain ⟨hfits, hle'⟩ := hc.fits hb
    exact ⟨hfits, by omega⟩
  | nest h hc ih =>
    obtain ⟨hb, hle⟩ := ih
    obtain ⟨hfits, hlt⟩ := hc.fits hb
    exact ⟨hfits, by omega⟩

/-- A call that returns has advanced, except that an element may end with its start tag. -/
theorem Returns.advances {a : State} {p : Nat} (h : Returns source a p) (ha : a.Fits source) :
    IsBoundary source p ∧ a.offset ≤ p ∧ (a.task.isElement = false → a.offset < p) := by
  obtain ⟨c, hc, hoff, hfits⟩ := ha
  have strict : IsBoundary source p ∧ c.offset < p →
      IsBoundary source p ∧ a.offset ≤ p ∧ (a.task.isElement = false → a.offset < p) := by
    rintro ⟨hboundary, hlt⟩
    exact ⟨hboundary, by omega, fun _ => by omega⟩
  cases h with
  | comment h =>
    obtain rfl := hoff
    exact strict (readComment_advances hc hfits h)
  | declaration h =>
    obtain rfl := hoff
    exact strict (readDeclaration_advances hc h)
  | closeTag h =>
    obtain rfl := hoff
    obtain ⟨r, hr⟩ := hfits
    exact strict (readCloseTag_advances hc hr h)
  | openTag h =>
    obtain rfl := hoff
    exact strict (readOpenTag_advances hc hfits h)
  | entry h =>
    obtain rfl := hoff
    obtain ⟨x, r, hr, hblank, hx⟩ := hfits
    exact strict (readEntry_advances hc hr hblank hx h)
  | text h =>
    obtain rfl := hoff
    obtain ⟨hne, hother⟩ := hfits
    exact strict (readText_advances hc hne hother h)
  | element h =>
    obtain rfl := hoff
    obtain ⟨hboundary, hle⟩ := readElementWhole_advances hc h
    exact ⟨hboundary, hle, fun hnot => by cases hnot⟩

/-! ## §5. Runs -/

/-- Reading a component always advances, and always ends.  Whatever a run of the scanner comes
    to lies in the text.  There every call that returns has advanced and has not left the text,
    where reading an element may advance by nothing; the next turn of a loop is further on; and
    no more elements are nested below than bytes remain.  So the rounds of the loops suffice,
    and reading has a result for every text. -/
theorem leads_advances (source : List Char) :
    (∀ n a, Leads source ⟨.parts {}, 0⟩ n a →
      a.offset ≤ byteSize source ∧
      (∀ p, Returns source a p → a.offset ≤ p ∧ (a.task.isElement = false → a.offset < p) ∧
        p ≤ byteSize source) ∧
      (∀ b, Turn source a b → a.offset < b.offset ∧ b.offset ≤ byteSize source) ∧
      ∀ k b, Leads source a k b → k ≤ byteSize source - a.offset) ∧
    parse source = some (Component.parse source) := by
  have hbound : ∀ {a : State}, a.Fits source → a.offset ≤ byteSize source := by
    rintro a ⟨c, hc, hoff, -⟩
    rw [← hoff]
    exact hc.isBoundary.le_byteSize
  have hstart : State.Fits source ⟨.parts {}, 0⟩ := ⟨⟨0, source⟩, ⟨[], rfl, rfl⟩, rfl, trivial⟩
  refine ⟨fun n a h => ?_, parse_eq source⟩
  obtain ⟨ha, -⟩ := h.fits hstart
  refine ⟨hbound ha, fun p hp => ?_, fun b hb => ?_, fun k b hb => ?_⟩
  · obtain ⟨hboundary, hle, hlt⟩ := hp.advances ha
    exact ⟨hle, hlt, hboundary.le_byteSize⟩
  · obtain ⟨hfits, hlt⟩ := hb.advances ha
    exact ⟨hlt, hbound hfits⟩
  · obtain ⟨hfits, hle⟩ := hb.fits ha
    have := hbound hfits
    omega

/-- A run into the text of an element inside another one. -/
theorem leads_advances_nested :
    ∃ (source : List Char) (a : State),
      source = "<template><a b><c>é</c></a></template>".toList ∧
      Leads source ⟨.parts {}, 0⟩ 2 a ∧ a.task = .text ∧ a.offset = 18 ∧ Returns source a 20 ∧
      (∀ p, Returns source a p → 18 < p ∧ p ≤ 39) ∧ ∀ k b, Leads source a k b → k ≤ 21 := by
  obtain ⟨source, hsource⟩ : ∃ source, source = "<template><a b><c>é</c></a></template>".toList :=
    ⟨_, rfl⟩
  have hsize : byteSize source = 39 := by
    subst hsource
    decide +kernel
  have hblock : readOpenTag source 0 = some (.ok (⟨"template", 0, 9, [], false⟩, 10)) := by
    subst hsource
    rfl
  have houter : readOpenTag source 10 =
      some (.ok (⟨"a", 10, 12, [.attribute ⟨"b", none, 13⟩], false⟩, 15)) := by
    subst hsource
    rfl
  have hinner : readOpenTag source 15 = some (.ok (⟨"c", 15, 17, [], false⟩, 18)) := by
    subst hsource
    rfl
  have hseen : ∀ o ∈ [0, 10, 15], o < byteSize source ∧ sight? source o = some .openTag := by
    rw [hsize]
    subst hsource
    decide +kernel
  have htext : sight? source 18 = some .other := by
    subst hsource
    decide +kernel
  have hread : readText source (rounds source) [] 18 18 = some ([.text "é" 18], 20) := by
    subst hsource
    rfl
  -- into the template, the outer element and the inner one, to the text there
  have hleads : Leads source ⟨.parts {}, 0⟩ 2 ⟨.text, 18⟩ := by
    obtain ⟨hin, hopen⟩ := hseen 0 (by decide)
    have htemplate := Leads.refl.call
      (.template (k := {}) hin hopen hblock rfl (by decide +kernel))
    obtain ⟨hin, hopen⟩ := hseen 10 (by decide)
    have helement := htemplate.nest (.element hin hopen houter)
    have hchildren := helement.call (.children (by decide +kernel) (by decide +kernel))
    obtain ⟨hin, hopen⟩ := hseen 15 (by decide)
    have helement := hchildren.nest (.element hin hopen hinner)
    have hchildren := helement.call (.children (by decide +kernel) (by decide +kernel))
    exact hchildren.call (.text (by rw [hsize]; decide) htext)
  obtain ⟨-, hreturns, -, hdeep⟩ := (leads_advances source).1 2 ⟨.text, 18⟩ hleads
  rw [hsize] at hreturns hdeep
  refine ⟨source, ⟨.text, 18⟩, hsource, hleads, rfl, rfl, .text hread, fun p hp => ?_, hdeep⟩
  obtain ⟨-, hlt, hle⟩ := hreturns p hp
  exact ⟨hlt rfl, hle⟩

end Scanner

end Provenance
