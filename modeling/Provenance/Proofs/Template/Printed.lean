import Provenance.Proofs.Template.Markup
import Provenance.Proofs.Template.Token

/-! # Printed trees

  A tree of markup that knows no offsets (`Tree`), the text that it is printed as
  (`Tree.print`), and the node that stands for it in a source in which it is printed at
  some offset (`Tree.node`).

  A tree is well-formed if its parts hold no characters that would end them
  (`Tree.WellFormed`).  Then each part of its text is read for itself, whatever follows:
  start tags (`readsTag_print`), end tags (`readsClose_print`), raw text
  (`readRawText_print`), texts, interpolations and comments.
-/

namespace Provenance.Template

open Text (Cursor isTagBlank byteSize byteSize_append byteSize_cons)

/-! ## §1. Trees -/

/-- An attribute to be printed; one without a value is a bare name. -/
structure Written where
  name : List Char
  value : Option (List Char)

/-- A tree of markup. -/
inductive Tree where
  /-- An element that its start tag closes. -/
  | selfClosed (tag : List Char) (attributes : List Written)
  /-- An element that has neither content nor an end tag. -/
  | void (tag : List Char) (attributes : List Written)
  /-- An element whose content is raw text. -/
  | raw (tag : List Char) (attributes : List Written) (content : List Char)
  | element (tag : List Char) (attributes : List Written) (children : List Tree)
  | text (content : List Char)
  | interpolation (content : List Char)
  | comment (content : List Char)

/-- Whether a tree is a text. -/
def Tree.isText : Tree → Bool
  | .text _ => true
  | _ => false

/-! ## §2. Their text -/

/-- An attribute behind its blank, the value in quotes. -/
def Written.print (w : Written) : List Char :=
  ' ' :: (w.name ++ match w.value with
    | none => []
    | some value => '=' :: '"' :: (value ++ ['"']))

/-- A start tag without the characters that end it. -/
def printStart (tag : List Char) (attributes : List Written) : List Char :=
  '<' :: (tag ++ attributes.flatMap Written.print)

/-- An end tag. -/
def printEnd (tag : List Char) : List Char := '<' :: '/' :: (tag ++ ['>'])

mutual

/-- The text of a tree. -/
def Tree.print : Tree → List Char
  | .selfClosed tag attributes => printStart tag attributes ++ ['/', '>']
  | .void tag attributes => printStart tag attributes ++ ['>']
  | .raw tag attributes content => printStart tag attributes ++ '>' :: (content ++ printEnd tag)
  | .element tag attributes children =>
    printStart tag attributes ++ '>' :: (printAll children ++ printEnd tag)
  | .text content => content
  | .interpolation content => '{' :: '{' :: ' ' :: (content ++ [' ', '}', '}'])
  | .comment content => '<' :: '!' :: '-' :: '-' :: (content ++ ['-', '-', '>'])

/-- The text of some trees. -/
def printAll : List Tree → List Char
  | [] => []
  | tree :: rest => tree.print ++ printAll rest

end

/-! ## §3. Their nodes -/

/-- The entries of attributes of which the first is printed at an offset. -/
def entriesFrom (o : Nat) : List Written → List Entry
  | [] => []
  | w :: rest => .ofName w.name w.value (o + 1) :: entriesFrom (o + byteSize w.print) rest

/-- The start tag that is printed at an offset. -/
def openTagAt (o : Nat) (tag : List Char) (attributes : List Written) (selfClosing : Bool) :
    OpenTag where
  name := String.ofList tag
  start := o
  nameEnd := o + 1 + byteSize tag
  entries := entriesFrom (o + 1 + byteSize tag) attributes
  selfClosing

mutual

/-- The node of a tree that is printed at an offset. -/
def Tree.node (o : Nat) : Tree → Node
  | .selfClosed tag attributes =>
    .element (openTagAt o tag attributes true) []
      (o + byteSize (Tree.selfClosed tag attributes).print)
  | .void tag attributes =>
    .element (openTagAt o tag attributes false) []
      (o + byteSize (Tree.void tag attributes).print)
  | .raw tag attributes content =>
    .element (openTagAt o tag attributes false)
      (if content = [] then []
        else [.text (String.ofList content) (o + byteSize (printStart tag attributes) + 1)])
      (o + byteSize (Tree.raw tag attributes content).print)
  | .element tag attributes children =>
    .element (openTagAt o tag attributes false)
      (nodesFrom (o + byteSize (printStart tag attributes) + 1) children)
      (o + byteSize (Tree.element tag attributes children).print)
  | .text content => .text (String.ofList content) o
  | .interpolation content => .interpolation (String.ofList content) o
  | .comment content => .comment (String.ofList content) o

/-- The nodes of trees of which the first is printed at an offset. -/
def nodesFrom (o : Nat) : List Tree → List Node
  | [] => []
  | tree :: rest => tree.node o :: nodesFrom (o + byteSize tree.print) rest

end

/-! ## §4. Trees whose text says what they are -/

/-- A name that is read as the name of a tag. -/
structure IsTagName (tag : List Char) : Prop where
  head : ∃ x r, tag = x :: r ∧ x.isAlpha = true
  part : ∀ x ∈ tag, isTagNamePart x = true

/-- An attribute whose name ends nowhere and whose value needs no other quotes. -/
structure Written.WellFormed (w : Written) : Prop where
  name : w.name ≠ []
  part : ∀ x ∈ w.name, isTagBlank x = false ∧ x ≠ '=' ∧ x ≠ '>' ∧ x ≠ '/'
  value : ∀ value ∈ w.value, '"' ∉ value

/-- Whether elements of a name have neither content nor an end tag. -/
def isVoidName (tag : List Char) : Bool := voidTags.contains (String.ofList (lowered tag))

/-- Whether the content of elements of a name is raw text. -/
def isRawTextName (tag : List Char) : Bool := rawTextTags.contains (String.ofList (lowered tag))

mutual

/-- No part of a tree holds what would end it, and each element has the form that its
    name asks for. -/
def Tree.WellFormed : Tree → Prop
  | .selfClosed tag attributes => IsTagName tag ∧ ∀ w ∈ attributes, w.WellFormed
  | .void tag attributes =>
    IsTagName tag ∧ (∀ w ∈ attributes, w.WellFormed) ∧ isVoidName tag = true
  | .raw tag attributes content =>
    IsTagName tag ∧ (∀ w ∈ attributes, w.WellFormed) ∧ isRawTextName tag = true ∧
      ¬ '<' :: '/' :: lowered tag <:+: lowered content
  | .element tag attributes children =>
    IsTagName tag ∧ (∀ w ∈ attributes, w.WellFormed) ∧ isVoidName tag = false ∧
      isRawTextName tag = false ∧ AllWellFormed children
  | .text content => content ≠ [] ∧ '<' ∉ content ∧ '{' ∉ content
  | .interpolation content => Text.trim content = content ∧ ¬ ['}', '}'] <:+: content
  | .comment content => ¬ ['-', '-', '>'] <:+: content

/-- Well-formed trees, no two of them texts side by side. -/
def AllWellFormed : List Tree → Prop
  | [] => True
  | tree :: rest =>
    tree.WellFormed ∧ (tree.isText = true → ∀ next ∈ rest.head?, next.isText = false) ∧
      AllWellFormed rest

end

instance (tag : List Char) : Decidable (IsTagName tag) :=
  decidable_of_iff (tag.head?.any Char.isAlpha = true ∧ tag.all isTagNamePart = true) <| by
    rw [Option.any_eq_true, List.all_eq_true]
    constructor
    · rintro ⟨⟨x, hx, hletter⟩, hpart⟩
      obtain ⟨r, rfl⟩ := List.head?_eq_some_iff.1 hx
      exact ⟨⟨x, r, rfl, hletter⟩, hpart⟩
    · rintro ⟨⟨x, r, rfl, hletter⟩, hpart⟩
      exact ⟨⟨x, rfl, hletter⟩, hpart⟩

instance (w : Written) : Decidable w.WellFormed :=
  decidable_of_iff (w.name ≠ [] ∧
      w.name.all (fun x => isTagBlank x = false ∧ x ≠ '=' ∧ x ≠ '>' ∧ x ≠ '/') = true ∧
      ∀ value ∈ w.value, '"' ∉ value) <| by
    simp only [List.all_eq_true, decide_eq_true_eq]
    exact ⟨fun h => ⟨h.1, h.2.1, h.2.2⟩, fun h => ⟨h.name, h.part, h.value⟩⟩

mutual

/-- Whether a tree is well-formed. -/
def Tree.decideWellFormed : (t : Tree) → Decidable t.WellFormed
  | .selfClosed tag attributes =>
    inferInstanceAs (Decidable (IsTagName tag ∧ ∀ w ∈ attributes, w.WellFormed))
  | .void tag attributes =>
    inferInstanceAs (Decidable
      (IsTagName tag ∧ (∀ w ∈ attributes, w.WellFormed) ∧ isVoidName tag = true))
  | .raw tag attributes content =>
    inferInstanceAs (Decidable
      (IsTagName tag ∧ (∀ w ∈ attributes, w.WellFormed) ∧ isRawTextName tag = true ∧
        ¬ '<' :: '/' :: lowered tag <:+: lowered content))
  | .element tag attributes children =>
    have := decideAllWellFormed children
    inferInstanceAs (Decidable
      (IsTagName tag ∧ (∀ w ∈ attributes, w.WellFormed) ∧ isVoidName tag = false ∧
        isRawTextName tag = false ∧ AllWellFormed children))
  | .text content =>
    inferInstanceAs (Decidable (content ≠ [] ∧ '<' ∉ content ∧ '{' ∉ content))
  | .interpolation content =>
    inferInstanceAs (Decidable (Text.trim content = content ∧ ¬ ['}', '}'] <:+: content))
  | .comment content =>
    inferInstanceAs (Decidable (¬ ['-', '-', '>'] <:+: content))

/-- Whether trees are well-formed and their texts apart. -/
def decideAllWellFormed : (trees : List Tree) → Decidable (AllWellFormed trees)
  | [] => inferInstanceAs (Decidable True)
  | tree :: rest =>
    have := tree.decideWellFormed
    have := decideAllWellFormed rest
    inferInstanceAs (Decidable
      (tree.WellFormed ∧ (tree.isText = true → ∀ next ∈ rest.head?, next.isText = false) ∧
        AllWellFormed rest))

end

instance (t : Tree) : Decidable t.WellFormed := t.decideWellFormed

instance (trees : List Tree) : Decidable (AllWellFormed trees) := decideAllWellFormed trees

/-! ## §5. Attributes -/

/-- A bare name ends in front of a text, and no value follows it there. -/
structure EndsBare (t : List Char) : Prop where
  name : attributeName.more t = []
  mark : ∃ x r, t = x :: r ∧ isTagNamePart x = false
  value : ∀ r, t.dropWhile isTagBlank ≠ '=' :: r

theorem endsBare_mark (r : List Char) : EndsBare ('>' :: r) where
  name := by simp [attributeName.more]
  mark := ⟨'>', r, rfl, by decide⟩
  value := by simp [isTagBlank]

theorem endsBare_slash (r : List Char) : EndsBare ('/' :: '>' :: r) where
  name := by simp [attributeName.more]
  mark := ⟨'/', '>' :: r, rfl, by decide⟩
  value := by simp [isTagBlank]

theorem Written.WellFormed.isAttributeName {w : Written} (h : w.WellFormed) :
    IsAttributeName w.name where
  ne_nil := h.name
  part := fun x hx => ⟨(h.part x hx).1, (h.part x hx).2.1, (h.part x hx).2.2.1⟩
  head := by
    intro hhead
    exact (h.part '/' (List.mem_of_mem_head? hhead)).2.2.2 rfl

/-- Another attribute ends a bare name. -/
theorem Written.WellFormed.endsBare {w : Written} (h : w.WellFormed) (t : List Char) :
    EndsBare (w.print ++ t) where
  name := by simp [Written.print, attributeName.more, isTagBlank]
  mark := ⟨' ', _, rfl, by decide⟩
  value := by
    obtain ⟨x, r, hname⟩ := List.exists_cons_of_ne_nil h.name
    obtain ⟨hblank, heq, -⟩ := h.part x (by rw [hname]; exact List.mem_cons_self)
    simp [Written.print, hname, hblank, heq, show isTagBlank ' ' = true from rfl]

/-- A bare name is one entry. -/
theorem readEntry_bare {name t : List Char} (h : IsAttributeName name) (hslash : '/' ∉ name)
    (ht : EndsBare t) (o : Nat) :
    readEntry ⟨o, name ++ t⟩ = .ok (.ofName name none o, ⟨o + byteSize name, t⟩) := by
  have hname : attributeName (name ++ t) = name :=
    attributeName_append h ht.name fun hmem => absurd hmem hslash
  have hskip : Cursor.skip ⟨o, name ++ t⟩ name.length = ⟨o + byteSize name, t⟩ :=
    Cursor.skip_append rfl
  have hgap : ∀ r, (entryGap ⟨o, name ++ t⟩).rest ≠ '=' :: r := by
    intro r
    unfold entryGap
    rw [hname, hskip]
    exact ht.value r
  rw [readEntry_of_bare hgap, hname, hskip]

/-- An attribute in front of the rest of a start tag. -/
theorem Written.WellFormed.readsBody {w : Written} (h : w.WellFormed) {o : Nat} {t : List Char}
    (ht : EndsBare t) {body : TagBody} {d : Cursor}
    (hbody : ReadsBody ⟨o + byteSize w.print, t⟩ body d) :
    ReadsBody ⟨o, w.print ++ t⟩ ⟨.ofName w.name w.value (o + 1) :: body.entries, body.selfClosing⟩
      d := by
  have hone : ' '.utf8Size = 1 := rfl
  have hvalue := h.value
  have hname := h.isAttributeName
  obtain ⟨name, value⟩ := w
  cases value with
  | none =>
    have htext : Written.print ⟨name, none⟩ ++ t = ' ' :: (name ++ t) := by simp [Written.print]
    have hsize : o + byteSize (Written.print ⟨name, none⟩) = o + 1 + byteSize name := by
      simp [Written.print, hone]
      omega
    have hslash : '/' ∉ name := fun hmem => (h.part '/' hmem).2.2.2 rfl
    rw [hsize] at hbody
    rw [htext]
    exact readsBody_entry hname (readEntry_bare hname hslash ht (o + 1)) hbody
  | some value =>
    have htext : Written.print ⟨name, some value⟩ ++ t =
        ' ' :: (name ++ '=' :: '"' :: (value ++ '"' :: t)) := by simp [Written.print]
    have hsize : o + byteSize (Written.print ⟨name, some value⟩) =
        o + 1 + (byteSize name + (2 + byteSize value + 1)) := by
      have h1 : '='.utf8Size = 1 := rfl
      have h2 : '"'.utf8Size = 1 := rfl
      simp [Written.print, hone, h1, h2]
      omega
    rw [hsize] at hbody
    rw [htext]
    exact readsBody_entry hname (readEntry_quoted hname (hvalue value rfl) (o + 1) t) hbody

/-- Attributes in front of the rest of a start tag. -/
theorem readsBody_print {attributes : List Written} (h : ∀ w ∈ attributes, w.WellFormed) {o : Nat}
    {t : List Char} (ht : EndsBare t) {body : TagBody} {d : Cursor}
    (hbody : ReadsBody ⟨o + byteSize (attributes.flatMap Written.print), t⟩ body d) :
    EndsBare (attributes.flatMap Written.print ++ t) ∧
      ReadsBody ⟨o, attributes.flatMap Written.print ++ t⟩
        ⟨entriesFrom o attributes ++ body.entries, body.selfClosing⟩ d := by
  induction attributes generalizing o with
  | nil => exact ⟨ht, hbody⟩
  | cons w rest ih =>
    have hw := h w List.mem_cons_self
    rw [List.flatMap_cons, byteSize_append, ← Nat.add_assoc] at hbody
    obtain ⟨hends, hrest⟩ := ih (fun w' hw' => h w' (List.mem_cons_of_mem w hw')) hbody
    rw [List.flatMap_cons, List.append_assoc]
    exact ⟨hw.endsBare _, hw.readsBody hends hrest⟩

/-! ## §6. Tags -/

variable {tag : List Char} {attributes : List Written}

/-- A printed start tag is read for itself. -/
theorem readsTag_print (htag : IsTagName tag) (h : ∀ w ∈ attributes, w.WellFormed) {o : Nat}
    {t : List Char} (ht : EndsBare t) {selfClosing : Bool} {d : Cursor}
    (hbody : ReadsBody ⟨o + byteSize (printStart tag attributes), t⟩ ⟨[], selfClosing⟩ d) :
    ReadsTag ⟨o, printStart tag attributes ++ t⟩ (openTagAt o tag attributes selfClosing)
      (attributes.flatMap Written.print ++ t) d := by
  have hone : '<'.utf8Size = 1 := rfl
  have hsize : o + byteSize (printStart tag attributes) =
      o + 1 + byteSize tag + byteSize (attributes.flatMap Written.print) := by
    rw [printStart, byteSize_cons, byteSize_append, hone]
    omega
  rw [hsize] at hbody
  obtain ⟨hends, hreads⟩ := readsBody_print h ht hbody
  rw [List.append_nil] at hreads
  have hname : (openTagAt o tag attributes selfClosing).name.toList = tag := String.toList_ofList
  constructor
  · rw [hname, printStart, List.cons_append, List.append_assoc]
  · rw [hname]
    exact htag.part
  · exact hends.mark
  · rfl
  · rw [hname]
    rfl
  · exact hreads

/-- A start tag that ends with `>`. -/
theorem readsTag_open (htag : IsTagName tag) (h : ∀ w ∈ attributes, w.WellFormed) (o : Nat)
    (r : List Char) :
    ReadsTag ⟨o, printStart tag attributes ++ '>' :: r⟩ (openTagAt o tag attributes false)
      (attributes.flatMap Written.print ++ '>' :: r)
      ⟨o + byteSize (printStart tag attributes) + 1, r⟩ :=
  readsTag_print htag h (endsBare_mark r) (.close rfl)

/-- A start tag that closes its element. -/
theorem readsTag_selfClosed (htag : IsTagName tag) (h : ∀ w ∈ attributes, w.WellFormed) (o : Nat)
    (r : List Char) :
    ReadsTag ⟨o, printStart tag attributes ++ '/' :: '>' :: r⟩ (openTagAt o tag attributes true)
      (attributes.flatMap Written.print ++ '/' :: '>' :: r)
      ⟨o + byteSize (printStart tag attributes) + 2, r⟩ :=
  readsTag_print htag h (endsBare_slash r) (.selfClose rfl)

theorem startsOpenTag_print (htag : IsTagName tag) (t : List Char) :
    startsOpenTag (printStart tag attributes ++ t) = true := by
  obtain ⟨x, r, rfl, hx⟩ := htag.head
  exact hx

theorem IsTagName.mark_not_mem (htag : IsTagName tag) : '>' ∉ tag := by
  intro hmem
  have hpart := htag.part _ hmem
  revert hpart
  decide

/-- The end tag that is printed at an offset. -/
def closeTagAt (o : Nat) (tag r : List Char) : CloseTag where
  name := String.ofList tag
  start := o
  inner := tag
  after := ⟨o + byteSize (printEnd tag), r⟩

/-- A printed end tag is read for itself. -/
theorem readsClose_print (htag : IsTagName tag) (o : Nat) (r : List Char) :
    ReadsClose ⟨o, printEnd tag ++ r⟩ (closeTagAt o tag r) ['<', '/']
      ⟨o + byteSize (printEnd tag), r⟩ := by
  have htake : tag.takeWhile isTagNamePart = tag := by
    have happend : (tag ++ []).takeWhile isTagNamePart = tag ++ [].takeWhile isTagNamePart :=
      List.takeWhile_append_of_pos htag.part
    simpa using happend
  constructor
  · rfl
  · simp [printEnd, closeTagAt]
  · have h1 : '<'.utf8Size = 1 := rfl
    have h2 : '/'.utf8Size = 1 := rfl
    have h3 : '>'.utf8Size = 1 := rfl
    simp [printEnd, closeTagAt, h1, h2, h3]
    omega
  · exact htag.mark_not_mem
  · show String.ofList tag = String.ofList (tag.takeWhile isTagNamePart)
    rw [htake]
  · rfl
  · rfl

theorem startsCloseTag_print (htag : IsTagName tag) (r : List Char) :
    startsCloseTag (printEnd tag ++ r) = true := by
  obtain ⟨x, t, rfl, hx⟩ := htag.head
  exact hx

/-! ## §7. Raw text -/

/-- An end tag is found where it was written, if none stands in front of it. -/
theorem splitBeforeClose?_append {n content r : List Char} (hn : '<' ∉ n)
    (h : ¬ '<' :: n <:+: lowered content) (hpre : '<' :: n <+: lowered r)
    (hends : endsTagName (r.drop (n.length + 1)) = true) :
    splitBeforeClose? ('<' :: n) 0 (content ++ r) = some (content, r) := by
  induction content with
  | nil =>
    cases r with
    | nil => exact absurd (List.prefix_nil.1 hpre) (by simp)
    | cons x r =>
      rw [List.nil_append, splitBeforeClose?, if_pos (List.isPrefixOf_iff_prefix.2 hpre),
        if_pos (by simpa using hends)]
  | cons x content ih =>
    have hrest : ¬ '<' :: n <:+: lowered content := fun hin =>
      h (hin.trans (List.suffix_cons x.toLower (lowered content)).isInfix)
    have hfront : ¬ ('<' :: n).isPrefixOf (lowered (x :: (content ++ r))) = true := by
      rw [List.isPrefixOf_iff_prefix]
      intro hin
      have hin : '<' :: n <+: lowered (x :: content) ++ lowered r := by
        rw [← lowered_append]
        exact hin
      rcases Nat.le_total ('<' :: n).length (lowered (x :: content)).length with hle | hle
      · -- it would stand in the raw text
        have hwhole := List.prefix_of_prefix_length_le hin (List.prefix_append _ _) hle
        exact h hwhole.isInfix
      · -- it would hold the `<` that follows the raw text
        obtain ⟨m, hm⟩ := List.prefix_of_prefix_length_le (List.prefix_append _ _) hin hle
        obtain ⟨t, ht⟩ := hpre
        have hmr : m <+: lowered r := by
          rw [← hm, List.prefix_append_right_inj] at hin
          exact hin
        cases m with
        | nil =>
          rw [List.append_nil] at hm
          exact h ⟨[], [], by rw [← hm]; simp⟩
        | cons y m =>
          rw [← ht] at hmr
          obtain ⟨rfl, -⟩ := List.cons_prefix_cons.1 hmr
          have htail := (List.cons.inj hm).2
          exact hn (by rw [← htail]; exact List.mem_append_right _ List.mem_cons_self)
    rw [List.cons_append, splitBeforeClose?, if_neg hfront, ih hrest]
    rfl

theorem isRawTextName.mark_not_mem (h : isRawTextName tag = true) : '<' ∉ lowered tag := by
  have hall : ∀ name ∈ rawTextTags, '<' ∉ name.toList := by decide
  have hmem : String.ofList (lowered tag) ∈ rawTextTags := List.contains_iff_mem.1 h
  have hnot := hall _ hmem
  rwa [String.toList_ofList] at hnot

/-- Printed raw text is read up to its end tag. -/
theorem readRawText_print (htag : IsTagName tag) (hraw : isRawTextName tag = true)
    {content : List Char} (h : ¬ '<' :: '/' :: lowered tag <:+: lowered content) (start : OpenTag)
    (hname : start.name = String.ofList tag) (o : Nat) (r : List Char) :
    readRawText start ⟨o, content ++ (printEnd tag ++ r)⟩ =
      .ok (content, ⟨o + byteSize content + byteSize (printEnd tag), r⟩) := by
  have hneedle : '<' ∉ '/' :: lowered tag := by
    simpa using isRawTextName.mark_not_mem hraw
  have hpre : '<' :: '/' :: lowered tag <+: lowered (printEnd tag ++ r) := by
    refine ⟨lowered ('>' :: r), ?_⟩
    have hmarks : lowered ['<', '/'] = ['<', '/'] := by decide
    have htext : printEnd tag ++ r = ['<', '/'] ++ (tag ++ '>' :: r) := by simp [printEnd]
    rw [htext, lowered_append, lowered_append, hmarks]
    rfl
  have hends : endsTagName ((printEnd tag ++ r).drop (('/' :: lowered tag).length + 1)) = true := by
    have hdrop : (printEnd tag ++ r).drop (('/' :: lowered tag).length + 1) = '>' :: r := by
      rw [List.length_cons, length_lowered, printEnd, List.cons_append, List.drop_succ_cons,
        List.cons_append, List.drop_succ_cons, List.append_assoc, List.drop_left]
      rfl
    rw [hdrop]
    rfl
  have hclose := (readsClose_print htag (o + byteSize content) r).readCloseTag
  unfold readRawText findCloseTag?
  rw [hname, String.toList_ofList, splitBeforeClose?_append hneedle h hpre hends]
  simp only [Option.map_some, Cursor.past, hclose]

/-! ## §8. Texts, interpolations and comments -/

theorem endsText_eq_false {x : Char} {s : List Char} (hx : x ≠ '<') (hx' : x ≠ '{') :
    endsText (x :: s) = false := by
  simp [endsText, startsInterpolation, startsOpenTag, startsCloseTag, startsDeclaration, hx, hx']

/-- A text without marks goes on up to where something else begins. -/
theorem textRun_print {content r : List Char} (hne : content ≠ []) (hmark : '<' ∉ content)
    (hbrace : '{' ∉ content) (hr : endsText r = true) : textRun (content ++ r) = content := by
  refine textRun_append hne (.inr hr) ?_
  intro u v huv hu hv
  obtain ⟨x, t, rfl⟩ := List.exists_cons_of_ne_nil hv
  have hmem : x ∈ content := by
    rw [huv]
    exact List.mem_append_right _ List.mem_cons_self
  refine endsText_eq_false ?_ ?_
  · rintro rfl
    exact hmark hmem
  · rintro rfl
    exact hbrace hmem

/-- Blanks around a trimmed text are trimmed. -/
theorem trim_pad {content : List Char} (h : Text.trim content = content) :
    Text.trim (' ' :: (content ++ [' '])) = content := by
  have hblank : Text.isBlank ' ' = true := by decide
  cases hcontent : content with
  | nil => decide
  | cons x r =>
    -- a trimmed text does not begin with a blank
    have hx : Text.isBlank x = false := by
      cases hb : Text.isBlank x with
      | false => rfl
      | true =>
        have hlen := congrArg List.length h
        rw [hcontent, Text.trim, List.dropWhile_cons_of_pos hb, Text.trimEnd, List.length_reverse,
          List.length_cons] at hlen
        have h1 := (List.dropWhile_sublist Text.isBlank
          (l := (r.dropWhile Text.isBlank).reverse)).length_le
        have h2 := (List.dropWhile_sublist Text.isBlank (l := r)).length_le
        rw [List.length_reverse] at h1
        omega
    have hkeep : ∀ t, (x :: t).dropWhile Text.isBlank = x :: t := fun t =>
      List.dropWhile_cons_of_neg (by simp [hx])
    have hend : Text.trimEnd (x :: r) = x :: r := by
      rw [hcontent, Text.trim, hkeep] at h
      exact h
    rw [Text.trim, List.dropWhile_cons_of_pos hblank, List.cons_append, hkeep, Text.trimEnd,
      ← List.cons_append, List.reverse_append, List.reverse_singleton, List.singleton_append,
      List.dropWhile_cons_of_pos hblank]
    exact hend

/-- A printed interpolation is read for itself. -/
theorem takeUntil?_interpolation {content : List Char} (h : ¬ ['}', '}'] <:+: content) (o : Nat)
    (r : List Char) :
    Cursor.takeUntil? ⟨o, ' ' :: (content ++ [' ', '}', '}']) ++ r⟩ ['}', '}'] =
      some (' ' :: (content ++ [' ']),
        ⟨o + byteSize (' ' :: (content ++ [' ', '}', '}'])), r⟩) := by
  have hnot : ¬ ['}', '}'] <:+: ' ' :: (content ++ [' ']) ++ ['}'] := by
    intro hin
    rcases Text.pair_infix_append hin with hin | hin | ⟨hlast, -⟩
    · rcases List.infix_cons_iff.1 hin with ⟨t, ht⟩ | hin
      · cases ht
      · exact h (Text.pair_infix_of_append (by decide) hin)
    · revert hin
      decide
    · rw [← List.cons_append, List.getLast?_concat] at hlast
      cases hlast
  have htext : ' ' :: (content ++ [' ', '}', '}']) ++ r =
      ' ' :: (content ++ [' ']) ++ (['}', '}'] ++ r) := by simp
  have hfound := Cursor.splitOn?_append (p := ['}', '}']) (by simp) hnot r
  rw [Cursor.takeUntil?, htext, hfound, Option.map_some, Cursor.past]
  simp

/-- A printed comment is read for itself. -/
theorem takeUntil?_comment {content : List Char} (h : ¬ ['-', '-', '>'] <:+: content) (o : Nat)
    (r : List Char) :
    Cursor.takeUntil? ⟨o, content ++ ['-', '-', '>'] ++ r⟩ ['-', '-', '>'] =
      some (content, ⟨o + byteSize (content ++ ['-', '-', '>']), r⟩) := by
  have hnot : ¬ ['-', '-', '>'] <:+: content ++ ['-', '-'] := by
    intro hin
    have htwo : content ++ ['-', '-'] = content ++ ['-'] ++ ['-'] := by simp
    rw [htwo] at hin
    exact h (Text.infix_of_append_singleton (by simp) (by decide)
      (Text.infix_of_append_singleton (by simp) (by decide) hin))
  have hfound := Cursor.splitOn?_append (p := ['-', '-', '>']) (by simp) hnot r
  rw [Cursor.takeUntil?, List.append_assoc, hfound, Option.map_some, Cursor.past]

end Provenance.Template
