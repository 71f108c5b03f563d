import Provenance.Marker
import Provenance.Proofs.Template.Tag
import Provenance.Proofs.Text.Reference

/-! # Reading spliced markup

  The attributes of a marker, spliced in behind a tag name, are read as entries of
  the tag in front of those that were there, if their names can stand in a tag
  (`readTagBody_markup`).
-/

namespace Provenance.Template

open Text (Cursor isTagBlank byteSize byteSize_append byteSize_cons)
open Marker (attributeMarkup)

/-- A name that is read as one attribute name. -/
structure IsAttributeName (name : List Char) : Prop where
  ne_nil : name ≠ []
  part : ∀ x ∈ name, isTagBlank x = false ∧ x ≠ '=' ∧ x ≠ '>'
  head : name.head? ≠ some '/'

/-- A name ends where what follows it goes on with no name. -/
theorem attributeName_more_append {name t : List Char}
    (h : ∀ x ∈ name, isTagBlank x = false ∧ x ≠ '=' ∧ x ≠ '>') (ht : attributeName.more t = [])
    (hslash : '/' ∈ name → t.head? ≠ some '>') : attributeName.more (name ++ t) = name := by
  induction name with
  | nil => exact ht
  | cons x name ih =>
    obtain ⟨hblank, heq, hmark⟩ := h x List.mem_cons_self
    have htail := fun y hy => h y (List.mem_cons_of_mem x hy)
    -- no `/>` stands in a name, nor does one begin with its last character
    have hhead : ¬ (x = '/' ∧ (name ++ t).head? = some '>') := by
      rintro ⟨rfl, hhead⟩
      cases name with
      | nil => exact hslash List.mem_cons_self hhead
      | cons y name => exact (htail y List.mem_cons_self).2.2 (Option.some.inj hhead)
    have hcond : ¬ (isTagBlank x || x = '=' || x = '>' ||
        (x = '/' && (name ++ t).head? = some '>')) = true := by
      simpa [hblank, heq, hmark] using hhead
    rw [List.cons_append, attributeName.more, if_neg hcond,
      ih htail fun hmem => hslash (List.mem_cons_of_mem x hmem)]

theorem attributeName_append {name t : List Char} (h : IsAttributeName name)
    (ht : attributeName.more t = []) (hslash : '/' ∈ name → t.head? ≠ some '>') :
    attributeName (name ++ t) = name := by
  have hpart := h.part
  cases name with
  | nil => exact absurd rfl h.ne_nil
  | cons x name =>
    show x :: attributeName.more (name ++ t) = x :: name
    rw [attributeName_more_append (fun y hy => hpart y (List.mem_cons_of_mem x hy)) ht
      fun hmem => hslash (List.mem_cons_of_mem x hmem)]

/-- A name with a value in quotes is one entry. -/
theorem readEntry_quoted {name value : List Char} (h : IsAttributeName name) (hvalue : '"' ∉ value)
    (o : Nat) (t : List Char) :
    readEntry ⟨o, name ++ '=' :: '"' :: (value ++ '"' :: t)⟩ =
      .ok (.ofName name (some value) o, ⟨o + (byteSize name + (2 + byteSize value + 1)), t⟩) := by
  have hname : attributeName (name ++ '=' :: '"' :: (value ++ '"' :: t)) = name :=
    attributeName_append h (by simp [attributeName.more]) (by simp)
  have hgap : entryGap ⟨o, name ++ '=' :: '"' :: (value ++ '"' :: t)⟩ =
      ⟨o + byteSize name, '=' :: '"' :: (value ++ '"' :: t)⟩ := by
    unfold entryGap
    rw [hname]
    simp [Cursor.skip, Cursor.past, Cursor.skipWhile, Cursor.takeWhile, isTagBlank]
  have hread : readValue (((entryGap ⟨o, name ++ '=' :: '"' ::
      (value ++ '"' :: t)⟩).skip 1).skipWhile isTagBlank) =
      .ok (value, ⟨o + (byteSize name + (2 + byteSize value + 1)), t⟩) := by
    have hblank : Cursor.skipWhile ⟨o + byteSize name + '='.utf8Size,
        '"' :: (value ++ '"' :: t)⟩ isTagBlank =
        ⟨o + byteSize name + '='.utf8Size, '"' :: (value ++ '"' :: t)⟩ := by
      simp [Cursor.past, Cursor.skipWhile, Cursor.takeWhile, isTagBlank]
    rw [hgap, Cursor.skip_one rfl, hblank, readValue_of_quote (.inl rfl), Cursor.skip_one rfl,
      Cursor.takeUntil?, Cursor.splitOn?_singleton hvalue]
    simp only [Option.map_some, Cursor.past, byteSize_append]
    have hend : o + byteSize name + '='.utf8Size + '"'.utf8Size +
        (byteSize value + byteSize ['"']) =
        o + (byteSize name + (2 + byteSize value + 1)) := by
      have h1 : '='.utf8Size = 1 := rfl
      have h2 : '"'.utf8Size = 1 := rfl
      have h3 : byteSize ['"'] = 1 := rfl
      omega
    rw [hend]
  rw [readEntry_of_value (by rw [hgap]) hread, hname]

/-- The first character of a name starts an entry. -/
theorem IsAttributeName.exists_cons {name : List Char} (h : IsAttributeName name) (t : List Char) :
    ∃ x r, name ++ t = x :: r ∧ isTagBlank x = false ∧ x ≠ '>' ∧ x ≠ '/' := by
  obtain ⟨x, r, hname⟩ := List.exists_cons_of_ne_nil h.ne_nil
  obtain ⟨hblank, -, hmark⟩ := h.part x (by rw [hname]; exact List.mem_cons_self)
  refine ⟨x, r ++ t, by rw [hname]; rfl, hblank, hmark, ?_⟩
  rintro rfl
  exact h.head (by rw [hname]; rfl)

/-- An entry behind a blank comes in front of the other entries of a tag. -/
theorem readTagBody_blank {o : Nat} {name t : List Char} {e : Entry} {next : Cursor}
    (h : IsAttributeName name) (he : readEntry ⟨o + 1, name ++ t⟩ = .ok (e, next)) :
    readTagBody ⟨o, ' ' :: (name ++ t)⟩ = withEntries [e] (readTagBody next) := by
  obtain ⟨x, r, hcons, hblank, hx⟩ := h.exists_cons t
  have hskip : Cursor.skipWhile ⟨o, ' ' :: (name ++ t)⟩ isTagBlank = ⟨o + 1, name ++ t⟩ := by
    rw [hcons]
    simp [Cursor.past, Cursor.skipWhile, Cursor.takeWhile, hblank,
      show isTagBlank ' ' = true from rfl, show ' '.utf8Size = 1 from rfl]
  apply readTagBody_entry (x := x) (r := r) _ hx
  · rw [hskip]
    exact he
  · rw [hskip, hcons]

theorem readsBody_entry {o : Nat} {name t : List Char} {e : Entry} {next d : Cursor}
    {body : TagBody} (h : IsAttributeName name)
    (he : readEntry ⟨o + 1, name ++ t⟩ = .ok (e, next)) (hbody : ReadsBody next body d) :
    ReadsBody ⟨o, ' ' :: (name ++ t)⟩ ⟨e :: body.entries, body.selfClosing⟩ d := by
  apply reads_of_readTagBody
  rw [readTagBody_blank h he, readTagBody_of_reads hbody]
  rfl

/-- The entries that attributes of a marker are read as, where the first one stands at
    `offset` with its blank. -/
def entriesAt (offset : Nat) : List (String × String) → List Entry
  | [] => []
  | e :: more =>
    .ofName e.1.toList (some (Text.escapeValue e.2.toList)) (offset + 1) ::
      entriesAt (offset + byteSize (attributeMarkup e)) more

/-- An attribute of a marker is read as one entry, whatever follows it. -/
theorem readTagBody_attribute {e : String × String} (h : IsAttributeName e.1.toList) (o : Nat)
    (t : List Char) :
    readTagBody ⟨o, attributeMarkup e ++ t⟩ =
      withEntries [.ofName e.1.toList (some (Text.escapeValue e.2.toList)) (o + 1)]
        (readTagBody ⟨o + byteSize (attributeMarkup e), t⟩) := by
  have htext : attributeMarkup e ++ t =
      ' ' :: (e.1.toList ++ '=' :: '"' :: (Text.escapeValue e.2.toList ++ '"' :: t)) := by
    simp [attributeMarkup]
  have hsize : byteSize (attributeMarkup e) =
      1 + (byteSize e.1.toList + (2 + byteSize (Text.escapeValue e.2.toList) + 1)) := by
    have h1 : ' '.utf8Size = 1 := rfl
    have h2 : '='.utf8Size = 1 := rfl
    have h3 : '"'.utf8Size = 1 := rfl
    simp only [attributeMarkup, byteSize_append, byteSize_cons, List.cons_append, Text.byteSize_nil]
    omega
  have hread := readEntry_quoted h (Text.quote_not_mem_escapeValue e.2.toList) (o + 1) t
  rw [htext, hsize, ← Nat.add_assoc]
  exact readTagBody_blank h hread

/-- Attributes of a marker in front of the rest of a start tag are read as entries in front
    of what is read there. -/
theorem readTagBody_markup {added : List (String × String)}
    (h : ∀ e ∈ added, IsAttributeName e.1.toList) (o : Nat) (t : List Char) :
    readTagBody ⟨o, added.flatMap attributeMarkup ++ t⟩ =
      withEntries (entriesAt o added)
        (readTagBody ⟨o + byteSize (added.flatMap attributeMarkup), t⟩) := by
  induction added generalizing o with
  | nil => exact (withEntries_nil _).symm
  | cons e added ih =>
    have hrest := ih (fun e' he' => h e' (List.mem_cons_of_mem e he'))
      (o + byteSize (attributeMarkup e))
    rw [List.flatMap_cons, List.append_assoc, readTagBody_attribute (h e List.mem_cons_self), hrest,
      withEntries_withEntries, byteSize_append, Nat.add_assoc]
    rfl

theorem readsBody_markup {added : List (String × String)}
    (h : ∀ e ∈ added, IsAttributeName e.1.toList) {o : Nat} {t : List Char} {body : TagBody}
    {d : Cursor} (hbody : ReadsBody ⟨o + byteSize (added.flatMap attributeMarkup), t⟩ body d) :
    ReadsBody ⟨o, added.flatMap attributeMarkup ++ t⟩
      ⟨entriesAt o added ++ body.entries, body.selfClosing⟩ d := by
  apply reads_of_readTagBody
  rw [readTagBody_markup h, readTagBody_of_reads hbody]
  rfl

end Provenance.Template
