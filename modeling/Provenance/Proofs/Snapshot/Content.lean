import Provenance.Proofs.Snapshot.Built
import Provenance.Proofs.Text.PercentDecode

/-! # The content of a snapshot

  The content is there unless every key is reserved.  It holds only characters
  that a component of a URI may hold, and what a reader makes of it is the
  snapshot: decoded as UTF-8 and read as JSON it is one object, whose members are
  the entries under keys that are not reserved, in their order.
-/

namespace Provenance

namespace PropertyMap

open Json (Document)

/-! ## §1. Keys that are kept out -/

theorem isReserved_iff (key : String) : isReserved key = true ↔ key = "key" ∨ key = "ref" ∨
    key.startsWith "data-" = true ∨ key.startsWith "aria-" = true := by
  simp only [isReserved, Bool.or_eq_true, beq_iff_eq, or_assoc]

/-- The entries that the content shows. -/
def visibleEntries (map : PropertyMap) : List (String × PropValue) :=
  map.entries.filter fun entry => !isReserved entry.1

theorem visibleEntries_eq_nil_iff (map : PropertyMap) :
    map.visibleEntries = [] ↔ ∀ entry ∈ map.entries, isReserved entry.1 = true := by
  simp only [visibleEntries, List.filter_eq_nil_iff, Bool.not_eq_true', Bool.not_eq_false]

/-- The content of a snapshot that has something to show. -/
theorem content?_eq (map : PropertyMap) : map.content? =
    if map.visibleEntries = [] then none
    else some (String.ofList (Text.encodeUriComponent
      (PropValue.object map.visibleEntries).toJson.write)) := by
  unfold content?
  show (if map.visibleEntries.isEmpty = true then none else _) = _
  cases h : map.visibleEntries with
  | nil => rfl
  | cons entry rest =>
    simp only [List.isEmpty_cons, Bool.false_eq_true, if_false, if_neg (List.cons_ne_nil _ _)]
    rw [← h]
    rfl

/-- Without an entry to show there is no content. -/
theorem content?_eq_none_iff (map : PropertyMap) :
    map.content? = none ↔ ∀ entry ∈ map.entries, isReserved entry.1 = true := by
  rw [content?_eq, ← visibleEntries_eq_nil_iff]
  by_cases h : map.visibleEntries = []
  · simp [h]
  · simp [h]

/-! ## §2. What the content says -/

/-- The characters of a content: what a component of a URI may hold. -/
def isContentCharacter (c : Char) : Bool :=
  c.isAlphanum || ['-', '_', '.', '!', '~', '*', '\'', '(', ')', '%'].contains c

/-- A content says what entries show: it is a component of a URI whose text is
    one object with the entries as its members, in their order and none twice. -/
structure Says (content : String) (entries : List (String × PropValue)) : Prop where
  component : ∀ c ∈ content.toList, isContentCharacter c = true
  object : ∃ text, Text.decodeUriComponent? content.toList = some text ∧
    Document.read? text = some (.object (entries.map fun entry => (entry.1, entry.2.shown)))
  distinct : (Document.object
    (entries.map fun entry => (entry.1, entry.2.shown))).HasDistinctKeys

theorem isContentCharacter_of_mem {s : List Char} {c : Char} (h : c ∈ Text.encodeUriComponent s) :
    isContentCharacter c = true := by
  rcases Text.mem_encodeUriComponent h with hc | hc
  · simp only [Text.isUnreserved, Bool.or_eq_true, decide_eq_true_eq] at hc
    unfold isContentCharacter
    rcases hc with (((hc | rfl) | rfl) | rfl) | rfl
    · rw [hc]
      rfl
    all_goals decide
  · simp only [List.mem_cons, List.not_mem_nil, or_false] at hc
    rcases hc with rfl | rfl | rfl | rfl | rfl | rfl <;> decide

/-- A content is a component of a URI. -/
theorem isContentCharacter_of_content? {map : PropertyMap} {content : String}
    (h : map.content? = some content) : ∀ c ∈ content.toList, isContentCharacter c = true := by
  rw [content?_eq] at h
  split at h
  · cases h
  · obtain rfl := Option.some.inj h
    intro c hc
    rw [String.toList_ofList] at hc
    exact isContentCharacter_of_mem hc

/-- Any other character does not come in a content. -/
theorem not_mem_content {c : Char} (hc : isContentCharacter c = false) {map : PropertyMap}
    {content : String} (h : map.content? = some content) : c ∉ content.toList := by
  intro hmem
  rw [isContentCharacter_of_content? h c hmem] at hc
  cases hc

theorem content?_says {map : PropertyMap} (hkeys : (map.entries.map (·.1)).Nodup)
    (hvalues : ∀ entry ∈ map.entries, entry.2.shown.HasDistinctKeys) {content : String}
    (h : map.content? = some content) : Says content map.visibleEntries := by
  have hshown := PropValue.shownEntries_eq map.visibleEntries
  have hcomponent := isContentCharacter_of_content? h
  rw [content?_eq] at h
  split at h
  · exact nomatch h
  obtain rfl := Option.some.inj h
  refine ⟨hcomponent, ⟨(PropValue.object map.visibleEntries).toJson.write, ?_, ?_⟩, ?_⟩
  · rw [String.toList_ofList]
    exact Text.decodeUriComponent?_encode _
  · rw [Document.read?_write, PropValue.document_toJson, PropValue.shown, hshown]
  · -- the keys that are left are as distinct as all of them
    have hsub := List.filter_sublist (p := fun entry => !isReserved entry.1) (l := map.entries)
    have h := PropValue.hasDistinctKeys_object (hkeys.sublist (hsub.map (·.1)))
      fun entry hentry => hvalues entry (hsub.subset hentry)
    rwa [PropValue.shown, PropValue.shownEntries_eq] at h

/-- The content of a snapshot gives the snapshot back. -/
theorem content?_roundtrip {settings : List (String × PropValue)}
    (built : ∀ setting ∈ settings, setting.2.Built) :
    ((ofList settings).content? = none ↔ ∀ entry ∈ (ofList settings).entries,
      entry.1 = "key" ∨ entry.1 = "ref" ∨ entry.1.startsWith "data-" = true ∨
        entry.1.startsWith "aria-" = true) ∧
    ∀ content, (ofList settings).content? = some content →
      Says content ((ofList settings).entries.filter fun entry => !isReserved entry.1) := by
  constructor
  · simp only [content?_eq_none_iff, isReserved_iff]
  · intro content h
    refine content?_says (nodup_keys_ofList settings) (fun entry hentry => ?_) h
    obtain ⟨setting, hsetting, heq⟩ := exists_setting_of_mem_ofList hentry
    rw [← heq]
    exact (built setting hsetting).hasDistinctKeys

/-- A text, a nested object with a list, a key that is set again and a reserved
    key. -/
theorem content?_roundtrip_nested :
    let settings := [("title", PropValue.string "a \"b\" é"), ("key", PropValue.flag),
      ("style", (ofList [("top", .literal (.number (.whole (-1)))), ("list",
        .array [.variable "x", .spread])]).toValue), ("title", .expression "CallExpression")]
    ((ofList settings).content? = none ↔ ∀ entry ∈ (ofList settings).entries,
      entry.1 = "key" ∨ entry.1 = "ref" ∨ entry.1.startsWith "data-" = true ∨
        entry.1.startsWith "aria-" = true) ∧
    ∀ content, (ofList settings).content? = some content →
      Says content ((ofList settings).entries.filter fun entry => !isReserved entry.1) := by
  refine content?_roundtrip ?_
  intro setting hsetting
  simp only [List.mem_cons, List.not_mem_nil, or_false] at hsetting
  rcases hsetting with rfl | rfl | rfl | rfl
  · exact .literal trivial
  · exact .literal trivial
  · refine .object fun inner hinner => ?_
    simp only [List.mem_cons, List.not_mem_nil, or_false] at hinner
    rcases hinner with rfl | rfl
    · exact .literal trivial
    · refine .array fun item hitem => ?_
      simp only [List.mem_cons, List.not_mem_nil, or_false] at hitem
      rcases hitem with rfl | rfl
      · exact .named "x"
      · exact .spread
  · exact .expression "CallExpression"

end PropertyMap

end Provenance
