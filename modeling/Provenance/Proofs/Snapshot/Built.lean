import Provenance.Snapshot
import Provenance.Proofs.Json.Document

/-! # Snapshots that are built by setting keys

  A snapshot starts empty, and every key is set in place or at the end.  So its
  keys are distinct (`nodup_keys_ofList`), and every entry in it is one that was
  set (`mem_of_mem_ofList`).  Both hold of the objects inside a snapshot too, as
  these are snapshots themselves: no object that a snapshot shows has two members
  of one key (`PropValue.Built.hasDistinctKeys`).
-/

namespace Provenance

/-! ## §1. Keys and values of an ordered map -/

namespace PropertyMap

section

variable {key : String} {value : PropValue} {entries : List (String × PropValue)}

/-- A key that is there keeps its place, and a new one comes last. -/
theorem keys_setEntry : (setEntry key value entries).map (·.1) =
    if key ∈ entries.map (·.1) then entries.map (·.1) else entries.map (·.1) ++ [key] := by
  induction entries with
  | nil => rfl
  | cons entry rest ih =>
    rw [setEntry]
    by_cases hkey : entry.1 = key
    · rw [if_pos hkey, if_pos (by rw [List.map_cons, hkey]; exact List.mem_cons_self)]
      rfl
    · rw [if_neg hkey, List.map_cons, List.map_cons, ih]
      by_cases hmem : key ∈ rest.map (·.1)
      · rw [if_pos hmem, if_pos (List.mem_cons_of_mem _ hmem)]
      · have hmem' : key ∉ entry.1 :: rest.map (·.1) := by
          rw [List.mem_cons, not_or]
          exact ⟨Ne.symm hkey, hmem⟩
        rw [if_neg hmem, if_neg hmem', List.cons_append]

/-- Setting a key keeps the keys distinct. -/
theorem nodup_keys_setEntry (h : (entries.map (·.1)).Nodup) :
    ((setEntry key value entries).map (·.1)).Nodup := by
  rw [keys_setEntry]
  split
  · exact h
  · next hkey =>
    refine List.nodup_append.2 ⟨h, by simp, fun k hk k' hk' heq => hkey ?_⟩
    rwa [← List.mem_singleton.1 hk', ← heq]

theorem mem_setEntry {entry : String × PropValue} (h : entry ∈ setEntry key value entries) :
    entry = (key, value) ∨ entry ∈ entries := by
  induction entries with
  | nil => exact .inl (List.mem_singleton.1 h)
  | cons first rest ih =>
    rw [setEntry] at h
    split at h
    · next hkey =>
      rcases List.mem_cons.1 h with rfl | h
      · exact .inl (by rw [hkey])
      · exact .inr (List.mem_cons_of_mem _ h)
    · rcases List.mem_cons.1 h with rfl | h
      · exact .inr List.mem_cons_self
      · exact (ih h).imp_right (List.mem_cons_of_mem _)

end

/-- What setting one key preserves holds behind every sequence of settings. -/
theorem ofList_induction {p : List (String × PropValue) → Prop}
    {settings : List (String × PropValue)} (empty : p [])
    (step : ∀ setting ∈ settings, ∀ entries, p entries → p (setEntry setting.1 setting.2 entries)) :
    p (ofList settings).entries := by
  have hfold : ∀ (rest : List (String × PropValue)) (map : PropertyMap),
      (∀ setting ∈ rest, setting ∈ settings) → p map.entries →
        p (rest.foldl (fun map setting => map.insert setting.1 setting.2) map).entries := by
    intro rest
    induction rest with
    | nil => exact fun _ _ h => h
    | cons setting rest ih =>
      intro map hmem h
      exact ih _ (fun s hs => hmem s (List.mem_cons_of_mem _ hs))
        (step setting (hmem setting List.mem_cons_self) _ h)
  exact hfold settings PropertyMap.empty (fun _ h => h) empty

theorem nodup_keys_ofList (settings : List (String × PropValue)) :
    ((ofList settings).entries.map (·.1)).Nodup :=
  ofList_induction (p := fun entries => (entries.map (·.1)).Nodup) List.nodup_nil
    fun _ _ _ h => nodup_keys_setEntry h

/-- Every entry of a snapshot is one that was set. -/
theorem mem_of_mem_ofList {settings : List (String × PropValue)} {entry : String × PropValue}
    (h : entry ∈ (ofList settings).entries) : entry ∈ settings := by
  refine ofList_induction (p := fun entries => ∀ entry ∈ entries, entry ∈ settings)
    (fun _ h => nomatch h) (fun setting hsetting entries ih entry hentry => ?_) entry h
  rcases mem_setEntry hentry with rfl | hentry
  · exact hsetting
  · exact ih entry hentry

/-- Every value of a snapshot is one that was set. -/
theorem exists_setting_of_mem_ofList {settings : List (String × PropValue)}
    {entry : String × PropValue} (h : entry ∈ (ofList settings).entries) :
    ∃ setting ∈ settings, setting.2 = entry.2 := ⟨entry, mem_of_mem_ofList h, rfl⟩

end PropertyMap

/-! ## §2. Values and what is shown of them -/

namespace PropValue

open Json (Document)

mutual

/-- What the JSON form of a value says. -/
def shown : PropValue → Document
  | .literal value => value.document
  | .object entries => .object (shownEntries entries)
  | .array items => .array (shownItems items)
  | .variable name => .string ("[var:" ++ name ++ "]")
  | .expression kind => .string ("[" ++ kind ++ "]")
  | .spread => .bool true

/-- What the JSON forms of the items of an array say. -/
def shownItems : List PropValue → List Document
  | [] => []
  | item :: rest => shown item :: shownItems rest

/-- What the JSON forms of the entries of an object say. -/
def shownEntries : List (String × PropValue) → List (String × Document)
  | [] => []
  | (key, value) :: rest => (key, shown value) :: shownEntries rest

end

mutual

theorem document_toJson : ∀ value : PropValue, value.toJson.document = value.shown
  | .literal _ => rfl
  | .object entries => congrArg Document.object (memberDocuments_membersOf entries)
  | .array items => congrArg Document.array (documents_itemsOf items)
  | .variable _ => rfl
  | .expression _ => rfl
  | .spread => rfl

theorem documents_itemsOf : ∀ items : List PropValue,
    Json.documents (itemsOf items) = shownItems items
  | [] => rfl
  | item :: rest => by
    rw [itemsOf, Json.documents, document_toJson item, documents_itemsOf rest, shownItems]

theorem memberDocuments_membersOf : ∀ entries : List (String × PropValue),
    Json.memberDocuments (membersOf entries) = shownEntries entries
  | [] => rfl
  | (key, value) :: rest => by
    rw [membersOf, Json.memberDocuments, document_toJson value, memberDocuments_membersOf rest,
      shownEntries]

end

theorem shownEntries_eq (entries : List (String × PropValue)) :
    shownEntries entries = entries.map fun entry => (entry.1, entry.2.shown) := by
  induction entries with
  | nil => rfl
  | cons entry rest ih => rw [shownEntries, ih, List.map_cons]

theorem keys_shownEntries (entries : List (String × PropValue)) :
    (shownEntries entries).map (·.1) = entries.map (·.1) := by
  rw [shownEntries_eq, List.map_map]
  rfl

theorem itemsDistinct_shownItems {items : List PropValue}
    (h : ∀ item ∈ items, item.shown.HasDistinctKeys) : Document.ItemsDistinct (shownItems items) := by
  induction items with
  | nil => exact trivial
  | cons item rest ih =>
    exact ⟨h item List.mem_cons_self, ih fun i hi => h i (List.mem_cons_of_mem _ hi)⟩

theorem membersDistinct_shownEntries {entries : List (String × PropValue)}
    (h : ∀ entry ∈ entries, entry.2.shown.HasDistinctKeys) :
    Document.MembersDistinct (shownEntries entries) := by
  induction entries with
  | nil => exact trivial
  | cons entry rest ih =>
    exact ⟨h entry List.mem_cons_self, ih fun e he => h e (List.mem_cons_of_mem _ he)⟩

/-- Values as a program builds them: literals are documents without repeated
    keys, and objects are snapshots again. -/
inductive Built : PropValue → Prop where
  | literal {value : Json} (h : value.document.HasDistinctKeys) : Built (.literal value)
  | object {settings : List (String × PropValue)} (h : ∀ setting ∈ settings, Built setting.2) :
      Built (PropertyMap.ofList settings).toValue
  | array {items : List PropValue} (h : ∀ item ∈ items, Built item) : Built (.array items)
  | named (name : String) : Built (.variable name)
  | expression (kind : String) : Built (.expression kind)
  | spread : Built .spread

/-- Entries with distinct keys and built values show an object without repeated
    keys at any level. -/
theorem hasDistinctKeys_object {entries : List (String × PropValue)}
    (hkeys : (entries.map (·.1)).Nodup) (h : ∀ entry ∈ entries, entry.2.shown.HasDistinctKeys) :
    (PropValue.object entries).shown.HasDistinctKeys := by
  refine ⟨?_, membersDistinct_shownEntries h⟩
  rwa [keys_shownEntries]

theorem Built.hasDistinctKeys {value : PropValue} (h : value.Built) :
    value.shown.HasDistinctKeys := by
  induction h with
  | literal h => exact h
  | @object settings _ ih =>
    refine hasDistinctKeys_object (PropertyMap.nodup_keys_ofList settings) fun entry hentry => ?_
    exact ih entry (PropertyMap.mem_of_mem_ofList hentry)
  | array _ ih => exact itemsDistinct_shownItems ih
  | named name => exact trivial
  | expression kind => exact trivial
  | spread => exact trivial

end PropValue

end Provenance
