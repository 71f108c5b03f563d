import Mathlib.Data.List.Basic
import Mathlib.Data.List.Induction
import Provenance.Annotation.Markup
import Provenance.Proofs.Snapshot.Content
import Provenance.Template.Snapshot
import Provenance.Template.Token

/-! # Snapshots as ordered maps

  Settings come one after the other, and a later one of the same key replaces the
  value of an earlier one.  What one setting does is said once by the keys
  (`keys_setEntry`), by the values (`get?_insert`) and by the entries that pass a
  test (`filter_setEntry`).  A whole row of settings then gives every key once,
  where it first came, with the value that came last (`IsMapOf`), and a test on
  keys may as well be made on the settings (`filter_ofList`).

  So entries of a tag under keys that the content leaves out have no influence on
  the content, wherever they stand in the tag (`snapshot_ordered`).
-/

namespace Provenance

namespace PropertyMap

/-! ## §1. One setting -/

section

variable {key : String} {value : PropValue} {entries : List (String × PropValue)}

/-- A setting is found under its own key, and what is found under another one stays. -/
theorem find?_setEntry (k : String) :
    ((setEntry key value entries).find? fun entry => entry.1 = k).map (·.2) =
      if k = key then some value else (entries.find? fun entry => entry.1 = k).map (·.2) := by
  induction entries with
  | nil =>
    rw [setEntry, List.find?_singleton]
    by_cases hk : k = key
    · simp [hk]
    · simp [hk, Ne.symm hk]
  | cons entry rest ih =>
    rw [setEntry]
    by_cases hkey : entry.1 = key
    · rw [if_pos hkey]
      by_cases hk : k = key
      · simp [hk, hkey]
      · simp [hk, hkey, Ne.symm hk]
    · rw [if_neg hkey]
      by_cases hk : entry.1 = k
      · -- the entry in front answers, and its key is not the one that is set
        have hne : k ≠ key := fun h => hkey (hk.trans h)
        simp [hk, hne]
      · simpa [hk] using ih

/-- A setting that fails a test on keys is not seen behind the test. -/
theorem filter_setEntry (keep : String → Bool) :
    (setEntry key value entries).filter (fun entry => keep entry.1) =
      if keep key = true then setEntry key value (entries.filter fun entry => keep entry.1)
      else entries.filter fun entry => keep entry.1 := by
  induction entries with
  | nil => by_cases hkeep : keep key = true <;> simp [setEntry, hkeep]
  | cons entry rest ih =>
    rw [setEntry]
    by_cases hkey : entry.1 = key
    · -- the entry that is replaced passes exactly if the setting does
      rw [if_pos hkey]
      by_cases hkeep : keep key = true
      · simp [hkey, hkeep, setEntry]
      · simp [hkey, hkeep]
    · rw [if_neg hkey, List.filter_cons, List.filter_cons, ih]
      by_cases hentry : keep entry.1 = true
      · by_cases hkeep : keep key = true <;> simp [hentry, hkeep, setEntry, hkey]
      · by_cases hkeep : keep key = true <;> simp [hentry, hkeep]

end

theorem get?_insert (map : PropertyMap) (key : String) (value : PropValue) (k : String) :
    (map.insert key value).get? k = if k = key then some value else map.get? k :=
  find?_setEntry k

theorem filter_insert (map : PropertyMap) (key : String) (value : PropValue)
    (keep : String → Bool) : (map.insert key value).filter keep =
      if keep key = true then (map.filter keep).insert key value else map.filter keep := by
  unfold PropertyMap.filter insert
  rw [filter_setEntry]
  split <;> rfl

/-! ## §2. A row of settings -/

theorem ofList_concat (settings : List (String × PropValue)) (setting : String × PropValue) :
    ofList (settings ++ [setting]) = (ofList settings).insert setting.1 setting.2 := by
  rw [ofList, List.foldl_append]
  rfl

/-- The keys stand in the order in which they first came. -/
theorem keys_ofList (settings : List (String × PropValue)) :
    (ofList settings).entries.map (·.1) = (settings.map (·.1)).eraseDups := by
  induction settings using List.reverseRecOn with
  | nil => rfl
  | append_singleton settings setting ih =>
    have hstep : (ofList (settings ++ [setting])).entries =
        setEntry setting.1 setting.2 (ofList settings).entries := by
      rw [ofList_concat]
      rfl
    rw [hstep, keys_setEntry, ih, List.map_append, List.eraseDups_append]
    -- a key that came before adds nothing to the row of keys
    by_cases hmem : setting.1 ∈ settings.map (·.1)
    · rw [if_pos (List.mem_eraseDups.2 hmem)]
      simp [List.removeAll, hmem]
    · rw [if_neg (fun h => hmem (List.mem_eraseDups.1 h))]
      simp [List.removeAll, hmem, List.eraseDups_cons]

/-- The value of a key is the one that came last. -/
theorem get?_ofList (settings : List (String × PropValue)) (key : String) :
    (ofList settings).get? key = settings.reverse.lookup key := by
  induction settings using List.reverseRecOn with
  | nil => rfl
  | append_singleton settings setting ih =>
    rw [ofList_concat, get?_insert, ih, List.reverse_concat, List.lookup_cons]
    by_cases hkey : key = setting.1
    · rw [if_pos hkey, beq_iff_eq.2 hkey]
    · rw [if_neg hkey, beq_eq_false_iff_ne.2 hkey]

/-- Settings may be tested before they are made. -/
theorem filter_ofList (settings : List (String × PropValue)) (keep : String → Bool) :
    (ofList settings).filter keep = ofList (settings.filter fun setting => keep setting.1) := by
  induction settings using List.reverseRecOn with
  | nil => rfl
  | append_singleton settings setting ih =>
    rw [ofList_concat, filter_insert, ih, List.filter_append]
    by_cases hkeep : keep setting.1 = true
    · rw [if_pos hkeep, List.filter_cons, if_pos hkeep, List.filter_nil, ofList_concat]
    · rw [if_neg hkeep, List.filter_cons, if_neg hkeep, List.filter_nil, List.append_nil]

theorem contains_iff (map : PropertyMap) (key : String) :
    map.contains key = true ↔ key ∈ map.entries.map (·.1) := by
  simp [contains, get?]

/-- Entries under distinct keys are told by the keys and their values. -/
theorem entries_eq_filterMap {map : PropertyMap} (hkeys : (map.entries.map (·.1)).Nodup) :
    map.entries =
      (map.entries.map (·.1)).filterMap fun key => (map.get? key).map fun value => (key, value) := by
  obtain ⟨entries⟩ := map
  induction entries with
  | nil => rfl
  | cons entry rest ih =>
    obtain ⟨hentry, hrest⟩ := List.nodup_cons.1 hkeys
    have hvalue : (PropertyMap.mk (entry :: rest)).get? entry.1 = some entry.2 := by
      simp [get?]
    -- the first entry is not the one of a later key
    have hlater : ∀ key ∈ rest.map (·.1),
        (PropertyMap.mk (entry :: rest)).get? key = (PropertyMap.mk rest).get? key := by
      intro key hkey
      have hne : entry.1 ≠ key := fun h => hentry (by rwa [← h] at hkey)
      simp [get?, hne]
    rw [List.map_cons, List.filterMap_cons, hvalue, Option.map_some]
    refine congrArg (entry :: ·) ((ih hrest).trans (List.filterMap_congr fun key hkey => ?_))
    rw [hlater key hkey]

/-- Settings without those that a later one replaces: every key once, where it first
    comes, with the value that comes last. -/
def lastSettings (settings : List (String × PropValue)) : List (String × PropValue) :=
  (settings.map (·.1)).eraseDups.filterMap fun key =>
    (settings.reverse.lookup key).map fun value => (key, value)

/-- A snapshot is the ordered map of some settings, however it is looked at. -/
structure IsMapOf (map : PropertyMap) (settings : List (String × PropValue)) : Prop where
  distinct : (map.entries.map (·.1)).Nodup
  keys : map.entries.map (·.1) = (settings.map (·.1)).eraseDups
  entries : map.entries = lastSettings settings
  get : ∀ key, map.get? key = settings.reverse.lookup key
  contains : ∀ key, map.contains key = true ↔ key ∈ settings.map (·.1)
  size : map.size = (settings.map (·.1)).eraseDups.length
  isEmpty : map.isEmpty = true ↔ settings = []
  text : map.toJson.write = '\x7b' :: Json.commaSeparated ((lastSettings settings).map fun entry =>
    Json.quote entry.1 ++ ':' :: entry.2.toJson.write) ++ ['\x7d']

theorem writeMembers_membersOf (entries : List (String × PropValue)) :
    Json.writeMembers (PropValue.membersOf entries) =
      entries.map fun entry => Json.quote entry.1 ++ ':' :: entry.2.toJson.write := by
  induction entries with
  | nil => rfl
  | cons entry rest ih => rw [PropValue.membersOf, Json.writeMembers, ih, List.map_cons]

theorem isMapOf_ofList (settings : List (String × PropValue)) :
    IsMapOf (ofList settings) settings := by
  have hdistinct := nodup_keys_ofList settings
  have hkeys := keys_ofList settings
  have hentries : (ofList settings).entries = lastSettings settings := by
    have hget : (ofList settings).get? = fun key => settings.reverse.lookup key :=
      funext (get?_ofList settings)
    rw [entries_eq_filterMap hdistinct, hkeys, hget]
    rfl
  have hsize : (ofList settings).size = (settings.map (·.1)).eraseDups.length := by
    rw [← hkeys, List.length_map]
    rfl
  refine ⟨hdistinct, hkeys, hentries, get?_ofList settings, fun key => ?_, hsize, ?_, ?_⟩
  · rw [contains_iff, hkeys, List.mem_eraseDups]
  · rw [isEmpty, List.isEmpty_iff, ← List.map_eq_nil_iff, hkeys]
    cases settings with
    | nil => exact iff_of_true rfl rfl
    | cons setting rest => simp [List.eraseDups_cons]
  · rw [toJson, toValue, PropValue.toJson, Json.write, writeMembers_membersOf, hentries]

/-- The value of a key is that of a setting behind which the key is not set again. -/
theorem get?_ofList_last {α : Type} {f : α → String × PropValue} {front rear : List α} {a : α}
    (h : ∀ b ∈ rear, (f b).1 ≠ (f a).1) :
    (ofList ((front ++ a :: rear).map f)).get? (f a).1 = some (f a).2 := by
  rw [get?_ofList, List.lookup_eq_some_iff]
  refine ⟨(rear.map f).reverse, (front.map f).reverse, by simp, ?_⟩
  intro later hlater
  obtain ⟨b, hb, rfl⟩ := List.mem_map.1 (List.mem_reverse.1 hlater)
  exact bne_iff_ne.2 (h b hb).symm

/-- Each key that is set comes last somewhere. -/
theorem exists_last_of_mem {α : Type} {key : α → String} {k : String} {l : List α}
    (h : k ∈ l.map key) :
    ∃ front a rear, l = front ++ a :: rear ∧ key a = k ∧ ∀ b ∈ rear, key b ≠ k := by
  induction l with
  | nil => cases h
  | cons a l ih =>
    by_cases hl : k ∈ l.map key
    · obtain ⟨front, b, rear, rfl, hb, hrear⟩ := ih hl
      exact ⟨a :: front, b, rear, rfl, hb, hrear⟩
    · rcases List.mem_cons.1 h with rfl | h
      · refine ⟨[], a, l, rfl, rfl, ?_⟩
        intro b hb heq
        exact hl (heq ▸ List.mem_map_of_mem hb)
      · exact absurd h hl

/-- Two rows of settings of the same keys give the same snapshot exactly if they agree on
    all settings that no later one replaces. -/
theorem ofList_map_eq_iff {α : Type} {l : List α} {f g : α → String × PropValue}
    (hkeys : ∀ a ∈ l, (f a).1 = (g a).1) :
    ofList (l.map f) = ofList (l.map g) ↔
      ∀ front a rear, l = front ++ a :: rear → (∀ b ∈ rear, (f b).1 ≠ (f a).1) → f a = g a := by
  have hget : ∀ {h : α → String × PropValue} {front a rear}, l = front ++ a :: rear →
      (∀ b ∈ rear, (h b).1 ≠ (h a).1) → (ofList (l.map h)).get? (h a).1 = some (h a).2 := by
    intro h front a rear hl hlast
    rw [hl]
    exact get?_ofList_last hlast
  have hlast : ∀ {front a rear}, l = front ++ a :: rear →
      (∀ b ∈ rear, (f b).1 ≠ (f a).1) → ∀ b ∈ rear, (g b).1 ≠ (g a).1 := by
    intro front a rear hl hrear b hb
    rw [← hkeys a (by simp [hl]), ← hkeys b (by simp [hl, hb])]
    exact hrear b hb
  constructor
  · intro heq front a rear hl hrear
    have hkey : (f a).1 = (g a).1 := hkeys a (by simp [hl])
    have hvalue := hget hl hrear
    rw [heq, hkey, hget hl (hlast hl hrear)] at hvalue
    exact Prod.ext hkey (Option.some.inj hvalue).symm
  · intro hall
    have hmap : (l.map f).map (·.1) = (l.map g).map (·.1) := by
      rw [List.map_map, List.map_map]
      exact List.map_congr_left hkeys
    have hentries : (ofList (l.map f)).entries = (ofList (l.map g)).entries := by
      rw [entries_eq_filterMap (nodup_keys_ofList (l.map f)),
        entries_eq_filterMap (nodup_keys_ofList (l.map g)), keys_ofList, keys_ofList, hmap]
      apply List.filterMap_congr
      intro key hkey
      rw [← hmap, List.mem_eraseDups, List.map_map] at hkey
      -- both snapshots have the value of the last setting of the key
      obtain ⟨front, a, rear, hl, rfl, hrear⟩ := exists_last_of_mem hkey
      have hvalue := hget hl (hlast hl hrear)
      rw [← hall front a rear hl hrear] at hvalue
      exact congrArg _ ((hget hl hrear).trans hvalue.symm)
    exact congrArg PropertyMap.mk hentries

/-! ## §3. Content -/

/-- The settings that the content can show. -/
def visible (settings : List (String × PropValue)) : List (String × PropValue) :=
  settings.filter fun setting => !isReserved setting.1

/-- The content depends on the settings that it can show only. -/
theorem content?_ofList_congr {settings settings' : List (String × PropValue)}
    (h : visible settings = visible settings') :
    (ofList settings).content? = (ofList settings').content? := by
  have hfilter : (ofList settings).filter (fun key => !isReserved key) =
      (ofList settings').filter fun key => !isReserved key := by
    rw [filter_ofList, filter_ofList]
    exact congrArg ofList h
  unfold content?
  rw [hfilter]

end PropertyMap

open PropertyMap (visible)

/-- A snapshot is the ordered map of its settings: every key once, where it was first
    set, with the value that was set last.  Keeping some keys of it is the same as
    making only the settings of those keys.  So tags of either dialect that differ in
    what they set under reserved keys only, wherever it stands, have the same content. -/
theorem snapshot_ordered :
    (∀ settings : List (String × PropValue),
      PropertyMap.IsMapOf (PropertyMap.ofList settings) settings) ∧
    (∀ (settings : List (String × PropValue)) (keep : String → Bool),
      (PropertyMap.ofList settings).filter keep =
        PropertyMap.ofList (settings.filter fun setting => keep setting.1)) ∧
    (∀ tag tag' : Template.OpenTag,
      visible (tag.entries.map Template.Entry.setting) =
          visible (tag'.entries.map Template.Entry.setting) →
        tag.snapshot.content? = tag'.snapshot.content?) ∧
    ∀ attributes attributes' : List Script.Tree,
      visible (attributes.filterMap Script.attributeSetting?) =
          visible (attributes'.filterMap Script.attributeSetting?) →
        (Script.snapshot attributes).content? = (Script.snapshot attributes').content? := by
  refine ⟨PropertyMap.isMapOf_ofList, PropertyMap.filter_ofList, ?_, ?_⟩
  · intro tag tag' h
    exact PropertyMap.content?_ofList_congr h
  · intro attributes attributes' h
    exact PropertyMap.content?_ofList_congr h

/-- Reserved entries in front, between and behind, and a key that is set twice. -/
theorem snapshot_ordered_reserved :
    ∃ tag d tag' d',
      Template.readOpenTag ⟨0, "<p key=\"k\" a=\"1\" data-i b :ref=\"r\" a=\"2\" aria-c>".toList⟩ =
        .ok (tag, d) ∧
      Template.readOpenTag ⟨0, "<p a=\"1\" b a=\"2\">".toList⟩ = .ok (tag', d') ∧
      visible (tag.entries.map Template.Entry.setting) =
        visible (tag'.entries.map Template.Entry.setting) ∧
      tag.snapshot.content? = tag'.snapshot.content? ∧
      tag'.snapshot.content? = some "%7B%22a%22%3A%222%22%2C%22b%22%3Atrue%7D" ∧
      (Script.snapshot ([("ref", "r"), ("a", "1"), ("data-i", "")].map Script.newAttribute)).content? =
        (Script.snapshot [Script.newAttribute ("a", "1")]).content? := by
  obtain ⟨tag, htag⟩ : ∃ tag : Template.OpenTag, tag = ⟨"p", 0, 2,
      [.attribute ⟨"key", some "k", 3⟩, .attribute ⟨"a", some "1", 11⟩,
        .attribute ⟨"data-i", none, 17⟩, .attribute ⟨"b", none, 24⟩,
        .directive ⟨":ref", "bind", some "ref", [], some "r", 26⟩,
        .attribute ⟨"a", some "2", 35⟩, .attribute ⟨"aria-c", none, 41⟩], false⟩ := ⟨_, rfl⟩
  obtain ⟨tag', htag'⟩ : ∃ tag' : Template.OpenTag, tag' = ⟨"p", 0, 2,
      [.attribute ⟨"a", some "1", 3⟩, .attribute ⟨"b", none, 9⟩,
        .attribute ⟨"a", some "2", 11⟩], false⟩ := ⟨_, rfl⟩
  have hread : Template.readOpenTag
      ⟨0, "<p key=\"k\" a=\"1\" data-i b :ref=\"r\" a=\"2\" aria-c>".toList⟩ =
        .ok (tag, ⟨48, []⟩) := by
    subst htag
    decide +kernel
  have hread' : Template.readOpenTag ⟨0, "<p a=\"1\" b a=\"2\">".toList⟩ =
      .ok (tag', ⟨17, []⟩) := by
    subst htag'
    decide +kernel
  have hreserved : ["key", "data-i", "ref", "aria-c"].all PropertyMap.isReserved = true := by
    decide +kernel
  have hbare : ["a", "b"].all (fun key => !PropertyMap.isReserved key) = true := by
    decide +kernel
  simp only [List.all_cons, List.all_nil, Bool.and_true, Bool.and_eq_true, Bool.not_eq_true']
    at hreserved hbare
  have hvisible : visible (tag.entries.map Template.Entry.setting) =
      visible (tag'.entries.map Template.Entry.setting) := by
    subst htag htag'
    simp [visible, Template.Entry.setting, Template.Directive.setting, hreserved, hbare]
  have hvisible' : visible (([("ref", "r"), ("a", "1"), ("data-i", "")].map
      Script.newAttribute).filterMap Script.attributeSetting?) =
        visible ([Script.newAttribute ("a", "1")].filterMap Script.attributeSetting?) := by
    simp [visible, Script.newAttribute, Script.attributeSetting?, Script.nameText, hreserved, hbare]
  have hcontent : tag'.snapshot.content? = some "%7B%22a%22%3A%222%22%2C%22b%22%3Atrue%7D" := by
    subst htag'
    decide +kernel
  exact ⟨tag, _, tag', _, hread, hread', hvisible, snapshot_ordered.2.2.1 tag tag' hvisible,
    hcontent, snapshot_ordered.2.2.2 _ _ hvisible'⟩

end Provenance
