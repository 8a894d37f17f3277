import DazeApi.Channels.MultiKey
import DazeApi.Lib.Positions

/-!
# Rows that represent a keyring

The row of a multi-key channel represents its keyring: the key text reads back as the keys,
the size counts them, and the status at a position is that of its key.  What the code does to
a row ends in `Update`, so the lemmas about `saved` say when a row that is saved represents a
keyring.
-/

namespace DazeApi.Channels.MultiKey

open Positions

/-! ## Texts of keys -/

/-- Keys whose text reads back as these keys: none has a line break, neither the first nor
the last is empty, and the text is no JSON array. -/
def writable (env : Env) (keys : List String) : Bool :=
  keys ≠ [] && keys.all (newline ∉ ·.toList) && keys.head? ≠ some "" && keys.getLast? ≠ some "" &&
    (jsonKeys env.unmarshal (joinKeys keys)).isNone

/-- The text is not that of a JSON array without elements. -/
def counts (env : Env) (text : String) : Bool := jsonKeys env.unmarshal text ≠ some []

section

variable {env : Env} {row c : Channel} {keys : List String} {text : String}

theorem getKeys_eq_readKeys (h : row.keys = []) :
    row.getKeys env.unmarshal = readKeys env row.key := by
  simp [Channel.getKeys, readKeys, h]

/-- `Update` counts the keys that `GetKeys` reads, but for an empty JSON array. -/
theorem countedKeys_eq (h : counts env text = true) :
    countedKeys env.unmarshal text = readKeys env text := by
  simp only [counts, ne_eq, decide_eq_true_eq] at h
  simp only [countedKeys, readKeys]
  split
  next => rfl
  next =>
    cases hj : jsonKeys env.unmarshal text with
    | none => simp
    | some ks =>
        cases ks with
        | nil => exact absurd hj h
        | cons k ks => simp

theorem joinKeys_ne_empty (hhead : keys.head? ≠ some "") (hne : keys ≠ []) : joinKeys keys ≠ "" := by
  cases keys with
  | nil => exact absurd rfl hne
  | cons k ks =>
      have hk : k ≠ "" := by simpa using hhead
      intro hjoin
      have hlist := congrArg String.toList hjoin
      cases ks with
      | nil => exact hk (by simpa [joinKeys, Text.join, List.intercalate] using hjoin)
      | cons l ls =>
          rw [joinKeys, Text.join, String.toList_ofList, Text.intercalate_cons_cons] at hlist
          simp at hlist

/-- The text of writable keys reads back as these keys. -/
theorem writable_spec (h : writable env keys = true) :
    joinKeys keys ≠ "" ∧ counts env (joinKeys keys) = true ∧ readKeys env (joinKeys keys) = keys := by
  simp only [writable, Bool.and_eq_true, decide_eq_true_eq, ne_eq, List.all_eq_true,
    Option.isNone_iff_eq_none] at h
  obtain ⟨⟨⟨⟨hne, hsep⟩, hhead⟩, hlast⟩, hjson⟩ := h
  have htext := joinKeys_ne_empty hhead hne
  refine ⟨htext, by simp [counts, hjson], ?_⟩
  rw [readKeys, if_neg htext, hjson, Option.getD_none, lineKeys, joinKeys]
  show Text.splitAt (Text.trimChar (Text.join keys newline) newline) newline = keys
  rw [Text.trimChar_join hsep hhead hlast, Text.splitAt_join keys hne hsep]

/-! ## Rows that represent a keyring -/

structure Represents (env : Env) (row : Channel) (ring : Ring) : Prop where
  multi : row.info.isMultiKey = ring.multi
  parsed : row.keys = []
  keys : readKeys env row.key = ring.keys
  lookup : ∀ j : Nat, (row.info.multiKeyStatusList.lookup (j : Int)).getD statusEnabled =
    ring.statuses.getD j statusEnabled
  text : ring.multi = true → counts env row.key = true
  size : ring.multi = true → row.info.multiKeySize = ring.entries.length
  range : ring.multi = true → ∀ i ∈ row.info.multiKeyStatusList, i < ring.statuses.length
  single : ring.multi = false → ring.entries = fresh ring.keys

theorem statuses_fresh (keys : List String) :
    (fresh keys).map Entry.status = List.replicate keys.length statusEnabled := by
  simp [fresh, Function.comp_def]

theorem keys_fresh (keys : List String) : (fresh keys).map Entry.key = keys := by
  simp [fresh, Function.comp_def]

theorem Represents.matches_entries {ring : Ring} (h : Represents env row ring)
    (hring : ring.multi = true) : Matches statusEnabled row.info.multiKeyStatusList ring.statuses :=
  ⟨h.range hring, h.lookup⟩

/-- The status at the position of an entry. -/
theorem Represents.keyStatus {ring : Ring} (h : Represents env row ring) {j : Nat} {e : Entry}
    (hj : ring.entries[j]? = some e) : row.info.keyStatus j = e.status := by
  rw [ChannelInfo.keyStatus, h.lookup j, Ring.statuses]
  simp [List.getD_eq_getElem?_getD, hj]

/-- The status of the channel is not in the keyring. -/
theorem Represents.setChannelStatus {ring : Ring} (h : Represents env row ring) (status : Int) :
    Represents env { row with status := status } ring :=
  ⟨h.multi, h.parsed, h.keys, h.lookup, h.text, h.size, h.range, h.single⟩

/-- A channel with one key has no status for any position. -/
theorem Represents.lookup_single {ring : Ring} (h : Represents env row ring)
    (hring : ring.multi = false) (j : Nat) :
    (row.info.multiKeyStatusList.lookup (j : Int)).getD statusEnabled = statusEnabled := by
  rw [h.lookup j, Ring.statuses, h.single hring, statuses_fresh, getD_replicate]

theorem Represents.getKeys {ring : Ring} (h : Represents env row ring) :
    row.getKeys env.unmarshal = ring.keys := by
  rw [getKeys_eq_readKeys h.parsed, h.keys]

/-- `Update` of a multi-key channel. -/
theorem represents_saved_multi {entries : List Entry} (text : String) (hparsed : row.keys = [])
    (hmulti : c.info.isMultiKey = true) (htext : updatesField "" row.key c.key = text)
    (hcounts : counts env text = true) (hkeys : readKeys env text = entries.map Entry.key)
    (hlook : ∀ j : Nat, j < entries.length →
      (c.info.multiKeyStatusList.lookup (j : Int)).getD statusEnabled =
        (entries.map Entry.status).getD j statusEnabled) :
    Represents env (saved env row c) ⟨true, entries⟩ := by
  have hkeyStr : (if c.key ≠ "" then c.key else row.key) = text := by
    rw [← htext, updatesField]
    by_cases hk : c.key = "" <;> simp [hk]
  have hrec : recalculated env.unmarshal row.key c =
      { c with
        group := normalizeGroupField c.group
        info := c.info.resized entries.length } := by
    simp only [recalculated, hmulti, if_true, hkeyStr, countedKeys_eq hcounts, hkeys,
      List.length_map]
  have hinfo : (saved env row c).info = c.info.resized entries.length := by
    have hz : (c.info.resized entries.length).isZero = false := by
      simp [ChannelInfo.isZero, ChannelInfo.resized, hmulti]
    simp [saved, updates, hrec, hz]
  have hkey : (saved env row c).key = text := by
    rw [← htext]
    simp [saved, updates, hrec]
  have hcut : Matches statusEnabled (saved env row c).info.multiKeyStatusList
      (entries.map Entry.status) := by
    rw [hinfo]
    have h := matches_cut (entries.map Entry.status) (by simpa using hlook)
    simpa [ChannelInfo.resized, cutStatuses, cut] using h
  constructor
  · rw [hinfo]
    exact hmulti
  · exact hparsed
  · rw [hkey]
    exact hkeys
  · exact hcut.lookup
  · intro _
    rw [hkey]
    exact hcounts
  · intro _
    rw [hinfo]
    rfl
  · intro _
    exact hcut.range
  · intro h
    cases h

/-- `Update` of a channel with one key. -/
theorem represents_saved_single (text : String) (hparsed : row.keys = [])
    (hmulti : c.info.isMultiKey = false)
    (hlook : ∀ j : Nat,
      (c.info.multiKeyStatusList.lookup (j : Int)).getD statusEnabled = statusEnabled)
    (hzero : c.info.isZero = true → row.info.isMultiKey = false ∧ ∀ j : Nat,
      (row.info.multiKeyStatusList.lookup (j : Int)).getD statusEnabled = statusEnabled)
    (htext : updatesField "" row.key c.key = text) (hkeys : readKeys env text = keys) :
    Represents env (saved env row c) ⟨false, fresh keys⟩ := by
  have hrec : recalculated env.unmarshal row.key c =
      { c with group := normalizeGroupField c.group } := by
    simp [recalculated, hmulti]
  have hinfo : (saved env row c).info.isMultiKey = false ∧ ∀ j : Nat,
      ((saved env row c).info.multiKeyStatusList.lookup (j : Int)).getD statusEnabled =
        statusEnabled := by
    simp only [saved, updates, hrec]
    split
    next hz => exact hzero hz
    next => exact ⟨hmulti, hlook⟩
  have hkey : (saved env row c).key = text := by
    rw [← htext]
    simp [saved, updates, hrec]
  constructor
  · exact hinfo.1
  · exact hparsed
  · rw [hkey, Ring.keys, keys_fresh]
    exact hkeys
  · intro j
    rw [hinfo.2 j, Ring.statuses, statuses_fresh, getD_replicate]
  · intro h
    cases h
  · intro h
    cases h
  · intro h
    cases h
  · intro _
    rw [Ring.keys, keys_fresh]

end

end DazeApi.Channels.MultiKey
