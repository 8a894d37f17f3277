import DazeApi.Channels.Represents
import Mathlib.Data.List.InsertIdx

/-!
# The code keeps the keyring

`keeps` says of a request what it takes for the row to represent the keyring after it as
well, and `kept_of_keeps` that in a history of such requests the row of a multi-key channel
always does.
-/

namespace DazeApi.Channels.MultiKey

open Positions

/-! ## The property -/

/-- The row of a multi-key channel has the keys of the keyring in their order, with their
statuses, and no status beyond its size. -/
def Kept (env : Env) (s : State) : Prop :=
  ∀ row, s.row = some row → row.info.isMultiKey = true →
    row.info.multiKeySize = (row.getKeys env.unmarshal).length ∧
    (∀ i ∈ row.info.multiKeyStatusList, i < row.info.multiKeySize) ∧
    row.getKeys env.unmarshal = s.ring.keys ∧
    ∀ (i : Nat) (e : Entry), s.ring.entries[i]? = some e → row.info.keyStatus i = e.status

/-- The status at each position is the one that the key put there should have. -/
def aligned (entries : List Entry) (keys : List String) : Bool :=
  keys.zipIdx.all fun p =>
    ((entries[p.2]?).map Entry.status).getD statusEnabled = statusOf entries p.1

/-- A text that begins like a JSON array is one. -/
def parses (env : Env) (text : String) : Bool :=
  !Text.hasPrefix (Text.trimSpace text) "[" || (env.unmarshal (Text.trimSpace text)).isSome

/-- The request brings no status for the keys of a new channel. -/
def unused (info : ChannelInfo) : Bool :=
  info.multiKeyStatusList.entries.all fun e => e.1 < 0 || e.2 = statusEnabled

/-- `UpdateChannel`: keys that are appended go to a text that parses and are writable; other
keys in the place of all have the statuses of their positions. -/
def keepsUpdate (env : Env) (row : Channel) (ring : Ring) (p : Patch) : Bool :=
  if p.appends row then
    match appendNew env p.channel.key p.vertex with
    | some newKeys =>
        parses env row.key && writable env (ring.keys ++ dedupedNewKeys ring.keys newKeys)
    | none => true
  else if ring.multi then
    p.channel.key = "" || (counts env p.channel.key &&
      aligned ring.entries (readKeys env p.channel.key))
  else !upgrades .zero p.channel.key || writable env (keyLines p.channel.key)

/-- The requests that write the keys write writable ones; a channel is made without
statuses; and not all keys are deleted as disabled ones. -/
def keeps (env : Env) (s : State) : Op → Bool
  | .multiToSingle c _ vertex =>
      (requestedKeys env c.key vertex).all fun keys =>
        (keys = [] || writable env keys) && unused c.info &&
          c.info.multiKeyStatusList.keys.all (· < keys.length)
  | .single c => !c.info.isMultiKey && unused c.info
  | .updateChannel p => s.row.all fun row => keepsUpdate env row s.ring p
  | .updateKey i newKeyValue =>
      let newVal := Text.trimSpace newKeyValue
      newVal = "" || !s.ring.multi || !inRange i s.ring.keys.length ||
        writable env (s.ring.keys.set i.toNat newVal)
  | .addKeys newKeyValue _ =>
      let newKeys := keyLines (Text.trimSpace newKeyValue)
      newKeys = [] || s.row.all fun row =>
        writable env (s.ring.keys ++ newKeys) &&
          ((s.ring.keys ++ newKeys).length ≠ 1 || !row.info.isMultiKey ||
            !({ row.info with isMultiKey := false } : ChannelInfo).isZero)
  | .deleteKey i =>
      !s.ring.multi || !inRange i s.ring.keys.length || s.ring.keys.length = 1 ||
        writable env (s.ring.keys.eraseIdx i.toNat)
  | .deleteDisabledKeys =>
      let left := s.ring.entries.filter (·.status ≠ statusAutoDisabled)
      !s.ring.multi || left.length = s.ring.entries.length || writable env (left.map Entry.key)
  | _ => true

section

variable {env : Env} {row c : Channel} {keys : List String} {text : String}

/-! ## `AddChannel` and `UpdateChannel` -/

theorem counts_empty (env : Env) : counts env "" = true := rfl

theorem readKeys_empty (env : Env) : readKeys env "" = [] := rfl

/-- A `channel_info` without statuses for the keys. -/
theorem lookup_of_unused {info : ChannelInfo} (h : unused info = true) (j : Nat) :
    (info.multiKeyStatusList.lookup (j : Int)).getD statusEnabled = statusEnabled := by
  cases hl : info.multiKeyStatusList.lookup (j : Int) with
  | none => rfl
  | some st =>
      have hmem := AList.mem_lookup_iff.1 (Option.mem_def.2 hl)
      have hu := List.all_eq_true.1 h _ hmem
      simp only [Bool.or_eq_true, decide_eq_true_eq] at hu
      exact hu.resolve_left (by omega)

theorem represents_multiToSingle {mode : MultiKeyMode} {vertex : Bool}
    (hreq : requestedKeys env c.key vertex = some keys)
    (hkeys : keys = [] ∨ writable env keys = true) (hunused : unused c.info = true)
    (hrange : ∀ i ∈ c.info.multiKeyStatusList, i < keys.length)
    (h : multiToSingle env c mode vertex = some row) : Represents env row ⟨true, fresh keys⟩ := by
  simp only [multiToSingle, hreq, Option.map_some, Option.some.injEq] at h
  subst h
  have htext : counts env (joinKeys keys) = true ∧ readKeys env (joinKeys keys) = keys := by
    rcases hkeys with rfl | hw
    · exact ⟨counts_empty env, readKeys_empty env⟩
    · exact (writable_spec hw).2
  constructor
  · simp
  · simp
  · rw [Ring.keys, keys_fresh]
    simpa using htext.2
  · intro j
    rw [Ring.statuses, statuses_fresh, getD_replicate]
    simpa using lookup_of_unused hunused j
  · intro _
    simpa using htext.1
  · intro _
    simp [fresh]
  · intro _
    rw [Ring.statuses, statuses_fresh, List.length_replicate]
    simpa using hrange
  · intro h
    cases h

theorem represents_single (hmulti : c.info.isMultiKey = false) (hunused : unused c.info = true) :
    Represents env (createdRow c) ⟨false, fresh (readKeys env c.key)⟩ := by
  constructor
  · simpa using hmulti
  · simp
  · rw [Ring.keys, keys_fresh, key_createdRow]
  · intro j
    rw [Ring.statuses, statuses_fresh, getD_replicate]
    simpa using lookup_of_unused hunused j
  · intro h
    cases h
  · intro h
    cases h
  · intro h
    cases h
  · intro _
    rw [Ring.keys, keys_fresh]

theorem info_patch (p : Patch) (row : Channel) :
    (p.info row).isMultiKey = row.info.isMultiKey ∧
      (p.info row).multiKeyStatusList = row.info.multiKeyStatusList := by
  simp only [Patch.info]
  split
  next => split <;> exact ⟨rfl, rfl⟩
  next => exact ⟨rfl, rfl⟩

/-- A text that is not empty has keys. -/
theorem readKeys_ne_nil (htext : text ≠ "") (hcounts : counts env text = true) :
    readKeys env text ≠ [] := by
  simp only [counts, ne_eq, decide_eq_true_eq] at hcounts
  rw [readKeys, if_neg htext]
  cases hj : jsonKeys env.unmarshal text with
  | none =>
      rw [Option.getD_none, lineKeys]
      exact Text.splitAt_ne_nil _ _
  | some ks =>
      rintro rfl
      exact hcounts hj

/-- The key mode `append` starts from the keys of the channel. -/
theorem appendExisting_eq (htext : text ≠ "") (hparses : parses env text = true) :
    appendExisting env text = readKeys env text := by
  simp only [parses, Bool.or_eq_true, Bool.not_eq_true'] at hparses
  rw [appendExisting, readKeys, if_neg htext, jsonKeys]
  cases hp : Text.hasPrefix (Text.trimSpace text) "[" with
  | false => simp
  | true =>
      rw [hp] at hparses
      obtain ⟨ks, hks⟩ := Option.isSome_iff_exists.1 (hparses.resolve_left (by simp))
      simp [hks]

theorem upgraded_of_multi (hmulti : c.info.isMultiKey = true) : upgraded c = c := by
  simp [upgraded, upgrades, hmulti]

variable {ring : Ring} {p : Patch}

/-- The key mode `append`. -/
theorem represents_append (h : Represents env row ring) (happ : p.appends row = true)
    {newKeys : List String} (hparses : parses env row.key = true)
    (hw : writable env (ring.keys ++ dedupedNewKeys ring.keys newKeys) = true) :
    Represents env
      (saved env row (upgraded { p.channel with
        key := joinKeys (appendExisting env row.key ++
          dedupedNewKeys (appendExisting env row.key) newKeys)
        info := p.info row }))
      { ring with entries := ring.entries ++ fresh (dedupedNewKeys ring.keys newKeys) } := by
  simp only [Patch.appends, Bool.and_eq_true, decide_eq_true_eq, ne_eq] at happ
  obtain ⟨⟨-, hmulti⟩, htext⟩ := happ
  have hring : ring.multi = true := h.multi.symm.trans hmulti
  obtain ⟨hinfo, hlist⟩ := info_patch p row
  obtain ⟨hne, hcounts, hread⟩ := writable_spec hw
  rw [appendExisting_eq htext hparses, h.keys, upgraded_of_multi (hinfo.trans hmulti), hring]
  refine represents_saved_multi (joinKeys (ring.keys ++ dedupedNewKeys ring.keys newKeys))
    h.parsed (hinfo.trans hmulti) ?_ hcounts ?_ ?_
  · simp [updatesField, hne]
  · rw [hread, List.map_append, keys_fresh]
    rfl
  · intro j _
    rw [hlist, List.map_append, statuses_fresh, getD_append_replicate]
    exact h.lookup j

theorem aligned_iff {entries : List Entry} :
    aligned entries keys = true ↔ ∀ (j : Nat) (k : String), keys[j]? = some k →
      ((entries[j]?).map Entry.status).getD statusEnabled = statusOf entries k := by
  simp only [aligned, List.all_eq_true, decide_eq_true_eq, Prod.forall]
  constructor
  · intro h j k hk
    exact h k j (List.mk_mem_zipIdx_iff_getElem?.2 hk)
  · intro h k j hk
    exact h j k (List.mk_mem_zipIdx_iff_getElem?.1 hk)

theorem keys_replaceKeys (entries : List Entry) (keys : List String) :
    (replaceKeys entries keys).map Entry.key = keys := by
  simp [replaceKeys, Function.comp_def]

/-- A submitted text in the place of the keys, or none. -/
theorem represents_replace (h : Represents env row ring) (hring : ring.multi = true)
    (hkeeps : p.channel.key = "" ∨ counts env p.channel.key = true ∧
      aligned ring.entries (readKeys env p.channel.key) = true) :
    Represents env
      (saved env row (upgraded { p.channel with key := p.channel.key, info := p.info row }))
      (if p.channel.key = "" then ring
      else { ring with entries := replaceKeys ring.entries (readKeys env p.channel.key) }) := by
  have hmulti : row.info.isMultiKey = true := h.multi.trans hring
  obtain ⟨hinfo, hlist⟩ := info_patch p row
  obtain ⟨rmulti, entries⟩ := ring
  cases hring
  rw [upgraded_of_multi (hinfo.trans hmulti)]
  by_cases hkey : p.channel.key = ""
  · rw [if_pos hkey]
    refine represents_saved_multi row.key h.parsed (hinfo.trans hmulti) ?_ (h.text rfl) h.keys ?_
    · simp [updatesField, hkey]
    · intro j _
      rw [hlist]
      exact h.lookup j
  · rw [if_neg hkey]
    obtain ⟨hcounts, halign⟩ := hkeeps.resolve_left hkey
    refine represents_saved_multi p.channel.key h.parsed (hinfo.trans hmulti) ?_ hcounts
      (keys_replaceKeys _ _).symm ?_
    · simp [updatesField, hkey]
    · intro j hj
      obtain ⟨k, hk⟩ : ∃ k, (readKeys env p.channel.key)[j]? = some k := by
        have hj' : j < (readKeys env p.channel.key).length := by simpa [replaceKeys] using hj
        exact ⟨_, List.getElem?_eq_getElem hj'⟩
      rw [hlist, h.lookup j, Ring.statuses, List.getD_eq_getElem?_getD, List.getElem?_map,
        aligned_iff.1 halign j k hk]
      simp [replaceKeys, List.getD_eq_getElem?_getD, hk]

/-- `UpdateChannel` of a channel with one key. -/
theorem represents_updateSingle (h : Represents env row ring) (hring : ring.multi = false)
    (hkeeps : upgrades .zero p.channel.key = true →
      writable env (keyLines p.channel.key) = true) :
    Represents env
      (saved env row (upgraded { p.channel with key := p.channel.key, info := p.info row }))
      (if upgrades .zero p.channel.key then ⟨true, fresh (keyLines p.channel.key)⟩
      else if p.channel.key = "" then ring
      else ⟨false, fresh (readKeys env p.channel.key)⟩) := by
  have hmulti : row.info.isMultiKey = false := h.multi.trans hring
  have hlook := h.lookup_single hring
  obtain ⟨hinfo, hlist⟩ := info_patch p row
  have hup : upgrades (p.info row) p.channel.key = upgrades .zero p.channel.key := by
    simp [upgrades, hinfo, hmulti, ChannelInfo.zero]
  cases hu : upgrades .zero p.channel.key with
  | true =>
      obtain ⟨hne, hcounts, hread⟩ := writable_spec (hkeeps hu)
      simp only [upgraded, hup, hu, if_true]
      refine represents_saved_multi (joinKeys (keyLines p.channel.key)) h.parsed rfl ?_ hcounts ?_ ?_
      · simp [updatesField, hne]
      · rw [hread, keys_fresh]
      · intro j _
        rw [hlist, hlook j, statuses_fresh, getD_replicate]
  | false =>
      have hsame : ring = ⟨false, fresh ring.keys⟩ := by
        rw [← h.single hring, ← hring]
      simp only [upgraded, hup, hu, Bool.false_eq_true, if_false]
      by_cases hkey : p.channel.key = ""
      · rw [if_pos hkey, hsame]
        refine represents_saved_single row.key h.parsed (hinfo.trans hmulti) (hlist ▸ hlook)
          (fun _ => ⟨hmulti, hlook⟩) ?_ h.keys
        simp [updatesField, hkey]
      · rw [if_neg hkey]
        refine represents_saved_single p.channel.key h.parsed (hinfo.trans hmulti) (hlist ▸ hlook)
          (fun _ => ⟨hmulti, hlook⟩) ?_ rfl
        simp [updatesField, hkey]

theorem represents_updateChannel (h : Represents env row ring)
    (hkeeps : keepsUpdate env row ring p = true) :
    Represents env ((updateChannel env row p).getD row) (ring.update env p) := by
  simp only [keepsUpdate] at hkeeps
  simp only [updateChannel, Patch.keyText, Ring.update]
  cases happ : p.appends row with
  | true =>
      have happ' := happ
      simp only [Patch.appends, Bool.and_eq_true, decide_eq_true_eq, ne_eq] at happ'
      have hring : ring.multi = true := h.multi.symm.trans happ'.1.2
      have hne : ring.entries ≠ [] := by
        have hkeys := readKeys_ne_nil happ'.2 (h.text hring)
        rw [h.keys] at hkeys
        simpa [Ring.keys] using hkeys
      rw [if_pos rfl, if_pos hring, if_pos ⟨happ'.1.1, hne⟩]
      rw [if_pos happ] at hkeeps
      cases hnew : appendNew env p.channel.key p.vertex with
      | none => simpa [fresh, dedupedNewKeys] using h
      | some newKeys =>
          rw [hnew] at hkeeps
          simp only [Bool.and_eq_true] at hkeeps
          exact represents_append h happ hkeeps.1 hkeeps.2
  | false =>
      rw [if_neg (by simp [happ])] at hkeeps
      simp only [Bool.false_eq_true, if_false, Option.map_some, Option.getD_some]
      cases hring : ring.multi with
      | true =>
          rw [if_pos hring] at hkeeps
          have hnot : ¬ (p.keyMode = some "append" ∧ ring.entries ≠ []) := by
            rintro ⟨hmode, hne⟩
            have hkey : row.key = "" := by
              simpa [Patch.appends, hmode, h.multi, hring] using happ
            have hkeys := h.keys
            rw [hkey, readKeys_empty] at hkeys
            exact hne (by simpa [Ring.keys] using hkeys.symm)
          rw [if_pos rfl, if_neg hnot]
          have hrep := represents_replace h hring (by simpa using hkeeps)
          rw [hring] at hrep
          exact hrep
      | false =>
          rw [if_neg (by simp [hring])] at hkeeps
          rw [if_neg (by simp)]
          refine represents_updateSingle h hring ?_
          intro hu
          simpa [hu] using hkeeps

/-! ## The actions on statuses -/

theorem keys_setStatus (entries : List Entry) (i : Nat) (status : Int) :
    (setStatus entries i status).map Entry.key = entries.map Entry.key :=
  map_modify_of_eq (by intro _; rfl) entries i

theorem statuses_setStatus (entries : List Entry) (i : Nat) (status : Int) :
    (setStatus entries i status).map Entry.status = (entries.map Entry.status).set i status :=
  map_modify_of_const (by intro _; rfl) entries i

theorem inRange_iff {i size : Int} : inRange i size = true ↔ 0 ≤ i ∧ i < size := by
  simp [inRange]

/-- An index that is rejected and not negative is beyond the list. -/
theorem le_toNat_of_not_inRange {i : Int} {n : Nat} (h : ¬ inRange i n = true) (hi : 0 ≤ i) :
    n ≤ i.toNat := by
  rw [inRange_iff] at h
  omega

theorem setStatus_of_le {entries : List Entry} {i : Nat} (hi : entries.length ≤ i) (status : Int) :
    setStatus entries i status = entries :=
  List.modify_eq_self hi

/-- `Update` of a channel that only its `channel_info` has changed. -/
theorem represents_saved_info {entries : List Entry} {info : ChannelInfo}
    (h : Represents env row ring) (hring : ring.multi = true) (hmulti : info.isMultiKey = true)
    (hkeys : entries.map Entry.key = ring.keys)
    (hstatuses : Matches statusEnabled info.multiKeyStatusList (entries.map Entry.status)) :
    Represents env (saved env row { row with info := info }) ⟨true, entries⟩ := by
  refine represents_saved_multi row.key h.parsed hmulti ?_ (h.text hring) ?_ ?_
  · simp [updatesField]
  · rw [h.keys, hkeys]
  · intro j _
    exact hstatuses.lookup j

/-- What the actions on a channel with one key change is not in the keyring. -/
theorem represents_setSingleStatus (h : Represents env row ring) (status : Int) :
    Represents env ((setSingleStatus row status).getD row) ring := by
  simp only [setSingleStatus]
  split
  next => exact h
  next => exact h.setChannelStatus status

/-- An action that puts a status at an index. -/
theorem represents_setStatus {info : ChannelInfo} {i status : Int} (h : Represents env row ring)
    (hring : ring.multi = true) (hmulti : info.isMultiKey = true)
    (hstatuses : inRange i ring.entries.length = true →
      Matches statusEnabled info.multiKeyStatusList (ring.statuses.set i.toNat status)) :
    Represents env
      ((if inRange i row.info.multiKeySize then some (saved env row { row with info := info })
        else none).getD row)
      (if ring.multi = true ∧ 0 ≤ i then
        { ring with entries := setStatus ring.entries i.toNat status }
      else ring) := by
  rw [h.size hring]
  by_cases hr : inRange i ring.entries.length = true
  · rw [if_pos hr, if_pos ⟨hring, (inRange_iff.1 hr).1⟩, hring]
    refine represents_saved_info h hring hmulti ?_ ?_
    · rw [keys_setStatus]
      rfl
    · rw [statuses_setStatus]
      exact hstatuses hr
  · have hsame : (if ring.multi = true ∧ 0 ≤ i then
        { ring with entries := setStatus ring.entries i.toNat status } else ring) = ring := by
      split
      next hpos => rw [setStatus_of_le (le_toNat_of_not_inRange hr hpos.2)]
      next => rfl
    rw [if_neg hr, hsame]
    exact h

/-- An action on one key: a channel with one key is given the status instead. -/
theorem represents_keyAction {info : ChannelInfo} {i status single : Int}
    (h : Represents env row ring) (hmulti : info.isMultiKey = row.info.isMultiKey)
    (hstatuses : ∀ n : Nat, i = n → ring.multi = true → n < ring.statuses.length →
      Matches statusEnabled info.multiKeyStatusList (ring.statuses.set n status)) :
    Represents env
      ((if !row.info.isMultiKey then if i ≠ 0 then none else setSingleStatus row single
        else if inRange i row.info.multiKeySize then some (saved env row { row with info := info })
        else none).getD row)
      (if ring.multi = true ∧ 0 ≤ i then
        { ring with entries := setStatus ring.entries i.toNat status }
      else ring) := by
  by_cases hring : ring.multi = true
  · rw [if_neg (by simp [h.multi, hring])]
    refine represents_setStatus h hring (hmulti.trans (h.multi.trans hring)) ?_
    intro hr
    obtain ⟨hpos, hlt⟩ := inRange_iff.1 hr
    refine hstatuses i.toNat (Int.toNat_of_nonneg hpos).symm hring ?_
    simp only [Ring.statuses, List.length_map]
    omega
  · have hnot : ¬ (ring.multi = true ∧ 0 ≤ i) := fun hc => hring hc.1
    rw [if_pos (by simp [h.multi, hring]), if_neg hnot]
    split
    next => exact h
    next => exact represents_setSingleStatus h _

theorem represents_disableKey (h : Represents env row ring) (i : Int) :
    Represents env ((disableKey env row i).getD row)
      (if ring.multi = true ∧ 0 ≤ i then
        { ring with entries := setStatus ring.entries i.toNat statusManuallyDisabled }
      else ring) := by
  rw [disableKey]
  refine represents_keyAction h rfl ?_
  intro n hn hring hlt
  rw [hn]
  exact (h.matches_entries hring).insert hlt statusManuallyDisabled

theorem represents_enableKey (h : Represents env row ring) (i : Int) :
    Represents env ((enableKey env row i).getD row)
      (if ring.multi = true ∧ 0 ≤ i then
        { ring with entries := setStatus ring.entries i.toNat statusEnabled }
      else ring) := by
  rw [enableKey]
  refine represents_keyAction h rfl ?_
  intro n hn hring _
  rw [hn]
  exact (h.matches_entries hring).erase n

theorem represents_enableAllKeys (h : Represents env row ring) :
    Represents env ((enableAllKeys env row).getD row)
      (if ring.multi = true then
        { ring with entries := ring.entries.map ({ · with status := statusEnabled }) }
      else ring) := by
  by_cases hring : ring.multi = true
  · rw [enableAllKeys, if_neg (by simp [h.multi, hring]), if_pos hring, hring]
    refine represents_saved_info h hring (h.multi.trans hring) ?_ ?_
    · simp [Ring.keys, Function.comp_def]
    · have hconst : (ring.entries.map fun e => ({ e with status := statusEnabled } : Entry)).map
          Entry.status = List.replicate ring.entries.length statusEnabled := by
        simp [Function.comp_def]
      rw [hconst]
      exact matches_empty _ _
  · rw [enableAllKeys, if_pos (by simp [h.multi, hring]), if_neg hring]
    exact represents_setSingleStatus h _

/-- The status that `disable_all_keys` leaves. -/
def disabledStatus (status : Int) : Int :=
  if status = statusEnabled then statusManuallyDisabled else status

theorem matches_disableEnabled {S : AList fun _ : Int => Int} {sts : List Int}
    (h : Matches statusEnabled S sts)
    {i : Nat} (hi : i < sts.length) :
    Matches statusEnabled (disableEnabled S i)
      (sts.set i (disabledStatus (sts.getD i statusEnabled))) := by
  simp only [disableEnabled, h.lookup i, disabledStatus]
  split
  next => exact h.insert hi _
  next =>
    have hsame : sts.set i (sts.getD i statusEnabled) = sts := by
      simp [List.getD_eq_getElem?_getD, hi]
    rw [hsame]
    exact h

/-- The statuses after the loop of `disable_all_keys` up to a position. -/
def disabledBelow (sts : List Int) (n : Nat) : List Int :=
  sts.mapIdx fun j st => if j < n then disabledStatus st else st

theorem disabledBelow_succ (sts : List Int) (n : Nat) :
    (disabledBelow sts n).set n (disabledStatus ((disabledBelow sts n).getD n statusEnabled)) =
      disabledBelow sts (n + 1) := by
  apply List.ext_getElem?
  intro j
  simp only [disabledBelow, List.getElem?_set, List.getElem?_mapIdx, List.length_mapIdx,
    List.getD_eq_getElem?_getD]
  by_cases hj : n = j
  · subst hj
    cases hs : sts[n]? with
    | none =>
        rw [List.getElem?_eq_none_iff] at hs
        simp [hs]
    | some st =>
        have hlen : n < sts.length := (List.getElem?_eq_some_iff.1 hs).1
        simp [hlen]
  · have hlt : j < n + 1 ↔ j < n := by omega
    simp [hj, hlt]

theorem matches_foldl_disableEnabled {S : AList fun _ : Int => Int} {sts : List Int}
    (h : Matches statusEnabled S sts) :
    ∀ n, n ≤ sts.length →
      Matches statusEnabled ((List.range n).foldl disableEnabled S) (disabledBelow sts n) := by
  intro n
  induction n with
  | zero =>
      intro _
      have hzero : disabledBelow sts 0 = sts := by
        apply List.ext_getElem?
        intro j
        simp [disabledBelow]
      rw [hzero]
      exact h
  | succ n ih =>
      intro hn
      have hlen : n < (disabledBelow sts n).length := by
        simp only [disabledBelow, List.length_mapIdx]
        omega
      have hstep := matches_disableEnabled (ih (by omega)) hlen
      rw [List.range_succ, List.foldl_append, List.foldl_cons, List.foldl_nil,
        ← disabledBelow_succ]
      exact hstep

theorem disabledBelow_length (sts : List Int) :
    disabledBelow sts sts.length = sts.map disabledStatus := by
  apply List.ext_getElem?
  intro j
  simp only [disabledBelow, List.getElem?_mapIdx, List.getElem?_map]
  cases hs : sts[j]? with
  | none => rfl
  | some st =>
      have hlen : j < sts.length := (List.getElem?_eq_some_iff.1 hs).1
      simp [hlen]

theorem key_disabledEntry (e : Entry) : (disabledEntry e).key = e.key := by
  simp only [disabledEntry]
  split <;> rfl

theorem status_disabledEntry (e : Entry) : (disabledEntry e).status = disabledStatus e.status := by
  simp only [disabledEntry, disabledStatus]
  split <;> rfl

theorem represents_disableAllKeys (h : Represents env row ring) :
    Represents env ((disableAllKeys env row).getD row)
      (if ring.multi = true then { ring with entries := ring.entries.map disabledEntry }
      else ring) := by
  by_cases hring : ring.multi = true
  · rw [disableAllKeys, if_neg (by simp [h.multi, hring]), if_pos hring, h.size hring,
      Int.toNat_natCast]
    have hmatch := h.matches_entries hring
    have hlen : ring.statuses.length = ring.entries.length := by simp [Ring.statuses]
    dsimp only
    split
    next hall =>
      have hsame : ring.entries.map disabledEntry = ring.entries := by
        conv_rhs => rw [← List.map_id ring.entries]
        apply List.map_congr_left
        intro e he
        obtain ⟨j, hj⟩ := List.getElem?_of_mem he
        have hlt : j < ring.entries.length := (List.getElem?_eq_some_iff.1 hj).1
        have hst := h.keyStatus hj
        have hne := List.all_eq_true.1 hall j (List.mem_range.2 hlt)
        rw [hst] at hne
        simp only [ne_eq, decide_eq_true_eq] at hne
        simp [disabledEntry, hne]
      rw [hsame]
      exact h
    next =>
      rw [hring]
      refine represents_saved_info h hring (h.multi.trans hring) ?_ ?_
      · simp [Ring.keys, Function.comp_def, key_disabledEntry]
      · have hall := matches_foldl_disableEnabled hmatch ring.entries.length (by omega)
        rw [← hlen, disabledBelow_length, hlen] at hall
        simpa [Ring.statuses, Function.comp_def, status_disabledEntry] using hall
  · rw [disableAllKeys, if_pos (by simp [h.multi, hring]), if_neg hring]
    exact represents_setSingleStatus h _

theorem matches_setKeyStatus {i : Nat} (h : Represents env row ring) (hring : ring.multi = true)
    (hi : i < ring.statuses.length) (status : Int) (reason : String) (now : Int) :
    Matches statusEnabled (row.info.setKeyStatus i status reason now).multiKeyStatusList
      (ring.statuses.set i status) := by
  simp only [ChannelInfo.setKeyStatus]
  split
  next hst =>
    rw [hst]
    exact (h.matches_entries hring).erase i
  next => exact (h.matches_entries hring).insert hi status

/-- The status of a key changes in `channel_info` alone. -/
theorem represents_setKeyStatus {i : Nat} {c : Channel} (h : Represents env row ring)
    (hring : ring.multi = true) (hi : i < ring.keys.length) (status : Int) (reason : String)
    (now : Int) (hkey : c.key = row.key) (hparsed : c.keys = row.keys)
    (hinfo : c.info = row.info.setKeyStatus i status reason now) :
    Represents env c ⟨true, setStatus ring.entries i status⟩ := by
  have hlen : i < ring.statuses.length := by simpa [Ring.keys, Ring.statuses] using hi
  have hmatch := matches_setKeyStatus h hring hlen status reason now
  have hkept : (row.info.setKeyStatus i status reason now).isMultiKey = row.info.isMultiKey ∧
      (row.info.setKeyStatus i status reason now).multiKeySize = row.info.multiKeySize := by
    simp only [ChannelInfo.setKeyStatus]
    split <;> exact ⟨rfl, rfl⟩
  rw [Ring.statuses, ← statuses_setStatus] at hmatch
  constructor
  · rw [hinfo, hkept.1]
    exact h.multi.trans hring
  · rw [hparsed]
    exact h.parsed
  · rw [hkey, h.keys]
    exact (keys_setStatus _ _ _).symm
  · rw [hinfo]
    exact hmatch.lookup
  · intro _
    rw [hkey]
    exact h.text hring
  · intro _
    rw [hinfo, hkept.2, h.size hring]
    simp [setStatus]
  · intro _
    rw [hinfo]
    exact hmatch.range
  · intro hc
    cases hc

/-- `UpdateChannelStatus` of a key. -/
theorem represents_updateChannelStatus (h : Represents env row ring) (usingKey : String)
    (status : Int) (reason : String) (now : Int) :
    Represents env
      ((if row.status = status then none
        else some (statusRow env.unmarshal row usingKey status reason now)).getD row)
      (if ring.multi = true ∧ row.status ≠ status then
        { ring with entries := setStatus ring.entries (keyIndex ring.keys usingKey).toNat status }
      else ring) := by
  by_cases hst : row.status = status
  · rw [if_pos hst, if_neg (fun hc => hc.2 hst)]
    exact h
  rw [if_neg hst]
  by_cases hring : ring.multi = true
  · rw [if_pos ⟨hring, hst⟩, Option.getD_some, statusRow, if_pos (h.multi.trans hring),
      handlerMultiKeyUpdate, h.getKeys]
    dsimp only
    by_cases hkeys : ring.keys = []
    · have hnil : ring.entries = [] := by simpa [Ring.keys] using hkeys
      rw [if_pos hkeys, hnil]
      have hsame : { ring with entries := setStatus [] (keyIndex ring.keys usingKey).toNat status } =
          ring := by
        rw [setStatus_of_le (by simp), ← hnil]
      rw [hsame]
      exact h.setChannelStatus status
    · obtain ⟨n, hn, hidx⟩ := exists_keyIndex hkeys usingKey
      rw [if_neg hkeys, hidx, Int.toNat_natCast, hring]
      split
      next => exact represents_setKeyStatus h hring hn status reason now rfl rfl rfl
      next => exact represents_setKeyStatus h hring hn status reason now rfl rfl rfl
  · rw [if_neg (fun hc => hring hc.1), Option.getD_some, statusRow,
      if_neg (by simp [h.multi, hring])]
    exact h.setChannelStatus status

/-! ## The actions on keys -/

/-- `Update` of a channel with other keys in `key`, whose text is written. -/
theorem represents_saved_keys {entries : List Entry} (h : Represents env row ring)
    (hmulti : c.info.isMultiKey = true) (hkey : c.key = joinKeys (entries.map Entry.key))
    (hw : writable env (entries.map Entry.key) = true)
    (hlook : ∀ j : Nat, (c.info.multiKeyStatusList.lookup (j : Int)).getD statusEnabled =
      (entries.map Entry.status).getD j statusEnabled) :
    Represents env (saved env row c) ⟨true, entries⟩ := by
  obtain ⟨hne, hcounts, hread⟩ := writable_spec hw
  refine represents_saved_multi (joinKeys (entries.map Entry.key)) h.parsed hmulti ?_ hcounts hread
    fun j _ => hlook j
  rw [updatesField, hkey, if_neg hne]

theorem keys_modify (entries : List Entry) (i : Nat) (key : String) :
    (entries.modify i ({ · with key := key })).map Entry.key = (entries.map Entry.key).set i key :=
  map_modify_of_const (by intro _; rfl) entries i

theorem statuses_modify (entries : List Entry) (i : Nat) (key : String) :
    (entries.modify i ({ · with key := key })).map Entry.status = entries.map Entry.status :=
  map_modify_of_eq (by intro _; rfl) entries i

theorem represents_updateKey (h : Represents env row ring) (i : Int) (newKeyValue : String)
    (hkeeps : Text.trimSpace newKeyValue ≠ "" → ring.multi = true →
      inRange i ring.keys.length = true →
      writable env (ring.keys.set i.toNat (Text.trimSpace newKeyValue)) = true) :
    Represents env ((updateKey env row i newKeyValue).getD row)
      (if Text.trimSpace newKeyValue = "" then ring
      else if ring.multi = true then
        if 0 ≤ i then
          { ring with entries :=
              ring.entries.modify i.toNat ({ · with key := Text.trimSpace newKeyValue }) }
        else ring
      else if i = 0 then ⟨false, fresh (readKeys env (Text.trimSpace newKeyValue))⟩
      else ring) := by
  simp only [updateKey]
  generalize Text.trimSpace newKeyValue = newVal at hkeeps ⊢
  by_cases hval : newVal = ""
  · rw [if_pos hval, if_pos hval]
    exact h
  rw [if_neg hval, if_neg hval]
  by_cases hring : ring.multi = true
  · rw [if_neg (by simp [h.multi, hring]), if_pos hring, h.getKeys]
    by_cases hr : inRange i ring.keys.length = true
    · have hw := hkeeps hval hring hr
      rw [if_pos hr, if_pos (inRange_iff.1 hr).1, hring]
      refine represents_saved_keys h (h.multi.trans hring) ?_ ?_ ?_
      · rw [keys_modify]
        rfl
      · rw [keys_modify]
        exact hw
      · intro j
        rw [statuses_modify]
        exact h.lookup j
    · have hsame : (if 0 ≤ i then
          { ring with entries := ring.entries.modify i.toNat ({ · with key := newVal }) }
          else ring) = ring := by
        split
        next hpos =>
          have hlen := le_toNat_of_not_inRange hr hpos
          rw [List.modify_eq_self (by simpa [Ring.keys] using hlen)]
        next => rfl
      rw [if_neg hr, hsame]
      exact h
  · rw [if_pos (by simp [h.multi, hring]), if_neg hring]
    have hring' : ring.multi = false := by simpa using hring
    have hlook := h.lookup_single hring'
    have hmulti : row.info.isMultiKey = false := h.multi.trans hring'
    by_cases hi : i = 0
    · rw [if_neg (by simp [hi]), if_pos hi]
      refine represents_saved_single newVal h.parsed hmulti hlook (fun _ => ⟨hmulti, hlook⟩) ?_ rfl
      simp [updatesField, hval]
    · rw [if_pos hi, if_neg hi]
      exact h

theorem represents_addKeys (h : Represents env row ring) (newKeyValue multiKeyMode : String)
    (hw : keyLines (Text.trimSpace newKeyValue) ≠ [] →
      writable env (ring.keys ++ keyLines (Text.trimSpace newKeyValue)) = true)
    (hzero : keyLines (Text.trimSpace newKeyValue) ≠ [] →
      (ring.keys ++ keyLines (Text.trimSpace newKeyValue)).length = 1 →
      row.info.isMultiKey = true →
      ({ row.info with isMultiKey := false } : ChannelInfo).isZero = false) :
    Represents env ((addKeys env row newKeyValue multiKeyMode).getD row)
      (if keyLines (Text.trimSpace newKeyValue) = [] then ring
      else ⟨(ring.entries ++ fresh (keyLines (Text.trimSpace newKeyValue))).length ≠ 1,
        ring.entries ++ fresh (keyLines (Text.trimSpace newKeyValue))⟩) := by
  simp only [addKeys, h.getKeys]
  generalize keyLines (Text.trimSpace newKeyValue) = newKeys at hw hzero ⊢
  by_cases hnew : newKeys = []
  · rw [if_pos hnew, if_pos hnew]
    exact h
  rw [if_neg hnew, if_neg hnew]
  replace hw := hw hnew
  replace hzero := hzero hnew
  have hkeys : (ring.entries ++ fresh newKeys).map Entry.key = ring.keys ++ newKeys := by
    rw [List.map_append, keys_fresh]
    rfl
  have hlen : (ring.entries ++ fresh newKeys).length = (ring.keys ++ newKeys).length := by
    rw [← hkeys, List.length_map]
  by_cases hone : (ring.keys ++ newKeys).length = 1
  · obtain ⟨hnil, k, rfl⟩ : ring.keys = [] ∧ ∃ k, newKeys = [k] := by
      have hpos : 0 < newKeys.length := List.length_pos_iff.2 hnew
      rw [List.length_append] at hone
      exact ⟨List.length_eq_zero_iff.1 (by omega), List.length_eq_one_iff.1 (by omega)⟩
    have hentries : ring.entries = [] := by simpa [Ring.keys] using hnil
    have hlook (j : Nat) : (row.info.multiKeyStatusList.lookup (j : Int)).getD statusEnabled =
        statusEnabled := by
      rw [h.lookup j, Ring.statuses, hentries]
      rfl
    rw [hnil, List.nil_append] at hw hzero ⊢
    obtain ⟨hne, -, hread⟩ := writable_spec hw
    have hjoin : joinKeys [k] = k := by simp [joinKeys, Text.join, List.intercalate]
    rw [hjoin] at hne hread
    rw [hentries, if_pos (show [k].length = 1 from rfl)]
    refine represents_saved_single k h.parsed rfl hlook ?_ ?_ hread
    · intro hz
      refine ⟨?_, hlook⟩
      by_contra hmulti
      rw [hzero rfl (by simpa using hmulti)] at hz
      cases hz
    · simp [updatesField, hne]
  · rw [if_neg hone, hlen]
    have hmulti : decide ((ring.keys ++ newKeys).length ≠ 1) = true := by simpa using hone
    rw [hmulti]
    refine represents_saved_keys h rfl ?_ (by rw [hkeys]; exact hw) ?_
    · rw [hkeys]
    · intro j
      rw [List.map_append, statuses_fresh, getD_append_replicate]
      exact h.lookup j

/-- The entries that a deletion keeps, from a position on. -/
def keptFrom (drop : Int → Bool) : List Entry → Nat → List Entry
  | [], _ => []
  | e :: es, i => if drop i then keptFrom drop es (i + 1) else e :: keptFrom drop es (i + 1)

/-- The loop of the deletions keeps the entries with their statuses. -/
theorem rebuild_spec {info : ChannelInfo} {drop notes : Int → Bool} :
    ∀ (es : List Entry) (i : Nat) (r : Remaining) (sts : List Int),
      (∀ j e, es[j]? = some e → info.keyStatus ((i + j : Nat) : Int) = e.status) →
      Matches statusEnabled r.statuses sts → r.keys.length = sts.length →
      (rebuild info drop notes (es.map Entry.key) i r).keys =
          r.keys ++ (keptFrom drop es i).map Entry.key ∧
        Matches statusEnabled (rebuild info drop notes (es.map Entry.key) i r).statuses
          (sts ++ (keptFrom drop es i).map Entry.status)
  | [], i, r, sts, _, hm, _ => by simpa [rebuild, keptFrom] using hm
  | e :: es, i, r, sts, hst, hm, hlen => by
      have htail : ∀ (j : Nat) (e' : Entry), es[j]? = some e' →
          info.keyStatus ((i + 1 + j : Nat) : Int) = e'.status := by
        intro j e' hj
        have hj' := hst (j + 1) e' (by simpa using hj)
        rwa [show i + (j + 1) = i + 1 + j by omega] at hj'
      have hhead : info.keyStatus (i : Int) = e.status := hst 0 e rfl
      rw [List.map_cons, rebuild, keptFrom, show (i : Int) + 1 = ((i + 1 : Nat) : Int) by omega]
      cases drop (i : Int) with
      | true =>
          simp only [if_true]
          exact rebuild_spec es (i + 1) r sts htail hm hlen
      | false =>
          simp only [Bool.false_eq_true, if_false]
          have hkeep : Matches statusEnabled (r.keep info i e.key (notes i)).statuses
              (sts ++ [e.status]) := by
            have hpush := hm.push e.status
            simpa [Remaining.keep, hhead, hlen] using hpush
          have hrec := @rebuild_spec info drop notes es (i + 1) (r.keep info i e.key (notes i))
            (sts ++ [e.status]) htail hkeep (by simp [Remaining.keep, hlen])
          simpa [Remaining.keep] using hrec

theorem keptFrom_eq_eraseIdx (k : Nat) :
    ∀ (es : List Entry) (i : Nat), i ≤ k →
      keptFrom (fun j => j = (k : Int)) es i = es.eraseIdx (k - i)
  | [], _, _ => rfl
  | e :: es, i, hi => by
      rw [keptFrom]
      by_cases hik : i = k
      · subst hik
        have hrest (es : List Entry) : ∀ n, i < n → keptFrom (fun j => j = (i : Int)) es n = es := by
          induction es with
          | nil => exact fun _ _ => rfl
          | cons e es ih =>
              intro n hn
              have hne : ¬ (n : Int) = (i : Int) := by omega
              rw [keptFrom, if_neg (by simpa using hne), ih (n + 1) (by omega)]
        rw [if_pos (by simp), Nat.sub_self, List.eraseIdx_cons_zero, hrest es (i + 1) (by omega)]
      · have hne : ¬ (i : Int) = (k : Int) := by omega
        rw [if_neg (by simpa using hne), keptFrom_eq_eraseIdx k es (i + 1) (by omega),
          show k - i = (k - (i + 1)) + 1 by omega, List.eraseIdx_cons_succ]

theorem keptFrom_eq_filter (p : Entry → Bool) (drop : Int → Bool) :
    ∀ (es : List Entry) (i : Nat),
      (∀ (j : Nat) (e : Entry), es[j]? = some e → drop ((i + j : Nat) : Int) = !p e) →
      keptFrom drop es i = es.filter p
  | [], _, _ => rfl
  | e :: es, i, h => by
      have hhead : drop (i : Int) = !p e := h 0 e rfl
      have htail := keptFrom_eq_filter p drop es (i + 1) fun j e' hj => by
        have hj' := h (j + 1) e' (by simpa using hj)
        rwa [show i + (j + 1) = i + 1 + j by omega] at hj'
      rw [keptFrom, hhead, htail]
      cases hp : p e <;> simp [hp]

/-- A deletion on a multi-key channel: the loop, and `Update` of what remains. -/
theorem represents_rebuild (drop notes : Int → Bool) (h : Represents env row ring)
    (hring : ring.multi = true) :
    (rebuild row.info drop notes ring.keys 0 .empty).keys =
        (keptFrom drop ring.entries 0).map Entry.key ∧
      (writable env ((keptFrom drop ring.entries 0).map Entry.key) = true →
        Represents env
          (saved env row ((rebuild row.info drop notes ring.keys 0 .empty).channel row))
          ⟨true, keptFrom drop ring.entries 0⟩) := by
  have hmatch := h.matches_entries hring
  obtain ⟨hkeys, hstatuses⟩ := @rebuild_spec row.info drop notes ring.entries 0 .empty []
    (by
      intro j e hj
      rw [Nat.zero_add]
      exact h.keyStatus hj)
    (matches_empty _ 0) rfl
  rw [List.nil_append] at hstatuses
  have hkeys' : (rebuild row.info drop notes ring.keys 0 .empty).keys =
      (keptFrom drop ring.entries 0).map Entry.key := by
    simpa [Remaining.empty, Ring.keys] using hkeys
  refine ⟨hkeys', ?_⟩
  intro hw
  exact represents_saved_keys h (h.multi.trans hring) (congrArg joinKeys hkeys') hw hstatuses.lookup

theorem represents_deleteKey (h : Represents env row ring) (i : Int)
    (hkeeps : ring.multi = true → inRange i ring.keys.length = true → ring.keys.length ≠ 1 →
      writable env (ring.keys.eraseIdx i.toNat) = true) :
    Represents env ((deleteKey env row i).getD row)
      (if ring.multi = true ∧ 0 ≤ i ∧ ring.entries.length ≠ 1 then
        { ring with entries := ring.entries.eraseIdx i.toNat }
      else ring) := by
  by_cases hring : ring.multi = true
  · rw [deleteKey, if_neg (by simp [h.multi, hring]), h.size hring, h.getKeys]
    by_cases hr : inRange i ring.entries.length = true
    · rw [if_pos hr]
      have hlen' : ring.keys.length = ring.entries.length := by simp [Ring.keys]
      rw [hlen'] at hkeeps
      have hw := hkeeps hring hr
      rw [inRange_iff] at hr
      obtain ⟨n, rfl⟩ := Int.eq_ofNat_of_zero_le hr.1
      obtain ⟨hkeys, hsaved⟩ := represents_rebuild (fun j => j = (n : Int)) (fun _ => true) h hring
      rw [keptFrom_eq_eraseIdx n _ 0 (by omega), Nat.sub_zero] at hkeys hsaved
      have hlen : (ring.entries.eraseIdx n).length = ring.entries.length - 1 :=
        List.length_eraseIdx_of_lt (by omega)
      dsimp only
      by_cases hone : ring.entries.length = 1
      · rw [if_pos, if_neg (fun hc => hc.2.2 hone)]
        · exact h
        · rw [dropIndex, hkeys, List.map_eq_nil_iff]
          exact List.length_eq_zero_iff.1 (by omega)
      · have hw' : writable env ((ring.entries.eraseIdx n).map Entry.key) = true := by
          rw [← List.eraseIdx_map]
          exact hw hone
        rw [if_neg, if_pos ⟨hring, hr.1, hone⟩, hring]
        · exact hsaved hw'
        · rw [dropIndex, hkeys, List.map_eq_nil_iff]
          intro hnil
          rw [hnil] at hlen
          simp at hlen
          omega
    · have hsame : (if ring.multi = true ∧ 0 ≤ i ∧ ring.entries.length ≠ 1 then
          { ring with entries := ring.entries.eraseIdx i.toNat } else ring) = ring := by
        split
        next hc => rw [List.eraseIdx_of_length_le (le_toNat_of_not_inRange hr hc.2.1)]
        next => rfl
      rw [if_neg hr, hsame]
      exact h
  · rw [deleteKey, if_pos (by simp [h.multi, hring]), if_neg (fun hc => hring hc.1)]
    exact h

theorem represents_deleteDisabledKeys (h : Represents env row ring)
    (hkeeps : ring.multi = true →
      (ring.entries.filter (·.status ≠ statusAutoDisabled)).length ≠ ring.entries.length →
      writable env ((ring.entries.filter (·.status ≠ statusAutoDisabled)).map Entry.key) = true) :
    Represents env ((deleteDisabledKeys env row).getD row)
      (if ring.multi = true then
        { ring with entries := ring.entries.filter (·.status ≠ statusAutoDisabled) }
      else ring) := by
  by_cases hring : ring.multi = true
  · have hmatch := h.matches_entries hring
    rw [deleteDisabledKeys, if_neg (by simp [h.multi, hring]), if_pos hring, h.getKeys]
    obtain ⟨hkeys, hsaved⟩ := represents_rebuild
      (fun i => row.info.keyStatus i = statusAutoDisabled)
      (fun i => row.info.keyStatus i ≠ statusEnabled) h hring
    have hkept : keptFrom (fun i => row.info.keyStatus i = statusAutoDisabled) ring.entries 0 =
        ring.entries.filter (·.status ≠ statusAutoDisabled) := by
      apply keptFrom_eq_filter
      intro j e hj
      rw [Nat.zero_add, h.keyStatus hj]
      simp
    rw [hkept] at hkeys hsaved
    have hlen : (dropAutoDisabled row.info ring.keys).keys.length =
        (ring.entries.filter (·.status ≠ statusAutoDisabled)).length := by
      rw [dropAutoDisabled, hkeys, List.length_map]
    have hlen' : ring.keys.length = ring.entries.length := by simp [Ring.keys]
    dsimp only
    rw [hlen, hlen']
    by_cases hall : (ring.entries.filter (·.status ≠ statusAutoDisabled)).length =
        ring.entries.length
    · rw [if_pos hall, List.filter_sublist.eq_of_length hall]
      exact h
    · rw [if_neg hall, hring]
      exact hsaved (hkeeps hring hall)
  · rw [deleteDisabledKeys, if_pos (by simp [h.multi, hring]), if_neg hring]
    exact h

end

/-! ## Whole histories -/

/-- The row, once the channel is made, represents the keyring. -/
def Inv (env : Env) (s : State) : Prop := ∀ row, s.row = some row → Represents env row s.ring

/-- A request to a channel that exists. -/
theorem represents_request {env : Env} {row : Channel} {ring : Ring} {op : Op}
    (h : Represents env row ring) (hk : keeps env ⟨some row, ring⟩ op = true)
    (hop : (∀ c mode vertex, op ≠ .multiToSingle c mode vertex) ∧ ∀ c, op ≠ .single c) :
    Represents env ((request env row op).getD row) (ring.apply env row.status op) := by
  cases op with
  | multiToSingle c mode vertex => exact absurd rfl (hop.1 c mode vertex)
  | single c => exact absurd rfl (hop.2 c)
  | updateChannel p =>
      simp only [keeps, Option.all_some] at hk
      exact represents_updateChannel h hk
  | updateKey i newKeyValue =>
      simp only [keeps, Bool.or_eq_true, decide_eq_true_eq, Bool.not_eq_true'] at hk
      simp only [request, Ring.apply]
      refine represents_updateKey h i newKeyValue ?_
      intro hval hring hr
      simpa [hval, hring, hr] using hk
  | addKeys newKeyValue multiKeyMode =>
      simp only [keeps, Option.all_some, Bool.and_eq_true, Bool.or_eq_true, decide_eq_true_eq] at hk
      simp only [request, Ring.apply]
      refine represents_addKeys h newKeyValue multiKeyMode (fun hnew => (hk.resolve_left hnew).1) ?_
      intro hnew hone hmulti
      simpa [hone, hmulti] using (hk.resolve_left hnew).2
  | disableKey i => exact represents_disableKey h i
  | enableKey i => exact represents_enableKey h i
  | disableAllKeys => exact represents_disableAllKeys h
  | enableAllKeys => exact represents_enableAllKeys h
  | deleteKey i =>
      simp only [keeps, Bool.or_eq_true, decide_eq_true_eq, Bool.not_eq_true'] at hk
      refine represents_deleteKey h i ?_
      intro hring hr hone
      simpa [hring, hr, hone] using hk
  | deleteDisabledKeys =>
      simp only [keeps, Bool.or_eq_true, decide_eq_true_eq, Bool.not_eq_true'] at hk
      refine represents_deleteDisabledKeys h ?_
      intro hring hall
      refine hk.resolve_left ?_
      rintro (hc | hc)
      · rw [hring] at hc
        cases hc
      · exact hall hc
  | updateChannelStatus usingKey status reason now =>
      exact represents_updateChannelStatus h usingKey status reason now

theorem inv_some {env : Env} {row : Channel} {ring : Ring} (h : Represents env row ring) :
    Inv env ⟨some row, ring⟩ := by
  intro row' hrow
  cases hrow
  exact h

theorem inv_step {env : Env} {s s' : State} {op : Op} (h : Inv env s) (hk : keeps env s op = true)
    (hs : step env s op = some s') : Inv env s' := by
  obtain ⟨row?, ring⟩ := s
  cases row? with
  | none =>
      cases op with
      | multiToSingle c mode vertex =>
          obtain ⟨row, hrow, rfl⟩ := Option.map_eq_some_iff.1 hs
          obtain ⟨keys, hkeys, -⟩ := Option.map_eq_some_iff.1 hrow
          simp only [keeps, hkeys, Option.all_some, Bool.and_eq_true, Bool.or_eq_true,
            decide_eq_true_eq, List.all_eq_true] at hk
          simp only [Ring.apply, hkeys, Option.getD_some]
          exact inv_some (represents_multiToSingle hkeys hk.1.1 hk.1.2 hk.2 hrow)
      | single c =>
          simp only [step, Ring.apply, Option.some.injEq] at hs
          simp only [keeps, Bool.and_eq_true, Bool.not_eq_true'] at hk
          rw [← hs]
          exact inv_some (represents_single hk.1 hk.2)
      | _ => cases hs
  | some row =>
      have hreq := represents_request (h row rfl) hk
      cases op with
      | multiToSingle c mode vertex => cases hs
      | single c => cases hs
      | _ =>
          simp only [step, Option.some.injEq] at hs
          rw [← hs]
          exact inv_some (hreq ⟨by simp, by simp⟩)

theorem kept_of_inv {env : Env} {s : State} (h : Inv env s) : Kept env s := by
  intro row hrow hmulti
  have hr := h row hrow
  have hring : s.ring.multi = true := hr.multi.symm.trans hmulti
  have hmatch := hr.matches_entries hring
  have hlen : s.ring.statuses.length = s.ring.entries.length := by simp [Ring.statuses]
  refine ⟨?_, ?_, hr.getKeys, ?_⟩
  · rw [hr.size hring, hr.getKeys]
    simp [Ring.keys]
  · intro i hi
    rw [hr.size hring, ← hlen]
    exact hmatch.range i hi
  · intro i e he
    exact hr.keyStatus he

/-- In every history of a channel whose requests all meet `keeps`, the row has the keys of
the keyring in their order, with the statuses last given to them. -/
theorem kept_of_keeps (env : Env) (ops : List Op) (s : State)
    (hkeeps : Run.Along (step env) (fun s op => keeps env s op = true) initial ops)
    (h : Run.exec (step env) initial ops = some s) : Kept env s := by
  refine kept_of_inv (Run.exec_invariant (fun s a s' => inv_step) ?_ hkeeps h)
  intro row hrow
  cases hrow

/-! ## Two histories -/

/-- No text of the examples is a JSON array. -/
def linesEnv : Env := ⟨fun _ => none, fun _ => none⟩

def exampleChannel (key : String) : Channel :=
  ⟨1, key, 1, "m", "default", none, none, none, .zero, []⟩

def examplePatch (key keyMode : String) : Patch :=
  ⟨exampleChannel key, none, some keyMode, false⟩

/-- Keys are disabled, edited, added and deleted. -/
def carefulEdits : List Op :=
  [.multiToSingle (exampleChannel "a\nb\nc") .random false, .disableKey 1, .updateKey 0 "x",
    .addKeys "d" "", .updateChannelStatus "c" 3 "401" 7, .deleteKey 0, .deleteDisabledKeys,
    .updateChannel (examplePatch "b\ne" "append")]

/-- The first key is disabled, and the other two are put in the place of all. -/
def replacedKeys : List Op :=
  [.multiToSingle (exampleChannel "a\nb\nc") .random false, .disableKey 0,
    .updateChannel (examplePatch "b\nc" "replace")]

theorem kept_carefulEdits :
    ∃ s, Run.exec (step linesEnv) initial carefulEdits = some s ∧
      s.ring = ⟨true, [⟨"b", 2⟩, ⟨"d", 1⟩, ⟨"e", 1⟩]⟩ ∧ Kept linesEnv s := by
  obtain ⟨s, hs, hend⟩ := Run.exists_of_any (step linesEnv) initial carefulEdits
    (fun s => s.ring = ⟨true, [⟨"b", 2⟩, ⟨"d", 1⟩, ⟨"e", 1⟩]⟩) (by decide +kernel)
  exact ⟨s, hs, of_decide_eq_true hend,
    kept_of_keeps linesEnv carefulEdits s (by decide +kernel) hs⟩

/-- The key that follows the disabled one is disabled in its place. -/
theorem replacedKeys_not_kept :
    ¬ ∀ (env : Env) (ops : List Op) (s : State),
      Run.exec (step env) initial ops = some s → Kept env s := by
  intro h
  obtain ⟨s, hs, hend⟩ := Run.exists_of_any (step linesEnv) initial replacedKeys
    (fun s => s.ring = ⟨true, [⟨"b", 1⟩, ⟨"c", 1⟩]⟩ ∧
      s.row.any fun row => row.info.isMultiKey && row.info.keyStatus 0 = 2) (by decide +kernel)
  obtain ⟨hring, hrow⟩ := of_decide_eq_true hend
  obtain ⟨row, hr, hrow⟩ := (Option.any_eq_true _ _).1 hrow
  simp only [Bool.and_eq_true, decide_eq_true_eq] at hrow
  have hstatus := (h linesEnv replacedKeys s hs row hr hrow.1).2.2.2 0 ⟨"b", 1⟩ (by rw [hring]; rfl)
  rw [show ((0 : Nat) : Int) = 0 from rfl, hrow.2] at hstatus
  exact absurd hstatus (by decide)

end DazeApi.Channels.MultiKey
