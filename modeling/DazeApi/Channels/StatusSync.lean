import DazeApi.Channels.Polling
import DazeApi.Lib.Run

/-!
# Statuses in the cache and in the database

Calls of `UpdateChannelStatus` (`model/channel.go`) on one multi-key channel with the memory
cache on, one after the other, as if the polling lock could be taken again by its holder.  A
call changes the channel in the cache, then loads the row, changes that and saves it, and
sets `enabled` in the abilities of the channel when the status of the row has changed.

A channel is *in step* when the cache and the row agree, the status says whether every key
is disabled, and the abilities follow the status.  `right_iff` says which calls leave it so;
`right_run_iff` is the same for sequences of calls.
-/

namespace DazeApi.Channels

/-! ## Equal statuses -/

namespace ChannelInfo

/-- The same `channel_info`; a map is what it reads. -/
structure Same (a b : ChannelInfo) : Prop where
  multi : a.isMultiKey = b.isMultiKey
  size : a.multiKeySize = b.multiKeySize
  statuses : ∀ i, a.multiKeyStatusList.lookup i = b.multiKeyStatusList.lookup i
  reasons : ∀ i, a.multiKeyDisabledReason.lookup i = b.multiKeyDisabledReason.lookup i
  times : ∀ i, a.multiKeyDisabledTime.lookup i = b.multiKeyDisabledTime.lookup i
  index : a.multiKeyPollingIndex = b.multiKeyPollingIndex
  mode : a.multiKeyMode = b.multiKeyMode

variable {a b d : ChannelInfo}

theorem Same.refl (a : ChannelInfo) : a.Same a :=
  ⟨rfl, rfl, fun _ => rfl, fun _ => rfl, fun _ => rfl, rfl, rfl⟩

theorem Same.symm (h : a.Same b) : b.Same a :=
  ⟨h.multi.symm, h.size.symm, fun i => (h.statuses i).symm, fun i => (h.reasons i).symm,
    fun i => (h.times i).symm, h.index.symm, h.mode.symm⟩

theorem Same.trans (hab : a.Same b) (hbd : b.Same d) : a.Same d :=
  ⟨hab.multi.trans hbd.multi, hab.size.trans hbd.size,
    fun i => (hab.statuses i).trans (hbd.statuses i),
    fun i => (hab.reasons i).trans (hbd.reasons i),
    fun i => (hab.times i).trans (hbd.times i), hab.index.trans hbd.index,
    hab.mode.trans hbd.mode⟩

theorem Same.keyStatus (h : a.Same b) (i : Int) : a.keyStatus i = b.keyStatus i := by
  unfold ChannelInfo.keyStatus
  rw [h.statuses]

/-- Maps that read alike have as many entries. -/
theorem length_entries_eq {β : Type} {l l' : AList fun _ : Int => β}
    (h : ∀ i, l.lookup i = l'.lookup i) : l.entries.length = l'.entries.length := by
  refine (List.lookup_ext l.nodupKeys l'.nodupKeys fun i y => ?_).length_eq
  have hi : l.entries.dlookup i = l'.entries.dlookup i := h i
  rw [hi]

theorem Same.exhausted (h : a.Same b) : a.exhausted = b.exhausted := by
  unfold ChannelInfo.exhausted
  rw [h.size, length_entries_eq h.statuses]

/-- Only the status of the key at the position changes. -/
theorem keyStatus_setKeyStatus (info : ChannelInfo) (i status : Int) (reason : String)
    (now j : Int) :
    (info.setKeyStatus i status reason now).keyStatus j =
      if j = i then status else info.keyStatus j := by
  unfold setKeyStatus keyStatus
  by_cases hst : status = statusEnabled
  · rw [if_pos hst]
    by_cases hj : j = i
    · subst hj
      simp [hst]
    · simp [hj, AList.lookup_erase_ne hj]
  · rw [if_neg hst]
    by_cases hj : j = i
    · subst hj
      simp
    · simp [hj, AList.lookup_insert_ne hj]

theorem lookup_insert_congr {β : Type} {l l' : AList fun _ : Int => β}
    (h : ∀ i, l.lookup i = l'.lookup i) (i : Int) (y : β) (j : Int) :
    (l.insert i y).lookup j = (l'.insert i y).lookup j := by
  by_cases hj : j = i
  · rw [hj, AList.lookup_insert, AList.lookup_insert]
  · rw [AList.lookup_insert_ne hj, AList.lookup_insert_ne hj, h]

theorem lookup_erase_congr {β : Type} {l l' : AList fun _ : Int => β}
    (h : ∀ i, l.lookup i = l'.lookup i) (i j : Int) :
    (l.erase i).lookup j = (l'.erase i).lookup j := by
  by_cases hj : j = i
  · rw [hj, AList.lookup_erase, AList.lookup_erase]
  · rw [AList.lookup_erase_ne hj, AList.lookup_erase_ne hj, h]

theorem Same.setKeyStatus (h : a.Same b) (i status : Int) (reason : String) (now : Int) :
    (a.setKeyStatus i status reason now).Same (b.setKeyStatus i status reason now) := by
  unfold ChannelInfo.setKeyStatus
  split
  · exact ⟨h.multi, h.size, lookup_erase_congr h.statuses i, h.reasons, h.times, h.index, h.mode⟩
  · exact ⟨h.multi, h.size, lookup_insert_congr h.statuses i status,
      lookup_insert_congr h.reasons i reason, lookup_insert_congr h.times i now, h.index, h.mode⟩

/-- The position has this status already, and this reason and time if it is disabled. -/
def SetAlready (info : ChannelInfo) (i status : Int) (reason : String) (now : Int) : Prop :=
  if status = statusEnabled then info.multiKeyStatusList.lookup i = none
  else
    info.multiKeyStatusList.lookup i = some status ∧
      info.multiKeyDisabledReason.lookup i = some reason ∧
      info.multiKeyDisabledTime.lookup i = some now

instance (info : ChannelInfo) (i status : Int) (reason : String) (now : Int) :
    Decidable (info.SetAlready i status reason now) :=
  inferInstanceAs (Decidable (ite _ _ _))

theorem lookup_insert_eq_iff {β : Type} (l : AList fun _ : Int => β) (i : Int) (y : β) :
    (∀ j, (l.insert i y).lookup j = l.lookup j) ↔ l.lookup i = some y := by
  constructor
  · intro h
    rw [← h i, AList.lookup_insert]
  · intro h j
    by_cases hj : j = i
    · rw [hj, AList.lookup_insert, h]
    · rw [AList.lookup_insert_ne hj]

theorem lookup_erase_eq_iff {β : Type} (l : AList fun _ : Int => β) (i : Int) :
    (∀ j, (l.erase i).lookup j = l.lookup j) ↔ l.lookup i = none := by
  constructor
  · intro h
    rw [← h i, AList.lookup_erase]
  · intro h j
    by_cases hj : j = i
    · rw [hj, AList.lookup_erase, h]
    · rw [AList.lookup_erase_ne hj]

theorem same_setKeyStatus_iff (info : ChannelInfo) (i status : Int) (reason : String) (now : Int) :
    (info.setKeyStatus i status reason now).Same info ↔ info.SetAlready i status reason now := by
  unfold setKeyStatus SetAlready
  by_cases hst : status = statusEnabled
  · rw [if_pos hst, if_pos hst, ← lookup_erase_eq_iff]
    exact ⟨fun h => h.statuses, fun h => ⟨rfl, rfl, h, fun _ => rfl, fun _ => rfl, rfl, rfl⟩⟩
  · rw [if_neg hst, if_neg hst, ← lookup_insert_eq_iff, ← lookup_insert_eq_iff,
      ← lookup_insert_eq_iff]
    exact ⟨fun h => ⟨h.statuses, h.reasons, h.times⟩,
      fun h => ⟨rfl, rfl, h.1, h.2.1, h.2.2, rfl, rfl⟩⟩

end ChannelInfo

namespace StatusSync

open Polling (Shared StatusCall Answer)

/-- The answers to the statements of a call: loading the row, saving it, and updating the
abilities. -/
structure Answers where
  load : Answer
  save : Answer
  abilities : Answer

/-- What a call reads and writes; `abilities` has the `enabled` of every ability of the
channel. -/
structure State where
  shared : Shared
  abilities : List Bool

/-- `UpdateAbilityStatus`. -/
def updateAbilityStatus (abilities : List Bool) (status : Bool) (ans : Answer) : List Bool :=
  if ans.failure = none then abilities.map fun _ => status else abilities

/-- `UpdateChannelStatus`. -/
def updateChannelStatus (env : Polling.Env) (s : State) (call : StatusCall) (ans : Answers) :
    State × Bool :=
  let cached :=
    if env.memoryCacheEnabled then Polling.updateCached env s.shared call else some s.shared
  match cached with
  | none => (s, false)
  | some sh =>
      match Polling.getChannelById sh ans.load with
      | .error _ => ({ s with shared := sh }, false)
      | .ok channel =>
          if channel.status = call.status then ({ s with shared := sh }, false)
          else
            let updated :=
              if channel.info.isMultiKey then call.handle env channel
              else { channel with status := call.status }
            let shouldUpdateAbilities :=
              !channel.info.isMultiKey || channel.status ≠ updated.status
            let abilities :=
              if shouldUpdateAbilities then
                updateAbilityStatus s.abilities (call.status = statusEnabled) ans.abilities
              else s.abilities
            match Polling.saveWithoutKey sh updated ans.save with
            | some sh' => (⟨sh', abilities⟩, true)
            | none => (⟨sh, abilities⟩, false)

/-! ## What a call has to leave -/

section

variable (env : Polling.Env)

/-- Every key at a position below `n` is disabled. -/
def AllDisabled (info : ChannelInfo) (n : Nat) : Prop :=
  ∀ i : Nat, i < n → info.keyStatus i ≠ statusEnabled

/-- The channel is automatically disabled exactly when every key is disabled. -/
def Exact (c : Channel) : Prop :=
  c.status = statusAutoDisabled ↔ AllDisabled c.info (c.getKeys env.unmarshal).length

/-- Only the statuses of keys equal to this one have changed. -/
def OnlyKey (usingKey : String) (c c' : Channel) : Prop :=
  ∀ (i : Nat) (key : String), (c.getKeys env.unmarshal)[i]? = some key → key ≠ usingKey →
    c'.info.keyStatus i = c.info.keyStatus i

/-- An automatically disabled channel of which a key was enabled again is enabled again. -/
def EnabledAgain (c c' : Channel) : Prop :=
  c.status = statusAutoDisabled →
    (∃ i : Nat, i < (c.getKeys env.unmarshal).length ∧ c.info.keyStatus i ≠ statusEnabled ∧
      c'.info.keyStatus i = statusEnabled) →
    c'.status = statusEnabled

/-- The same `channel_info` and the same status. -/
def SameStatuses (c c' : Channel) : Prop := c.info.Same c'.info ∧ c.status = c'.status

/-- Every ability of the channel is enabled exactly when the channel is. -/
def AbilitiesFollow (abilities : List Bool) (c : Channel) : Prop :=
  ∀ enabled ∈ abilities, enabled = c.enabled

/-- The multi-key channel `c` in the cache and its row `r` are in step. -/
structure InStep (s : State) (c r : Channel) : Prop where
  cached : s.shared.cachedChannel = some c
  row : s.shared.row = some r
  parsed : r.keys = []
  multiCached : c.info.isMultiKey = true
  multi : r.info.isMultiKey = true
  keys : c.getKeys env.unmarshal = r.getKeys env.unmarshal
  same : SameStatuses c r
  exact : Exact env r
  abilities : AbilitiesFollow s.abilities r

/-- A call hits the right key and the right store: with the channel before the call and
after it, in the cache and in the database. -/
structure Right (call : StatusCall) (c r c' r' : Channel) (abilities : List Bool)
    (success : Bool) : Prop where
  onlyCached : OnlyKey env call.usingKey c c'
  only : OnlyKey env call.usingKey r r'
  exactCached : Exact env c'
  exact : Exact env r'
  againCached : EnabledAgain env c c'
  again : EnabledAgain env r r'
  abilities : AbilitiesFollow abilities r'
  equal : success = true → SameStatuses c' r'
  unchanged : success = false → SameStatuses c' c ∧ SameStatuses r' r

end

/-! ## The channel of a call -/

section

variable {env : Polling.Env} {call : StatusCall} {c r : Channel}

theorem SameStatuses.refl (c : Channel) : SameStatuses c c := ⟨.refl _, rfl⟩

theorem SameStatuses.symm {c c' : Channel} (h : SameStatuses c c') : SameStatuses c' c :=
  ⟨h.1.symm, h.2.symm⟩

theorem SameStatuses.trans {c d e : Channel} (hcd : SameStatuses c d) (hde : SameStatuses d e) :
    SameStatuses c e :=
  ⟨hcd.1.trans hde.1, hcd.2.trans hde.2⟩

/-- The keys of a channel stay. -/
theorem handle_kept (env : Polling.Env) (call : StatusCall) (c : Channel) :
    (call.handle env c).key = c.key ∧ (call.handle env c).keys = c.keys ∧
      (call.handle env c).id = c.id ∧
      (call.handle env c).info.isMultiKey = c.info.isMultiKey := by
  obtain ⟨_, _, heq, hmulti⟩ :=
    handlerMultiKeyUpdate_eq env.unmarshal c call.usingKey call.status call.reason call.now
  unfold StatusCall.handle
  rw [heq]
  exact ⟨rfl, rfl, rfl, hmulti⟩

theorem getKeys_handle (env : Polling.Env) (call : StatusCall) (c : Channel) :
    (call.handle env c).getKeys env.unmarshal = c.getKeys env.unmarshal := by
  obtain ⟨hkey, hkeys, -, -⟩ := handle_kept env call c
  unfold Channel.getKeys
  rw [hkey, hkeys]

/-- The position of the key that a call is for. -/
def position (env : Polling.Env) (call : StatusCall) (c : Channel) : Int :=
  keyIndex (c.getKeys env.unmarshal) call.usingKey

theorem handle_of_noKeys (hkeys : c.getKeys env.unmarshal = []) :
    call.handle env c = { c with status := call.status } := by
  unfold StatusCall.handle handlerMultiKeyUpdate
  rw [if_pos hkeys]

theorem info_handle (hkeys : c.getKeys env.unmarshal ≠ []) :
    (call.handle env c).info =
      c.info.setKeyStatus (position env call c) call.status call.reason call.now := by
  unfold StatusCall.handle handlerMultiKeyUpdate position
  rw [if_neg hkeys]
  dsimp only
  split <;> rfl

theorem status_handle (call : StatusCall) (hkeys : c.getKeys env.unmarshal ≠ []) :
    (call.handle env c).status =
      if c.info.leavesKey (position env call c) call.status then c.status
      else statusAutoDisabled := by
  unfold StatusCall.handle handlerMultiKeyUpdate position
  rw [if_neg hkeys]
  dsimp only
  rw [exhausted_setKeyStatus]
  cases c.info.leavesKey (keyIndex (c.getKeys env.unmarshal) call.usingKey) call.status <;> rfl

/-- Channels with the same keys and the same statuses stay so. -/
theorem SameStatuses.handle (call : StatusCall) (h : SameStatuses c r)
    (hkeys : c.getKeys env.unmarshal = r.getKeys env.unmarshal) :
    SameStatuses (call.handle env c) (call.handle env r) := by
  by_cases hnone : r.getKeys env.unmarshal = []
  · rw [handle_of_noKeys hnone, handle_of_noKeys (hkeys.trans hnone)]
    exact ⟨h.1, rfl⟩
  · have hposition : position env call c = position env call r := by
      unfold position
      rw [hkeys]
    have hinfo := h.1.setKeyStatus (position env call r) call.status call.reason call.now
    refine ⟨?_, ?_⟩
    · rw [info_handle hnone, info_handle (hkeys ▸ hnone), hposition]
      exact hinfo
    · have hexhausted := hinfo.exhausted
      rw [exhausted_setKeyStatus, exhausted_setKeyStatus] at hexhausted
      rw [status_handle call hnone, status_handle call (hkeys ▸ hnone), hposition, h.2,
        Bool.not_inj hexhausted]

theorem SameStatuses.exact (h : SameStatuses c r)
    (hkeys : c.getKeys env.unmarshal = r.getKeys env.unmarshal) : Exact env c ↔ Exact env r := by
  unfold Exact AllDisabled
  rw [h.2, hkeys]
  simp only [h.1.keyStatus]

/-! ## The exact conditions -/

/-- The call leaves the channel as it is. -/
def Idle (env : Polling.Env) (call : StatusCall) (c : Channel) : Prop :=
  if c.getKeys env.unmarshal = [] then c.status = call.status
  else
    c.info.SetAlready (position env call c) call.status call.reason call.now ∧
      (c.info.leavesKey (position env call c) call.status = true ∨
        c.status = statusAutoDisabled)

/-- The key is one of the channel, or the first key has the status already. -/
def KeyFound (env : Polling.Env) (call : StatusCall) (c : Channel) : Prop :=
  call.usingKey ∈ c.getKeys env.unmarshal ∨ c.info.keyStatus 0 = call.status

/-- The statuses are as many as the keys, or the channel is disabled already, exactly when
the call disables a key and the others are disabled. -/
def CountsKeys (env : Polling.Env) (call : StatusCall) (c : Channel) : Prop :=
  (c.info.leavesKey (position env call c) call.status = false ∨ c.status = statusAutoDisabled) ↔
    call.status ≠ statusEnabled ∧
      ∀ i : Nat, i < (c.getKeys env.unmarshal).length → (i : Int) ≠ position env call c →
        c.info.keyStatus i ≠ statusEnabled

theorem sameStatuses_handle_iff : SameStatuses (call.handle env c) c ↔ Idle env call c := by
  unfold Idle
  by_cases hnone : c.getKeys env.unmarshal = []
  · rw [handle_of_noKeys hnone, if_pos hnone]
    exact ⟨fun h => h.2.symm, fun h => ⟨.refl _, h.symm⟩⟩
  · unfold SameStatuses
    rw [info_handle hnone, status_handle call hnone, if_neg hnone, ChannelInfo.same_setKeyStatus_iff]
    refine and_congr_right fun _ => ?_
    cases c.info.leavesKey (position env call c) call.status with
    | true => simp
    | false => simp [eq_comm]

theorem onlyKey_handle_iff (hkeys : c.getKeys env.unmarshal ≠ []) :
    OnlyKey env call.usingKey c (call.handle env c) ↔ KeyFound env call c := by
  have hstatus : ∀ j, (call.handle env c).info.keyStatus j =
      if j = position env call c then call.status else c.info.keyStatus j := by
    intro j
    rw [info_handle hkeys, ChannelInfo.keyStatus_setKeyStatus]
  constructor
  · intro honly
    by_cases hmem : call.usingKey ∈ c.getKeys env.unmarshal
    · exact .inl hmem
    · obtain ⟨first, rest, hsplit⟩ := List.exists_cons_of_ne_nil hkeys
      have hfirst : first ≠ call.usingKey := by
        rintro rfl
        exact hmem (by rw [hsplit]; exact List.mem_cons_self)
      have hzero : position env call c = 0 := keyIndex_of_not_mem hmem
      have hsame := honly 0 first (by rw [hsplit]; rfl) hfirst
      rw [hstatus, hzero, Nat.cast_zero, if_pos rfl] at hsame
      exact .inr hsame.symm
  · rintro hfound i key hi hne
    rw [hstatus]
    split
    next hposition =>
      by_cases hmem : call.usingKey ∈ c.getKeys env.unmarshal
      · -- the position holds the key, which this one is not
        obtain ⟨n, hn, hget⟩ := getElem?_keyIndex hmem
        have heq : i = n := Int.ofNat.inj (hposition.trans hn)
        rw [heq, hget, Option.some.injEq] at hi
        exact absurd hi.symm hne
      · have hzero : position env call c = 0 := keyIndex_of_not_mem hmem
        rw [hposition, hzero]
        exact (hfound.resolve_left hmem).symm
    next => rfl

theorem exact_handle_iff (hkeys : c.getKeys env.unmarshal ≠ []) :
    Exact env (call.handle env c) ↔ CountsKeys env call c := by
  have hall : AllDisabled (call.handle env c).info (c.getKeys env.unmarshal).length ↔
      call.status ≠ statusEnabled ∧
        ∀ i : Nat, i < (c.getKeys env.unmarshal).length → (i : Int) ≠ position env call c →
          c.info.keyStatus i ≠ statusEnabled := by
    obtain ⟨n, hn, hindex⟩ := exists_keyIndex hkeys call.usingKey
    have hposition : position env call c = n := hindex
    unfold AllDisabled
    rw [info_handle hkeys]
    simp only [ChannelInfo.keyStatus_setKeyStatus]
    constructor
    · intro h
      refine ⟨?_, fun i hi hne => ?_⟩
      · have hkey := h n hn
        rwa [if_pos hposition.symm] at hkey
      · have hkey := h i hi
        rwa [if_neg hne] at hkey
    · rintro ⟨hcall, hothers⟩ i hi
      split
      · exact hcall
      next hne => exact hothers i hi hne
  unfold Exact CountsKeys
  rw [getKeys_handle, hall, status_handle call hkeys]
  refine iff_congr ?_ Iff.rfl
  cases c.info.leavesKey (position env call c) call.status <;> simp

/-! ## One call -/

/-- The call loads the row, finds another status there, and saves it. -/
def Saves (call : StatusCall) (ans : Answers) (r : Channel) : Prop :=
  (ans.load.failure = none ∧ r.status ≠ call.status) ∧ ans.save.failure = none ∧ r.id ≠ 0

instance (call : StatusCall) (ans : Answers) (r : Channel) : Decidable (Saves call ans r) :=
  inferInstanceAs (Decidable (_ ∧ _))

/-- The abilities after a call that loads the row. -/
def abilitiesAfter (env : Polling.Env) (call : StatusCall) (ans : Answers) (r : Channel)
    (abilities : List Bool) : List Bool :=
  if (ans.load.failure = none ∧ r.status ≠ call.status) ∧
      r.status ≠ (call.handle env r).status then
    updateAbilityStatus abilities (call.status = statusEnabled) ans.abilities
  else abilities

theorem exists_pointer {s : State} (hcached : s.shared.cachedChannel = some c) :
    ∃ n, s.shared.cached = some n ∧ s.shared.structs[n]? = some c :=
  Option.bind_eq_some_iff.1 hcached

/-- The channel in the cache is changed, whatever comes of the call. -/
theorem updateCached_eq (env : Polling.Env) (call : StatusCall) {s : State}
    (hcached : s.shared.cachedChannel = some c)
    (hmulti : c.info.isMultiKey = true) :
    ∃ sh, Polling.updateCached env s.shared call = some sh ∧
      sh.cachedChannel = some (call.handle env c) ∧ sh.row = s.shared.row := by
  obtain ⟨n, hn, hc⟩ := exists_pointer hcached
  refine ⟨s.shared.assign (.pointer n) (call.handle env c), ?_, ?_, rfl⟩
  · unfold Polling.updateCached
    rw [hn, Option.bind_some, hc, Option.bind_some, if_pos hmulti]
  · have hlt : n < s.shared.structs.length := (List.getElem?_eq_some_iff.1 hc).1
    show s.shared.cached.bind ((s.shared.structs.set n _)[·]?) = _
    rw [hn, Option.bind_some, List.getElem?_set_self hlt]

theorem getChannelById_eq {sh : Shared} {ans : Answer} (hrow : sh.row = some r)
    (hparsed : r.keys = []) (hload : ans.failure = none) :
    Polling.getChannelById sh ans = .ok r := by
  unfold Polling.getChannelById
  rw [hload, hrow, ← hparsed]

theorem getChannelById_of_failure (sh : Shared) {ans : Answer} (hload : ans.failure ≠ none) :
    ∃ err, Polling.getChannelById sh ans = .error err := by
  obtain ⟨err, herr⟩ := Option.ne_none_iff_exists'.1 hload
  refine ⟨err, ?_⟩
  unfold Polling.getChannelById
  rw [herr]

theorem saveWithoutKey_eq {sh : Shared} {ans : Answer} {d : Channel} (hrow : sh.row = some r)
    (hkey : d.key = r.key) (hkeys : d.keys = []) :
    Polling.saveWithoutKey sh d ans =
      if ans.failure = none ∧ d.id ≠ 0 then some { sh with row := some d } else none := by
  have hd : { d with key := r.key, keys := [] } = d := by
    rw [← hkey, ← hkeys]
  unfold Polling.saveWithoutKey
  rw [hrow]
  cases hfail : ans.failure with
  | some err => simp
  | none =>
      dsimp only
      rw [hd]
      by_cases hid : d.id = 0 <;> simp [hid]

/-- A call changes the channel in the cache, and the row when it saves. -/
theorem updateChannelStatus_spec (henv : env.memoryCacheEnabled = true) {s : State}
    (h : InStep env s c r) (call : StatusCall) (ans : Answers) :
    (updateChannelStatus env s call ans).1.shared.cachedChannel = some (call.handle env c) ∧
      (updateChannelStatus env s call ans).1.shared.row =
        some (if Saves call ans r then call.handle env r else r) ∧
      (updateChannelStatus env s call ans).1.abilities =
        abilitiesAfter env call ans r s.abilities ∧
      (updateChannelStatus env s call ans).2 = decide (Saves call ans r) := by
  obtain ⟨sh, hupdate, hcached, hrow⟩ := updateCached_eq env call h.cached h.multiCached
  have hstored : sh.row = some r := hrow.trans h.row
  unfold updateChannelStatus abilitiesAfter
  rw [if_pos henv, hupdate]
  dsimp only
  by_cases hload : ans.load.failure = none
  · rw [getChannelById_eq hstored h.parsed hload]
    dsimp only
    by_cases hsame : r.status = call.status
    · have hsaves : ¬ Saves call ans r := fun hs => hs.1.2 hsame
      rw [if_pos hsame, if_neg hsaves, if_neg fun hs => hs.1.2 hsame, decide_eq_false hsaves]
      exact ⟨hcached, hstored, rfl, rfl⟩
    · obtain ⟨hkey, hkeys, hid, -⟩ := handle_kept env call r
      have habilities : (!r.info.isMultiKey || decide (r.status ≠ (call.handle env r).status)) =
          decide (r.status ≠ (call.handle env r).status) := by
        rw [h.multi]
        rfl
      rw [if_neg hsame, if_pos h.multi, saveWithoutKey_eq hstored hkey (hkeys.trans h.parsed),
        habilities, hid]
      by_cases hsave : ans.save.failure = none ∧ r.id ≠ 0
      · have hsaves : Saves call ans r := ⟨⟨hload, hsame⟩, hsave⟩
        rw [if_pos hsave, if_pos hsaves, decide_eq_true hsaves]
        refine ⟨hcached, rfl, ?_, rfl⟩
        simp [hload, hsame]
      · have hsaves : ¬ Saves call ans r := fun hs => hsave hs.2
        rw [if_neg hsave, if_neg hsaves, decide_eq_false hsaves]
        refine ⟨hcached, hstored, ?_, rfl⟩
        simp [hload, hsame]
  · have hsaves : ¬ Saves call ans r := fun hs => hload hs.1.1
    obtain ⟨err, herr⟩ := getChannelById_of_failure sh hload
    rw [herr, if_neg hsaves, if_neg fun hs => hload hs.1.1, decide_eq_false hsaves]
    exact ⟨hcached, hstored, rfl, rfl⟩

/-! ## Which calls are right -/

/-- The call that saves finds its key, counts the keys right, and does not fail to disable
the abilities; any other leaves the channel as it is. -/
def Meets (env : Polling.Env) (call : StatusCall) (ans : Answers) (abilities : List Bool)
    (r : Channel) : Prop :=
  if Saves call ans r then
    r.getKeys env.unmarshal ≠ [] ∧ KeyFound env call r ∧ CountsKeys env call r ∧
      (ans.abilities.failure = none ∨ abilities = [] ∨
        r.info.leavesKey (position env call r) call.status = true ∨ r.status ≠ statusEnabled)
  else Idle env call r

theorem OnlyKey.congr {c' r' : Channel} {key : String} (h : SameStatuses c r)
    (h' : SameStatuses c' r') (hkeys : c.getKeys env.unmarshal = r.getKeys env.unmarshal)
    (honly : OnlyKey env key r r') : OnlyKey env key c c' := by
  intro i k hi hne
  rw [h'.1.keyStatus, h.1.keyStatus]
  exact honly i k (hkeys ▸ hi) hne

theorem EnabledAgain.congr {c' r' : Channel} (h : SameStatuses c r) (h' : SameStatuses c' r')
    (hkeys : c.getKeys env.unmarshal = r.getKeys env.unmarshal) (hagain : EnabledAgain env r r') :
    EnabledAgain env c c' := by
  rintro hst ⟨i, hi, hoff, hon⟩
  rw [h'.2]
  rw [h.1.keyStatus] at hoff
  rw [h'.1.keyStatus] at hon
  exact hagain (h.2 ▸ hst) ⟨i, hkeys ▸ hi, hoff, hon⟩

theorem onlyKey_refl (key : String) (c : Channel) : OnlyKey env key c c := fun _ _ _ _ => rfl

theorem enabledAgain_refl (c : Channel) : EnabledAgain env c c :=
  fun _ ⟨_, _, hoff, hon⟩ => absurd hon hoff

/-- A call that does not save is right when it leaves the channel as it is. -/
theorem right_of_not_saves_iff {s : State} {ans : Answers} (h : InStep env s c r) :
    Right env call c r (call.handle env c) r (abilitiesAfter env call ans r s.abilities) false ↔
      Idle env call r := by
  have hhandle := h.same.handle call h.keys
  rw [← sameStatuses_handle_iff]
  constructor
  · intro hright
    exact hhandle.symm.trans ((hright.unchanged rfl).1.trans h.same)
  · intro hidle
    have hcached : SameStatuses (call.handle env c) c := hhandle.trans (hidle.trans h.same.symm)
    have habilities : abilitiesAfter env call ans r s.abilities = s.abilities :=
      if_neg fun hchanged => hchanged.2 hidle.2.symm
    refine ⟨(onlyKey_refl call.usingKey c).congr (.refl c) hcached rfl, onlyKey_refl _ _, ?_, h.exact,
      (enabledAgain_refl c).congr (.refl c) hcached rfl, enabledAgain_refl _, ?_, nofun,
      fun _ => ⟨hcached, .refl r⟩⟩
    · rw [hcached.exact (getKeys_handle env call c), h.same.exact h.keys]
      exact h.exact
    · rw [habilities]
      exact h.abilities

/-- What follows a channel follows a disabled one if it was disabled before. -/
theorem AbilitiesFollow.disabled_iff {abilities : List Bool} {d : Channel}
    (h : AbilitiesFollow abilities c) (hd : d.enabled = false) :
    AbilitiesFollow abilities d ↔ abilities = [] ∨ c.status ≠ statusEnabled := by
  unfold AbilitiesFollow at h ⊢
  rw [hd]
  constructor
  · intro hoff
    cases habilities : abilities with
    | nil => exact .inl rfl
    | cons enabled rest =>
        have hmem : enabled ∈ abilities := by
          rw [habilities]
          exact List.mem_cons_self
        have hdisabled : c.enabled = false := (h enabled hmem).symm.trans (hoff enabled hmem)
        exact .inr (of_decide_eq_false hdisabled)
  · rintro (rfl | hst) enabled hmem
    · cases hmem
    · exact (h enabled hmem).trans (decide_eq_false hst)

/-- The abilities follow the channel once a key is counted right. -/
theorem abilitiesFollow_iff {s : State} {ans : Answers} (h : InStep env s c r)
    (hsaves : Saves call ans r) (hkeys : r.getKeys env.unmarshal ≠ [])
    (hcounts : CountsKeys env call r) :
    AbilitiesFollow (abilitiesAfter env call ans r s.abilities) (call.handle env r) ↔
      ans.abilities.failure = none ∨ s.abilities = [] ∨
        r.info.leavesKey (position env call r) call.status = true ∨ r.status ≠ statusEnabled := by
  have hstatus := status_handle call hkeys
  unfold abilitiesAfter
  cases hleaves : r.info.leavesKey (position env call r) call.status with
  | true =>
      -- the status stays, and so do the abilities
      rw [hleaves, if_pos rfl] at hstatus
      have hsame : (call.handle env r).enabled = r.enabled := by
        unfold Channel.enabled
        rw [hstatus]
      rw [if_neg fun hchanged => hchanged.2 hstatus.symm]
      unfold AbilitiesFollow
      rw [hsame]
      exact iff_of_true h.abilities (.inr (.inr (.inl rfl)))
  | false =>
      rw [hleaves, if_neg (by decide)] at hstatus
      have hoff : (call.handle env r).enabled = false := by
        unfold Channel.enabled
        rw [hstatus]
        rfl
      have hcall : call.status ≠ statusEnabled := (hcounts.1 (.inl hleaves)).1
      have hkept := h.abilities.disabled_iff hoff
      by_cases hauto : r.status = statusAutoDisabled
      · rw [if_neg fun hchanged => hchanged.2 (hauto.trans hstatus.symm)]
        have hne : r.status ≠ statusEnabled := by
          rw [hauto]
          decide
        exact iff_of_true (hkept.2 (.inr hne)) (.inr (.inr (.inr hne)))
      · rw [if_pos ⟨hsaves.1, fun hsame => hauto (hsame.trans hstatus)⟩]
        unfold updateAbilityStatus
        by_cases hfailure : ans.abilities.failure = none
        · rw [if_pos hfailure]
          refine iff_of_true (fun enabled henabled => ?_) (.inl hfailure)
          obtain ⟨_, _, rfl⟩ := List.mem_map.1 henabled
          rw [hoff, decide_eq_false hcall]
        · rw [if_neg hfailure, hkept]
          simp [hfailure]

/-- A call that saves is right when it finds its key and counts the keys right. -/
theorem right_of_saves_iff {s : State} {ans : Answers} (h : InStep env s c r)
    (hsaves : Saves call ans r) :
    Right env call c r (call.handle env c) (call.handle env r)
        (abilitiesAfter env call ans r s.abilities) true ↔
      r.getKeys env.unmarshal ≠ [] ∧ KeyFound env call r ∧ CountsKeys env call r ∧
        (ans.abilities.failure = none ∨ s.abilities = [] ∨
          r.info.leavesKey (position env call r) call.status = true ∨
          r.status ≠ statusEnabled) := by
  have hhandle := h.same.handle call h.keys
  constructor
  · intro hright
    have hkeys : r.getKeys env.unmarshal ≠ [] := by
      intro hnone
      have hvacuous : AllDisabled r.info (r.getKeys env.unmarshal).length := by
        intro i hi
        rw [hnone] at hi
        cases hi
      have hbefore : r.status = statusAutoDisabled := h.exact.2 hvacuous
      have hafter : call.status = statusAutoDisabled := by
        have hexact := hright.exact
        rw [handle_of_noKeys hnone] at hexact
        exact hexact.2 hvacuous
      exact hsaves.1.2 (hbefore.trans hafter.symm)
    have hcounts := (exact_handle_iff hkeys).1 hright.exact
    exact ⟨hkeys, (onlyKey_handle_iff hkeys).1 hright.only, hcounts,
      (abilitiesFollow_iff h hsaves hkeys hcounts).1 hright.abilities⟩
  · rintro ⟨hkeys, hfound, hcounts, habilities⟩
    have honly := (onlyKey_handle_iff hkeys).2 hfound
    have hexact := (exact_handle_iff hkeys).2 hcounts
    have hagain : EnabledAgain env r (call.handle env r) := by
      rintro hauto ⟨i, hi, -, hon⟩
      have hstill : (call.handle env r).status = statusAutoDisabled := by
        rw [status_handle call hkeys, hauto, ite_self]
      exact absurd hon (hexact.1 hstill i (getKeys_handle env call r ▸ hi))
    refine ⟨honly.congr h.same hhandle h.keys, honly, ?_, hexact,
      hagain.congr h.same hhandle h.keys, hagain,
      (abilitiesFollow_iff h hsaves hkeys hcounts).2 habilities, fun _ => hhandle, nofun⟩
    rw [hhandle.exact (by rw [getKeys_handle, getKeys_handle, h.keys])]
    exact hexact

/-! ## Sequences of calls -/

/-- One call of a sequence. -/
def step (env : Polling.Env) (s : State) (a : StatusCall × Answers) : Option State :=
  some (updateChannelStatus env s a.1 a.2).1

/-- The call hits the right key and the right store. -/
def RightStep (env : Polling.Env) (s : State) (a : StatusCall × Answers) : Prop :=
  ∀ c r, s.shared.cachedChannel = some c → s.shared.row = some r →
    ∃ c' r', (step env s a).bind (·.shared.cachedChannel) = some c' ∧
      (step env s a).bind (·.shared.row) = some r' ∧
      Right env a.1 c r c' r' (updateChannelStatus env s a.1 a.2).1.abilities
        (updateChannelStatus env s a.1 a.2).2

/-- The call meets its condition on the row. -/
def MeetsStep (env : Polling.Env) (s : State) (a : StatusCall × Answers) : Prop :=
  ∀ r ∈ s.shared.row, Meets env a.1 a.2 s.abilities r

theorem right_iff (call : StatusCall) (ans : Answers) {s : State} (h : InStep env s c r) :
    Right env call c r (call.handle env c) (if Saves call ans r then call.handle env r else r)
        (abilitiesAfter env call ans r s.abilities) (decide (Saves call ans r)) ↔
      Meets env call ans s.abilities r := by
  unfold Meets
  by_cases hsaves : Saves call ans r
  · rw [if_pos hsaves, if_pos hsaves, decide_eq_true hsaves]
    exact right_of_saves_iff h hsaves
  · rw [if_neg hsaves, if_neg hsaves, decide_eq_false hsaves]
    exact right_of_not_saves_iff h

theorem rightStep_iff (henv : env.memoryCacheEnabled = true) {s : State} (h : InStep env s c r)
    (a : StatusCall × Answers) : RightStep env s a ↔ MeetsStep env s a := by
  obtain ⟨hcached, hrow, habilities, hsuccess⟩ := updateChannelStatus_spec henv h a.1 a.2
  have hiff := right_iff a.1 a.2 h
  rw [← habilities, ← hsuccess] at hiff
  constructor
  · intro hright r₀ hr₀
    obtain rfl : r = r₀ := Option.some.inj (h.row.symm.trans hr₀)
    obtain ⟨c', r', hc', hr', hafter⟩ := hright c r h.cached h.row
    obtain rfl := Option.some.inj (hcached.symm.trans hc')
    obtain rfl := Option.some.inj (hrow.symm.trans hr')
    exact hiff.1 hafter
  · intro hmeets c₀ r₀ hc₀ hr₀
    obtain rfl : c = c₀ := Option.some.inj (h.cached.symm.trans hc₀)
    obtain rfl : r = r₀ := Option.some.inj (h.row.symm.trans hr₀)
    exact ⟨_, _, hcached, hrow, hiff.2 (hmeets r h.row)⟩

/-- A right call leaves the channel in step. -/
theorem inStep_of_rightStep (henv : env.memoryCacheEnabled = true) {s s' : State}
    {a : StatusCall × Answers} (h : InStep env s c r) (hright : RightStep env s a)
    (hstep : step env s a = some s') : ∃ c' r', InStep env s' c' r' := by
  obtain ⟨hcached, hrow, -, hsuccess⟩ := updateChannelStatus_spec henv h a.1 a.2
  obtain ⟨c', r', hc', hr', hafter⟩ := hright c r h.cached h.row
  obtain rfl := Option.some.inj (hcached.symm.trans hc')
  obtain rfl := Option.some.inj (hrow.symm.trans hr')
  cases hstep
  obtain ⟨hkey, hkeys, -, hmulti⟩ := handle_kept env a.1 r
  obtain ⟨-, -, -, hmultiCached⟩ := handle_kept env a.1 c
  have hsame : SameStatuses (a.1.handle env c)
      (if Saves a.1 a.2 r then a.1.handle env r else r) := by
    by_cases hsaves : Saves a.1 a.2 r
    · rw [decide_eq_true hsaves] at hsuccess
      exact hafter.equal hsuccess
    · rw [decide_eq_false hsaves] at hsuccess
      obtain ⟨hcachedSame, hrowSame⟩ := hafter.unchanged hsuccess
      exact hcachedSame.trans (h.same.trans hrowSame.symm)
  refine ⟨_, _, hcached, hrow, ?_, hmultiCached.trans h.multiCached, ?_, ?_, hsame, hafter.exact,
    hafter.abilities⟩
  · split
    · exact hkeys.trans h.parsed
    · exact h.parsed
  · split
    · exact hmulti.trans h.multi
    · exact h.multi
  · rw [getKeys_handle]
    split
    · rw [getKeys_handle]
      exact h.keys
    · exact h.keys

end

/-! ## Three channels -/

instance (env : Polling.Env) (call : StatusCall) (c : Channel) : Decidable (Idle env call c) :=
  inferInstanceAs (Decidable (ite _ _ _))

instance (env : Polling.Env) (call : StatusCall) (c : Channel) : Decidable (KeyFound env call c) :=
  inferInstanceAs (Decidable (_ ∨ _))

instance (env : Polling.Env) (call : StatusCall) (c : Channel) :
    Decidable (CountsKeys env call c) :=
  inferInstanceAs (Decidable (_ ↔ _))

instance (env : Polling.Env) (call : StatusCall) (ans : Answers) (abilities : List Bool)
    (r : Channel) : Decidable (Meets env call ans abilities r) :=
  inferInstanceAs (Decidable (ite _ _ _))

instance (env : Polling.Env) (s : State) (a : StatusCall × Answers) :
    Decidable (MeetsStep env s a) :=
  inferInstanceAs (Decidable (∀ r ∈ s.shared.row, Meets env a.1 a.2 s.abilities r))

def cacheEnv : Polling.Env := ⟨true, fun _ => none⟩

/-- A channel with the keys `a` and `b`, and these statuses. -/
def twoKeys (statuses : AList fun _ : Int => Int) : Channel :=
  ⟨1, "a\nb", statusEnabled, "m", "default", none, none, none,
    ⟨true, 2, statuses, ∅, ∅, 0, .random⟩, []⟩

/-- The channel in the cache and in the database, with one ability. -/
def stored (statuses : AList fun _ : Int => Int) : State :=
  ⟨⟨[twoKeys statuses], some 0, some (twoKeys statuses)⟩, [true]⟩

/-- No statement fails. -/
def quiet : Answers := ⟨Polling.quiet, Polling.quiet, Polling.quiet⟩

theorem getKeys_twoKeys (statuses : AList fun _ : Int => Int) :
    (twoKeys statuses).getKeys cacheEnv.unmarshal = ["a", "b"] := by
  have hempty : (twoKeys ∅).getKeys cacheEnv.unmarshal = ["a", "b"] := by decide +kernel
  exact hempty

theorem inStep_stored {statuses : AList fun _ : Int => Int}
    (h : (twoKeys statuses).info.keyStatus 1 = statusEnabled) :
    InStep cacheEnv (stored statuses) (twoKeys statuses) (twoKeys statuses) where
  cached := rfl
  row := rfl
  parsed := rfl
  multiCached := rfl
  multi := rfl
  keys := rfl
  same := .refl _
  exact := by
    have henabled : statusEnabled ≠ statusAutoDisabled := by decide
    refine iff_of_false henabled fun hall => hall 1 ?_ h
    rw [getKeys_twoKeys]
    decide
  abilities enabled henabled := List.mem_singleton.1 henabled

/-- Both keys are disabled, one after the other. -/
def disableBoth : List (StatusCall × Answers) :=
  [(⟨"a", statusAutoDisabled, "401", 7⟩, quiet), (⟨"b", statusAutoDisabled, "401", 8⟩, quiet)]

end StatusSync

end DazeApi.Channels
