import DazeApi.Lib.Table
import DazeApi.Lib.Text
import Mathlib.Data.List.AList

/-!
# Channels

`model.Channel` (`model/channel.go`) with its keys.  A channel has one key, or, as a
multi-key channel, a list of them in the text of its `key` column: separated by
newlines, or as a JSON array.  The statuses of the keys are a map from positions to
statuses in the column `channel_info`; a position that is missing is enabled.

The columns that no modelled function reads are left out, and so are `other_info`,
where the source notes the reason and the time of a status change, and the scores of a
channel in `channel_info`.  A Go map that is nil reads and ranges like an empty one, and
the source makes one before it writes, so the two are not told apart.
-/

namespace DazeApi.Channels

/-- `constant.MultiKeyMode`, a string type. -/
inductive MultiKeyMode where
  | random
  | polling
  | other (text : String)
deriving DecidableEq, Repr

/-- `model.ChannelInfo`. -/
structure ChannelInfo where
  isMultiKey : Bool
  multiKeySize : Int
  multiKeyStatusList : AList fun _ : Int => Int
  multiKeyDisabledReason : AList fun _ : Int => String
  multiKeyDisabledTime : AList fun _ : Int => Int
  multiKeyPollingIndex : Int
  multiKeyMode : MultiKeyMode
deriving DecidableEq

/-- The `channel_info` of a channel with one key. -/
def ChannelInfo.zero : ChannelInfo := ⟨false, 0, ∅, ∅, ∅, 0, .other ""⟩

/-- All fields are zero. -/
def ChannelInfo.isZero (info : ChannelInfo) : Bool :=
  !info.isMultiKey && info.multiKeySize = 0 && info.multiKeyStatusList.entries.isEmpty &&
    info.multiKeyDisabledReason.entries.isEmpty && info.multiKeyDisabledTime.entries.isEmpty &&
    info.multiKeyPollingIndex = 0 && info.multiKeyMode = .other ""

/-- `model.Channel`.  `keys` is not a column: the memory cache keeps the parsed keys
there. -/
structure Channel where
  id : Int
  key : String
  status : Int
  models : String
  group : String
  priority : Option Int
  weight : Option Nat
  tag : Option String
  info : ChannelInfo
  keys : List String
deriving DecidableEq

/-- The rows of `channels`. -/
abbrev ChannelTable := Table Channel.id

def statusEnabled : Int := 1

def statusManuallyDisabled : Int := 2

def statusAutoDisabled : Int := 3

def Channel.enabled (c : Channel) : Bool := c.status = statusEnabled

/-- `strings.Split(channel.Group, ",")`. -/
def Channel.groupList (c : Channel) : List String := Text.splitAt c.group ','

/-- `strings.Split(channel.Models, ",")`. -/
def Channel.modelList (c : Channel) : List String := Text.splitAt c.models ','

/-- `GetPriority`. -/
def Channel.getPriority (c : Channel) : Int := c.priority.getD 0

/-- `GetWeight`. -/
def Channel.getWeight (c : Channel) : Nat := c.weight.getD 0

/-! ## Keys -/

/-- Decoding a JSON array into the raw texts of its elements. -/
abbrev UnmarshalArray := String → Option (List String)

section

variable (unmarshal : UnmarshalArray)

/-- The elements of a text that looks like a JSON array and is one. -/
def jsonKeys (text : String) : Option (List String) :=
  if Text.hasPrefix (Text.trimSpace text) "[" then unmarshal (Text.trimSpace text) else none

/-- `strings.Split(strings.Trim(key, "\n"), "\n")`. -/
def lineKeys (text : String) : List String := Text.splitAt (Text.trimChar text '\n') '\n'

/-- `GetKeys`. -/
def Channel.getKeys (c : Channel) : List String :=
  if c.key = "" then []
  else if c.keys ≠ [] then c.keys
  else (jsonKeys unmarshal c.key).getD (lineKeys c.key)

/-- The status of the key at a position. -/
def ChannelInfo.keyStatus (info : ChannelInfo) (i : Int) : Int :=
  (info.multiKeyStatusList.lookup i).getD statusEnabled

/-- The first position of a key, or the first of all where the key is missing. -/
def keyIndex (keys : List String) (usingKey : String) : Int :=
  ((keys.findIdx? (· = usingKey)).getD 0 : Nat)

theorem exists_keyIndex {keys : List String} (hne : keys ≠ []) (usingKey : String) :
    ∃ n : Nat, n < keys.length ∧ keyIndex keys usingKey = n := by
  refine ⟨(keys.findIdx? (· = usingKey)).getD 0, ?_, rfl⟩
  have hlen : 0 < keys.length := List.length_pos_iff.2 hne
  cases hf : keys.findIdx? (· = usingKey) with
  | none => simpa using hlen
  | some n => simpa using (List.findIdx?_eq_some_iff_getElem.1 hf).1

/-- The position of a key holds it. -/
theorem getElem?_keyIndex {keys : List String} {usingKey : String} (hmem : usingKey ∈ keys) :
    ∃ n : Nat, keyIndex keys usingKey = n ∧ keys[n]? = some usingKey := by
  cases hf : keys.findIdx? (· = usingKey) with
  | none =>
      have hnone := List.findIdx?_eq_none_iff.1 hf usingKey hmem
      simp at hnone
  | some n =>
      obtain ⟨hlt, hn, -⟩ := List.findIdx?_eq_some_iff_getElem.1 hf
      refine ⟨n, by simp [keyIndex, hf], ?_⟩
      rw [List.getElem?_eq_getElem hlt, Option.some.injEq]
      exact of_decide_eq_true hn

/-- A key that is missing is taken for the first. -/
theorem keyIndex_of_not_mem {keys : List String} {usingKey : String} (hmem : usingKey ∉ keys) :
    keyIndex keys usingKey = 0 := by
  have hnone : keys.findIdx? (· = usingKey) = none := by
    rw [List.findIdx?_eq_none_iff]
    intro key hkey
    rw [decide_eq_false_iff_not]
    rintro rfl
    exact hmem hkey
  simp [keyIndex, hnone]

/-- The `channel_info` in which `handlerMultiKeyUpdate` has set the status of a key. -/
def ChannelInfo.setKeyStatus (info : ChannelInfo) (i status : Int) (reason : String) (now : Int) :
    ChannelInfo :=
  if status = statusEnabled then
    { info with multiKeyStatusList := info.multiKeyStatusList.erase i }
  else
    { info with
      multiKeyStatusList := info.multiKeyStatusList.insert i status
      multiKeyDisabledReason := info.multiKeyDisabledReason.insert i reason
      multiKeyDisabledTime := info.multiKeyDisabledTime.insert i now }

/-- `len(MultiKeyStatusList) >= MultiKeySize`. -/
def ChannelInfo.exhausted (info : ChannelInfo) : Bool :=
  info.multiKeySize ≤ info.multiKeyStatusList.entries.length

/-- The statuses of the other keys, together with this one if it is disabled, are fewer
than the keys. -/
def ChannelInfo.leavesKey (info : ChannelInfo) (i status : Int) : Bool :=
  (info.multiKeyStatusList.erase i).entries.length + (if status = statusEnabled then 0 else 1) <
    info.multiKeySize

theorem exhausted_setKeyStatus (info : ChannelInfo) (i status : Int) (reason : String) (now : Int) :
    (info.setKeyStatus i status reason now).exhausted = !info.leavesKey i status := by
  rw [Bool.eq_iff_iff]
  by_cases hst : status = statusEnabled
  · simp [ChannelInfo.setKeyStatus, ChannelInfo.exhausted, ChannelInfo.leavesKey, hst]
  · have hentries : (info.multiKeyStatusList.erase i).entries =
        info.multiKeyStatusList.entries.kerase i := rfl
    simp [ChannelInfo.setKeyStatus, ChannelInfo.exhausted, ChannelInfo.leavesKey, hst, hentries]

/-- `handlerMultiKeyUpdate`. -/
def handlerMultiKeyUpdate (c : Channel) (usingKey : String) (status : Int) (reason : String)
    (now : Int) : Channel :=
  let keys := c.getKeys unmarshal
  if keys = [] then { c with status := status }
  else
    let info := c.info.setKeyStatus (keyIndex keys usingKey) status reason now
    if info.exhausted then { c with info := info, status := statusAutoDisabled }
    else { c with info := info }

theorem isMultiKey_setKeyStatus (info : ChannelInfo) (i status : Int) (reason : String)
    (now : Int) : (info.setKeyStatus i status reason now).isMultiKey = info.isMultiKey := by
  unfold ChannelInfo.setKeyStatus
  split <;> rfl

/-- An update changes the status and `channel_info`, and no other column. -/
theorem handlerMultiKeyUpdate_eq (c : Channel) (usingKey : String) (status : Int)
    (reason : String) (now : Int) :
    ∃ info status', handlerMultiKeyUpdate unmarshal c usingKey status reason now =
        { c with info := info, status := status' } ∧ info.isMultiKey = c.info.isMultiKey := by
  unfold handlerMultiKeyUpdate
  dsimp only
  split
  next => exact ⟨c.info, status, rfl, rfl⟩
  next =>
    have hmulti := isMultiKey_setKeyStatus c.info (keyIndex (c.getKeys unmarshal) usingKey) status
      reason now
    split
    next => exact ⟨_, statusAutoDisabled, rfl, hmulti⟩
    next => exact ⟨_, c.status, rfl, hmulti⟩

theorem group_handlerMultiKeyUpdate (c : Channel) (usingKey : String) (status : Int)
    (reason : String) (now : Int) :
    (handlerMultiKeyUpdate unmarshal c usingKey status reason now).group = c.group := by
  obtain ⟨_, _, heq, -⟩ := handlerMultiKeyUpdate_eq unmarshal c usingKey status reason now
  rw [heq]

theorem models_handlerMultiKeyUpdate (c : Channel) (usingKey : String) (status : Int)
    (reason : String) (now : Int) :
    (handlerMultiKeyUpdate unmarshal c usingKey status reason now).models = c.models := by
  obtain ⟨_, _, heq, -⟩ := handlerMultiKeyUpdate_eq unmarshal c usingKey status reason now
  rw [heq]

end

end DazeApi.Channels
