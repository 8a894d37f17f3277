import DazeApi.Channels.Update
import DazeApi.Lib.Run

/-!
# The keys of a multi-key channel

The functions of `controller/channel.go` that write the keys of one channel: `AddChannel`
for a channel with several keys, `UpdateChannel`, and the actions of `ManageMultiKeys`.
The statuses of the keys hang on their positions, so each of them carries the positions
along by hand.  With them there is `UpdateChannelStatus` of `model/channel.go`, by which a
key that fails is disabled.

Over the row of the channel there is a keyring: the list of its keys, each with the status
that was last given to it.  `Ring.apply` says what an operation is for, and `State.apply`
lets the code and the keyring take it together.

A request that is rejected changes nothing.  The role of the caller is not modelled: a
request that is refused for it is no step.  `Update` also creates the abilities of the
channel again, which are not looked at here.
-/

namespace DazeApi.Channels.MultiKey

/-- A value of a JSON array of Vertex keys: a string, or what another value is encoded to. -/
inductive VertexValue where
  | text (s : String)
  | json (bytes : String)
deriving DecidableEq, Repr

structure Env where
  unmarshal : UnmarshalArray
  unmarshalValues : String → Option (List VertexValue)

def newline : Char := '\n'

/-- `strings.Join(keys, "\n")`. -/
def joinKeys (keys : List String) : String := Text.join keys newline

/-- `keyStr` of `getVertexArrayKeys`. -/
def VertexValue.key : VertexValue → String
  | .text s => Text.trimSpace s
  | .json bytes => bytes

/-- `getVertexArrayKeys`; `none` is its error. -/
def getVertexArrayKeys (env : Env) (keys : String) : Option (List String) :=
  if keys = "" then some []
  else
    (env.unmarshalValues keys).bind fun keyArray =>
      let cleanKeys := (keyArray.map VertexValue.key).filter (· ≠ "")
      if cleanKeys = [] then none else some cleanKeys

/-- The lines of a text, trimmed, without those that are blank. -/
def keyLines (text : String) : List String :=
  ((Text.splitAt text newline).map Text.trimSpace).filter (· ≠ "")

def MultiKeyMode.ofText (text : String) : MultiKeyMode :=
  if text = "random" then .random else if text = "polling" then .polling else .other text

/-! ## `AddChannel` -/

/-- The keys of the mode `multi_to_single`.  A line is skipped if it is empty, and trimmed
after that. -/
def requestedKeys (env : Env) (key : String) (vertex : Bool) : Option (List String) :=
  if vertex then getVertexArrayKeys env key
  else some (((Text.splitAt key newline).filter (· ≠ "")).map Text.trimSpace)

/-- `AddChannel` with the mode `multi_to_single`; `vertex`: the keys are Vertex JSON keys. -/
def multiToSingle (env : Env) (c : Channel) (mode : MultiKeyMode) (vertex : Bool) :
    Option Channel :=
  (requestedKeys env c.key vertex).map fun keys =>
    createdRow { c with
      key := joinKeys keys
      info := { c.info with
        isMultiKey := true
        multiKeyMode := mode
        multiKeySize := keys.length } }

/-! ## `UpdateChannel` -/

/-- `PatchChannel`; `vertex`: its keys are Vertex JSON keys. -/
structure Patch where
  channel : Channel
  multiKeyMode : Option String
  keyMode : Option String
  vertex : Bool

/-- The row after `Channel.Update` of a channel. -/
def saved (env : Env) (row c : Channel) : Channel :=
  updates row (recalculated env.unmarshal row.key c)

/-- `existingKeys` of the key mode `append`. -/
def appendExisting (env : Env) (key : String) : List String :=
  if Text.hasPrefix (Text.trimSpace key) "[" then (env.unmarshal (Text.trimSpace key)).getD []
  else lineKeys key

/-- `newKeys` of the key mode `append`. -/
def appendNew (env : Env) (key : String) (vertex : Bool) : Option (List String) :=
  if vertex then
    if Text.hasPrefix (Text.trimSpace key) "[" then getVertexArrayKeys env key else some [key]
  else some (keyLines key)

/-- `dedupedNewKeys`: the new keys that have not been seen. -/
def dedupedNewKeys (existing new : List String) : List String :=
  (new.foldl
    (fun (acc : List String × List String) key =>
      let normalized := Text.trimSpace key
      if normalized = "" ∨ normalized ∈ acc.1 then acc
      else (acc.1 ++ [normalized], acc.2 ++ [normalized]))
    ((existing.map Text.trimSpace).filter (· ≠ ""), [])).2

/-- The `channel_info` with which `UpdateChannel` starts. -/
def Patch.info (p : Patch) (row : Channel) : ChannelInfo :=
  match p.multiKeyMode with
  | some mode =>
      if mode ≠ "" then { row.info with multiKeyMode := MultiKeyMode.ofText mode } else row.info
  | none => row.info

/-- The request appends its keys. -/
def Patch.appends (p : Patch) (row : Channel) : Bool :=
  p.keyMode = some "append" && row.info.isMultiKey && row.key ≠ ""

/-- The key text after the switch over the key mode; `none`: the request is rejected. -/
def Patch.keyText (env : Env) (p : Patch) (row : Channel) : Option String :=
  if p.appends row then
    (appendNew env p.channel.key p.vertex).map fun newKeys =>
      let existingKeys := appendExisting env row.key
      joinKeys (existingKeys ++ dedupedNewKeys existingKeys newKeys)
  else some p.channel.key

/-- A text of several lines that makes a channel with one key one with several. -/
def upgrades (info : ChannelInfo) (key : String) : Bool :=
  Text.trimSpace key ≠ "" && !info.isMultiKey && !Text.hasPrefix (Text.trimSpace key) "[" &&
    1 < (keyLines key).length

/-- The upgrade of a channel with one key. -/
def upgraded (c : Channel) : Channel :=
  if upgrades c.info c.key then
    let parts := keyLines c.key
    { c with
      key := joinKeys parts
      info := { c.info with
        isMultiKey := true
        multiKeySize := parts.length
        multiKeyMode := if c.info.multiKeyMode = .other "" then .random else c.info.multiKeyMode } }
  else c

/-- `UpdateChannel`. -/
def updateChannel (env : Env) (row : Channel) (p : Patch) : Option Channel :=
  (p.keyText env row).map fun key =>
    saved env row (upgraded { p.channel with key := key, info := p.info row })

/-! ## `ManageMultiKeys` -/

section

variable (env : Env) (row : Channel)

/-- The index is one of a key. -/
def inRange (i size : Int) : Bool := 0 ≤ i && i < size

/-- `update_key`. -/
def updateKey (i : Int) (newKeyValue : String) : Option Channel :=
  let newVal := Text.trimSpace newKeyValue
  if newVal = "" then none
  else if !row.info.isMultiKey then
    if i ≠ 0 then none else some (saved env row { row with key := newVal })
  else
    let keys := row.getKeys env.unmarshal
    if inRange i keys.length then
      some (saved env row { row with key := joinKeys (keys.set i.toNat newVal) })
    else none

/-- The mode that `add_keys` sets. -/
def addKeysMode (info : ChannelInfo) (multiKeyMode : String) : MultiKeyMode :=
  if Text.trimSpace multiKeyMode ≠ "" then MultiKeyMode.ofText (Text.trimSpace multiKeyMode)
  else if info.multiKeyMode = .other "" then .random
  else info.multiKeyMode

/-- `add_keys`. -/
def addKeys (newKeyValue multiKeyMode : String) : Option Channel :=
  let newKeys := keyLines (Text.trimSpace newKeyValue)
  if newKeys = [] then none
  else
    let allKeys := row.getKeys env.unmarshal ++ newKeys
    if allKeys.length = 1 then
      some (saved env row { row with
        key := allKeys.headD ""
        info := { row.info with isMultiKey := false } })
    else
      some (saved env row { row with
        key := joinKeys allKeys
        info := { row.info with
          isMultiKey := true
          multiKeyMode := addKeysMode row.info multiKeyMode
          multiKeySize := allKeys.length } })

/-- The actions on the status of a channel with one key. -/
def setSingleStatus (status : Int) : Option Channel :=
  if row.status = status then none else some { row with status := status }

/-- `disable_key`. -/
def disableKey (i : Int) : Option Channel :=
  if !row.info.isMultiKey then if i ≠ 0 then none else setSingleStatus row statusManuallyDisabled
  else if inRange i row.info.multiKeySize then
    some (saved env row { row with
      info := { row.info with
        multiKeyStatusList := row.info.multiKeyStatusList.insert i statusManuallyDisabled } })
  else none

/-- `enable_key`. -/
def enableKey (i : Int) : Option Channel :=
  if !row.info.isMultiKey then if i ≠ 0 then none else setSingleStatus row statusEnabled
  else if inRange i row.info.multiKeySize then
    some (saved env row { row with
      info := { row.info with
        multiKeyStatusList := row.info.multiKeyStatusList.erase i
        multiKeyDisabledTime := row.info.multiKeyDisabledTime.erase i
        multiKeyDisabledReason := row.info.multiKeyDisabledReason.erase i } })
  else none

/-- `enable_all_keys`. -/
def enableAllKeys : Option Channel :=
  if !row.info.isMultiKey then setSingleStatus row statusEnabled
  else
    some (saved env row { row with
      info := { row.info with
        multiKeyStatusList := ∅
        multiKeyDisabledTime := ∅
        multiKeyDisabledReason := ∅ } })

/-- One turn of the loop of `disable_all_keys`. -/
def disableEnabled (list : AList fun _ : Int => Int) (i : Nat) : AList fun _ : Int => Int :=
  if (list.lookup (i : Int)).getD statusEnabled = statusEnabled then
    list.insert (i : Int) statusManuallyDisabled
  else list

/-- `disable_all_keys`. -/
def disableAllKeys : Option Channel :=
  if !row.info.isMultiKey then setSingleStatus row statusManuallyDisabled
  else
    let indices := List.range row.info.multiKeySize.toNat
    if indices.all fun i => row.info.keyStatus i ≠ statusEnabled then none
    else
      some (saved env row { row with
        info := { row.info with
          multiKeyStatusList := indices.foldl disableEnabled row.info.multiKeyStatusList } })

/-- What the loops of the two deletions have kept; `newIndex` is the number of the keys. -/
structure Remaining where
  keys : List String
  statuses : AList fun _ : Int => Int
  times : AList fun _ : Int => Int
  reasons : AList fun _ : Int => String

def Remaining.empty : Remaining := ⟨[], ∅, ∅, ∅⟩

/-- An entry of a map goes to the new position. -/
def carry {β : Type} (old new : AList fun _ : Int => β) (i newIndex : Int) :
    AList fun _ : Int => β :=
  match old.lookup i with
  | some v => new.insert newIndex v
  | none => new

/-- A key is kept; `notes`: the time and the reason go with it. -/
def Remaining.keep (info : ChannelInfo) (r : Remaining) (i : Int) (key : String) (notes : Bool) :
    Remaining where
  keys := r.keys ++ [key]
  statuses :=
    if info.keyStatus i ≠ statusEnabled then r.statuses.insert r.keys.length (info.keyStatus i)
    else r.statuses
  times := if notes then carry info.multiKeyDisabledTime r.times i r.keys.length else r.times
  reasons := if notes then carry info.multiKeyDisabledReason r.reasons i r.keys.length else r.reasons

/-- The loop of the two deletions over the keys from position `i` on. -/
def rebuild (info : ChannelInfo) (drop notes : Int → Bool) :
    List String → Int → Remaining → Remaining
  | [], _, r => r
  | key :: keys, i, r =>
      rebuild info drop notes keys (i + 1) (if drop i then r else r.keep info i key (notes i))

/-- The loop of `delete_key`. -/
def dropIndex (info : ChannelInfo) (keyIndex : Int) (keys : List String) : Remaining :=
  rebuild info (· = keyIndex) (fun _ => true) keys 0 .empty

/-- The loop of `delete_disabled_keys`. -/
def dropAutoDisabled (info : ChannelInfo) (keys : List String) : Remaining :=
  rebuild info (fun i => info.keyStatus i = statusAutoDisabled)
    (fun i => info.keyStatus i ≠ statusEnabled) keys 0 .empty

/-- The channel with the keys that remain. -/
def Remaining.channel (r : Remaining) : Channel :=
  { row with
    key := joinKeys r.keys
    info := { row.info with
      multiKeySize := r.keys.length
      multiKeyStatusList := r.statuses
      multiKeyDisabledTime := r.times
      multiKeyDisabledReason := r.reasons } }

/-- `delete_key`. -/
def deleteKey (i : Int) : Option Channel :=
  if !row.info.isMultiKey then none
  else if inRange i row.info.multiKeySize then
    let r := dropIndex row.info i (row.getKeys env.unmarshal)
    if r.keys = [] then none else some (saved env row (r.channel row))
  else none

/-- `delete_disabled_keys`. -/
def deleteDisabledKeys : Option Channel :=
  if !row.info.isMultiKey then none
  else
    let keys := row.getKeys env.unmarshal
    let r := dropAutoDisabled row.info keys
    if r.keys.length = keys.length then none else some (saved env row (r.channel row))

end

/-! ## The keyring -/

/-- A key and the status that was last given to it. -/
structure Entry where
  key : String
  status : Int
deriving DecidableEq, Repr

/-- The keys of a channel; `multi`: each has a status of its own. -/
structure Ring where
  multi : Bool
  entries : List Entry
deriving DecidableEq, Repr

def Ring.keys (ring : Ring) : List String := ring.entries.map Entry.key

def Ring.statuses (ring : Ring) : List Int := ring.entries.map Entry.status

/-- New keys are enabled. -/
def fresh (keys : List String) : List Entry := keys.map fun key => ⟨key, statusEnabled⟩

/-- The keys in a text, as `GetKeys` reads it. -/
def readKeys (env : Env) (text : String) : List String :=
  if text = "" then [] else (jsonKeys env.unmarshal text).getD (lineKeys text)

/-- The status of a key among the entries. -/
def statusOf (entries : List Entry) (key : String) : Int :=
  ((entries.find? (·.key = key)).map Entry.status).getD statusEnabled

/-- Other keys in the place of all: a key that was there keeps its status. -/
def replaceKeys (entries : List Entry) (keys : List String) : List Entry :=
  keys.map fun key => ⟨key, statusOf entries key⟩

def setStatus (entries : List Entry) (i : Nat) (status : Int) : List Entry :=
  entries.modify i ({ · with status := status })

/-- An entry that is enabled is disabled. -/
def disabledEntry (e : Entry) : Entry :=
  if e.status = statusEnabled then { e with status := statusManuallyDisabled } else e

/-- The requests to a channel. -/
inductive Op where
  | multiToSingle (c : Channel) (mode : MultiKeyMode) (vertex : Bool)
  | single (c : Channel)
  | updateChannel (p : Patch)
  | updateKey (i : Int) (newKeyValue : String)
  | addKeys (newKeyValue multiKeyMode : String)
  | disableKey (i : Int)
  | enableKey (i : Int)
  | disableAllKeys
  | enableAllKeys
  | deleteKey (i : Int)
  | deleteDisabledKeys
  | updateChannelStatus (usingKey : String) (status : Int) (reason : String) (now : Int)

/-- What `UpdateChannel` is for. -/
def Ring.update (env : Env) (ring : Ring) (p : Patch) : Ring :=
  if ring.multi then
    if p.keyMode = some "append" ∧ ring.entries ≠ [] then
      { ring with
        entries := ring.entries ++
          fresh (dedupedNewKeys ring.keys ((appendNew env p.channel.key p.vertex).getD [])) }
    else if p.channel.key = "" then ring
    else { ring with entries := replaceKeys ring.entries (readKeys env p.channel.key) }
  else if upgrades .zero p.channel.key then ⟨true, fresh (keyLines p.channel.key)⟩
  else if p.channel.key = "" then ring
  else ⟨false, fresh (readKeys env p.channel.key)⟩

/-- What an operation is for.  The status of the channel is the one before it. -/
def Ring.apply (env : Env) (channelStatus : Int) (ring : Ring) : Op → Ring
  | .multiToSingle c _ vertex => ⟨true, fresh ((requestedKeys env c.key vertex).getD [])⟩
  | .single c => ⟨false, fresh (readKeys env c.key)⟩
  | .updateChannel p => ring.update env p
  | .updateKey i newKeyValue =>
      let newVal := Text.trimSpace newKeyValue
      if newVal = "" then ring
      else if ring.multi then
        if 0 ≤ i then { ring with entries := ring.entries.modify i.toNat ({ · with key := newVal }) }
        else ring
      else if i = 0 then ⟨false, fresh (readKeys env newVal)⟩
      else ring
  | .addKeys newKeyValue _ =>
      let newKeys := keyLines (Text.trimSpace newKeyValue)
      if newKeys = [] then ring
      else ⟨(ring.entries ++ fresh newKeys).length ≠ 1, ring.entries ++ fresh newKeys⟩
  | .disableKey i =>
      if ring.multi ∧ 0 ≤ i then
        { ring with entries := setStatus ring.entries i.toNat statusManuallyDisabled }
      else ring
  | .enableKey i =>
      if ring.multi ∧ 0 ≤ i then
        { ring with entries := setStatus ring.entries i.toNat statusEnabled }
      else ring
  | .disableAllKeys =>
      if ring.multi then
        { ring with entries := ring.entries.map disabledEntry }
      else ring
  | .enableAllKeys =>
      if ring.multi then
        { ring with entries := ring.entries.map ({ · with status := statusEnabled }) }
      else ring
  | .deleteKey i =>
      if ring.multi ∧ 0 ≤ i ∧ ring.entries.length ≠ 1 then
        { ring with entries := ring.entries.eraseIdx i.toNat }
      else ring
  | .deleteDisabledKeys =>
      if ring.multi then
        { ring with entries := ring.entries.filter (·.status ≠ statusAutoDisabled) }
      else ring
  | .updateChannelStatus usingKey status _ _ =>
      if ring.multi ∧ channelStatus ≠ status then
        { ring with
          entries := setStatus ring.entries (keyIndex ring.keys usingKey).toNat status }
      else ring

/-! ## Histories of a channel -/

/-- The row of the channel, once it is made, and the keyring. -/
structure State where
  row : Option Channel
  ring : Ring

def initial : State := ⟨none, ⟨false, []⟩⟩

/-- The row after a request to a channel that exists; `none`: the request is rejected. -/
def request (env : Env) (row : Channel) : Op → Option Channel
  | .multiToSingle _ _ _ => none
  | .single _ => none
  | .updateChannel p => MultiKey.updateChannel env row p
  | .updateKey i newKeyValue => MultiKey.updateKey env row i newKeyValue
  | .addKeys newKeyValue multiKeyMode => MultiKey.addKeys env row newKeyValue multiKeyMode
  | .disableKey i => MultiKey.disableKey env row i
  | .enableKey i => MultiKey.enableKey env row i
  | .disableAllKeys => MultiKey.disableAllKeys env row
  | .enableAllKeys => MultiKey.enableAllKeys env row
  | .deleteKey i => MultiKey.deleteKey env row i
  | .deleteDisabledKeys => MultiKey.deleteDisabledKeys env row
  | .updateChannelStatus usingKey status reason now =>
      if row.status = status then none
      else some (statusRow env.unmarshal row usingKey status reason now)

/-- A channel is made once, and then takes requests. -/
def step (env : Env) (s : State) (op : Op) : Option State :=
  match s.row, op with
  | none, .multiToSingle c mode vertex =>
      (multiToSingle env c mode vertex).map fun row => ⟨some row, s.ring.apply env 0 op⟩
  | none, .single c => some ⟨some (createdRow c), s.ring.apply env 0 op⟩
  | none, _ => none
  | some _, .multiToSingle _ _ _ => none
  | some _, .single _ => none
  | some row, op =>
      some ⟨some ((request env row op).getD row), s.ring.apply env row.status op⟩

end DazeApi.Channels.MultiKey
