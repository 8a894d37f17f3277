import DazeApi.Channels.Row

/-!
# Writing a channel

What the functions of `model/channel.go` make of the row of a channel.  `Channel.Update`
trims the group, counts the keys of a multi-key channel anew, and writes every field that
is not zero.  It parses the key text in its own way: an empty JSON array counts as a text
of one line.
-/

namespace DazeApi.Channels

/-- `NormalizeGroupField`. -/
def normalizeGroupField (group : String) : String := Text.trimSpace group

/-- The row that `Create` makes of a channel. -/
def createdRow (c : Channel) : Channel :=
  { c with
    group := normalizeGroupField c.group
    status := if c.status = 0 then statusEnabled else c.status
    priority := some c.getPriority
    weight := some c.getWeight
    keys := [] }

@[simp] theorem key_createdRow (c : Channel) : (createdRow c).key = c.key := rfl

@[simp] theorem info_createdRow (c : Channel) : (createdRow c).info = c.info := rfl

@[simp] theorem keys_createdRow (c : Channel) : (createdRow c).keys = [] := rfl

/-- A field given to `Updates`: zero is not written. -/
def updatesField {α : Type} [DecidableEq α] (zero old new : α) : α := if new = zero then old else new

/-- `DB.Model(channel).Updates(channel)` on the row of the channel. -/
def updates (row c : Channel) : Channel :=
  { row with
    key := updatesField "" row.key c.key
    status := updatesField 0 row.status c.status
    models := updatesField "" row.models c.models
    group := updatesField "" row.group c.group
    priority := updatesField none row.priority c.priority
    weight := updatesField none row.weight c.weight
    tag := updatesField none row.tag c.tag
    info := if c.info.isZero then row.info else c.info }

/-- Deleting the statuses of positions that are not below the size. -/
def cutStatuses (size : Int) (list : AList fun _ : Int => Int) : AList fun _ : Int => Int :=
  list.keys.foldl (fun l i => if size ≤ i then l.erase i else l) list

def ChannelInfo.resized (info : ChannelInfo) (size : Int) : ChannelInfo :=
  { info with
    multiKeySize := size
    multiKeyStatusList := cutStatuses size info.multiKeyStatusList }

section

variable (unmarshal : UnmarshalArray)

/-- The keys that `Update` counts. -/
def countedKeys (text : String) : List String :=
  if text = "" then []
  else
    match jsonKeys unmarshal text with
    | some (k :: ks) => k :: ks
    | _ => lineKeys text

/-- The channel as `Update` writes it; `existing` is the key of its row. -/
def recalculated (existing : String) (c : Channel) : Channel :=
  let c := { c with group := normalizeGroupField c.group }
  if c.info.isMultiKey then
    let keyStr := if c.key ≠ "" then c.key else existing
    { c with info := c.info.resized (countedKeys unmarshal keyStr).length }
  else c

/-- The row that `UpdateChannelStatus` saves. -/
def statusRow (row : Channel) (usingKey : String) (status : Int) (reason : String) (now : Int) :
    Channel :=
  if row.info.isMultiKey then handlerMultiKeyUpdate unmarshal row usingKey status reason now
  else { row with status := status }

/-- The table after the `Updates` of `Update`. -/
def updateRow (t : ChannelTable) (c : Channel) : ChannelTable :=
  let existing := ((t.find c.id).map Channel.key).getD ""
  t.update (fun row => if row.id = c.id then updates row (recalculated unmarshal existing c) else row)
    (by intro row; split <;> rfl)

end

end DazeApi.Channels
