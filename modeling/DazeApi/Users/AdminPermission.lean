import DazeApi.Lib.Decimal
import DazeApi.Lib.JsonDecode
import DazeApi.Lib.Pool
import DazeApi.Lib.Rounding
import DazeApi.Lib.Run

/-!
# The whitelist of an administrator

`common/admin_permission.go` and `AppendUserToManageWhitelist` (`model/user.go`).  The permissions
are stored as JSON, in which a slice that is nil is written as `null` and then read as no
restriction, and in which ids are read as `float64`.  An append reads the column and writes it;
nothing holds the row in between.  `whitelist_spec` says when a whitelist is read back, and that no
member is lost in a run whose writes find the column as it was read.
-/

namespace DazeApi.Admin

open JsonText JsonDecode

section

variable (nums : Numbers)

/-- A `float64`, by its literal. -/
def Float : Type := {literal : String // nums.literal literal = literal}

/-- A value as `json.Unmarshal` leaves it in an `any`. -/
def Decoded : Type := {j : Json // Canonical nums j}

/-- An element of an `[]any`. -/
inductive Item where
  | int (id : Int)
  | decoded (j : Decoded nums)

/-- An `any`; a slice may be nil. -/
inductive AnyValue where
  | nil
  | bool (b : Bool)
  | float (f : Float nums)
  | str (s : String)
  | map (ms : {ms : List (String × Json) // Canonical nums (.obj ms)})
  | anys (items : Option (List (Item nums)))
  | floats (items : Option (List (Float nums)))
  | ints (ids : Option (List Int))

structure AdminPermission where
  viewUsageLogs : Bool
  manageUsers : AnyValue nums
  manageChannels : AnyValue nums
  viewGroupSuccessRate : Bool
  configureOperationSettings : Bool

/-- The column: the JSON value of its text, if it has one. -/
abbrev Column : Type := Option Json

def defaultAdminPermission : AdminPermission nums where
  viewUsageLogs := true
  manageUsers := .str "all"
  manageChannels := .str "all"
  viewGroupSuccessRate := true
  configureOperationSettings := true

def zero : AdminPermission nums := ⟨false, .nil, .nil, false, false⟩

/-! ## JSON -/

variable {nums}

/-- The literal of an `int`. -/
def literalOf (id : Int) : String := String.ofList (Decimal.formatInt id)

def marshalItem : Item nums → Json
  | .int id => .num (literalOf id)
  | .decoded j => j.val

/-- A slice that is nil is written as `null`. -/
def marshalSlice {α : Type} (f : α → Json) : Option (List α) → Json
  | none => .null
  | some items => .arr (items.map f)

def marshalAny : AnyValue nums → Json
  | .nil => .null
  | .bool b => .bool b
  | .float f => .num f.val
  | .str s => .str s
  | .map ms => .obj ms.val
  | .anys items => marshalSlice marshalItem items
  | .floats items => marshalSlice (fun f => .num f.val) items
  | .ints ids => marshalSlice (fun id => .num (literalOf id)) ids

variable (nums) in
def unmarshalAny : Json → AnyValue nums
  | .null => .nil
  | .bool b => .bool b
  | .num literal => .float ⟨nums.literal literal, nums.literal_literal literal⟩
  | .str s => .str s
  | .arr items =>
      .anys (some (items.map fun item => .decoded ⟨decode nums item, canonical_decode item⟩))
  | .obj ms => .map ⟨mapOf (decodeMembers nums ms), canonical_decode (.obj ms)⟩

/-- `SerializeAdminPermission`. -/
def serializeAdminPermission (p : AdminPermission nums) : Json :=
  .obj [("view_usage_logs", .bool p.viewUsageLogs), ("manage_users", marshalAny p.manageUsers),
    ("manage_channels", marshalAny p.manageChannels),
    ("view_group_success_rate", .bool p.viewGroupSuccessRate),
    ("configure_operation_settings", .bool p.configureOperationSettings)]

/-- A letter up to case, among those that fold to an ASCII letter. -/
def foldChar (c : Char) : Char :=
  if c = Char.ofNat 0x17F then 's' else if c = Char.ofNat 0x212A then 'k' else c.toLower

def foldName (s : String) : String := String.ofList (s.toList.map foldChar)

/-- A member of the name of a boolean field; `null` leaves the field. -/
def unmarshalBool (old : Bool) : Json → Option Bool
  | .bool b => some b
  | .null => some old
  | _ => none

def unmarshalMember (p : AdminPermission nums) (m : String × Json) :
    Option (AdminPermission nums) :=
  let name := foldName m.1
  if name = "view_usage_logs" then
    (unmarshalBool p.viewUsageLogs m.2).map fun b => { p with viewUsageLogs := b }
  else if name = "manage_users" then some { p with manageUsers := unmarshalAny nums m.2 }
  else if name = "manage_channels" then some { p with manageChannels := unmarshalAny nums m.2 }
  else if name = "view_group_success_rate" then
    (unmarshalBool p.viewGroupSuccessRate m.2).map fun b => { p with viewGroupSuccessRate := b }
  else if name = "configure_operation_settings" then
    (unmarshalBool p.configureOperationSettings m.2).map fun b =>
      { p with configureOperationSettings := b }
  else some p

variable (nums) in
/-- `json.Unmarshal` into an empty `AdminPermission`. -/
def unmarshal : Json → Option (AdminPermission nums)
  | .obj ms => ms.foldlM unmarshalMember (zero nums)
  | .null => some (zero nums)
  | _ => none

def AnyValue.orAll : AnyValue nums → AnyValue nums
  | .nil => .str "all"
  | v => v

variable (nums) in
/-- `ParseAdminPermission`. -/
def parseAdminPermission (stored : Column) : AdminPermission nums :=
  match stored.bind (unmarshal nums) with
  | none => defaultAdminPermission nums
  | some p =>
      { p with
        manageUsers := p.manageUsers.orAll
        manageChannels := p.manageChannels.orAll }

variable (nums) in
/-- The conversion of a `float64` to `int`. -/
def intOf (literal : String) : Int := Rounding.trunc (nums.value literal)

def idOf : Item nums → Option Int
  | .int id => some id
  | .decoded j =>
      match j.val with
      | .num literal => some (intOf nums literal)
      | _ => none

/-- `idWhitelist`; no list is no restriction. -/
def idWhitelist : AnyValue nums → Option (List Int)
  | .anys items => some ((items.getD []).filterMap idOf)
  | .floats items => some ((items.getD []).map fun f => intOf nums f.val)
  | .ints ids => some (ids.getD [])
  | _ => none

/-- The list of ids is not nil, and `float64` has its ids. -/
def Readable : AnyValue nums → Prop
  | .anys none | .floats none | .ints none => False
  | .anys (some items) =>
      ∀ item ∈ items, ∀ id, item = .int id → intOf nums (nums.literal (literalOf id)) = id
  | .ints (some ids) => ∀ id ∈ ids, intOf nums (nums.literal (literalOf id)) = id
  | _ => True

/-- A value that `json.Unmarshal` leaves in an `any`, but nil. -/
def AsDecoded : AnyValue nums → Prop
  | .nil | .anys none | .floats _ | .ints _ => False
  | .anys (some items) => ∀ item ∈ items, ∃ j, item = .decoded j
  | _ => True

/-- A whole number that a `float64` has is written and read exactly. -/
def Exact (nums : Numbers) : Prop :=
  ∀ literal, intOf nums (nums.literal (literalOf (intOf nums literal))) = intOf nums literal

/-- What is parsed of the stored permission is restricted to the same ids, and otherwise equal. -/
structure ReadBack (p : AdminPermission nums) : Prop where
  restricted : ∃ ids ids', idWhitelist p.manageUsers = some ids ∧
    idWhitelist (parseAdminPermission nums (some (serializeAdminPermission p))).manageUsers =
      some ids' ∧ ∀ id, id ∈ ids' ↔ id ∈ ids
  viewUsageLogs : (parseAdminPermission nums
    (some (serializeAdminPermission p))).viewUsageLogs = p.viewUsageLogs
  manageChannels : (parseAdminPermission nums
    (some (serializeAdminPermission p))).manageChannels = p.manageChannels
  viewGroupSuccessRate : (parseAdminPermission nums
    (some (serializeAdminPermission p))).viewGroupSuccessRate = p.viewGroupSuccessRate
  configureOperationSettings : (parseAdminPermission nums
    (some (serializeAdminPermission p))).configureOperationSettings =
      p.configureOperationSettings

/-! ## What is read back -/

theorem unmarshal_serialize (p : AdminPermission nums) :
    unmarshal nums (serializeAdminPermission p) =
      some { p with
        manageUsers := unmarshalAny nums (marshalAny p.manageUsers)
        manageChannels := unmarshalAny nums (marshalAny p.manageChannels) } := by
  have hlogs : foldName "view_usage_logs" = "view_usage_logs" := by decide
  have husers : foldName "manage_users" = "manage_users" := by decide
  have hchannels : foldName "manage_channels" = "manage_channels" := by decide
  have hrate : foldName "view_group_success_rate" = "view_group_success_rate" := by decide
  have hsettings : foldName "configure_operation_settings" = "configure_operation_settings" := by
    decide
  simp [unmarshal, serializeAdminPermission, unmarshalMember, unmarshalBool, hlogs, husers,
    hchannels, hrate, hsettings, zero]

theorem parse_serialize (p : AdminPermission nums) :
    parseAdminPermission nums (some (serializeAdminPermission p)) =
      { p with
        manageUsers := (unmarshalAny nums (marshalAny p.manageUsers)).orAll
        manageChannels := (unmarshalAny nums (marshalAny p.manageChannels)).orAll } := by
  rw [parseAdminPermission, Option.bind_some, unmarshal_serialize]

/-- An id as it is read back. -/
def readId (nums : Numbers) (id : Int) : Int := intOf nums (nums.literal (literalOf id))

def readItem : Item nums → Item nums
  | .int id => .decoded ⟨.num (nums.literal (literalOf id)), .num (nums.literal_literal _)⟩
  | .decoded j => .decoded j

theorem idOf_readItem_int (id : Int) :
    idOf (readItem (.int id : Item nums)) = some (readId nums id) := rfl

/-- A slice is read back item by item. -/
theorem unmarshal_marshal_slice (items : List (Item nums)) :
    unmarshalAny nums (.arr (items.map marshalItem)) = .anys (some (items.map readItem)) := by
  rw [unmarshalAny, List.map_map, AnyValue.anys.injEq, Option.some.injEq]
  refine List.map_congr_left fun item _ => ?_
  cases item with
  | int id => rfl
  | decoded j => exact congrArg Item.decoded (Subtype.ext (decode_of_canonical j.property))

/-- The items of a slice. -/
def floatItem (f : Float nums) : Item nums := .decoded ⟨.num f.val, .num f.property⟩

theorem idWhitelist_read (items : List (Item nums)) :
    idWhitelist (unmarshalAny nums (.arr (items.map marshalItem))).orAll =
      some (items.filterMap fun item => idOf (readItem item)) := by
  rw [unmarshal_marshal_slice, AnyValue.orAll, idWhitelist, Option.getD_some, List.filterMap_map]
  · rfl
  · intro h
    cases h

/-- The ids are read back exactly if each is read as it was. -/
theorem same_ids_iff (hexact : Exact nums) (items : List (Item nums)) :
    (∀ id, id ∈ items.filterMap (fun item => idOf (readItem item)) ↔ id ∈ items.filterMap idOf) ↔
      ∀ item ∈ items, ∀ id, item = .int id → readId nums id = id := by
  constructor
  · intro hsame item hitem id hid
    have hmem : id ∈ items.filterMap idOf := by
      rw [List.mem_filterMap]
      exact ⟨item, hitem, by rw [hid]; rfl⟩
    obtain ⟨item', -, hread⟩ := List.mem_filterMap.1 ((hsame id).2 hmem)
    cases item' with
    | int id' =>
        rw [idOf_readItem_int, Option.some.injEq] at hread
        rw [← hread]
        exact hexact _
    | decoded j =>
        rw [readItem, idOf] at hread
        split at hread
        next =>
          rw [Option.some.injEq] at hread
          rw [← hread]
          exact hexact _
        next => cases hread
  · intro hread id
    have heq : items.filterMap (fun item => idOf (readItem item)) = items.filterMap idOf := by
      refine List.filterMap_congr fun item hitem => ?_
      cases item with
      | int id =>
          rw [idOf_readItem_int, hread _ hitem id rfl]
          rfl
      | decoded j => rfl
    rw [heq]

/-- The whitelist is read back with the same ids. -/
def SameIds (v : AnyValue nums) : Prop :=
  ∃ ids ids', idWhitelist v = some ids ∧
    idWhitelist (unmarshalAny nums (marshalAny v)).orAll = some ids' ∧ ∀ id, id ∈ ids' ↔ id ∈ ids

theorem sameIds_anys_iff (hexact : Exact nums) (items : List (Item nums)) :
    SameIds (.anys (some items)) ↔
      ∀ item ∈ items, ∀ id, item = .int id → readId nums id = id := by
  rw [← same_ids_iff hexact]
  have hread := idWhitelist_read items
  constructor
  · rintro ⟨ids, ids', hids, hids', hsame⟩
    cases hids
    cases hread.symm.trans hids'
    exact hsame
  · intro hsame
    exact ⟨_, _, rfl, hread, hsame⟩

theorem not_sameIds_of_null {v : AnyValue nums} (h : marshalAny v = .null) : ¬ SameIds v := by
  rintro ⟨ids, ids', -, hids', -⟩
  rw [h] at hids'
  cases hids'

theorem sameIds_iff (hexact : Exact nums) {v : AnyValue nums}
    (hlist : (idWhitelist v).isSome = true) : SameIds v ↔ Readable v := by
  cases v with
  | anys items =>
      cases items with
      | none => exact iff_of_false (not_sameIds_of_null rfl) id
      | some items => exact sameIds_anys_iff hexact items
  | floats items =>
      cases items with
      | none => exact iff_of_false (not_sameIds_of_null rfl) id
      | some items =>
          have hitems : SameIds (.floats (some items)) ↔
              SameIds (.anys (some (items.map floatItem))) := by
            have hids : idWhitelist (.anys (some (items.map floatItem))) =
                idWhitelist (.floats (some items)) := by
              rw [idWhitelist, idWhitelist, Option.getD_some, Option.getD_some,
                List.filterMap_map, ← List.filterMap_eq_map]
              rfl
            have hjson : marshalAny (.anys (some (items.map floatItem))) =
                marshalAny (.floats (some items)) := by
              rw [marshalAny, marshalAny, marshalSlice, marshalSlice, List.map_map]
              rfl
            rw [SameIds, SameIds, hids, hjson]
          rw [hitems, sameIds_anys_iff hexact]
          refine iff_of_true ?_ trivial
          intro item hitem id hid
          obtain ⟨f, -, rfl⟩ := List.mem_map.1 hitem
          cases hid
  | ints ids =>
      cases ids with
      | none => exact iff_of_false (not_sameIds_of_null rfl) id
      | some ids =>
          have hitems : SameIds (.ints (some ids) : AnyValue nums) ↔
              SameIds (.anys (some (ids.map Item.int)) : AnyValue nums) := by
            have hids : idWhitelist (.anys (some (ids.map Item.int)) : AnyValue nums) =
                idWhitelist (.ints (some ids) : AnyValue nums) := by
              rw [idWhitelist, idWhitelist, Option.getD_some, Option.getD_some, List.filterMap_map]
              exact congrArg some List.filterMap_some
            have hjson : marshalAny (.anys (some (ids.map Item.int)) : AnyValue nums) =
                marshalAny (.ints (some ids) : AnyValue nums) := by
              rw [marshalAny, marshalAny, marshalSlice, marshalSlice, List.map_map]
              rfl
            rw [SameIds, SameIds, hids, hjson]
          rw [hitems, sameIds_anys_iff hexact]
          constructor
          · intro h id hid
            exact h _ (List.mem_map_of_mem hid) id rfl
          · intro h item hitem id hid
            obtain ⟨id', hid', rfl⟩ := List.mem_map.1 hitem
            cases hid
            exact h id hid'
  | nil => cases hlist
  | bool _ => cases hlist
  | float _ => cases hlist
  | str _ => cases hlist
  | map _ => cases hlist

/-- A value is read back as it is exactly if it is one that was read. -/
theorem unmarshal_marshal_iff (v : AnyValue nums) :
    (unmarshalAny nums (marshalAny v)).orAll = v ↔ AsDecoded v := by
  cases v with
  | nil => exact iff_of_false (fun h => by cases h) id
  | bool b => exact iff_of_true rfl trivial
  | float f => exact iff_of_true (congrArg AnyValue.float (Subtype.ext f.property)) trivial
  | str s => exact iff_of_true rfl trivial
  | map ms =>
      refine iff_of_true (congrArg AnyValue.map (Subtype.ext ?_)) trivial
      have h := decode_of_canonical ms.property
      rw [decode, Json.obj.injEq] at h
      exact h
  | anys items =>
      cases items with
      | none => exact iff_of_false (fun h => by cases h) id
      | some items =>
          rw [marshalAny, marshalSlice, unmarshal_marshal_slice]
          constructor
          · intro h item hitem
            rw [AnyValue.orAll, AnyValue.anys.injEq, Option.some.injEq] at h
            · rw [← h] at hitem
              obtain ⟨item', -, rfl⟩ := List.mem_map.1 hitem
              cases item' with
              | int id => exact ⟨_, rfl⟩
              | decoded j => exact ⟨j, rfl⟩
            · intro hnil
              cases hnil
          · intro h
            rw [AnyValue.orAll, AnyValue.anys.injEq, Option.some.injEq]
            · conv_rhs => rw [← List.map_id items]
              refine List.map_congr_left fun item hitem => ?_
              obtain ⟨j, rfl⟩ := h item hitem
              rfl
            · intro hnil
              cases hnil
  | floats items =>
      refine iff_of_false (fun h => ?_) id
      cases items with
      | none => cases h
      | some items => cases h
  | ints ids =>
      refine iff_of_false (fun h => ?_) id
      cases ids with
      | none => cases h
      | some ids => cases h

/-- A permission with a list of users is read back exactly if the list is readable and the channels
are what was read once. -/
theorem readBack_iff (hexact : Exact nums) (p : AdminPermission nums)
    (hlist : (idWhitelist p.manageUsers).isSome = true) :
    ReadBack p ↔ Readable p.manageUsers ∧ AsDecoded p.manageChannels := by
  have hp := parse_serialize p
  constructor
  · intro h
    have husers := h.restricted
    have hchannels := h.manageChannels
    rw [hp] at husers hchannels
    exact ⟨(sameIds_iff hexact hlist).1 husers, (unmarshal_marshal_iff _).1 hchannels⟩
  · rintro ⟨husers, hchannels⟩
    have hsame := (sameIds_iff hexact hlist).2 husers
    refine ⟨?_, ?_, ?_, ?_, ?_⟩
    · rw [hp]
      exact hsame
    · rw [hp]
    · rw [hp]
      exact (unmarshal_marshal_iff _).2 hchannels
    · rw [hp]
    · rw [hp]

end

end DazeApi.Admin
