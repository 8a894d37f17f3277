import DazeApi.Lib.Run
import DazeApi.Lib.Pool
import DazeApi.Lib.Sql
import Mathlib.Data.List.AList
import Mathlib.Data.List.Sort

/-!
# The batch updater

`model/utils.go`: quota and usage deltas are collected in one map per type, and
`batchUpdate` writes them to the database from time to time.  A run of
`batchUpdate` first looks whether any map holds something.  Then, type by type,
it takes the map out under the lock of the type, puts an empty one in its place,
and sends one statement for the whole map.  An error of the statement is logged.

The lock of a type covers one look, one swap or one `addNewRecord`, so these are
the atomic steps, together with the statement.  Any number of runs may be under
way.

`recorded` and `lost` are ghosts: the deltas given to `addNewRecord` so far, and
the deltas of the statements that failed.
-/

namespace DazeApi.Batch

/-! ## Stores -/

/-- The batch update types, in the order of the source's constants. -/
inductive BatchUpdateType where
  | userQuota
  | tokenQuota
  | usedQuota
  | channelUsedQuota
  | requestCount
deriving DecidableEq, Repr

/-- The order in which `batchUpdate` goes through the types. -/
def BatchUpdateType.all : List BatchUpdateType :=
  [.userQuota, .tokenQuota, .usedQuota, .channelUsedQuota, .requestCount]

/-- A map from ids to deltas. -/
abbrev Store := AList fun _ : Int => Int

/-- Reading a missing id of a Go map gives zero. -/
def Store.delta (st : Store) (id : Int) : Int := (st.lookup id).getD 0

/-- `addNewRecord` on the map of its type. -/
def Store.addNewRecord (st : Store) (id value : Int) : Store :=
  match st.lookup id with
  | none => st.insert id value
  | some old => st.insert id (old + value)

@[simp] theorem Store.delta_empty (id : Int) : Store.delta ∅ id = 0 := rfl

theorem Store.delta_addNewRecord (st : Store) (id value k : Int) :
    (st.addNewRecord id value).delta k = st.delta k + if k = id then value else 0 := by
  by_cases hk : k = id
  · subst hk
    simp only [Store.addNewRecord]
    cases hl : st.lookup k with
    | none => simp [Store.delta, hl]
    | some old => simp [Store.delta, hl]
  · simp only [Store.addNewRecord]
    cases st.lookup id with
    | none => simp [Store.delta, hk]
    | some old => simp [Store.delta, hk]

/-! ## Statements -/

/-- `sortedUpdateIDs`. -/
def sortedUpdateIDs (updates : Store) : List Int := updates.keys.insertionSort (· ≤ ·)

/-- `batchSingleColumnSQL`. -/
def batchSingleColumnSQL (table column : String) (updates : Store) : Sql.Update where
  table := table
  sets := [(column, .caseAdd column
    ((sortedUpdateIDs updates).map fun id => (id, updates.delta id)))]
  ids := sortedUpdateIDs updates

/-- `batchTokenQuotaSQL`: a delta of a token moves its remaining and its used
quota in opposite directions. -/
def batchTokenQuotaSQL (updates : Store) (accessedTime : Int) : Sql.Update where
  table := "tokens"
  sets :=
    [("remain_quota", .caseAdd "remain_quota"
        ((sortedUpdateIDs updates).map fun id => (id, updates.delta id))),
     ("used_quota", .caseSub "used_quota"
        ((sortedUpdateIDs updates).map fun id => (id, updates.delta id))),
     ("accessed_time", .const accessedTime)]
  ids := sortedUpdateIDs updates

/-- The statement `batchUpdate` sends for the map of a type. -/
def batchSQL (now : Int) (store : Store) : BatchUpdateType → Sql.Update
  | .userQuota => batchSingleColumnSQL "users" "quota" store
  | .tokenQuota => batchTokenQuotaSQL store now
  | .usedQuota => batchSingleColumnSQL "users" "used_quota" store
  | .requestCount => batchSingleColumnSQL "users" "request_count" store
  | .channelUsedQuota => batchSingleColumnSQL "channels" "used_quota" store

/-- A column that a type moves, and the sign with which its deltas count. -/
structure Column where
  table : String
  name : String
  sign : Int
deriving DecidableEq, Repr

/-- The columns a type moves. -/
def BatchUpdateType.columns : BatchUpdateType → List Column
  | .userQuota => [⟨"users", "quota", 1⟩]
  | .tokenQuota => [⟨"tokens", "remain_quota", 1⟩, ⟨"tokens", "used_quota", -1⟩]
  | .usedQuota => [⟨"users", "used_quota", 1⟩]
  | .channelUsedQuota => [⟨"channels", "used_quota", 1⟩]
  | .requestCount => [⟨"users", "request_count", 1⟩]

example : (batchSingleColumnSQL "users" "quota"
      (((∅ : Store).addNewRecord 24 (-100)).addNewRecord 10 50)).text =
    "UPDATE users SET quota = CASE id WHEN 10 THEN quota + 50 WHEN 24 THEN quota + -100 END WHERE id IN (10,24)" := by
  decide +kernel

theorem mem_sortedUpdateIDs {updates : Store} {id : Int} :
    id ∈ sortedUpdateIDs updates ↔ (updates.lookup id).isSome := by
  rw [sortedUpdateIDs, List.mem_insertionSort, ← AList.mem_keys, AList.lookup_isSome]

/-- A missing id has no delta. -/
theorem delta_of_not_mem {updates : Store} {id : Int} (h : id ∉ sortedUpdateIDs updates) :
    updates.delta id = 0 := by
  rw [mem_sortedUpdateIDs, Bool.not_eq_true, Option.isSome_eq_false_iff,
    Option.isNone_iff_eq_none] at h
  simp [Store.delta, h]

/-- The statement of a type moves each of its columns by the delta of the row. -/
theorem value_batchSQL (db : Sql.Db) (now : Int) (store : Store) {ty : BatchUpdateType}
    {col : Column} (hcol : col ∈ ty.columns) (id : Int) :
    Sql.value ((batchSQL now store ty).exec db) col.table id col.name =
      (Sql.value db col.table id col.name).map (· + col.sign * store.delta id) := by
  by_cases hid : id ∈ sortedUpdateIDs store
  · have harm := Sql.lookup_arms store.delta hid
    cases ty <;> simp only [BatchUpdateType.columns, List.mem_cons, List.not_mem_nil, or_false]
      at hcol
    case tokenQuota =>
      rcases hcol with rfl | rfl
      · exact (Sql.value_exec_caseAdd (u := batchTokenQuotaSQL store now) hid rfl harm).trans
          (by simp [batchTokenQuotaSQL])
      · exact (Sql.value_exec_caseSub (u := batchTokenQuotaSQL store now) hid rfl harm).trans
          (by simp [batchTokenQuotaSQL, Int.sub_eq_add_neg])
    all_goals
      subst hcol
      exact (Sql.value_exec_caseAdd (u := batchSingleColumnSQL _ _ store) hid
        (by simp [batchSingleColumnSQL]) harm).trans (by simp [batchSingleColumnSQL])
  · have hout : Sql.value ((batchSQL now store ty).exec db) col.table id col.name =
        Sql.value db col.table id col.name :=
      Sql.value_exec_of_not_mem _ (Or.inr (by cases ty <;> exact hid))
    rw [hout, delta_of_not_mem hid]
    simp

/-- The statement of a type leaves the columns of the other types alone. -/
theorem value_batchSQL_other (db : Sql.Db) (now : Int) (store : Store)
    {ty ty' : BatchUpdateType} {col : Column} (hty : ty ≠ ty') (hcol : col ∈ ty'.columns)
    (id : Int) :
    Sql.value ((batchSQL now store ty).exec db) col.table id col.name =
      Sql.value db col.table id col.name := by
  have hdiff : col.table ≠ (batchSQL now store ty).table ∨
      (batchSQL now store ty).sets.lookup col.name = none := by
    cases ty <;> cases ty' <;>
      simp only [BatchUpdateType.columns, List.mem_cons, List.not_mem_nil, or_false] at hcol <;>
      first
        | exact absurd rfl hty
        | (rcases hcol with rfl | rfl <;> simp [batchSQL, batchSingleColumnSQL, batchTokenQuotaSQL])
  rcases hdiff with h | h
  · exact Sql.value_exec_of_not_mem _ (Or.inl h)
  · exact Sql.value_exec_of_not_set _ _ h

/-! ## The system -/

/-- Where a run of `batchUpdate` stands. -/
inductive Flush where
  /-- Looking for data in the maps of the remaining types. -/
  | looking (rest : List BatchUpdateType)
  /-- About to take out the map of the next type. -/
  | swapping (rest : List BatchUpdateType)
  /-- About to send the statement for a map it has taken out. -/
  | sending (ty : BatchUpdateType) (store : Store) (rest : List BatchUpdateType)
  | returned
deriving DecidableEq

/-- The database, the maps, the runs of `batchUpdate`, and the ghosts. -/
structure State where
  db : Sql.Db
  stores : BatchUpdateType → Store
  flushes : List Flush
  recorded : BatchUpdateType → Int → Int
  lost : BatchUpdateType → Int → Int

/-- The updater after `init`. -/
def initial (db : Sql.Db) : State where
  db := db
  stores := fun _ => ∅
  flushes := []
  recorded := fun _ _ => 0
  lost := fun _ _ => 0

/-- `pendingBatchDelta`.  The range check of the type is in the type. -/
def pendingBatchDelta (batchUpdateEnabled : Bool) (s : State) (ty : BatchUpdateType) (id : Int) :
    Int :=
  if batchUpdateEnabled then (s.stores ty).delta id else 0

/-- The atomic steps. -/
inductive Act where
  | addNewRecord (ty : BatchUpdateType) (id value : Int)
  | start
  | look (i : Nat)
  | swap (i : Nat)
  | send (i : Nat) (now : Int) (err : Bool)
deriving DecidableEq, Repr

/-- A table of deltas, moved by a map of deltas of one type. -/
def credit (tbl : BatchUpdateType → Int → Int) (ty : BatchUpdateType) (f : Int → Int) :
    BatchUpdateType → Int → Int := fun ty' id => tbl ty' id + if ty' = ty then f id else 0

def State.goto (s : State) (i : Nat) (f : Flush) : State :=
  { s with flushes := s.flushes.set i f }

/-- The next step of a run whose look found nothing in the first remaining map. -/
def lookOn (store : Store) (rest : List BatchUpdateType) : Flush :=
  if store.entries.length > 0 then .swapping BatchUpdateType.all else .looking rest

/-- The next step of a run that has taken out a map: an empty one is skipped. -/
def sendOn (ty : BatchUpdateType) (store : Store) (rest : List BatchUpdateType) : Flush :=
  if store.entries.length = 0 then .swapping rest else .sending ty store rest

/-- The system. -/
def step (s : State) : Act → Option State
  | .addNewRecord ty id value =>
      some { s with
        stores := Function.update s.stores ty ((s.stores ty).addNewRecord id value)
        recorded := credit s.recorded ty fun k => if k = id then value else 0 }
  | .start => some { s with flushes := s.flushes ++ [.looking BatchUpdateType.all] }
  | .look i =>
      match s.flushes[i]? with
      | some (.looking []) => some (s.goto i .returned)
      | some (.looking (ty :: rest)) => some (s.goto i (lookOn (s.stores ty) rest))
      | _ => none
  | .swap i =>
      match s.flushes[i]? with
      | some (.swapping []) => some (s.goto i .returned)
      | some (.swapping (ty :: rest)) =>
          some ({ s with stores := Function.update s.stores ty ∅ }.goto i
            (sendOn ty (s.stores ty) rest))
      | _ => none
  | .send i now err =>
      match s.flushes[i]? with
      | some (.sending ty store rest) =>
          if err then
            some ({ s with lost := credit s.lost ty store.delta }.goto i (.swapping rest))
          else some ({ s with db := (batchSQL now store ty).exec s.db }.goto i (.swapping rest))
      | _ => none

/-- The transitions of the system. -/
inductive Step (s : State) : Act → State → Prop where
  | addNewRecord {ty : BatchUpdateType} {id value : Int} :
      Step s (.addNewRecord ty id value) { s with
        stores := Function.update s.stores ty ((s.stores ty).addNewRecord id value)
        recorded := credit s.recorded ty fun k => if k = id then value else 0 }
  | start : Step s .start { s with flushes := s.flushes ++ [.looking BatchUpdateType.all] }
  | lookEnd {i : Nat} :
      s.flushes[i]? = some (.looking []) → Step s (.look i) (s.goto i .returned)
  | look {i : Nat} {ty : BatchUpdateType} {rest : List BatchUpdateType} :
      s.flushes[i]? = some (.looking (ty :: rest)) →
      Step s (.look i) (s.goto i (lookOn (s.stores ty) rest))
  | swapEnd {i : Nat} :
      s.flushes[i]? = some (.swapping []) → Step s (.swap i) (s.goto i .returned)
  | swap {i : Nat} {ty : BatchUpdateType} {rest : List BatchUpdateType} :
      s.flushes[i]? = some (.swapping (ty :: rest)) →
      Step s (.swap i) ({ s with stores := Function.update s.stores ty ∅ }.goto i
        (sendOn ty (s.stores ty) rest))
  | sent {i : Nat} {now : Int} {ty : BatchUpdateType} {store : Store}
      {rest : List BatchUpdateType} :
      s.flushes[i]? = some (.sending ty store rest) →
      Step s (.send i now false)
        ({ s with db := (batchSQL now store ty).exec s.db }.goto i (.swapping rest))
  | failed {i : Nat} {now : Int} {ty : BatchUpdateType} {store : Store}
      {rest : List BatchUpdateType} :
      s.flushes[i]? = some (.sending ty store rest) →
      Step s (.send i now true)
        ({ s with lost := credit s.lost ty store.delta }.goto i (.swapping rest))

/-- Every step of the system is a transition of `Step`. -/
theorem step_inv {s s' : State} {a : Act} (h : step s a = some s') : Step s a s' := by
  cases a with
  | addNewRecord ty id value =>
      cases h
      exact .addNewRecord
  | start =>
      cases h
      exact .start
  | look i =>
      simp only [step] at h
      split at h
      next hp => cases h; exact .lookEnd hp
      next ty rest hp => cases h; exact .look hp
      next => cases h
  | swap i =>
      simp only [step] at h
      split at h
      next hp => cases h; exact .swapEnd hp
      next ty rest hp => cases h; exact .swap hp
      next => cases h
  | send i now err =>
      simp only [step] at h
      split at h
      next ty store rest hp =>
        cases err with
        | true => cases h; exact .failed hp
        | false => cases h; exact .sent hp
      next => cases h

end DazeApi.Batch
