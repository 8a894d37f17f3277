import DazeApi.Batch.Conservation
import DazeApi.Users.Cache

/-!
# Rebuilding the cached quota

With Redis and the batch updater on, a quota lives in three places: the row, the
delta that `addNewRecord` has collected for it, and the cached hash.  `GetUserCache`
and `GetUserQuota` (`model/user.go`, `model/user_cache.go`) rebuild the hash from the
first two: they read the row, then `pendingBatchDelta`, and store the sum.  Any
number of them run beside `IncreaseUserQuota` and `DecreaseUserQuota` calls, which
rebuild the hash themselves when it is missing, and beside runs of `batchUpdate`,
whose statements succeed here.  The state of the updater and its steps are those of
`DazeApi.Batch.Update`.

Every call of a store is one step.  `log`, `swapped` and `stored` are ghosts: the
deltas recorded so far, how many of them had been recorded at the last swap of the
user quotas, and what the rebuilds have stored.
-/

namespace DazeApi.Users.Rebuild

open DazeApi.Batch

/-! ## Executions -/

/-- A delta of a user's quota; a `direct` one was written to the row at once. -/
structure Entry where
  id : Int
  delta : Int
  direct : Bool
deriving DecidableEq, Repr

/-- Who called `GetUserCache`. -/
inductive Caller where
  | request
  | getUserQuota
  | cacheIncrUserQuota (delta : Int) (db : Bool)
deriving DecidableEq, Repr

/-- Which function rebuilds. -/
inductive Rebuilder where
  | getUserCache (caller : Caller)
  | getUserQuota
deriving DecidableEq, Repr

/-- Where an execution stands, named by its next call of a store.  A rebuild that has
read the row keeps the length of the log at that moment. -/
inductive Proc where
  | incrementing (id delta : Int) (db : Bool)
  | reading (caller : Caller) (id : Int)
  | invalidating (caller : Caller) (id : Int)
  | loading (by_ : Rebuilder) (id : Int)
  | loaded (by_ : Rebuilder) (user : UserBase) (began : Nat)
  | storing (by_ : Rebuilder) (user : UserBase) (began : Nat)
  | retrying (id delta : Int) (db : Bool)
  | recording (id delta : Int) (db : Bool)
  | returned
deriving DecidableEq, Repr

/-- What a rebuild has stored, with the deltas of the user recorded before it read
the row and those recorded since. -/
structure Stored where
  id : Int
  value : Int
  before : List Int
  during : List Int
deriving DecidableEq, Repr

structure State where
  batch : Batch.State
  cache : Int → Option UserHash
  procs : List Proc
  log : List Entry
  swapped : Nat
  stored : List Stored

/-- An empty cache and an idle updater. -/
def initial (db : Sql.Db) : State where
  batch := Batch.initial db
  cache := fun _ => none
  procs := []
  log := []
  swapped := 0
  stored := []

/-! ## The log -/

/-- The deltas of a user, in the order in which they were recorded. -/
def deltas (id : Int) (log : List Entry) : List Int :=
  (log.filter fun e => e.id = id).map Entry.delta

/-- The deltas of a user that were given to `addNewRecord`. -/
def queued (id : Int) (log : List Entry) : List Int :=
  (log.filter fun e => e.id = id && !e.direct).map Entry.delta

/-- The deltas of a user that were written to the row at once. -/
def direct (id : Int) (log : List Entry) : List Int :=
  (log.filter fun e => e.id = id && e.direct).map Entry.delta

/-! ## The system -/

inductive Act where
  | increaseUserQuota (id quota : Int) (db : Bool)
  | decreaseUserQuota (id quota : Int)
  | getUserQuota (id : Int) (fromDB : Bool)
  | getUserCache (id : Int)
  /-- The next call of execution `i`; `err`: the store answers with an error. -/
  | proc (i : Nat) (err : Bool)
  /-- A step of the batch updater. -/
  | batch (a : Batch.Act)
  | expire (id : Int)
deriving DecidableEq, Repr

def State.start (s : State) (p : Proc) : State := { s with procs := s.procs ++ [p] }

def State.goto (s : State) (i : Nat) (p : Proc) : State := { s with procs := s.procs.set i p }

def State.setCache (s : State) (id : Int) (entry : Option UserHash) : State :=
  { s with cache := Function.update s.cache id entry }

/-- `GetUserById`, the columns that are cached. -/
def getUserById (db : Sql.Db) (id : Int) : Option UserBase :=
  if id = 0 then none
  else (Sql.value db "users" id "quota").map fun quota =>
    ⟨id, (Sql.value db "users" id "status").getD 0, quota⟩

/-- What a rebuild reads from the database.  The query of `GetUserQuota` leaves the
quota at zero when there is no row. -/
def load (db : Sql.Db) (id : Int) : Rebuilder → Option UserBase
  | .getUserCache _ => getUserById db id
  | .getUserQuota => some ⟨id, 0, (Sql.value db "users" id "quota").getD 0⟩

/-- `increaseUserQuota` and `decreaseUserQuota`: `UPDATE users SET quota = quota + d`. -/
def updateQuota (db : Sql.Db) (id delta : Int) : Sql.Db := fun t k =>
  if t = "users" ∧ k = id then
    (db t k).map fun row c => if c = "quota" then (row c).map (· + delta) else row c
  else db t k

/-- After `GetUserCache` has returned the user. -/
def Caller.onUser (id : Int) : Caller → Proc
  | .request => .returned
  | .getUserQuota => .returned
  | .cacheIncrUserQuota delta db => .retrying id delta db

/-- After the database has failed a rebuild: `GetUserQuota` reads the row itself, and
`cacheIncrUserQuota` gives up. -/
def Rebuilder.onError (id : Int) : Rebuilder → Proc
  | .getUserCache .request => .returned
  | .getUserCache .getUserQuota => .loading .getUserQuota id
  | .getUserCache (.cacheIncrUserQuota delta db) => .recording id delta db
  | .getUserQuota => .returned

/-- After a rebuild has stored the quota. -/
def Rebuilder.onStored (id : Int) : Rebuilder → Proc
  | .getUserCache caller => caller.onUser id
  | .getUserQuota => .returned

/-- `updateUserCache`, or `updateUserQuotaCache`. -/
def store (entry : Option UserHash) (user : UserBase) : Rebuilder → UserHash
  | .getUserCache _ => redisHSetObjPreservingQuota entry user
  | .getUserQuota => redisHSetNXQuota entry user.quota

/-- `GetUserCache` looks at the hash. -/
def readCache (s : State) (i : Nat) (caller : Caller) (id : Int) : State :=
  match redisHGetObj (s.cache id) with
  | none => s.goto i (.loading (.getUserCache caller) id)
  | some ub =>
      if userBaseCacheLooksComplete id ub then s.goto i (caller.onUser id)
      else s.goto i (.invalidating caller id)

/-- A rebuild stores the quota it has computed. -/
def State.rebuilt (s : State) (by_ : Rebuilder) (user : UserBase) (began : Nat) : State :=
  let r : Stored :=
    ⟨user.id, user.quota, deltas user.id (s.log.take began), deltas user.id (s.log.drop began)⟩
  { s with
    cache := Function.update s.cache user.id (some (store (s.cache user.id) user by_))
    stored := s.stored ++ [r] }

/-- A delta was recorded, and the updater is now in state `b`. -/
def State.record (s : State) (b : Batch.State) (e : Entry) : State :=
  { s with batch := b, log := s.log ++ [e] }

/-- The next call of an execution. -/
def stepProc (s : State) (i : Nat) (err : Bool) : Proc → Option State
  | .incrementing id delta db =>
      if err then some (s.goto i (.recording id delta db))
      else
        match redisHIncrByIfComplete (s.cache id) delta with
        | (entry, true) => some ((s.setCache id entry).goto i (.recording id delta db))
        | (_, false) => some (s.goto i (.reading (.cacheIncrUserQuota delta db) id))
  | .reading caller id =>
      if err then some (s.goto i (.loading (.getUserCache caller) id))
      else some (readCache s i caller id)
  | .invalidating caller id =>
      if err then some (s.goto i (.loading (.getUserCache caller) id))
      else some ((s.setCache id none).goto i (.loading (.getUserCache caller) id))
  | .loading by_ id =>
      if err then some (s.goto i (by_.onError id))
      else
        match load s.batch.db id by_ with
        | none => some (s.goto i (by_.onError id))
        | some user => some (s.goto i (.loaded by_ user s.log.length))
  | .loaded by_ user began =>
      let quota := user.quota + pendingBatchDelta true s.batch .userQuota user.id
      some (s.goto i (.storing by_ { user with quota := quota } began))
  | .storing by_ user began =>
      if err then some (s.goto i (by_.onStored user.id))
      else some ((s.rebuilt by_ user began).goto i (by_.onStored user.id))
  | .retrying id delta db =>
      if err then some (s.goto i (.recording id delta db))
      else some ((s.setCache id (redisHIncrByIfComplete (s.cache id) delta).1).goto i
        (.recording id delta db))
  | .recording id delta db =>
      if db then
        if err then some (s.goto i .returned)
        else
          let b := { s.batch with db := updateQuota s.batch.db id delta }
          some ((s.record b ⟨id, delta, true⟩).goto i .returned)
      else (Batch.step s.batch (.addNewRecord .userQuota id delta)).map fun b =>
        (s.record b ⟨id, delta, false⟩).goto i .returned
  | .returned => none

/-- The updater's steps here: its statements succeed, and deltas of user quotas come
from the two functions above. -/
def allowed : Batch.Act → Bool
  | .addNewRecord ty _ _ => ty ≠ .userQuota
  | .send _ _ err => !err
  | _ => true

/-- The step takes the map of user quotas out. -/
def swapsUserQuota (b : Batch.State) : Batch.Act → Bool
  | .swap i =>
      match b.flushes[i]? with
      | some (.swapping (.userQuota :: _)) => true
      | _ => false
  | _ => false

def step (s : State) : Act → Option State
  | .increaseUserQuota id quota db =>
      some (s.start (if quota < 0 then .returned else .incrementing id quota db))
  | .decreaseUserQuota id quota =>
      some (s.start (if quota < 0 then .returned else .incrementing id (-quota) false))
  | .getUserQuota id fromDB =>
      some (s.start (if fromDB then .loading .getUserQuota id else .reading .getUserQuota id))
  | .getUserCache id => some (s.start (.reading .request id))
  | .proc i err => s.procs[i]?.bind (stepProc s i err)
  | .batch a =>
      if allowed a then
        (Batch.step s.batch a).map fun b =>
          { s with
            batch := b
            swapped := if swapsUserQuota s.batch a then s.log.length else s.swapped }
      else none
  | .expire id => some (s.setCache id none)

end DazeApi.Users.Rebuild
