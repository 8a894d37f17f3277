import DazeApi.Channels.Update
import DazeApi.Lib.Mutex
import DazeApi.Types.Error

/-!
# The polling lock

`GetNextEnabledKey` and `UpdateChannelStatus` (`model/channel.go`) and `ManageMultiKeys`
(`controller/channel.go`) on one channel, as executions under the mutex that
`GetChannelPollingLock` gives for its id.  A statement that reads or writes the database,
the memory cache or the mutex is one step.

The memory cache points to a struct, and a call that got the pointer keeps it when
`InitChannelCache` puts another struct in its place; so the structs that were ever in the
cache are a list, and `cached` is the position of the one that is there.  A struct loaded
from the database belongs to the call that loaded it.

An action of `ManageMultiKeys` other than `test_key` is modelled by the channel that it
hands to `Update`, if it comes to that.  What the rest of the program does to the channel
is given by the changes `Other`, at any moment.  The abilities, which `UpdateChannelStatus`
updates before it returns, are not looked at here.
-/

namespace DazeApi.Channels.Polling

open DazeApi.Types

structure Env where
  memoryCacheEnabled : Bool
  unmarshal : UnmarshalArray

/-- What the executions share. -/
structure Shared where
  structs : List Channel
  cached : Option Nat
  row : Option Channel

/-- The struct that `GetNextEnabledKey` is called on. -/
inductive Struct where
  | own (c : Channel)
  | pointer (n : Nat)

def Shared.deref (sh : Shared) : Struct → Option Channel
  | .own c => some c
  | .pointer n => sh.structs[n]?

def Shared.assign (sh : Shared) (st : Struct) (c : Channel) : Shared :=
  match st with
  | .own _ => sh
  | .pointer n => { sh with structs := sh.structs.set n c }

/-- The channel in the cache. -/
def Shared.cachedChannel (sh : Shared) : Option Channel := sh.cached.bind (sh.structs[·]?)

/-- The answers of the environment: the number that `rand.Intn` returns, and the error with
which a statement fails. -/
structure Answer where
  intn : Nat
  failure : Option String

/-- No statement fails. -/
def quiet : Answer := ⟨0, none⟩

/-- `GetChannelById`. -/
def getChannelById (sh : Shared) (ans : Answer) : Except String Channel :=
  match ans.failure, sh.row with
  | some err, _ => .error err
  | none, none => .error "record not found"
  | none, some row => .ok { row with keys := [] }

/-- The error of a channel that is not in the cache. -/
def notCached (id : Int) : String := "渠道# " ++ toString id ++ "，已不存在"

/-- `CacheGetChannelInfo`. -/
def cacheGetChannelInfo (env : Env) (sh : Shared) (id : Int) (ans : Answer) :
    Except String ChannelInfo :=
  if env.memoryCacheEnabled then
    match sh.cached.bind (sh.structs[·]?) with
    | some c => .ok c.info
    | none => .error (notCached id)
  else (getChannelById sh ans).map Channel.info

/-! ## `GetNextEnabledKey` -/

abbrev KeyResult := Except NewAPIError (String × Nat)

def noKeysAvailable : NewAPIError := newError "no keys available" "channel:no_available_key" []

def noEnabledKeys : NewAPIError := newError "no enabled keys" "channel:no_available_key" []

def getChannelFailed (err : String) : NewAPIError := newError err "get_channel_failed" [.skipRetry]

/-- `enabledIdx`. -/
def enabledIdx (info : ChannelInfo) (keys : List String) : List Nat :=
  (List.range keys.length).filter fun i => info.keyStatus i = statusEnabled

/-- `keys[i]`, and `i`. -/
def keyAt (keys : List String) (i : Nat) : String × Nat := (keys.getD i "", i)

/-- `start`. -/
def pollingStart (index : Int) (size : Nat) : Nat :=
  if index < 0 ∨ size ≤ index then 0 else index.toNat

/-- The loop over the positions from `start` on. -/
def pollingIdx (info : ChannelInfo) (size start : Nat) : Option Nat :=
  ((List.range size).map fun i => (start + i) % size).find? fun i => info.keyStatus i = statusEnabled

/-- The struct whose polling index is behind a position. -/
def pointBehind (c : Channel) (i size : Nat) : Channel :=
  { c with info := { c.info with multiKeyPollingIndex := ((i + 1) % size : Nat) } }

/-- The case of the polling mode: the struct and the key. -/
def pollKey (c : Channel) (keys : List String) (first : Nat) (index : Int) : Channel × Nat :=
  match pollingIdx c.info keys.length (pollingStart index keys.length) with
  | some i => (pointBehind c i keys.length, i)
  | none => (c, first)

/-- The call requests the lock. -/
def locks (env : Env) (c : Channel) : Bool :=
  c.info.isMultiKey && c.getKeys env.unmarshal ≠ []

/-- What a call returns that does not request the lock. -/
def unlockedKey (c : Channel) : KeyResult :=
  if c.info.isMultiKey then .error noKeysAvailable else .ok (c.key, 0)

/-! ## `UpdateChannelStatus` -/

/-- The arguments of a call, with the time of `GetTimestamp`. -/
structure StatusCall where
  usingKey : String
  status : Int
  reason : String
  now : Int

def StatusCall.handle (env : Env) (call : StatusCall) (c : Channel) : Channel :=
  handlerMultiKeyUpdate env.unmarshal c call.usingKey call.status call.reason call.now

/-- The part of a call that reaches the cache; `none`: the call returns. -/
def updateCached (env : Env) (sh : Shared) (call : StatusCall) : Option Shared :=
  sh.cached.bind fun n =>
    sh.structs[n]?.bind fun c =>
      if c.info.isMultiKey then some (sh.assign (.pointer n) (call.handle env c))
      else if c.status = call.status then none
      else some (sh.assign (.pointer n) { c with status := call.status })

/-- `SaveWithoutKey`.  Without a row the key is missing, and the statement fails. -/
def saveWithoutKey (sh : Shared) (c : Channel) (ans : Answer) : Option Shared :=
  match ans.failure, sh.row with
  | none, some row =>
      if c.id = 0 then none else some { sh with row := some { c with key := row.key, keys := [] } }
  | _, _ => none

/-! ## `ManageMultiKeys` -/

/-- An action: `update` hands a channel to `Update`, or stops before. -/
inductive Action where
  | update (c : Option Channel)
  | testKey (i : Int)

/-- The key that `test_key` tests. -/
def testKeyValue (env : Env) (c : Channel) (i : Int) : Option String :=
  if !c.info.isMultiKey then if i ≠ 0 then none else some c.key
  else
    let keys := c.getKeys env.unmarshal
    if i < 0 ∨ keys.length ≤ i then none else keys[i.toNat]?

/-- `testCh`. -/
def testCh (c : Channel) (key : String) : Channel :=
  { c with key := key, info := { c.info with isMultiKey := false } }

/-- The row after `Update`. -/
def updateRowOf (env : Env) (row c : Channel) : Channel :=
  updates row (recalculated env.unmarshal row.key c)

/-! ## Executions -/

inductive Call where
  | getNextEnabledKey (fromCache : Bool)
  | updateChannelStatus (call : StatusCall)
  | manageMultiKeys (action : Action)

/-- What a call returns. -/
inductive Result where
  | key (r : KeyResult)
  | status (success : Bool)
  | managed

/-- The positions of an execution.  The flag of a call of `UpdateChannelStatus` says that
it has the lock of its first part in hand, which is released when it returns. -/
inductive Pos where
  | keyStart (st : Struct)
  | keyWait (st : Struct) (keys : List String)
  | keyHeld (st : Struct) (keys : List String)
  | keySave (c : Channel) (r : KeyResult)
  | statusWait (call : StatusCall)
  | statusHeld (call : StatusCall)
  | statusLoad (call : StatusCall) (locked : Bool)
  | statusWaitRow (call : StatusCall) (locked : Bool) (c : Channel)
  | statusHandle (call : StatusCall) (c : Channel)
  | statusSave (c : Channel) (locked : Bool)
  | manageWait (c : Channel) (action : Action)
  | manageHeld (c : Channel) (action : Action)
  | testWait
  | unlocking (r : Result)
  | returned (r : Result)

def Pos.op : Pos → Mutex.Op
  | .keyWait _ _ | .statusWait _ | .statusWaitRow _ _ _ | .manageWait _ _ | .testWait => .lock
  | .statusHandle _ _ | .unlocking _ => .unlock
  | _ => .work

def Pos.holds : Pos → Bool
  | .keyHeld _ _ | .keySave _ _ | .statusHeld _ | .statusHandle _ _ | .manageHeld _ _
  | .testWait | .unlocking _ => true
  | .statusLoad _ locked | .statusWaitRow _ locked _ | .statusSave _ locked => locked
  | _ => false

/-- A call that loads its struct, and finds no row, is not made. -/
def start (env : Env) (sh : Shared) : Call → Pos
  | .getNextEnabledKey fromCache =>
      if env.memoryCacheEnabled && fromCache then
        match sh.cached with
        | some n => .keyStart (.pointer n)
        | none => .returned .managed
      else
        match sh.row with
        | some row => .keyStart (.own { row with keys := [] })
        | none => .returned .managed
  | .updateChannelStatus call =>
      if env.memoryCacheEnabled then .statusWait call else .statusLoad call false
  | .manageMultiKeys action =>
      match sh.row with
      | some row => .manageWait { row with keys := [] } action
      | none => .returned .managed

/-- The return of a call that may have the lock in hand. -/
def finish (locked : Bool) (r : Result) : Pos := if locked then .unlocking r else .returned r

/-- The part of `GetNextEnabledKey` under the lock, up to the deferred save. -/
def chooseKey (env : Env) (sh : Shared) (st : Struct) (c : Channel) (keys : List String)
    (ans : Answer) : Shared × Pos :=
  match enabledIdx c.info keys with
  | [] => (sh, .unlocking (.key (.error noEnabledKeys)))
  | first :: rest =>
      match c.info.multiKeyMode with
      | .random =>
          let i := (first :: rest).getD (ans.intn % (rest.length + 1)) first
          (sh, .unlocking (.key (.ok (keyAt keys i))))
      | .polling =>
          match cacheGetChannelInfo env sh c.id ans with
          | .error err => (sh, .unlocking (.key (.error (getChannelFailed err))))
          | .ok info =>
              let polled := pollKey c keys first info.multiKeyPollingIndex
              let r : KeyResult := .ok (keyAt keys polled.2)
              (sh.assign st polled.1,
                if env.memoryCacheEnabled then .unlocking (.key r) else .keySave polled.1 r)
      | .other _ => (sh, .unlocking (.key (.ok (keyAt keys first))))

/-- The row that a call of `UpdateChannelStatus` has loaded. -/
def loadedRow (call : StatusCall) (locked : Bool) (c : Channel) : Pos :=
  if c.status = call.status then finish locked (.status false)
  else if c.info.isMultiKey then .statusWaitRow call locked c
  else .statusSave { c with status := call.status } locked

/-- The next statement of an execution.  Behind the second request of `UpdateChannelStatus`
there is no first lock in hand: the request has to wait until it is released. -/
def next (env : Env) (sh : Shared) (p : Pos) (ans : Answer) : Option (Shared × Pos) :=
  match p with
  | .keyStart st =>
      (sh.deref st).map fun c =>
        (sh, if locks env c then .keyWait st (c.getKeys env.unmarshal)
          else .returned (.key (unlockedKey c)))
  | .keyWait st keys => some (sh, .keyHeld st keys)
  | .keyHeld st keys =>
      match sh.deref st with
      | some c => some (chooseKey env sh st c keys ans)
      | none => some (sh, .unlocking .managed)
  | .keySave c r =>
      some (if ans.failure = none then { sh with row := sh.row.map ({ · with info := c.info }) }
        else sh, .unlocking (.key r))
  | .statusWait call => some (sh, .statusHeld call)
  | .statusHeld call =>
      match updateCached env sh call with
      | some sh' => some (sh', .statusLoad call true)
      | none => some (sh, .unlocking (.status false))
  | .statusLoad call locked =>
      match getChannelById sh ans with
      | .ok c => some (sh, loadedRow call locked c)
      | .error _ => some (sh, finish locked (.status false))
  | .statusWaitRow call _ c => some (sh, .statusHandle call c)
  | .statusHandle call c => some (sh, .statusSave (call.handle env c) false)
  | .statusSave c locked =>
      match saveWithoutKey sh c ans with
      | some sh' => some (sh', finish locked (.status true))
      | none => some (sh, finish locked (.status false))
  | .manageWait c action => some (sh, .manageHeld c action)
  | .manageHeld _ (.update none) => some (sh, .unlocking .managed)
  | .manageHeld _ (.update (some c)) =>
      some (if ans.failure = none then { sh with row := sh.row.map (updateRowOf env · c) } else sh,
        .unlocking .managed)
  | .manageHeld c (.testKey i) =>
      match testKeyValue env c i with
      | some key => some (sh, if locks env (testCh c key) then .testWait else .unlocking .managed)
      | none => some (sh, .unlocking .managed)
  | .testWait => some (sh, .unlocking .managed)
  | .unlocking r => some (sh, .returned r)
  | .returned _ => none

/-- What others do to the channel: the cache is given another struct or none, or the row is
written. -/
inductive Other where
  | initChannelCache (c : Option Channel)
  | write (row : Option Channel)

def disturb (sh : Shared) : Other → Shared
  | .initChannelCache (some c) =>
      { sh with structs := sh.structs ++ [c], cached := some sh.structs.length }
  | .initChannelCache none => { sh with cached := none }
  | .write row => { sh with row := row }

/-! ## The lock in hand -/

@[simp] theorem holds_finish (locked : Bool) (r : Result) : (finish locked r).holds = locked := by
  cases locked <;> rfl

@[simp] theorem op_finish_ne_lock (locked : Bool) (r : Result) : (finish locked r).op ≠ .lock := by
  cases locked <;> simp [finish, Pos.op]

@[simp] theorem holds_loadedRow (call : StatusCall) (locked : Bool) (c : Channel) :
    (loadedRow call locked c).holds = locked := by
  rw [loadedRow]
  split
  next => exact holds_finish _ _
  next => split <;> rfl

/-- The key is chosen under the lock, and the lock is not requested again. -/
theorem holds_chooseKey (env : Env) (sh : Shared) (st : Struct) (c : Channel) (keys : List String)
    (ans : Answer) :
    (chooseKey env sh st c keys ans).2.holds = true ∧
      (chooseKey env sh st c keys ans).2.op ≠ .lock := by
  rw [chooseKey]
  split
  next => simp [Pos.holds, Pos.op]
  next =>
    split
    next => simp [Pos.holds, Pos.op]
    next =>
      split
      next => simp [Pos.holds, Pos.op]
      next =>
        dsimp only
        split <;> simp [Pos.holds, Pos.op]
    next => simp [Pos.holds, Pos.op]

/-- The copy that `test_key` tests is one of a channel with one key. -/
theorem locks_testCh (env : Env) (c : Channel) (key : String) : locks env (testCh c key) = false :=
  rfl

theorem holds_start (env : Env) (sh : Shared) (call : Call) : (start env sh call).holds = false := by
  cases call with
  | getNextEnabledKey fromCache =>
      simp only [start]
      split <;> split <;> rfl
  | updateChannelStatus call =>
      simp only [start]
      split <;> rfl
  | manageMultiKeys action =>
      simp only [start]
      split <;> rfl

theorem holds_next (env : Env) (sh : Shared) (p : Pos) (ans : Answer) (x : Shared × Pos)
    (h : next env sh p ans = some x) : x.2.holds = Mutex.handAfter p.op p.holds := by
  cases p with
  | keyStart st =>
      obtain ⟨c, -, rfl⟩ := Option.map_eq_some_iff.1 h
      dsimp only
      split <;> rfl
  | keyHeld st keys =>
      simp only [next] at h
      split at h
      next =>
        cases h
        exact (holds_chooseKey _ _ _ _ _ _).1
      next =>
        cases h
        rfl
  | statusHeld call =>
      simp only [next] at h
      split at h <;> cases h <;> rfl
  | statusLoad call locked =>
      simp only [next] at h
      split at h
      next =>
        cases h
        exact holds_loadedRow _ _ _
      next =>
        cases h
        exact holds_finish _ _
  | statusSave c locked =>
      simp only [next] at h
      split at h <;> cases h <;> exact holds_finish _ _
  | manageHeld c action =>
      cases action with
      | update c' => cases c' <;> cases h <;> rfl
      | testKey i =>
          simp only [next] at h
          split at h
          next =>
            cases h
            rw [locks_testCh]
            rfl
          next =>
            cases h
            rfl
  | returned r => cases h
  | keyWait st keys => cases h; rfl
  | keySave c r => cases h; rfl
  | statusWait call => cases h; rfl
  | statusWaitRow call locked c => cases h; rfl
  | statusHandle call c => cases h; rfl
  | manageWait c action => cases h; rfl
  | testWait => cases h; rfl
  | unlocking r => cases h; rfl

/-- The executions on one channel. -/
def program (env : Env) : Mutex.Program Shared Pos Answer Call Other where
  op := Pos.op
  holds := Pos.holds
  start := start env
  next := next env
  disturb := disturb
  holds_start := holds_start env
  holds_of_unlock := by
    intro p h
    cases p <;> first | rfl | cases h
  holds_next := holds_next env

abbrev State := Mutex.State Shared Pos

abbrev Act := Mutex.Act Answer Call Other

/-- The channel before any call. -/
def initial (cached row : Option Channel) : State :=
  Mutex.initial ⟨cached.toList, cached.map fun _ => 0, row⟩

end DazeApi.Channels.Polling
