import DazeApi.Lib.Run
import DazeApi.Lib.Pool
import Mathlib.Data.Rat.Defs
import Mathlib.Algebra.Order.Ring.Rat

/-!
# Writers of a user's row

The statements that reach the quota of one user (`model/user.go`, `model/topup.go`).
`IncreaseUserQuota`, `DecreaseUserQuota` and `CompleteTopUp` add to the column.  Three
functions write back a user that was read before: `User.Update` writes the fields of
its caller's struct that are not zero, `inviteUser` and `TransferAffQuotaToQuota` save
the whole row.  The transaction of the transfer takes no lock when it reads: the query
option by which the source asks for `FOR UPDATE` is one of an older version of the
library and has no effect.

A statement is one step, and so is the save of the transfer with its commit, since the
row is locked in between.  The reads that `User.Update` makes itself are left out: what
it writes is the struct its caller has passed.
-/

namespace DazeApi.Users.Writers

/-- `model.User`, the columns that these functions compute with. -/
structure User where
  quota : Int
  affQuota : Int
  affCount : Int
  affHistoryQuota : Int
deriving DecidableEq, Repr

/-- `common.QuotaForInviter` and `common.QuotaPerUnit`. -/
structure Config where
  quotaForInviter : Int
  quotaPerUnit : ℚ

/-- A field of a struct given to `Updates`: zero is not written. -/
def updatesField (old new : Int) : Int := if new ≠ 0 then new else old

/-- `DB.Model(user).Updates(newUser)`. -/
def updates (row newUser : User) : User where
  quota := updatesField row.quota newUser.quota
  affQuota := updatesField row.affQuota newUser.affQuota
  affCount := updatesField row.affCount newUser.affCount
  affHistoryQuota := updatesField row.affHistoryQuota newUser.affHistoryQuota

/-- What `inviteUser` saves. -/
def invited (cfg : Config) (user : User) : User :=
  { user with
    affCount := user.affCount + 1
    affQuota := user.affQuota + cfg.quotaForInviter
    affHistoryQuota := user.affHistoryQuota + cfg.quotaForInviter }

/-- What `TransferAffQuotaToQuota` saves. -/
def transferred (user : User) (quota : Int) : User :=
  { user with affQuota := user.affQuota - quota, quota := user.quota + quota }

/-! ## The system -/

/-- An execution that has the user in hand and is about to write. -/
inductive Proc where
  | updating (user : User)
  | inviting (user : User)
  | transferring (quota : Int) (user : User)
  | returned
deriving DecidableEq, Repr

/-- The row, the executions, and two ghosts: the sum of all that was added to the
column, and the sum of the transfers that were committed. -/
structure State where
  row : User
  procs : List Proc
  added : Int
  transfers : Int
deriving DecidableEq, Repr

def initial (row : User) : State := ⟨row, [], 0, 0⟩

/-- The atomic steps; `err`: the database fails the statement. -/
inductive Act where
  | increaseUserQuota (quota : Int) (err : Bool)
  | decreaseUserQuota (quota : Int) (err : Bool)
  | completeTopUp (quota : Int) (err : Bool)
  /-- A caller of `User.Update` reads the user. -/
  | loadForUpdate
  /-- A caller of `User.Update` makes a struct of its own that has no quota. -/
  | newForUpdate
  /-- `inviteUser` reads the inviter. -/
  | inviteUser
  /-- `TransferAffQuotaToQuota` reads the user. -/
  | transferAffQuotaToQuota (quota : Int)
  | write (i : Nat) (err : Bool)
deriving DecidableEq, Repr

/-- `UPDATE users SET quota = quota + d`. -/
def State.add (s : State) (delta : Int) : State :=
  { s with row := { s.row with quota := s.row.quota + delta }, added := s.added + delta }

def State.start (s : State) (p : Proc) : State := { s with procs := s.procs ++ [p] }

def State.goto (s : State) (i : Nat) (p : Proc) : State := { s with procs := s.procs.set i p }

/-- `TransferAffQuotaToQuota` up to its check of the user it has read. -/
def startTransfer (cfg : Config) (row : User) (quota : Int) : Proc :=
  if quota < cfg.quotaPerUnit then .returned
  else if row.affQuota < quota then .returned
  else .transferring quota row

/-- The write of an execution. -/
def writeProc (cfg : Config) (s : State) : Proc → Option State
  | .updating user => some { s with row := updates s.row user }
  | .inviting user => some { s with row := invited cfg user }
  | .transferring quota user =>
      some { s with row := transferred user quota, transfers := s.transfers + quota }
  | .returned => none

def step (cfg : Config) (s : State) : Act → Option State
  | .increaseUserQuota quota err => some (if quota < 0 ∨ err then s else s.add quota)
  | .decreaseUserQuota quota err => some (if quota < 0 ∨ err then s else s.add (-quota))
  | .completeTopUp quota err => some (if err then s else s.add quota)
  | .loadForUpdate => some (s.start (.updating s.row))
  | .newForUpdate => some (s.start (.updating ⟨0, 0, 0, 0⟩))
  | .inviteUser => some (s.start (.inviting s.row))
  | .transferAffQuotaToQuota quota => some (s.start (startTransfer cfg s.row quota))
  | .write i err =>
      s.procs[i]?.bind fun p =>
        if err then some (s.goto i .returned)
        else (writeProc cfg s p).map fun s' => s'.goto i .returned

/-! ## The property -/

/-- The quota is the initial one with everything added and transferred. -/
def Kept (row : User) (s : State) : Prop := s.row.quota = row.quota + s.added + s.transfers

/-- A write puts back the quota that the row has, or none. -/
def fresh (s : State) : Act → Bool
  | .write i err =>
      match s.procs[i]? with
      | some (.updating user) => err || user.quota = 0 || user.quota = s.row.quota
      | some (.inviting user) => err || user.quota = s.row.quota
      | some (.transferring _ user) => err || user.quota = s.row.quota
      | _ => true
  | _ => true

section

variable {cfg : Config} {row : User} {s s' : State} {a : Act}

theorem kept_add (delta : Int) : Kept row (s.add delta) ↔ Kept row s := by
  simp only [Kept, State.add]
  omega

/-- A write keeps the law exactly if its copy of the quota is that of the row. -/
theorem kept_writeProc {i : Nat} {p : Proc} (h : Kept row s) (hp : s.procs[i]? = some p)
    (hs : writeProc cfg s p = some s') : Kept row s' ↔ fresh s (.write i false) = true := by
  cases p with
  | updating user =>
      cases hs
      simp only [Kept, updates, updatesField, fresh, hp, Bool.false_or, Bool.or_eq_true,
        decide_eq_true_eq] at h ⊢
      split
      next hne => simp only [hne, false_or]; omega
      next hz =>
        have hz' : user.quota = 0 := by simpa using hz
        simp [h, hz']
  | inviting user =>
      cases hs
      simp only [Kept, invited, fresh, hp, Bool.false_or, decide_eq_true_eq] at h ⊢
      omega
  | transferring quota user =>
      cases hs
      simp only [Kept, transferred, fresh, hp, Bool.false_or, decide_eq_true_eq] at h ⊢
      omega
  | returned => cases hs

/-- A step keeps the law exactly if it is fresh. -/
theorem kept_step_iff (h : Kept row s) (hs : step cfg s a = some s') :
    Kept row s' ↔ fresh s a = true := by
  cases a with
  | increaseUserQuota quota err =>
      cases hs
      simp only [fresh, iff_true]
      split
      next => exact h
      next => exact (kept_add quota).2 h
  | decreaseUserQuota quota err =>
      cases hs
      simp only [fresh, iff_true]
      split
      next => exact h
      next => exact (kept_add (-quota)).2 h
  | completeTopUp quota err =>
      cases hs
      simp only [fresh, iff_true]
      split
      next => exact h
      next => exact (kept_add quota).2 h
  | loadForUpdate => cases hs; exact iff_of_true h rfl
  | newForUpdate => cases hs; exact iff_of_true h rfl
  | inviteUser => cases hs; exact iff_of_true h rfl
  | transferAffQuotaToQuota quota => cases hs; exact iff_of_true h rfl
  | write i err =>
      obtain ⟨p, hp, hs⟩ := Option.bind_eq_some_iff.1 hs
      cases err with
      | true =>
          cases hs
          refine iff_of_true h ?_
          simp only [fresh, hp]
          cases p <;> rfl
      | false =>
          obtain ⟨m, hm, rfl⟩ := Option.map_eq_some_iff.1 hs
          show Kept row m ↔ _
          exact kept_writeProc h hp hm

end

/-- In every state of a run, the quota is the initial one with all that was added to
it and all committed transfers, exactly if every write that puts a quota back finds
the row with that quota. -/
theorem kept_iff_fresh (cfg : Config) (row : User) (as : List Act) (s : State)
    (h : Run.exec (step cfg) (initial row) as = some s) :
    Run.Always (step cfg) (Kept row) (initial row) as ↔
      Run.Along (step cfg) (fun s a => fresh s a = true) (initial row) as := by
  refine Run.always_iff_along (R := fun _ _ => True) (fun s a s' hI _ hs => kept_step_iff hI hs)
    as (initial row) s ?_ (Run.along_of_forall (fun _ _ => trivial) as _) h
  simp [Kept, initial]

/-! ## Two runs -/

def smallConfig : Config := ⟨50, 10⟩

def richUser : User := ⟨1000, 100, 2, 100⟩

/-- A charge and a transfer, each over before a setting is changed. -/
def inTurn : List Act :=
  [.decreaseUserQuota 300 false, .transferAffQuotaToQuota 40, .write 0 false, .newForUpdate,
    .completeTopUp 500 false, .write 1 false, .loadForUpdate, .write 2 false]

/-- A charge between the read and the write of a change of settings. -/
def crossed : List Act :=
  [.loadForUpdate, .decreaseUserQuota 300 false, .write 0 false]

theorem kept_inTurn :
    ∃ s, Run.exec (step smallConfig) (initial richUser) inTurn = some s ∧
      s.row.quota = 1240 ∧
      Run.Always (step smallConfig) (Kept richUser) (initial richUser) inTurn := by
  obtain ⟨s, hs, hq⟩ := Run.exists_of_any (step smallConfig) (initial richUser) inTurn
    (fun s => s.row.quota = 1240) (by decide +kernel)
  exact ⟨s, hs, of_decide_eq_true hq,
    (kept_iff_fresh smallConfig richUser inTurn s hs).2 (by decide +kernel)⟩

/-- The charge of 300 is lost: the change of settings puts the old quota back. -/
theorem crossed_loses_charge :
    ¬ ∀ (cfg : Config) (row : User) (as : List Act) (s : State),
      Run.exec (step cfg) (initial row) as = some s → Kept row s := by
  intro h
  obtain ⟨s, hs, hend⟩ := Run.exists_of_any (step smallConfig) (initial richUser) crossed
    (fun s => s.row.quota = 1000 ∧ s.added = -300 ∧ s.transfers = 0) (by decide +kernel)
  obtain ⟨hq, ha, ht⟩ := of_decide_eq_true hend
  have hk := h smallConfig richUser crossed s hs
  rw [Kept, hq, ha, ht] at hk
  exact absurd hk (by decide)

end DazeApi.Users.Writers
