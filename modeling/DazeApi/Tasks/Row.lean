import Mathlib.Data.Rat.Defs

/-!
# Task rows

The persisted record of an asynchronous task (`model/task.go`), the two polling
queries, and the three ways a task is written back: the guarded update
`UpdateWithStatus`, the whole-row `Update`, and the bulk update by primary key.

`TaskStatus` is a string type in the source, and a Suno answer can store any
string there, so the seven named statuses come with a constructor for the rest.
`other` is only built by `ofText`, which never gives it a named text.

A copy of a row in memory is a value of the same type `Task`.  The columns that
no modelled function reads (creation and update time, group, properties other
than the origin model name) are left out.  `data` is the compact JSON text.
-/

namespace DazeApi.Tasks

/-! ## Statuses -/

/-- `model.TaskStatus`. -/
inductive TaskStatus where
  | notStart
  | submitted
  | queued
  | inProgress
  | failure
  | success
  | unknown
  | other (text : String)
deriving DecidableEq, Repr

namespace TaskStatus

/-- The conversion `model.TaskStatus(s)` of an upstream text. -/
def ofText (s : String) : TaskStatus :=
  if s = "NOT_START" then .notStart
  else if s = "SUBMITTED" then .submitted
  else if s = "QUEUED" then .queued
  else if s = "IN_PROGRESS" then .inProgress
  else if s = "FAILURE" then .failure
  else if s = "SUCCESS" then .success
  else if s = "UNKNOWN" then .unknown
  else .other s

/-- The stored text of a status. -/
def text : TaskStatus → String
  | .notStart => "NOT_START"
  | .submitted => "SUBMITTED"
  | .queued => "QUEUED"
  | .inProgress => "IN_PROGRESS"
  | .failure => "FAILURE"
  | .success => "SUCCESS"
  | .unknown => "UNKNOWN"
  | .other s => s

/-- The test `isDone` of `updateVideoSingleTask`. -/
def isDone (st : TaskStatus) : Bool := st = .success || st = .failure

@[simp] theorem isDone_failure : isDone .failure = true := rfl

@[simp] theorem isDone_success : isDone .success = true := rfl

theorem ne_failure_of_not_done {st : TaskStatus} (h : st.isDone = false) : st ≠ .failure := by
  intro hst
  simp [hst] at h

end TaskStatus

/-! ## Rows -/

/-- `constant.TaskPlatform`.  The polling loop tells Midjourney and Suno from
the platforms handled by the video poller. -/
inductive TaskPlatform where
  | midjourney
  | suno
  | video (name : String)
deriving DecidableEq, Repr

/-- `model.TaskBillingContext`, the fields that settlement reads. -/
structure TaskBillingContext where
  fixedPriceUnit : String
  groupDiscount : ℚ
  originModelName : String
  perCallBilling : Bool
deriving DecidableEq, Repr

/-- `model.TaskPrivateData`. -/
structure TaskPrivateData where
  upstreamTaskID : String
  resultURL : String
  tokenId : Int
  billingContext : Option TaskBillingContext
deriving DecidableEq, Repr

/-- `model.Task`. -/
structure Task where
  id : Int
  taskID : String
  platform : TaskPlatform
  quota : Int
  status : TaskStatus
  failReason : String
  submitTime : Int
  startTime : Int
  finishTime : Int
  progress : String
  originModelName : String
  privateData : TaskPrivateData
  data : String
deriving DecidableEq, Repr

namespace Task

/-- `Task.GetUpstreamTaskID`: old rows have no upstream id of their own. -/
def getUpstreamTaskID (t : Task) : String :=
  if t.privateData.upstreamTaskID ≠ "" then t.privateData.upstreamTaskID else t.taskID

end Task

/-- `model.taskSnapshot`. -/
structure TaskSnapshot where
  status : TaskStatus
  progress : String
  startTime : Int
  finishTime : Int
  failReason : String
  resultURL : String
  data : String
deriving DecidableEq, Repr

/-- `Task.Snapshot`.  `taskSnapshot.Equal` compares field by field, which is
equality of snapshots. -/
def Task.snapshot (t : Task) : TaskSnapshot where
  status := t.status
  progress := t.progress
  startTime := t.startTime
  finishTime := t.finishTime
  failReason := t.failReason
  resultURL := t.privateData.resultURL
  data := t.data

/-! ## Queries -/

/-- The condition of `GetAllUnFinishSyncTasks`. -/
def unfinishedSync (row : Task) : Bool :=
  row.progress ≠ "100%" && row.status ≠ .failure && row.status ≠ .success

/-- The condition of `GetTimedOutUnfinishedTasks`. -/
def timedOutUnfinished (cutoffUnix : Int) (row : Task) : Bool :=
  row.progress ≠ "100%" && !row.status.isDone && row.submitTime < cutoffUnix

theorem not_done_of_timedOut {cutoff : Int} {row : Task}
    (h : timedOutUnfinished cutoff row = true) : row.status.isDone = false := by
  simp only [timedOutUnfinished, Bool.and_eq_true, Bool.not_eq_true'] at h
  exact h.1.2

/-! ## Writes

Each write takes the persisted row and gives the row after it.  `err` is an
error of the database, which leaves the row as it was. -/

/-- `Task.UpdateWithStatus`: the row, and `some won`, or `none` on an error. -/
def Task.updateWithStatus (t row : Task) (fromStatus : TaskStatus) (err : Bool) :
    Task × Option Bool :=
  if err then (row, none)
  else if row.status = fromStatus then (t, some true)
  else (row, some false)

/-- `Task.Update`, a save of the whole row with no guard. -/
def Task.update (t row : Task) (err : Bool) : Task := if err then row else t

/-- `TaskBulkUpdateByID` with the parameters its three callers give it: status
and progress always, the reason only when the channel is missing. -/
def taskBulkUpdateByID (row : Task) (failReason : Option String) (err : Bool) : Task :=
  if err then row
  else { row with status := .failure, progress := "100%",
                  failReason := failReason.getD row.failReason }

/-- A guarded update that does not win leaves the row alone. -/
theorem Task.updateWithStatus_of_lost {t row : Task} {st : TaskStatus} {err : Bool}
    (h : (t.updateWithStatus row st err).2 ≠ some true) :
    (t.updateWithStatus row st err).1 = row := by
  unfold Task.updateWithStatus at h ⊢
  split
  next => rfl
  next herr =>
    split
    next hst => simp [herr, hst] at h
    next => rfl

/-- A guarded update that wins found the row in the status it expected. -/
theorem Task.updateWithStatus_of_won {t row : Task} {st : TaskStatus} {err : Bool}
    (h : (t.updateWithStatus row st err).2 = some true) :
    row.status = st ∧ (t.updateWithStatus row st err).1 = t := by
  unfold Task.updateWithStatus at h ⊢
  split at h
  next => cases h
  next herr =>
    split at h
    next hst => exact ⟨hst, by simp [herr, hst]⟩
    next => cases h

end DazeApi.Tasks
