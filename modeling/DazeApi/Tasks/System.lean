import DazeApi.Lib.Run
import DazeApi.Lib.Pool
import DazeApi.Tasks.Polling

/-!
# The polling system of one task

The persisted row of one task, its owner's accounts, and any number of
executions that work on it: the timeout sweep, the polling loop with its video
and Suno pollers and its bulk failure writes, and the user-triggered real-time
fetch.  Each execution is cut where another one can come in between: at its read
of the row, at the upstream answer, at its write, and at the billing that
follows a write.

A label of the system names the execution and carries what the environment
decides: the time, the upstream answer, whether the database or a store call
fails.  `step` is `none` where the source cannot take the step.

`wins` is a ghost: the executions that moved the row to a final status by a
guarded update, with the row they wrote and the billing they owe for it.
-/

namespace DazeApi.Tasks

/-! ## Executions -/

/-- Where an execution stands, with the copy of the row it holds. -/
inductive Proc where
  /-- The sweep has read the row. -/
  | swept (t : Task)
  /-- The sweep has won its update and owes the refund. -/
  | sweepBilling (t : Task)
  /-- The polling loop has read the row, or a poller is done with the copy. -/
  | polled (t : Task)
  /-- The video poller is about to write; `snap` is the status before the answer. -/
  | videoWriting (snap : TaskStatus) (t : Task) (w : VideoWrite) (b : VideoBilling)
  /-- The video poller has written and bills. -/
  | videoBilling (t : Task) (b : VideoBilling)
  /-- The Suno poller is about to save; `refunded` says it has paid the quota back. -/
  | sunoSaving (t : Task) (refunded : Bool)
  /-- The real-time fetch has read the row. -/
  | fetched (t : Task)
  /-- The real-time fetch is about to write. -/
  | fetchWriting (snap : TaskStatus) (t : Task)
  | finished
deriving DecidableEq, Repr

/-- An execution that won a transition to a final status. -/
structure Win where
  proc : Nat
  task : Task
  due : VideoBilling
deriving DecidableEq, Repr

/-- The row, the accounts, the executions, and the ghost list of winners. -/
structure State where
  row : Task
  accounts : Accounts
  procs : List Proc
  wins : List Win
deriving DecidableEq, Repr

/-- The task as submitted, nobody polling. -/
def initial (row : Task) (accounts : Accounts) : State where
  row := row
  accounts := accounts
  procs := []
  wins := []

/-- The execution `i` moves on. -/
def State.goto (s : State) (i : Nat) (p : Proc) : State := { s with procs := s.procs.set i p }

/-- An execution has moved the row to a final status by a guarded update. -/
def State.win (s : State) (row : Task) (w : Win) : State :=
  { s with row := row, wins := s.wins ++ [w] }

/-- An execution starts. -/
def State.start (s : State) (p : Proc) : State := { s with procs := s.procs ++ [p] }

/-! ## Labels -/

/-- The atomic steps. -/
inductive Act where
  | sweepLoad (cutoffUnix : Int)
  | sweepWrite (i : Nat) (minutes now : Int) (err : Bool)
  | sweepBill (i : Nat) (io : BillingCalls)
  | pollLoad
  /-- `TaskPollingLoop` fails a task with an empty upstream id. -/
  | nullTaskFail (i : Nat) (err : Bool)
  /-- `updateVideoTasks` and `updateSunoTasks` fail the tasks of a missing channel. -/
  | missingChannelFail (i : Nat) (failReason : String) (err : Bool)
  | videoAnswer (i : Nat) (now : Int) (ans : VideoAnswer)
  | videoWrite (i : Nat) (err : Bool)
  | videoBill (i : Nat) (io : BillingCalls)
  | sunoAnswer (i : Nat) (item : SunoDataResponse) (io : BillingCalls)
  | sunoSave (i : Nat) (err : Bool)
  | fetchLoad
  | fetchAnswer (i : Nat) (ti : TaskInfo)
  | fetchWrite (i : Nat) (err : Bool)
deriving DecidableEq, Repr

/-! ## Steps -/

/-- The sweep's guarded update and what is due after it. -/
def sweepWrite (s : State) (i : Nat) (minutes now : Int) (err : Bool) (t : Task) : State :=
  let t' := sweepFail minutes now t
  match t'.updateWithStatus s.row t.status err with
  | (row', some true) =>
      (s.win row' ⟨i, t', if sweepRefunds t then .refund else .keep⟩).goto i
        (if sweepRefunds t then .sweepBilling t' else .finished)
  | (row', _) => { s with row := row' }.goto i .finished

/-- Where the video poller goes after its write. -/
def afterVideoWrite (t : Task) : VideoBilling → Proc
  | .keep => .polled t
  | b => .videoBilling t b

/-- The video poller's write.  A `transition` that is lost or fails cancels the
billing; the result of a `progress` update is ignored. -/
def videoWrite (s : State) (i : Nat) (err : Bool) (snap : TaskStatus) (t : Task)
    (b : VideoBilling) : VideoWrite → State
  | .transition =>
      match t.updateWithStatus s.row snap err with
      | (row', some true) =>
          (s.win row' ⟨i, t, b⟩).goto i (afterVideoWrite t b)
      | (row', _) => { s with row := row' }.goto i (.polled t)
  | .progress => { s with row := (t.updateWithStatus s.row snap err).1 }.goto i (afterVideoWrite t b)
  | .unchanged => s.goto i (afterVideoWrite t b)

/-- The billing of `updateVideoSingleTask`. -/
def runVideoBilling (env : PollEnv) (t : Task) (acc : Accounts) (io : BillingCalls) :
    VideoBilling → Task × Accounts
  | .keep => (t, acc)
  | .settle ti => settleTaskBillingOnComplete env t ti acc io
  | .refund => (t, refundTaskQuota t acc io)

/-- One Suno item: skipped when nothing changed, else the copy is updated, the
quota is paid back when the item fails the task, and a save follows. -/
def sunoAnswer (s : State) (i : Nat) (item : SunoDataResponse) (io : BillingCalls) (t : Task) :
    State :=
  if taskNeedsUpdate t item then
    if sunoFails t item then
      { s with accounts := refundTaskQuota (sunoMerge t item) s.accounts io }.goto i
        (.sunoSaving (sunoUpdate t item) (t.quota ≠ 0 && !io.fundingErr))
    else s.goto i (.sunoSaving (sunoUpdate t item) false)
  else s

/-- The real-time fetch writes only a changed copy, and ignores the result. -/
def fetchAnswer (env : PollEnv) (s : State) (i : Nat) (ti : TaskInfo) (t : Task) : State :=
  if t.snapshot ≠ (realtimeUpdate env t ti).snapshot then
    s.goto i (.fetchWriting t.status (realtimeUpdate env t ti))
  else s.goto i .finished

/-- The system. -/
def step (env : PollEnv) (s : State) : Act → Option State
  | .sweepLoad cutoff =>
      if timedOutUnfinished cutoff s.row then some (s.start (.swept s.row)) else none
  | .sweepWrite i minutes now err =>
      match s.procs[i]? with
      | some (.swept t) => some (sweepWrite s i minutes now err t)
      | _ => none
  | .sweepBill i io =>
      match s.procs[i]? with
      | some (.sweepBilling t) =>
          some ({ s with accounts := refundTaskQuota t s.accounts io }.goto i .finished)
      | _ => none
  | .pollLoad => if unfinishedSync s.row then some (s.start (.polled s.row)) else none
  | .nullTaskFail i err =>
      match s.procs[i]? with
      | some (.polled t) =>
          if t.getUpstreamTaskID = "" then
            some ({ s with row := taskBulkUpdateByID s.row none err }.goto i .finished)
          else none
      | _ => none
  | .missingChannelFail i failReason err =>
      match s.procs[i]? with
      | some (.polled t) =>
          if t.getUpstreamTaskID ≠ "" ∧ t.platform ≠ .midjourney then
            some ({ s with row := taskBulkUpdateByID s.row (some failReason) err }.goto i .finished)
          else none
      | _ => none
  | .videoAnswer i now ans =>
      match s.procs[i]? with
      | some (.polled t) =>
          if t.getUpstreamTaskID ≠ "" ∧ t.platform ≠ .midjourney ∧ t.platform ≠ .suno then
            match videoUpdate env now t ans with
            | (t', none) => some (s.goto i (.polled t'))
            | (t', some b) => some (s.goto i (.videoWriting t.status t' (videoWriteOf t t') b))
          else none
      | _ => none
  | .videoWrite i err =>
      match s.procs[i]? with
      | some (.videoWriting snap t w b) => some (videoWrite s i err snap t b w)
      | _ => none
  | .videoBill i io =>
      match s.procs[i]? with
      | some (.videoBilling t b) =>
          some ({ s with accounts := (runVideoBilling env t s.accounts io b).2 }.goto i
            (.polled (runVideoBilling env t s.accounts io b).1))
      | _ => none
  | .sunoAnswer i item io =>
      match s.procs[i]? with
      | some (.polled t) =>
          if t.getUpstreamTaskID ≠ "" ∧ t.platform = .suno then some (sunoAnswer s i item io t)
          else none
      | _ => none
  | .sunoSave i err =>
      match s.procs[i]? with
      | some (.sunoSaving t _) => some ({ s with row := t.update s.row err }.goto i (.polled t))
      | _ => none
  | .fetchLoad => some (s.start (.fetched s.row))
  | .fetchAnswer i ti =>
      match s.procs[i]? with
      | some (.fetched t) => some (fetchAnswer env s i ti t)
      | _ => none
  | .fetchWrite i err =>
      match s.procs[i]? with
      | some (.fetchWriting snap t) =>
          some ({ s with row := (t.updateWithStatus s.row snap err).1 }.goto i .finished)
      | _ => none

/-! ## Inversion

`Step` says once what each label can do.  The invariants of the system are
proved by cases on it and never unfold `step`. -/

/-- The transitions of the system, one constructor for each way a label can go. -/
inductive Step (env : PollEnv) (s : State) : Act → State → Prop where
  | sweepLoad {cutoff : Int} :
      timedOutUnfinished cutoff s.row = true →
      Step env s (.sweepLoad cutoff) (s.start (.swept s.row))
  | sweepWon {i : Nat} {minutes now : Int} {t : Task} :
      s.procs[i]? = some (.swept t) →
      s.row.status = t.status →
      Step env s (.sweepWrite i minutes now false)
        ((s.win (sweepFail minutes now t)
            ⟨i, sweepFail minutes now t, if sweepRefunds t then .refund else .keep⟩).goto i
          (if sweepRefunds t then .sweepBilling (sweepFail minutes now t) else .finished))
  | sweepLost {i : Nat} {minutes now : Int} {err : Bool} {t : Task} :
      s.procs[i]? = some (.swept t) →
      (err = true ∨ s.row.status ≠ t.status) →
      Step env s (.sweepWrite i minutes now err) (s.goto i .finished)
  | sweepBill {i : Nat} {io : BillingCalls} {t : Task} :
      s.procs[i]? = some (.sweepBilling t) →
      Step env s (.sweepBill i io)
        ({ s with accounts := refundTaskQuota t s.accounts io }.goto i .finished)
  | pollLoad :
      unfinishedSync s.row = true →
      Step env s .pollLoad (s.start (.polled s.row))
  | nullTaskFail {i : Nat} {err : Bool} {t : Task} :
      s.procs[i]? = some (.polled t) →
      Step env s (.nullTaskFail i err)
        ({ s with row := taskBulkUpdateByID s.row none err }.goto i .finished)
  | missingChannelFail {i : Nat} {failReason : String} {err : Bool} {t : Task} :
      s.procs[i]? = some (.polled t) →
      Step env s (.missingChannelFail i failReason err)
        ({ s with row := taskBulkUpdateByID s.row (some failReason) err }.goto i .finished)
  | videoStop {i : Nat} {now : Int} {ans : VideoAnswer} {t t' : Task} :
      s.procs[i]? = some (.polled t) →
      videoUpdate env now t ans = (t', none) →
      Step env s (.videoAnswer i now ans) (s.goto i (.polled t'))
  | videoGo {i : Nat} {now : Int} {ans : VideoAnswer} {t t' : Task} {b : VideoBilling} :
      s.procs[i]? = some (.polled t) →
      t.platform ≠ .suno →
      videoUpdate env now t ans = (t', some b) →
      Step env s (.videoAnswer i now ans)
        (s.goto i (.videoWriting t.status t' (videoWriteOf t t') b))
  | videoWon {i : Nat} {snap : TaskStatus} {t : Task} {b : VideoBilling} :
      s.procs[i]? = some (.videoWriting snap t .transition b) →
      s.row.status = snap →
      Step env s (.videoWrite i false) ((s.win t ⟨i, t, b⟩).goto i (afterVideoWrite t b))
  | videoLost {i : Nat} {err : Bool} {snap : TaskStatus} {t : Task} {b : VideoBilling} :
      s.procs[i]? = some (.videoWriting snap t .transition b) →
      (err = true ∨ s.row.status ≠ snap) →
      Step env s (.videoWrite i err) (s.goto i (.polled t))
  | videoProgress {i : Nat} {err : Bool} {snap : TaskStatus} {t : Task} {b : VideoBilling} :
      s.procs[i]? = some (.videoWriting snap t .progress b) →
      Step env s (.videoWrite i err)
        ({ s with row := (t.updateWithStatus s.row snap err).1 }.goto i (afterVideoWrite t b))
  | videoUnchanged {i : Nat} {err : Bool} {snap : TaskStatus} {t : Task} {b : VideoBilling} :
      s.procs[i]? = some (.videoWriting snap t .unchanged b) →
      Step env s (.videoWrite i err) (s.goto i (afterVideoWrite t b))
  | videoBill {i : Nat} {io : BillingCalls} {t : Task} {b : VideoBilling} :
      s.procs[i]? = some (.videoBilling t b) →
      Step env s (.videoBill i io)
        ({ s with accounts := (runVideoBilling env t s.accounts io b).2 }.goto i
          (.polled (runVideoBilling env t s.accounts io b).1))
  | sunoSkip {i : Nat} {item : SunoDataResponse} {io : BillingCalls} {t : Task} :
      s.procs[i]? = some (.polled t) →
      Step env s (.sunoAnswer i item io) s
  | sunoFail {i : Nat} {item : SunoDataResponse} {io : BillingCalls} {t : Task} :
      s.procs[i]? = some (.polled t) →
      t.platform = .suno →
      taskNeedsUpdate t item = true →
      sunoFails t item = true →
      Step env s (.sunoAnswer i item io)
        ({ s with accounts := refundTaskQuota (sunoMerge t item) s.accounts io }.goto i
          (.sunoSaving (sunoUpdate t item) (t.quota ≠ 0 && !io.fundingErr)))
  | sunoGo {i : Nat} {item : SunoDataResponse} {io : BillingCalls} {t : Task} :
      s.procs[i]? = some (.polled t) →
      t.platform = .suno →
      sunoFails t item = false →
      Step env s (.sunoAnswer i item io) (s.goto i (.sunoSaving (sunoUpdate t item) false))
  | sunoSave {i : Nat} {err : Bool} {t : Task} {refunded : Bool} :
      s.procs[i]? = some (.sunoSaving t refunded) →
      Step env s (.sunoSave i err) ({ s with row := t.update s.row err }.goto i (.polled t))
  | fetchLoad : Step env s .fetchLoad (s.start (.fetched s.row))
  | fetchGo {i : Nat} {ti : TaskInfo} {t : Task} :
      s.procs[i]? = some (.fetched t) →
      Step env s (.fetchAnswer i ti)
        (s.goto i (.fetchWriting t.status (realtimeUpdate env t ti)))
  | fetchStop {i : Nat} {ti : TaskInfo} {t : Task} :
      s.procs[i]? = some (.fetched t) →
      Step env s (.fetchAnswer i ti) (s.goto i .finished)
  | fetchWrite {i : Nat} {err : Bool} {snap : TaskStatus} {t : Task} :
      s.procs[i]? = some (.fetchWriting snap t) →
      Step env s (.fetchWrite i err)
        ({ s with row := (t.updateWithStatus s.row snap err).1 }.goto i .finished)

/-- The sweep's write wins or leaves the row. -/
theorem sweepWrite_inv {env : PollEnv} {s : State} {i : Nat} {minutes now : Int} {err : Bool}
    {t : Task} (h : s.procs[i]? = some (.swept t)) :
    Step env s (.sweepWrite i minutes now err) (sweepWrite s i minutes now err t) := by
  simp only [sweepWrite, Task.updateWithStatus]
  cases err with
  | true => exact .sweepLost h (Or.inl rfl)
  | false =>
      by_cases hst : s.row.status = t.status
      · simpa [hst] using Step.sweepWon h hst
      · have hlost : Step env s (.sweepWrite i minutes now false) (s.goto i .finished) :=
          .sweepLost h (Or.inr hst)
        simpa [hst] using hlost

/-- The video poller's write wins, loses, or is no transition. -/
theorem videoWrite_inv {env : PollEnv} {s : State} {i : Nat} {err : Bool} {snap : TaskStatus}
    {t : Task} {b : VideoBilling} {w : VideoWrite}
    (h : s.procs[i]? = some (.videoWriting snap t w b)) :
    Step env s (.videoWrite i err) (videoWrite s i err snap t b w) := by
  cases w with
  | transition =>
      simp only [videoWrite, Task.updateWithStatus]
      cases err with
      | true => exact .videoLost h (Or.inl rfl)
      | false =>
          by_cases hst : s.row.status = snap
          · simpa [hst] using Step.videoWon h hst
          · have hlost : Step env s (.videoWrite i false) (s.goto i (.polled t)) :=
              .videoLost h (Or.inr hst)
            simpa [hst] using hlost
  | progress => exact .videoProgress h
  | unchanged => exact .videoUnchanged h

/-- Every step of the system is a transition of `Step`. -/
theorem step_inv {env : PollEnv} {s s' : State} {a : Act} (h : step env s a = some s') :
    Step env s a s' := by
  cases a with
  | sweepLoad cutoff =>
      simp only [step] at h
      split at h
      next hq => cases h; exact .sweepLoad hq
      next => cases h
  | sweepWrite i minutes now err =>
      simp only [step] at h
      split at h
      next t hp => cases h; exact sweepWrite_inv hp
      next => cases h
  | sweepBill i io =>
      simp only [step] at h
      split at h
      next t hp => cases h; exact .sweepBill hp
      next => cases h
  | pollLoad =>
      simp only [step] at h
      split at h
      next hq => cases h; exact .pollLoad hq
      next => cases h
  | nullTaskFail i err =>
      simp only [step] at h
      split at h
      next t hp =>
        split at h
        next => cases h; exact .nullTaskFail hp
        next => cases h
      next => cases h
  | missingChannelFail i failReason err =>
      simp only [step] at h
      split at h
      next t hp =>
        split at h
        next => cases h; exact .missingChannelFail hp
        next => cases h
      next => cases h
  | videoAnswer i now ans =>
      simp only [step] at h
      split at h
      next t hp =>
        split at h
        next hg =>
          split at h
          next t' hu => cases h; exact .videoStop hp hu
          next t' b hu => cases h; exact .videoGo hp hg.2.2 hu
        next => cases h
      next => cases h
  | videoWrite i err =>
      simp only [step] at h
      split at h
      next snap t w b hp => cases h; exact videoWrite_inv hp
      next => cases h
  | videoBill i io =>
      simp only [step] at h
      split at h
      next t b hp => cases h; exact .videoBill hp
      next => cases h
  | sunoAnswer i item io =>
      simp only [step] at h
      split at h
      next t hp =>
        split at h
        next hg =>
          cases h
          unfold sunoAnswer
          split
          next hn =>
            split
            next hf => exact .sunoFail hp hg.2 hn hf
            next hf => exact .sunoGo hp hg.2 (by simpa using hf)
          next => exact .sunoSkip hp
        next => cases h
      next => cases h
  | sunoSave i err =>
      simp only [step] at h
      split at h
      next t r hp => cases h; exact .sunoSave hp
      next => cases h
  | fetchLoad =>
      simp only [step] at h
      cases h
      exact .fetchLoad
  | fetchAnswer i ti =>
      simp only [step] at h
      split at h
      next t hp =>
        cases h
        unfold fetchAnswer
        split
        next => exact .fetchGo hp
        next => exact .fetchStop hp
      next => cases h
  | fetchWrite i err =>
      simp only [step] at h
      split at h
      next snap t hp => cases h; exact .fetchWrite hp
      next => cases h

/-! ## The wallet and the ledger

Every change of the wallet is booked, whatever the steps. -/

theorem runVideoBilling_booked {w : Int} {acc : Accounts} (env : PollEnv) (t : Task)
    (io : BillingCalls) (b : VideoBilling) (h : acc.Booked w) :
    (runVideoBilling env t acc io b).2.Booked w := by
  cases b with
  | keep => exact h
  | settle ti => exact settle_booked env t ti io h
  | refund => exact refundTaskQuota_booked t io h

theorem Step.booked {env : PollEnv} {w : Int} {s s' : State} {a : Act} (h : Step env s a s')
    (hb : s.accounts.Booked w) : s'.accounts.Booked w := by
  cases h with
  | sweepBill => exact refundTaskQuota_booked _ _ hb
  | videoBill => exact runVideoBilling_booked env _ _ _ hb
  | sunoFail => exact refundTaskQuota_booked _ _ hb
  | _ => exact hb

/-- In every reachable state the wallet has moved by exactly the refunds and
settlements of the ledger. -/
theorem booked_of_run {env : PollEnv} {s s' : State} {as : List Act} {w : Int}
    (hb : s.accounts.Booked w) (h : Run.exec (step env) s as = some s') :
    s'.accounts.Booked w :=
  Run.exec_always (I := fun s => s.accounts.Booked w)
    (fun _ _ _ hb hs => (step_inv hs).booked hb) hb h

/-! ## A system to run

One video task that cost 100 and has been polled once, an owner with 900 left,
and an installation without prices or billing hook. -/

def plainEnv : PollEnv where
  adjustBillingOnComplete := fun _ _ => 0
  getModelPricing := fun _ => none
  serverAddress := "http://localhost"

def queuedTask : Task where
  id := 1
  taskID := "task_1"
  platform := .video "kling"
  quota := 100
  status := .queued
  failReason := ""
  submitTime := 1800000000
  startTime := 0
  finishTime := 0
  progress := "20%"
  originModelName := "kling-v1"
  privateData := ⟨"up_1", "", 7, none⟩
  data := ""

def openAccounts : Accounts where
  wallet := 900
  tokenRemain := 900
  ledger := []

/-- An upstream body that reports this status. -/
def statusAnswer (status reason : String) : VideoAnswer :=
  .body ⟨status, reason, "", "", 0⟩ .noError status

def callsOk : BillingCalls := ⟨false, "sk-1", false⟩

end DazeApi.Tasks
