import DazeApi.Lib.Text
import DazeApi.Tasks.Billing

/-!
# What a poller computes for one task

The pure part of `service/task_polling.go` and of `tryRealtimeFetch`
(`relay/relay_task.go`): how the copy of a task in memory changes on an upstream
answer, which write follows, and which billing is due.  The reads and writes of
the persisted row are the steps of `DazeApi.Tasks.System`.

Every function returns the copy as it stands when the source function returns,
also where it returns early, since one round can hand the same copy to a poller
twice (two ids of the round that are equal, two Suno items for one id).
-/

namespace DazeApi.Tasks

/-! ## The timeout sweep -/

/-- Tasks submitted before this time are not refunded by the sweep. -/
def legacyTaskCutoff : Int := 1740182400

/-- `isLegacy` of `sweepTimedOutTasks`. -/
def Task.isLegacy (t : Task) : Bool := t.submitTime > 0 && t.submitTime < legacyTaskCutoff

def legacyReason : String := "任务超时（旧系统遗留任务，不进行退款，请联系管理员）"

def timeoutReason (minutes : Int) : String := "任务超时（" ++ toString minutes ++ "分钟）"

/-- The copy the sweep writes. -/
def sweepFail (minutes now : Int) (t : Task) : Task :=
  { t with status := .failure, progress := "100%", finishTime := now,
           failReason := if t.isLegacy then legacyReason else timeoutReason minutes }

/-- The sweep refunds a task it has won unless the task is legacy or free. -/
def sweepRefunds (t : Task) : Bool := !t.isLegacy && t.quota ≠ 0

/-! ## The video poller -/

/-- How an upstream body reads as `dto.GeneralErrorResponse`: it does not decode,
it holds no OpenAI error, or it holds one with this code. -/
inductive ErrorBody where
  | undecodable
  | noError
  | openaiError (code : String)
deriving DecidableEq, Repr

/-- The answer to one `FetchTask`: an error before the copy is touched, or a body
with the result parsed from it (in the new API format or by the adaptor), how it
reads as an error, and the text `redactVideoResponseBody` makes of it. -/
inductive VideoAnswer where
  | failed
  | body (taskResult : TaskInfo) (errorBody : ErrorBody) (redacted : String)
deriving DecidableEq, Repr

/-- `relaycommon.FailTaskInfo`. -/
def failTaskInfo (reason : String) : TaskInfo where
  status := "FAILURE"
  reason := reason
  url := ""
  progress := ""
  totalTokens := 0

/-- The result the poller goes on with; `none` on a rate limit error, which
leaves the task for the next round. -/
def videoTaskResult (ti : TaskInfo) : ErrorBody → Option TaskInfo
  | .undecodable => some ti
  | .noError =>
      if ti.status = "" then some (failTaskInfo "upstream returned unrecognized message")
      else some ti
  | .openaiError code =>
      if ti.status = "" then
        if code = "429" then none else some (failTaskInfo "upstream returned error")
      else some ti

/-- The billing an upstream answer calls for. -/
inductive VideoBilling where
  | keep
  | settle (taskResult : TaskInfo)
  | refund
deriving DecidableEq, Repr

/-- `taskcommon.BuildProxyURL`. -/
def buildProxyURL (env : PollEnv) (taskID : String) : String :=
  env.serverAddress ++ "/v1/videos/" ++ taskID ++ "/content"

/-- `if taskResult.Progress != ""` at the end of the switch. -/
def Task.withProgress (t : Task) (progress : String) : Task :=
  if progress ≠ "" then { t with progress := progress } else t

/-- The URL a successful task keeps. -/
def videoResultURL (env : PollEnv) (t : Task) (url : String) : String :=
  if Text.hasPrefix url "data:" then buildProxyURL env t.taskID
  else if url ≠ "" then url
  else buildProxyURL env t.taskID

/-- The status switch of `updateVideoSingleTask`: the copy, and the billing due,
or `none` for a status the switch does not know. -/
def videoSwitch (env : PollEnv) (now : Int) (copy : Task) (ti : TaskInfo) :
    Task × Option VideoBilling :=
  let t := { copy with status := TaskStatus.ofText ti.status }
  match TaskStatus.ofText ti.status with
  | .submitted => ({ t with progress := "10%" }.withProgress ti.progress, some .keep)
  | .queued => ({ t with progress := "20%" }.withProgress ti.progress, some .keep)
  | .inProgress =>
      ({ t with progress := "30%",
                startTime := if t.startTime = 0 then now else t.startTime }.withProgress ti.progress,
        some .keep)
  | .success =>
      ({ t with progress := "100%",
                finishTime := if t.finishTime = 0 then now else t.finishTime,
                privateData := { t.privateData with
                  resultURL := videoResultURL env t ti.url } }.withProgress ti.progress,
        some (.settle ti))
  | .failure =>
      ({ t with progress := "100%",
                finishTime := if t.finishTime = 0 then now else t.finishTime,
                failReason := ti.reason },
        some (if t.quota ≠ 0 then .refund else .keep))
  | _ => (t, none)

/-- `updateVideoSingleTask` up to its write: the copy, and the billing due when
the function did not return early. -/
def videoUpdate (env : PollEnv) (now : Int) (copy : Task) : VideoAnswer → Task × Option VideoBilling
  | .failed => (copy, none)
  | .body ti eb redacted =>
      let t := { copy with data := redacted }
      match videoTaskResult ti eb with
      | none => (t, none)
      | some ti' => videoSwitch env now t ti'

/-- Which of its three writes `updateVideoSingleTask` makes. -/
inductive VideoWrite where
  /-- The guarded update whose result decides the billing. -/
  | transition
  /-- The guarded update whose result is ignored. -/
  | progress
  | unchanged
deriving DecidableEq, Repr

/-- The choice of the write, from the copies before and after the answer. -/
def videoWriteOf (before after : Task) : VideoWrite :=
  if after.status.isDone && before.status ≠ after.status then .transition
  else if before.snapshot ≠ after.snapshot then .progress
  else .unchanged

/-! ## The Suno poller -/

/-- `dto.SunoDataResponse` of the task. -/
structure SunoDataResponse where
  status : String
  failReason : String
  submitTime : Int
  startTime : Int
  finishTime : Int
  data : String
deriving DecidableEq, Repr

/-- The bytes of a text. -/
def textBytes (s : String) : List UInt8 := s.toByteArray.data.toList

/-- `taskNeedsUpdate`.  The two data texts are compared after their bytes have
been sorted, that is up to a permutation. -/
def taskNeedsUpdate (oldTask : Task) (newTask : SunoDataResponse) : Bool :=
  oldTask.submitTime ≠ newTask.submitTime || oldTask.startTime ≠ newTask.startTime ||
  oldTask.finishTime ≠ newTask.finishTime || oldTask.status.text ≠ newTask.status ||
  oldTask.failReason ≠ newTask.failReason ||
  (oldTask.status.isDone && oldTask.progress ≠ "100%") ||
  !(textBytes oldTask.data).isPerm (textBytes newTask.data)

/-- The copy with the item's non-empty fields. -/
def sunoMerge (t : Task) (item : SunoDataResponse) : Task :=
  { t with
    status := if item.status ≠ "" then TaskStatus.ofText item.status else t.status
    failReason := if item.failReason ≠ "" then item.failReason else t.failReason
    submitTime := if item.submitTime ≠ 0 then item.submitTime else t.submitTime
    startTime := if item.startTime ≠ 0 then item.startTime else t.startTime
    finishTime := if item.finishTime ≠ 0 then item.finishTime else t.finishTime }

/-- The item makes `updateSunoTasks` call `RefundTaskQuota`. -/
def sunoFails (t : Task) (item : SunoDataResponse) : Bool :=
  item.failReason ≠ "" || (sunoMerge t item).status = .failure

/-- The copy `updateSunoTasks` saves. -/
def sunoUpdate (t : Task) (item : SunoDataResponse) : Task :=
  { sunoMerge t item with
    progress := if sunoFails t item || item.status = "SUCCESS" then "100%" else t.progress
    data := item.data }

/-! ## The real-time fetch -/

/-- `tryRealtimeFetch` up to its write.  An error of the channel lookup, the
fetch or the parse returns before the copy is touched. -/
def realtimeUpdate (env : PollEnv) (copy : Task) (ti : TaskInfo) : Task :=
  let t := { copy with
    status := if ti.status ≠ "" then TaskStatus.ofText ti.status else copy.status
    progress := if ti.progress ≠ "" then ti.progress else copy.progress }
  if Text.hasPrefix ti.url "data:" then t
  else if ti.url ≠ "" then { t with privateData := { t.privateData with resultURL := ti.url } }
  else if t.status = .success then
    { t with privateData := { t.privateData with resultURL := buildProxyURL env t.taskID } }
  else t

/-! ## What the updates leave alone -/

@[simp] theorem Task.withProgress_quota (t : Task) (p : String) :
    (t.withProgress p).quota = t.quota := by
  unfold Task.withProgress
  split <;> rfl

@[simp] theorem Task.withProgress_status (t : Task) (p : String) :
    (t.withProgress p).status = t.status := by
  unfold Task.withProgress
  split <;> rfl

@[simp] theorem Task.withProgress_platform (t : Task) (p : String) :
    (t.withProgress p).platform = t.platform := by
  unfold Task.withProgress
  split <;> rfl

/-- What the status switch decides: the billing follows the status it stores,
and neither the quota nor the platform changes. -/
theorem videoSwitch_spec (env : PollEnv) (now : Int) (copy : Task) (ti : TaskInfo)
    {t : Task} {b : VideoBilling} (h : videoSwitch env now copy ti = (t, some b)) :
    t.quota = copy.quota ∧ t.platform = copy.platform ∧
      ((t.status.isDone = false ∧ b = .keep) ∨
       (t.status = .success ∧ b = .settle ti) ∨
       (t.status = .failure ∧ b = if copy.quota ≠ 0 then .refund else .keep)) := by
  unfold videoSwitch at h
  simp only at h
  split at h <;> cases h <;> rename_i hst <;> simp [hst, TaskStatus.isDone]

/-- The status switch keeps the quota, the identity upstream and the token. -/
theorem videoSwitch_kept (env : PollEnv) (now : Int) (copy : Task) (ti : TaskInfo) :
    (videoSwitch env now copy ti).1.quota = copy.quota ∧
      (videoSwitch env now copy ti).1.getUpstreamTaskID = copy.getUpstreamTaskID ∧
      (videoSwitch env now copy ti).1.privateData.tokenId = copy.privateData.tokenId := by
  unfold videoSwitch Task.withProgress
  simp only
  split <;> (try split) <;> exact ⟨rfl, rfl, rfl⟩

/-- What an answer decides, when the poller goes on to a write. -/
theorem videoUpdate_spec {env : PollEnv} {now : Int} {copy : Task} {ans : VideoAnswer}
    {t : Task} {b : VideoBilling} (h : videoUpdate env now copy ans = (t, some b)) :
    t.quota = copy.quota ∧ t.platform = copy.platform ∧
      ((t.status.isDone = false ∧ b = .keep) ∨
       (t.status = .success ∧ ∃ ti, b = .settle ti) ∨
       (t.status = .failure ∧ b = if copy.quota ≠ 0 then .refund else .keep)) := by
  cases ans with
  | failed => simp [videoUpdate] at h
  | body ti eb redacted =>
      simp only [videoUpdate] at h
      split at h
      next => simp at h
      next ti' _ =>
        obtain ⟨hq, hp, hb⟩ := videoSwitch_spec env now _ ti' h
        refine ⟨hq, hp, ?_⟩
        rcases hb with hb | ⟨hs, hb⟩ | hb
        · exact Or.inl hb
        · exact Or.inr (Or.inl ⟨hs, ti', hb⟩)
        · exact Or.inr (Or.inr hb)

/-- No answer changes the quota of the copy, its identity upstream or its token. -/
theorem videoUpdate_kept (env : PollEnv) (now : Int) (copy : Task) (ans : VideoAnswer) :
    (videoUpdate env now copy ans).1.quota = copy.quota ∧
      (videoUpdate env now copy ans).1.getUpstreamTaskID = copy.getUpstreamTaskID ∧
      (videoUpdate env now copy ans).1.privateData.tokenId = copy.privateData.tokenId := by
  cases ans with
  | failed => exact ⟨rfl, rfl, rfl⟩
  | body ti eb redacted =>
      simp only [videoUpdate]
      split
      next => exact ⟨rfl, rfl, rfl⟩
      next ti' _ => exact videoSwitch_kept env now _ ti'

/-- From a copy that is not done, a done outcome is written by the update whose
result decides the billing. -/
theorem videoWriteOf_transition {before after : Task} (hb : before.status.isDone = false)
    (ha : after.status.isDone = true) : videoWriteOf before after = .transition := by
  unfold videoWriteOf
  have hne : before.status ≠ after.status := by
    intro h
    rw [h, ha] at hb
    cases hb
  simp [ha, hne]

/-- An outcome that is not done is written as progress. -/
theorem videoWriteOf_ne_transition {before after : Task} (ha : after.status.isDone = false) :
    videoWriteOf before after ≠ .transition := by
  unfold videoWriteOf
  simp only [ha, Bool.false_and, Bool.false_eq_true, if_false]
  split <;> simp

@[simp] theorem sunoUpdate_quota (t : Task) (item : SunoDataResponse) :
    (sunoUpdate t item).quota = t.quota := rfl

@[simp] theorem sunoUpdate_status (t : Task) (item : SunoDataResponse) :
    (sunoUpdate t item).status = (sunoMerge t item).status := rfl

/-- A Suno item that does not fail the task does not store a failure. -/
theorem sunoUpdate_status_ne_failure {t : Task} {item : SunoDataResponse}
    (h : sunoFails t item = false) : (sunoUpdate t item).status ≠ .failure := by
  simp only [sunoFails, Bool.or_eq_false_iff, decide_eq_false_iff_not] at h
  exact h.2

@[simp] theorem realtimeUpdate_quota (env : PollEnv) (copy : Task) (ti : TaskInfo) :
    (realtimeUpdate env copy ti).quota = copy.quota := by
  unfold realtimeUpdate
  simp only
  split_ifs <;> rfl

end DazeApi.Tasks
