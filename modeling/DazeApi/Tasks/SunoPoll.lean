import DazeApi.Lib.Run
import DazeApi.Tasks.Polling

/-!
# The Suno poller

`updateSunoTasks` of `service/task_polling.go`: one request for the unfinished tasks
of a channel, and one pass over the items of the answer.  `taskM` holds the tasks of
all channels.  An item with an unknown id, and a channel without a base URL, are
dereferenced as nil pointers, which ends the process: `none` is that crash.

The effects are what a call does outside its memory, each with the upstream id it was
done for.
-/

namespace DazeApi.Tasks.SunoPoll

/-! ## The call -/

/-- `map[string]*model.Task`, by upstream id. -/
abbrev TaskMap := String → Option Task

/-- An item of the answer: `dto.SunoDataResponse` with its task id. -/
structure SunoItem where
  taskID : String
  response : SunoDataResponse
deriving DecidableEq, Repr

/-- What a call does to the store and to the accounts. -/
inductive Effect where
  /-- `RefundTaskQuota`. -/
  | refund (t : Task)
  /-- `Task.Update`. -/
  | save (t : Task)
  /-- The failure of a task whose channel is missing, in `TaskBulkUpdateByID`. -/
  | bulkFail (id : Int) (failReason : String)
deriving DecidableEq, Repr

/-- The tasks in memory and the effects so far. -/
structure State where
  taskM : TaskMap
  effects : List (String × Effect)

/-- The fields of `model.Channel` that the call reads. -/
structure Channel where
  baseURL : Option String
  key : String
deriving DecidableEq, Repr

/-- The upstream's answer. -/
inductive Answer where
  | fetchErr (err : String)
  | badStatus (statusCode : Int)
  | readErr (err : String)
  | undecodable (err : String)
  | decoded (code : String) (items : List SunoItem)
deriving DecidableEq, Repr

/-- What the environment answers to one call. -/
structure Calls where
  /-- `CacheGetChannel`. -/
  channel : Except String Channel
  /-- The error of `TaskBulkUpdateByID`. -/
  bulkErr : Option String
  adaptorFound : Bool
  answer : Answer

/-- `dto.TaskSuccessCode`. -/
def taskSuccessCode : String := "success"

/-- The reason of a missing channel. -/
def missingChannelReason (channelId : Int) : String :=
  "获取渠道信息失败，请联系管理员，渠道ID：" ++ toString channelId

/-- What an item that needs an update does: the refund sees the merged task, before its
data is replaced. -/
def itemEffects (t : Task) (item : SunoItem) : List (String × Effect) :=
  (if sunoFails t item.response then
    [(item.taskID, .refund { sunoMerge t item.response with progress := "100%" })]
   else []) ++ [(item.taskID, .save (sunoUpdate t item.response))]

/-- One pass of the loop over the items. -/
def applyItem (s : State) (item : SunoItem) : Option State :=
  match s.taskM item.taskID with
  -- `taskNeedsUpdate` dereferences the nil task
  | none => none
  | some t =>
      if taskNeedsUpdate t item.response then
        some ⟨Function.update s.taskM item.taskID (some (sunoUpdate t item.response)),
          s.effects ++ itemEffects t item⟩
      else some s

/-- The effects of a missing channel on the tasks asked for. -/
def bulkFailEffects (channelId : Int) (taskIds : List String) (taskM : TaskMap) :
    List (String × Effect) :=
  taskIds.filterMap fun id =>
    (taskM id).map fun t => (id, .bulkFail t.id (missingChannelReason channelId))

/-- The rest of the call, once the base URL has been read. -/
def handleAnswer (taskM : TaskMap) : Answer → Option (State × Option String)
  | .fetchErr e => some (⟨taskM, []⟩, some e)
  | .badStatus code => some (⟨taskM, []⟩, some ("Get Task status code: " ++ toString code))
  | .readErr e => some (⟨taskM, []⟩, some e)
  | .undecodable e => some (⟨taskM, []⟩, some e)
  | .decoded code items =>
      if code ≠ taskSuccessCode then some (⟨taskM, []⟩, none)
      else (Run.exec applyItem ⟨taskM, []⟩ items).map fun s => (s, none)

/-- `updateSunoTasks`: the tasks and effects with the error returned, or a crash. -/
def updateSunoTasks (channelId : Int) (taskIds : List String) (taskM : TaskMap) (io : Calls) :
    Option (State × Option String) :=
  if taskIds.length = 0 then some (⟨taskM, []⟩, none)
  else
    match io.channel with
    | .error _ =>
        some (⟨taskM, if io.bulkErr.isNone then bulkFailEffects channelId taskIds taskM else []⟩,
          io.bulkErr)
    | .ok ch =>
        if !io.adaptorFound then some (⟨taskM, []⟩, some "adaptor not found")
        else
          match ch.baseURL with
          | none => none
          | some _ => handleAnswer taskM io.answer

/-! ## What a poll should do -/

/-- The call changed nothing but the tasks it asked for. -/
def OnlyAsked (taskIds : List String) (taskM : TaskMap) (s : State) : Prop :=
  (∀ id, id ∉ taskIds → s.taskM id = taskM id) ∧ ∀ e ∈ s.effects, e.1 ∈ taskIds

/-- The fields that the change test compares all equal the stored ones. -/
structure SameFields (t : Task) (item : SunoDataResponse) : Prop where
  submitTime : t.submitTime = item.submitTime
  startTime : t.startTime = item.startTime
  finishTime : t.finishTime = item.finishTime
  status : t.status.text = item.status
  failReason : t.failReason = item.failReason

/-- The call returns, changes only what it asked for, and the change test overlooks
nothing on a pair of a task and an item. -/
def PollSafe (channelId : Int) (taskIds : List String) (taskM : TaskMap) (io : Calls) (t : Task)
    (item : SunoDataResponse) : Prop :=
  (∃ s err, updateSunoTasks channelId taskIds taskM io = some (s, err) ∧
    OnlyAsked taskIds taskM s) ∧
  (taskNeedsUpdate t item = false → SameFields t item ∧ t.data = item.data)

/-! ## When it does -/

/-- The items the call goes on to handle. -/
def handledItems (taskIds : List String) (io : Calls) : List SunoItem :=
  match io.channel, io.answer with
  | .ok _, .decoded code items =>
      if taskIds.length ≠ 0 ∧ io.adaptorFound = true ∧ code = taskSuccessCode then items else []
  | _, _ => []

/-- The call dereferences the base URL. -/
def readsBaseURL (taskIds : List String) (io : Calls) : Prop :=
  taskIds.length ≠ 0 ∧ io.adaptorFound = true ∧ ∃ ch, io.channel = .ok ch

/-- The base URL is there if it is read, every handled item names a task, and one the
call did not ask for says nothing new about it. -/
structure ItemsKnown (taskIds : List String) (taskM : TaskMap) (io : Calls) : Prop where
  baseURL : readsBaseURL taskIds io → ∀ ch, io.channel = .ok ch → ch.baseURL.isSome = true
  known : ∀ item ∈ handledItems taskIds io, ∃ t, taskM item.taskID = some t ∧
    (item.taskID ∈ taskIds ∨ taskNeedsUpdate t item.response = false)

/-- The item's data is not a mere rearrangement of the bytes of the stored data. -/
def DataTold (t : Task) (item : SunoDataResponse) : Prop :=
  t.data = item.data ∨ ¬ (textBytes t.data).Perm (textBytes item.data) ∨ ¬ SameFields t item ∨
    (t.status.isDone = true ∧ t.progress ≠ "100%")

theorem taskNeedsUpdate_eq_false_iff (t : Task) (item : SunoDataResponse) :
    taskNeedsUpdate t item = false ↔
      SameFields t item ∧ (t.status.isDone = true → t.progress = "100%") ∧
        (textBytes t.data).Perm (textBytes item.data) := by
  simp only [taskNeedsUpdate, Bool.or_eq_false_iff, decide_eq_false_iff_not, not_not,
    Bool.and_eq_false_imp, Bool.not_eq_false', List.isPerm_iff]
  constructor
  · rintro ⟨⟨⟨⟨⟨⟨h1, h2⟩, h3⟩, h4⟩, h5⟩, h6⟩, h7⟩
    exact ⟨⟨h1, h2, h3, h4, h5⟩, h6, h7⟩
  · rintro ⟨⟨h1, h2, h3, h4, h5⟩, h6, h7⟩
    exact ⟨⟨⟨⟨⟨⟨h1, h2⟩, h3⟩, h4⟩, h5⟩, h6⟩, h7⟩

/-- The change test overlooks nothing exactly if the data was told apart. -/
theorem told_iff (t : Task) (item : SunoDataResponse) :
    (taskNeedsUpdate t item = false → SameFields t item ∧ t.data = item.data) ↔
      DataTold t item := by
  rw [taskNeedsUpdate_eq_false_iff, DataTold]
  constructor
  · intro h
    by_contra hcon
    simp only [not_or, not_not] at hcon
    obtain ⟨hdata, hperm, hsame, hprogress⟩ := hcon
    exact hdata (h ⟨hsame, fun hdone => not_not.1 fun hp => hprogress ⟨hdone, hp⟩, hperm⟩).2
  · rintro h ⟨hsame, hprogress, hperm⟩
    rcases h with h | h | h | ⟨hdone, hp⟩
    · exact ⟨hsame, h⟩
    · exact absurd hperm h
    · exact absurd hsame h
    · exact absurd (hprogress hdone) hp

/-! ## The loop -/

section

variable {taskIds : List String} {taskM : TaskMap}

/-- While only tasks asked for have changed. -/
theorem applyItem_onlyAsked {s s' : State} {item : SunoItem} (h : OnlyAsked taskIds taskM s)
    (hitem : ∀ t, taskM item.taskID = some t →
      item.taskID ∈ taskIds ∨ taskNeedsUpdate t item.response = false)
    (hs : applyItem s item = some s') : OnlyAsked taskIds taskM s' := by
  unfold applyItem at hs
  split at hs
  next => cases hs
  next t ht =>
    by_cases hasked : item.taskID ∈ taskIds
    · split at hs
      next =>
        cases hs
        refine ⟨fun id hid => ?_, fun e he => ?_⟩
        · have hne : id ≠ item.taskID := by
            rintro rfl
            exact hid hasked
          simp only [Function.update_of_ne hne]
          exact h.1 id hid
        · rcases List.mem_append.1 he with he | he
          · exact h.2 e he
          · unfold itemEffects at he
            rcases List.mem_append.1 he with he | he
            · split at he
              next => rw [List.mem_singleton.1 he]; exact hasked
              next => cases he
            · rw [List.mem_singleton.1 he]
              exact hasked
      next => cases hs; exact h
    · -- the task of another channel is still the one of the map
      have hquiet := (hitem t (by rw [← h.1 _ hasked, ht])).resolve_left hasked
      rw [hquiet, if_neg Bool.false_ne_true] at hs
      cases hs
      exact h

/-- An item never removes a task from the map. -/
theorem applyItem_isSome {s s' : State} {item : SunoItem} (hs : applyItem s item = some s')
    (id : String) : (s'.taskM id).isSome = (s.taskM id).isSome := by
  unfold applyItem at hs
  split at hs
  next => cases hs
  next t ht =>
    split at hs
    next =>
      cases hs
      by_cases hid : id = item.taskID
      · subst hid
        simp [ht]
      · simp [Function.update_of_ne hid]
    next => cases hs; rfl

/-- The loop goes through, changing only what was asked for, if every item is known. -/
theorem exec_onlyAsked : ∀ (items : List SunoItem) (s : State), OnlyAsked taskIds taskM s →
    (∀ id, (s.taskM id).isSome = (taskM id).isSome) →
    (∀ item ∈ items, ∃ t, taskM item.taskID = some t ∧
      (item.taskID ∈ taskIds ∨ taskNeedsUpdate t item.response = false)) →
    ∃ s', Run.exec applyItem s items = some s' ∧ OnlyAsked taskIds taskM s'
  | [], s, h, _, _ => ⟨s, rfl, h⟩
  | item :: items, s, h, hkeys, hitems => by
      obtain ⟨t, ht, hfine⟩ := hitems item (by simp)
      have hsome : (s.taskM item.taskID).isSome = true := by rw [hkeys, ht]; rfl
      obtain ⟨u, hu⟩ := Option.isSome_iff_exists.1 hsome
      obtain ⟨m, hm⟩ : ∃ m, applyItem s item = some m := by
        unfold applyItem
        rw [hu]
        dsimp only
        split
        next => exact ⟨_, rfl⟩
        next => exact ⟨_, rfl⟩
      have hone : OnlyAsked taskIds taskM m := by
        refine applyItem_onlyAsked h (fun t' ht' => ?_) hm
        cases ht.symm.trans ht'
        exact hfine
      obtain ⟨s', hs', hasked⟩ := exec_onlyAsked items m hone
        (fun id => (applyItem_isSome hm id).trans (hkeys id))
        fun it hit => hitems it (List.mem_cons_of_mem item hit)
      exact ⟨s', Run.exec_cons_eq_some.2 ⟨m, hm, hs'⟩, hasked⟩

/-- The effects of a loop are kept. -/
theorem exec_effects {items : List SunoItem} {s s' : State}
    (hs : Run.exec applyItem s items = some s') : ∀ e ∈ s.effects, e ∈ s'.effects := by
  refine Run.exec_always (I := fun m => ∀ e ∈ s.effects, e ∈ m.effects)
    (fun m a m' hm hstep => ?_) (fun e he => he) hs
  intro e he
  unfold applyItem at hstep
  split at hstep
  next => cases hstep
  next =>
    split at hstep
    next => cases hstep; exact List.mem_append_left _ (hm e he)
    next => cases hstep; exact hm e he

/-- If the loop changed only what was asked for, every item was known. -/
theorem known_of_exec : ∀ (items : List SunoItem) (s s' : State), OnlyAsked taskIds taskM s →
    (∀ id, (s.taskM id).isSome = (taskM id).isSome) →
    Run.exec applyItem s items = some s' → OnlyAsked taskIds taskM s' →
    ∀ item ∈ items, ∃ t, taskM item.taskID = some t ∧
      (item.taskID ∈ taskIds ∨ taskNeedsUpdate t item.response = false)
  | [], _, _, _, _, _, _, item, hitem => by cases hitem
  | first :: items, s, s', h, hkeys, hs, hs', item, hitem => by
      obtain ⟨m, hm, hms⟩ := Run.exec_cons_eq_some.1 hs
      have hfirst : ∃ t, taskM first.taskID = some t ∧
          (first.taskID ∈ taskIds ∨ taskNeedsUpdate t first.response = false) := by
        have hm' := hm
        unfold applyItem at hm'
        split at hm'
        next => cases hm'
        next u hu =>
          have hsome : (taskM first.taskID).isSome = true := by rw [← hkeys, hu]; rfl
          obtain ⟨t, ht⟩ := Option.isSome_iff_exists.1 hsome
          refine ⟨t, ht, ?_⟩
          by_cases hasked : first.taskID ∈ taskIds
          · exact Or.inl hasked
          · -- an update of a task not asked for would leave its save among the effects
            right
            rw [h.1 _ hasked, ht] at hu
            cases hu
            by_contra hneeds
            rw [if_pos (by simpa using hneeds)] at hm'
            cases hm'
            refine hasked (hs'.2 (first.taskID, .save (sunoUpdate u first.response))
              (exec_effects hms _ ?_))
            simp [itemEffects]
      rcases List.mem_cons.1 hitem with rfl | hitem
      · exact hfirst
      · have hone : OnlyAsked taskIds taskM m := by
          obtain ⟨t, ht, hfine⟩ := hfirst
          refine applyItem_onlyAsked h (fun t' ht' => ?_) hm
          cases ht.symm.trans ht'
          exact hfine
        exact known_of_exec items m s' hone
          (fun id => (applyItem_isSome hm id).trans (hkeys id)) hms hs' item hitem

end

/-! ## The call as a whole -/

theorem bulkFailEffects_asked {channelId : Int} {taskIds : List String} {taskM : TaskMap} :
    ∀ e ∈ bulkFailEffects channelId taskIds taskM, e.1 ∈ taskIds := by
  intro e he
  obtain ⟨id, hid, he⟩ := List.mem_filterMap.1 he
  obtain ⟨t, -, rfl⟩ := Option.map_eq_some_iff.1 he
  exact hid

theorem onlyAsked_unchanged (taskIds : List String) (taskM : TaskMap) :
    OnlyAsked taskIds taskM ⟨taskM, []⟩ :=
  ⟨fun _ _ => rfl, fun _ he => by cases he⟩

/-- A handled answer returns and changes only what was asked for exactly if its items
are known. -/
theorem handleAnswer_iff (taskIds : List String) (taskM : TaskMap) (answer : Answer) :
    (∃ s err, handleAnswer taskM answer = some (s, err) ∧ OnlyAsked taskIds taskM s) ↔
      ∀ code items, answer = .decoded code items → code = taskSuccessCode →
        ∀ item ∈ items, ∃ t, taskM item.taskID = some t ∧
          (item.taskID ∈ taskIds ∨ taskNeedsUpdate t item.response = false) := by
  cases answer with
  | decoded code items =>
      by_cases hcode : code = taskSuccessCode
      · simp only [handleAnswer, hcode, ne_eq, not_true_eq_false, if_false]
        constructor
        · rintro ⟨s, err, hs, hasked⟩ code' items' heq -
          cases heq
          obtain ⟨s', hs', heq⟩ := Option.map_eq_some_iff.1 hs
          cases heq
          exact known_of_exec items _ _ (onlyAsked_unchanged taskIds taskM) (fun _ => rfl) hs' hasked
        · intro h
          obtain ⟨s', hs', hasked⟩ := exec_onlyAsked items _ (onlyAsked_unchanged taskIds taskM)
            (fun _ => rfl) (h taskSuccessCode items rfl rfl)
          exact ⟨s', none, by rw [hs']; rfl, hasked⟩
      · simp only [handleAnswer, ne_eq, hcode, not_false_eq_true, if_true]
        refine ⟨fun _ code' items' heq h => ?_, fun _ =>
          ⟨_, _, rfl, onlyAsked_unchanged taskIds taskM⟩⟩
        cases heq
        exact absurd h hcode
  | fetchErr | badStatus | readErr | undecodable =>
      refine ⟨fun _ _ _ heq => ?_, fun _ => ⟨_, _, rfl, onlyAsked_unchanged taskIds taskM⟩⟩
      cases heq

section

variable {taskIds : List String} {taskM : TaskMap} {io : Calls} {item : SunoItem}

/-- A call that does not get as far as the base URL handles no item. -/
theorem handledItems_of_not_reads (h : ¬ readsBaseURL taskIds io) : handledItems taskIds io = [] := by
  unfold handledItems
  split
  next ch code items hch _ => exact if_neg fun hread => h ⟨hread.1, hread.2.1, ch, hch⟩
  next => rfl

theorem itemsKnown_of_not_reads (h : ¬ readsBaseURL taskIds io) : ItemsKnown taskIds taskM io := by
  refine ⟨fun hread => absurd hread h, fun item hitem => ?_⟩
  rw [handledItems_of_not_reads h] at hitem
  cases hitem

/-- Such a call returns, and has done at most the bulk update. -/
theorem updateSunoTasks_of_not_reads (channelId : Int) (h : ¬ readsBaseURL taskIds io) :
    ∃ s err, updateSunoTasks channelId taskIds taskM io = some (s, err) ∧
      OnlyAsked taskIds taskM s := by
  by_cases hids : taskIds.length = 0
  · exact ⟨_, _, by rw [updateSunoTasks, if_pos hids], onlyAsked_unchanged taskIds taskM⟩
  · cases hch : io.channel with
    | error e =>
        refine ⟨_, _, by rw [updateSunoTasks, if_neg hids, hch], fun _ _ => rfl, fun e he => ?_⟩
        dsimp only at he
        split at he
        next => exact bulkFailEffects_asked e he
        next => cases he
    | ok ch =>
        have hadaptor : io.adaptorFound ≠ true := fun hfound => h ⟨hids, hfound, ch, hch⟩
        exact ⟨⟨taskM, []⟩, some "adaptor not found", by simp [updateSunoTasks, hids, hch, hadaptor],
          onlyAsked_unchanged taskIds taskM⟩

/-- A call that gets as far as the base URL crashes without one. -/
theorem updateSunoTasks_of_noBaseURL (channelId : Int) (h : readsBaseURL taskIds io) {ch : Channel}
    (hch : io.channel = .ok ch) (hbase : ch.baseURL = none) :
    updateSunoTasks channelId taskIds taskM io = none := by
  simp [updateSunoTasks, h.1, h.2.1, hch, hbase]

theorem updateSunoTasks_of_baseURL (channelId : Int) (h : readsBaseURL taskIds io) {ch : Channel}
    {url : String} (hch : io.channel = .ok ch) (hbase : ch.baseURL = some url) :
    updateSunoTasks channelId taskIds taskM io = handleAnswer taskM io.answer := by
  simp [updateSunoTasks, h.1, h.2.1, hch, hbase]

theorem mem_handledItems_of_reads (h : readsBaseURL taskIds io) :
    item ∈ handledItems taskIds io ↔
      ∃ code items, io.answer = .decoded code items ∧ code = taskSuccessCode ∧ item ∈ items := by
  obtain ⟨hids, hadaptor, ch, hch⟩ := h
  unfold handledItems
  rw [hch]
  cases hanswer : io.answer with
  | decoded code items =>
      dsimp only
      by_cases hcode : code = taskSuccessCode
      · rw [if_pos ⟨hids, hadaptor, hcode⟩]
        refine ⟨fun hitem => ⟨code, items, rfl, hcode, hitem⟩, ?_⟩
        rintro ⟨code', items', heq, -, hitem⟩
        cases heq
        exact hitem
      · rw [if_neg fun hall => hcode hall.2.2]
        constructor
        · intro hitem
          cases hitem
        · rintro ⟨code', items', heq, hcode', -⟩
          cases heq
          exact absurd hcode' hcode
  | fetchErr | badStatus | readErr | undecodable =>
      constructor
      · intro hitem
        cases hitem
      · rintro ⟨code, items, heq, -⟩
        cases heq

end

/-- For every channel row, every answer and every pair of a task and an item. -/
theorem pollSafe_iff (channelId : Int) (taskIds : List String) (taskM : TaskMap) (io : Calls)
    (t : Task) (item : SunoDataResponse) :
    PollSafe channelId taskIds taskM io t item ↔
      ItemsKnown taskIds taskM io ∧ DataTold t item := by
  unfold PollSafe
  rw [told_iff]
  refine and_congr_left fun _ => ?_
  by_cases hread : readsBaseURL taskIds io
  · obtain ⟨-, -, ch, hch⟩ := id hread
    cases hbase : ch.baseURL with
    | none =>
        rw [updateSunoTasks_of_noBaseURL channelId hread hch hbase]
        refine ⟨fun ⟨_, _, h, _⟩ => by (cases h), fun h => ?_⟩
        have hsome := h.baseURL hread ch hch
        rw [hbase] at hsome
        cases hsome
    | some url =>
        rw [updateSunoTasks_of_baseURL channelId hread hch hbase, handleAnswer_iff]
        constructor
        · intro h
          refine ⟨fun _ ch' hch' => ?_, fun item hitem => ?_⟩
          · cases hch.symm.trans hch'
            rw [hbase]
            rfl
          · obtain ⟨code, items, heq, hcode, hin⟩ := (mem_handledItems_of_reads hread).1 hitem
            exact h code items heq hcode item hin
        · intro h code items heq hcode item hin
          exact h.known item ((mem_handledItems_of_reads hread).2 ⟨code, items, heq, hcode, hin⟩)
  · exact iff_of_true (updateSunoTasks_of_not_reads channelId hread)
      (itemsKnown_of_not_reads hread)

/-- A Suno task in progress. -/
def sunoTask : Task where
  id := 1
  taskID := "task_1"
  platform := .suno
  quota := 100
  status := .inProgress
  failReason := ""
  submitTime := 1
  startTime := 2
  finishTime := 0
  progress := "30%"
  originModelName := "suno_music"
  privateData := ⟨"up_1", "", 7, none⟩
  data := "null"

/-- The answer for the task as it stands. -/
def sameAnswer : SunoDataResponse := ⟨"IN_PROGRESS", "", 1, 2, 0, "null"⟩

/-- The channel answers with an item of another id than the one asked for. -/
def unknownItem : Calls where
  channel := .ok ⟨some "https://suno", "sk"⟩
  bulkErr := none
  adaptorFound := true
  answer := .decoded "success" [⟨"up_2", sameAnswer⟩]

/-- One unknown id in the answer ends the process. -/
theorem not_pollSafe_unknownId :
    ¬ PollSafe 1 ["up_1"] (Function.update (fun _ => none) "up_1" (some sunoTask)) unknownItem
      sunoTask sameAnswer := by
  rintro ⟨⟨s, err, hs, -⟩, -⟩
  cases hs

end DazeApi.Tasks.SunoPoll
