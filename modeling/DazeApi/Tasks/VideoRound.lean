import Mathlib.Data.List.Nodup
import DazeApi.Lib.Positions
import DazeApi.Tasks.System

/-!
# One polling round of a platform

One pass of `TaskPollingLoop` over the unfinished tasks of a platform that the video
poller handles.  The tasks are regrouped by channel (`taskChannelM`, lists of upstream
ids) and by upstream id (`taskM`, pointers), so a task is found again by its upstream
id alone.  A pointer to a task is its position in the list that was read.

Go ranges over `taskChannelM` in no fixed order: a `KeyOrder` is the order of one pass.
What the store answers to the guarded update, and the balances a settlement meets, are
answers of the environment.
-/

namespace DazeApi.Tasks.VideoRound

/-! ## Regrouping -/

/-- A task in memory, with the columns that the round reads besides those of `Task`;
`key` is `PrivateData.Key`. -/
structure Record where
  task : Task
  channelId : Int
  key : String
  action : String
deriving DecidableEq, Repr

def Record.upstreamID (r : Record) : String := r.task.getUpstreamTaskID

/-- The maps of a pass: `taskM`, `taskChannelM` and `nullTaskIds`. -/
structure Grouped where
  taskM : String → Option Nat
  taskChannelM : Int → List String
  nullTaskIds : List Int

/-- The loop body of the regrouping, on the task at a position. -/
def Grouped.add (g : Grouped) (r : Record) (i : Nat) : Grouped :=
  if r.upstreamID = "" then { g with nullTaskIds := g.nullTaskIds ++ [r.task.id] }
  else
    { g with
      taskM := Function.update g.taskM r.upstreamID (some i)
      taskChannelM := Function.update g.taskChannelM r.channelId
        (g.taskChannelM r.channelId ++ [r.upstreamID]) }

/-- The regrouping of `TaskPollingLoop`. -/
def groupTasks (tasks : List Record) : Grouped :=
  tasks.zipIdx.foldl (fun g e => g.add e.1 e.2) ⟨fun _ => none, fun _ => [], []⟩

/-- An order in which a pass may see the keys of `taskChannelM`. -/
structure KeyOrder (m : Int → List String) where
  keys : List Int
  nodup : keys.Nodup
  complete : ∀ c, c ∈ keys ↔ m c ≠ []

/-! ## Calls -/

/-- The fields of `model.Channel` that the poller reads, with the default base URL of its
type. -/
structure Channel where
  baseURL : Option String
  defaultBaseURL : String
  key : String
  proxy : String
deriving DecidableEq, Repr

/-- `Channel.GetBaseURL`. -/
def Channel.getBaseURL (ch : Channel) : String :=
  match ch.baseURL with
  | none => ""
  | some url => if url = "" then ch.defaultBaseURL else url

/-- One `FetchTask` of `updateVideoSingleTask`, with the id it looked up and the record it
found, which it goes on to modify. -/
structure Call where
  taskId : String
  baseURL : String
  key : String
  sentTaskID : String
  action : String
  proxy : String
  record : Nat
deriving DecidableEq, Repr

/-- The call for the record `r` at position `i` on the channel `ch`.  A key of the task's own
replaces the channel's. -/
def callFor (ch : Channel) (taskId : String) (r : Record) (i : Nat) : Call where
  taskId := taskId
  baseURL := if ch.getBaseURL ≠ "" then ch.getBaseURL else ch.defaultBaseURL
  key := if r.key ≠ "" then r.key else ch.key
  sentTaskID := r.upstreamID
  action := r.action
  proxy := ch.proxy
  record := i

/-- The answers to one call: the time, the upstream's answer, the result of the guarded
update (`none` is an error), and what a settlement meets. -/
structure SingleCalls where
  now : Int
  ans : VideoAnswer
  won : Option Bool
  accounts : Accounts
  io : BillingCalls

/-- The answers to a round: the channels, the adaptor, and those to the calls in turn. -/
structure RoundCalls where
  channels : Int → Option Channel
  adaptorFound : Bool
  single : Nat → SingleCalls

/-- The tasks in memory, the calls made, the positions `RefundTaskQuota` was executed for,
and the ids failed in bulk. -/
structure RoundState where
  memory : List Record
  calls : List Call
  refunds : List Nat
  bulkFailed : List Int
deriving DecidableEq, Repr

/-- The record at `i` is modified through its pointer. -/
def RoundState.setTask (s : RoundState) (i : Nat) (r : Record) (t : Task) : RoundState :=
  { s with memory := s.memory.set i { r with task := t } }

/-- The billing at the end of `updateVideoSingleTask`. -/
def RoundState.bill (env : PollEnv) (a : SingleCalls) (s : RoundState) (i : Nat) (r : Record)
    (t : Task) (b : VideoBilling) : RoundState :=
  let s := s.setTask i r (runVideoBilling env t a.accounts a.io b).1
  match b with
  | .refund => { s with refunds := s.refunds ++ [i] }
  | _ => s

/-- `updateVideoSingleTask` on the record found. -/
def visitRecord (env : PollEnv) (a : SingleCalls) (s : RoundState) (i : Nat) (r : Record) :
    RoundState :=
  match videoUpdate env a.now r.task a.ans with
  | (t, none) => s.setTask i r t
  | (t, some b) =>
      match videoWriteOf r.task t with
      | .transition =>
          if a.won = some true then s.bill env a i r t b else s.setTask i r t
      | _ => s.bill env a i r t b

/-- `updateVideoSingleTask`. -/
def updateVideoSingleTask (env : PollEnv) (io : RoundCalls) (taskM : String → Option Nat)
    (ch : Channel) (s : RoundState) (taskId : String) : RoundState :=
  match taskM taskId with
  | none => s
  | some i =>
      match s.memory[i]? with
      | none => s
      | some r =>
          visitRecord env (io.single s.calls.length)
            { s with calls := s.calls ++ [callFor ch taskId r i] } i r

/-- The tasks of a missing channel, failed in bulk. -/
def bulkFail (taskM : String → Option Nat) (s : RoundState) (taskIds : List String) :
    RoundState :=
  { s with bulkFailed := s.bulkFailed ++ taskIds.filterMap fun id =>
      (taskM id).bind fun i => s.memory[i]?.map fun r => r.task.id }

/-- `updateVideoTasks`. -/
def updateVideoTasks (env : PollEnv) (io : RoundCalls) (g : Grouped) (s : RoundState)
    (channelId : Int) : RoundState :=
  match io.channels channelId with
  | none => bulkFail g.taskM s (g.taskChannelM channelId)
  | some ch =>
      if io.adaptorFound then
        (g.taskChannelM channelId).foldl (updateVideoSingleTask env io g.taskM ch) s
      else s

/-- The pass of `TaskPollingLoop` over the tasks of one platform. -/
def pollPlatform (env : PollEnv) (io : RoundCalls) (tasks : List Record)
    (order : KeyOrder (groupTasks tasks).taskChannelM) : RoundState :=
  order.keys.foldl (updateVideoTasks env io (groupTasks tasks))
    ⟨tasks, [], [], (groupTasks tasks).nullTaskIds⟩

/-! ## What a round should do, and when it does -/

/-- Every task with an upstream id is looked up by exactly one call, on its own channel, which
modifies that task, and refunded at most once. -/
structure EachOnItsOwn (tasks : List Record) (io : RoundCalls) (s : RoundState) : Prop where
  lookedUp : ∀ (i : Nat) (r : Record), tasks[i]? = some r → r.upstreamID ≠ "" →
    ∃ ch, io.channels r.channelId = some ch ∧
      s.calls.filter (fun c => c.record = i) = [callFor ch r.upstreamID r i]
  refunded : ∀ i, s.refunds.count i ≤ 1

/-- The upstream ids of the tasks are distinct, and there is a channel and an adaptor for
each of them. -/
structure Separate (tasks : List Record) (io : RoundCalls) : Prop where
  distinct : tasks.Pairwise fun r r' => r.upstreamID ≠ "" → r.upstreamID ≠ r'.upstreamID
  served : ∀ r ∈ tasks, r.upstreamID ≠ "" →
    io.adaptorFound = true ∧ (io.channels r.channelId).isSome = true

/-! ## The maps -/

theorem groupTasks_snoc (tasks : List Record) (r : Record) :
    groupTasks (tasks ++ [r]) = (groupTasks tasks).add r tasks.length := by
  simp [groupTasks, List.zipIdx_append]

theorem Grouped.taskM_add (g : Grouped) (r : Record) (i : Nat) (u : String) :
    (g.add r i).taskM u = if r.upstreamID = u ∧ u ≠ "" then some i else g.taskM u := by
  unfold Grouped.add
  split
  next hnull => rw [if_neg fun h => h.2 (h.1 ▸ hnull)]
  next hid =>
    dsimp only
    rw [Function.update_apply]
    by_cases hu : u = r.upstreamID
    · rw [if_pos hu, if_pos ⟨hu.symm, hu ▸ hid⟩]
    · rw [if_neg hu, if_neg fun h => hu h.1.symm]

/-- `taskM` holds the last task of an upstream id. -/
theorem taskM_eq_some_iff (tasks : List Record) : ∀ (u : String) (i : Nat),
    (groupTasks tasks).taskM u = some i ↔
      u ≠ "" ∧ Positions.LastAt (fun r => r.upstreamID = u) tasks i := by
  induction tasks using List.reverseRecOn with
  | nil =>
      intro u i
      constructor
      · intro h
        cases h
      · rintro ⟨-, h⟩
        exact absurd h Positions.not_lastAt_nil
  | append_singleton tasks r ih =>
      intro u i
      rw [groupTasks_snoc, Grouped.taskM_add]
      split
      next hu =>
        rw [Positions.lastAt_snoc_of_pos (P := fun r' : Record => r'.upstreamID = u) hu.1,
          Option.some.injEq]
        exact (and_iff_right hu.2).symm
      next hu =>
        -- the new task does not speak of `u`
        rw [ih]
        refine and_congr_right fun hne => ?_
        exact (Positions.lastAt_snoc_of_neg (P := fun r' : Record => r'.upstreamID = u)
          fun hru => hu ⟨hru, hne⟩).symm

/-- `taskChannelM` holds the upstream ids of the tasks of a channel. -/
theorem taskChannelM_eq (tasks : List Record) (c : Int) :
    (groupTasks tasks).taskChannelM c =
      (tasks.filter fun r => r.channelId = c ∧ r.upstreamID ≠ "").map Record.upstreamID := by
  induction tasks using List.reverseRecOn with
  | nil => rfl
  | append_singleton tasks r ih =>
      rw [groupTasks_snoc, Grouped.add, List.filter_append, List.map_append, ← ih]
      by_cases hnull : r.upstreamID = ""
      · simp [hnull]
      · rw [if_neg hnull]
        by_cases hc : r.channelId = c
        · subst hc
          simp [hnull]
        · simp [Function.update_of_ne (Ne.symm hc), hc]

/-! ## The calls of a round -/

/-- What a call reads of a record stays as it was. -/
def Stable (tasks memory : List Record) : Prop :=
  ∀ i : Nat, memory[i]?.map (fun r => (r.upstreamID, r.channelId, r.key, r.action)) =
    tasks[i]?.map fun r => (r.upstreamID, r.channelId, r.key, r.action)

/-- The call made when an id is looked up. -/
def visitCall (tasks : List Record) (taskM : String → Option Nat) (ch : Channel) (taskId : String) :
    List Call :=
  match taskM taskId with
  | none => []
  | some i => (tasks[i]?.map fun r => callFor ch taskId r i).toList

/-- The calls on one channel. -/
def channelCalls (tasks : List Record) (io : RoundCalls) (g : Grouped) (c : Int) : List Call :=
  match io.channels c with
  | none => []
  | some ch =>
      if io.adaptorFound then (g.taskChannelM c).flatMap (visitCall tasks g.taskM ch) else []

/-- After the calls `cs`: they are on record, no task has changed its identity, and a record
has been refunded at most as often as it was visited. -/
structure Visited (tasks : List Record) (cs : List Call) (s : RoundState) : Prop where
  calls : s.calls = cs
  stable : Stable tasks s.memory
  refunds : ∀ i, s.refunds.count i ≤ (cs.filter fun c => c.record = i).length

theorem runVideoBilling_upstreamID (env : PollEnv) (t : Task) (acc : Accounts) (io : BillingCalls)
    (b : VideoBilling) :
    (runVideoBilling env t acc io b).1.getUpstreamTaskID = t.getUpstreamTaskID := by
  cases b with
  | keep => rfl
  | refund => rfl
  | settle ti =>
      rcases settle_cases env t ti acc io with h | ⟨q, d, tok, h⟩
      · simp only [runVideoBilling, h]
      · simp only [runVideoBilling, h]
        rfl

/-- Setting a task of the same identity. -/
theorem Stable.set {tasks memory : List Record} {i : Nat} {r : Record} {t : Task}
    (h : Stable tasks memory) (hr : memory[i]? = some r)
    (ht : t.getUpstreamTaskID = r.task.getUpstreamTaskID) :
    Stable tasks (memory.set i { r with task := t }) := by
  intro j
  by_cases hij : i = j
  · subst hij
    rw [← h i, hr, List.getElem?_set_self (List.getElem?_eq_some_iff.1 hr).1]
    simp [Record.upstreamID, ht]
  · rw [List.getElem?_set_ne hij, h j]

section

variable {tasks : List Record} {cs : List Call} {s : RoundState}

/-- A state that differs from one after `cs` by a record of the same identity and at most a
refund of it, when the call for it has been made. -/
theorem Visited.bill {c : Call} {r : Record} {t : Task} (env : PollEnv) (a : SingleCalls)
    (h : Visited tasks cs s) (hr : s.memory[c.record]? = some r)
    (ht : t.getUpstreamTaskID = r.task.getUpstreamTaskID) (b : VideoBilling) :
    Visited tasks (cs ++ [c])
      (RoundState.bill env a { s with calls := s.calls ++ [c] } c.record r t b) := by
  have hstable : Stable tasks (s.memory.set c.record
      { r with task := (runVideoBilling env t a.accounts a.io b).1 }) :=
    h.stable.set hr ((runVideoBilling_upstreamID env t a.accounts a.io b).trans ht)
  have hcount : ∀ i, ((cs ++ [c]).filter fun c => c.record = i).length =
      (cs.filter fun c => c.record = i).length + if c.record = i then 1 else 0 := by
    intro i
    rw [List.filter_append, List.length_append]
    by_cases hi : c.record = i <;> simp [hi]
  unfold RoundState.bill
  cases b with
  | refund =>
      refine ⟨by rw [← h.calls]; rfl, hstable, fun i => ?_⟩
      have := h.refunds i
      rw [hcount]
      simp only [RoundState.setTask, List.count_append, List.count_singleton, beq_iff_eq]
      omega
  | keep | settle =>
      refine ⟨by rw [← h.calls]; rfl, hstable, fun i => ?_⟩
      have := h.refunds i
      rw [hcount]
      simp only [RoundState.setTask]
      omega

/-- A visit makes its call, and modifies the record of that call only. -/
theorem Visited.single {env : PollEnv} {io : RoundCalls} {taskM : String → Option Nat}
    {ch : Channel} (h : Visited tasks cs s) (taskId : String) :
    Visited tasks (cs ++ visitCall tasks taskM ch taskId)
      (updateVideoSingleTask env io taskM ch s taskId) := by
  unfold updateVideoSingleTask visitCall
  split
  next => simpa using h
  next i _ =>
    split
    next hnone =>
      have hgone : tasks[i]? = none := by
        have hmap := h.stable i
        rw [hnone] at hmap
        cases htask : tasks[i]? with
        | none => rfl
        | some r => rw [htask] at hmap; cases hmap
      simpa [hgone] using h
    next r hr =>
      obtain ⟨r₀, hr₀, hsame⟩ : ∃ r₀, tasks[i]? = some r₀ ∧
          callFor ch taskId r₀ i = callFor ch taskId r i := by
        have hmap := h.stable i
        rw [hr] at hmap
        cases htask : tasks[i]? with
        | none => rw [htask] at hmap; cases hmap
        | some r₀ =>
            rw [htask] at hmap
            simp only [Option.map_some, Option.some.injEq, Prod.mk.injEq] at hmap
            refine ⟨r₀, rfl, ?_⟩
            simp only [callFor, hmap]
      rw [hr₀, Option.map_some, Option.toList_some, hsame]
      -- an early return is a billing that keeps the copy
      have hkeep : ∀ t : Task, RoundState.setTask
          { s with calls := s.calls ++ [callFor ch taskId r i] } i r t =
            RoundState.bill env (io.single s.calls.length)
              { s with calls := s.calls ++ [callFor ch taskId r i] } i r t .keep := fun _ => rfl
      have hid := (videoUpdate_kept env (io.single s.calls.length).now r.task
        (io.single s.calls.length).ans).2.1
      have hbill : ∀ (t : Task) (b : VideoBilling),
          t.getUpstreamTaskID = r.task.getUpstreamTaskID →
          Visited tasks (cs ++ [callFor ch taskId r i])
            (RoundState.bill env (io.single s.calls.length)
              { s with calls := s.calls ++ [callFor ch taskId r i] } i r t b) :=
        fun t b ht => h.bill (c := callFor ch taskId r i) env _ hr ht b
      unfold visitRecord
      split
      next t heq =>
        rw [heq] at hid
        rw [hkeep]
        exact hbill t _ hid
      next t b heq =>
        rw [heq] at hid
        split
        next =>
          split
          next => exact hbill t b hid
          next =>
            rw [hkeep]
            exact hbill t _ hid
        next => exact hbill t b hid

theorem Visited.channel {env : PollEnv} {io : RoundCalls} {g : Grouped} (h : Visited tasks cs s)
    (c : Int) :
    Visited tasks (cs ++ channelCalls tasks io g c) (updateVideoTasks env io g s c) := by
  unfold updateVideoTasks channelCalls
  split
  next =>
    rw [List.append_nil]
    exact ⟨h.calls, h.stable, h.refunds⟩
  next ch _ =>
    split
    next =>
      generalize g.taskChannelM c = ids
      induction ids generalizing cs s with
      | nil => simpa using h
      | cons id ids ih =>
          rw [List.flatMap_cons, ← List.append_assoc, List.foldl_cons]
          exact ih (h.single id)
    next => simpa using h

theorem Visited.channels {env : PollEnv} {io : RoundCalls} {g : Grouped} (h : Visited tasks cs s)
    (keys : List Int) :
    Visited tasks (cs ++ keys.flatMap (channelCalls tasks io g))
      (keys.foldl (updateVideoTasks env io g) s) := by
  induction keys generalizing cs s with
  | nil => simpa using h
  | cons c keys ih =>
      rw [List.flatMap_cons, ← List.append_assoc, List.foldl_cons]
      exact ih (h.channel c)

end

/-- The calls of a round are those of its channels, and no record is refunded more often than
it was visited. -/
theorem visited_pollPlatform (env : PollEnv) (io : RoundCalls) (tasks : List Record)
    (order : KeyOrder (groupTasks tasks).taskChannelM) :
    Visited tasks (order.keys.flatMap (channelCalls tasks io (groupTasks tasks)))
      (pollPlatform env io tasks order) := by
  have hstart : Visited tasks [] ⟨tasks, [], [], (groupTasks tasks).nullTaskIds⟩ :=
    ⟨rfl, fun _ => rfl, by simp⟩
  exact hstart.channels order.keys

/-! ## Counting visits -/

/-- A part of a concatenation that only one element contributes to. -/
theorem filter_flatMap_eq_replicate {α β : Type} [DecidableEq α] {l : List α} {f : α → List β}
    {p : β → Bool} {a : α} {x : β}
    (h : ∀ b ∈ l, (f b).filter p = if b = a then [x] else []) :
    (l.flatMap f).filter p = List.replicate (l.count a) x := by
  induction l with
  | nil => rfl
  | cons b l ih =>
      rw [List.flatMap_cons, List.filter_append, h b (by simp),
        ih fun c hc => h c (List.mem_cons_of_mem b hc), List.count_cons]
      by_cases hb : b = a
      · simp [hb, List.replicate_succ]
      · simp [hb]

/-- A call of a round was made for the id of its record, with an adaptor. -/
theorem record_of_mem {tasks : List Record} {io : RoundCalls} {keys : List Int} {call : Call}
    (h : call ∈ keys.flatMap (channelCalls tasks io (groupTasks tasks))) :
    io.adaptorFound = true ∧ (groupTasks tasks).taskM call.taskId = some call.record := by
  obtain ⟨c, -, hc⟩ := List.mem_flatMap.1 h
  unfold channelCalls at hc
  split at hc
  next => cases hc
  next ch _ =>
    split at hc
    next hadaptor =>
      obtain ⟨id, -, hid⟩ := List.mem_flatMap.1 hc
      unfold visitCall at hid
      split at hid
      next => cases hid
      next i hi =>
        obtain ⟨r, -, rfl⟩ := Option.map_eq_some_iff.1 (Option.mem_toList.1 hid)
        exact ⟨hadaptor, hi⟩
    next => cases hc

/-- Distinct ids: a task is the only one of its id. -/
theorem Separate.eq_of_upstreamID {tasks : List Record} {io : RoundCalls} (h : Separate tasks io)
    {i j : Nat} {r r' : Record} (hr : tasks[i]? = some r) (hr' : tasks[j]? = some r')
    (hid : r.upstreamID ≠ "") (heq : r.upstreamID = r'.upstreamID) : i = j := by
  have hpair := List.pairwise_iff_getElem.1 h.distinct
  obtain ⟨hi, rfl⟩ := List.getElem?_eq_some_iff.1 hr
  obtain ⟨hj, rfl⟩ := List.getElem?_eq_some_iff.1 hr'
  rcases Nat.lt_trichotomy i j with hlt | heq' | hgt
  · exact absurd heq (hpair i j hi hj hlt hid)
  · exact heq'
  · exact absurd heq.symm (hpair j i hj hi hgt (heq ▸ hid))

/-- The list of a channel holds the id of each of its tasks once. -/
theorem Separate.count_taskChannelM {tasks : List Record} {io : RoundCalls}
    (h : Separate tasks io) {r : Record} (hr : r ∈ tasks) (hid : r.upstreamID ≠ "") :
    ((groupTasks tasks).taskChannelM r.channelId).count r.upstreamID = 1 := by
  rw [taskChannelM_eq]
  refine List.count_eq_one_of_mem ?_ ?_
  · refine List.pairwise_map.2 ((h.distinct.filter _).imp_of_mem fun hmem _ hne => hne ?_)
    have := (List.mem_filter.1 hmem).2
    simp only [decide_eq_true_eq] at this
    exact this.2
  · exact List.mem_map.2 ⟨r, List.mem_filter.2 ⟨hr, by simp [hid]⟩, rfl⟩

/-- Distinct ids: a visit goes to the record of its id. -/
theorem Separate.filter_visitCall {tasks : List Record} {io : RoundCalls} (h : Separate tasks io)
    {i : Nat} {r : Record} (hr : tasks[i]? = some r) (hid : r.upstreamID ≠ "") (ch : Channel)
    (u : String) :
    (visitCall tasks (groupTasks tasks).taskM ch u).filter (fun c => c.record = i) =
      if u = r.upstreamID then [callFor ch r.upstreamID r i] else [] := by
  have hself : (groupTasks tasks).taskM r.upstreamID = some i := by
    refine (taskM_eq_some_iff tasks _ i).2 ⟨hid, ⟨r, hr, rfl⟩, fun j r' hj hr' => ?_⟩
    exact le_of_eq (h.eq_of_upstreamID hr hj hid hr'.symm).symm
  unfold visitCall
  by_cases hu : u = r.upstreamID
  · subst hu
    simp [hself, hr, callFor]
  · rw [if_neg hu]
    split
    next => rfl
    next k hk =>
      have hki : k ≠ i := by
        rintro rfl
        obtain ⟨-, ⟨r', hr', hru⟩, -⟩ := (taskM_eq_some_iff tasks u k).1 hk
        cases hr.symm.trans hr'
        exact hu hru.symm
      cases tasks[k]? with
      | none => rfl
      | some r' => simp [callFor, hki]

/-- Distinct ids: the calls for a record are the one on its own channel. -/
theorem Separate.filter_calls {tasks : List Record} {io : RoundCalls} (h : Separate tasks io)
    (order : KeyOrder (groupTasks tasks).taskChannelM) {i : Nat} {r : Record} {ch : Channel}
    (hr : tasks[i]? = some r) (hid : r.upstreamID ≠ "") (hch : io.channels r.channelId = some ch) :
    (order.keys.flatMap (channelCalls tasks io (groupTasks tasks))).filter (fun c => c.record = i) =
      [callFor ch r.upstreamID r i] := by
  have hmem : r ∈ tasks := List.mem_of_getElem? hr
  have hcount := h.count_taskChannelM hmem hid
  have hchannel : ∀ c ∈ order.keys,
      (channelCalls tasks io (groupTasks tasks) c).filter (fun c => c.record = i) =
        if c = r.channelId then [callFor ch r.upstreamID r i] else [] := by
    intro c _
    unfold channelCalls
    by_cases hc : c = r.channelId
    · subst hc
      simp only [hch, (h.served r hmem hid).1, if_true]
      rw [filter_flatMap_eq_replicate fun u _ => h.filter_visitCall hr hid ch u, hcount]
      rfl
    · rw [if_neg hc]
      split
      next => rfl
      next ch' _ =>
        split
        next =>
          -- no other channel lists the id
          have hzero : ((groupTasks tasks).taskChannelM c).count r.upstreamID = 0 := by
            refine List.count_eq_zero.2 fun hin => hc ?_
            rw [taskChannelM_eq] at hin
            obtain ⟨r', hr', heq⟩ := List.mem_map.1 hin
            obtain ⟨hmem', hchan⟩ := List.mem_filter.1 hr'
            simp only [decide_eq_true_eq] at hchan
            obtain ⟨j, hj⟩ := List.mem_iff_getElem?.1 hmem'
            obtain rfl := h.eq_of_upstreamID hr hj hid heq.symm
            cases hr.symm.trans hj
            exact hchan.1.symm
          rw [filter_flatMap_eq_replicate fun u _ => h.filter_visitCall hr hid ch' u, hzero]
          rfl
        next => rfl
  have hkeys : order.keys.count r.channelId = 1 := by
    refine List.count_eq_one_of_mem order.nodup ((order.complete _).2 fun hnil => ?_)
    rw [hnil] at hcount
    cases hcount
  rw [filter_flatMap_eq_replicate hchannel, hkeys]
  rfl

/-- For every list of tasks, all channels and upstream answers, and every order in which the
channels are ranged over. -/
theorem eachOnItsOwn_iff (env : PollEnv) (io : RoundCalls) (tasks : List Record)
    (order : KeyOrder (groupTasks tasks).taskChannelM) :
    EachOnItsOwn tasks io (pollPlatform env io tasks order) ↔ Separate tasks io := by
  have hvisited := visited_pollPlatform env io tasks order
  constructor
  · intro h
    -- the one call for a task is a call of the round
    have hfound : ∀ (i : Nat) (r : Record), tasks[i]? = some r → r.upstreamID ≠ "" →
        io.adaptorFound = true ∧ (groupTasks tasks).taskM r.upstreamID = some i := by
      intro i r hr hid
      obtain ⟨ch, -, hcalls⟩ := h.lookedUp i r hr hid
      have hmem : callFor ch r.upstreamID r i ∈ (pollPlatform env io tasks order).calls := by
        refine (List.mem_filter.1 (?_ : _ ∈ List.filter (fun c => c.record = i) _)).1
        rw [hcalls]
        exact List.mem_singleton_self _
      rw [hvisited.calls] at hmem
      exact record_of_mem hmem
    refine ⟨List.pairwise_iff_getElem.2 fun i j hi hj hlt hid heq => ?_, fun r hr hid => ?_⟩
    · have hi' := (hfound i _ (List.getElem?_eq_getElem hi) hid).2
      have hj' := (hfound j _ (List.getElem?_eq_getElem hj) (heq ▸ hid)).2
      rw [heq, hj', Option.some.injEq] at hi'
      omega
    · obtain ⟨i, hi⟩ := List.mem_iff_getElem?.1 hr
      obtain ⟨ch, hch, -⟩ := h.lookedUp i r hi hid
      exact ⟨(hfound i r hi hid).1, by rw [hch]; rfl⟩
  · intro h
    have hone : ∀ (i : Nat) (r : Record), tasks[i]? = some r → r.upstreamID ≠ "" →
        ∃ ch, io.channels r.channelId = some ch ∧
          (order.keys.flatMap (channelCalls tasks io (groupTasks tasks))).filter
            (fun c => c.record = i) = [callFor ch r.upstreamID r i] := by
      intro i r hr hid
      obtain ⟨ch, hch⟩ := Option.isSome_iff_exists.1 (h.served r (List.mem_of_getElem? hr) hid).2
      exact ⟨ch, hch, h.filter_calls order hr hid hch⟩
    refine ⟨fun i r hr hid => ?_, fun i => (hvisited.refunds i).trans ?_⟩
    · rw [hvisited.calls]
      exact hone i r hr hid
    · by_contra hmany
      obtain ⟨call, hcall⟩ := List.exists_mem_of_length_pos
        (by omega : 0 < ((order.keys.flatMap (channelCalls tasks io (groupTasks tasks))).filter
          fun c => c.record = i).length)
      obtain ⟨hcall, hrec⟩ := List.mem_filter.1 hcall
      rw [decide_eq_true_eq] at hrec
      obtain ⟨-, hfound⟩ := record_of_mem hcall
      rw [hrec] at hfound
      obtain ⟨hne, ⟨r, hr, hid⟩, -⟩ := (taskM_eq_some_iff tasks _ i).1 hfound
      obtain ⟨ch, -, heq⟩ := hone i r hr (hid ▸ hne)
      rw [heq] at hmany
      exact hmany (Nat.le_refl 1)

/-- The first task of a channel whose provider numbers its tasks. -/
def firstTask (channelId : Int) : Record where
  task :=
    { id := channelId
      taskID := "task_" ++ toString channelId
      platform := .video "sora"
      quota := 100
      status := .submitted
      failReason := ""
      submitTime := 1
      startTime := 0
      finishTime := 0
      progress := "10%"
      originModelName := "sora-2"
      privateData := ⟨"1", "", 7, none⟩
      data := "" }
  channelId := channelId
  key := ""
  action := "generate"

/-- Every upstream says that its task has failed, and every update wins. -/
def allFailed : RoundCalls where
  channels c := some ⟨some ("https://" ++ toString c), "", "sk", ""⟩
  adaptorFound := true
  single _ := ⟨5, .body ⟨"FAILURE", "rejected", "", "", 0⟩ .noError "", some true,
    ⟨0, 0, []⟩, ⟨false, "sk-1", false⟩⟩

/-- The two channels in turn. -/
def firstThenSecond : KeyOrder (groupTasks [firstTask 1, firstTask 2]).taskChannelM where
  keys := [1, 2]
  nodup := by decide
  complete c := by
    by_cases h1 : c = 1
    · subst h1
      decide +kernel
    · by_cases h2 : c = 2
      · subst h2
        decide +kernel
      · have hchannel : ∀ c, (firstTask c).channelId = c := fun _ => rfl
        rw [taskChannelM_eq]
        simp [hchannel, h1, h2, Ne.symm h1, Ne.symm h2]

/-- Two channels that both number a task "1": the second task is looked up on either channel
and refunded twice, the first never. -/
theorem not_eachOnItsOwn_sameID :
    (pollPlatform ⟨fun _ _ => 0, fun _ => none, ""⟩ allFailed [firstTask 1, firstTask 2]
        firstThenSecond).calls.map (fun c => (c.record, c.baseURL)) =
          [(1, "https://1"), (1, "https://2")] ∧
      (pollPlatform ⟨fun _ _ => 0, fun _ => none, ""⟩ allFailed [firstTask 1, firstTask 2]
        firstThenSecond).refunds = [1, 1] ∧
      ¬ EachOnItsOwn [firstTask 1, firstTask 2] allFailed
        (pollPlatform ⟨fun _ _ => 0, fun _ => none, ""⟩ allFailed [firstTask 1, firstTask 2]
          firstThenSecond) := by
  have hrefunds : (pollPlatform ⟨fun _ _ => 0, fun _ => none, ""⟩ allFailed
      [firstTask 1, firstTask 2] firstThenSecond).refunds = [1, 1] := by decide +kernel
  refine ⟨by decide +kernel, hrefunds, fun h => ?_⟩
  have h1 := h.refunded 1
  rw [hrefunds] at h1
  exact absurd h1 (by decide)

end DazeApi.Tasks.VideoRound
