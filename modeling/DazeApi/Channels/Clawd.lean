import DazeApi.Lib.Table
import Mathlib.Data.List.Sort

/-!
# The tuning of priorities

`runClawdTuneCycle` (`service/channel_auto_tune.go`) gives the priorities that the channels
of a clawd group have to the same channels anew, the highest to the channel with the
highest score.  A channel under observation is meant to be left out.  The scores come from
`ComputeChannelScores`, and the rows are written by `model/channel_clawd.go`.

Scores are compared only, so their type is any linear order.  The abilities that
`UpdateChannelPriority` writes as well and the events of the cycle are left out.
-/

universe u

namespace DazeApi.Channels.Clawd

/-- The scores of a channel in `channel_info`. -/
structure ClawdInfo (S : Type u) where
  score : S
  scoreFormula : String
  scoreBreakdownJSON : String
  lastTuneAt : Int
  tuneReason : String
  consecutiveDrops : Int
  inObservation : Bool
  observationUntil : Int
deriving DecidableEq

/-- A row of `channels`. -/
structure WatchedChannel (S : Type u) where
  id : Int
  priority : Option Int
  info : ClawdInfo S
deriving DecidableEq

abbrev ClawdTable (S : Type u) := Table (WatchedChannel.id (S := S))

/-- `ChannelScore`, with the text of `BuildScoreBreakdownJSON`. -/
structure ChannelScore (S : Type u) where
  channelId : Int
  score : S
  scoreFormula : String
  scoreBreakdownJSON : String
  sampleCount : Nat

/-- `ChannelScoreUpdate`.  A literal that does not give a field leaves it zero. -/
structure ChannelScoreUpdate (S : Type u) where
  score : S
  scoreFormula : String
  scoreBreakdownJSON : String
  lastTuneAt : Int := 0
  tuneReason : String := ""
  consecutiveDrops : Int := 0
  inObservation : Bool := false
  observationUntil : Int := 0

structure Env (S : Type u) where
  /-- The reason that a tuning is given. -/
  reason : S → Int → String
  minSampleSize : Nat

section

variable {S : Type u}

/-- `GetPriority`. -/
def WatchedChannel.getPriority (c : WatchedChannel S) : Int := c.priority.getD 0

/-! ## Rows -/

def WatchedChannel.setScore (c : WatchedChannel S) (update : ChannelScoreUpdate S) :
    WatchedChannel S :=
  { c with info := {
      score := update.score
      scoreFormula := update.scoreFormula
      scoreBreakdownJSON := update.scoreBreakdownJSON
      lastTuneAt := if 0 < update.lastTuneAt then update.lastTuneAt else c.info.lastTuneAt
      tuneReason := update.tuneReason
      consecutiveDrops := update.consecutiveDrops
      inObservation := update.inObservation
      observationUntil := update.observationUntil } }

/-- A statement that changes the row of an id. -/
def updateRow (t : ClawdTable S) (id : Int) (f : WatchedChannel S → WatchedChannel S)
    (hf : ∀ c, (f c).id = c.id) : ClawdTable S :=
  t.update (fun c => if c.id = id then f c else c) (fun c => by
    split
    next => exact hf c
    next => rfl)

/-- `UpdateChannelClawdScore`. -/
def updateChannelClawdScore (t : ClawdTable S) (channelId : Int) (update : ChannelScoreUpdate S) :
    Option (ClawdTable S) :=
  (t.find channelId).map fun _ => updateRow t channelId (·.setScore update) fun _ => rfl

/-- `UpdateChannelPriority`. -/
def updateChannelPriority (t : ClawdTable S) (channelId newPriority : Int) :
    Option (ClawdTable S) :=
  (t.find channelId).map fun c =>
    if c.getPriority = newPriority then t
    else updateRow t channelId (fun c => { c with priority := some newPriority }) fun _ => rfl

/-! ## A cycle -/

/-- `ClawdInObservation && now < ClawdObservationUntil`. -/
def WatchedChannel.underObservation (now : Int) (c : WatchedChannel S) : Bool :=
  c.info.inObservation && now < c.info.observationUntil

/-- `scoreUpdate`. -/
def scoreUpdate (ch : ChannelScore S) : ChannelScoreUpdate S where
  score := ch.score
  scoreFormula := ch.scoreFormula
  scoreBreakdownJSON := ch.scoreBreakdownJSON

/-- The update of the scores, before the number of samples is looked at. -/
def refreshScore (t : ClawdTable S) (ch : ChannelScore S) : ClawdTable S :=
  (updateChannelClawdScore t ch.channelId (scoreUpdate ch)).getD t

/-- `chWithPriority`. -/
structure ChWithPriority (S : Type u) where
  score : ChannelScore S
  priority : Int

def withPriorities (t : ClawdTable S) (sorted : List (ChannelScore S)) : List (ChWithPriority S) :=
  sorted.filterMap fun ch => (t.find ch.channelId).map fun orig => ⟨ch, orig.getPriority⟩

/-- The priorities, the highest first. -/
def priorities (l : List (ChWithPriority S)) : List Int :=
  (l.map ChWithPriority.priority).insertionSort (· ≥ ·)

/-- `update`, for a channel with a new priority. -/
def tuneUpdate (env : Env S) (now : Int) (ch : ChannelScore S) (newPriority : Int) :
    ChannelScoreUpdate S :=
  { scoreUpdate ch with lastTuneAt := now, tuneReason := env.reason ch.score newPriority }

/-- A channel gets the priority of its rank. -/
def tuneChannel (env : Env S) (now : Int) (t : ClawdTable S) (wp : ChWithPriority S × Int) :
    ClawdTable S :=
  let ch := wp.1.score
  let newPriority := wp.2
  if ch.channelId = 0 then t
  else
    match t.find ch.channelId with
    | none => t
    | some orig =>
        if orig.underObservation now then t
        else if wp.1.priority = newPriority then t
        else
          match updateChannelPriority t ch.channelId newPriority with
          | none => t
          | some t' =>
              (updateChannelClawdScore t' ch.channelId (tuneUpdate env now ch newPriority)).getD t'

variable [LinearOrder S]

/-- `sort.SliceStable` by score, the highest first. -/
def sortedByScore (channels : List (ChannelScore S)) : List (ChannelScore S) :=
  channels.insertionSort fun c d => d.score ≤ c.score

/-- The cycle for one group. -/
def tuneGroup (env : Env S) (now : Int) (t : ClawdTable S) (channels : List (ChannelScore S)) :
    ClawdTable S :=
  if channels.length < 2 then t
  else
    let t := channels.foldl refreshScore t
    if (channels.map ChannelScore.sampleCount).sum < env.minSampleSize then t
    else
      let ranked := withPriorities t (sortedByScore channels)
      if ranked.isEmpty then t
      else (ranked.zip (priorities ranked)).foldl (tuneChannel env now) t

/-- `runClawdTuneCycle`, with the groups in the order in which the map gives them. -/
def runClawdTuneCycle (env : Env S) (now : Int) (t : ClawdTable S)
    (groupStats : List (List (ChannelScore S))) : ClawdTable S :=
  groupStats.foldl (tuneGroup env now) t

/-! ## What the statements change -/

end

section

variable {S : Type u} {t t' : ClawdTable S} {env : Env S} {now id k p : Int}
  {c c' : WatchedChannel S}

theorem find_updateRow (t : ClawdTable S) (id : Int) (f : WatchedChannel S → WatchedChannel S)
    (hf : ∀ c, (f c).id = c.id) (k : Int) :
    (updateRow t id f hf).find k = if k = id then (t.find k).map f else t.find k := by
  rw [updateRow, Table.find_update]
  cases hc : t.find k with
  | none => simp
  | some c =>
      rw [Option.map_some, Table.key_of_find hc]
      split <;> rfl

theorem find_updateChannelClawdScore (t : ClawdTable S) (id : Int) (update : ChannelScoreUpdate S)
    (k : Int) : ((updateChannelClawdScore t id update).getD t).find k =
      if k = id then (t.find k).map (·.setScore update) else t.find k := by
  rw [updateChannelClawdScore]
  cases hc : t.find id with
  | none =>
      rw [Option.map_none, Option.getD_none]
      split
      next heq => rw [heq, hc, Option.map_none]
      next => rfl
  | some c => exact find_updateRow t id (·.setScore update) (fun _ => rfl) k

/-- What the cycle reads of a channel. -/
def priorityOf (t : ClawdTable S) (id : Int) : Int := ((t.find id).map (·.getPriority)).getD 0

@[simp] theorem getPriority_setScore (c : WatchedChannel S) (update : ChannelScoreUpdate S) :
    (c.setScore update).getPriority = c.getPriority := rfl

theorem find_refreshScore (t : ClawdTable S) (ch : ChannelScore S) (k : Int) :
    (refreshScore t ch).find k =
      if k = ch.channelId then (t.find k).map (·.setScore (scoreUpdate ch)) else t.find k :=
  find_updateChannelClawdScore t ch.channelId (scoreUpdate ch) k

/-- The channel is there and not under observation, and has the priority. -/
def Has (t : ClawdTable S) (id p : Int) : Prop :=
  ∃ c, t.find id = some c ∧ c.info.inObservation = false ∧ c.getPriority = p

/-- The update of the scores ends every observation. -/
theorem has_refreshScore {ch : ChannelScore S} (hc : t.find ch.channelId = some c) :
    Has (refreshScore t ch) ch.channelId c.getPriority := by
  refine ⟨c.setScore (scoreUpdate ch), ?_, rfl, getPriority_setScore c _⟩
  rw [find_refreshScore, if_pos rfl, hc]
  rfl

theorem find_refreshScore_of_ne {ch : ChannelScore S} (hk : k ≠ ch.channelId) :
    (refreshScore t ch).find k = t.find k := by
  rw [find_refreshScore, if_neg hk]

theorem find_tuneChannel_of_ne {wp : ChWithPriority S × Int} (hk : k ≠ wp.1.score.channelId) :
    (tuneChannel env now t wp).find k = t.find k := by
  rw [tuneChannel]
  split
  next => rfl
  next =>
    split
    next => rfl
    next c hc =>
      split
      next => rfl
      next =>
        split
        next => rfl
        next =>
          rw [updateChannelPriority, hc, Option.map_some]
          show ((updateChannelClawdScore _ _ _).getD _).find k = _
          rw [find_updateChannelClawdScore, if_neg hk]
          split
          next => rfl
          next => rw [find_updateRow, if_neg hk]

/-- A row that no step of a loop changes. -/
theorem find_foldl {α : Type*} {f : ClawdTable S → α → ClawdTable S} {l : List α}
    (h : ∀ x ∈ l, ∀ t, (f t x).find k = t.find k) (t : ClawdTable S) :
    (l.foldl f t).find k = t.find k := by
  induction l generalizing t with
  | nil => rfl
  | cons x l ih =>
      obtain ⟨hx, hl⟩ := List.forall_mem_cons.1 h
      rw [List.foldl_cons, ih hl, hx]

/-- A channel that is not under observation gets its priority. -/
theorem has_tuneChannel (env : Env S) (now : Int) {wp : ChWithPriority S × Int} (hid : wp.1.score.channelId ≠ 0)
    (h : Has t wp.1.score.channelId wp.1.priority) :
    Has (tuneChannel env now t wp) wp.1.score.channelId wp.2 := by
  obtain ⟨c, hc, hobs, hpriority⟩ := h
  have hfree : c.underObservation now = false := by rw [WatchedChannel.underObservation, hobs]; rfl
  rw [tuneChannel]
  simp only [hid, if_false, hc, hfree, Bool.false_eq_true]
  split
  next heq => exact ⟨c, hc, hobs, hpriority.trans heq⟩
  next hne =>
    have hwrite : updateChannelPriority t wp.1.score.channelId wp.2 =
        some (updateRow t wp.1.score.channelId (fun c => { c with priority := some wp.2 })
          fun _ => rfl) := by
      rw [updateChannelPriority, hc, Option.map_some, if_neg (by rwa [hpriority])]
    simp only [hwrite]
    refine ⟨({ c with priority := some wp.2 } : WatchedChannel S).setScore
      (tuneUpdate env now wp.1.score wp.2), ?_, rfl, rfl⟩
    rw [find_updateChannelClawdScore, if_pos rfl, find_updateRow, if_pos rfl, hc]
    rfl

/-- Every channel gets its priority. -/
theorem has_foldl_tuneChannel {l : List (ChWithPriority S × Int)}
    (hnodup : (l.map fun wp => wp.1.score.channelId).Nodup)
    (hid : ∀ wp ∈ l, wp.1.score.channelId ≠ 0)
    (h : ∀ wp ∈ l, Has t wp.1.score.channelId wp.1.priority) :
    ∀ wp ∈ l, Has (l.foldl (tuneChannel env now) t) wp.1.score.channelId wp.2 := by
  induction l generalizing t with
  | nil => exact nofun
  | cons wp l ih =>
      obtain ⟨hnew, hrest⟩ := List.nodup_cons.1 hnodup
      obtain ⟨hid₀, hidl⟩ := List.forall_mem_cons.1 hid
      obtain ⟨h₀, hl⟩ := List.forall_mem_cons.1 h
      have hne (q : ChWithPriority S × Int) (hq : q ∈ l) :
          q.1.score.channelId ≠ wp.1.score.channelId := by
        intro heq
        exact hnew (List.mem_map.2 ⟨q, hq, heq⟩)
      refine List.forall_mem_cons.2 ⟨?_, ih hrest hidl ?_⟩
      · obtain ⟨c, hc, hobs⟩ := has_tuneChannel env now hid₀ h₀
        refine ⟨c, ?_, hobs⟩
        rw [List.foldl_cons, find_foldl fun q hq _ => find_tuneChannel_of_ne (hne q hq).symm]
        exact hc
      · intro q hq
        obtain ⟨c, hc, hobs⟩ := hl q hq
        exact ⟨c, (find_tuneChannel_of_ne (hne q hq)).trans hc, hobs⟩

/-- The update of the scores leaves every channel its priority. -/
theorem has_foldl_refreshScore {l : List (ChannelScore S)}
    (hnodup : (l.map ChannelScore.channelId).Nodup) :
    ∀ ch ∈ l, ∀ c, t.find ch.channelId = some c →
      Has (l.foldl refreshScore t) ch.channelId c.getPriority := by
  induction l generalizing t with
  | nil => exact nofun
  | cons ch l ih =>
      obtain ⟨hnew, hrest⟩ := List.nodup_cons.1 hnodup
      have hne (q : ChannelScore S) (hq : q ∈ l) : q.channelId ≠ ch.channelId := by
        intro heq
        exact hnew (List.mem_map.2 ⟨q, hq, heq⟩)
      refine List.forall_mem_cons.2 ⟨fun c hc => ?_, fun q hq c hc => ?_⟩
      · obtain ⟨c', hc', hobs⟩ := has_refreshScore hc
        refine ⟨c', ?_, hobs⟩
        rw [List.foldl_cons, find_foldl fun q hq _ => find_refreshScore_of_ne (hne q hq).symm]
        exact hc'
      · exact ih hrest q hq c ((find_refreshScore_of_ne (hne q hq)).trans hc)

theorem priorityOf_of_has (h : Has t id p) : priorityOf t id = p := by
  obtain ⟨c, hc, -, hp⟩ := h
  rw [priorityOf, hc, Option.map_some, Option.getD_some, hp]

theorem withPriorities_eq {priority : ChannelScore S → Int} {l : List (ChannelScore S)}
    (h : ∀ ch ∈ l, Has t ch.channelId (priority ch)) :
    withPriorities t l = l.map fun ch => ⟨ch, priority ch⟩ := by
  induction l with
  | nil => rfl
  | cons ch l ih =>
      obtain ⟨⟨c, hc, -, hp⟩, hl⟩ := List.forall_mem_cons.1 h
      rw [withPriorities, List.filterMap_cons, hc, List.map_cons, ← ih hl, ← hp]
      rfl

/-! ## Ranks -/

theorem length_priorities (l : List (ChWithPriority S)) : (priorities l).length = l.length := by
  rw [priorities, List.length_insertionSort, List.length_map]

/-- Two lists in order stay in order when they are zipped. -/
theorem pairwise_zip {α : Type*} {β : Type*} {r : α → α → Prop} {q : β → β → Prop} :
    ∀ {l : List α} {m : List β}, l.Pairwise r → m.Pairwise q →
      (l.zip m).Pairwise fun x y => r x.1 y.1 ∧ q x.2 y.2
  | [], _, _, _ => .nil
  | _ :: _, [], _, _ => .nil
  | a :: l, b :: m, hl, hm => by
      obtain ⟨ha, hl⟩ := List.pairwise_cons.1 hl
      obtain ⟨hb, hm⟩ := List.pairwise_cons.1 hm
      refine List.pairwise_cons.2 ⟨fun x hx => ?_, pairwise_zip hl hm⟩
      obtain ⟨hfst, hsnd⟩ := List.of_mem_zip hx
      exact ⟨ha _ hfst, hb _ hsnd⟩

end

section

variable {S : Type u} [LinearOrder S] {t : ClawdTable S} {env : Env S} {now : Int}
  {channels : List (ChannelScore S)} {groupStats : List (List (ChannelScore S))}

/-- What `ComputeChannelScores` gives for a group: channels that are there, each once.  A
key of the table is not zero. -/
structure Scored (t : ClawdTable S) (channels : List (ChannelScore S)) : Prop where
  nodup : (channels.map ChannelScore.channelId).Nodup
  found : ∀ ch ∈ channels, t.find ch.channelId ≠ none
  id_ne_zero : ∀ ch ∈ channels, ch.channelId ≠ 0

/-- The channels with their priorities before the cycle, in the order of their scores. -/
def ranked (t : ClawdTable S) (channels : List (ChannelScore S)) : List (ChWithPriority S) :=
  (sortedByScore channels).map fun ch => ⟨ch, priorityOf t ch.channelId⟩

/-- The channels with the priorities that the cycle gives them. -/
def assigned (t : ClawdTable S) (channels : List (ChannelScore S)) :
    List (ChWithPriority S × Int) :=
  (ranked t channels).zip (priorities (ranked t channels))

theorem perm_sortedByScore (channels : List (ChannelScore S)) :
    (sortedByScore channels).Perm channels := List.perm_insertionSort _ _

theorem has_refresh (h : Scored t channels) : ∀ ch ∈ sortedByScore channels,
    Has (channels.foldl refreshScore t) ch.channelId (priorityOf t ch.channelId) := by
  intro ch hch
  have hmem := (perm_sortedByScore channels).mem_iff.1 hch
  obtain ⟨c, hc⟩ := Option.ne_none_iff_exists'.1 (h.found ch hmem)
  have hhas := has_foldl_refreshScore h.nodup ch hmem c hc
  rwa [priorityOf, hc]

/-- A tuned group: every channel has the priority of its rank. -/
theorem tuneGroup_eq (h : Scored t channels) (htwo : 2 ≤ channels.length)
    (hsamples : env.minSampleSize ≤ (channels.map ChannelScore.sampleCount).sum) :
    tuneGroup env now t channels =
      (assigned t channels).foldl (tuneChannel env now) (channels.foldl refreshScore t) := by
  have hranked : withPriorities (channels.foldl refreshScore t) (sortedByScore channels) =
      ranked t channels := withPriorities_eq (has_refresh h)
  have hne : (ranked t channels).isEmpty = false := by
    rw [List.isEmpty_eq_false_iff, ← List.length_pos_iff, ranked, List.length_map,
      (perm_sortedByScore channels).length_eq]
    omega
  rw [tuneGroup, if_neg (by omega)]
  simp only [hranked, hne]
  rw [if_neg (by omega)]
  rfl

theorem map_fst_assigned (t : ClawdTable S) (channels : List (ChannelScore S)) :
    (assigned t channels).map (fun wp => wp.1.score) = sortedByScore channels := by
  have hfst : (assigned t channels).map Prod.fst = ranked t channels :=
    List.map_fst_zip (length_priorities _).ge
  have hscore : (ranked t channels).map ChWithPriority.score = sortedByScore channels := by
    rw [ranked, List.map_map]
    exact List.map_id _
  rw [← hscore, ← hfst, List.map_map]
  rfl

theorem map_snd_assigned (t : ClawdTable S) (channels : List (ChannelScore S)) :
    (assigned t channels).map Prod.snd = priorities (ranked t channels) :=
  List.map_snd_zip (length_priorities _).le

theorem exists_assigned {ch : ChannelScore S} (hch : ch ∈ channels) :
    ∃ p, ∃ wp ∈ assigned t channels, wp.1.score = ch ∧ wp.2 = p := by
  rw [← (perm_sortedByScore channels).mem_iff, ← map_fst_assigned t] at hch
  obtain ⟨wp, hwp, heq⟩ := List.mem_map.1 hch
  exact ⟨wp.2, wp, hwp, heq, rfl⟩

/-- A channel with a higher score has no lower priority. -/
theorem assigned_ordered {x y : ChWithPriority S × Int} (hx : x ∈ assigned t channels)
    (hy : y ∈ assigned t channels) (hlt : y.1.score.score < x.1.score.score) : y.2 ≤ x.2 := by
  let R (a b : ChWithPriority S × Int) : Prop :=
    (b.1.score.score < a.1.score.score → b.2 ≤ a.2) ∧
      (a.1.score.score < b.1.score.score → a.2 ≤ b.2)
  have hscores : (ranked t channels).Pairwise fun a b => b.score.score ≤ a.score.score := by
    rw [ranked, List.pairwise_map]
    exact List.pairwise_insertionSort _ _
  have hpriorities : (priorities (ranked t channels)).Pairwise (· ≥ ·) :=
    List.pairwise_insertionSort _ _
  have hR : (assigned t channels).Pairwise R := by
    refine (pairwise_zip hscores hpriorities).imp ?_
    rintro a b ⟨hscore, hpriority⟩
    exact ⟨fun _ => hpriority, fun hlt => absurd hlt (not_lt_of_ge hscore)⟩
  have hsymm : (assigned t channels).Pairwise (flip R) :=
    hR.imp fun h => ⟨h.2, h.1⟩
  exact (hR.forall_of_forall_of_flip (fun _ _ => ⟨fun h => absurd h (lt_irrefl _),
    fun h => absurd h (lt_irrefl _)⟩) hsymm hx hy).1 hlt

/-! ## A group after the cycle -/

/-- What the cycle of a group is to do. -/
structure Tuned (now : Int) (before after : ClawdTable S) (channels : List (ChannelScore S)) :
    Prop where
  /-- The group has the same priorities, each as often. -/
  perm : (channels.map fun ch => priorityOf after ch.channelId).Perm
    (channels.map fun ch => priorityOf before ch.channelId)
  /-- Of two channels that were not under observation, the one with the higher score has no
  lower priority. -/
  ordered : ∀ c ∈ channels, ∀ d ∈ channels,
    (∀ r, before.find c.channelId = some r → r.underObservation now = false) →
    (∀ r, before.find d.channelId = some r → r.underObservation now = false) →
    d.score < c.score → priorityOf after d.channelId ≤ priorityOf after c.channelId
  /-- A channel that was under observation has its priority, and still is. -/
  kept : ∀ c ∈ channels, ∀ r, before.find c.channelId = some r → r.underObservation now →
    ∃ r', after.find c.channelId = some r' ∧ r'.getPriority = r.getPriority ∧
      r'.info.inObservation = r.info.inObservation ∧
      r'.info.observationUntil = r.info.observationUntil

/-- The rows of a group after its cycle. -/
theorem has_tuneGroup (h : Scored t channels) (htwo : 2 ≤ channels.length)
    (hsamples : env.minSampleSize ≤ (channels.map ChannelScore.sampleCount).sum) :
    ∀ wp ∈ assigned t channels, Has (tuneGroup env now t channels) wp.1.score.channelId wp.2 := by
  have hids : (assigned t channels).map (fun wp => wp.1.score.channelId) =
      (sortedByScore channels).map ChannelScore.channelId := by
    rw [← map_fst_assigned t, List.map_map]
    rfl
  have hmem {wp : ChWithPriority S × Int} (hwp : wp ∈ assigned t channels) :
      wp.1.score ∈ sortedByScore channels ∧
        wp.1.priority = priorityOf t wp.1.score.channelId := by
    obtain ⟨ch, hch, heq⟩ := List.mem_map.1 (List.of_mem_zip hwp).1
    rw [← heq]
    exact ⟨hch, rfl⟩
  rw [tuneGroup_eq h htwo hsamples]
  refine has_foldl_tuneChannel ?_ ?_ ?_
  · rw [hids]
    exact ((perm_sortedByScore channels).map _).nodup_iff.2 h.nodup
  · intro wp hwp
    exact h.id_ne_zero _ ((perm_sortedByScore channels).mem_iff.1 (hmem hwp).1)
  · intro wp hwp
    rw [(hmem hwp).2]
    exact has_refresh h _ (hmem hwp).1

/-- A cycle of a group leaves the other channels alone. -/
theorem find_tuneGroup_of_not_mem {k : Int} (hk : k ∉ channels.map ChannelScore.channelId)
    (t : ClawdTable S) : (tuneGroup env now t channels).find k = t.find k := by
  have hne (ch : ChannelScore S) (hch : ch ∈ channels) : k ≠ ch.channelId := by
    rintro rfl
    exact hk (List.mem_map_of_mem hch)
  have hrefresh : (channels.foldl refreshScore t).find k = t.find k :=
    find_foldl (fun ch hch _ => find_refreshScore_of_ne (hne ch hch)) t
  rw [tuneGroup]
  split
  next => rfl
  next =>
    split
    next => exact hrefresh
    next =>
      dsimp only
      split
      next => exact hrefresh
      next =>
        rw [find_foldl, hrefresh]
        intro wp hwp t'
        obtain ⟨ch, hch, heq⟩ := List.mem_filterMap.1 (List.of_mem_zip hwp).1
        obtain ⟨orig, -, horig⟩ := Option.map_eq_some_iff.1 heq
        refine find_tuneChannel_of_ne ?_
        rw [← horig]
        exact hne ch ((perm_sortedByScore channels).mem_iff.1 hch)

/-- The cycle of a group, and exactly if none of its channels was under observation. -/
theorem tuned_tuneGroup_iff (now : Int) (h : Scored t channels) (htwo : 2 ≤ channels.length)
    (hsamples : env.minSampleSize ≤ (channels.map ChannelScore.sampleCount).sum) :
    Tuned now t (tuneGroup env now t channels) channels ↔
      ∀ c ∈ channels, ∀ r, t.find c.channelId = some r → r.underObservation now = false := by
  have hhas : ∀ wp ∈ assigned t channels,
      Has (tuneGroup env now t channels) wp.1.score.channelId wp.2 := has_tuneGroup h htwo hsamples
  have hpriority {wp : ChWithPriority S × Int} (hwp : wp ∈ assigned t channels) :
      priorityOf (tuneGroup env now t channels) wp.1.score.channelId = wp.2 :=
    priorityOf_of_has (hhas wp hwp)
  refine ⟨fun htuned c hc r hr => ?_, fun hnone => ⟨?_, ?_, ?_⟩⟩
  · obtain ⟨p, wp, hwp, rfl, -⟩ := exists_assigned (t := t) hc
    cases hobs : r.underObservation now with
    | false => rfl
    | true =>
        obtain ⟨r', hr', -, hkept, -⟩ := htuned.kept _ hc r hr hobs
        obtain ⟨q, hq, hended, -⟩ := hhas wp hwp
        rw [hr'] at hq
        cases hq
        rw [WatchedChannel.underObservation, ← hkept, hended] at hobs
        cases hobs
  · have hafter : (sortedByScore channels).map (fun ch =>
        priorityOf (tuneGroup env now t channels) ch.channelId) = priorities (ranked t channels) := by
      rw [← map_snd_assigned, ← map_fst_assigned t, List.map_map]
      exact List.map_congr_left fun wp hwp => hpriority hwp
    have hbefore : (ranked t channels).map ChWithPriority.priority =
        (sortedByScore channels).map fun ch => priorityOf t ch.channelId := by
      rw [ranked, List.map_map]
      rfl
    refine ((perm_sortedByScore channels).map _).symm.trans ?_
    rw [hafter]
    refine (List.perm_insertionSort _ _).trans ?_
    rw [hbefore]
    exact (perm_sortedByScore channels).map _
  · intro c hc d hd _ _ hlt
    obtain ⟨p, x, hx, rfl, rfl⟩ := exists_assigned (t := t) hc
    obtain ⟨q, y, hy, rfl, rfl⟩ := exists_assigned (t := t) hd
    rw [hpriority hx, hpriority hy]
    exact assigned_ordered hx hy hlt
  · intro c hc r hr hobs
    rw [hnone c hc r hr] at hobs
    cases hobs

/-- Only the rows of the group matter. -/
theorem Tuned.congr {before before' after after' : ClawdTable S} (h : Tuned now before after channels)
    (hbefore : ∀ c ∈ channels, before'.find c.channelId = before.find c.channelId)
    (hafter : ∀ c ∈ channels, after'.find c.channelId = after.find c.channelId) :
    Tuned now before' after' channels := by
  have hprev (c : ChannelScore S) (hc : c ∈ channels) :
      priorityOf before' c.channelId = priorityOf before c.channelId := by
    rw [priorityOf, hbefore c hc, priorityOf]
  have hnext (c : ChannelScore S) (hc : c ∈ channels) :
      priorityOf after' c.channelId = priorityOf after c.channelId := by
    rw [priorityOf, hafter c hc, priorityOf]
  refine ⟨?_, fun c hc d hd hcobs hdobs hlt => ?_, fun c hc r hr hobs => ?_⟩
  · rw [List.map_congr_left hprev, List.map_congr_left hnext]
    exact h.perm
  · rw [hbefore c hc] at hcobs
    rw [hbefore d hd] at hdobs
    rw [hnext c hc, hnext d hd]
    exact h.ordered c hc d hd hcobs hdobs hlt
  · rw [hbefore c hc] at hr
    rw [hafter c hc]
    exact h.kept c hc r hr hobs

theorem find_foldl_tuneGroup {k : Int}
    (hk : ∀ g ∈ groupStats, k ∉ g.map ChannelScore.channelId) (t : ClawdTable S) :
    (groupStats.foldl (tuneGroup env now) t).find k = t.find k :=
  find_foldl (fun g hg => find_tuneGroup_of_not_mem (hk g hg)) t

/-- A cycle tunes a group exactly if none of its channels was under observation. -/
theorem tuned_iff (h : Scored t groupStats.flatten) (hg : channels ∈ groupStats)
    (htwo : 2 ≤ channels.length)
    (hsamples : env.minSampleSize ≤ (channels.map ChannelScore.sampleCount).sum) :
    Tuned now t (runClawdTuneCycle env now t groupStats) channels ↔
      ∀ c ∈ channels, ∀ r, t.find c.channelId = some r → r.underObservation now = false := by
  obtain ⟨pre, post, rfl⟩ := List.append_of_mem hg
  have hmem {g : List (ChannelScore S)} {c : ChannelScore S} (hg : g ∈ pre ++ channels :: post)
      (hc : c ∈ g) : c ∈ (pre ++ channels :: post).flatten := List.mem_flatten.2 ⟨g, hg, hc⟩
  have hids := h.nodup
  rw [List.flatten_append, List.flatten_cons, List.map_append, List.map_append,
    List.nodup_append'] at hids
  obtain ⟨-, hrest, hpre⟩ := hids
  obtain ⟨hself, -, hpost⟩ := List.nodup_append'.1 hrest
  have hnotpre (c : ChannelScore S) (hc : c ∈ channels) (g : List (ChannelScore S)) (hg : g ∈ pre) :
      c.channelId ∉ g.map ChannelScore.channelId := by
    intro hin
    obtain ⟨d, hd, heq⟩ := List.mem_map.1 hin
    exact hpre (List.mem_map.2 ⟨d, List.mem_flatten.2 ⟨g, hg, hd⟩, heq⟩)
      (List.mem_append_left _ (List.mem_map_of_mem hc))
  have hnotpost (c : ChannelScore S) (hc : c ∈ channels) (g : List (ChannelScore S))
      (hg : g ∈ post) : c.channelId ∉ g.map ChannelScore.channelId := by
    intro hin
    obtain ⟨d, hd, heq⟩ := List.mem_map.1 hin
    exact hpost (List.mem_map_of_mem hc) (List.mem_map.2 ⟨d, List.mem_flatten.2 ⟨g, hg, hd⟩, heq⟩)
  -- The groups before it leave its rows alone, and so do those after it.
  have hbefore (c : ChannelScore S) (hc : c ∈ channels) :
      (pre.foldl (tuneGroup env now) t).find c.channelId = t.find c.channelId :=
    find_foldl_tuneGroup (hnotpre c hc) t
  have hafter (c : ChannelScore S) (hc : c ∈ channels) :
      (runClawdTuneCycle env now t (pre ++ channels :: post)).find c.channelId =
        (tuneGroup env now (pre.foldl (tuneGroup env now) t) channels).find c.channelId := by
    rw [runClawdTuneCycle, List.foldl_append, List.foldl_cons]
    exact find_foldl_tuneGroup (hnotpost c hc) _
  have hscored : Scored (pre.foldl (tuneGroup env now) t) channels := by
    refine ⟨hself, fun c hc => ?_, fun c hc => h.id_ne_zero c (hmem (by simp) hc)⟩
    rw [hbefore c hc]
    exact h.found c (hmem (by simp) hc)
  have hiff := tuned_tuneGroup_iff now hscored htwo hsamples
  refine ⟨fun htuned c hc r hr => ?_, fun hnone => ?_⟩
  · exact hiff.1 (htuned.congr hbefore fun c hc => (hafter c hc).symm) c hc r ((hbefore c hc).trans hr)
  · refine (hiff.2 fun c hc r hr => hnone c hc r ?_).congr (fun c hc => (hbefore c hc).symm) hafter
    rwa [hbefore c hc] at hr

end

/-! ## Two channels -/

/-- Two channels, of which the first may be under observation until the time 100. -/
def twoChannels (inObservation : Bool) : ClawdTable Int where
  rows := [⟨1, some 0, ⟨90, "", "", 0, "", 0, inObservation, 100⟩⟩,
    ⟨2, some 5, ⟨40, "", "", 0, "", 0, false, 0⟩⟩]
  nodup := by simp

def twoScores : List (ChannelScore Int) := [⟨1, 90, "", "", 30⟩, ⟨2, 40, "", "", 30⟩]

def clawdEnv : Env Int := ⟨fun _ _ => "", 20⟩

theorem scored_twoChannels (b : Bool) : Scored (twoChannels b) [twoScores].flatten := by
  refine ⟨by decide, ?_, by decide⟩
  cases b <;> decide

theorem tuned_iff_twoChannels :
    Tuned 50 (twoChannels false) (runClawdTuneCycle clawdEnv 50 (twoChannels false) [twoScores])
        twoScores ↔
      ∀ c ∈ twoScores, ∀ r, (twoChannels false).find c.channelId = some r →
        r.underObservation 50 = false :=
  tuned_iff (scored_twoChannels false) List.mem_cons_self (by decide) (by decide)

/-- The first channel is under observation, and it gets the other priority and is under
observation no more. -/
theorem observed_channel_tuned :
    ((twoChannels true).find 1).map (·.underObservation 50) = some true ∧
      priorityOf (twoChannels true) 1 = 0 ∧
      priorityOf (runClawdTuneCycle clawdEnv 50 (twoChannels true) [twoScores]) 1 = 5 ∧
      ((runClawdTuneCycle clawdEnv 50 (twoChannels true) [twoScores]).find 1).map
        (·.info.inObservation) = some false := by
  decide

end DazeApi.Channels.Clawd
