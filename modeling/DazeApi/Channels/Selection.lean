import DazeApi.Channels.Abilities
import DazeApi.Channels.Index
import DazeApi.Lib.Draw
import DazeApi.Lib.Levels

/-!
# Choosing a channel

A request for a group and a model gets one of the channels that serve them: of the
priority that its retry number falls on, and there at random by weight.  It is chosen from
the memory cache by `GetRandomSatisfiedChannel` (`model/channel_cache.go`) or from the
table of the abilities by `GetChannel` (`model/ability.go`).

The abilities are listed as the database keeps them, and a statement that sorts them by
weight leaves equal ones in this order.  Sums of weights are taken not to overflow.
-/

namespace DazeApi.Channels.Selection

open Abilities (Db Ability)

/-- `math/rand`.  `Intn` gives a number below its argument. -/
structure Rand where
  intn : Nat → Nat
  lt : ∀ n, 0 < n → intn n < n

/-! ## Model names -/

/-- `handleThinkingBudgetModel`. -/
def handleThinkingBudgetModel (name pre wildcard : String) : String :=
  if Text.hasPrefix name pre && Text.contains name "-thinking-" then wildcard else name

/-- `FormatMatchingModelName`. -/
def formatMatchingModelName (name : String) : String :=
  let name :=
    if Text.hasPrefix name "gemini-2.5-flash-lite" then
      handleThinkingBudgetModel name "gemini-2.5-flash-lite" "gemini-2.5-flash-lite-thinking-*"
    else if Text.hasPrefix name "gemini-2.5-flash" then
      handleThinkingBudgetModel name "gemini-2.5-flash" "gemini-2.5-flash-thinking-*"
    else if Text.hasPrefix name "gemini-2.5-pro" then
      handleThinkingBudgetModel name "gemini-2.5-pro" "gemini-2.5-pro-thinking-*"
    else name
  let name := if Text.hasPrefix name "gpt-4-gizmo" then "gpt-4-gizmo-*" else name
  if Text.hasPrefix name "gpt-4o-gizmo" then "gpt-4o-gizmo-*" else name

/-! ## Priorities -/

/-- `mapRetryToPriorityIndex`. -/
def mapRetryToPriorityIndex (retry numPriorities totalAttempts : Int) : Int :=
  if numPriorities ≤ 0 then 0
  else if retry < 0 then 0
  else
    let totalAttempts := if totalAttempts < numPriorities then numPriorities else totalAttempts
    let extras := totalAttempts - numPriorities
    let extras := if extras < 0 then 0 else extras
    let firstBucketCount := 1 + extras
    if retry < firstBucketCount then 0
    else
      let idx := 1 + (retry - firstBucketCount)
      if numPriorities ≤ idx then numPriorities - 1 else idx

/-- The index of a retry in the sorted priorities, which are not empty. -/
def priorityIdx (retryTimes : Int) (sortedPriorities : List Int) (retry : Int) : Nat :=
  (mapRetryToPriorityIndex retry sortedPriorities.length (retryTimes + 1)).toNat

/-- `sortedUniquePriorities[priorityIdx]`. -/
def targetPriority (retryTimes : Int) (priorities : List Int) (retry : Int) : Int :=
  let sorted := Levels.levels priorities
  sorted[priorityIdx retryTimes sorted retry]?.getD 0

/-! ## From the memory cache -/

/-- The ids of a group and a model, or of the group and the normalised name. -/
def channelIDs (s : Index.Cache) (group model : String) : List Int :=
  match s.group2model2channels group model with
  | [] => s.group2model2channels group (formatMatchingModelName model)
  | channels => channels

def missingChannel (id : Int) : String :=
  "数据库一致性错误，渠道# " ++ toString id ++ " 不存在，请联系管理员修复"

/-- The channel of an id in `channelsIDM`. -/
def cachedChannel (s : Index.Cache) (id : Int) : Except String Channel :=
  match s.channelsIDM id with
  | some c => .ok c
  | none => .error (missingChannel id)

/-- `smoothingFactor` and `smoothingAdjustment`. -/
def smoothing (targets : List Channel) : Nat × Nat :=
  let sumWeight := Draw.total Channel.getWeight targets
  if sumWeight = 0 then (1, 100)
  else if sumWeight / targets.length < 10 then (100, 0)
  else (1, 0)

/-- What a channel takes from the draw. -/
def smoothedWeight (targets : List Channel) (c : Channel) : Nat :=
  c.getWeight * (smoothing targets).1 + (smoothing targets).2

/-- `totalWeight`. -/
def totalWeight (targets : List Channel) : Nat :=
  let sumWeight := Draw.total Channel.getWeight targets
  (if sumWeight = 0 then targets.length * 100 else sumWeight) * (smoothing targets).1

/-- The choice among two ids or more, by priority and weight. -/
def chooseChannel (retryTimes : Int) (rand : Rand) (channels : List Channel) (group model : String)
    (retry : Int) : Except String (Option Channel) :=
  if channels = [] then
    .error ("no channels found for group: " ++ group ++ ", model: " ++ model)
  else
    let priority := targetPriority retryTimes (channels.map Channel.getPriority) retry
    let targets := channels.filter (·.getPriority = priority)
    if targets = [] then
      .error ("no channel found, group: " ++ group ++ ", model: " ++ model ++ ", priority: " ++
        toString priority)
    else
      match Draw.pick (smoothedWeight targets) 0 (rand.intn (totalWeight targets)) targets with
      | some c => .ok (some c)
      | none => .error "channel not found"

/-- `GetRandomSatisfiedChannel` with the memory cache. -/
def getRandomSatisfiedChannel (retryTimes : Int) (rand : Rand) (s : Index.Cache)
    (group model : String) (retry : Int) : Except String (Option Channel) :=
  match channelIDs s group model with
  | [] => .ok none
  | [id] => (cachedChannel s id).map some
  | ids => do
      let channels ← ids.mapM (cachedChannel s)
      chooseChannel retryTimes rand channels group model retry

/-! ## From the database -/

/-- A row of `abilities` with its key. -/
structure AbilityRow where
  group : String
  model : String
  channelId : Int
  ability : Ability
deriving DecidableEq, Repr

/-- The rows are those of the table. -/
structure Lists (s : Db) (rows : List AbilityRow) : Prop where
  nodup : rows.Nodup
  mem_iff : ∀ r, r ∈ rows ↔ s.abilities r.channelId r.group r.model = some r.ability

/-- `"group" = ? and model = ? and enabled = ?`. -/
def enabledRows (rows : List AbilityRow) (group model : String) : List AbilityRow :=
  rows.filter fun r => r.group = group && r.model = model && r.ability.enabled

/-- The column `priority` of the rows. -/
def priorities (rows : List AbilityRow) : List Int := rows.filterMap (·.ability.priority)

/-- `getPriority`. -/
def getPriority (retryTimes : Int) (rows : List AbilityRow) (group model : String) (retry : Int) :
    Except String Int :=
  let found := priorities (enabledRows rows group model)
  if found = [] then .error "数据库一致性被破坏"
  else .ok (targetPriority retryTimes found retry)

/-- The rows that the query of `getChannelQuery` finds. -/
def getChannelQuery (retryTimes : Int) (rows : List AbilityRow) (group model : String)
    (retry : Int) : Except String (List AbilityRow) :=
  let enabled := enabledRows rows group model
  if retry ≠ 0 then do
    let priority ← getPriority retryTimes rows group model retry
    .ok (enabled.filter (·.ability.priority = some priority))
  else
    match (priorities enabled).max? with
    | some priority => .ok (enabled.filter (·.ability.priority = some priority))
    | none => .ok []

/-- `Order("weight DESC")`. -/
def orderByWeight (abilities : List AbilityRow) : List AbilityRow :=
  abilities.insertionSort fun r q => q.ability.weight ≤ r.ability.weight

/-- What an ability takes from the draw. -/
def drawnWeight (r : AbilityRow) : Nat := r.ability.weight + 10

/-- The loop of `GetChannel`, which stops at 0 already. -/
def selectAbility (abilities : List AbilityRow) (weight : Nat) : Option AbilityRow :=
  Draw.pick drawnWeight 1 weight abilities

/-- `GetChannel`. -/
def getChannel (retryTimes : Int) (rand : Rand) (t : ChannelTable) (rows : List AbilityRow)
    (group model : String) (retry : Int) : Except String (Option Channel) := do
  let abilities ← getChannelQuery retryTimes rows group model retry
  match orderByWeight abilities with
  | [] => .ok none
  | abilities =>
      let weightSum := Draw.total drawnWeight abilities
      let id := ((selectAbility abilities (rand.intn weightSum)).map AbilityRow.channelId).getD 0
      match t.find id with
      | some c => .ok (some c)
      | none => .error "record not found"

/-! ## The level of a retry -/

theorem mapRetryToPriorityIndex_bounds {n : Int} (retry total : Int) (h : 0 < n) :
    0 ≤ mapRetryToPriorityIndex retry n total ∧ mapRetryToPriorityIndex retry n total < n := by
  simp only [mapRetryToPriorityIndex]
  split_ifs <;> omega

theorem mapRetryToPriorityIndex_zero (n total : Int) : mapRetryToPriorityIndex 0 n total = 0 := by
  simp only [mapRetryToPriorityIndex]
  split_ifs <;> omega

/-- A later retry falls on a later level. -/
theorem mapRetryToPriorityIndex_mono {retry retry' : Int} (n total : Int) (h : retry ≤ retry') :
    mapRetryToPriorityIndex retry n total ≤ mapRetryToPriorityIndex retry' n total := by
  simp only [mapRetryToPriorityIndex]
  split_ifs <;> omega

section

variable {retryTimes retry : Int} {ps : List Int} {p : Int}

/-- The number of the distinct priorities above one. -/
def rank (ps : List Int) (p : Int) : Nat := (ps.toFinset.filter (p < ·)).card

/-- The priority is the one that the retry falls on. -/
def AtLevel (retryTimes : Int) (ps : List Int) (retry p : Int) : Prop :=
  p ∈ ps ∧ rank ps p = mapRetryToPriorityIndex retry ps.toFinset.card (retryTimes + 1)

instance : Decidable (AtLevel retryTimes ps retry p) := inferInstanceAs (Decidable (_ ∧ _))

theorem card_pos (hps : ps ≠ []) : (0 : Int) < ps.toFinset.card := by
  rw [Int.natCast_pos, Finset.card_pos, List.toFinset_nonempty_iff]
  exact hps

theorem priorityIdx_levels (retryTimes retry : Int) (hps : ps ≠ []) :
    (priorityIdx retryTimes (Levels.levels ps) retry : Int) =
        mapRetryToPriorityIndex retry ps.toFinset.card (retryTimes + 1) ∧
      priorityIdx retryTimes (Levels.levels ps) retry < (Levels.levels ps).length := by
  obtain ⟨hpos, hlt⟩ := mapRetryToPriorityIndex_bounds retry (retryTimes + 1) (card_pos hps)
  rw [priorityIdx, Levels.length_levels, Int.toNat_of_nonneg hpos]
  exact ⟨rfl, (Int.toNat_lt hpos).2 hlt⟩

theorem getElem?_targetPriority (retryTimes retry : Int) (hps : ps ≠ []) :
    (Levels.levels ps)[priorityIdx retryTimes (Levels.levels ps) retry]? =
      some (targetPriority retryTimes ps retry) := by
  obtain ⟨-, hlt⟩ := priorityIdx_levels retryTimes retry hps
  simp [targetPriority, List.getElem?_eq_getElem hlt]

theorem atLevel_targetPriority (retryTimes retry : Int) (hps : ps ≠ []) :
    AtLevel retryTimes ps retry (targetPriority retryTimes ps retry) := by
  obtain ⟨hmem, hrank⟩ := Levels.getElem?_levels_iff.1 (getElem?_targetPriority retryTimes retry hps)
  refine ⟨hmem, ?_⟩
  rw [rank, hrank]
  exact (priorityIdx_levels retryTimes retry hps).1

/-- There is one priority that a retry falls on. -/
theorem atLevel_iff (hps : ps ≠ []) :
    AtLevel retryTimes ps retry p ↔ p = targetPriority retryTimes ps retry := by
  constructor
  · rintro ⟨hp, hrank⟩
    have hidx : (ps.toFinset.filter (p < ·)).card =
        priorityIdx retryTimes (Levels.levels ps) retry := by
      have hcast := (priorityIdx_levels retryTimes retry hps).1
      rw [rank] at hrank
      omega
    have hget := Levels.getElem?_levels_iff.2 ⟨hp, hidx⟩
    rw [getElem?_targetPriority retryTimes retry hps] at hget
    exact (Option.some.inj hget).symm
  · rintro rfl
    exact atLevel_targetPriority retryTimes retry hps

/-- A later retry falls on a priority that is not higher. -/
theorem AtLevel.le {retry' p' : Int} (h : AtLevel retryTimes ps retry p)
    (h' : AtLevel retryTimes ps retry' p') (hle : retry ≤ retry') : p' ≤ p := by
  have hmono := mapRetryToPriorityIndex_mono (ps.toFinset.card : Int) (retryTimes + 1) hle
  have hrank : rank ps p ≤ rank ps p' := by
    have hp := h.2
    have hp' := h'.2
    omega
  exact Levels.le_of_getElem?_levels (Levels.getElem?_levels_iff.2 ⟨h.1, rfl⟩)
    (Levels.getElem?_levels_iff.2 ⟨h'.1, rfl⟩) hrank

/-- The first try falls on the maximum. -/
theorem max?_eq_targetPriority (retryTimes : Int) (hps : ps ≠ []) :
    ps.max? = some (targetPriority retryTimes ps 0) := by
  have hget := getElem?_targetPriority retryTimes 0 hps
  rw [priorityIdx, mapRetryToPriorityIndex_zero, Int.toNat_zero,
    Levels.getElem?_levels_zero_iff] at hget
  exact List.max?_eq_some_iff.2 hget

end

/-! ## What can be drawn -/

section

variable {n : Nat} {P : Nat → Prop}

/-- A generator that gives one number. -/
def Rand.const (d n : Nat) (h : d < n) : Rand where
  intn m := if m = n then d else 0
  lt := by
    intro m hm
    split
    next heq => exact heq ▸ h
    next => exact hm

theorem exists_rand_iff (hn : 0 < n) : (∃ rand : Rand, P (rand.intn n)) ↔ ∃ d < n, P d := by
  constructor
  · rintro ⟨rand, h⟩
    exact ⟨rand.intn n, rand.lt n hn, h⟩
  · rintro ⟨d, hd, h⟩
    refine ⟨.const d n hd, ?_⟩
    simpa [Rand.const] using h

end

section

variable {retryTimes retry : Int} {channels targets : List Channel} {group model : String}
  {c : Channel}

theorem totalWeight_eq (targets : List Channel) :
    totalWeight targets = Draw.total (smoothedWeight targets) targets := by
  have haffine : Draw.total (smoothedWeight targets) targets =
      Draw.total Channel.getWeight targets * (smoothing targets).1 +
        targets.length * (smoothing targets).2 := Draw.total_affine _ _ targets
  rw [haffine, totalWeight, smoothing]
  split_ifs <;> simp [*]

/-- A channel takes some of the draw if it has a weight, or none of them has. -/
theorem smoothedWeight_pos_iff :
    0 < smoothedWeight targets c ↔ 0 < c.getWeight ∨ ∀ d ∈ targets, d.getWeight = 0 := by
  rw [smoothedWeight, smoothing, ← Draw.total_eq_zero_iff]
  split_ifs with h <;> simp [h]

theorem totalWeight_pos (h : targets ≠ []) : 0 < totalWeight targets := by
  obtain ⟨c, hc⟩ := List.exists_mem_of_ne_nil _ h
  rw [totalWeight_eq, Nat.pos_iff_ne_zero]
  intro hzero
  rw [Draw.total_eq_zero_iff] at hzero
  have hall (d : Channel) (hd : d ∈ targets) : d.getWeight = 0 := by
    by_contra hw
    exact absurd (hzero d hd) (Nat.pos_iff_ne_zero.1 (smoothedWeight_pos_iff.2 (Or.inl (by omega))))
  exact absurd (hzero c hc) (Nat.pos_iff_ne_zero.1 (smoothedWeight_pos_iff.2 (Or.inr hall)))

/-- The channels of the level that the retry falls on, except for those without a weight
beside others that have one. -/
theorem exists_chooseChannel_iff (hne : channels ≠ []) :
    (∃ rand, chooseChannel retryTimes rand channels group model retry = .ok (some c)) ↔
      c ∈ channels ∧ AtLevel retryTimes (channels.map Channel.getPriority) retry c.getPriority ∧
        (0 < c.getWeight ∨ ∀ d ∈ channels,
          AtLevel retryTimes (channels.map Channel.getPriority) retry d.getPriority →
            d.getWeight = 0) := by
  have hps : channels.map Channel.getPriority ≠ [] := by simpa using hne
  simp only [atLevel_iff hps]
  obtain ⟨d, hd, hdp⟩ := List.mem_map.1 (atLevel_targetPriority retryTimes retry hps).1
  have htargets : (channels.filter (·.getPriority =
      targetPriority retryTimes (channels.map Channel.getPriority) retry)) ≠ [] :=
    List.ne_nil_of_mem (List.mem_filter.2 ⟨hd, by simpa using hdp⟩)
  simp only [chooseChannel, hne, htargets, if_false]
  have hpick (rand : Rand) (targets : List Channel) :
      (match Draw.pick (smoothedWeight targets) 0 (rand.intn (totalWeight targets)) targets with
        | some c => (.ok (some c) : Except String (Option Channel))
        | none => .error "channel not found") = .ok (some c) ↔
        Draw.pick (smoothedWeight targets) 0 (rand.intn (totalWeight targets)) targets = some c := by
    split <;> simp [*]
  simp only [hpick]
  rw [exists_rand_iff (P := fun d => Draw.pick _ 0 (d : Int) _ = some c) (totalWeight_pos htargets),
    totalWeight_eq, Draw.exists_pick_zero_iff, smoothedWeight_pos_iff]
  simp only [List.mem_filter, decide_eq_true_eq, and_assoc, and_imp]

/-- The cached channels of a group and a model. -/
def channelsOf (s : Index.Cache) (group model : String) : List Channel :=
  (channelIDs s group model).filterMap s.channelsIDM

theorem mapM_cachedChannel {s : Index.Cache} :
    ∀ {ids : List Int} {channels : List Channel}, ids.mapM (cachedChannel s) = .ok channels →
      channels = ids.filterMap s.channelsIDM
  | [], channels, h => by
      cases h
      rfl
  | id :: ids, channels, h => by
      rw [List.mapM_cons] at h
      cases hid : s.channelsIDM id with
      | none =>
          have herror : cachedChannel s id = .error (missingChannel id) := by simp [cachedChannel, hid]
          rw [herror] at h
          cases h
      | some c =>
          have hok : cachedChannel s id = .ok c := by simp [cachedChannel, hid]
          rw [hok] at h
          cases hrest : ids.mapM (cachedChannel s) with
          | error e =>
              rw [hrest] at h
              cases h
          | ok rest =>
              rw [hrest] at h
              cases h
              rw [mapM_cachedChannel hrest, List.filterMap_cons, hid]

/-- The channel that the cache gives is on the level that the retry falls on. -/
theorem atLevel_getRandomSatisfiedChannel {s : Index.Cache} {rand : Rand}
    (h : getRandomSatisfiedChannel retryTimes rand s group model retry = .ok (some c)) :
    AtLevel retryTimes ((channelsOf s group model).map Channel.getPriority) retry
      c.getPriority := by
  simp only [getRandomSatisfiedChannel] at h
  split at h
  next => cases h
  next id hids =>
    cases hid : s.channelsIDM id with
    | none =>
        simp only [cachedChannel, hid] at h
        cases h
    | some d =>
        simp only [cachedChannel, hid] at h
        cases h
        have hone : (channelsOf s group model).map Channel.getPriority = [c.getPriority] := by
          simp [channelsOf, hids, hid]
        have hlevel : AtLevel retryTimes [c.getPriority] retry
            (targetPriority retryTimes [c.getPriority] retry) :=
          atLevel_targetPriority retryTimes retry (by simp)
        rw [hone]
        rwa [List.mem_singleton.1 hlevel.1] at hlevel
  next ids hnil hone =>
    cases hmap : (channelIDs s group model).mapM (cachedChannel s) with
    | error e =>
        rw [hmap] at h
        cases h
    | ok channels =>
        rw [hmap] at h
        have hchoose : chooseChannel retryTimes rand channels group model retry = .ok (some c) := h
        have hne : channels ≠ [] := by
          rintro rfl
          simp [chooseChannel] at hchoose
        have hlevel := ((exists_chooseChannel_iff hne).1 ⟨rand, hchoose⟩).2.1
        rwa [mapM_cachedChannel hmap] at hlevel

end

/-! ## What the database gives -/

section

variable {retryTimes retry : Int} {t : ChannelTable} {rows abilities : List AbilityRow}
  {group model : String} {id : Int} {r : AbilityRow}

theorem mem_priorities_iff {p : Int} :
    p ∈ priorities rows ↔ ∃ r ∈ rows, r.ability.priority = some p := by
  simp [priorities]

/-- Where there is a priority, both queries find the rows of the level. -/
theorem getChannelQuery_eq (hps : priorities (enabledRows rows group model) ≠ []) :
    getChannelQuery retryTimes rows group model retry =
      .ok ((enabledRows rows group model).filter (·.ability.priority =
        some (targetPriority retryTimes (priorities (enabledRows rows group model)) retry))) := by
  simp only [getChannelQuery]
  split
  next =>
    simp only [getPriority, hps, if_false]
    rfl
  next hretry =>
    rw [not_not] at hretry
    rw [hretry, max?_eq_targetPriority retryTimes hps]

theorem getChannelQuery_nil (hps : priorities (enabledRows rows group model) = [])
    (h : getChannelQuery retryTimes rows group model retry = .ok abilities) : abilities = [] := by
  simp only [getChannelQuery] at h
  split at h
  next =>
    simp only [getPriority, hps, if_true] at h
    cases h
  next =>
    simp only [hps, List.max?_nil] at h
    cases h
    rfl

/-- The query finds the enabled rows of the level that the retry falls on. -/
theorem mem_getChannelQuery_iff
    (h : getChannelQuery retryTimes rows group model retry = .ok abilities) :
    r ∈ abilities ↔ r ∈ enabledRows rows group model ∧ ∃ p, r.ability.priority = some p ∧
      AtLevel retryTimes (priorities (enabledRows rows group model)) retry p := by
  by_cases hps : priorities (enabledRows rows group model) = []
  · rw [getChannelQuery_nil hps h]
    simp [AtLevel, hps]
  · rw [getChannelQuery_eq hps] at h
    cases h
    simp [atLevel_iff hps]

theorem nodup_getChannelQuery (hrows : rows.Nodup)
    (h : getChannelQuery retryTimes rows group model retry = .ok abilities) : abilities.Nodup := by
  by_cases hps : priorities (enabledRows rows group model) = []
  · rw [getChannelQuery_nil hps h]
    exact List.nodup_nil
  · rw [getChannelQuery_eq hps] at h
    cases h
    exact (hrows.filter _).filter _

@[simp] theorem mem_orderByWeight : r ∈ orderByWeight abilities ↔ r ∈ abilities :=
  List.mem_insertionSort _

theorem nodup_orderByWeight (h : abilities.Nodup) : (orderByWeight abilities).Nodup :=
  (List.perm_insertionSort _ _).nodup_iff.2 h

/-- Every ability can be selected. -/
theorem exists_selectAbility_iff :
    (∃ d, d < Draw.total drawnWeight abilities ∧ selectAbility abilities d = some r) ↔
      r ∈ abilities :=
  Draw.exists_pick_one_iff fun r _ => by simp [drawnWeight]

theorem getChannel_of_select {rand : Rand} {c : Channel}
    (hq : getChannelQuery retryTimes rows group model retry = .ok abilities)
    (hselect : selectAbility (orderByWeight abilities)
      (rand.intn (Draw.total drawnWeight (orderByWeight abilities))) = some r)
    (hc : t.find r.channelId = some c) :
    getChannel retryTimes rand t rows group model retry = .ok (some c) := by
  have hquery : getChannel retryTimes rand t rows group model retry =
      match orderByWeight abilities with
      | [] => .ok none
      | abilities =>
          match t.find (((selectAbility abilities
            (rand.intn (Draw.total drawnWeight abilities))).map AbilityRow.channelId).getD 0) with
          | some c => .ok (some c)
          | none => .error "record not found" := by
    rw [getChannel, hq]
    rfl
  rw [hquery]
  cases hord : orderByWeight abilities with
  | nil =>
      rw [hord] at hselect
      cases hselect
  | cons q qs =>
      rw [hord] at hselect
      simp only [hselect, Option.map_some, Option.getD_some, hc]

theorem getChannel_of_nil {rand : Rand}
    (hq : getChannelQuery retryTimes rows group model retry = .ok []) :
    getChannel retryTimes rand t rows group model retry = .ok none := by
  rw [getChannel, hq]
  rfl

/-- Some ability is selected by every number below the sum. -/
theorem exists_selectAbility {d : Nat} (h : d < Draw.total drawnWeight abilities) :
    ∃ r ∈ abilities, selectAbility abilities d = some r := by
  have hne : abilities ≠ [] := by
    rintro rfl
    simp at h
  have hpick : ∃ r ∈ abilities, Draw.pick drawnWeight 1 d (abilities ++ []) = some r :=
    Draw.exists_pick_of_lt drawnWeight [] hne (by omega)
  rwa [List.append_nil] at hpick

/-- The channels of the rows at the level that the retry falls on. -/
theorem exists_getChannel_iff (hfound : ∀ r ∈ rows, ∃ c, t.find r.channelId = some c) :
    (∃ rand c, getChannel retryTimes rand t rows group model retry = .ok (some c) ∧ c.id = id) ↔
      ∃ r ∈ enabledRows rows group model, r.channelId = id ∧ ∃ p, r.ability.priority = some p ∧
        AtLevel retryTimes (priorities (enabledRows rows group model)) retry p := by
  cases hq : getChannelQuery retryTimes rows group model retry with
  | error e =>
      have hps : priorities (enabledRows rows group model) = [] := by
        by_contra hps
        rw [getChannelQuery_eq hps] at hq
        cases hq
      constructor
      · rintro ⟨rand, c, h, -⟩
        rw [getChannel, hq] at h
        cases h
      · rintro ⟨r, -, -, p, -, hp⟩
        simp [AtLevel, hps] at hp
  | ok abilities =>
      have hmem (r : AbilityRow) := mem_getChannelQuery_iff (r := r) hq
      constructor
      · rintro ⟨rand, c, h, rfl⟩
        cases habs : abilities with
        | nil =>
            rw [habs] at hq
            rw [getChannel_of_nil hq] at h
            cases h
        | cons q qs =>
            have hpos : 0 < Draw.total drawnWeight (orderByWeight abilities) := by
              rw [Nat.pos_iff_ne_zero, Ne, Draw.total_eq_zero_iff]
              intro hzero
              simpa [drawnWeight] using hzero q (by simp [habs])
            obtain ⟨r, hr, hselect⟩ := exists_selectAbility (rand.lt _ hpos)
            rw [mem_orderByWeight] at hr
            obtain ⟨henabled, hlevel⟩ := (hmem r).1 hr
            obtain ⟨c', hc'⟩ := hfound r (List.mem_of_mem_filter henabled)
            rw [getChannel_of_select hq hselect hc'] at h
            cases h
            exact ⟨r, henabled, (Table.key_of_find hc').symm, hlevel⟩
      · rintro ⟨r, henabled, rfl, hlevel⟩
        have hr : r ∈ orderByWeight abilities := mem_orderByWeight.2 ((hmem r).2 ⟨henabled, hlevel⟩)
        obtain ⟨d, hd, hselect⟩ := exists_selectAbility_iff.2 hr
        obtain ⟨c, hc⟩ := hfound r (List.mem_of_mem_filter henabled)
        refine ⟨.const d _ hd, c, ?_, Table.key_of_find hc⟩
        exact getChannel_of_select hq (by simpa [Rand.const] using hselect) hc

/-! ## How often an ability is drawn -/

/-- The numbers below the sum that select an ability. -/
def draws (abilities : List AbilityRow) (r : AbilityRow) : Nat :=
  (List.range (Draw.total drawnWeight abilities)).countP fun d =>
    selectAbility abilities d = some r

/-- Every ability is drawn by its weight and 10, except that one draw of the last ability
selects the first one. -/
theorem draws_eq (pre post : List AbilityRow) (h : (pre ++ r :: post).Nodup) :
    draws (pre ++ r :: post) r + (if post = [] then 1 else 0) =
      drawnWeight r + if pre = [] then 1 else 0 := by
  refine Draw.countP_pick_one h (by simp [drawnWeight]) ?_
  cases post with
  | nil => exact Or.inl rfl
  | cons q qs => exact Or.inr (by simp [drawnWeight])

/-- So the draws of all abilities are right exactly if there is no second one. -/
theorem forall_draws_iff (h : abilities.Nodup) :
    (∀ r ∈ abilities, draws abilities r = r.ability.weight + 10) ↔
      ∀ r ∈ abilities, ∀ q ∈ abilities, r = q := by
  cases abilities with
  | nil => simp
  | cons r post =>
      have hfirst := draws_eq [] post h
      cases post with
      | nil =>
          simp only [List.nil_append, if_true] at hfirst
          simp only [List.mem_singleton, forall_eq, drawnWeight] at hfirst ⊢
          exact iff_of_true (by omega) trivial
      | cons q qs =>
          simp only [List.nil_append, List.cons_ne_nil, if_true, if_false] at hfirst
          refine iff_of_false ?_ ?_
          · intro hall
            have hr := hall r List.mem_cons_self
            simp only [drawnWeight] at hfirst
            omega
          · intro hall
            have hq : r = q := hall r List.mem_cons_self q (by simp)
            exact (List.nodup_cons.1 h).1 (by simp [hq])

end

end DazeApi.Channels.Selection
