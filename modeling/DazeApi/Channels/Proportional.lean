import DazeApi.Channels.Selection

/-!
# The draws of a channel

`GetRandomSatisfiedChannel` (`model/channel_cache.go`) in the integers of the program.  A
weight is an `int` made of a `uint`, and the sums and products of weights wrap around.

As long as the total weight fits, this is the choice of `Selection`, and a channel is
selected by as many numbers as its smoothed weight.  A total that does not fit can wrap to
zero, and `rand.Intn` panics.  A call that panics is modelled by `none`.
-/

namespace DazeApi.Channels.Proportional

open Selection (Rand cachedChannel channelIDs channelsOf targetPriority)

/-- `GetWeight`, with `int(*channel.Weight)`. -/
def getWeight (c : Channel) : Int := Draw.wrap c.getWeight

/-- `sumWeight` after the loop over the channels of the priority. -/
def sumWeight (targets : List Channel) : Int := Draw.wrapTotal getWeight targets

/-- `sumWeight`, `smoothingFactor` and `smoothingAdjustment`. -/
def smoothing (targets : List Channel) : Int × Int × Int :=
  let sum := sumWeight targets
  if sum = 0 then (Draw.wrap (targets.length * 100), 1, 100)
  else if sum.tdiv targets.length < 10 then (sum, 100, 0)
  else (sum, 1, 0)

/-- `totalWeight`. -/
def totalWeight (targets : List Channel) : Int :=
  Draw.wrap ((smoothing targets).1 * (smoothing targets).2.1)

/-- What the loop subtracts for a channel. -/
def smoothedWeight (targets : List Channel) (c : Channel) : Int :=
  Draw.wrap (Draw.wrap (getWeight c * (smoothing targets).2.1) + (smoothing targets).2.2)

/-- The channels of the target priority. -/
def targetChannels (retryTimes : Int) (channels : List Channel) (retry : Int) : List Channel :=
  let priority := targetPriority retryTimes (channels.map Channel.getPriority) retry
  channels.filter (·.getPriority = priority)

/-- The choice among two ids or more. -/
def chooseChannel (retryTimes : Int) (rand : Rand) (channels : List Channel) (group model : String)
    (retry : Int) : Option (Except String (Option Channel)) :=
  if channels = [] then
    some (.error ("no channels found for group: " ++ group ++ ", model: " ++ model))
  else
    let targets := targetChannels retryTimes channels retry
    if targets = [] then
      some (.error ("no channel found, group: " ++ group ++ ", model: " ++ model ++
        ", priority: " ++
        toString (targetPriority retryTimes (channels.map Channel.getPriority) retry)))
    else if totalWeight targets ≤ 0 then none
    else
      match Draw.wrapPick (smoothedWeight targets) (rand.intn (totalWeight targets).toNat) targets with
      | some c => some (.ok (some c))
      | none => some (.error "channel not found")

/-- `GetRandomSatisfiedChannel` with the memory cache. -/
def getRandomSatisfiedChannel (retryTimes : Int) (rand : Rand) (s : Index.Cache)
    (group model : String) (retry : Int) : Option (Except String (Option Channel)) :=
  match channelIDs s group model with
  | [] => some (.ok none)
  | [id] => some ((cachedChannel s id).map some)
  | ids =>
      match ids.mapM (cachedChannel s) with
      | .ok channels => chooseChannel retryTimes rand channels group model retry
      | .error e => some (.error e)

/-! ## A total that fits -/

section

variable {retryTimes retry : Int} {rand : Rand} {s : Index.Cache} {channels targets : List Channel}
  {group model : String} {c : Channel}

theorem total_le_totalWeight (targets : List Channel) :
    Draw.total Channel.getWeight targets ≤ Selection.totalWeight targets := by
  rw [Selection.totalWeight, Selection.smoothing]
  split
  next hzero => omega
  next => split <;> omega

theorem getWeight_eq (hfits : Selection.totalWeight targets < 2 ^ 63) (hc : c ∈ targets) :
    getWeight c = c.getWeight := by
  have hle : c.getWeight ≤ Draw.total Channel.getWeight targets :=
    List.single_le_sum (by simp) _ (List.mem_map_of_mem hc)
  have hsum := total_le_totalWeight targets
  exact Draw.wrap_of_lt (by omega) (by omega)

theorem sumWeight_eq (hfits : Selection.totalWeight targets < 2 ^ 63) :
    sumWeight targets = Draw.total Channel.getWeight targets := by
  have hsum := total_le_totalWeight targets
  exact Draw.wrapTotal_eq (fun _ hc => getWeight_eq hfits hc) (by omega)

theorem smoothing_eq (hfits : Selection.totalWeight targets < 2 ^ 63) :
    smoothing targets =
      ((if Draw.total Channel.getWeight targets = 0 then ((targets.length * 100 : Nat) : Int)
        else Draw.total Channel.getWeight targets),
        ((Selection.smoothing targets).1 : Int), ((Selection.smoothing targets).2 : Int)) := by
  have hsum := sumWeight_eq hfits
  rw [Selection.totalWeight, Selection.smoothing] at hfits
  rw [smoothing, Selection.smoothing, hsum]
  by_cases hzero : Draw.total Channel.getWeight targets = 0
  · rw [if_pos hzero, if_pos hzero] at hfits
    have hwrap : Draw.wrap ((targets.length : Int) * 100) = targets.length * 100 :=
      Draw.wrap_of_lt (by omega) (by omega)
    simp [hzero, hwrap]
  · have hdiv : (Draw.total Channel.getWeight targets : Int).tdiv targets.length =
        (Draw.total Channel.getWeight targets / targets.length : Nat) := by
      rw [Int.tdiv_eq_ediv_of_nonneg (by omega), Int.natCast_div]
    by_cases hsmall : Draw.total Channel.getWeight targets / targets.length < 10
    · simp only [hdiv, hzero, hsmall, if_true, if_false]
      rw [if_neg (by omega), if_pos (by omega)]
      rfl
    · simp only [hdiv, hzero, hsmall, if_false]
      rw [if_neg (by omega), if_neg (by omega)]
      rfl

theorem totalWeight_eq (hfits : Selection.totalWeight targets < 2 ^ 63) :
    totalWeight targets = Selection.totalWeight targets := by
  have hprod : (smoothing targets).1 * (smoothing targets).2.1 =
      (Selection.totalWeight targets : Int) := by
    rw [smoothing_eq hfits, Selection.totalWeight]
    push_cast
    rfl
  rw [totalWeight, hprod]
  exact Draw.wrap_of_lt (by omega) (by omega)

theorem smoothed_eq (hfits : Selection.totalWeight targets < 2 ^ 63) (hc : c ∈ targets) :
    getWeight c * (smoothing targets).2.1 + (smoothing targets).2.2 =
      Selection.smoothedWeight targets c := by
  rw [getWeight_eq hfits hc, smoothing_eq hfits, Selection.smoothedWeight]
  push_cast
  rfl

theorem smoothedWeight_eq (hfits : Selection.totalWeight targets < 2 ^ 63) (hc : c ∈ targets) :
    smoothedWeight targets c = Selection.smoothedWeight targets c := by
  have hle : Selection.smoothedWeight targets c ≤ Selection.totalWeight targets := by
    rw [Selection.totalWeight_eq]
    exact List.single_le_sum (by simp) _ (List.mem_map_of_mem hc)
  rw [Selection.smoothedWeight] at hle
  have hfactor : (smoothing targets).2.1 = (Selection.smoothing targets).1 := by
    rw [smoothing_eq hfits]
  have hadjustment : (smoothing targets).2.2 = (Selection.smoothing targets).2 := by
    rw [smoothing_eq hfits]
  rw [smoothedWeight, getWeight_eq hfits hc, hfactor, hadjustment, ← Int.natCast_mul,
    Draw.wrap_natCast (by omega), ← Int.natCast_add, Draw.wrap_natCast (by omega)]
  rfl

theorem targetChannels_ne_nil (retryTimes retry : Int) (hne : channels ≠ []) :
    targetChannels retryTimes channels retry ≠ [] := by
  have hps : channels.map Channel.getPriority ≠ [] := by simpa using hne
  obtain ⟨c, hc, hpriority⟩ :=
    List.mem_map.1 (Selection.atLevel_targetPriority retryTimes retry hps).1
  exact List.ne_nil_of_mem (List.mem_filter.2 ⟨hc, by simpa using hpriority⟩)

/-- The channel that a number below the total weight falls on. -/
def drawn (targets : List Channel) (r : Nat) : Option Channel :=
  Draw.pick (Selection.smoothedWeight targets) 0 r targets

theorem exists_drawn {r : Nat} (hr : r < Selection.totalWeight targets) :
    ∃ c ∈ targets, drawn targets r = some c := by
  rw [Selection.totalWeight_eq] at hr
  have hne : targets ≠ [] := by
    rintro rfl
    simp at hr
  have hpick : ∃ c ∈ targets, Draw.pick (Selection.smoothedWeight targets) 0 r (targets ++ []) =
      some c := Draw.exists_pick_of_lt (Selection.smoothedWeight targets) [] hne (by omega)
  rwa [List.append_nil] at hpick

theorem chooseChannel_eq (hne : channels ≠ [])
    (hfits : Selection.totalWeight (targetChannels retryTimes channels retry) < 2 ^ 63)
    (hdrawn : drawn (targetChannels retryTimes channels retry)
      (rand.intn (Selection.totalWeight (targetChannels retryTimes channels retry))) = some c) :
    chooseChannel retryTimes rand channels group model retry = some (.ok (some c)) := by
  have htargets := targetChannels_ne_nil retryTimes retry hne
  have htotal := totalWeight_eq hfits
  have hpos := Selection.totalWeight_pos htargets
  have hrand := rand.lt _ hpos
  have hpick : Draw.wrapPick (smoothedWeight (targetChannels retryTimes channels retry))
      (rand.intn (Selection.totalWeight (targetChannels retryTimes channels retry)))
      (targetChannels retryTimes channels retry) = some c := by
    rw [← hdrawn]
    refine Draw.wrapPick_eq (fun c hc => smoothedWeight_eq hfits hc) ?_ (by omega) (by omega)
    rw [← Selection.totalWeight_eq]
    exact hfits
  rw [chooseChannel, if_neg hne]
  simp only [htargets, htotal, if_false, Int.toNat_natCast, hpick]
  exact if_neg (by omega)

theorem mapM_cachedChannel (hcached : ∀ id ∈ channelIDs s group model, s.channelsIDM id ≠ none) :
    (channelIDs s group model).mapM (cachedChannel s) = .ok (channelsOf s group model) := by
  rw [channelsOf]
  generalize channelIDs s group model = ids at hcached ⊢
  induction ids with
  | nil => rfl
  | cons id ids ih =>
      obtain ⟨hid, hids⟩ := List.forall_mem_cons.1 hcached
      obtain ⟨c, hc⟩ := Option.ne_none_iff_exists'.1 hid
      have hok : cachedChannel s id = .ok c := by rw [cachedChannel, hc]
      rw [List.mapM_cons, hok, ih hids, List.filterMap_cons_some hc]
      rfl

/-- A call gives the channel that its number falls on. -/
theorem getRandomSatisfiedChannel_eq (hne : channelsOf s group model ≠ [])
    (hcached : ∀ id ∈ channelIDs s group model, s.channelsIDM id ≠ none)
    (hfits : Selection.totalWeight (targetChannels retryTimes (channelsOf s group model) retry) <
      2 ^ 63)
    (hdrawn : drawn (targetChannels retryTimes (channelsOf s group model) retry)
      (rand.intn (Selection.totalWeight
        (targetChannels retryTimes (channelsOf s group model) retry))) = some c) :
    getRandomSatisfiedChannel retryTimes rand s group model retry = some (.ok (some c)) := by
  have hmap := mapM_cachedChannel hcached
  rw [getRandomSatisfiedChannel]
  split
  next hids =>
    rw [channelsOf, hids] at hne
    exact absurd rfl hne
  next id hids =>
    obtain ⟨d, hd⟩ := Option.ne_none_iff_exists'.1 (hcached id (by rw [hids]; exact List.mem_cons_self))
    have hone : channelsOf s group model = [d] := by rw [channelsOf, hids, List.filterMap_cons_some hd]; rfl
    have hmem : c ∈ targetChannels retryTimes (channelsOf s group model) retry :=
      Draw.mem_of_pick hdrawn
    have hcd : c = d := by
      have hc := List.mem_of_mem_filter hmem
      rw [hone] at hc
      exact List.mem_singleton.1 hc
    rw [cachedChannel, hd, hcd]
    rfl
  next =>
    rw [hmap]
    exact chooseChannel_eq hne hfits hdrawn

theorem getRandomSatisfiedChannel_iff (hne : channelsOf s group model ≠ [])
    (hcached : ∀ id ∈ channelIDs s group model, s.channelsIDM id ≠ none)
    (hfits : Selection.totalWeight (targetChannels retryTimes (channelsOf s group model) retry) <
      2 ^ 63) :
    getRandomSatisfiedChannel retryTimes rand s group model retry = some (.ok (some c)) ↔
      drawn (targetChannels retryTimes (channelsOf s group model) retry)
        (rand.intn (Selection.totalWeight
          (targetChannels retryTimes (channelsOf s group model) retry))) = some c := by
  have hpos := Selection.totalWeight_pos (targetChannels_ne_nil retryTimes retry hne)
  obtain ⟨d, -, hdrawn⟩ := exists_drawn (rand.lt _ hpos)
  rw [getRandomSatisfiedChannel_eq hne hcached hfits hdrawn, hdrawn]
  simp

/-- A channel of the target priority is selected by as many numbers as its smoothed weight,
every number selects one of them, and there is a number. -/
theorem draws_proportional (hne : channelsOf s group model ≠ [])
    (hcached : ∀ id ∈ channelIDs s group model, s.channelsIDM id ≠ none)
    (hset : (channelsOf s group model).Nodup)
    (hfits : Selection.totalWeight (targetChannels retryTimes (channelsOf s group model) retry) <
      2 ^ 63) :
    let targets := targetChannels retryTimes (channelsOf s group model) retry
    0 < totalWeight targets ∧
      (∀ c ∈ targets,
        ((List.finRange (totalWeight targets).toNat).countP fun r : Fin _ =>
          getRandomSatisfiedChannel retryTimes (.const r _ r.isLt) s group model retry =
            some (.ok (some c))) =
          getWeight c * (smoothing targets).2.1 + (smoothing targets).2.2) ∧
      ∀ rand, ∃ c ∈ targets,
        getRandomSatisfiedChannel retryTimes rand s group model retry = some (.ok (some c)) := by
  intro targets
  have hpos : 0 < Selection.totalWeight targets :=
    Selection.totalWeight_pos (targetChannels_ne_nil retryTimes retry hne)
  have htotal : totalWeight targets = Selection.totalWeight targets := totalWeight_eq hfits
  have hn : Selection.totalWeight targets = (totalWeight targets).toNat := by omega
  refine ⟨by omega, ?_, ?_⟩
  · intro c hc
    have hconst (r : Fin (totalWeight targets).toNat) : decide
        (getRandomSatisfiedChannel retryTimes (.const r _ r.isLt) s group model retry =
          some (.ok (some c))) = true ↔
        ((fun d : Nat => decide (drawn targets d = some c)) ∘ Fin.val) r = true := by
      have hintn : (Rand.const r (totalWeight targets).toNat r.isLt).intn
          (Selection.totalWeight targets) = r := by
        rw [Rand.const]
        exact if_pos hn
      rw [decide_eq_true_eq, Function.comp_apply, decide_eq_true_eq,
        getRandomSatisfiedChannel_iff hne hcached hfits, hintn]
    have hcount : targets.count c = 1 := List.count_eq_one_of_mem (hset.filter _) hc
    have hdraws : (List.range (Draw.total (Selection.smoothedWeight targets) targets)).countP
        (fun d => drawn targets d = some c) = targets.count c * Selection.smoothedWeight targets c :=
      Draw.countP_pick_zero targets
    rw [List.countP_congr fun r _ => hconst r, ← List.countP_map, List.map_coe_finRange_eq_range,
      ← hn, Selection.totalWeight_eq, hdraws, hcount, Nat.one_mul, smoothed_eq hfits hc]
  · intro rand
    obtain ⟨c, hc, hdrawn⟩ := exists_drawn (rand.lt _ hpos)
    exact ⟨c, hc, getRandomSatisfiedChannel_eq hne hcached hfits hdrawn⟩

end

/-- Two channels of equal weight. -/
def heavy (weight : Nat) : Index.Cache where
  group2model2channels g m := if g = "default" ∧ m = "gpt-4o" then [1, 2] else []
  channelsIDM id :=
    if id = 1 ∨ id = 2 then
      some ⟨id, "", statusEnabled, "gpt-4o", "default", some 0, some weight, none, .zero, []⟩
    else none

theorem draws_proportional_heavy :
    let targets := targetChannels 0 (channelsOf (heavy 6) "default" "gpt-4o") 0
    0 < totalWeight targets ∧
      (∀ c ∈ targets,
        ((List.finRange (totalWeight targets).toNat).countP fun r : Fin _ =>
          getRandomSatisfiedChannel 0 (.const r _ r.isLt) (heavy 6) "default" "gpt-4o" 0 =
            some (.ok (some c))) =
          getWeight c * (smoothing targets).2.1 + (smoothing targets).2.2) ∧
      ∀ rand, ∃ c ∈ targets,
        getRandomSatisfiedChannel 0 rand (heavy 6) "default" "gpt-4o" 0 = some (.ok (some c)) :=
  draws_proportional (by decide) (by decide) (by decide) (by decide)

/-- With the weights `2 ^ 62` the total is zero, and every call panics. -/
theorem heavy_panics :
    (channelsOf (heavy (2 ^ 62)) "default" "gpt-4o").Nodup ∧
      (channelsOf (heavy (2 ^ 62)) "default" "gpt-4o").map getWeight = [2 ^ 62, 2 ^ 62] ∧
      totalWeight (targetChannels 0 (channelsOf (heavy (2 ^ 62)) "default" "gpt-4o") 0) = 0 ∧
      ∀ rand, getRandomSatisfiedChannel 0 rand (heavy (2 ^ 62)) "default" "gpt-4o" 0 = none := by
  refine ⟨by decide, by decide, by decide, fun rand => ?_⟩
  have hids : channelIDs (heavy (2 ^ 62)) "default" "gpt-4o" = [1, 2] := by decide
  have hmap : (channelIDs (heavy (2 ^ 62)) "default" "gpt-4o").mapM (cachedChannel (heavy (2 ^ 62))) =
      .ok (channelsOf (heavy (2 ^ 62)) "default" "gpt-4o") := mapM_cachedChannel (by decide)
  have htotal : totalWeight (targetChannels 0 (channelsOf (heavy (2 ^ 62)) "default" "gpt-4o") 0) ≤
      0 := by decide
  have hne : channelsOf (heavy (2 ^ 62)) "default" "gpt-4o" ≠ [] := by decide
  have htargets := targetChannels_ne_nil 0 0 hne
  rw [hids] at hmap
  simp only [getRandomSatisfiedChannel, hids, hmap, chooseChannel, hne, htargets, htotal, if_false,
    if_true]

end DazeApi.Channels.Proportional
