import DazeApi.Lib.Names
import DazeApi.Lib.Text
import Mathlib.Data.List.AList

/-!
# The models of an upstream

The models that a channel lists are compared with those that its upstream offers
(`controller/channel_upstream_update.go`).  What is to be added and to be removed is kept
in the channel's settings until it is applied or ignored.

An ignored model is named, or matched by a regular expression after `regex:`.
-/

namespace DazeApi.Channels.UpstreamSync

/-- `map[string]string`. -/
abbrev ModelMapping := AList fun _ : String => String

structure Env where
  /-- `regexp.MatchString`, or nothing for an expression that is not well formed. -/
  matchString : String → String → Option Bool
  getTimestamp : Int

/-! ## Lists of names -/

/-- A trimmed name that is not empty. -/
def trimmed (model : String) : Option String :=
  if Text.trimSpace model = "" then none else some (Text.trimSpace model)

def normalizeModelNames (models : List String) : List String := Names.normalize trimmed models

def mergeModelNames (base appended : List String) : List String := Names.merge trimmed base appended

def subtractModelNames (base removed : List String) : List String :=
  Names.subtract trimmed base removed

def intersectModelNames (base allowed : List String) : List String :=
  Names.intersect trimmed base allowed

/-- `applySelectedModelChanges`.  Add wins when a model is in both lists. -/
def applySelectedModelChanges (originModels addModels removeModels : List String) : List String :=
  let normalizedAdd := normalizeModelNames addModels
  let normalizedRemove := subtractModelNames (normalizeModelNames removeModels) normalizedAdd
  subtractModelNames (mergeModelNames originModels normalizedAdd) normalizedRemove

/-! ## What is to be changed -/

/-- An entry of the ignored models applies to a model. -/
def ignores (env : Env) (modelName ignoredModel : String) : Bool :=
  if Text.hasPrefix ignoredModel "regex:" then
    env.matchString (Text.trimSpace (Text.dropPrefix ignoredModel "regex:")) modelName = some true
  else ignoredModel = modelName

def isIgnored (env : Env) (ignoredModels : List String) (modelName : String) : Bool :=
  (normalizeModelNames ignoredModels).any (ignores env modelName)

/-- `redirectTargetSet`. -/
def redirectTargets (modelMapping : ModelMapping) : List String :=
  modelMapping.entries.map Sigma.snd

/-- `collectPendingUpstreamModelChangesFromModels`. -/
def collectPendingUpstreamModelChangesFromModels (env : Env)
    (localModels upstreamModels ignoredModels : List String) (modelMapping : ModelMapping) :
    List String × List String :=
  let localModels := normalizeModelNames localModels
  let upstreamModels := normalizeModelNames upstreamModels
  let pendingAdd := upstreamModels.filter fun modelName =>
    !(modelName ∈ localModels || modelName ∈ redirectTargets modelMapping) &&
      !isIgnored env ignoredModels modelName
  let pendingRemove := localModels.filter fun modelName =>
    modelName ∉ modelMapping.keys && modelName ∉ upstreamModels
  (normalizeModelNames pendingAdd, normalizeModelNames pendingRemove)

/-! ## Applying changes -/

/-- The settings that the updates use. -/
structure Settings where
  upstreamModelUpdateIgnoredModels : List String
  upstreamModelUpdateLastDetectedModels : List String
  upstreamModelUpdateLastRemovedModels : List String
  upstreamModelUpdateLastCheckTime : Int
deriving DecidableEq, Repr

structure Channel where
  models : String
  settings : Settings
deriving DecidableEq, Repr

/-- `GetModels`. -/
def Channel.getModels (c : Channel) : List String :=
  if c.models = "" then [] else Text.splitAt (Text.trimChar c.models ',') ','

/-- What `applyChannelUpstreamModelUpdates` gives. -/
structure Applied where
  channel : Channel
  addedModels : List String
  removedModels : List String
  remainingModels : List String
  remainingRemoveModels : List String
  modelsChanged : Bool
deriving DecidableEq, Repr

/-- `applyChannelUpstreamModelUpdates`, when the settings can be saved. -/
def applyChannelUpstreamModelUpdates (env : Env) (channel : Channel)
    (addModelsInput ignoreModelsInput removeModelsInput : List String) : Applied :=
  let settings := channel.settings
  let pendingAddModels := normalizeModelNames settings.upstreamModelUpdateLastDetectedModels
  let pendingRemoveModels := normalizeModelNames settings.upstreamModelUpdateLastRemovedModels
  let addModels := intersectModelNames addModelsInput pendingAddModels
  let ignoreModels := intersectModelNames ignoreModelsInput pendingAddModels
  let removeModels :=
    subtractModelNames (intersectModelNames removeModelsInput pendingRemoveModels) addModels
  let originModels := normalizeModelNames channel.getModels
  let nextModels := applySelectedModelChanges originModels addModels removeModels
  let modelsChanged : Bool := originModels ≠ nextModels
  let ignoredModels := mergeModelNames settings.upstreamModelUpdateIgnoredModels ignoreModels
  let ignoredModels :=
    if 0 < addModels.length then subtractModelNames ignoredModels addModels else ignoredModels
  let remainingModels := subtractModelNames pendingAddModels (addModels ++ ignoreModels)
  let remainingRemoveModels := subtractModelNames pendingRemoveModels removeModels
  { channel := {
      models := if modelsChanged then Text.join nextModels ',' else channel.models
      settings := {
        upstreamModelUpdateIgnoredModels := ignoredModels
        upstreamModelUpdateLastDetectedModels := remainingModels
        upstreamModelUpdateLastRemovedModels := remainingRemoveModels
        upstreamModelUpdateLastCheckTime := env.getTimestamp } }
    addedModels := addModels
    removedModels := removeModels
    remainingModels := remainingModels
    remainingRemoveModels := remainingRemoveModels
    modelsChanged := modelsChanged }

/-! ## Sets of names -/

section

variable {env : Env} {origin add remove upstream ignored : List String} {mapping : ModelMapping}
  {models : List String} {m : String}

theorem trimmed_trimmed (x y : String) (h : trimmed x = some y) : trimmed y = some y := by
  rw [trimmed] at h
  split at h
  next => cases h
  next hne =>
    cases h
    rw [trimmed, Text.trimSpace_trimSpace, if_neg hne]

theorem normal_normalizeModelNames (models : List String) :
    Names.Normal trimmed (normalizeModelNames models) :=
  Names.normal_normalize trimmed_trimmed models

@[simp] theorem normalizeModelNames_idem (models : List String) :
    normalizeModelNames (normalizeModelNames models) = normalizeModelNames models :=
  (normal_normalizeModelNames models).normalize_eq

@[simp] theorem normalize_mergeModelNames (base appended : List String) :
    normalizeModelNames (mergeModelNames base appended) = mergeModelNames base appended :=
  (Names.normal_merge trimmed_trimmed base appended).normalize_eq

@[simp] theorem normalize_subtractModelNames (base removed : List String) :
    normalizeModelNames (subtractModelNames base removed) = subtractModelNames base removed :=
  (Names.normal_subtract trimmed_trimmed base removed).normalize_eq

@[simp] theorem normalize_intersectModelNames (base allowed : List String) :
    normalizeModelNames (intersectModelNames base allowed) = intersectModelNames base allowed :=
  (Names.normal_intersect trimmed_trimmed base allowed).normalize_eq

theorem mem_mergeModelNames {base appended : List String} : m ∈ mergeModelNames base appended ↔
    m ∈ normalizeModelNames base ∨ m ∈ normalizeModelNames appended :=
  Names.mem_merge trimmed_trimmed

theorem mem_subtractModelNames {base removed : List String} :
    m ∈ subtractModelNames base removed ↔
      m ∈ normalizeModelNames base ∧ m ∉ normalizeModelNames removed :=
  Names.mem_subtract

theorem mem_intersectModelNames {base allowed : List String} :
    m ∈ intersectModelNames base allowed ↔
      m ∈ normalizeModelNames base ∧ m ∈ normalizeModelNames allowed :=
  Names.mem_intersect

theorem mem_applySelectedModelChanges : m ∈ applySelectedModelChanges origin add remove ↔
    (m ∈ normalizeModelNames origin ∨ m ∈ normalizeModelNames add) ∧
      (m ∈ normalizeModelNames remove → m ∈ normalizeModelNames add) := by
  simp only [applySelectedModelChanges, mem_subtractModelNames, normalize_mergeModelNames,
    mem_mergeModelNames, normalize_subtractModelNames, normalizeModelNames_idem, not_and, not_not]

theorem normal_applySelectedModelChanges (origin add remove : List String) :
    Names.Normal trimmed (applySelectedModelChanges origin add remove) :=
  Names.normal_subtract trimmed_trimmed _ _

/-- The models that stay, stay in their order. -/
theorem sublist_applySelectedModelChanges (origin add remove : List String) :
    ((normalizeModelNames origin).filter (· ∉ normalizeModelNames remove)).Sublist
      (applySelectedModelChanges origin add remove) := by
  have hbegin : (normalizeModelNames origin).Sublist
      (mergeModelNames origin (normalizeModelNames add)) := by
    rw [mergeModelNames, Names.merge_eq trimmed_trimmed]
    exact List.sublist_append_left _ _
  rw [applySelectedModelChanges, subtractModelNames, Names.subtract]
  show List.Sublist _ ((normalizeModelNames (mergeModelNames _ _)).filter
    (· ∉ normalizeModelNames (subtractModelNames _ _)))
  rw [normalize_mergeModelNames, normalize_subtractModelNames]
  refine List.Sublist.trans ?_ (hbegin.filter _)
  refine List.monotone_filter_right _ fun m hm => ?_
  rw [decide_eq_true_eq] at hm ⊢
  rw [mem_subtractModelNames, normalizeModelNames_idem]
  exact fun h => hm h.1

/-! ## Convergence -/

theorem mem_pendingAdd : m ∈ (collectPendingUpstreamModelChangesFromModels env models upstream
      ignored mapping).1 ↔
    m ∈ normalizeModelNames upstream ∧ m ∉ normalizeModelNames models ∧
      m ∉ redirectTargets mapping ∧ isIgnored env ignored m = false := by
  have hnormal : Names.Normal trimmed ((normalizeModelNames upstream).filter fun modelName =>
      !(modelName ∈ normalizeModelNames models || modelName ∈ redirectTargets mapping) &&
        !isIgnored env ignored modelName) :=
    (normal_normalizeModelNames upstream).sublist List.filter_sublist
  rw [collectPendingUpstreamModelChangesFromModels]
  show m ∈ Names.normalize trimmed _ ↔ _
  rw [hnormal.normalize_eq, List.mem_filter]
  simp [and_assoc]

theorem mem_pendingRemove : m ∈ (collectPendingUpstreamModelChangesFromModels env models upstream
      ignored mapping).2 ↔
    m ∈ normalizeModelNames models ∧ m ∉ mapping.keys ∧ m ∉ normalizeModelNames upstream := by
  have hnormal : Names.Normal trimmed ((normalizeModelNames models).filter fun modelName =>
      modelName ∉ mapping.keys && modelName ∉ normalizeModelNames upstream) :=
    (normal_normalizeModelNames models).sublist List.filter_sublist
  rw [collectPendingUpstreamModelChangesFromModels]
  show m ∈ Names.normalize trimmed _ ↔ _
  rw [hnormal.normalize_eq, List.mem_filter]
  simp

theorem normalize_pending (env : Env) (models upstream ignored : List String)
    (mapping : ModelMapping) :
    normalizeModelNames (collectPendingUpstreamModelChangesFromModels env models upstream ignored
        mapping).1 =
      (collectPendingUpstreamModelChangesFromModels env models upstream ignored mapping).1 ∧
    normalizeModelNames (collectPendingUpstreamModelChangesFromModels env models upstream ignored
        mapping).2 =
      (collectPendingUpstreamModelChangesFromModels env models upstream ignored mapping).2 :=
  ⟨normalizeModelNames_idem _, normalizeModelNames_idem _⟩

/-- When the changes are made there are no more. -/
theorem pending_empty (env : Env) (models upstream ignored : List String) (mapping : ModelMapping) :
    collectPendingUpstreamModelChangesFromModels env
      (applySelectedModelChanges models
        (collectPendingUpstreamModelChangesFromModels env models upstream ignored mapping).1
        (collectPendingUpstreamModelChangesFromModels env models upstream ignored mapping).2)
      upstream ignored mapping = ([], []) := by
  obtain ⟨hadd, hremove⟩ := normalize_pending env models upstream ignored mapping
  have hnext {m : String} : m ∈ normalizeModelNames (applySelectedModelChanges models
      (collectPendingUpstreamModelChangesFromModels env models upstream ignored mapping).1
      (collectPendingUpstreamModelChangesFromModels env models upstream ignored mapping).2) ↔
      (m ∈ normalizeModelNames models ∨ m ∈
        (collectPendingUpstreamModelChangesFromModels env models upstream ignored mapping).1) ∧
      (m ∈ (collectPendingUpstreamModelChangesFromModels env models upstream ignored mapping).2 →
        m ∈ (collectPendingUpstreamModelChangesFromModels env models upstream ignored mapping).1) := by
    rw [normalizeModelNames, (normal_applySelectedModelChanges models _ _).normalize_eq,
      mem_applySelectedModelChanges, hadd, hremove]
  refine Prod.ext ?_ ?_
  · refine List.eq_nil_iff_forall_not_mem.2 fun m hm => ?_
    obtain ⟨hup, hnew, htarget, hignored⟩ := mem_pendingAdd.1 hm
    refine hnew (hnext.2 ⟨?_, fun h => absurd hup (mem_pendingRemove.1 h).2.2⟩)
    -- What the upstream offers was there, or was to be added.
    by_cases hold : m ∈ normalizeModelNames models
    · exact Or.inl hold
    · exact Or.inr (mem_pendingAdd.2 ⟨hup, hold, htarget, hignored⟩)
  · refine List.eq_nil_iff_forall_not_mem.2 fun m hm => ?_
    obtain ⟨hthere, hsource, hup⟩ := mem_pendingRemove.1 hm
    obtain ⟨hfrom, hkept⟩ := hnext.1 hthere
    have hadded : m ∈ (collectPendingUpstreamModelChangesFromModels env models upstream ignored
        mapping).1 := by
      rcases hfrom with hold | hadded
      · exact hkept (mem_pendingRemove.2 ⟨hold, hsource, hup⟩)
      · exact hadded
    exact hup (mem_pendingAdd.1 hadded).1

/-! ## What stays pending -/

/-- A removal is selected, and its model is not selected for addition. -/
def selectsRemoval (channel : Channel) (addModelsInput removeModelsInput : List String)
    (m : String) : Prop :=
  m ∈ normalizeModelNames removeModelsInput ∧
    ¬ (m ∈ normalizeModelNames addModelsInput ∧
      m ∈ normalizeModelNames channel.settings.upstreamModelUpdateLastDetectedModels)

instance (channel : Channel) (a r : List String) (m : String) :
    Decidable (selectsRemoval channel a r m) := inferInstanceAs (Decidable (_ ∧ _))

theorem subtractModelNames_eq (base removed : List String) :
    subtractModelNames base removed =
      (normalizeModelNames base).filter (· ∉ normalizeModelNames removed) := rfl

theorem remainingModels_eq (env : Env) (channel : Channel) (a i r : List String) :
    (applyChannelUpstreamModelUpdates env channel a i r).remainingModels =
      (normalizeModelNames channel.settings.upstreamModelUpdateLastDetectedModels).filter
        fun m => m ∉ normalizeModelNames a ∧ m ∉ normalizeModelNames i := by
  rw [applyChannelUpstreamModelUpdates]
  show subtractModelNames _ _ = _
  rw [subtractModelNames_eq, normalizeModelNames_idem]
  refine List.filter_congr fun m hm => ?_
  have happend : m ∈ normalizeModelNames
      (intersectModelNames a
          (normalizeModelNames channel.settings.upstreamModelUpdateLastDetectedModels) ++
        intersectModelNames i
          (normalizeModelNames channel.settings.upstreamModelUpdateLastDetectedModels)) ↔
      m ∈ normalizeModelNames a ∨ m ∈ normalizeModelNames i := by
    rw [normalizeModelNames, Names.mem_normalize_append]
    show m ∈ normalizeModelNames _ ∨ m ∈ normalizeModelNames _ ↔ _
    simp [mem_intersectModelNames, hm]
  simp [happend]

theorem remainingRemoveModels_eq (env : Env) (channel : Channel) (a i r : List String) :
    (applyChannelUpstreamModelUpdates env channel a i r).remainingRemoveModels =
      (normalizeModelNames channel.settings.upstreamModelUpdateLastRemovedModels).filter
        fun m => ¬ selectsRemoval channel a r m := by
  rw [applyChannelUpstreamModelUpdates]
  show subtractModelNames _ _ = _
  rw [subtractModelNames_eq, normalizeModelNames_idem]
  refine List.filter_congr fun m hm => ?_
  simp [mem_subtractModelNames, mem_intersectModelNames, selectsRemoval, hm]

/-- What a collection finds is not to be added and removed. -/
theorem not_mem_pendingRemove (hm : m ∈ (collectPendingUpstreamModelChangesFromModels env models
      upstream ignored mapping).1) :
    m ∉ (collectPendingUpstreamModelChangesFromModels env models upstream ignored mapping).2 :=
  fun h => (mem_pendingRemove.1 h).2.2 (mem_pendingAdd.1 hm).1

/-- So every removal that is selected is made. -/
theorem selectsRemoval_iff {channel : Channel} {a r : List String}
    (h : ∀ m ∈ normalizeModelNames channel.settings.upstreamModelUpdateLastRemovedModels,
      m ∉ normalizeModelNames channel.settings.upstreamModelUpdateLastDetectedModels)
    (hm : m ∈ normalizeModelNames channel.settings.upstreamModelUpdateLastRemovedModels) :
    selectsRemoval channel a r m ↔ m ∈ normalizeModelNames r :=
  and_iff_left fun hboth => h m hm hboth.2

/-- A synchronisation converges: when its changes are made there are no more.  It removes no
source of a redirect and no model that the upstream offers, adds no model that is ignored
or that a redirect leads to, and keeps the other models in their order.  What is applied of
the pending changes is pending no more, and all others are. -/
theorem sync_converges (env : Env) (models upstream ignored : List String) (mapping : ModelMapping) :
    let pending := collectPendingUpstreamModelChangesFromModels env models upstream ignored mapping
    let models' := applySelectedModelChanges models pending.1 pending.2
    collectPendingUpstreamModelChangesFromModels env models' upstream ignored mapping = ([], []) ∧
      (∀ m ∈ pending.2, m ∉ mapping.keys ∧ m ∉ normalizeModelNames upstream) ∧
      (∀ m ∈ pending.1, isIgnored env ignored m = false ∧ m ∉ redirectTargets mapping) ∧
      ((normalizeModelNames models).filter (· ∉ pending.2)).Sublist models' ∧
      ∀ (channel : Channel) (a i r : List String),
        let settings := channel.settings
        let settings' := (applyChannelUpstreamModelUpdates env channel a i r).channel.settings
        settings'.upstreamModelUpdateLastDetectedModels =
            (normalizeModelNames settings.upstreamModelUpdateLastDetectedModels).filter
              (fun m => m ∉ normalizeModelNames a ∧ m ∉ normalizeModelNames i) ∧
          settings'.upstreamModelUpdateLastRemovedModels =
            (normalizeModelNames settings.upstreamModelUpdateLastRemovedModels).filter
              fun m => ¬ selectsRemoval channel a r m := by
  intro pending models'
  refine ⟨pending_empty env models upstream ignored mapping, fun m hm => ?_, fun m hm => ?_, ?_,
    fun channel a i r => ⟨remainingModels_eq env channel a i r,
      remainingRemoveModels_eq env channel a i r⟩⟩
  · exact (mem_pendingRemove.1 hm).2
  · obtain ⟨-, -, htarget, hignored⟩ := mem_pendingAdd.1 hm
    exact ⟨hignored, htarget⟩
  · have hsublist := sublist_applySelectedModelChanges models pending.1 pending.2
    rwa [(normalize_pending env models upstream ignored mapping).2] at hsublist

end

/-- A channel for which one model is pending to be added and to be removed. -/
def pendingBoth : Channel := ⟨"gpt-4o", ⟨[], ["o3"], ["o3"], 0⟩⟩

/-- Both changes are selected, and one stays pending. -/
theorem add_wins_stays_pending :
    (applyChannelUpstreamModelUpdates ⟨fun _ _ => none, 0⟩ pendingBoth ["o3"] []
      ["o3"]).remainingRemoveModels = ["o3"] := by
  decide

end DazeApi.Channels.UpstreamSync
