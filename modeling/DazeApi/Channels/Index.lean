import DazeApi.Channels.Row
import DazeApi.Lib.Run
import Mathlib.Data.List.Sort
import Mathlib.Data.List.Count

/-!
# The routing index

The memory cache of the channels (`model/channel_cache.go`): `channelsIDM` has every
channel, and `group2model2channels` the ids of the enabled ones for every group and
model.  `InitChannelCache` reads both anew from the database.  In between,
`CacheUpdateChannelStatus` and `UpdateChannelStatus` of `model/channel.go` change the
status of a channel in the cache.

A map is modelled by what it reads: a missing list is empty.  `InitChannelCache` makes
the maps of the groups from the rows of the abilities, and to add a channel to a group
that none of them has panics; it has not changed the cache by then.

A call of `UpdateChannelStatus` is modelled as far as it reaches the cache.  What it
writes to the database after that is found by the next `InitChannelCache`, which is
given any rows.
-/

namespace DazeApi.Channels.Index

/-- `sort.Slice` by a decreasing value.  It need not keep the order of equal ones. -/
structure SortSlice where
  sort : (Int → Int) → List Int → List Int
  perm : ∀ value ids, (sort value ids).Perm ids
  sorted : ∀ value ids, (sort value ids).Pairwise fun i j => value j ≤ value i

structure Env where
  memoryCacheEnabled : Bool
  unmarshal : UnmarshalArray
  sortSlice : SortSlice

/-- `map[string]map[string][]int`. -/
abbrev IdLists := String → String → List Int

structure Cache where
  group2model2channels : IdLists
  channelsIDM : Int → Option Channel

/-- The cache before the first `InitChannelCache`. -/
def empty : Cache := ⟨fun _ _ => [], fun _ => none⟩

/-! ## `InitChannelCache` -/

/-- Appending an id to a list of the index, in a group that has a map. -/
def appendId (groups : List String) (id : Int) (group : String) (index : IdLists) (model : String) :
    Option IdLists :=
  if group ∈ groups then
    some fun g m => if g = group ∧ m = model then index g m ++ [id] else index g m
  else none

/-- The loop over the models of a channel. -/
def appendModels (groups : List String) (c : Channel) (index : IdLists) (group : String) :
    Option IdLists :=
  c.modelList.foldlM (appendId groups c.id group) index

/-- The loop over the groups of a channel. -/
def appendGroups (groups : List String) (index : IdLists) (c : Channel) : Option IdLists :=
  if c.enabled then c.groupList.foldlM (appendModels groups c) index else some index

/-- The loop over the rows. -/
def appendRows (groups : List String) (rows : List Channel) : Option IdLists :=
  rows.foldlM (appendGroups groups) fun _ _ => []

/-- The lists in the order of the channels' priorities. -/
def sorted (env : Env) (t : ChannelTable) (index : IdLists) : IdLists := fun g m =>
  env.sortSlice.sort (fun id => ((t.find id).map Channel.getPriority).getD 0) (index g m)

/-- A channel with several keys that takes them in turn. -/
def polls (c : Channel) : Bool := c.info.isMultiKey && c.info.multiKeyMode = .polling

/-- A row as it comes into the cache: with its keys, and with the polling index of the
channel that was there. -/
def refreshed (env : Env) (old : Option Channel) (c : Channel) : Channel :=
  if c.info.isMultiKey then
    let c' := { c with keys := c.getKeys env.unmarshal }
    match old with
    | some o =>
        if polls c && polls o then
          { c' with info := { c'.info with multiKeyPollingIndex := o.info.multiKeyPollingIndex } }
        else c'
    | none => c'
  else c

/-- `InitChannelCache`, with the channels and the groups of the abilities that it finds. -/
def initChannelCache (env : Env) (s : Cache) (t : ChannelTable) (groups : List String) : Cache :=
  if !env.memoryCacheEnabled then s
  else
    match appendRows groups t.rows with
    | none => s
    | some index =>
        ⟨sorted env t index, fun id => (t.find id).map (refreshed env (s.channelsIDM id))⟩

/-! ## The status of a channel -/

/-- The cached channel of an id is replaced. -/
def Cache.setChannel (s : Cache) (id : Int) (c : Channel) : Cache :=
  { s with channelsIDM := fun i => if i = id then some c else s.channelsIDM i }

/-- `CacheUpdateChannelStatus`. -/
def cacheUpdateChannelStatus (env : Env) (s : Cache) (id status : Int) : Cache :=
  if !env.memoryCacheEnabled then s
  else
    let s' := match s.channelsIDM id with
      | some c => s.setChannel id { c with status := status }
      | none => s
    if status ≠ statusEnabled then
      { s' with group2model2channels := fun g m => (s'.group2model2channels g m).erase id }
    else s'

/-- `UpdateChannelStatus` as far as it reaches the cache. -/
def updateChannelStatus (env : Env) (s : Cache) (id : Int) (usingKey : String) (status : Int)
    (reason : String) (now : Int) : Cache :=
  if !env.memoryCacheEnabled then s
  else
    match s.channelsIDM id with
    | none => s
    | some c =>
        if c.info.isMultiKey then
          s.setChannel id (handlerMultiKeyUpdate env.unmarshal c usingKey status reason now)
        else if c.status = status then s
        else cacheUpdateChannelStatus env s id status

/-! ## Sequences of calls -/

inductive Call where
  | initChannelCache (t : ChannelTable) (groups : List String)
  | cacheUpdateChannelStatus (id status : Int)
  | updateChannelStatus (id : Int) (usingKey : String) (status : Int) (reason : String) (now : Int)

def apply (env : Env) (s : Cache) : Call → Cache
  | .initChannelCache t groups => Index.initChannelCache env s t groups
  | .cacheUpdateChannelStatus id status => Index.cacheUpdateChannelStatus env s id status
  | .updateChannelStatus id usingKey status reason now =>
      Index.updateChannelStatus env s id usingKey status reason now

def step (env : Env) (s : Cache) (a : Call) : Option Cache := some (apply env s a)

/-! ## The property -/

/-- The channel is enabled and lists the group and the model. -/
def serves (c : Channel) (g m : String) : Bool :=
  c.enabled && g ∈ c.groupList && m ∈ c.modelList

/-- An id occurs in a list of the index if and only if the cached channel serves the
group and the model, and then it occurs once.  So every id of the index is cached. -/
def Indexed (s : Cache) : Prop :=
  ∀ g m id, (s.group2model2channels g m).count id =
    if (s.channelsIDM id).any (serves · g m) then 1 else 0

/-- A channel that is enabled in the cache was enabled before. -/
def keepsEnabled (c : Channel) (status : Int) : Bool := status ≠ statusEnabled || c.enabled

/-- The update of a key leaves the channel as enabled as it was. -/
def keepsMultiKey (env : Env) (c : Channel) (usingKey : String) (status : Int) : Bool :=
  let keys := c.getKeys env.unmarshal
  if keys = [] then (status = statusEnabled : Bool) = c.enabled
  else !c.enabled || c.info.leavesKey (keyIndex keys usingKey) status

/-- No enabled row lists a group or a model twice. -/
def plain (t : ChannelTable) : Bool :=
  t.rows.all fun c => !c.enabled || (c.groupList.Nodup && c.modelList.Nodup)

/-- Every group of an enabled row is a group of the abilities. -/
def covered (t : ChannelTable) (groups : List String) : Bool :=
  t.rows.all fun c => !c.enabled || c.groupList.all (· ∈ groups)

/-- `InitChannelCache` panics, or finds no enabled channel that lists a group or a model
twice; a channel that is not enabled in the cache is not enabled there; and the update of
a key neither disables nor enables its channel. -/
def keeps (env : Env) (s : Cache) : Call → Bool
  | .initChannelCache t groups =>
      !env.memoryCacheEnabled || !covered t groups || plain t
  | .cacheUpdateChannelStatus id status =>
      !env.memoryCacheEnabled || (s.channelsIDM id).all (keepsEnabled · status)
  | .updateChannelStatus id usingKey status _ _ =>
      !env.memoryCacheEnabled || (s.channelsIDM id).all fun c =>
        if c.info.isMultiKey then keepsMultiKey env c usingKey status
        else keepsEnabled c status

section

variable {env : Env} {s s' : Cache} {t : ChannelTable} {groups : List String} {g m : String}
  {i id status : Int} {c : Channel}

/-! ## What `InitChannelCache` counts -/

theorem count_appendId {index index' : IdLists} {group model : String}
    (h : appendId groups id group index model = some index') :
    (index' g m).count i =
      (index g m).count i + if i = id ∧ g = group ∧ m = model then 1 else 0 := by
  simp only [appendId] at h
  split at h
  next =>
    cases h
    by_cases hgm : g = group ∧ m = model
    · by_cases hi : i = id
      · simp [hgm, hi]
      · have hne : ¬ id = i := fun h => hi h.symm
        simp [hgm, hi, hne]
    · simp [hgm]
  next => cases h

theorem count_appendModels {models : List String} {group : String} :
    ∀ {index index' : IdLists}, models.foldlM (appendId groups id group) index = some index' →
      (index' g m).count i =
        (index g m).count i + if i = id ∧ g = group then models.count m else 0 := by
  induction models with
  | nil =>
      intro index index' h
      cases h
      simp
  | cons model models ih =>
      intro index index' h
      obtain ⟨mid, hmid, hrest⟩ := Option.bind_eq_some_iff.1 h
      rw [ih hrest, count_appendId hmid]
      by_cases hi : i = id ∧ g = group
      · by_cases hm : m = model
        · simp [hi, hm]
          omega
        · have hne : ¬ model = m := fun h => hm h.symm
          simp [hi, hm, hne]
      · have hi' : ¬ (i = id ∧ g = group ∧ m = model) := fun h => hi ⟨h.1, h.2.1⟩
        simp [hi, hi']

theorem count_appendGroups {gs : List String} :
    ∀ {index index' : IdLists}, gs.foldlM (appendModels groups c) index = some index' →
      (index' g m).count i =
        (index g m).count i + if i = c.id then gs.count g * c.modelList.count m else 0 := by
  induction gs with
  | nil =>
      intro index index' h
      cases h
      simp
  | cons group gs ih =>
      intro index index' h
      obtain ⟨mid, hmid, hrest⟩ := Option.bind_eq_some_iff.1 h
      rw [ih hrest, count_appendModels hmid]
      by_cases hi : i = c.id
      · by_cases hg : g = group
        · simp [hi, hg, Nat.succ_mul]
          omega
        · have hne : ¬ group = g := fun h => hg h.symm
          simp [hi, hg, hne]
      · simp [hi]

/-- How often a row puts its id into a list. -/
def entries (c : Channel) (g m : String) : Nat :=
  if c.enabled then c.groupList.count g * c.modelList.count m else 0

theorem count_appendRows {rows : List Channel} :
    ∀ {index index' : IdLists}, rows.foldlM (appendGroups groups) index = some index' →
      (index' g m).count i =
        (index g m).count i + (rows.map fun c => if i = c.id then entries c g m else 0).sum := by
  induction rows with
  | nil =>
      intro index index' h
      cases h
      simp
  | cons c rows ih =>
      intro index index' h
      obtain ⟨mid, hmid, hrest⟩ := Option.bind_eq_some_iff.1 h
      have hrow : (mid g m).count i =
          (index g m).count i + if i = c.id then entries c g m else 0 := by
        simp only [appendGroups] at hmid
        split at hmid
        next he => simpa [entries, he] using count_appendGroups hmid
        next he =>
          cases hmid
          simp [entries, he]
      rw [ih hrest, hrow]
      simp
      omega

/-! ## When `InitChannelCache` panics -/

/-- A loop of steps that may fail goes through if every step does. -/
theorem isSome_foldlM {α : Type} {f : IdLists → α → Option IdLists} {P : α → Prop} :
    ∀ {as : List α}, (∀ a ∈ as, ∀ index, (f index a).isSome = true ↔ P a) → ∀ index : IdLists,
      (as.foldlM f index).isSome = true ↔ ∀ a ∈ as, P a := by
  intro as
  induction as with
  | nil => simp
  | cons a as ih =>
      intro hf index
      have ha := hf a (by simp) index
      have has := ih fun b hb => hf b (by simp [hb])
      rw [List.foldlM_cons]
      cases hm : f index a with
      | none =>
          rw [hm] at ha
          have hP : ¬ P a := by simpa using ha
          simp [hP]
      | some mid =>
          rw [hm] at ha
          have hP : P a := by simpa using ha
          simpa [hP] using has mid

theorem isSome_appendRows (t : ChannelTable) (groups : List String) :
    (appendRows groups t.rows).isSome = true ↔ covered t groups = true := by
  have hmodels (c : Channel) (group : String) (index : IdLists) :
      (appendModels groups c index group).isSome = true ↔ group ∈ groups := by
    rw [appendModels, isSome_foldlM (P := fun _ => group ∈ groups)]
    · obtain ⟨m, hm⟩ := List.exists_mem_of_ne_nil _ (Text.splitAt_ne_nil c.models ',')
      exact ⟨fun h => h m hm, fun h _ _ => h⟩
    · intro m _ index
      simp only [appendId]
      split <;> simp [*]
  rw [appendRows, isSome_foldlM (P := fun c => c.enabled = true → ∀ g ∈ c.groupList, g ∈ groups)]
  · simp only [covered, List.all_eq_true, Bool.or_eq_true, Bool.not_eq_true',
      decide_eq_true_eq, ← Bool.not_eq_true, imp_iff_not_or]
  · intro c _ index
    simp only [appendGroups]
    split
    next he => simp [he, isSome_foldlM fun g _ index => hmodels c g index]
    next he => simp [he]

/-! ## The index after `InitChannelCache` -/

theorem count_sorted {index : IdLists} (h : appendRows groups t.rows = some index) :
    (sorted env t index g m).count i = ((t.find i).map (entries · g m)).getD 0 := by
  rw [sorted, (env.sortSlice.perm _ _).count_eq, count_appendRows h, List.count_nil,
    Nat.zero_add, t.sum_find]

/-- A row is in every list that it belongs to once, exactly if it names no group and no
model twice. -/
theorem entries_eq_serves_iff (c : Channel) :
    (∀ g m, entries c g m = if serves c g m then 1 else 0) ↔
      (c.enabled = true → c.groupList.Nodup ∧ c.modelList.Nodup) := by
  by_cases he : c.enabled = true
  · simp only [entries, serves, he, if_true, Bool.true_and, Bool.and_eq_true, decide_eq_true_eq,
      forall_const]
    constructor
    · intro h
      obtain ⟨g₀, hg₀⟩ := List.exists_mem_of_ne_nil _ (Text.splitAt_ne_nil c.group ',')
      obtain ⟨m₀, hm₀⟩ := List.exists_mem_of_ne_nil _ (Text.splitAt_ne_nil c.models ',')
      have hone {g m : String} (hg : g ∈ c.groupList) (hm : m ∈ c.modelList) :
          c.groupList.count g = 1 ∧ c.modelList.count m = 1 := by
        have hgm := h g m
        rw [if_pos ⟨hg, hm⟩] at hgm
        exact ⟨Nat.eq_one_of_mul_eq_one_right hgm, Nat.eq_one_of_mul_eq_one_left hgm⟩
      constructor
      · exact List.nodup_iff_count_eq_one.2 fun g hg => (hone hg hm₀).1
      · exact List.nodup_iff_count_eq_one.2 fun m hm => (hone hg₀ hm).2
    · intro ⟨hg, hm⟩ g m
      rw [hg.count, hm.count]
      by_cases h₁ : g ∈ c.groupList <;> by_cases h₂ : m ∈ c.modelList <;> simp [h₁, h₂]
  · simp [entries, serves, he]

@[simp] theorem serves_refreshed (old : Option Channel) :
    serves (refreshed env old c) g m = serves c g m := by
  simp only [refreshed]
  split
  next =>
    split
    next => split <;> rfl
    next => rfl
  next => rfl

/-- After `InitChannelCache` the law holds exactly if no enabled row names a group or a
model twice. -/
theorem indexed_init_iff (hI : Indexed s) :
    Indexed (initChannelCache env s t groups) ↔
      keeps env s (.initChannelCache t groups) = true := by
  simp only [initChannelCache, keeps, Bool.or_eq_true, Bool.not_eq_true']
  cases hmem : env.memoryCacheEnabled with
  | false => simpa using hI
  | true =>
      have hsome := isSome_appendRows t groups
      cases happ : appendRows groups t.rows with
      | none =>
          have hcov : covered t groups = false := by simpa [happ] using hsome
          simpa [hcov] using hI
      | some index =>
          have hcov : covered t groups = true := by simpa [happ] using hsome
          simp only [hcov, if_false, Bool.true_eq_false, false_or, Indexed, count_sorted happ, plain,
            List.all_eq_true, Bool.or_eq_true, Bool.not_eq_true', Bool.and_eq_true,
            decide_eq_true_eq]
          constructor
          · intro h c hc
            have hfind := Table.find_of_mem hc
            have hrow := (entries_eq_serves_iff c).1 fun g m => by
              simpa [hfind] using h g m c.id
            cases he : c.enabled with
            | false => exact Or.inl rfl
            | true => exact Or.inr (hrow he)
          · intro h g m id
            cases hfind : t.find id with
            | none => simp
            | some c =>
                have hrow := (entries_eq_serves_iff c).2 fun he =>
                  (h c (Table.mem_of_find hfind)).resolve_left (by simp [he])
                simpa using hrow g m

/-! ## The index after a change of status -/

theorem serves_eq_iff {c' : Channel} (hg : c'.group = c.group) (hm : c'.models = c.models) :
    (∀ g m, serves c' g m = serves c g m) ↔ c'.enabled = c.enabled := by
  have hgl : c'.groupList = c.groupList := by rw [Channel.groupList, hg, Channel.groupList]
  have hml : c'.modelList = c.modelList := by rw [Channel.modelList, hm, Channel.modelList]
  constructor
  · intro h
    obtain ⟨g₀, hg₀⟩ := List.exists_mem_of_ne_nil _ (Text.splitAt_ne_nil c.group ',')
    obtain ⟨m₀, hm₀⟩ := List.exists_mem_of_ne_nil _ (Text.splitAt_ne_nil c.models ',')
    have hg₀' : g₀ ∈ c.groupList := hg₀
    have hm₀' : m₀ ∈ c.modelList := hm₀
    simpa [serves, hgl, hml, hg₀', hm₀'] using h g₀ m₀
  · intro h g m
    simp [serves, hgl, hml, h]

/-- A cached channel that is replaced by one with the same groups and models. -/
theorem indexed_setChannel_iff {c' : Channel} (hI : Indexed s) (hc : s.channelsIDM id = some c)
    (hg : c'.group = c.group) (hm : c'.models = c.models) :
    Indexed (s.setChannel id c') ↔ c'.enabled = c.enabled := by
  rw [← serves_eq_iff hg hm]
  constructor
  · intro h g m
    have hnew := h g m id
    have hold := hI g m id
    simp only [Cache.setChannel, if_true, Option.any_some] at hnew
    rw [hc, Option.any_some, hnew] at hold
    cases h₁ : serves c' g m <;> cases h₂ : serves c g m <;> simp [h₁, h₂] at hold ⊢
  · intro h g m i
    have hold := hI g m i
    by_cases hi : i = id
    · subst hi
      simpa [Cache.setChannel, hc, h g m] using hold
    · simpa [Cache.setChannel, hi] using hold

/-- An id that is disabled goes out of every list. -/
theorem indexed_erase (id : Int) (hI : Indexed s)
    (hoff : ∀ c', s'.channelsIDM id = some c' → c'.enabled = false)
    (hidm : ∀ i, i ≠ id → s'.channelsIDM i = s.channelsIDM i)
    (hlists : ∀ g m, s'.group2model2channels g m = (s.group2model2channels g m).erase id) :
    Indexed s' := by
  intro g m i
  rw [hlists]
  by_cases hi : i = id
  · subst hi
    have hzero : (s'.channelsIDM i).any (serves · g m) = false := by
      cases hc : s'.channelsIDM i with
      | none => rfl
      | some c' => simp [serves, hoff c' hc]
    have hle : (s.group2model2channels g m).count i ≤ 1 := by
      rw [hI g m i]
      split <;> omega
    rw [List.count_erase_self, hzero]
    simp only [Bool.false_eq_true, if_false]
    omega
  · rw [List.count_erase_of_ne hi, hidm i hi]
    exact hI g m i

theorem indexed_cacheUpdate_iff (env : Env) (hI : Indexed s) (id status : Int) :
    Indexed (cacheUpdateChannelStatus env s id status) ↔
      keeps env s (.cacheUpdateChannelStatus id status) = true := by
  simp only [cacheUpdateChannelStatus, keeps, Bool.or_eq_true, Bool.not_eq_true']
  cases hmem : env.memoryCacheEnabled with
  | false => simpa using hI
  | true =>
      simp only [Bool.true_eq_false, if_false, false_or]
      by_cases hst : status = statusEnabled
      · simp only [hst, ne_eq, not_true_eq_false, if_false]
        cases hc : s.channelsIDM id with
        | none => simpa using hI
        | some c =>
            have h : Indexed (s.setChannel id { c with status := statusEnabled }) ↔
                Channel.enabled { c with status := statusEnabled } = c.enabled :=
              indexed_setChannel_iff hI hc rfl rfl
            refine h.trans ?_
            simp [keepsEnabled, Channel.enabled]
      · simp only [ne_eq, hst, not_false_eq_true, if_true]
        refine iff_of_true (indexed_erase id hI ?_ ?_ ?_) ?_
        · intro c' hc'
          cases hc : s.channelsIDM id with
          | none => simp [hc] at hc'
          | some c =>
              simp only [hc, Cache.setChannel, if_true] at hc'
              cases hc'
              simp [Channel.enabled, hst]
        · intro i hi
          cases s.channelsIDM id <;> simp [Cache.setChannel, hi]
        · intro g m
          cases s.channelsIDM id <;> rfl
        · cases s.channelsIDM id <;> simp [keepsEnabled, hst]

/-- What the update of a key does to the status of its channel. -/
theorem enabled_handlerMultiKeyUpdate_iff (c : Channel) (usingKey : String) (reason : String)
    (now : Int) :
    (handlerMultiKeyUpdate env.unmarshal c usingKey status reason now).enabled = c.enabled ↔
      keepsMultiKey env c usingKey status = true := by
  simp only [handlerMultiKeyUpdate, keepsMultiKey]
  split
  next => simp [Channel.enabled]
  next =>
    rw [exhausted_setKeyStatus]
    cases c.info.leavesKey (keyIndex (c.getKeys env.unmarshal) usingKey) status with
    | false => simp [Channel.enabled, statusAutoDisabled, statusEnabled]
    | true => simp [Channel.enabled]

/-- One call keeps the law exactly if it meets `keeps`. -/
theorem indexed_apply_iff (hI : Indexed s) (a : Call) :
    Indexed (apply env s a) ↔ keeps env s a = true := by
  cases a with
  | initChannelCache t groups => exact indexed_init_iff hI
  | cacheUpdateChannelStatus id status => exact indexed_cacheUpdate_iff env hI id status
  | updateChannelStatus id usingKey status reason now =>
      simp only [apply, updateChannelStatus, keeps, Bool.or_eq_true, Bool.not_eq_true']
      cases hmem : env.memoryCacheEnabled with
      | false => simpa using hI
      | true =>
          simp only [Bool.true_eq_false, if_false, false_or]
          cases hc : s.channelsIDM id with
          | none => simpa using hI
          | some c =>
              simp only [Option.all_some]
              by_cases hmulti : c.info.isMultiKey = true
              · simp only [hmulti, if_true]
                rw [← enabled_handlerMultiKeyUpdate_iff c usingKey reason now]
                exact indexed_setChannel_iff hI hc (group_handlerMultiKeyUpdate ..)
                  (models_handlerMultiKeyUpdate ..)
              · simp only [hmulti]
                by_cases hst : c.status = status
                · refine iff_of_true (by simpa [hst] using hI) ?_
                  by_cases he : status = statusEnabled <;>
                    simp [keepsEnabled, Channel.enabled, hst, he]
                · have h := indexed_cacheUpdate_iff env hI id status
                  simpa [hst, keeps, hmem, hc] using h

end

/-- After every call of a sequence the index has exactly the ids of the enabled channels
in the lists of their groups and models, once each, if and only if every call meets
`keeps`. -/
theorem indexed_iff_keeps (env : Env) (as : List Call) :
    Run.Always (step env) Indexed empty as ↔
      Run.Along (step env) (fun s a => keeps env s a = true) empty as := by
  obtain ⟨s, hs⟩ := Run.exec_total (fun s a => show (step env s a).isSome = true from rfl) as empty
  refine Run.always_iff_along (R := fun _ _ => True) ?_ as empty s ?_
    (Run.along_of_forall (fun _ _ => trivial) as _) hs
  · intro s a s' hI _ hs
    cases hs
    exact indexed_apply_iff hI a
  · intro g m id
    rfl

/-! ## Two sequences -/

def insertionSort : SortSlice where
  sort value ids := ids.insertionSort fun i j => value j ≤ value i
  perm _ ids := List.perm_insertionSort _ ids
  sorted _ ids := List.pairwise_insertionSort _ ids

/-- No key of the examples is a JSON array. -/
def exampleEnv : Env := ⟨true, fun _ => none, insertionSort⟩

def exampleChannel (id : Int) (models : String) (info : ChannelInfo) : Channel :=
  ⟨id, "k1\nk2", 1, models, "default,vip", some id, none, none, info, []⟩

def twoKeys : ChannelInfo := ⟨true, 2, ∅, ∅, ∅, 0, .random⟩

def table : ChannelTable where
  rows := [exampleChannel 1 "a,b" .zero, exampleChannel 2 "b" twoKeys]
  nodup := by decide

def start : Call := .initChannelCache table ["default", "vip"]

/-- A channel is disabled, one of the two keys of the other one is disabled, and the rows
are read again. -/
def plainCalls : List Call :=
  [start, .updateChannelStatus 1 "k1" 2 "" 0, .updateChannelStatus 2 "k2" 3 "" 0, start]

theorem indexed_plainCalls :
    ∃ s, Run.exec (step exampleEnv) empty plainCalls = some s ∧
      s.group2model2channels "vip" "b" = [2, 1] ∧
      Run.Always (step exampleEnv) Indexed empty plainCalls := by
  obtain ⟨s, hs, hend⟩ := Run.exists_of_any (step exampleEnv) empty plainCalls
    (fun s => s.group2model2channels "vip" "b" = [2, 1]) (by decide +kernel)
  exact ⟨s, hs, of_decide_eq_true hend,
    (indexed_iff_keeps exampleEnv plainCalls).2 (by decide +kernel)⟩

/-- A channel is disabled and enabled again. -/
def offAndOn : List Call :=
  [start, .updateChannelStatus 1 "k1" 2 "" 0, .updateChannelStatus 1 "k1" 1 "" 0]

/-- The channel is enabled in the cache, and no list has it. -/
theorem offAndOn_not_indexed :
    ¬ ∀ (env : Env) (as : List Call) (s : Cache),
      Run.exec (step env) empty as = some s → Indexed s := by
  intro h
  obtain ⟨s, hs, hend⟩ := Run.exists_of_any (step exampleEnv) empty offAndOn
    (fun s => (s.channelsIDM 1).any (serves · "vip" "a") ∧ s.group2model2channels "vip" "a" = [])
    (by decide +kernel)
  obtain ⟨hc, hl⟩ := of_decide_eq_true hend
  have hcount := h exampleEnv offAndOn s hs "vip" "a" 1
  rw [hl, hc] at hcount
  exact absurd hcount (by decide)

end DazeApi.Channels.Index
