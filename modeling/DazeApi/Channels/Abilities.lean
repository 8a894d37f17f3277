import DazeApi.Channels.Update
import DazeApi.Lib.Run
import Mathlib.Data.List.Induction

/-!
# The abilities table

For every group and model of a channel the table `abilities` has a row that repeats the
status, the priority, the weight and the tag of the channel (`model/ability.go`).  The
operations of `model/channel.go` that change a channel keep these rows in step, each in its
own way: some delete and create them again, some patch a column of the rows that have a tag.

An operation is a step, and it is one that succeeds: no statement of it fails.
`BatchSetChannelTag` reads the channels outside of its transaction, so that it reads them
as they were.  Of `UpdateChannelStatus` there is the part after the memory cache, which may
end the call before it.  A row is created with the defaults of its columns: status 1,
priority 0, weight 0.
-/

namespace DazeApi.Channels.Abilities

/-- `model.Ability` without its primary key. -/
structure Ability where
  enabled : Bool
  priority : Option Int
  weight : Nat
  tag : Option String
deriving DecidableEq, Repr

/-- The two tables; the rows of the abilities by channel, group and model. -/
structure Db where
  channels : ChannelTable
  abilities : Int → String → String → Option Ability

def empty : Db := ⟨Table.empty, fun _ _ _ => none⟩

/-! ## Abilities of a channel -/

/-- The key of `abilitySet`. -/
def abilityKey (p : String × String) : String := p.1 ++ "|" ++ p.2

/-- The groups and models of a channel in the order of the loops. -/
def listedPairs (c : Channel) : List (String × String) :=
  c.modelList.flatMap fun model => c.groupList.map fun group => (normalizeGroupField group, model)

/-- One turn of the loops: a pair is appended unless its key has been met. -/
def appendPair (pairs : List (String × String)) (p : String × String) : List (String × String) :=
  if pairs.any (abilityKey · = abilityKey p) then pairs else pairs ++ [p]

/-- The pairs that the loops append. -/
def abilityPairs (c : Channel) : List (String × String) := (listedPairs c).foldl appendPair []

/-- What a row of a channel repeats. -/
def abilityOf (c : Channel) : Ability := ⟨c.enabled, some c.getPriority, c.getWeight, c.tag⟩

@[simp] theorem tag_abilityOf (c : Channel) : (abilityOf c).tag = c.tag := rfl

/-- The rows that a channel creates. -/
def created (c : Channel) (group model : String) : Option Ability :=
  if (group, model) ∈ abilityPairs c then some (abilityOf c) else none

/-- `AddAbilities`, with `ON CONFLICT DO NOTHING`. -/
def addAbilities (s : Db) (c : Channel) : Db :=
  { s with abilities := fun id g m =>
      if id = c.id then (s.abilities id g m).or (created c g m) else s.abilities id g m }

/-- `UpdateAbilities`. -/
def updateAbilities (s : Db) (c : Channel) : Db :=
  { s with abilities := fun id g m => if id = c.id then created c g m else s.abilities id g m }

/-- `UpdateAbilityStatus`. -/
def updateAbilityStatus (s : Db) (channelId : Int) (status : Bool) : Db :=
  { s with abilities := fun id g m =>
      if id = channelId then (s.abilities id g m).map ({ · with enabled := status })
      else s.abilities id g m }

/-- `UPDATE abilities … WHERE tag = ?`. -/
def updateWhereTag (s : Db) (tag : String) (f : Ability → Ability) : Db :=
  { s with abilities := fun id g m =>
      (s.abilities id g m).map fun a => if a.tag = some tag then f a else a }

/-- `UpdateAbilityStatusByTag`. -/
def updateAbilityStatusByTag (s : Db) (tag : String) (status : Bool) : Db :=
  updateWhereTag s tag ({ · with enabled := status })

/-- `UpdateAbilityByTag`. -/
def updateAbilityByTag (s : Db) (tag : String) (newTag : Option String) (priority : Option Int)
    (weight : Option Nat) : Db :=
  updateWhereTag s tag fun a =>
    { a with
      tag := updatesField none a.tag newTag
      priority := updatesField none a.priority priority
      weight := updatesField 0 a.weight (weight.getD 0) }

/-! ## The operations -/

/-- `Insert`, of a channel with the id that it gets. -/
def insert (s : Db) (c : Channel) : Option Db :=
  (s.channels.insert (createdRow c)).map fun channels =>
    addAbilities { s with channels := channels } (createdRow c)

/-- `BatchInsertChannels`.  The chunks of its transaction are not seen from outside. -/
def batchInsertChannels (s : Db) (cs : List Channel) : Option Db :=
  ((cs.map createdRow).foldlM Table.insert s.channels).map fun channels =>
    (cs.map createdRow).foldl addAbilities { s with channels := channels }

section

variable (unmarshal : UnmarshalArray)

/-- `Channel.Update`.  Where the row is missing, the channel is as the caller has it. -/
def update (s : Db) (c : Channel) : Option Db :=
  if c.id = 0 then none
  else
    let channels := updateRow unmarshal s.channels c
    let loaded := (channels.find c.id).getD (recalculated unmarshal "" c)
    some (updateAbilities { s with channels := channels } loaded)

end

/-- `UPDATE channels … WHERE tag = ?`. -/
def updateChannelsWhereTag (t : ChannelTable) (tag : String) (f : Channel → Channel)
    (hf : ∀ c, (f c).id = c.id) : ChannelTable :=
  t.update (fun c => if c.tag = some tag then f c else c)
    (by intro c; split; exact hf c; rfl)

/-- The channels with a tag are given a status. -/
def setStatusByTag (t : ChannelTable) (tag : String) (status : Int) : ChannelTable :=
  updateChannelsWhereTag t tag ({ · with status := status }) fun _ => rfl

/-- `EnableChannelByTag`. -/
def enableChannelByTag (s : Db) (tag : String) : Db :=
  updateAbilityStatusByTag { s with channels := setStatusByTag s.channels tag statusEnabled }
    tag true

/-- `DisableChannelByTag`. -/
def disableChannelByTag (s : Db) (tag : String) : Db :=
  updateAbilityStatusByTag
    { s with channels := setStatusByTag s.channels tag statusManuallyDisabled } tag false

/-- The arguments of `EditChannelByTag` that reach a column of the model. -/
structure TagEdit where
  newTag : Option String
  models : Option String
  group : Option String
  priority : Option Int
  weight : Option Nat
deriving DecidableEq, Repr

/-- `shouldReCreateAbilities`. -/
def TagEdit.recreates (e : TagEdit) : Bool := e.models.getD "" ≠ "" || e.group.getD "" ≠ ""

/-- `updatedTag`. -/
def TagEdit.updatedTag (e : TagEdit) (tag : String) : String := e.newTag.getD tag

/-- `Updates(updateData)` on a row with the tag. -/
def TagEdit.row (e : TagEdit) (tag : String) (c : Channel) : Channel :=
  { c with
    tag := if e.newTag = none ∨ e.newTag = some tag then c.tag else e.newTag
    models := updatesField "" c.models (e.models.getD "")
    group := updatesField "" c.group (e.group.getD "")
    priority := updatesField none c.priority e.priority
    weight := updatesField none c.weight e.weight }

/-- The channels after the first statement of `EditChannelByTag`. -/
def editedChannels (t : ChannelTable) (tag : String) (e : TagEdit) : ChannelTable :=
  updateChannelsWhereTag t tag (e.row tag) fun _ => rfl

/-- `EditChannelByTag`. -/
def editChannelByTag (s : Db) (tag : String) (e : TagEdit) : Db :=
  let s' := { s with channels := editedChannels s.channels tag e }
  if e.recreates then
    (s'.channels.rows.filter (·.tag = some (e.updatedTag tag))).foldl updateAbilities s'
  else updateAbilityByTag s' tag e.newTag e.priority e.weight

/-- The row of a channel after `BatchSetChannelTag`. -/
def retagged (ids : List Int) (tag : Option String) (c : Channel) : Channel :=
  if c.id ∈ ids then { c with tag := tag } else c

theorem id_retagged (ids : List Int) (tag : Option String) (c : Channel) :
    (retagged ids tag c).id = c.id := by
  simp only [retagged]
  split <;> rfl

/-- `BatchSetChannelTag`. -/
def batchSetChannelTag (s : Db) (ids : List Int) (tag : Option String) : Db :=
  let s' := { s with channels := s.channels.update (retagged ids tag) (id_retagged ids tag) }
  (s.channels.rows.filter (·.id ∈ ids)).foldl updateAbilities s'

section

variable (unmarshal : UnmarshalArray)

/-- `shouldUpdateAbilities`. -/
def shouldUpdateAbilities (row saved : Channel) : Bool :=
  !row.info.isMultiKey || row.status ≠ saved.status

/-- `SaveWithoutKey`, of a channel with the key of its row. -/
def saveWithoutKey (t : ChannelTable) (c : Channel) : ChannelTable :=
  t.update (fun row => if row.id = c.id then c else row)
    (by intro row; split <;> simp [*])

/-- `UpdateChannelStatus` after the memory cache. -/
def updateChannelStatus (s : Db) (id : Int) (usingKey : String) (status : Int) (reason : String)
    (now : Int) : Db :=
  match s.channels.find id with
  | none => s
  | some row =>
      if row.status = status then s
      else
        let saved := statusRow unmarshal row usingKey status reason now
        let s' := { s with channels := saveWithoutKey s.channels saved }
        if shouldUpdateAbilities row saved then updateAbilityStatus s' id (status = statusEnabled)
        else s'

end

/-- `BatchDeleteChannels`. -/
def batchDeleteChannels (s : Db) (ids : List Int) : Db where
  channels := s.channels.delete (·.id ∈ ids)
  abilities id g m := if id ∈ ids then none else s.abilities id g m

/-- `Channel.Delete`. -/
def delete (s : Db) (id : Int) : Db := batchDeleteChannels s [id]

/-! ## Histories -/

inductive Op where
  | insert (c : Channel)
  | batchInsertChannels (cs : List Channel)
  | update (c : Channel)
  | enableChannelByTag (tag : String)
  | disableChannelByTag (tag : String)
  | editChannelByTag (tag : String) (e : TagEdit)
  | batchSetChannelTag (ids : List Int) (tag : Option String)
  | updateChannelStatus (id : Int) (usingKey : String) (status : Int) (reason : String) (now : Int)
  | delete (id : Int)
  | batchDeleteChannels (ids : List Int)

def step (unmarshal : UnmarshalArray) (s : Db) : Op → Option Db
  | .insert c => Abilities.insert s c
  | .batchInsertChannels cs => Abilities.batchInsertChannels s cs
  | .update c => Abilities.update unmarshal s c
  | .enableChannelByTag tag => some (Abilities.enableChannelByTag s tag)
  | .disableChannelByTag tag => some (Abilities.disableChannelByTag s tag)
  | .editChannelByTag tag e => some (Abilities.editChannelByTag s tag e)
  | .batchSetChannelTag ids tag => some (Abilities.batchSetChannelTag s ids tag)
  | .updateChannelStatus id usingKey status reason now =>
      some (Abilities.updateChannelStatus unmarshal s id usingKey status reason now)
  | .delete id => some (Abilities.delete s id)
  | .batchDeleteChannels ids => some (Abilities.batchDeleteChannels s ids)

/-! ## The property -/

/-- The rows that a channel should have. -/
def expected (c : Channel) (group model : String) : Option Ability :=
  if (group, model) ∈ listedPairs c then some (abilityOf c) else none

def ProjectedAt (s : Db) (id : Int) : Prop :=
  ∀ g m, s.abilities id g m = (s.channels.find id).bind (expected · g m)

/-- The abilities are those of the channels, and none of any other id. -/
def Projected (s : Db) : Prop := ∀ id, ProjectedAt s id

/-- No two pairs of the channel have the same key. -/
def separable (c : Channel) : Bool :=
  (listedPairs c).all fun p => (listedPairs c).all fun q => abilityKey p ≠ abilityKey q || p = q

/-- The request does not enable a key of a disabled channel whose other keys are all
disabled too. -/
def keepsStatus (unmarshal : UnmarshalArray) (row : Channel) (usingKey : String) (status : Int) :
    Bool :=
  let keys := row.getKeys unmarshal
  !row.info.isMultiKey || keys = [] || status ≠ statusEnabled || row.enabled ||
    row.status = statusAutoDisabled || row.info.leavesKey (keyIndex keys usingKey) status

/-- Every channel whose abilities are created is separable; `Update` finds its row; an edit
by tag that sets the weight 0 creates the abilities again or finds that weight;
`BatchSetChannelTag` finds the tag that it sets; and no status is requested that its
channel does not take. -/
def keeps (unmarshal : UnmarshalArray) (s : Db) : Op → Bool
  | .insert c => separable (createdRow c)
  | .batchInsertChannels cs => cs.all fun c => separable (createdRow c)
  | .update c => ((updateRow unmarshal s.channels c).find c.id).any separable
  | .editChannelByTag tag e =>
      s.channels.rows.all fun c =>
        if e.recreates then
          if c.tag = some tag then separable (e.row tag c)
          else c.tag ≠ some (e.updatedTag tag) || separable c
        else c.tag ≠ some tag || e.weight ≠ some 0 || c.getWeight = 0
  | .batchSetChannelTag ids tag =>
      s.channels.rows.all fun c => c.id ∉ ids || (c.tag = tag && separable c)
  | .updateChannelStatus id usingKey status _ _ =>
      (s.channels.find id).all (keepsStatus unmarshal · usingKey status)
  | _ => true

/-! ## What is created -/

/-- What the loops have appended after the pairs of a list. -/
structure Appended (l pairs : List (String × String)) : Prop where
  listed : ∀ p ∈ pairs, p ∈ l
  met : ∀ p ∈ l, ∃ q ∈ pairs, abilityKey q = abilityKey p
  distinct : ∀ p ∈ pairs, ∀ q ∈ pairs, abilityKey p = abilityKey q → p = q

theorem Appended.append {l pairs : List (String × String)} (h : Appended l pairs)
    (p : String × String) : Appended (l ++ [p]) (appendPair pairs p) := by
  simp only [appendPair, List.any_eq_true, decide_eq_true_eq]
  split
  next hmet =>
    refine ⟨fun q hq => by simp [h.listed q hq], ?_, h.distinct⟩
    intro q hq
    rcases List.mem_append.1 hq with hq | hq
    · exact h.met q hq
    · cases List.mem_singleton.1 hq
      exact hmet
  next hnew =>
    have hne (q : String × String) (hq : q ∈ pairs) : abilityKey q ≠ abilityKey p :=
      fun hkey => hnew ⟨q, hq, hkey⟩
    refine ⟨?_, ?_, ?_⟩
    · intro q hq
      rcases List.mem_append.1 hq with hq | hq
      · simp [h.listed q hq]
      · simp [List.mem_singleton.1 hq]
    · intro q hq
      rcases List.mem_append.1 hq with hq | hq
      · obtain ⟨r, hr, hkey⟩ := h.met q hq
        exact ⟨r, by simp [hr], hkey⟩
      · exact ⟨p, by simp, by rw [List.mem_singleton.1 hq]⟩
    · intro q hq r hr hkey
      rcases List.mem_append.1 hq with hq | hq <;> rcases List.mem_append.1 hr with hr | hr
      · exact h.distinct q hq r hr hkey
      · cases List.mem_singleton.1 hr
        exact absurd hkey (hne q hq)
      · cases List.mem_singleton.1 hq
        exact absurd hkey.symm (hne r hr)
      · rw [List.mem_singleton.1 hq, List.mem_singleton.1 hr]

theorem appended_foldl (l : List (String × String)) : Appended l (l.foldl appendPair []) := by
  induction l using List.reverseRecOn with
  | nil => exact ⟨by simp, by simp, by simp⟩
  | append_singleton l p ih =>
      rw [List.foldl_append]
      exact ih.append p

section

variable {s s' : Db} {c c' : Channel} {id : Int} {g m : String}

theorem exists_mem_listedPairs (c : Channel) : ∃ p, p ∈ listedPairs c := by
  obtain ⟨g, hg⟩ := List.exists_mem_of_ne_nil _ (Text.splitAt_ne_nil c.group ',')
  obtain ⟨m, hm⟩ := List.exists_mem_of_ne_nil _ (Text.splitAt_ne_nil c.models ',')
  exact ⟨(normalizeGroupField g, m),
    List.mem_flatMap.2 ⟨m, hm, List.mem_map.2 ⟨g, hg, rfl⟩⟩⟩

theorem exists_mem_abilityPairs (c : Channel) : ∃ p, p ∈ abilityPairs c := by
  obtain ⟨p, hp⟩ := exists_mem_listedPairs c
  obtain ⟨q, hq, -⟩ := (appended_foldl (listedPairs c)).met p hp
  exact ⟨q, hq⟩

/-- All pairs are appended exactly if no two of them have the same key. -/
theorem mem_abilityPairs_iff_separable (c : Channel) :
    (∀ p, p ∈ abilityPairs c ↔ p ∈ listedPairs c) ↔ separable c = true := by
  have h := appended_foldl (listedPairs c)
  simp only [separable, List.all_eq_true, Bool.or_eq_true, decide_eq_true_eq, ne_eq,
    ← imp_iff_not_or]
  constructor
  · intro hall p hp q hq hkey
    exact h.distinct p ((hall p).2 hp) q ((hall q).2 hq) hkey
  · intro hsep p
    constructor
    · exact h.listed p
    · intro hp
      obtain ⟨q, hq, hkey⟩ := h.met p hp
      cases hsep q (h.listed q hq) p hp hkey
      exact hq

/-- The rows that one channel creates are those that another one should have. -/
theorem created_eq_expected_iff (hpairs : listedPairs c' = listedPairs c) :
    (∀ g m, created c g m = expected c' g m) ↔
      separable c = true ∧ abilityOf c = abilityOf c' := by
  rw [← mem_abilityPairs_iff_separable]
  simp only [created, expected, hpairs]
  constructor
  · intro h
    have hmem (p : String × String) : p ∈ abilityPairs c ↔ p ∈ listedPairs c := by
      have hp := h p.1 p.2
      by_cases h₁ : p ∈ abilityPairs c <;> by_cases h₂ : p ∈ listedPairs c <;> simp_all
    obtain ⟨p, hp⟩ := exists_mem_abilityPairs c
    have hat := h p.1 p.2
    rw [if_pos hp, if_pos ((hmem p).1 hp)] at hat
    exact ⟨hmem, Option.some.inj hat⟩
  · rintro ⟨hmem, heq⟩ g m
    simp [hmem, heq]

/-- A channel whose abilities are created anew. -/
theorem projectedAt_created_iff (hfind : s'.channels.find id = some c')
    (hpairs : listedPairs c' = listedPairs c) (hab : ∀ g m, s'.abilities id g m = created c g m) :
    ProjectedAt s' id ↔ separable c = true ∧ abilityOf c = abilityOf c' := by
  rw [← created_eq_expected_iff hpairs]
  simp only [ProjectedAt, hfind, hab, Option.bind_some]

/-- An id that an operation does not reach. -/
theorem ProjectedAt.frame (h : ProjectedAt s id) (hfind : s'.channels.find id = s.channels.find id)
    (hab : ∀ g m, s'.abilities id g m = s.abilities id g m) : ProjectedAt s' id := by
  intro g m
  rw [hab, hfind]
  exact h g m

/-- An operation that reaches one id. -/
theorem projected_iff_at (id : Int) (h : Projected s)
    (hother : ∀ i, i ≠ id → s'.channels.find i = s.channels.find i ∧
      ∀ g m, s'.abilities i g m = s.abilities i g m) :
    Projected s' ↔ ProjectedAt s' id := by
  constructor
  · intro h'
    exact h' id
  · intro hat i
    by_cases hi : i = id
    · rw [hi]
      exact hat
    · exact (h i).frame (hother i hi).1 (hother i hi).2

theorem Projected.none_of_find (h : Projected s) (hfind : s.channels.find id = none) (g m : String) :
    s.abilities id g m = none := by
  rw [h id g m, hfind]
  rfl

/-! ## The operations on one channel -/

theorem projected_insert_iff (h : Projected s) (hs : insert s c = some s') :
    Projected s' ↔ separable (createdRow c) = true := by
  obtain ⟨t, ht, rfl⟩ := Option.map_eq_some_iff.1 hs
  obtain ⟨hnone, hfind⟩ := Table.insert_eq_some ht
  rw [projected_iff_at (createdRow c).id h]
  · have hfind' := hfind (createdRow c).id
    rw [if_pos rfl] at hfind'
    refine (projectedAt_created_iff (c := createdRow c) hfind' rfl ?_).trans (and_iff_left rfl)
    intro g m
    simp [addAbilities, h.none_of_find hnone g m]
  · intro i hi
    exact ⟨by simpa [hi, addAbilities] using hfind i, fun g m => by simp [addAbilities, hi]⟩

theorem find_updateRow_of_ne {unmarshal : UnmarshalArray} {t : ChannelTable} {i : Int}
    (hi : i ≠ c.id) : (updateRow unmarshal t c).find i = t.find i := by
  rw [updateRow, Table.find_update]
  cases hrow : t.find i with
  | none => rfl
  | some row =>
      have hid : row.id ≠ c.id := by
        rw [Table.key_of_find hrow]
        exact hi
      simp [hid]

theorem id_recalculated (unmarshal : UnmarshalArray) (existing : String) (c : Channel) :
    (recalculated unmarshal existing c).id = c.id := by
  simp only [recalculated]
  split <;> rfl

/-- `Update` of a channel without a row leaves abilities without a channel. -/
theorem projected_update_iff {unmarshal : UnmarshalArray} (h : Projected s)
    (hs : update unmarshal s c = some s') :
    Projected s' ↔ ((updateRow unmarshal s.channels c).find c.id).any separable = true := by
  simp only [update] at hs
  split at hs
  next => cases hs
  next =>
    cases hs
    cases hrow : (updateRow unmarshal s.channels c).find c.id with
    | none =>
        refine iff_of_false ?_ (by simp)
        intro hat
        obtain ⟨p, hp⟩ := exists_mem_abilityPairs (recalculated unmarshal "" c)
        have hp' := hat c.id p.1 p.2
        simp [updateAbilities, hrow, id_recalculated, created, hp] at hp'
    | some row =>
        have hid : row.id = c.id := Table.key_of_find hrow
        rw [projected_iff_at c.id h]
        · refine (projectedAt_created_iff (c := row) hrow rfl ?_).trans (and_iff_left rfl)
          intro g m
          simp [updateAbilities, hid]
        · intro i hi
          refine ⟨find_updateRow_of_ne hi, ?_⟩
          intro g m
          simp [updateAbilities, hid, hi]

theorem find_saveWithoutKey (t : ChannelTable) (c : Channel) (i : Int) :
    (saveWithoutKey t c).find i = (t.find i).map fun row => if row.id = c.id then c else row :=
  t.find_update _ (by intro row; split <;> simp [*]) i

/-- What `UpdateChannelStatus` may change: the status, and the keys of the channel. -/
structure SameButStatus (row saved : Channel) : Prop where
  id : saved.id = row.id
  pairs : listedPairs saved = listedPairs row
  ability : abilityOf saved = { abilityOf row with enabled := saved.enabled }

theorem sameButStatus_statusRow (unmarshal : UnmarshalArray) (row : Channel) (usingKey : String)
    (status : Int) (reason : String) (now : Int) :
    SameButStatus row (statusRow unmarshal row usingKey status reason now) := by
  simp only [statusRow, handlerMultiKeyUpdate]
  split
  next =>
    split
    next => exact ⟨rfl, rfl, rfl⟩
    next => split <;> exact ⟨rfl, rfl, rfl⟩
  next => exact ⟨rfl, rfl, rfl⟩

/-- The channel is saved, and its abilities are given a status. -/
theorem projected_saveStatus_iff {row saved : Channel} {b : Bool} (h : Projected s)
    (hrow : s.channels.find id = some row) (hsame : SameButStatus row saved)
    (hchannels : s'.channels = saveWithoutKey s.channels saved)
    (hother : ∀ i, i ≠ id → ∀ g m, s'.abilities i g m = s.abilities i g m)
    (hab : ∀ g m, s'.abilities id g m = (s.abilities id g m).map ({ · with enabled := b })) :
    Projected s' ↔ saved.enabled = b := by
  have hid : row.id = id := Table.key_of_find hrow
  rw [projected_iff_at id h]
  · simp only [ProjectedAt, hab, hchannels, find_saveWithoutKey, h id _ _, hrow, hsame.id,
      Option.map_some, if_true, Option.bind_some, expected, hsame.pairs, hsame.ability]
    constructor
    · intro heq
      obtain ⟨p, hp⟩ := exists_mem_listedPairs row
      simpa [hp, abilityOf, eq_comm] using heq p.1 p.2
    · rintro rfl g m
      split <;> rfl
  · intro i hi
    refine ⟨?_, hother i hi⟩
    rw [hchannels, find_saveWithoutKey]
    cases hrow' : s.channels.find i with
    | none => rfl
    | some row' =>
        have hne : row'.id ≠ saved.id := by
          rw [Table.key_of_find hrow', hsame.id, hid]
          exact hi
        simp [hne]

/-- The status that the saved channel has and the one that its abilities get. -/
theorem keepsStatus_iff {unmarshal : UnmarshalArray} {row : Channel} {usingKey : String}
    {status : Int} (hst : row.status ≠ status) (reason : String) (now : Int) :
    (statusRow unmarshal row usingKey status reason now).enabled =
        (if shouldUpdateAbilities row (statusRow unmarshal row usingKey status reason now) then
          decide (status = statusEnabled)
        else row.enabled) ↔
      keepsStatus unmarshal row usingKey status = true := by
  simp only [statusRow, handlerMultiKeyUpdate, keepsStatus, shouldUpdateAbilities]
  cases hmulti : row.info.isMultiKey with
  | false => simp [Channel.enabled]
  | true =>
      simp only [if_true, Bool.not_true, Bool.false_or]
      by_cases hkeys : row.getKeys unmarshal = []
      · simp [hkeys, Channel.enabled, hst]
      · simp only [hkeys, if_false, exhausted_setKeyStatus]
        cases row.info.leavesKey (keyIndex (row.getKeys unmarshal) usingKey) status with
        | true => simp [Channel.enabled]
        | false =>
            by_cases hauto : row.status = statusAutoDisabled
            · simp [Channel.enabled, hauto]
            · have hoff : ¬ statusAutoDisabled = statusEnabled := by decide
              have hon : ¬ status = statusEnabled ∨ ¬ row.status = statusEnabled := by
                rw [← not_and_or]
                rintro ⟨h₁, h₂⟩
                exact hst (h₂.trans h₁.symm)
              rcases hon with hon | hon <;> simp [Channel.enabled, hauto, hoff, hon]

theorem projected_updateChannelStatus_iff {unmarshal : UnmarshalArray} {usingKey : String}
    {status : Int} {reason : String} {now : Int} (h : Projected s) :
    Projected (updateChannelStatus unmarshal s id usingKey status reason now) ↔
      (s.channels.find id).all (keepsStatus unmarshal · usingKey status) = true := by
  simp only [updateChannelStatus]
  cases hrow : s.channels.find id with
  | none => simpa using h
  | some row =>
      simp only [Option.all_some]
      by_cases hst : row.status = status
      · rw [if_pos hst]
        refine iff_of_true h ?_
        by_cases he : status = statusEnabled <;> simp [keepsStatus, Channel.enabled, hst, he]
      · rw [if_neg hst, ← keepsStatus_iff hst reason now]
        have hsame := sameButStatus_statusRow unmarshal row usingKey status reason now
        generalize statusRow unmarshal row usingKey status reason now = saved at hsame ⊢
        split
        next =>
          refine projected_saveStatus_iff h hrow hsame rfl ?_ ?_
          · intro i hi g m
            simp [updateAbilityStatus, hi]
          · intro g m
            simp [updateAbilityStatus]
        next =>
          refine projected_saveStatus_iff h hrow hsame rfl (fun _ _ _ _ => rfl) ?_
          intro g m
          rw [h id g m, hrow]
          simp only [Option.bind_some, expected]
          split <;> rfl

/-! ## The operations on the channels with a tag -/

/-- A statement on the channels with a tag and one on the abilities with that tag keep in
step exactly if they do the same to every channel. -/
theorem projectedAt_whereTag_iff {tag : String} {f : Ability → Ability} {F : Channel → Channel}
    (hF : ∀ c, (F c).id = c.id) (hpairs : ∀ c, listedPairs (F c) = listedPairs c)
    (h : ProjectedAt s id) :
    ProjectedAt (updateWhereTag { s with
        channels := updateChannelsWhereTag s.channels tag F hF } tag f) id ↔
      ∀ c, s.channels.find id = some c → c.tag = some tag → abilityOf (F c) = f (abilityOf c) := by
  have hfind : (updateChannelsWhereTag s.channels tag F hF).find id =
      (s.channels.find id).map fun c => if c.tag = some tag then F c else c :=
    s.channels.find_update _ _ id
  simp only [ProjectedAt, updateWhereTag, hfind, h _ _]
  cases hc : s.channels.find id with
  | none => simp
  | some c =>
      simp only [Option.bind_some, Option.map_some, Option.some.injEq, forall_eq']
      by_cases htag : c.tag = some tag
      · simp only [htag, if_true, forall_const, expected, hpairs]
        constructor
        · intro heq
          obtain ⟨p, hp⟩ := exists_mem_listedPairs c
          simpa [hp, htag, eq_comm] using heq p.1 p.2
        · intro heq g m
          split
          next => simp [heq, htag]
          next => rfl
      · simp only [htag, if_false, false_implies, iff_true]
        intro g m
        simp only [expected]
        split
        next => simp [htag]
        next => rfl

theorem projected_setStatusByTag (h : Projected s) (tag : String) (status : Int) :
    Projected (updateAbilityStatusByTag { s with channels := setStatusByTag s.channels tag status }
      tag (status = statusEnabled)) := by
  intro id
  exact (projectedAt_whereTag_iff (F := fun c => { c with status := status })
    (f := fun a => { a with enabled := status = statusEnabled }) (fun _ => rfl) (fun _ => rfl)
    (h id)).2 fun _ _ _ => rfl

/-- `UpdateAbilities` of all channels of a table. -/
theorem foldl_updateAbilities (t : ChannelTable) (s : Db) :
    (t.rows.foldl updateAbilities s).channels = s.channels ∧
      ∀ i g m, (t.rows.foldl updateAbilities s).abilities i g m =
        ((t.find i).map (created · g m)).getD (s.abilities i g m) := by
  obtain ⟨rows, hnodup⟩ := t
  simp only [Table.find]
  induction rows generalizing s with
  | nil => exact ⟨rfl, fun _ _ _ => rfl⟩
  | cons c rows ih =>
      obtain ⟨hc, hrows⟩ := List.nodup_cons.1 hnodup
      obtain ⟨hch, hab⟩ := ih (updateAbilities s c) hrows
      refine ⟨hch, ?_⟩
      intro i g m
      rw [List.foldl_cons, hab]
      by_cases hi : c.id = i
      · have hnone : rows.find? (fun r => decide (r.id = i)) = none := by
          rw [List.find?_eq_none]
          intro d hd hdi
          exact hc (List.mem_map.2 ⟨d, hd, (of_decide_eq_true hdi).trans hi.symm⟩)
        simp [hnone, hi, updateAbilities]
      · have hne : ¬ i = c.id := fun h => hi h.symm
        simp [hi, hne, updateAbilities]

/-- The same for the channels of a table that meet a condition. -/
theorem foldl_updateAbilities_filter (t : ChannelTable) (p : Channel → Bool) (s : Db) :
    ((t.rows.filter p).foldl updateAbilities s).channels = s.channels ∧
      ∀ i g m, ((t.rows.filter p).foldl updateAbilities s).abilities i g m =
        (((t.find i).filter p).map (created · g m)).getD (s.abilities i g m) := by
  have h := foldl_updateAbilities (t.delete fun c => !p c) s
  simp only [Table.find_delete, Bool.not_not] at h
  simpa [Table.delete] using h

theorem find_editedChannels (t : ChannelTable) (tag : String) (e : TagEdit) (i : Int) :
    (editedChannels t tag e).find i =
      (t.find i).map fun c => if c.tag = some tag then e.row tag c else c :=
  t.find_update (fun c => if c.tag = some tag then e.row tag c else c)
    (by intro c; split <;> rfl) i

theorem recreate_spec {e : TagEdit} (s : Db) (tag : String) (he : e.recreates = true) :
    (∀ i, (editChannelByTag s tag e).channels.find i =
      (s.channels.find i).map fun c => if c.tag = some tag then e.row tag c else c) ∧
    ∀ i g m, (editChannelByTag s tag e).abilities i g m =
      ((((s.channels.find i).map fun c => if c.tag = some tag then e.row tag c else c).filter
        (·.tag = some (e.updatedTag tag))).map (created · g m)).getD (s.abilities i g m) := by
  obtain ⟨hch, hab⟩ := foldl_updateAbilities_filter (editedChannels s.channels tag e)
    (·.tag = some (e.updatedTag tag)) { s with channels := editedChannels s.channels tag e }
  simp only [editChannelByTag, he, if_true, ← find_editedChannels]
  exact ⟨fun i => by rw [hch], hab⟩

theorem tag_row {tag : String} {e : TagEdit} (htag : c.tag = some tag) :
    (e.row tag c).tag = some (e.updatedTag tag) := by
  simp only [TagEdit.row, TagEdit.updatedTag, htag]
  split
  next h => rcases h with h | h <;> simp [h]
  next h =>
    cases hn : e.newTag with
    | none => exact absurd (Or.inl hn) h
    | some t => rfl

/-- An edit that creates the abilities again. -/
theorem projected_recreate_iff {tag : String} {e : TagEdit} (h : Projected s)
    (he : e.recreates = true) :
    Projected (editChannelByTag s tag e) ↔
      ∀ c ∈ s.channels.rows, if c.tag = some tag then separable (e.row tag c) = true
        else c.tag = some (e.updatedTag tag) → separable c = true := by
  obtain ⟨hfind, hab⟩ := recreate_spec s tag he
  rw [← Table.forall_find_iff]
  refine forall_congr' fun id => ?_
  cases hc : s.channels.find id with
  | none =>
      refine iff_of_true ((h id).frame ?_ ?_) (by simp)
      · simp [hfind, hc]
      · simp [hab, hc]
  | some c =>
      simp only [Option.some.injEq, forall_eq']
      by_cases htag : c.tag = some tag
      · have hnew : (e.row tag c).tag = some (e.updatedTag tag) := tag_row htag
        rw [if_pos htag]
        refine (projectedAt_created_iff (c := e.row tag c) ?_ rfl ?_).trans (and_iff_left rfl)
        · simp [hfind, hc, htag]
        · simp [hab, hc, htag, Option.filter_some, hnew]
      · rw [if_neg htag]
        by_cases hup : c.tag = some (e.updatedTag tag)
        · simp only [hup, forall_const]
          refine (projectedAt_created_iff (c := c) ?_ rfl ?_).trans (and_iff_left rfl)
          · simp [hfind, hc, htag]
          · intro g m
            rw [hab, hc, Option.map_some, if_neg htag, Option.filter_some, if_pos (by simp [hup])]
            rfl
        · refine iff_of_true ((h id).frame ?_ ?_) (by simp [hup])
          · simp [hfind, hc, htag]
          · simp [hab, hc, htag, Option.filter_some, hup]

/-- The patch of an ability does what the edit does to its channel, but for the weight 0. -/
theorem abilityOf_row_iff {tag : String} {e : TagEdit} (htag : c.tag = some tag) :
    abilityOf (e.row tag c) =
        { abilityOf c with
          tag := updatesField none (abilityOf c).tag e.newTag
          priority := updatesField none (abilityOf c).priority e.priority
          weight := updatesField 0 (abilityOf c).weight (e.weight.getD 0) } ↔
      (e.weight = some 0 → c.getWeight = 0) := by
  have hnew : (e.row tag c).tag = updatesField none c.tag e.newTag := by
    simp only [TagEdit.row, updatesField, htag]
    split_ifs <;> simp_all
  have hpri : some (e.row tag c).getPriority =
      updatesField none (some c.getPriority) e.priority := by
    cases hp : e.priority <;> simp [TagEdit.row, updatesField, Channel.getPriority, hp]
  have hwt : (e.row tag c).getWeight = updatesField 0 c.getWeight (e.weight.getD 0) ↔
      (e.weight = some 0 → c.getWeight = 0) := by
    cases hw : e.weight with
    | none => simp [TagEdit.row, updatesField, Channel.getWeight, hw]
    | some w =>
        by_cases hz : w = 0
        · simp only [TagEdit.row, updatesField, Channel.getWeight, hw, hz]
          simp [eq_comm]
        · simp [TagEdit.row, updatesField, Channel.getWeight, hw, hz]
  rw [← hwt]
  simp only [abilityOf, hnew, hpri, Ability.mk.injEq, and_true, true_and]
  exact and_iff_right rfl

/-- An edit that patches the abilities. -/
theorem projected_patch_iff {tag : String} {e : TagEdit} (h : Projected s)
    (he : e.recreates = false) :
    Projected (editChannelByTag s tag e) ↔
      ∀ c ∈ s.channels.rows, c.tag = some tag → e.weight = some 0 → c.getWeight = 0 := by
  have hpairs (c : Channel) : listedPairs (e.row tag c) = listedPairs c := by
    simp only [TagEdit.recreates, Bool.or_eq_false_iff, decide_eq_false_iff_not, ne_eq,
      not_not] at he
    simp [listedPairs, Channel.modelList, Channel.groupList, TagEdit.row, updatesField, he.1, he.2]
  rw [editChannelByTag, he, ← Table.forall_find_iff]
  refine forall_congr' fun id => ?_
  refine (projectedAt_whereTag_iff (F := e.row tag) (fun _ => rfl) hpairs (h id)).trans ?_
  exact forall_congr' fun c => forall_congr' fun _ => forall_congr' fun htag =>
    abilityOf_row_iff htag

theorem batchSetChannelTag_spec (s : Db) (ids : List Int) (tag : Option String) :
    (∀ i, (batchSetChannelTag s ids tag).channels.find i =
      (s.channels.find i).map (retagged ids tag)) ∧
    ∀ i g m, (batchSetChannelTag s ids tag).abilities i g m =
      (((s.channels.find i).filter (·.id ∈ ids)).map (created · g m)).getD
        (s.abilities i g m) := by
  obtain ⟨hch, hab⟩ := foldl_updateAbilities_filter s.channels (·.id ∈ ids)
    { s with channels := s.channels.update (retagged ids tag) (id_retagged ids tag) }
  refine ⟨?_, hab⟩
  intro i
  rw [← Table.find_update _ _ (id_retagged ids tag)]
  exact congrArg (fun t : ChannelTable => t.find i) hch

theorem projected_batchSetChannelTag_iff {ids : List Int} {tag : Option String} (h : Projected s) :
    Projected (batchSetChannelTag s ids tag) ↔
      (s.channels.rows.all fun c => c.id ∉ ids || (c.tag = tag && separable c)) = true := by
  obtain ⟨hfind, hab⟩ := batchSetChannelTag_spec s ids tag
  have hat (id : Int) : ProjectedAt (batchSetChannelTag s ids tag) id ↔
      ∀ c, s.channels.find id = some c → c.id ∈ ids → c.tag = tag ∧ separable c = true := by
    cases hc : s.channels.find id with
    | none =>
        refine iff_of_true ((h id).frame ?_ ?_) (by simp)
        · rw [hfind, hc]
          rfl
        · intro g m
          rw [hab, hc]
          rfl
    | some c =>
        by_cases hmem : c.id ∈ ids
        · have hfind' : (batchSetChannelTag s ids tag).channels.find id =
              some { c with tag := tag } := by
            simp [hfind, hc, retagged, hmem]
          rw [projectedAt_created_iff (c := c) hfind' rfl]
          · simp [hmem, abilityOf, and_comm, Channel.enabled, Channel.getPriority,
              Channel.getWeight]
          · simp [hab, hc, Option.filter_some, hmem]
        · refine iff_of_true ((h id).frame ?_ ?_) (by simp [hmem])
          · simp [hfind, hc, retagged, hmem]
          · simp [hab, hc, Option.filter_some, hmem]
  simp only [Projected, hat]
  rw [Table.forall_find_iff (P := fun c => c.id ∈ ids → c.tag = tag ∧ separable c = true)]
  simp only [List.all_eq_true, Bool.or_eq_true, Bool.and_eq_true, decide_eq_true_eq,
    imp_iff_not_or]

/-! ## Inserting several channels -/

theorem foldlM_insert {rows : List Channel} :
    ∀ {t t' : ChannelTable}, rows.foldlM Table.insert t = some t' →
      (∀ i, i ∉ rows.map (·.id) → t'.find i = t.find i) ∧
      ∀ c ∈ rows, t.find c.id = none ∧ t'.find c.id = some c := by
  induction rows with
  | nil =>
      intro t t' h
      cases h
      exact ⟨fun _ _ => rfl, by simp⟩
  | cons c rows ih =>
      intro t t' h
      obtain ⟨m, hm, hrest⟩ := Option.bind_eq_some_iff.1 h
      obtain ⟨hnone, hfind⟩ := Table.insert_eq_some hm
      obtain ⟨hother, hrows⟩ := ih hrest
      have hne (d : Channel) (hd : d ∈ rows) : d.id ≠ c.id := by
        intro hid
        have hd' := (hrows d hd).1
        rw [hfind, if_pos hid] at hd'
        cases hd'
      refine ⟨?_, ?_⟩
      · intro i hi
        simp only [List.map_cons, List.mem_cons, not_or] at hi
        rw [hother i hi.2, hfind, if_neg hi.1]
      · intro d hd
        rcases List.mem_cons.1 hd with rfl | hd
        · have hnot : d.id ∉ rows.map (·.id) := by
            rw [List.mem_map]
            rintro ⟨e, he, hid⟩
            exact hne e he hid
          exact ⟨hnone, by rw [hother d.id hnot, hfind, if_pos rfl]⟩
        · obtain ⟨hn, hf⟩ := hrows d hd
          rw [hfind, if_neg (hne d hd)] at hn
          exact ⟨hn, hf⟩

theorem foldl_addAbilities {rows : List Channel} :
    ∀ {s : Db}, (rows.map (·.id)).Nodup →
      (rows.foldl addAbilities s).channels = s.channels ∧
      (∀ i, i ∉ rows.map (·.id) → ∀ g m,
        (rows.foldl addAbilities s).abilities i g m = s.abilities i g m) ∧
      ∀ c ∈ rows, ∀ g m, (rows.foldl addAbilities s).abilities c.id g m =
        (s.abilities c.id g m).or (created c g m) := by
  induction rows with
  | nil =>
      intro s _
      exact ⟨rfl, fun _ _ _ _ => rfl, by simp⟩
  | cons c rows ih =>
      intro s hnodup
      obtain ⟨hc, hrows⟩ := List.nodup_cons.1 hnodup
      obtain ⟨hch, hother, hown⟩ := ih (s := addAbilities s c) hrows
      refine ⟨hch, ?_, ?_⟩
      · intro i hi g m
        simp only [List.map_cons, List.mem_cons, not_or] at hi
        rw [List.foldl_cons, hother i hi.2]
        simp [addAbilities, hi.1]
      · intro d hd g m
        rw [List.foldl_cons]
        rcases List.mem_cons.1 hd with rfl | hd
        · rw [hother d.id hc]
          simp [addAbilities]
        · have hne : d.id ≠ c.id := fun hid => hc (List.mem_map.2 ⟨d, hd, hid⟩)
          rw [hown d hd]
          simp [addAbilities, hne]

/-- Rows that go into a table one after the other have distinct ids. -/
theorem nodup_of_foldlM_insert {rows : List Channel} :
    ∀ {t t' : ChannelTable}, rows.foldlM Table.insert t = some t' → (rows.map (·.id)).Nodup := by
  induction rows with
  | nil =>
      intro t t' _
      simp
  | cons c rows ih =>
      intro t t' h
      obtain ⟨m, hm, hrest⟩ := Option.bind_eq_some_iff.1 h
      refine List.nodup_cons.2 ⟨?_, ih hrest⟩
      rw [List.mem_map]
      rintro ⟨d, hd, hid⟩
      have hd' := ((foldlM_insert hrest).2 d hd).1
      rw [(Table.insert_eq_some hm).2, if_pos hid] at hd'
      cases hd'

theorem projected_batchInsertChannels_iff {cs : List Channel} (h : Projected s)
    (hs : batchInsertChannels s cs = some s') :
    Projected s' ↔ (cs.all fun c => separable (createdRow c)) = true := by
  obtain ⟨t, ht, rfl⟩ := Option.map_eq_some_iff.1 hs
  obtain ⟨hother, hown⟩ := foldlM_insert ht
  obtain ⟨hch, habOther, habOwn⟩ :=
    foldl_addAbilities (s := { s with channels := t }) (nodup_of_foldlM_insert ht)
  have hrow {c : Channel} (hc : c ∈ cs.map createdRow) :
      ProjectedAt ((cs.map createdRow).foldl addAbilities { s with channels := t }) c.id ↔
        separable c = true := by
    obtain ⟨hnone, hfind⟩ := hown c hc
    refine (projectedAt_created_iff (c := c) ?_ rfl ?_).trans (and_iff_left rfl)
    · rw [hch]
      exact hfind
    · intro g m
      rw [habOwn c hc]
      simp [h.none_of_find hnone g m]
  simp only [List.all_eq_true]
  constructor
  · intro hp c hc
    exact (hrow (List.mem_map.2 ⟨c, hc, rfl⟩)).1 (hp _)
  · intro hall id
    by_cases hid : id ∈ (cs.map createdRow).map (·.id)
    · obtain ⟨c, hc, rfl⟩ := List.mem_map.1 hid
      obtain ⟨d, hd, rfl⟩ := List.mem_map.1 hc
      exact (hrow hc).2 (hall d hd)
    · refine (h id).frame ?_ (habOther id hid)
      rw [hch]
      exact hother id hid

theorem projected_batchDeleteChannels (h : Projected s) (ids : List Int) :
    Projected (batchDeleteChannels s ids) := by
  intro id g m
  simp only [batchDeleteChannels, Table.find_delete, h id g m]
  cases hc : s.channels.find id with
  | none => simp
  | some c =>
      have hid : c.id = id := Table.key_of_find hc
      by_cases hmem : id ∈ ids <;> simp [Option.filter_some, hid, hmem]

/-! ## Whole histories -/

/-- One operation keeps the abilities in step exactly if it meets `keeps`. -/
theorem projected_step_iff {unmarshal : UnmarshalArray} {op : Op} (h : Projected s)
    (hs : step unmarshal s op = some s') : Projected s' ↔ keeps unmarshal s op = true := by
  cases op with
  | insert c => exact projected_insert_iff h hs
  | batchInsertChannels cs => exact projected_batchInsertChannels_iff h hs
  | update c => exact projected_update_iff h hs
  | enableChannelByTag tag =>
      cases hs
      exact iff_of_true (projected_setStatusByTag h tag statusEnabled) rfl
  | disableChannelByTag tag =>
      cases hs
      exact iff_of_true (projected_setStatusByTag h tag statusManuallyDisabled) rfl
  | editChannelByTag tag e =>
      cases hs
      cases he : e.recreates with
      | true =>
          rw [projected_recreate_iff h he]
          simp only [keeps, he, if_true, List.all_eq_true]
          refine forall_congr' fun c => forall_congr' fun _ => ?_
          split <;> simp [imp_iff_not_or]
      | false =>
          rw [projected_patch_iff h he]
          simp [keeps, he, imp_iff_not_or, or_assoc]
  | batchSetChannelTag ids tag =>
      cases hs
      exact projected_batchSetChannelTag_iff h
  | updateChannelStatus id usingKey status reason now =>
      cases hs
      exact projected_updateChannelStatus_iff h
  | delete id =>
      cases hs
      exact iff_of_true (projected_batchDeleteChannels h [id]) rfl
  | batchDeleteChannels ids =>
      cases hs
      exact iff_of_true (projected_batchDeleteChannels h ids) rfl

end

/-- In a history of operations that succeed, the abilities are those of the channels after
every operation, exactly if every operation meets `keeps`. -/
theorem projected_iff_keeps (unmarshal : UnmarshalArray) (ops : List Op) (s : Db)
    (h : Run.exec (step unmarshal) empty ops = some s) :
    Run.Always (step unmarshal) Projected empty ops ↔
      Run.Along (step unmarshal) (fun s op => keeps unmarshal s op = true) empty ops := by
  refine Run.always_iff_along (R := fun _ _ => True) (fun s a s' hI _ hs => projected_step_iff hI hs)
    ops empty s ?_ (Run.along_of_forall (fun _ _ => trivial) ops _) h
  intro id g m
  rfl

/-! ## Two histories -/

def exampleChannel (id : Int) (tag : Option String) : Channel :=
  ⟨id, "sk", 1, "a,b", "default, vip", some 7, none, tag, .zero, []⟩

/-- Two channels are made, those with a tag are edited and disabled, one is updated, and
one is deleted. -/
def inStep : List Op :=
  [.insert (exampleChannel 1 none), .batchInsertChannels [exampleChannel 2 (some "t")],
    .editChannelByTag "t" ⟨some "u", none, none, some 9, some 4⟩, .disableChannelByTag "u",
    .update { exampleChannel 1 (some "v") with models := "a,c" },
    .updateChannelStatus 1 "sk" 3 "" 0, .batchSetChannelTag [1] (some "v"), .delete 2]

/-- A channel is given a tag. -/
def tagged : List Op := [.insert (exampleChannel 1 none), .batchSetChannelTag [1] (some "t")]

theorem projected_inStep :
    ∃ s, Run.exec (step fun _ => none) empty inStep = some s ∧
      s.abilities 1 "vip" "c" = some ⟨false, some 7, 0, some "v"⟩ ∧
      Run.Always (step fun _ => none) Projected empty inStep := by
  obtain ⟨s, hs, hend⟩ := Run.exists_of_any (step fun _ => none) empty inStep
    (fun s => s.abilities 1 "vip" "c" = some ⟨false, some 7, 0, some "v"⟩) (by decide +kernel)
  exact ⟨s, hs, of_decide_eq_true hend,
    (projected_iff_keeps (fun _ => none) inStep s hs).2 (by decide +kernel)⟩

/-- The channel has the tag, and its abilities have none. -/
theorem tagged_not_projected :
    ¬ ∀ (unmarshal : UnmarshalArray) (ops : List Op) (s : Db),
      Run.exec (step unmarshal) empty ops = some s → Projected s := by
  intro h
  obtain ⟨s, hs, hend⟩ := Run.exists_of_any (step fun _ => none) empty tagged
    (fun s => (s.channels.find 1).any (·.tag = some "t") ∧
      s.abilities 1 "vip" "a" = some ⟨true, some 7, 0, none⟩) (by decide +kernel)
  obtain ⟨htag, hab⟩ := of_decide_eq_true hend
  obtain ⟨c, hc, hct⟩ := (Option.any_eq_true _ _).1 htag
  have hp := h (fun _ => none) tagged s hs 1 "vip" "a"
  rw [hab, hc, Option.bind_some, expected] at hp
  split at hp
  next =>
    have ht := congrArg Ability.tag (Option.some.inj hp)
    rw [tag_abilityOf, of_decide_eq_true hct] at ht
    cases ht
  next => cases hp

end DazeApi.Channels.Abilities
