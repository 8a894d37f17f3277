import DazeApi.Channels.Abilities
import DazeApi.Channels.Index

/-!
# The groups of the index

`InitChannelCache` makes a map for every group that an ability has, and writes into the
maps of the groups that the enabled channels list.  The abilities of a channel have its
groups trimmed, the channel has them as they were written.  So the writes find their maps
exactly if no enabled channel lists a group with space around it: `appendRows_iff_tidy`,
for the tables after any history of operations.
-/

namespace DazeApi.Channels.Abilities

/-- The groups of the rows of `abilities`, as `InitChannelCache` finds them. -/
def GroupsOf (s : Db) (groups : List String) : Prop :=
  ∀ g, g ∈ groups ↔ ∃ id m, (s.abilities id g m).isSome = true

/-- Every group that the channel lists is trimmed, unless the channel is not enabled. -/
def tidy (c : Channel) : Bool :=
  !c.enabled || c.groupList.all fun g => normalizeGroupField g = g

def Tidy (s : Db) : Prop := ∀ c ∈ s.channels.rows, tidy c = true

/-! ## What one operation does to the groups of a channel -/

/-- The abilities of the channel are as they were, and so are its groups. -/
structure Kept (s s' : Db) (id : Int) : Prop where
  rows : ∀ c', s'.channels.find id = some c' → ∃ c, s.channels.find id = some c ∧
    c'.groupList = c.groupList ∧
    ∀ g m, (s.abilities id g m).isSome = true → (s'.abilities id g m).isSome = true
  abilities : ∀ g m, (s'.abilities id g m).isSome = true → (s.abilities id g m).isSome = true

/-- The abilities of the channel are created, beside some that were there. -/
structure Made (s s' : Db) (id : Int) (c : Channel) : Prop where
  rows : ∀ c', s'.channels.find id = some c' → c'.groupList = c.groupList
  makes : ∀ g m, (created c g m).isSome = true → (s'.abilities id g m).isSome = true
  abilities : ∀ g m, (s'.abilities id g m).isSome = true →
    (created c g m).isSome = true ∨ (s.abilities id g m).isSome = true

section

variable {s s' : Db} {id : Int} {c : Channel}

theorem Kept.frame (hfind : s'.channels.find id = s.channels.find id)
    (hab : ∀ g m, s'.abilities id g m = s.abilities id g m) : Kept s s' id := by
  refine ⟨?_, fun g m h => by rwa [hab] at h⟩
  intro c' hc'
  exact ⟨c', hfind ▸ hc', rfl, fun g m h => by rwa [hab]⟩

theorem Kept.of_map {f : Channel → Channel} {k : Ability → Ability}
    (hf : ∀ c, (f c).groupList = c.groupList)
    (hfind : s'.channels.find id = (s.channels.find id).map f)
    (hab : ∀ g m, s'.abilities id g m = (s.abilities id g m).map k) : Kept s s' id := by
  refine ⟨?_, fun g m h => by simpa [hab] using h⟩
  intro c' hc'
  rw [hfind] at hc'
  obtain ⟨c, hc, rfl⟩ := Option.map_eq_some_iff.1 hc'
  exact ⟨c, hc, hf c, fun g m h => by simpa [hab] using h⟩

theorem Made.of_created (hrows : ∀ c', s'.channels.find id = some c' → c'.groupList = c.groupList)
    (hab : ∀ g m, s'.abilities id g m = created c g m) : Made s s' id c :=
  ⟨hrows, fun g m h => by rwa [hab], fun g m h => Or.inl (by rwa [hab] at h)⟩

theorem cases_insert (hs : insert s c = some s') (i : Int) : Kept s s' i ∨ ∃ c', Made s s' i c' := by
  obtain ⟨t, ht, rfl⟩ := Option.map_eq_some_iff.1 hs
  obtain ⟨-, hfind⟩ := Table.insert_eq_some ht
  by_cases hi : i = (createdRow c).id
  · refine Or.inr ⟨createdRow c, ?_, ?_, ?_⟩
    · intro c' hc'
      have hrow : some (createdRow c) = some c' := by
        rw [← hc']
        simpa [hi, addAbilities] using (hfind i).symm
      rw [← Option.some.inj hrow]
    · intro g m h
      simp [addAbilities, hi, h]
    · intro g m h
      simp only [addAbilities, hi, if_true, Option.isSome_or, Bool.or_eq_true] at h
      rw [hi]
      exact h.symm
  · refine Or.inl (.frame ?_ ?_)
    · simpa [hi, addAbilities] using hfind i
    · simp [addAbilities, hi]

theorem cases_batchInsertChannels {cs : List Channel} (hs : batchInsertChannels s cs = some s')
    (i : Int) : Kept s s' i ∨ ∃ c', Made s s' i c' := by
  obtain ⟨t, ht, rfl⟩ := Option.map_eq_some_iff.1 hs
  obtain ⟨hother, hown⟩ := foldlM_insert ht
  obtain ⟨hch, habOther, habOwn⟩ :=
    foldl_addAbilities (s := { s with channels := t }) (nodup_of_foldlM_insert ht)
  by_cases hi : i ∈ (cs.map createdRow).map (·.id)
  · obtain ⟨c, hc, rfl⟩ := List.mem_map.1 hi
    refine Or.inr ⟨c, ?_, ?_, ?_⟩
    · intro c' hc'
      rw [hch, (hown c hc).2] at hc'
      rw [Option.some.inj hc']
    · intro g m h
      rw [habOwn c hc]
      simp [h]
    · intro g m h
      rw [habOwn c hc, Option.isSome_or, Bool.or_eq_true] at h
      exact h.symm
  · refine Or.inl (.frame ?_ (habOther i hi))
    rw [hch]
    exact hother i hi

theorem cases_update {unmarshal : UnmarshalArray} (hs : update unmarshal s c = some s') (i : Int) :
    Kept s s' i ∨ ∃ c', Made s s' i c' := by
  simp only [update] at hs
  split at hs
  next => cases hs
  next =>
    cases hs
    have hid : ((updateRow unmarshal s.channels c).find c.id |>.getD
        (recalculated unmarshal "" c)).id = c.id := by
      cases hrow : (updateRow unmarshal s.channels c).find c.id with
      | none => exact id_recalculated unmarshal "" c
      | some row => exact Table.key_of_find hrow
    by_cases hi : i = c.id
    · refine Or.inr ⟨((updateRow unmarshal s.channels c).find c.id).getD
        (recalculated unmarshal "" c), ?_, ?_, ?_⟩
      · intro c' hc'
        rw [hi] at hc'
        have hc'' : (updateRow unmarshal s.channels c).find c.id = some c' := hc'
        rw [hc'', Option.getD_some]
      · intro g m h
        simpa [updateAbilities, hid, hi] using h
      · intro g m h
        exact Or.inl (by simpa [updateAbilities, hid, hi] using h)
    · refine Or.inl (.frame (find_updateRow_of_ne hi) ?_)
      simp [updateAbilities, hid, hi]

theorem kept_whereTag {tag : String} {F : Channel → Channel} {f : Ability → Ability}
    (hF : ∀ c, (F c).id = c.id) (hgroups : ∀ c, (F c).groupList = c.groupList) (i : Int) :
    Kept s (updateWhereTag { s with
      channels := updateChannelsWhereTag s.channels tag F hF } tag f) i := by
  refine .of_map (f := fun c => if c.tag = some tag then F c else c)
    (k := fun a => if a.tag = some tag then f a else a) ?_ ?_ (fun _ _ => rfl)
  · intro c
    split
    next => exact hgroups c
    next => rfl
  · exact s.channels.find_update _ (by intro c; split; exact hF c; rfl) i

theorem cases_editChannelByTag (s : Db) (tag : String) (e : TagEdit) (i : Int) :
    Kept s (editChannelByTag s tag e) i ∨ ∃ c', Made s (editChannelByTag s tag e) i c' := by
  cases he : e.recreates with
  | false =>
      have hgroup : e.group.getD "" = "" := by
        simp only [TagEdit.recreates, Bool.or_eq_false_iff, decide_eq_false_iff_not, ne_eq,
          not_not] at he
        exact he.2
      rw [editChannelByTag, he]
      refine Or.inl (kept_whereTag (F := e.row tag) (fun _ => rfl) (fun c => ?_) i)
      simp [Channel.groupList, TagEdit.row, updatesField, hgroup]
  | true =>
      obtain ⟨hfind, hab⟩ := recreate_spec s tag he
      replace hfind := hfind i
      replace hab := hab i
      cases hc : s.channels.find i with
      | none =>
          refine Or.inl (.frame ?_ ?_)
          · simp [hfind, hc]
          · simp [hab, hc]
      | some c =>
          by_cases hup : (if c.tag = some tag then e.row tag c else c).tag = some (e.updatedTag tag)
          · refine Or.inr ⟨if c.tag = some tag then e.row tag c else c, .of_created ?_ ?_⟩
            · intro c' hc'
              rw [hfind, hc, Option.map_some] at hc'
              rw [← Option.some.inj hc']
            · intro g m
              rw [hab, hc, Option.map_some, Option.filter_some, if_pos (by simpa using hup)]
              rfl
          · -- A channel with the tag is edited, and has the new tag then.
            have htag : ¬ c.tag = some tag := by
              intro htag
              rw [if_pos htag] at hup
              exact hup (tag_row htag)
            rw [if_neg htag] at hup
            refine Or.inl (.frame ?_ ?_)
            · simp [hfind, hc, htag]
            · simp [hab, hc, htag, Option.filter_some, hup]

theorem cases_batchSetChannelTag (s : Db) (ids : List Int) (tag : Option String) (i : Int) :
    Kept s (batchSetChannelTag s ids tag) i ∨ ∃ c', Made s (batchSetChannelTag s ids tag) i c' := by
  obtain ⟨hfind, hab⟩ := batchSetChannelTag_spec s ids tag
  replace hfind := hfind i
  replace hab := hab i
  cases hc : s.channels.find i with
  | none =>
      refine Or.inl (.frame ?_ ?_)
      · simp [hfind, hc]
      · simp [hab, hc]
  | some c =>
      by_cases hmem : c.id ∈ ids
      · refine Or.inr ⟨c, .of_created ?_ ?_⟩
        · intro c' hc'
          rw [hfind, hc, Option.map_some, retagged, if_pos hmem] at hc'
          rw [← Option.some.inj hc']
          rfl
        · simp [hab, hc, Option.filter_some, hmem]
      · refine Or.inl (.frame ?_ ?_)
        · simp [hfind, hc, retagged, hmem]
        · simp [hab, hc, Option.filter_some, hmem]

theorem group_statusRow (unmarshal : UnmarshalArray) (row : Channel) (usingKey : String)
    (status : Int) (reason : String) (now : Int) :
    (statusRow unmarshal row usingKey status reason now).group = row.group := by
  rw [statusRow]
  split
  next => exact group_handlerMultiKeyUpdate unmarshal row usingKey status reason now
  next => rfl

theorem cases_updateChannelStatus (unmarshal : UnmarshalArray) (s : Db) (id : Int)
    (usingKey : String) (status : Int) (reason : String) (now : Int) (i : Int) :
    Kept s (updateChannelStatus unmarshal s id usingKey status reason now) i := by
  rw [updateChannelStatus]
  cases hrow : s.channels.find id with
  | none => exact .frame rfl fun _ _ => rfl
  | some row =>
      dsimp only
      split
      next => exact .frame rfl fun _ _ => rfl
      next =>
        have hgroups : (statusRow unmarshal row usingKey status reason now).groupList =
            row.groupList := by
          rw [Channel.groupList, group_statusRow]
          rfl
        have hid := (sameButStatus_statusRow unmarshal row usingKey status reason now).id
        have hrow' : row.id = id := Table.key_of_find hrow
        generalize statusRow unmarshal row usingKey status reason now = saved at hgroups hid
        -- The saved row replaces the one it was made from.
        have hrows : ∀ c', (saveWithoutKey s.channels saved).find i = some c' →
            ∃ c, s.channels.find i = some c ∧ c'.groupList = c.groupList := by
          intro c' hc'
          rw [find_saveWithoutKey] at hc'
          obtain ⟨c, hc, rfl⟩ := Option.map_eq_some_iff.1 hc'
          refine ⟨c, hc, ?_⟩
          split
          next hsame =>
            have hci : i = id := by rw [← Table.key_of_find hc, hsame, hid, hrow']
            rw [hci, hrow] at hc
            rw [hgroups, Option.some.inj hc]
          next => rfl
        split
        next =>
          have hsome : ∀ g m, ((updateAbilityStatus { s with
              channels := saveWithoutKey s.channels saved } id
                (decide (status = statusEnabled))).abilities i g m).isSome =
              (s.abilities i g m).isSome := by
            intro g m
            simp only [updateAbilityStatus]
            split
            next => exact Option.isSome_map
            next => rfl
          refine ⟨fun c' hc' => ?_, fun g m h => by rwa [hsome] at h⟩
          obtain ⟨c, hc, hlist⟩ := hrows c' hc'
          exact ⟨c, hc, hlist, fun g m h => by rwa [hsome]⟩
        next =>
          refine ⟨fun c' hc' => ?_, fun g m h => h⟩
          obtain ⟨c, hc, hlist⟩ := hrows c' hc'
          exact ⟨c, hc, hlist, fun g m h => h⟩

theorem cases_batchDeleteChannels (s : Db) (ids : List Int) (i : Int) :
    Kept s (batchDeleteChannels s ids) i := by
  by_cases hi : i ∈ ids
  · refine ⟨?_, ?_⟩
    · intro c' hc'
      simp only [batchDeleteChannels, Table.find_delete] at hc'
      obtain ⟨hc, hnot⟩ := Option.filter_eq_some_iff.1 hc'
      rw [Table.key_of_find hc] at hnot
      simp [hi] at hnot
    · intro g m h
      simp [batchDeleteChannels, hi] at h
  · refine .frame ?_ ?_
    · simp only [batchDeleteChannels, Table.find_delete]
      cases hc : s.channels.find i with
      | none => rfl
      | some c => simp [Option.filter_some, Table.key_of_find hc, hi]
    · simp [batchDeleteChannels, hi]

/-- What an operation does to the groups of a channel and to those of its abilities. -/
theorem step_cases {unmarshal : UnmarshalArray} {op : Op} (hs : step unmarshal s op = some s')
    (i : Int) : Kept s s' i ∨ ∃ c, Made s s' i c := by
  cases op with
  | insert c => exact cases_insert hs i
  | batchInsertChannels cs => exact cases_batchInsertChannels hs i
  | update c => exact cases_update hs i
  | enableChannelByTag tag =>
      cases hs
      exact Or.inl (kept_whereTag (F := ({ · with status := statusEnabled })) (fun _ => rfl)
        (fun _ => rfl) i)
  | disableChannelByTag tag =>
      cases hs
      exact Or.inl (kept_whereTag (F := ({ · with status := statusManuallyDisabled }))
        (fun _ => rfl) (fun _ => rfl) i)
  | editChannelByTag tag e =>
      cases hs
      exact cases_editChannelByTag s tag e i
  | batchSetChannelTag ids tag =>
      cases hs
      exact cases_batchSetChannelTag s ids tag i
  | updateChannelStatus id usingKey status reason now =>
      cases hs
      exact Or.inl (cases_updateChannelStatus unmarshal s id usingKey status reason now i)
  | delete id =>
      cases hs
      exact Or.inl (cases_batchDeleteChannels s [id] i)
  | batchDeleteChannels ids =>
      cases hs
      exact Or.inl (cases_batchDeleteChannels s ids i)

end

/-! ## The groups that a channel creates -/

theorem appendPair_mono {pairs : List (String × String)} {p q : String × String} (h : q ∈ pairs) :
    q ∈ appendPair pairs p := by
  rw [appendPair]
  split
  next => exact h
  next => exact List.mem_append_left _ h

theorem mem_foldl_appendPair {q : String × String} :
    ∀ (l : List (String × String)) {pairs : List (String × String)}, q ∈ pairs →
      q ∈ l.foldl appendPair pairs
  | [], _, h => h
  | _ :: l, _, h => mem_foldl_appendPair l (appendPair_mono h)

/-- The keys of one model tell its groups apart. -/
theorem abilityKey_inj {g g' m : String} (h : abilityKey (g, m) = abilityKey (g', m)) : g = g' := by
  have hlist := congrArg String.toList h
  simp only [abilityKey, String.toList_append, List.append_left_inj] at hlist
  exact String.ext_iff.2 hlist

/-- Every group is created, at least with the first model. -/
theorem exists_created {c : Channel} {g : String} (hg : g ∈ c.groupList) :
    ∃ m, (created c (normalizeGroupField g) m).isSome = true := by
  cases hmodels : c.modelList with
  | nil => exact absurd hmodels (Text.splitAt_ne_nil c.models ',')
  | cons m models =>
      refine ⟨m, ?_⟩
      have hfirst := appended_foldl (c.groupList.map fun group => (normalizeGroupField group, m))
      obtain ⟨q, hq, hkey⟩ := hfirst.met (normalizeGroupField g, m)
        (List.mem_map.2 ⟨g, hg, rfl⟩)
      obtain ⟨g', -, rfl⟩ := List.mem_map.1 (hfirst.listed q hq)
      rw [abilityKey_inj hkey] at hq
      have hmem : (normalizeGroupField g, m) ∈ abilityPairs c := by
        rw [abilityPairs, listedPairs, hmodels, List.flatMap_cons, List.foldl_append]
        exact mem_foldl_appendPair _ hq
      simp [created, hmem]

theorem group_of_created {c : Channel} {g m : String} (h : (created c g m).isSome = true) :
    normalizeGroupField g = g := by
  have hmem : (g, m) ∈ abilityPairs c := by
    by_contra hnot
    simp [created, hnot] at h
  obtain ⟨m', -, hm'⟩ := List.mem_flatMap.1 ((appended_foldl (listedPairs c)).listed _ hmem)
  obtain ⟨g', -, heq⟩ := List.mem_map.1 hm'
  cases heq
  exact Text.trimSpace_trimSpace g'

/-! ## Whole histories -/

/-- The abilities of a channel have its groups, trimmed, and all abilities have trimmed
groups. -/
structure Grouped (s : Db) : Prop where
  listed : ∀ id c, s.channels.find id = some c → ∀ g ∈ c.groupList,
    ∃ m, (s.abilities id (normalizeGroupField g) m).isSome = true
  trimmed : ∀ id g m, (s.abilities id g m).isSome = true → normalizeGroupField g = g

theorem grouped_step {unmarshal : UnmarshalArray} {s s' : Db} {op : Op} (h : Grouped s)
    (hs : step unmarshal s op = some s') : Grouped s' := by
  refine ⟨?_, ?_⟩
  · intro id c' hc' g hg
    rcases step_cases hs id with hkept | ⟨c, hmade⟩
    · obtain ⟨c, hc, hlist, hab⟩ := hkept.rows c' hc'
      obtain ⟨m, hm⟩ := h.listed id c hc g (hlist ▸ hg)
      exact ⟨m, hab _ m hm⟩
    · obtain ⟨m, hm⟩ := exists_created (hmade.rows c' hc' ▸ hg)
      exact ⟨m, hmade.makes _ m hm⟩
  · intro id g m hg
    rcases step_cases hs id with hkept | ⟨c, hmade⟩
    · exact h.trimmed id g m (hkept.abilities g m hg)
    · rcases hmade.abilities g m hg with hcreated | hold
      · exact group_of_created hcreated
      · exact h.trimmed id g m hold

theorem grouped_reachable {unmarshal : UnmarshalArray} {ops : List Op} {s : Db}
    (h : Run.exec (step unmarshal) empty ops = some s) : Grouped s := by
  refine Run.exec_always (I := Grouped) (fun _ _ _ hI hs => grouped_step hI hs) ?_ h
  exact ⟨fun id c hc => by simp [empty] at hc, fun id g m hg => by simp [empty] at hg⟩

/-- Where the abilities have the groups of the channels, `InitChannelCache` finds all of its
maps exactly if no enabled channel lists a group that is not trimmed. -/
theorem Grouped.isSome_appendRows_iff {s : Db} {groups : List String} (h : Grouped s)
    (hgroups : GroupsOf s groups) :
    (Index.appendRows groups s.channels.rows).isSome = true ↔ Tidy s := by
  rw [Index.isSome_appendRows, Index.covered, List.all_eq_true]
  refine forall_congr' fun c => forall_congr' fun hc => ?_
  rw [tidy, Bool.or_eq_true, Bool.or_eq_true, List.all_eq_true, List.all_eq_true]
  refine or_congr_right (forall_congr' fun g => forall_congr' fun hg => ?_)
  rw [decide_eq_true_eq, decide_eq_true_eq, hgroups]
  constructor
  · rintro ⟨id, m, hm⟩
    exact h.trimmed id g m hm
  · intro htrim
    obtain ⟨m, hm⟩ := h.listed c.id c (Table.find_of_mem hc) g hg
    rw [htrim] at hm
    exact ⟨c.id, m, hm⟩

/-- The groups after the first channel. -/
theorem groupsOf_insert {c : Channel} {s : Db} (hs : insert empty c = some s) :
    GroupsOf s ((abilityPairs (createdRow c)).map Prod.fst) := by
  obtain ⟨t, -, rfl⟩ := Option.map_eq_some_iff.1 hs
  intro g
  rw [List.mem_map]
  constructor
  · rintro ⟨p, hp, rfl⟩
    refine ⟨(createdRow c).id, p.2, ?_⟩
    simp [addAbilities, empty, created, hp]
  · rintro ⟨id, m, hm⟩
    simp only [addAbilities, empty] at hm
    split at hm
    next =>
      simp only [Option.none_or, created] at hm
      split at hm
      next hp => exact ⟨(g, m), hp, rfl⟩
      next => cases hm
    next => cases hm

/-- A channel of two groups. -/
def twoGroups (group : String) : Channel := { exampleChannel 1 none with group := group }

end DazeApi.Channels.Abilities
