import DazeApi.Channels.Covered
import DazeApi.Channels.Selection

/-!
# Memory and database choose alike

For a table of channels whose abilities are its projection, the channels that
`GetRandomSatisfiedChannel` can return from a cache made of the table, and those that
`GetChannel` can return.  The cache looks for the normalised model name where it has no
channel for the model, and never draws a channel of weight 0 beside one of a positive
weight; the database does neither.  `sameSelection_iff` has the exact condition.
-/

namespace DazeApi.Channels.Selection

open Abilities

/-- `InitChannelCache`, unless it panics. -/
def synced (env : Index.Env) (old : Index.Cache) (t : ChannelTable) (groups : List String) :
    Option Index.Cache :=
  (Index.appendRows groups t.rows).map fun _ => Index.initChannelCache env old t groups

/-- The id can be returned by a choice, with some draw. -/
def Returns (choice : Rand → Except String (Option Channel)) (id : Int) : Prop :=
  ∃ rand c, choice rand = .ok (some c) ∧ c.id = id

/-- The enabled channels that have an ability for the group and the model. -/
def listed (t : ChannelTable) (g m : String) : List Channel :=
  t.rows.filter fun c => c.enabled && (listedPairs c).contains (g, m)

/-- The priority of the channel is the one that the retry falls on. -/
def Offered (retryTimes : Int) (cs : List Channel) (retry : Int) (c : Channel) : Prop :=
  c ∈ cs ∧ AtLevel retryTimes (cs.map Channel.getPriority) retry c.getPriority

/-- Some channel has the model, and at the level of the retry all of them have a weight or
none has; or no channel has the model, and none has its normalised name.  An enabled channel
with a group that is not trimmed keeps the cache from being made. -/
def SameChannels (retryTimes : Int) (s : Db) (g m : String) (retry : Int) : Prop :=
  if listed s.channels g m = [] then
    Tidy s → listed s.channels g (formatMatchingModelName m) = []
  else
    Tidy s ∧ ∀ c d, Offered retryTimes (listed s.channels g m) retry c →
      Offered retryTimes (listed s.channels g m) retry d → c.getWeight = 0 → d.getWeight = 0

/-- At the level of the retry there is at most one channel. -/
def OneChannel (retryTimes : Int) (s : Db) (g m : String) (retry : Int) : Prop :=
  ∀ c d, Offered retryTimes (listed s.channels g m) retry c →
    Offered retryTimes (listed s.channels g m) retry d → c = d

section

variable {env : Index.Env} {old cache : Index.Cache} {s : Db} {t : ChannelTable}
  {rows : List AbilityRow} {groups : List String} {retryTimes retry id : Int} {g m : String}
  {cs cs' : List Channel} {c d : Channel} {r : AbilityRow} {p : Int}

theorem atLevel_congr {ps ps' : List Int} (h : ∀ p, p ∈ ps ↔ p ∈ ps') :
    AtLevel retryTimes ps retry p ↔ AtLevel retryTimes ps' retry p := by
  have hset : ps.toFinset = ps'.toFinset := by
    ext p
    simpa using h p
  rw [AtLevel, AtLevel, rank, rank, h, hset]

theorem exists_offered (retryTimes retry : Int) (h : cs ≠ []) :
    ∃ c, Offered retryTimes cs retry c := by
  have hps : cs.map Channel.getPriority ≠ [] := by simpa using h
  have hlevel := atLevel_targetPriority retryTimes retry hps
  obtain ⟨c, hc, hcp⟩ := List.mem_map.1 hlevel.1
  exact ⟨c, hc, hcp ▸ hlevel⟩

theorem mem_listed : c ∈ listed t g m ↔ c ∈ t.rows ∧ c.enabled = true ∧ (g, m) ∈ listedPairs c := by
  simp [listed]

theorem listed_eq_of_id (hc : c ∈ listed t g m) (hd : d ∈ listed t g m) (h : c.id = d.id) :
    c = d := by
  have hfind := Table.find_of_mem (mem_listed.1 hc).1
  rw [h, Table.find_of_mem (mem_listed.1 hd).1] at hfind
  exact (Option.some.inj hfind).symm

/-! ## The tables -/

theorem grouped_of_projected (h : Projected s) : Grouped s := by
  refine ⟨?_, ?_⟩
  · intro id c hc g hg
    obtain ⟨m, hm⟩ := List.exists_mem_of_ne_nil _ (Text.splitAt_ne_nil c.models ',')
    have hpair : (normalizeGroupField g, m) ∈ listedPairs c :=
      List.mem_flatMap.2 ⟨m, hm, List.mem_map.2 ⟨g, hg, rfl⟩⟩
    exact ⟨m, by rw [h id, hc, Option.bind_some, expected, if_pos hpair, Option.isSome_some]⟩
  · intro id g m hsome
    rw [h id g m] at hsome
    cases hc : s.channels.find id with
    | none => simp [hc] at hsome
    | some c =>
        have hpair : (g, m) ∈ listedPairs c := by
          by_contra hnot
          rw [hc, Option.bind_some, expected, if_neg hnot] at hsome
          cases hsome
        obtain ⟨m', -, hm'⟩ := List.mem_flatMap.1 hpair
        obtain ⟨g', -, heq⟩ := List.mem_map.1 hm'
        cases heq
        exact Text.trimSpace_trimSpace g'

theorem mem_listedPairs_iff : (g, m) ∈ listedPairs c ↔
    m ∈ c.modelList ∧ ∃ g' ∈ c.groupList, normalizeGroupField g' = g := by
  simp only [listedPairs, List.mem_flatMap, List.mem_map, Prod.mk.injEq]
  constructor
  · rintro ⟨m', hm', g', hg', rfl, rfl⟩
    exact ⟨hm', g', hg', rfl⟩
  · rintro ⟨hm, g', hg', rfl⟩
    exact ⟨m, hm, g', hg', rfl, rfl⟩

/-- In a tidy table a channel serves a group and a model if it is listed for them. -/
theorem serves_iff_listed (htidy : Tidy s) (hc : c ∈ s.channels.rows) :
    Index.serves c g m = true ↔ c ∈ listed s.channels g m := by
  simp only [mem_listed, hc, true_and, Index.serves, Bool.and_eq_true, decide_eq_true_eq,
    and_assoc]
  refine and_congr_right fun he => ?_
  have htrim : ∀ g' ∈ c.groupList, normalizeGroupField g' = g' := by
    simpa [tidy, he] using htidy c hc
  rw [mem_listedPairs_iff, and_comm]
  refine and_congr_right fun _ => ⟨fun hg => ⟨g, hg, htrim g hg⟩, ?_⟩
  rintro ⟨g', hg', rfl⟩
  rwa [htrim g' hg']

/-! ## The cache of the table -/

theorem isSome_synced_iff (hp : Projected s) (hgroups : GroupsOf s groups) :
    (∃ cache, synced env old s.channels groups = some cache) ↔ Tidy s := by
  rw [← (grouped_of_projected hp).isSome_appendRows_iff hgroups, ← Option.isSome_iff_exists, synced,
    Option.isSome_map]

theorem channelsIDM_synced (henv : env.memoryCacheEnabled = true)
    (h : synced env old t groups = some cache) (id : Int) :
    cache.channelsIDM id = (t.find id).map (Index.refreshed env (old.channelsIDM id)) := by
  obtain ⟨index, hindex, rfl⟩ := Option.map_eq_some_iff.1 h
  simp [Index.initChannelCache, henv, hindex]

theorem mem_group2model2channels_synced (henv : env.memoryCacheEnabled = true)
    (h : synced env old t groups = some cache) :
    id ∈ cache.group2model2channels g m ↔ ∃ c, t.find id = some c ∧ Index.serves c g m = true := by
  obtain ⟨index, hindex, rfl⟩ := Option.map_eq_some_iff.1 h
  have hlist : (Index.initChannelCache env old t groups).group2model2channels =
      Index.sorted env t index := by
    simp [Index.initChannelCache, henv, hindex]
  rw [hlist, ← List.count_pos_iff, Index.count_sorted hindex]
  cases t.find id with
  | none => simp
  | some c =>
      simp only [Option.map_some, Option.getD_some, Option.some.injEq, exists_eq_left', Index.entries,
        Index.serves, Bool.and_eq_true, decide_eq_true_eq]
      split
      next he => simp [he, Nat.pos_iff_ne_zero, List.count_eq_zero]
      next he => simp [he]

/-- The channels among which the cache chooses. -/
def cacheListed (t : ChannelTable) (g m : String) : List Channel :=
  if listed t g m = [] then listed t g (formatMatchingModelName m) else listed t g m

theorem mem_list_synced (henv : env.memoryCacheEnabled = true) (htidy : Tidy s)
    (h : synced env old s.channels groups = some cache) (m : String) :
    id ∈ cache.group2model2channels g m ↔ ∃ c ∈ listed s.channels g m, c.id = id := by
  rw [mem_group2model2channels_synced henv h]
  constructor
  · rintro ⟨c, hc, hserves⟩
    exact ⟨c, (serves_iff_listed htidy (Table.mem_of_find hc)).1 hserves, Table.key_of_find hc⟩
  · rintro ⟨c, hc, rfl⟩
    have hrow := (mem_listed.1 hc).1
    exact ⟨c, Table.find_of_mem hrow, (serves_iff_listed htidy hrow).2 hc⟩

theorem list_synced_eq_nil_iff (henv : env.memoryCacheEnabled = true) (htidy : Tidy s)
    (h : synced env old s.channels groups = some cache) (m : String) :
    cache.group2model2channels g m = [] ↔ listed s.channels g m = [] := by
  rw [List.eq_nil_iff_forall_not_mem, List.eq_nil_iff_forall_not_mem]
  simp only [mem_list_synced henv htidy h, not_exists, not_and]
  constructor
  · intro hnone c hc
    exact hnone c.id c hc rfl
  · intro hnone id c hc
    exact absurd hc (hnone c)

theorem mem_channelIDs_iff (henv : env.memoryCacheEnabled = true) (htidy : Tidy s)
    (h : synced env old s.channels groups = some cache) :
    id ∈ channelIDs cache g m ↔ ∃ c ∈ cacheListed s.channels g m, c.id = id := by
  have hnil := list_synced_eq_nil_iff (g := g) henv htidy h m
  rw [channelIDs, cacheListed]
  split
  next hids => rw [if_pos (hnil.1 hids), mem_list_synced henv htidy h]
  next hids => rw [if_neg (fun hlisted => hids (hnil.2 hlisted)), mem_list_synced henv htidy h]

theorem cachedChannel_synced (henv : env.memoryCacheEnabled = true)
    (h : synced env old t groups = some cache) (hc : c ∈ t.rows) :
    cachedChannel cache c.id = .ok (Index.refreshed env (old.channelsIDM c.id) c) := by
  rw [cachedChannel, channelsIDM_synced henv h, Table.find_of_mem hc]
  rfl

theorem getPriority_refreshed (o : Option Channel) :
    (Index.refreshed env o c).getPriority = c.getPriority := by
  simp only [Index.refreshed]
  split_ifs
  · split
    · split_ifs <;> rfl
    · rfl
  · rfl

theorem getWeight_refreshed (o : Option Channel) :
    (Index.refreshed env o c).getWeight = c.getWeight := by
  simp only [Index.refreshed]
  split_ifs
  · split
    · split_ifs <;> rfl
    · rfl
  · rfl

theorem id_refreshed (o : Option Channel) : (Index.refreshed env o c).id = c.id := by
  simp only [Index.refreshed]
  split_ifs
  · split
    · split_ifs <;> rfl
    · rfl
  · rfl

/-- What the choice by weight can give: a channel of the level that has a weight, or any
channel of a level without weights. -/
def Weighted (retryTimes : Int) (cs : List Channel) (retry : Int) (c : Channel) : Prop :=
  Offered retryTimes cs retry c ∧
    (0 < c.getWeight ∨ ∀ d, Offered retryTimes cs retry d → d.getWeight = 0)

/-- A single channel is drawn whatever it weighs. -/
theorem weighted_of_forall_eq (hall : ∀ d ∈ cs, d = c) (hc : c ∈ cs) :
    Weighted retryTimes cs retry c := by
  obtain ⟨d, hd⟩ := exists_offered retryTimes retry (List.ne_nil_of_mem hc)
  cases hall d hd.1
  refine ⟨hd, ?_⟩
  by_cases hw : 0 < c.getWeight
  · exact Or.inl hw
  · refine Or.inr fun e he => ?_
    cases hall e he.1
    omega

/-- The choice among the cached channels of some rows. -/
theorem returns_chooseChannel_iff {channels : List Channel} (hne : channels ≠ [])
    (hmem : ∀ x, x ∈ channels ↔
      ∃ c ∈ cs, Index.refreshed env (old.channelsIDM c.id) c = x) :
    Returns (chooseChannel retryTimes · channels g m retry) id ↔
      ∃ c, Weighted retryTimes cs retry c ∧ c.id = id := by
  have hlevel (p : Int) : AtLevel retryTimes (channels.map Channel.getPriority) retry p ↔
      AtLevel retryTimes (cs.map Channel.getPriority) retry p := by
    refine atLevel_congr fun p => ?_
    simp [hmem, getPriority_refreshed]
  constructor
  · rintro ⟨rand, x, hx, rfl⟩
    obtain ⟨hxmem, hxlevel, hxw⟩ := (exists_chooseChannel_iff hne).1 ⟨rand, hx⟩
    obtain ⟨c, hc, rfl⟩ := (hmem x).1 hxmem
    rw [hlevel, getPriority_refreshed] at hxlevel
    rw [getWeight_refreshed] at hxw
    refine ⟨c, ⟨⟨hc, hxlevel⟩, hxw.imp_right fun hall d hd => ?_⟩, (id_refreshed _).symm⟩
    have hdlevel : AtLevel retryTimes (channels.map Channel.getPriority) retry
        (Index.refreshed env (old.channelsIDM d.id) d).getPriority := by
      rw [hlevel, getPriority_refreshed]
      exact hd.2
    have hdw := hall _ ((hmem _).2 ⟨d, hd.1, rfl⟩) hdlevel
    rwa [getWeight_refreshed] at hdw
  · rintro ⟨c, ⟨⟨hc, hclevel⟩, hw⟩, rfl⟩
    have hchoose : ∃ rand, chooseChannel retryTimes rand channels g m retry =
        .ok (some (Index.refreshed env (old.channelsIDM c.id) c)) := by
      rw [exists_chooseChannel_iff hne, hlevel, getPriority_refreshed, getWeight_refreshed]
      refine ⟨(hmem _).2 ⟨c, hc, rfl⟩, hclevel, hw.imp_right fun hall x hx hxlevel => ?_⟩
      obtain ⟨d, hd, rfl⟩ := (hmem x).1 hx
      rw [hlevel, getPriority_refreshed] at hxlevel
      rw [getWeight_refreshed]
      exact hall d ⟨hd, hxlevel⟩
    obtain ⟨rand, hrand⟩ := hchoose
    exact ⟨rand, _, hrand, id_refreshed _⟩

/-- A loop of lookups that succeed gives what they find. -/
theorem exists_mapM {α β ε : Type} {f : α → Except ε β} :
    ∀ {l : List α}, (∀ a ∈ l, ∃ b, f a = .ok b) →
      ∃ bs, l.mapM f = .ok bs ∧ ∀ b, b ∈ bs ↔ ∃ a ∈ l, f a = .ok b
  | [], _ => ⟨[], rfl, by simp⟩
  | a :: l, h => by
      obtain ⟨b, hb⟩ := h a (by simp)
      obtain ⟨bs, hbs, hmem⟩ := exists_mapM fun a' ha' => h a' (List.mem_cons_of_mem a ha')
      refine ⟨b :: bs, by rw [List.mapM_cons, hb, hbs]; rfl, ?_⟩
      intro b'
      simp [hmem, hb, eq_comm]

/-- What the cache can return. -/
theorem returns_memory_iff (henv : env.memoryCacheEnabled = true) (htidy : Tidy s)
    (h : synced env old s.channels groups = some cache) :
    Returns (getRandomSatisfiedChannel retryTimes · cache g m retry) id ↔
      ∃ c, Weighted retryTimes (cacheListed s.channels g m) retry c ∧ c.id = id := by
  have hids (id : Int) : id ∈ channelIDs cache g m ↔
      ∃ c ∈ cacheListed s.channels g m, c.id = id := mem_channelIDs_iff henv htidy h
  have hrow {c : Channel} (hc : c ∈ cacheListed s.channels g m) : c ∈ s.channels.rows := by
    rw [cacheListed] at hc
    split at hc <;> exact (mem_listed.1 hc).1
  have hinj {c d : Channel} (hc : c ∈ cacheListed s.channels g m)
      (hd : d ∈ cacheListed s.channels g m) (hid : c.id = d.id) : c = d := by
    have hfind := Table.find_of_mem (hrow hc)
    rw [hid, Table.find_of_mem (hrow hd)] at hfind
    exact (Option.some.inj hfind).symm
  cases hlist : channelIDs cache g m with
  | nil =>
      have hnone (c : Channel) (hc : c ∈ cacheListed s.channels g m) : False := by
        have hmem := (hids c.id).2 ⟨c, hc, rfl⟩
        rw [hlist] at hmem
        cases hmem
      simp only [Returns, getRandomSatisfiedChannel, hlist]
      constructor
      · rintro ⟨rand, c, hc, -⟩
        cases hc
      · rintro ⟨c, hc, -⟩
        exact (hnone c hc.1.1).elim
  | cons i ids =>
      have hcached (id : Int) (hid : id ∈ channelIDs cache g m) :
          ∃ c ∈ cacheListed s.channels g m, c.id = id ∧
            cachedChannel cache id = .ok (Index.refreshed env (old.channelsIDM id) c) := by
        obtain ⟨c, hc, rfl⟩ := (hids id).1 hid
        exact ⟨c, hc, rfl, cachedChannel_synced henv h (hrow hc)⟩
      cases ids with
      | nil =>
          obtain ⟨c, hc, rfl, hi⟩ := hcached i (by simp [hlist])
          have hall (d : Channel) (hd : d ∈ cacheListed s.channels g m) : d = c := by
            have hmem := (hids d.id).2 ⟨d, hd, rfl⟩
            rw [hlist, List.mem_singleton] at hmem
            exact hinj hd hc hmem
          simp only [Returns, getRandomSatisfiedChannel, hlist, hi]
          constructor
          · rintro ⟨rand, x, hx, rfl⟩
            cases hx
            exact ⟨c, weighted_of_forall_eq hall hc, (id_refreshed _).symm⟩
          · rintro ⟨d, hd, rfl⟩
            cases hall d hd.1.1
            exact ⟨⟨fun _ => 0, fun _ h => h⟩, _, rfl, id_refreshed _⟩
      | cons j ids =>
          obtain ⟨channels, hchannels, hmem⟩ := exists_mapM (f := cachedChannel cache)
            fun id hid => by
              obtain ⟨c, -, -, hc⟩ := hcached id hid
              exact ⟨_, hc⟩
          have hmem' (x : Channel) : x ∈ channels ↔ ∃ c ∈ cacheListed s.channels g m,
              Index.refreshed env (old.channelsIDM c.id) c = x := by
            rw [hmem]
            constructor
            · rintro ⟨id, hid, hx⟩
              obtain ⟨c, hc, rfl, hcx⟩ := hcached id hid
              rw [hcx] at hx
              exact ⟨c, hc, Except.ok.inj hx⟩
            · rintro ⟨c, hc, rfl⟩
              exact ⟨c.id, (hids c.id).2 ⟨c, hc, rfl⟩, cachedChannel_synced henv h (hrow hc)⟩
          have hget (rand : Rand) : getRandomSatisfiedChannel retryTimes rand cache g m retry =
              chooseChannel retryTimes rand channels g m retry := by
            rw [hlist] at hchannels
            simp only [getRandomSatisfiedChannel, hlist, hchannels]
            rfl
          have hne : channels ≠ [] := by
            obtain ⟨c, hc, -, -⟩ := hcached i (by simp [hlist])
            exact List.ne_nil_of_mem ((hmem' _).2 ⟨c, hc, rfl⟩)
          simp only [Returns, hget]
          exact returns_chooseChannel_iff hne hmem'

/-! ## The rows of the abilities -/

theorem find_of_mem_rows (hp : Projected s) (hrows : Lists s rows) (hr : r ∈ rows) :
    ∃ c, s.channels.find r.channelId = some c ∧ (r.group, r.model) ∈ listedPairs c ∧
      r.ability = abilityOf c := by
  have hab := (hrows.mem_iff r).1 hr
  rw [hp] at hab
  obtain ⟨c, hc, hexp⟩ := Option.bind_eq_some_iff.1 hab
  rw [expected] at hexp
  split at hexp
  next hpair => exact ⟨c, hc, hpair, (Option.some.inj hexp).symm⟩
  next => cases hexp

/-- The enabled rows are those of the listed channels. -/
theorem exists_enabledRows_iff (hp : Projected s) (hrows : Lists s rows) {P : Int → Ability → Prop} :
    (∃ r ∈ enabledRows rows g m, P r.channelId r.ability) ↔
      ∃ c ∈ listed s.channels g m, P c.id (abilityOf c) := by
  constructor
  · rintro ⟨r, hr, hP⟩
    obtain ⟨hmem, hkey⟩ := List.mem_filter.1 hr
    simp only [Bool.and_eq_true, decide_eq_true_eq, and_assoc] at hkey
    obtain ⟨rfl, rfl, henabled⟩ := hkey
    obtain ⟨c, hc, hpair, hab⟩ := find_of_mem_rows hp hrows hmem
    rw [hab] at henabled hP
    refine ⟨c, mem_listed.2 ⟨Table.mem_of_find hc, henabled, hpair⟩, ?_⟩
    rwa [Table.key_of_find hc]
  · rintro ⟨c, hc, hP⟩
    obtain ⟨hrow, henabled, hpair⟩ := mem_listed.1 hc
    refine ⟨⟨g, m, c.id, abilityOf c⟩, List.mem_filter.2 ⟨?_, ?_⟩, hP⟩
    · rw [hrows.mem_iff, hp, Table.find_of_mem hrow, Option.bind_some, expected, if_pos hpair]
    · simpa [abilityOf] using henabled

theorem mem_priorities_enabledRows_iff (hp : Projected s) (hrows : Lists s rows) :
    p ∈ priorities (enabledRows rows g m) ↔ p ∈ (listed s.channels g m).map Channel.getPriority := by
  rw [mem_priorities_iff, exists_enabledRows_iff hp hrows (P := fun _ a => a.priority = some p)]
  simp [abilityOf]

/-- What the database can return. -/
theorem returns_database_iff (hp : Projected s) (hrows : Lists s rows) :
    Returns (getChannel retryTimes · s.channels rows g m retry) id ↔
      ∃ c, Offered retryTimes (listed s.channels g m) retry c ∧ c.id = id := by
  have hfound (r : AbilityRow) (hr : r ∈ rows) : ∃ c, s.channels.find r.channelId = some c :=
    (find_of_mem_rows hp hrows hr).imp fun c hc => hc.1
  have hlevel (p : Int) : AtLevel retryTimes (priorities (enabledRows rows g m)) retry p ↔
      AtLevel retryTimes ((listed s.channels g m).map Channel.getPriority) retry p :=
    atLevel_congr fun p => mem_priorities_enabledRows_iff hp hrows
  rw [Returns, exists_getChannel_iff hfound, exists_enabledRows_iff hp hrows
    (P := fun i a => i = id ∧ ∃ p, a.priority = some p ∧
      AtLevel retryTimes (priorities (enabledRows rows g m)) retry p)]
  constructor
  · rintro ⟨c, hc, rfl, p, hcp, hcl⟩
    cases hcp
    exact ⟨c, ⟨hc, (hlevel _).1 hcl⟩, rfl⟩
  · rintro ⟨c, ⟨hc, hcl⟩, rfl⟩
    exact ⟨c, hc, rfl, _, rfl, (hlevel _).2 hcl⟩

/-- The rows that the query finds are those of the channels at the level. -/
theorem mem_query_iff (hp : Projected s) (hrows : Lists s rows) {abilities : List AbilityRow}
    (hq : getChannelQuery retryTimes rows g m retry = .ok abilities) :
    r ∈ abilities ↔ ∃ c, Offered retryTimes (listed s.channels g m) retry c ∧
      r = ⟨g, m, c.id, abilityOf c⟩ := by
  have hlevel (p : Int) : AtLevel retryTimes (priorities (enabledRows rows g m)) retry p ↔
      AtLevel retryTimes ((listed s.channels g m).map Channel.getPriority) retry p :=
    atLevel_congr fun p => mem_priorities_enabledRows_iff hp hrows
  rw [mem_getChannelQuery_iff hq]
  constructor
  · rintro ⟨hr, p, hrp, hrl⟩
    obtain ⟨hmem, hkey⟩ := List.mem_filter.1 hr
    simp only [Bool.and_eq_true, decide_eq_true_eq, and_assoc] at hkey
    obtain ⟨rfl, rfl, henabled⟩ := hkey
    obtain ⟨c, hc, hpair, hab⟩ := find_of_mem_rows hp hrows hmem
    rw [hab] at henabled hrp
    cases hrp
    refine ⟨c, ⟨mem_listed.2 ⟨Table.mem_of_find hc, henabled, hpair⟩, (hlevel _).1 hrl⟩, ?_⟩
    rw [Table.key_of_find hc, ← hab]
  · rintro ⟨c, ⟨hc, hcl⟩, rfl⟩
    obtain ⟨hrow, henabled, hpair⟩ := mem_listed.1 hc
    refine ⟨List.mem_filter.2 ⟨?_, by simpa [abilityOf] using henabled⟩, _, rfl, (hlevel _).2 hcl⟩
    rw [hrows.mem_iff, hp, Table.find_of_mem hrow, Option.bind_some, expected, if_pos hpair]

end

/-! ## Both halves -/

/-- The channels that the cache can return are those that the database can return. -/
def SelectAlike (env : Index.Env) (old : Index.Cache) (retryTimes : Int) (s : Db)
    (rows : List AbilityRow) (groups : List String) (g m : String) (retry : Int) : Prop :=
  ∀ id, (∃ cache, synced env old s.channels groups = some cache ∧
      Returns (getRandomSatisfiedChannel retryTimes · cache g m retry) id) ↔
    Returns (getChannel retryTimes · s.channels rows g m retry) id

/-- Every ability among which the database chooses is selected by as many numbers below the
sum as its weight and 10. -/
def DrawnByWeight (retryTimes : Int) (rows : List AbilityRow) (g m : String) (retry : Int) : Prop :=
  ∀ abilities, getChannelQuery retryTimes rows g m retry = .ok abilities →
    ∀ r ∈ orderByWeight abilities, draws (orderByWeight abilities) r = r.ability.weight + 10

section

variable {env : Index.Env} {old : Index.Cache} {s : Db} {rows : List AbilityRow}
  {groups : List String} {retryTimes retry : Int} {g m : String} {cs : List Channel}

theorem exists_weighted (retryTimes retry : Int) (h : cs ≠ []) :
    ∃ c, Weighted retryTimes cs retry c := by
  obtain ⟨c, hc⟩ := exists_offered retryTimes retry h
  by_cases hall : ∀ d, Offered retryTimes cs retry d → d.getWeight = 0
  · exact ⟨c, hc, Or.inr hall⟩
  · push Not at hall
    obtain ⟨d, hd, hw⟩ := hall
    exact ⟨d, hd, Or.inl (Nat.pos_of_ne_zero hw)⟩

theorem selectAlike_iff (henv : env.memoryCacheEnabled = true) (old : Index.Cache)
    (hp : Projected s) (hrows : Lists s rows) (hgroups : GroupsOf s groups) :
    SelectAlike env old retryTimes s rows groups g m retry ↔ SameChannels retryTimes s g m retry := by
  have hdb (id : Int) : Returns (getChannel retryTimes · s.channels rows g m retry) id ↔
      ∃ c, Offered retryTimes (listed s.channels g m) retry c ∧ c.id = id :=
    returns_database_iff hp hrows
  have hsync : (∃ cache, synced env old s.channels groups = some cache) ↔ Tidy s :=
    isSome_synced_iff hp hgroups
  by_cases htidy : Tidy s
  · obtain ⟨cache, hcache⟩ := hsync.2 htidy
    have hmem (id : Int) : (∃ cache, synced env old s.channels groups = some cache ∧
        Returns (getRandomSatisfiedChannel retryTimes · cache g m retry) id) ↔
          ∃ c, Weighted retryTimes (cacheListed s.channels g m) retry c ∧ c.id = id := by
      simp only [hcache, Option.some.injEq, exists_eq_left']
      exact returns_memory_iff henv htidy hcache
    simp only [SelectAlike, hmem, hdb, SameChannels, cacheListed, htidy, true_and, forall_const]
    split
    next hnil =>
      have hnone (c : Channel) : ¬ Offered retryTimes (listed s.channels g m) retry c := by
        rintro ⟨hc, -⟩
        rw [hnil] at hc
        cases hc
      constructor
      · intro hsame
        by_contra hne
        obtain ⟨c, hc⟩ := exists_weighted retryTimes retry hne
        obtain ⟨d, hd, -⟩ := (hsame c.id).1 ⟨c, hc, rfl⟩
        exact hnone d hd
      · intro hnormal id
        simp only [hnormal, hnone, Weighted]
        simp [Offered]
    next =>
      constructor
      · intro hsame c d hc hd hzero
        obtain ⟨c', hc', hid⟩ := (hsame c.id).2 ⟨c, hc, rfl⟩
        cases listed_eq_of_id hc'.1.1 hc.1 hid
        exact hc'.2.resolve_left (by omega) d hd
      · intro hzero id
        refine exists_congr fun c => and_congr_left fun _ => ⟨fun hc => hc.1, fun hc => ⟨hc, ?_⟩⟩
        by_cases hw : 0 < c.getWeight
        · exact Or.inl hw
        · exact Or.inr fun d hd => hzero c d hc hd (by omega)
  · have hno (id : Int) : ¬ ∃ cache, synced env old s.channels groups = some cache ∧
        Returns (getRandomSatisfiedChannel retryTimes · cache g m retry) id := by
      rintro ⟨cache, hcache, -⟩
      exact htidy (hsync.1 ⟨cache, hcache⟩)
    simp only [SelectAlike, hno, hdb, SameChannels, htidy, false_iff, false_and, if_false_right,
      false_implies, and_true]
    constructor
    · intro hnone
      by_contra hne
      obtain ⟨c, hc⟩ := exists_offered retryTimes retry hne
      exact hnone c.id ⟨c, hc, rfl⟩
    · rintro hnil id ⟨c, hc, -⟩
      rw [hnil] at hc
      cases hc.1

/-- The draws are right exactly if there is at most one channel to draw. -/
theorem drawnByWeight_iff (hp : Projected s) (hrows : Lists s rows) :
    DrawnByWeight retryTimes rows g m retry ↔ OneChannel retryTimes s g m retry := by
  cases hq : getChannelQuery retryTimes rows g m retry with
  | error e =>
      have hnone : priorities (enabledRows rows g m) = [] := by
        by_contra hps
        rw [getChannelQuery_eq hps] at hq
        cases hq
      have hoffer (c : Channel) : ¬ Offered retryTimes (listed s.channels g m) retry c := by
        rintro ⟨-, hmem, -⟩
        rw [← mem_priorities_enabledRows_iff hp hrows, hnone] at hmem
        cases hmem
      refine iff_of_true ?_ ?_
      · intro abilities habs
        rw [hq] at habs
        cases habs
      · intro c d hc
        exact absurd hc (hoffer c)
  | ok abilities =>
      have hmem (r : AbilityRow) := mem_query_iff (r := r) hp hrows hq
      have hnodup := nodup_orderByWeight (nodup_getChannelQuery hrows.nodup hq)
      have hdraws := forall_draws_iff hnodup
      simp only [mem_orderByWeight] at hdraws
      rw [DrawnByWeight, hq]
      simp only [Except.ok.injEq, forall_eq', mem_orderByWeight]
      rw [hdraws]
      simp only [hmem]
      constructor
      · intro hone c d hc hd
        have hrow := hone _ ⟨c, hc, rfl⟩ _ ⟨d, hd, rfl⟩
        simp only [AbilityRow.mk.injEq, true_and] at hrow
        exact listed_eq_of_id hc.1 hd.1 hrow.1
      · rintro hone _ ⟨c, hc, rfl⟩ _ ⟨d, hd, rfl⟩
        rw [hone c d hc hd]

end

/-- The database of a table of channels. -/
def projection (t : ChannelTable) : Db := ⟨t, fun id g m => (t.find id).bind (expected · g m)⟩

theorem projected_projection (t : ChannelTable) : Projected (projection t) := fun _ _ _ => rfl

/-- The rows of its abilities. -/
def rowsOf (t : ChannelTable) : List AbilityRow :=
  t.rows.flatMap fun c => (listedPairs c).dedup.map fun p => ⟨p.1, p.2, c.id, abilityOf c⟩

theorem lists_rowsOf (t : ChannelTable) : Lists (projection t) (rowsOf t) := by
  refine ⟨?_, ?_⟩
  · refine List.nodup_flatMap.2 ⟨?_, ?_⟩
    · intro c _
      refine (List.nodup_dedup _).map ?_
      intro p q h
      simp only [AbilityRow.mk.injEq, and_true] at h
      exact Prod.ext h.1 h.2
    · refine (List.pairwise_map.1 t.nodup).imp ?_
      intro c d hid r hr hr'
      obtain ⟨p, -, rfl⟩ := List.mem_map.1 hr
      obtain ⟨q, -, hq⟩ := List.mem_map.1 hr'
      exact hid (congrArg AbilityRow.channelId hq).symm
  · intro r
    simp only [rowsOf, List.mem_flatMap, List.mem_map, List.mem_dedup, projection,
      Option.bind_eq_some_iff]
    constructor
    · rintro ⟨c, hc, p, hp, rfl⟩
      exact ⟨c, Table.find_of_mem hc, by rw [expected, if_pos hp]⟩
    · rintro ⟨c, hc, hexp⟩
      rw [expected] at hexp
      split at hexp
      next hp =>
        refine ⟨c, Table.mem_of_find hc, (r.group, r.model), hp, ?_⟩
        rw [Option.some.inj hexp, Table.key_of_find hc]
      next => cases hexp

theorem groupsOf_rowsOf (t : ChannelTable) :
    GroupsOf (projection t) ((rowsOf t).map AbilityRow.group) := by
  intro g
  rw [List.mem_map]
  constructor
  · rintro ⟨r, hr, rfl⟩
    exact ⟨r.channelId, r.model, by rw [(lists_rowsOf t).mem_iff r |>.1 hr, Option.isSome_some]⟩
  · rintro ⟨id, m, hsome⟩
    obtain ⟨a, ha⟩ := Option.isSome_iff_exists.1 hsome
    exact ⟨⟨g, m, id, a⟩, ((lists_rowsOf t).mem_iff _).2 ha, rfl⟩

def exampleChannel (id : Int) (priority : Int) (weight : Nat) : Channel :=
  ⟨id, "sk", 1, "a,gpt-4-gizmo-*", "default", some priority, some weight, none, .zero, []⟩

/-- Two channels on levels of their own. -/
def twoLevels : ChannelTable := ⟨[exampleChannel 1 7 0, exampleChannel 2 3 5], by decide⟩

/-- Two channels on one level, and one of them has no weight. -/
def oneLevel : ChannelTable := ⟨[exampleChannel 1 7 0, exampleChannel 2 7 5], by decide⟩

theorem listed_twoLevels :
    listed twoLevels "default" "a" = [exampleChannel 1 7 0, exampleChannel 2 3 5] := by
  rfl

theorem listed_oneLevel :
    listed oneLevel "default" "a" = [exampleChannel 1 7 0, exampleChannel 2 7 5] := by
  rfl

/-- The numbers that select the two abilities of 15 and 10 in the database. -/
example : (orderByWeight (enabledRows (rowsOf oneLevel) "default" "a")).map
    (fun r => (r.channelId, draws (orderByWeight (enabledRows (rowsOf oneLevel) "default" "a")) r)) =
      [(2, 16), (1, 9)] := by
  decide +kernel

end DazeApi.Channels.Selection
