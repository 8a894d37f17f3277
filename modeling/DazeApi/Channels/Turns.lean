import DazeApi.Channels.Polling
import DazeApi.Channels.Index
import DazeApi.Lib.RoundRobin

/-!
# The turns of the keys

Calls of `GetNextEnabledKey` on one channel in the polling mode, with the memory cache on,
one after the other.  Each is made on a struct that `CacheGetChannel` has returned at some
time, and `InitChannelCache` may have put another one in its place since.

The polling index is read from the struct in the cache and written to the struct of the
call.  So the enabled keys are a queue, and a call serves the first; the queue moves on when
the struct of the call is the one in the cache (`returned_run`).
-/

namespace DazeApi.Channels.Turns

open DazeApi.Channels.Polling (Shared Struct Answer KeyResult)

/-- The environment of the polling lock, with the memory cache on. -/
def pollingEnv (env : Index.Env) : Polling.Env := ⟨true, env.unmarshal⟩

/-- `InitChannelCache`, as far as it concerns this channel. -/
def initChannelCache (env : Index.Env) (sh : Shared) : Shared :=
  Polling.disturb sh (.initChannelCache (sh.row.map (Index.refreshed env sh.cachedChannel)))

/-- `GetNextEnabledKey`. -/
def getNextEnabledKey (env : Index.Env) (sh : Shared) (st : Struct) (ans : Answer) :
    Option (Shared × KeyResult) :=
  (sh.deref st).bind fun c =>
    if Polling.locks (pollingEnv env) c then
      match Polling.chooseKey (pollingEnv env) sh st c (c.getKeys env.unmarshal) ans with
      | (sh', .unlocking (.key r)) => some (sh', r)
      | _ => none
    else some (sh, Polling.unlockedKey c)

/-- The pointers that `CacheGetChannel` has returned, and what the calls have returned. -/
structure State where
  shared : Shared
  held : List Nat
  returned : List KeyResult

inductive Act where
  | cacheGetChannel
  | initChannelCache
  | getNextEnabledKey (i : Nat) (ans : Answer)

/-- One call.  `GetNextEnabledKey` is made on the `i`-th struct that was obtained. -/
def step (env : Index.Env) (s : State) : Act → Option State
  | .cacheGetChannel => s.shared.cached.map fun n => { s with held := s.held ++ [n] }
  | .initChannelCache => some { s with shared := initChannelCache env s.shared }
  | .getNextEnabledKey i ans =>
      s.held[i]?.bind fun n =>
        (getNextEnabledKey env s.shared (.pointer n) ans).map fun x =>
          { s with shared := x.1, returned := s.returned ++ [x.2] }

/-- A call of `GetNextEnabledKey` is made on the struct that is in the cache. -/
def Act.current (s : State) : Act → Option Bool
  | .getNextEnabledKey i _ => some (s.held[i]? = s.shared.cached)
  | _ => none

/-- For each call of `GetNextEnabledKey`, whether it is made on the struct in the cache. -/
def currentCalls (env : Index.Env) : State → List Act → List Bool
  | _, [] => []
  | s, act :: acts =>
      match step env s act with
      | some s' => (act.current s).toList ++ currentCalls env s' acts
      | none => []

/-! ## The queue of the keys -/

section

variable {env : Index.Env} {row : Channel}

/-- A struct with the keys and the statuses of the row. -/
structure Alike (env : Index.Env) (row c : Channel) : Prop where
  multi : c.info.isMultiKey = true
  mode : c.info.multiKeyMode = .polling
  keys : c.getKeys env.unmarshal = row.getKeys env.unmarshal
  statuses : ∀ i : Nat, c.info.keyStatus i = row.info.keyStatus i

/-- The statuses of the keys do not change: all structs have those of the row. -/
structure Unchanged (env : Index.Env) (row : Channel) (s : State) : Prop where
  stored : s.shared.row = some row
  alike : Alike env row row
  structs : ∀ c ∈ s.shared.structs, Alike env row c
  cached : ∃ n < s.shared.structs.length, s.shared.cached = some n
  held : ∀ n ∈ s.held, n < s.shared.structs.length

/-- The polling index in the cache. -/
def index (s : State) : Int := ((s.shared.cachedChannel).map (·.info.multiKeyPollingIndex)).getD 0

/-- The enabled keys, in the order in which polling comes to them. -/
def queue (env : Index.Env) (row : Channel) (s : State) : List Nat :=
  let size := (row.getKeys env.unmarshal).length
  RoundRobin.turns (fun i => row.info.keyStatus i = statusEnabled) size
    (Polling.pollingStart (index s) size)

/-- The key at a position, returned. -/
def keyResult (env : Index.Env) (row : Channel) (i : Nat) : KeyResult :=
  .ok (Polling.keyAt (row.getKeys env.unmarshal) i)

theorem queue_perm (env : Index.Env) (row : Channel) (s : State) :
    (queue env row s).Perm (Polling.enabledIdx row.info (row.getKeys env.unmarshal)) :=
  RoundRobin.turns_perm _ _ _

/-- What is in the queue is an enabled key. -/
theorem mem_enabledIdx_of_queue {s : State} {x : Nat} {rest : List Nat}
    (hqueue : queue env row s = x :: rest) :
    x ∈ Polling.enabledIdx row.info (row.getKeys env.unmarshal) := by
  have hmem : x ∈ queue env row s := by
    rw [hqueue]
    exact List.mem_cons_self
  exact (queue_perm env row s).mem_iff.1 hmem

theorem lt_of_queue {s : State} {x : Nat} {rest : List Nat}
    (hqueue : queue env row s = x :: rest) : x < (row.getKeys env.unmarshal).length :=
  List.mem_range.1 (List.mem_filter.1 (mem_enabledIdx_of_queue hqueue)).1

theorem Unchanged.exists_cached {s : State} (h : Unchanged env row s) :
    ∃ n c, s.shared.cached = some n ∧ s.shared.structs[n]? = some c ∧ Alike env row c ∧
      s.shared.cachedChannel = some c := by
  obtain ⟨n, hn, hcached⟩ := h.cached
  refine ⟨n, s.shared.structs[n], hcached, List.getElem?_eq_getElem hn,
    h.structs _ (List.getElem_mem hn), ?_⟩
  simp [Shared.cachedChannel, hcached, List.getElem?_eq_getElem hn]

theorem getKeys_refreshed (old : Option Channel) (c : Channel) :
    (Index.refreshed env old c).getKeys env.unmarshal = c.getKeys env.unmarshal := by
  have hkeys : ∀ info, Channel.getKeys env.unmarshal
      { c with keys := c.getKeys env.unmarshal, info := info } = c.getKeys env.unmarshal := by
    intro info
    unfold Channel.getKeys
    grind
  unfold Index.refreshed
  split
  · cases old with
    | none => exact hkeys c.info
    | some o =>
        dsimp only
        split
        · exact hkeys _
        · exact hkeys c.info
  · rfl

/-- A row comes into the cache with its own statuses and the index of the struct there. -/
theorem refreshed_of_polls {o c : Channel} (hc : Index.polls c = true) (ho : Index.polls o = true) :
    (Index.refreshed env (some o) c).info =
      { c.info with multiKeyPollingIndex := o.info.multiKeyPollingIndex } := by
  have hmulti : c.info.isMultiKey = true := by
    unfold Index.polls at hc
    simp_all
  unfold Index.refreshed
  rw [if_pos hmulti]
  dsimp only
  rw [if_pos (by rw [hc, ho]; rfl)]

theorem Alike.polls {c : Channel} (h : Alike env row c) : Index.polls c = true := by
  simp [Index.polls, h.multi, h.mode]

/-! ## One step -/

/-- What a call finds first. -/
theorem pollingIdx_eq (c : Channel) (size start : Nat) :
    Polling.pollingIdx c.info size start =
      (RoundRobin.turns (fun i => c.info.keyStatus i = statusEnabled) size start).head? := by
  unfold Polling.pollingIdx RoundRobin.turns
  rw [List.head?_filter]

theorem queue_eq {s : State} {c : Channel} (hcached : s.shared.cachedChannel = some c) :
    queue env row s =
      RoundRobin.turns (fun i => row.info.keyStatus i = statusEnabled)
        (row.getKeys env.unmarshal).length
        (Polling.pollingStart c.info.multiKeyPollingIndex (row.getKeys env.unmarshal).length) := by
  unfold queue index
  rw [hcached]
  rfl

/-- An index behind a hit is a start as it stands. -/
theorem pollingStart_mod {i size : Nat} (hsize : 0 < size) :
    Polling.pollingStart (((i + 1) % size : Nat) : Int) size = (i + 1) % size := by
  have hlt := Nat.mod_lt (i + 1) hsize
  unfold Polling.pollingStart
  rw [if_neg (by omega), Int.toNat_natCast]

theorem Alike.pointBehind {c : Channel} (h : Alike env row c) (i size : Nat) :
    Alike env row (Polling.pointBehind c i size) :=
  ⟨h.multi, h.mode, h.keys, h.statuses⟩

/-- A call returns the first key of the queue and moves the index of its own struct. -/
theorem getNextEnabledKey_eq {s : State} (h : Unchanged env row s) {n x : Nat} {c : Channel}
    {rest : List Nat} (hc : s.shared.structs[n]? = some c) (hqueue : queue env row s = x :: rest)
    (ans : Answer) :
    getNextEnabledKey env s.shared (.pointer n) ans =
      some (s.shared.assign (.pointer n)
        (Polling.pointBehind c x (row.getKeys env.unmarshal).length), keyResult env row x) := by
  have halike := h.structs c (List.mem_of_getElem? hc)
  obtain ⟨m, o, hcached, ho, hoAlike, hold⟩ := h.exists_cached
  have henabled : Polling.enabledIdx c.info (row.getKeys env.unmarshal) =
      Polling.enabledIdx row.info (row.getKeys env.unmarshal) := by
    unfold Polling.enabledIdx
    simp only [halike.statuses]
  have hx := mem_enabledIdx_of_queue hqueue
  have hkeys : row.getKeys env.unmarshal ≠ [] := List.ne_nil_of_length_pos (by
    have hlt := lt_of_queue hqueue
    omega)
  have hlocks : Polling.locks (pollingEnv env) c = true := by
    simp [Polling.locks, pollingEnv, halike.multi, halike.keys, hkeys]
  have hidx : Polling.pollingIdx c.info (row.getKeys env.unmarshal).length
      (Polling.pollingStart o.info.multiKeyPollingIndex (row.getKeys env.unmarshal).length) =
      some x := by
    rw [pollingIdx_eq]
    simp only [halike.statuses]
    rw [← queue_eq hold, hqueue]
    rfl
  have hinfo : Polling.cacheGetChannelInfo (pollingEnv env) s.shared c.id ans = .ok o.info := by
    have hbind : s.shared.cached.bind (s.shared.structs[·]?) = some o := hold
    simp [Polling.cacheGetChannelInfo, pollingEnv, hbind]
  have hchoose : Polling.chooseKey (pollingEnv env) s.shared (.pointer n) c
      (row.getKeys env.unmarshal) ans =
      (s.shared.assign (.pointer n)
        (Polling.pointBehind c x (row.getKeys env.unmarshal).length),
        .unlocking (.key (keyResult env row x))) := by
    unfold Polling.chooseKey
    rw [henabled, halike.mode, hinfo]
    obtain ⟨first, others, hsplit⟩ := List.exists_cons_of_ne_nil (List.ne_nil_of_mem hx)
    rw [hsplit]
    dsimp only
    unfold Polling.pollKey
    rw [hidx]
    rfl
  have hderef : s.shared.deref (.pointer n) = some c := hc
  unfold getNextEnabledKey
  rw [hderef, Option.bind_some, if_pos hlocks, halike.keys, hchoose]

/-- A call keeps the statuses, and the queue moves on when its struct is the one in the
cache. -/
theorem unchanged_getNextEnabledKey {s : State} (h : Unchanged env row s) {n x : Nat} {c : Channel}
    {rest : List Nat} (hc : s.shared.structs[n]? = some c) (hqueue : queue env row s = x :: rest)
    (returned : List KeyResult) :
    let s' : State :=
      ⟨s.shared.assign (.pointer n)
        (Polling.pointBehind c x (row.getKeys env.unmarshal).length), s.held, returned⟩
    Unchanged env row s' ∧
      queue env row s' = if some n = s.shared.cached then rest ++ [x] else x :: rest := by
  intro s'
  have halike := h.structs c (List.mem_of_getElem? hc)
  obtain ⟨m, o, hcached, ho, hoAlike, hold⟩ := h.exists_cached
  have hlen : s'.shared.structs.length = s.shared.structs.length := List.length_set
  have hkept : Unchanged env row s' := by
    refine ⟨h.stored, h.alike, ?_, ?_, ?_⟩
    · intro d hd
      rcases List.mem_or_eq_of_mem_set hd with hd | rfl
      · exact h.structs d hd
      · exact halike.pointBehind _ _
    · rw [hlen]
      exact h.cached
    · rw [hlen]
      exact h.held
  refine ⟨hkept, ?_⟩
  by_cases hcurrent : n = m
  · subst hcurrent
    have hnew : s'.shared.cachedChannel =
        some (Polling.pointBehind c x (row.getKeys env.unmarshal).length) := by
      have hlt : n < s.shared.structs.length := (List.getElem?_eq_some_iff.1 hc).1
      show s.shared.cached.bind ((s.shared.structs.set n _)[·]?) = _
      rw [hcached, Option.bind_some, List.getElem?_set_self hlt]
    have hsize : 0 < (row.getKeys env.unmarshal).length :=
      Nat.lt_of_le_of_lt (Nat.zero_le x) (lt_of_queue hqueue)
    rw [if_pos hcached.symm, queue_eq hnew]
    show RoundRobin.turns _ _ (Polling.pollingStart (((x + 1) % _ : Nat) : Int) _) = _
    rw [pollingStart_mod hsize]
    exact RoundRobin.turns_next hqueue
  · have hnew : s'.shared.cachedChannel = some o := by
      show s.shared.cached.bind ((s.shared.structs.set n _)[·]?) = _
      rw [hcached, Option.bind_some, List.getElem?_set_ne hcurrent, ho]
    rw [hcached, if_neg fun heq => hcurrent (Option.some.inj heq), queue_eq hnew, ← queue_eq hold,
      hqueue]

/-- A rebuild carries the queue over. -/
theorem unchanged_initChannelCache {s : State} (h : Unchanged env row s) :
    Unchanged env row { s with shared := initChannelCache env s.shared } ∧
      queue env row { s with shared := initChannelCache env s.shared } = queue env row s := by
  obtain ⟨m, o, hcached, ho, hoAlike, hold⟩ := h.exists_cached
  have hinfo : (Index.refreshed env (some o) row).info =
      { row.info with multiKeyPollingIndex := o.info.multiKeyPollingIndex } :=
    refreshed_of_polls h.alike.polls hoAlike.polls
  have hshared : initChannelCache env s.shared =
      { s.shared with
        structs := s.shared.structs ++ [Index.refreshed env (some o) row]
        cached := some s.shared.structs.length } := by
    unfold initChannelCache
    rw [h.stored, hold]
    rfl
  rw [hshared]
  have halike : Alike env row (Index.refreshed env (some o) row) := by
    refine ⟨?_, ?_, getKeys_refreshed _ _, fun i => ?_⟩
    · rw [hinfo]
      exact h.alike.multi
    · rw [hinfo]
      exact h.alike.mode
    · rw [hinfo]
      rfl
  have hnew : Shared.cachedChannel
      { s.shared with
        structs := s.shared.structs ++ [Index.refreshed env (some o) row]
        cached := some s.shared.structs.length } = some (Index.refreshed env (some o) row) := by
    simp [Shared.cachedChannel]
  refine ⟨⟨h.stored, h.alike, ?_, ?_, ?_⟩, ?_⟩
  · intro d hd
    rcases List.mem_append.1 hd with hd | hd
    · exact h.structs d hd
    · rw [List.mem_singleton.1 hd]
      exact halike
  · exact ⟨s.shared.structs.length, by simp, rfl⟩
  · intro n hn
    have hlt := h.held n hn
    simp only [List.length_append]
    omega
  · rw [queue_eq hnew, queue_eq hold, hinfo]

/-- A step that is no call of `GetNextEnabledKey` returns nothing and keeps the queue; a call
returns the first key, and the queue moves on if the call is on the struct in the cache. -/
theorem unchanged_step {s s' : State} {act : Act} (h : Unchanged env row s)
    (hstep : step env s act = some s') (hqueue : queue env row s ≠ []) :
    Unchanged env row s' ∧
      match act.current s with
      | none => s'.returned = s.returned ∧ queue env row s' = queue env row s
      | some current => ∃ x rest, queue env row s = x :: rest ∧
          s'.returned = s.returned ++ [keyResult env row x] ∧
          queue env row s' = if current then rest ++ [x] else x :: rest := by
  cases act with
  | cacheGetChannel =>
      obtain ⟨n, hn, rfl⟩ := Option.map_eq_some_iff.1 hstep
      refine ⟨⟨h.stored, h.alike, h.structs, h.cached, ?_⟩, rfl, rfl⟩
      intro k hk
      rcases List.mem_append.1 hk with hk | hk
      · exact h.held k hk
      · obtain ⟨m, hm, hcached⟩ := h.cached
        rw [hcached, Option.some.injEq] at hn
        rw [List.mem_singleton.1 hk, ← hn]
        exact hm
  | initChannelCache =>
      cases hstep
      exact ⟨(unchanged_initChannelCache h).1, rfl, (unchanged_initChannelCache h).2⟩
  | getNextEnabledKey i ans =>
      obtain ⟨n, hheld, hcall⟩ := Option.bind_eq_some_iff.1 hstep
      obtain ⟨r, hr, rfl⟩ := Option.map_eq_some_iff.1 hcall
      obtain ⟨x, rest, hfirst⟩ := List.exists_cons_of_ne_nil hqueue
      have hlt := h.held n (List.mem_of_getElem? hheld)
      have hc : s.shared.structs[n]? = some s.shared.structs[n] := List.getElem?_eq_getElem hlt
      rw [getNextEnabledKey_eq h hc hfirst ans, Option.some.injEq] at hr
      subst hr
      obtain ⟨hkept, hmoves⟩ := unchanged_getNextEnabledKey h hc hfirst
        (s.returned ++ [keyResult env row x])
      refine ⟨hkept, x, rest, hfirst, rfl, ?_⟩
      rw [hheld]
      simpa using hmoves

/-! ## Runs -/

/-- The calls of a run serve the queue. -/
theorem returned_run {acts : List Act} {s s' : State} (h : Unchanged env row s)
    (hqueue : queue env row s ≠ []) (hrun : Run.exec (step env) s acts = some s') :
    s'.returned = s.returned ++
      (RoundRobin.serve (queue env row s) (currentCalls env s acts)).map (keyResult env row) := by
  induction acts generalizing s with
  | nil =>
      cases hrun
      simp [currentCalls]
  | cons act acts ih =>
      obtain ⟨m, hm, hrest⟩ := Run.exec_cons_eq_some.1 hrun
      obtain ⟨hkept, heffect⟩ := unchanged_step h hm hqueue
      have hcalls : currentCalls env s (act :: acts) =
          (act.current s).toList ++ currentCalls env m acts := by
        rw [currentCalls, hm]
      rw [hcalls]
      cases hcurrent : act.current s with
      | none =>
          rw [hcurrent] at heffect
          obtain ⟨hreturned, hsame⟩ := heffect
          rw [ih hkept (by rwa [hsame]) hrest, hreturned, hsame]
          rfl
      | some current =>
          rw [hcurrent] at heffect
          obtain ⟨x, rest, hfirst, hreturned, hmoves⟩ := heffect
          have hnext : queue env row m ≠ [] := by
            rw [hmoves]
            split <;> simp
          rw [ih hkept hnext hrest, hreturned, hmoves, hfirst, Option.toList_some,
            List.singleton_append, RoundRobin.serve, List.map_cons, List.append_assoc,
            List.singleton_append]

/-- The keys that the calls return are enabled. -/
def AllEnabled (env : Index.Env) (row : Channel) (returned : List KeyResult) : Prop :=
  ∀ r ∈ returned, ∃ i ∈ Polling.enabledIdx row.info (row.getKeys env.unmarshal),
    r = keyResult env row i

/-- The calls return each enabled key once. -/
def EachOnce (env : Index.Env) (row : Channel) (returned : List KeyResult) : Prop :=
  (returned).Perm
    ((Polling.enabledIdx row.info (row.getKeys env.unmarshal)).map (keyResult env row))

theorem keyResult_injective : Function.Injective (keyResult env row) := by
  intro i j hij
  have hpair : Polling.keyAt (row.getKeys env.unmarshal) i =
      Polling.keyAt (row.getKeys env.unmarshal) j := Except.ok.inj hij
  exact (Prod.ext_iff.1 hpair).2

/-- As many calls as there are enabled keys return enabled keys only, and each of them once
exactly if every call but the last is made on the struct that is in the cache. -/
theorem polling_fair_iff {acts : List Act} {s s' : State} (h : Unchanged env row s)
    (hnone : s.returned = [])
    (henabled : Polling.enabledIdx row.info (row.getKeys env.unmarshal) ≠ [])
    (hrun : Run.exec (step env) s acts = some s')
    (hcalls : s'.returned.length =
      (Polling.enabledIdx row.info (row.getKeys env.unmarshal)).length) :
    AllEnabled env row s'.returned ∧
      (EachOnce env row s'.returned ↔
        ∀ current ∈ (currentCalls env s acts).dropLast, current = true) := by
  have hperm := queue_perm env row s
  have hqueue : queue env row s ≠ [] := fun hnil => by
    rw [hnil] at hperm
    exact henabled hperm.nil_eq.symm
  have hreturned := returned_run h hqueue hrun
  rw [hnone, List.nil_append] at hreturned
  rw [hreturned] at hcalls ⊢
  constructor
  · intro r hr
    obtain ⟨i, hi, rfl⟩ := List.mem_map.1 hr
    exact ⟨i, hperm.mem_iff.1 (RoundRobin.mem_of_mem_serve hi), rfl⟩
  · have hlength : (currentCalls env s acts).length = (queue env row s).length := by
      rw [List.length_map, RoundRobin.length_serve hqueue] at hcalls
      rw [hcalls, hperm.length_eq]
    rw [← RoundRobin.serve_perm_iff hqueue (RoundRobin.nodup_turns _ _ _) hlength]
    unfold EachOnce
    rw [List.map_perm_map_iff keyResult_injective]
    exact ⟨fun hserved => hserved.trans hperm.symm, fun hserved => hserved.trans hperm⟩

end

/-! ## Two runs -/

def twoKeys : Channel :=
  ⟨1, "a\nb", 1, "m", "default", none, none, none, ⟨true, 2, ∅, ∅, ∅, 0, .polling⟩, []⟩

/-- The channel is in the cache, and a caller has it. -/
def obtained : State := ⟨⟨[twoKeys], some 0, some twoKeys⟩, [0], []⟩

theorem alike_twoKeys : Alike Index.exampleEnv twoKeys twoKeys := ⟨rfl, rfl, rfl, fun _ => rfl⟩

theorem unchanged_obtained : Unchanged Index.exampleEnv twoKeys obtained where
  stored := rfl
  alike := alike_twoKeys
  structs c hc := by
    rw [List.mem_singleton.1 hc]
    exact alike_twoKeys
  cached := ⟨0, by decide, rfl⟩
  held n hn := by
    rw [List.mem_singleton.1 hn]
    decide

/-- The cache is rebuilt between two calls, and the second caller obtains the channel anew. -/
def obtainedAnew : List Act :=
  [.getNextEnabledKey 0 Polling.quiet, .initChannelCache, .cacheGetChannel,
    .getNextEnabledKey 1 Polling.quiet]

/-- The cache is rebuilt before two calls on the channel that was obtained. -/
def rebuiltBefore : List Act :=
  [.initChannelCache, .getNextEnabledKey 0 Polling.quiet, .getNextEnabledKey 0 Polling.quiet]

/-- The positions of the keys that were returned. -/
def positions (s : State) : List (Option Nat) :=
  s.returned.map fun
    | .ok key => some key.2
    | .error _ => none

theorem fair_obtainedAnew :
    ∃ s', Run.exec (step Index.exampleEnv) obtained obtainedAnew = some s' ∧
      AllEnabled Index.exampleEnv twoKeys s'.returned ∧
      EachOnce Index.exampleEnv twoKeys s'.returned := by
  obtain ⟨s', hrun, hend⟩ := Run.exists_of_any (step Index.exampleEnv) obtained obtainedAnew
    (fun s' => s'.returned.length = 2) (by decide +kernel)
  have hfair := polling_fair_iff unchanged_obtained rfl (by decide +kernel) hrun
    (of_decide_eq_true hend)
  exact ⟨s', hrun, hfair.1, hfair.2.2 (by decide +kernel)⟩

/-- Both calls on a channel that is no longer in the cache return the first key. -/
theorem not_eachOnce_rebuiltBefore :
    ∃ s', Run.exec (step Index.exampleEnv) obtained rebuiltBefore = some s' ∧
      positions s' = [some 0, some 0] ∧
      Unchanged Index.exampleEnv twoKeys obtained ∧
      Polling.enabledIdx twoKeys.info (twoKeys.getKeys Index.exampleEnv.unmarshal) = [0, 1] ∧
      ¬ EachOnce Index.exampleEnv twoKeys s'.returned := by
  obtain ⟨s', hrun, hend⟩ := Run.exists_of_any (step Index.exampleEnv) obtained rebuiltBefore
    (fun s' => positions s' = [some 0, some 0]) (by decide +kernel)
  have hpositions : positions s' = [some 0, some 0] := of_decide_eq_true hend
  have henabled : Polling.enabledIdx twoKeys.info
      (twoKeys.getKeys Index.exampleEnv.unmarshal) = [0, 1] := by decide +kernel
  refine ⟨s', hrun, hpositions, unchanged_obtained, henabled, fun honce => ?_⟩
  have hmap := honce.map fun
    | .ok key => some key.2
    | .error _ => none
  rw [henabled] at hmap
  change (positions s').Perm [some 0, some 1] at hmap
  rw [hpositions] at hmap
  exact absurd hmap (by decide)

end DazeApi.Channels.Turns
