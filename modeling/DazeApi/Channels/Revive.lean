import DazeApi.Channels.Polling

/-!
# Polling and disabled keys

Without the memory cache, `GetNextEnabledKey` in the polling mode saves the whole
`channel_info` of the struct that it was called on, and `UpdateChannelStatus` the one of
the struct that it loaded.  Both structs may be older than the row.  A call is *pending*
from the moment its struct is loaded to the moment of its save; what it is going to save is
settled when it starts.

`not_revived_of_keeps`: where no call is pending with a struct that lacks a disabled key at
the moment when `UpdateChannelStatus` saves that key as disabled, `GetNextEnabledKey` never
stores it as enabled again.  The invariant is that everything pending has disabled what the
row has disabled, and that the structs of `GetNextEnabledKey` have disabled nothing else.
-/

namespace DazeApi.Channels.Polling

/-! ## Disabled keys -/

/-- The key at a position is disabled. -/
def Off (info : ChannelInfo) (j : Int) : Prop := info.keyStatus j ≠ statusEnabled

/-- What the first has disabled the second has disabled. -/
def Carries (d e : ChannelInfo) : Prop := ∀ j, Off d j → Off e j

/-- `Carries` as a test: only a listed position is disabled. -/
def carries (d e : ChannelInfo) : Bool :=
  d.multiKeyStatusList.keys.all fun j =>
    d.keyStatus j = statusEnabled || e.keyStatus j ≠ statusEnabled

theorem carries_of_test {d e : ChannelInfo} (h : carries d e = true) : Carries d e := by
  intro j hj
  have hmem : j ∈ d.multiKeyStatusList.keys := by
    by_contra hmem
    have hnone : d.multiKeyStatusList.lookup j = none := AList.lookup_eq_none.2 hmem
    exact hj (by simp [ChannelInfo.keyStatus, hnone])
  have htest := List.all_eq_true.1 h j hmem
  rw [Bool.or_eq_true, decide_eq_true_eq, decide_eq_true_eq] at htest
  exact htest.resolve_left hj

theorem Carries.refl (d : ChannelInfo) : Carries d d := fun _ h => h

theorem Carries.trans {d e f : ChannelInfo} (hde : Carries d e) (hef : Carries e f) : Carries d f :=
  fun j h => hef j (hde j h)

/-- Disabling a key enables none. -/
theorem carries_handle (env : Env) {call : StatusCall} (hcall : call.status ≠ statusEnabled)
    (c : Channel) : Carries c.info (call.handle env c).info := by
  have hset : ∀ i, Carries c.info (c.info.setKeyStatus i call.status call.reason call.now) := by
    intro i j hj
    by_cases hji : j = i
    · subst hji
      simp [Off, ChannelInfo.keyStatus, ChannelInfo.setKeyStatus, hcall]
    · simpa [Off, ChannelInfo.keyStatus, ChannelInfo.setKeyStatus, hcall,
        AList.lookup_insert_ne hji] using hj
  simp only [StatusCall.handle, handlerMultiKeyUpdate]
  split
  next => exact Carries.refl _
  next => split <;> exact hset _

/-- Polling moves only the polling index. -/
theorem keyStatus_pollKey (c : Channel) (keys : List String) (first : Nat) (index j : Int) :
    (pollKey c keys first index).1.info.keyStatus j = c.info.keyStatus j := by
  rw [pollKey]
  split <;> rfl

/-! ## Pending calls -/

/-- What an execution is going to save, if nothing fails. -/
def Pos.pending (env : Env) : Pos → Option ChannelInfo
  | .keyStart (.own c) =>
      if locks env c && c.info.multiKeyMode = .polling then some c.info else none
  | .keyWait (.own c) _ | .keyHeld (.own c) _ =>
      if c.info.multiKeyMode = .polling then some c.info else none
  | .keySave c _ => some c.info
  | .statusWaitRow call _ c | .statusHandle call c => some (call.handle env c).info
  | .statusSave c _ => some c.info
  | _ => none

/-- An execution of `GetNextEnabledKey`. -/
def Pos.polling : Pos → Bool
  | .keyStart _ | .keyWait _ _ | .keyHeld _ _ | .keySave _ _ => true
  | _ => false

/-- A position of the calls looked at: each works on a struct of its own, and a call of
`UpdateChannelStatus` disables. -/
def Pos.plain : Pos → Bool
  | .keyStart (.own _) | .keyWait (.own _) _ | .keyHeld (.own _) _ | .keySave _ _ => true
  | .statusLoad call _ | .statusWaitRow call _ _ | .statusHandle call _ =>
      call.status ≠ statusEnabled
  | .statusSave _ _ | .unlocking _ | .returned _ => true
  | _ => false

/-- The calls looked at, and their steps. -/
def disables : Act → Bool
  | .start (.getNextEnabledKey _) => true
  | .start (.updateChannelStatus call) => call.status ≠ statusEnabled
  | .run _ _ => true
  | _ => false

/-- When `UpdateChannelStatus` saves its struct, every other pending call has disabled what
the struct has. -/
def keepsOff (env : Env) (s : State) : Act → Bool
  | .run i ans =>
      match s.procs[i]? with
      | some (.statusSave c _) =>
          ans.failure ≠ none || (List.range s.procs.length).all fun k =>
            k = i || (s.procs[k]?.bind (Pos.pending env)).all (carries c.info)
      | _ => true
  | _ => true

/-! ## The invariant -/

section

variable {env : Env}

/-- A position against the `channel_info` of the row. -/
structure Sound (env : Env) (row : ChannelInfo) (p : Pos) : Prop where
  plain : p.plain = true
  fresh : ∀ info, p.pending env = some info → Carries row info
  old : p.polling = true → ∀ info, p.pending env = some info → Carries info row

/-- A position with nothing pending is sound. -/
theorem sound_of_none {row : ChannelInfo} {p : Pos} (hplain : p.plain = true)
    (h : p.pending env = none) : Sound env row p :=
  ⟨hplain, by simp [h], by simp [h]⟩

/-- The next position is pending with what this one is. -/
theorem Sound.congr {row : ChannelInfo} {p q : Pos} (hp : Sound env row p) (hplain : q.plain = true)
    (hpending : ∀ info, q.pending env = some info → p.pending env = some info)
    (hpolling : q.polling = true → p.polling = true) : Sound env row q :=
  ⟨hplain, fun info h => hp.fresh info (hpending info h),
    fun hq info h => hp.old (hpolling hq) info (hpending info h)⟩

theorem sound_finish (row : ChannelInfo) (locked : Bool) (r : Result) :
    Sound env row (finish locked r) := by
  cases locked <;> exact sound_of_none rfl rfl

/-- The row is written, and a pending call has disabled what it has now. -/
theorem Sound.rewrite {row row' : ChannelInfo} {p : Pos} (hp : Sound env row p)
    (hrow : Carries row row') (h : ∀ info, p.pending env = some info → Carries row' info) :
    Sound env row' p :=
  ⟨hp.plain, h, fun hpoll info hinfo => (hp.old hpoll info hinfo).trans hrow⟩

theorem sound_chooseKey (henv : env.memoryCacheEnabled = false) {sh : Shared} {row : ChannelInfo}
    {c : Channel} {keys : List String} (hp : Sound env row (.keyHeld (.own c) keys))
    (ans : Answer) : Sound env row (chooseKey env sh (.own c) c keys ans).2 := by
  rw [chooseKey]
  split
  next => exact sound_of_none rfl rfl
  next first rest _ =>
    split
    next => exact sound_of_none rfl rfl
    next hmode =>
      split
      next => exact sound_of_none rfl rfl
      next info _ =>
        have hpending : (Pos.keyHeld (.own c) keys).pending env = some c.info := by
          simp [Pos.pending, hmode]
        have hstatus := keyStatus_pollKey c keys first info.multiKeyPollingIndex
        simp only [henv, Bool.false_eq_true, if_false]
        refine ⟨rfl, ?_, ?_⟩
        · rintro info' ⟨⟩ j hj
          rw [Off, hstatus]
          exact hp.fresh c.info hpending j hj
        · rintro - info' ⟨⟩ j hj
          rw [Off, hstatus] at hj
          exact hp.old rfl c.info hpending j hj
    next => exact sound_of_none rfl rfl

theorem shared_chooseKey (sh : Shared) (c : Channel) (keys : List String) (ans : Answer) :
    (chooseKey env sh (.own c) c keys ans).1 = sh := by
  rw [chooseKey]
  split
  next => rfl
  next =>
    split
    next => rfl
    next => split <;> rfl
    next => rfl

theorem info_getChannelById {sh : Shared} {row c : Channel} {ans : Answer}
    (hrow : sh.row = some row) (h : getChannelById sh ans = .ok c) : c.info = row.info := by
  cases hfail : ans.failure with
  | some err => simp [getChannelById, hfail] at h
  | none =>
      simp only [getChannelById, hfail, hrow, Except.ok.injEq] at h
      rw [← h]

/-- The row that `UpdateChannelStatus` has just loaded. -/
theorem sound_loadedRow {call : StatusCall} (hcall : call.status ≠ statusEnabled) (locked : Bool)
    (c : Channel) : Sound env c.info (loadedRow call locked c) := by
  rw [loadedRow]
  split
  next => exact sound_finish _ _ _
  next =>
    split
    next =>
      refine ⟨decide_eq_true hcall, ?_, fun h => by cases h⟩
      rintro info ⟨⟩
      exact carries_handle env hcall c
    next =>
      refine ⟨rfl, ?_, fun h => by cases h⟩
      rintro info ⟨⟩
      exact Carries.refl _

theorem row_saveWithoutKey {sh sh' : Shared} {row c : Channel} {ans : Answer}
    (hrow : sh.row = some row) (h : saveWithoutKey sh c ans = some sh') :
    ans.failure = none ∧ ∃ row', sh'.row = some row' ∧ row'.info = c.info := by
  cases hfail : ans.failure with
  | some err => simp [saveWithoutKey, hfail] at h
  | none =>
      simp only [saveWithoutKey, hfail, hrow] at h
      split at h
      next => cases h
      next =>
        cases h
        exact ⟨rfl, _, rfl, rfl⟩

/-- A statement either leaves the row, or is one of the two saves, which write what was
pending. -/
theorem sound_next (henv : env.memoryCacheEnabled = false) {sh : Shared} {row : Channel} {p : Pos}
    {ans : Answer} {x : Shared × Pos} (hrow : sh.row = some row) (hp : Sound env row.info p)
    (h : next env sh p ans = some x) :
    ∃ row', x.1.row = some row' ∧ Sound env row'.info x.2 ∧
      (row' = row ∨ p.pending env = some row'.info ∧
        (p.polling = true ∨ ∃ c locked, p = .statusSave c locked ∧ ans.failure = none)) := by
  have hplain := hp.plain
  cases p with
  | keyStart st =>
      cases st with
      | pointer n => cases hplain
      | own c =>
          cases h
          refine ⟨row, hrow, ?_, Or.inl rfl⟩
          dsimp only
          split
          next hlocks => exact hp.congr rfl (by simp [Pos.pending, hlocks]) (fun _ => rfl)
          next => exact sound_of_none rfl rfl
  | keyWait st keys =>
      cases st with
      | pointer n => cases hplain
      | own c =>
          cases h
          exact ⟨row, hrow, hp.congr rfl (fun _ h => h) (fun _ => rfl), Or.inl rfl⟩
  | keyHeld st keys =>
      cases st with
      | pointer n => cases hplain
      | own c =>
          cases h
          refine ⟨row, ?_, sound_chooseKey henv hp ans, Or.inl rfl⟩
          rw [shared_chooseKey, hrow]
  | keySave c r =>
      cases h
      by_cases hfail : ans.failure = none
      · refine ⟨{ row with info := c.info }, by simp [hfail, hrow], sound_of_none rfl rfl,
          Or.inr ⟨rfl, Or.inl rfl⟩⟩
      · exact ⟨row, by simp [hfail, hrow], sound_of_none rfl rfl, Or.inl rfl⟩
  | statusLoad call locked =>
      simp only [next] at h
      split at h
      next c hc =>
        cases h
        refine ⟨row, hrow, ?_, Or.inl rfl⟩
        rw [← info_getChannelById hrow hc]
        exact sound_loadedRow (of_decide_eq_true hplain) locked c
      next =>
        cases h
        exact ⟨row, hrow, sound_finish _ _ _, Or.inl rfl⟩
  | statusWaitRow call locked c =>
      cases h
      exact ⟨row, hrow, hp.congr hplain (fun _ h => h) (fun h => by cases h), Or.inl rfl⟩
  | statusHandle call c =>
      cases h
      exact ⟨row, hrow, hp.congr rfl (fun _ h => h) (fun h => by cases h), Or.inl rfl⟩
  | statusSave c locked =>
      simp only [next] at h
      split at h
      next sh' hsave =>
        cases h
        obtain ⟨hfail, row', hrow', hinfo⟩ := row_saveWithoutKey hrow hsave
        refine ⟨row', hrow', sound_finish _ _ _, Or.inr ⟨?_, Or.inr ⟨c, locked, rfl, hfail⟩⟩⟩
        rw [hinfo]
        rfl
      next =>
        cases h
        exact ⟨row, hrow, sound_finish _ _ _, Or.inl rfl⟩
  | unlocking r =>
      cases h
      exact ⟨row, hrow, sound_of_none rfl rfl, Or.inl rfl⟩
  | returned r => cases h
  | statusWait call => cases hplain
  | statusHeld call => cases hplain
  | manageWait c action => cases hplain
  | manageHeld c action => cases hplain
  | testWait => cases hplain

/-! ## Runs -/

/-- The row, and every execution sound against it. -/
def Inv (env : Env) (s : State) (row : Channel) : Prop :=
  s.shared.row = some row ∧ ∀ (i : Nat) (p : Pos), s.procs[i]? = some p → Sound env row.info p

theorem sound_start (henv : env.memoryCacheEnabled = false) {sh : Shared} {row : Channel}
    {call : Call} (hrow : sh.row = some row) (hcall : disables (.start call) = true) :
    Sound env row.info (start env sh call) := by
  cases call with
  | manageMultiKeys action => cases hcall
  | updateChannelStatus call =>
      simp only [start, henv, Bool.false_eq_true, if_false]
      exact sound_of_none hcall rfl
  | getNextEnabledKey fromCache =>
      simp only [start, henv, Bool.false_and, Bool.false_eq_true, if_false, hrow]
      have hinfo : ∀ info, (Pos.keyStart (.own { row with keys := [] })).pending env = some info →
          row.info = info := by
        intro info h
        simp only [Pos.pending] at h
        split at h
        next => exact Option.some.inj h
        next => cases h
      exact ⟨rfl, fun info h => hinfo info h ▸ Carries.refl _,
        fun _ info h => hinfo info h ▸ Carries.refl _⟩

/-- What the condition says of the other executions when a call saves. -/
theorem carries_of_keepsOff {s : State} {i : Nat} {ans : Answer} {c : Channel} {locked : Bool}
    (hkeeps : keepsOff env s (.run i ans) = true) (hp : s.procs[i]? = some (.statusSave c locked))
    (hfail : ans.failure = none) {k : Nat} {q : Pos} (hki : k ≠ i) (hq : s.procs[k]? = some q)
    {info : ChannelInfo} (hinfo : q.pending env = some info) : Carries c.info info := by
  simp only [keepsOff, hp, hfail, ne_eq, not_true_eq_false, decide_false, Bool.false_or,
    List.all_eq_true, List.mem_range] at hkeeps
  obtain ⟨hk, -⟩ := List.getElem?_eq_some_iff.1 hq
  have htest := hkeeps k hk
  rw [hq, Bool.or_eq_true, decide_eq_true_eq] at htest
  have hall := htest.resolve_left hki
  rw [Option.bind_some, hinfo] at hall
  exact carries_of_test hall

/-- A step keeps the invariant, and enables no key of the row. -/
theorem inv_step (henv : env.memoryCacheEnabled = false) {s s' : State} {act : Act} {row : Channel}
    (hI : Inv env s row) (hact : disables act = true) (hkeeps : keepsOff env s act = true)
    (h : Mutex.step (program env) s act = some s') :
    ∃ row', Inv env s' row' ∧ Carries row.info row'.info := by
  obtain ⟨hrow, hprocs⟩ := hI
  cases act with
  | disturb e => cases hact
  | start call =>
      cases h
      refine ⟨row, ⟨hrow, ?_⟩, Carries.refl _⟩
      intro i p hp
      rcases Pool.get_start hp with hp | rfl
      · exact hprocs i p hp
      · exact sound_start henv hrow hact
  | run i ans =>
      obtain ⟨p, x, hp, -, hx, rfl⟩ := Mutex.step_run_eq_some.1 h
      have hsound := hprocs i p hp
      obtain ⟨row', hrow', hx', hcase⟩ := sound_next henv hrow hsound hx
      have hcarries : Carries row.info row'.info := by
        rcases hcase with rfl | ⟨hpending, -⟩
        · exact Carries.refl _
        · exact hsound.fresh _ hpending
      refine ⟨row', ⟨hrow', ?_⟩, hcarries⟩
      intro k q hq
      rcases Pool.get_set hq with ⟨rfl, rfl⟩ | ⟨hki, hqk⟩
      · exact hx'
      · have hother := hprocs k q hqk
        refine hother.rewrite hcarries ?_
        intro info hinfo
        rcases hcase with rfl | ⟨hpending, hpoll | ⟨c, locked, rfl, hfail⟩⟩
        · exact hother.fresh info hinfo
        · -- a struct of `GetNextEnabledKey` has disabled nothing that the row has not
          exact (hsound.old hpoll _ hpending).trans (hother.fresh info hinfo)
        · have hc : row'.info = c.info := (Option.some.inj hpending).symm
          rw [hc]
          exact carries_of_keepsOff hkeeps hp hfail hki hqk hinfo

/-- The steps of a run are those of the calls looked at, and meet the condition. -/
def Careful (env : Env) (s : State) (act : Act) : Prop :=
  disables act = true ∧ keepsOff env s act = true

theorem inv_run (henv : env.memoryCacheEnabled = false) {s s' : State} {acts : List Act}
    {row : Channel} (hI : Inv env s row)
    (hacts : Run.Along (Mutex.step (program env)) (Careful env) s acts)
    (h : Run.exec (Mutex.step (program env)) s acts = some s') :
    ∃ row', Inv env s' row' ∧ Carries row.info row'.info := by
  refine Run.exec_invariant (I := fun s => ∃ row', Inv env s row' ∧ Carries row.info row'.info)
    ?_ ⟨row, hI, Carries.refl _⟩ hacts h
  rintro s act s' ⟨row₁, hI₁, hrow₁⟩ ⟨hact, hkeeps⟩ hstep
  obtain ⟨row₂, hI₂, hrow₂⟩ := inv_step henv hI₁ hact hkeeps hstep
  exact ⟨row₂, hI₂, hrow₁.trans hrow₂⟩

/-- A key that the row has disabled in the first state is disabled in every `channel_info`
that a call of `GetNextEnabledKey` is about to save in the second. -/
def NotRevived (s s' : State) : Prop :=
  ∀ (row : Channel) (j : Int) (i : Nat) (c : Channel) (r : KeyResult),
    s.shared.row = some row → row.info.keyStatus j ≠ statusEnabled →
    s'.procs[i]? = some (.keySave c r) → c.info.keyStatus j ≠ statusEnabled

end

/-- Without the memory cache, in every run of calls that choose keys and calls that disable
them: from every state on, no key that is saved as disabled is stored as enabled by
`GetNextEnabledKey`, if every step meets `keepsOff`. -/
theorem not_revived_of_keeps (env : Env) (henv : env.memoryCacheEnabled = false) (row : Channel)
    (as bs : List Act) (s s' : State)
    (has : Run.Along (Mutex.step (program env)) (Careful env) (initial none (some row)) as)
    (hs : Run.exec (Mutex.step (program env)) (initial none (some row)) as = some s)
    (hbs : Run.Along (Mutex.step (program env)) (Careful env) s bs)
    (hs' : Run.exec (Mutex.step (program env)) s bs = some s') : NotRevived s s' := by
  have hinit : Inv env (initial none (some row)) row :=
    ⟨rfl, fun i p hp => by simp [initial, Mutex.initial] at hp⟩
  obtain ⟨row₁, hI₁, -⟩ := inv_run henv hinit has hs
  obtain ⟨row₂, hI₂, hcarries⟩ := inv_run henv hI₁ hbs hs'
  intro row j i c r hrow hj hp
  rw [hI₁.1] at hrow
  cases hrow
  exact (hI₂.2 i _ hp).fresh c.info rfl j (hcarries j hj)

/-! ## Two runs -/

def pollingRow : Channel :=
  ⟨1, "a\nb", 1, "m", "default", none, none, none, ⟨true, 2, ∅, ∅, ∅, 0, .polling⟩, []⟩

def withoutCache : Env := ⟨false, fun _ => none⟩

/-- The steps of an execution. -/
def runs (i n : Nat) : List Act := List.replicate n (.run i quiet)

/-- The first key is disabled. -/
def disabling : List Act := .start (.updateChannelStatus ⟨"a", 3, "401", 7⟩) :: runs 0 4

/-- After that a key is chosen. -/
def choosing : List Act := .start (.getNextEnabledKey false) :: runs 1 3

/-- The first key is disabled while a call has its struct already. -/
def overtaken : List Act :=
  .start (.getNextEnabledKey false) :: .start (.updateChannelStatus ⟨"a", 3, "401", 7⟩) :: runs 1 4

/-- What a call of `GetNextEnabledKey` is about to save. -/
def Pos.saving : Pos → Option Channel
  | .keySave c _ => some c
  | _ => none

theorem eq_keySave_of_saving {p : Pos} {c : Channel} (h : p.saving = some c) :
    ∃ r, p = .keySave c r := by
  cases p <;> cases h
  exact ⟨_, rfl⟩

instance (env : Env) (s : State) (act : Act) : Decidable (Careful env s act) :=
  inferInstanceAs (Decidable (_ ∧ _))

theorem not_revived_disabling :
    ∃ s s', Run.exec (Mutex.step (program withoutCache)) (initial none (some pollingRow)) disabling =
        some s ∧
      Run.exec (Mutex.step (program withoutCache)) s choosing = some s' ∧
      (s.shared.row.any fun row => row.info.keyStatus 0 ≠ statusEnabled) = true ∧
      ((s'.procs[1]?.bind Pos.saving).any fun c => c.info.keyStatus 0 ≠ statusEnabled) = true ∧
      NotRevived s s' := by
  obtain ⟨s, hs, hend⟩ := Run.exists_of_any (Mutex.step (program withoutCache))
    (initial none (some pollingRow)) disabling
    (fun s => (s.shared.row.any fun row => row.info.keyStatus 0 ≠ statusEnabled) ∧
      Run.Along (Mutex.step (program withoutCache)) (Careful withoutCache) s choosing ∧
      ((Run.exec (Mutex.step (program withoutCache)) s choosing).any fun s' =>
        (s'.procs[1]?.bind Pos.saving).any fun c => c.info.keyStatus 0 ≠ statusEnabled))
    (by decide +kernel)
  obtain ⟨hoff, hbs, hrun⟩ := of_decide_eq_true hend
  obtain ⟨s', hs', hsave⟩ := Run.exists_of_any _ s choosing _ hrun
  exact ⟨s, s', hs, hs', hoff, hsave,
    not_revived_of_keeps withoutCache rfl pollingRow disabling choosing s s' (by decide +kernel) hs
      hbs hs'⟩

/-- A key that is disabled is about to be stored as enabled. -/
theorem overtaken_revives :
    ¬ ∀ (env : Env) (row : Channel) (as bs : List Act) (s s' : State),
      env.memoryCacheEnabled = false → row.info.isMultiKey = true →
      row.info.multiKeyMode = .polling → (∀ act ∈ as ++ bs, disables act = true) →
      Run.exec (Mutex.step (program env)) (initial none (some row)) as = some s →
      Run.exec (Mutex.step (program env)) s bs = some s' → NotRevived s s' := by
  intro h
  obtain ⟨s, hs, hend⟩ := Run.exists_of_any (Mutex.step (program withoutCache))
    (initial none (some pollingRow)) overtaken
    (fun s => (s.shared.row.any fun row => row.info.keyStatus 0 ≠ statusEnabled) ∧
      ((Run.exec (Mutex.step (program withoutCache)) s (runs 0 3)).any fun s' =>
        (s'.procs[0]?.bind Pos.saving).any fun c => c.info.keyStatus 0 = statusEnabled))
    (by decide +kernel)
  obtain ⟨hoff, hrun⟩ := of_decide_eq_true hend
  obtain ⟨s', hs', hsave⟩ := Run.exists_of_any _ s (runs 0 3) _ hrun
  obtain ⟨row, hrow, hoff⟩ := (Option.any_eq_true _ _).1 hoff
  obtain ⟨c, hc, hon⟩ := (Option.any_eq_true _ _).1 hsave
  obtain ⟨p, hp, hpc⟩ := Option.bind_eq_some_iff.1 hc
  obtain ⟨r, rfl⟩ := eq_keySave_of_saving hpc
  have hkept := h withoutCache pollingRow overtaken (runs 0 3) s s' rfl rfl rfl (by decide) hs hs'
  exact hkept row 0 0 c r hrow (of_decide_eq_true hoff) hp (of_decide_eq_true hon)

end DazeApi.Channels.Polling
