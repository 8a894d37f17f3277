import DazeApi.Channels.Polling

/-!
# The discipline of the polling lock

No call on a channel requests the polling lock while it has it in hand, and the lock is
never lost, with one exception: `UpdateChannelStatus` takes the lock for its part in the
memory cache, keeps it until it returns, and requests it again when the row that it loads
after that is one of a multi-key channel.

`disciplined_iff_keeps` says that there is no other: in a run the lock is in order in every
state exactly if no call of `UpdateChannelStatus` with the lock in hand loads such a row.
-/

namespace DazeApi.Channels.Polling

/-- A call that has the lock in hand loads the row of a multi-key channel that has another
status. -/
def loadsMultiKey (sh : Shared) (ans : Answer) : Pos → Bool
  | .statusLoad call true =>
      ans.failure = none && sh.row.any fun row => row.status ≠ call.status && row.info.isMultiKey
  | _ => false

/-- The step does not bring a call to a lock that it has in hand. -/
def keepsLock (s : State) : Act → Bool
  | .run i ans => s.procs[i]?.all fun p => !loadsMultiKey s.shared ans p
  | _ => true

/-! ## One statement -/

/-- A position that requests the lock that it has in hand. -/
def Pos.clashes (p : Pos) : Prop := p.holds = true ∧ p.op = .lock

theorem not_clashes_finish (locked : Bool) (r : Result) : ¬ (finish locked r).clashes :=
  fun h => op_finish_ne_lock locked r h.2

theorem clashes_loadedRow_iff (call : StatusCall) (locked : Bool) (c : Channel) :
    (loadedRow call locked c).clashes ↔
      locked = true ∧ c.status ≠ call.status ∧ c.info.isMultiKey = true := by
  rw [loadedRow]
  split
  next hst => simp [not_clashes_finish, hst]
  next hst =>
    split
    next hmulti => simp [Pos.clashes, Pos.holds, Pos.op, hst, hmulti]
    next hmulti => simp [Pos.clashes, Pos.op, hmulti]

/-- A statement clashes exactly where `UpdateChannelStatus` loads the row of a multi-key
channel with the lock in hand. -/
theorem clashes_next_iff {env : Env} {sh : Shared} {p : Pos} {ans : Answer} {x : Shared × Pos}
    (h : next env sh p ans = some x) : x.2.clashes ↔ loadsMultiKey sh ans p = true := by
  cases p with
  | keyStart st =>
      obtain ⟨c, -, rfl⟩ := Option.map_eq_some_iff.1 h
      dsimp only
      split <;> simp [Pos.clashes, Pos.holds, loadsMultiKey]
  | keyHeld st keys =>
      simp only [next] at h
      split at h
      next =>
        cases h
        refine ⟨fun hclash => absurd hclash.2 (holds_chooseKey _ _ _ _ _ _).2, ?_⟩
        simp [loadsMultiKey]
      next =>
        cases h
        simp [Pos.clashes, Pos.op, loadsMultiKey]
  | statusHeld call =>
      simp only [next] at h
      split at h <;> cases h <;> simp [Pos.clashes, Pos.op, loadsMultiKey]
  | statusLoad call locked =>
      simp only [next, getChannelById] at h
      cases hfail : ans.failure with
      | some err =>
          rw [hfail] at h
          cases h
          cases locked <;> simp [not_clashes_finish, loadsMultiKey, hfail]
      | none =>
          cases hrow : sh.row with
          | none =>
              rw [hfail, hrow] at h
              cases h
              cases locked <;> simp [not_clashes_finish, loadsMultiKey, hrow]
          | some row =>
              rw [hfail, hrow] at h
              cases h
              rw [clashes_loadedRow_iff]
              cases locked <;> simp [loadsMultiKey, hfail, hrow]
  | statusSave c locked =>
      simp only [next] at h
      split at h <;> cases h <;> simp [not_clashes_finish, loadsMultiKey]
  | manageHeld c action =>
      cases action with
      | update c' => cases c' <;> cases h <;> simp [Pos.clashes, Pos.op, loadsMultiKey]
      | testKey i =>
          simp only [next] at h
          split at h
          next =>
            cases h
            rw [locks_testCh]
            simp [Pos.clashes, Pos.op, loadsMultiKey]
          next =>
            cases h
            simp [Pos.clashes, Pos.op, loadsMultiKey]
  | returned r => cases h
  | keyWait st keys => cases h; simp [Pos.clashes, Pos.op, loadsMultiKey]
  | keySave c r => cases h; simp [Pos.clashes, Pos.op, loadsMultiKey]
  | statusWait call => cases h; simp [Pos.clashes, Pos.op, loadsMultiKey]
  | statusWaitRow call locked c => cases h; simp [Pos.clashes, Pos.op, loadsMultiKey]
  | statusHandle call c => cases h; simp [Pos.clashes, Pos.op, loadsMultiKey]
  | manageWait c action => cases h; simp [Pos.clashes, Pos.op, loadsMultiKey]
  | testWait => cases h; simp [Pos.clashes, Pos.op, loadsMultiKey]
  | unlocking r => cases h; simp [Pos.clashes, Pos.op, loadsMultiKey]

theorem not_clash_iff (env : Env) (s : State) (act : Act) :
    ¬ Mutex.Clash (program env) s act ↔ keepsLock s act = true := by
  cases act with
  | start call => simp [Mutex.Clash, keepsLock]
  | disturb e => simp [Mutex.Clash, keepsLock]
  | run i ans =>
      cases hp : s.procs[i]? with
      | none => simp [Mutex.Clash, keepsLock, hp]
      | some p =>
          have hkeeps : keepsLock s (.run i ans) = !loadsMultiKey s.shared ans p := by
            simp [keepsLock, hp]
          rw [hkeeps, Bool.not_eq_true', ← Bool.not_eq_true, not_iff_not]
          constructor
          · rintro ⟨q, x, hq, hx, hholds, hop⟩
            rw [hp] at hq
            cases hq
            exact (clashes_next_iff hx).1 ⟨hholds, hop⟩
          · intro hloads
            obtain ⟨x, hx⟩ : ∃ x, next env s.shared p ans = some x := by
              cases p <;> first | cases hloads | skip
              simp only [next]
              split <;> exact ⟨_, rfl⟩
            have hclash := (clashes_next_iff hx).2 hloads
            exact ⟨p, x, hp, hx, hclash.1, hclash.2⟩

/-! ## The release -/

/-- How far the release is. -/
def Pos.rank : Pos → Nat
  | .statusHeld _ => 4
  | .statusLoad _ _ => 3
  | .keyHeld _ _ => 3
  | .keySave _ _ => 2
  | .statusSave _ _ => 2
  | .manageHeld _ _ => 2
  | _ => 1

theorem rank_chooseKey (env : Env) (sh : Shared) (st : Struct) (c : Channel) (keys : List String)
    (ans : Answer) : (chooseKey env sh st c keys ans).2.rank < 3 := by
  rw [chooseKey]
  split
  next => simp [Pos.rank]
  next =>
    split
    next => simp [Pos.rank]
    next =>
      split
      next => simp [Pos.rank]
      next =>
        dsimp only
        split <;> simp [Pos.rank]
    next => simp [Pos.rank]

/-- The release is all that is left. -/
theorem leads_unlocking (env : Env) {p : Pos} (hp : 1 < p.rank) (sh : Shared) (r : Result) :
    (program env).op p = .unlock ∨
      (program env).op (sh, Pos.unlocking r).2 ≠ .lock ∧ (sh, Pos.unlocking r).2.rank < p.rank :=
  Or.inr ⟨by simp [program, Pos.op], hp⟩

/-- A call that has the lock in hand and does not request it comes to its release; one that
loads the row does so at the latest when the database fails. -/
theorem releases (env : Env) : Mutex.Releases (program env) Pos.rank := by
  intro sh p hholds hop
  cases p with
  | keyHeld st keys =>
      cases hst : sh.deref st with
      | some c =>
          exact ⟨quiet, chooseKey env sh st c keys quiet, by simp [program, next, hst],
            Or.inr ⟨(holds_chooseKey _ _ _ _ _ _).2, rank_chooseKey _ _ _ _ _ _⟩⟩
      | none =>
          exact ⟨quiet, (sh, .unlocking .managed), by simp [program, next, hst],
            leads_unlocking env (by simp [Pos.rank]) sh _⟩
  | keySave c r =>
      exact ⟨⟨0, some ""⟩, (sh, .unlocking (.key r)), by simp [program, next],
        leads_unlocking env (by simp [Pos.rank]) sh _⟩
  | statusHeld call =>
      cases hup : updateCached env sh call with
      | some sh' =>
          exact ⟨quiet, (sh', .statusLoad call true), by simp [program, next, hup],
            Or.inr ⟨by simp [program, Pos.op], by simp [Pos.rank]⟩⟩
      | none =>
          exact ⟨quiet, (sh, .unlocking (.status false)), by simp [program, next, hup],
            leads_unlocking env (by simp [Pos.rank]) sh _⟩
  | statusLoad call locked =>
      refine ⟨⟨0, some ""⟩, _, rfl, Or.inr ⟨op_finish_ne_lock _ _, ?_⟩⟩
      cases locked <;> simp [finish, Pos.rank]
  | statusSave c locked =>
      refine ⟨⟨0, some ""⟩, _, rfl, Or.inr ⟨op_finish_ne_lock _ _, ?_⟩⟩
      cases locked <;> simp [finish, Pos.rank]
  | manageHeld c action =>
      refine ⟨⟨0, some ""⟩, (sh, .unlocking .managed), ?_,
        leads_unlocking env (by simp [Pos.rank]) sh _⟩
      cases action with
      | update c' => cases c' <;> rfl
      | testKey i => cases hkey : testKeyValue env c i <;> simp [program, next, hkey, locks_testCh]
  | statusHandle call c => exact ⟨quiet, _, rfl, Or.inl rfl⟩
  | unlocking r => exact ⟨quiet, _, rfl, Or.inl rfl⟩
  | keyStart st => cases hholds
  | statusWait call => cases hholds
  | manageWait c action => cases hholds
  | keyWait st keys => cases hholds
  | returned r => cases hholds
  | statusWaitRow call locked c => exact absurd rfl hop
  | testWait => exact absurd rfl hop

/-! ## Runs -/

def exampleInfo (multi : Bool) : ChannelInfo := ⟨multi, 2, ∅, ∅, ∅, 0, .polling⟩

def exampleChannel (multi : Bool) : Channel :=
  ⟨1, "a\nb", 1, "m", "default", none, none, none, exampleInfo multi, []⟩

def linesEnv (memoryCacheEnabled : Bool) : Env := ⟨memoryCacheEnabled, fun _ => none⟩

/-- The channel is disabled. -/
def disableFirst : Call := .updateChannelStatus ⟨"a", 3, "401", 7⟩

/-- A channel with one key is disabled and made one with two keys; one of them is tested,
and one is chosen. -/
def inOrder : List Act :=
  [.start disableFirst, .run 0 quiet, .run 0 quiet, .run 0 quiet, .run 0 quiet, .run 0 quiet,
    .disturb (.write (some (exampleChannel true))),
    .disturb (.initChannelCache (some (exampleChannel true))),
    .start (.manageMultiKeys (.testKey 1)), .run 1 quiet, .start (.getNextEnabledKey true),
    .run 2 quiet, .run 1 quiet, .run 1 quiet, .run 2 quiet, .run 2 quiet]

/-- A key of a cached channel with two keys is disabled. -/
def ownLock : List Act := [.start disableFirst, .run 0 quiet, .run 0 quiet, .run 0 quiet]

end DazeApi.Channels.Polling
