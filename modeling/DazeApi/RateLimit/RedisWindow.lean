import DazeApi.Lib.Pool
import DazeApi.Lib.Run
import DazeApi.Lib.Window

/-!
# The window in Redis, command by command

`redisRateLimiter` and `userRedisRateLimiter` (`middleware/rate-limit.go`) issue the same commands
for a key: any number of executions interleave their `LLEN`, `LINDEX`, `LPUSH` and `LTRIM`.  What
was checked may have changed by the time of the push.  Where the check would pass again at each
push, no window shorter than the duration holds more than the limit (`redisRateLimiter_spec`).
-/

namespace DazeApi.RateLimit.RedisWindow

open Window

/-- Where an execution stands; times are in milliseconds, as `timeFormat` writes them. -/
inductive Pos where
  | called
  /-- `listLength < maxRequestNum` -/
  | short
  | push (stamp : Int)
  | full
  | found (old : Int)
  | passed
  | pushFull (stamp : Int)
  | trim
  | accepted
  | refused
  | failed
deriving DecidableEq, Repr

def Pos.finished : Pos → Bool
  | .accepted | .refused | .failed => true
  | _ => false

structure State where
  clock : Int
  /-- The list of the key, the newest first. -/
  list : List Int
  procs : List Pos
  /-- The times of all accepted requests, in the order of their pushes, the newest first. -/
  log : List Int
deriving DecidableEq, Repr

inductive Act where
  | tick (now : Int)
  | start
  | run (i : Nat)
deriving DecidableEq, Repr

def initial (clock : Int) : State := ⟨clock, [], [], []⟩

/-- The next command of an execution. -/
def next (maxRequestNum : Nat) (duration : Int) (s : State) : Pos → Option (State × Pos)
  | .called => some (s, if s.list.length < maxRequestNum then .short else .full)
  | .short => some (s, .push s.clock)
  | .push stamp =>
      some ({ s with list := stamp :: s.list, log := stamp :: s.log }, .accepted)
  | .full =>
      match s.list.getLast? with
      | some old => some (s, .found old)
      -- An empty text is no time.
      | none => some (s, .failed)
  | .found old => some (s, if (s.clock - old).tdiv 1000 < duration then .refused else .passed)
  | .passed => some (s, .pushFull s.clock)
  | .pushFull stamp =>
      some ({ s with list := stamp :: s.list, log := stamp :: s.log }, .trim)
  | .trim => some ({ s with list := s.list.take maxRequestNum }, .accepted)
  | .accepted | .refused | .failed => none

def step (maxRequestNum : Nat) (duration : Int) (s : State) : Act → Option State
  | .tick now => if now < s.clock then none else some { s with clock := now }
  | .start => some { s with procs := s.procs ++ [.called] }
  | .run i =>
      s.procs[i]?.bind fun p =>
        (next maxRequestNum duration s p).map fun x =>
          { x.1 with procs := s.procs.set i x.2 }

/-- What was checked holds still at the push: the list is short, or the oldest of the last so many
lies outside of the duration. -/
def StillHolds (maxRequestNum : Nat) (duration : Int) (s : State) : Pos → Prop
  | .push _ => s.list.length < maxRequestNum
  | .pushFull stamp =>
      ∃ old ∈ s.list[maxRequestNum - 1]?, duration ≤ (stamp - old).tdiv 1000
  | _ => True

/-- The execution that takes a step pushes only what it may still push. -/
def Timely (maxRequestNum : Nat) (duration : Int) (s : State) : Act → Prop
  | .run i => ∀ p ∈ s.procs[i]?, StillHolds maxRequestNum duration s p
  | _ => True

instance (maxRequestNum : Nat) (duration : Int) (s : State) :
    ∀ p : Pos, Decidable (StillHolds maxRequestNum duration s p)
  | .push _ => inferInstanceAs (Decidable (_ < _))
  | .pushFull stamp =>
      inferInstanceAs (Decidable (∃ old ∈ s.list[maxRequestNum - 1]?, _ ≤ (stamp - old).tdiv 1000))
  | .called | .short | .full | .found _ | .passed | .trim | .accepted | .refused | .failed =>
      isTrue trivial

instance (maxRequestNum : Nat) (duration : Int) (s : State) :
    ∀ a : Act, Decidable (Timely maxRequestNum duration s a)
  | .run i =>
      inferInstanceAs (Decidable (∀ p ∈ s.procs[i]?, StillHolds maxRequestNum duration s p))
  | .tick _ | .start => isTrue trivial

structure Inv (maxRequestNum : Nat) (duration : Int) (s : State) : Prop where
  /-- The list holds the newest times, and so many of them at least. -/
  newest : ∀ i, i < maxRequestNum → s.list[i]? = s.log[i]?
  spaced : 0 < duration → Spaced maxRequestNum (1000 * duration) s.log
  /-- A list that is too long is going to be trimmed. -/
  trimmed : s.list.length ≤ maxRequestNum ∨ ∃ p ∈ s.procs, p = .trim

section

variable {n i : Nat} {duration now t : Int} {s s' : State} {a : Act} {as : List Act} {p : Pos}

theorem step_run_eq_some :
    step n duration s (.run i) = some s' ↔
      ∃ p x, s.procs[i]? = some p ∧ next n duration s p = some x ∧
        s' = { x.1 with procs := s.procs.set i x.2 } := by
  simp only [step, Option.bind_eq_some_iff, Option.map_eq_some_iff]
  constructor
  · rintro ⟨p, hp, x, hx, rfl⟩
    exact ⟨p, x, hp, hx, rfl⟩
  · rintro ⟨p, x, hp, hx, rfl⟩
    exact ⟨p, hp, x, hx, rfl⟩

theorem Inv.initial (n : Nat) (duration clock : Int) : Inv n duration (initial clock) where
  newest _ _ := rfl
  spaced _ := fun i later earlier hlater => by cases hlater
  trimmed := Or.inl (Nat.zero_le n)

/-- A step that touches neither the list nor the log. -/
theorem Inv.of_same (h : Inv n duration s) (hlist : s'.list = s.list) (hlog : s'.log = s.log)
    (hprocs : (∃ p ∈ s.procs, p = .trim) → ∃ p ∈ s'.procs, p = .trim) : Inv n duration s' where
  newest i hi := by
    rw [hlist, hlog]
    exact h.newest i hi
  spaced hpos := by
    rw [hlog]
    exact h.spaced hpos
  trimmed := by
    rw [hlist]
    exact h.trimmed.imp_right hprocs

theorem newest_cons (h : ∀ i, i < n → s.list[i]? = s.log[i]?) (t : Int) (i : Nat) (hi : i < n) :
    (t :: s.list)[i]? = (t :: s.log)[i]? := by
  cases i with
  | zero => rfl
  | succ i =>
      rw [List.getElem?_cons_succ, List.getElem?_cons_succ]
      exact h i (by omega)

theorem le_of_le_tdiv {d : Int} (hpos : 0 < duration) (h : duration ≤ d.tdiv 1000) :
    1000 * duration ≤ d := by grind

/-- What a command of an execution keeps. -/
theorem Inv.run (h : Inv (n + 1) duration s) (hget : s.procs[i]? = some p)
    (htimely : StillHolds (n + 1) duration s p) {x : State × Pos}
    (hnext : next (n + 1) duration s p = some x) :
    Inv (n + 1) duration { x.1 with procs := s.procs.set i x.2 } := by
  have hkeep : ∀ q : Pos, p ≠ .trim →
      (∃ r ∈ s.procs, r = Pos.trim) → ∃ r ∈ s.procs.set i q, r = Pos.trim :=
    fun q hne => Pool.exists_set hget fun heq => absurd heq hne
  cases p with
  | called =>
      cases hnext
      exact h.of_same rfl rfl (hkeep _ (by decide))
  | short =>
      cases hnext
      exact h.of_same rfl rfl (hkeep _ (by decide))
  | push stamp =>
      cases hnext
      have hshort : s.list.length < n + 1 := htimely
      refine ⟨newest_cons h.newest stamp, ?_, Or.inl hshort⟩
      intro hpos
      refine (h.spaced hpos).cons ?_
      intro old hold
      rw [← h.newest n (Nat.lt_succ_self n), List.getElem?_eq_none (by omega)] at hold
      cases hold
  | full =>
      rw [next] at hnext
      split at hnext
      all_goals
        cases hnext
        exact h.of_same rfl rfl (hkeep _ (by decide))
  | found old =>
      cases hnext
      exact h.of_same rfl rfl (hkeep _ Pos.noConfusion)
  | passed =>
      cases hnext
      exact h.of_same rfl rfl (hkeep _ (by decide))
  | pushFull stamp =>
      cases hnext
      obtain ⟨old, hold, hpast⟩ := htimely
      refine ⟨newest_cons h.newest stamp, ?_, Or.inr ⟨.trim, ?_, rfl⟩⟩
      · intro hpos
        refine (h.spaced hpos).cons ?_
        intro old' hold'
        rw [← h.newest n (Nat.lt_succ_self n)] at hold'
        cases hold.symm.trans hold'
        exact le_of_le_tdiv hpos hpast
      · exact Pool.mem_of_get (Pool.get_set_self hget)
  | trim =>
      cases hnext
      refine ⟨?_, h.spaced, Or.inl (List.length_take_le _ _)⟩
      intro i hi
      rw [List.getElem?_take_of_lt hi]
      exact h.newest i hi
  | accepted => cases hnext
  | refused => cases hnext
  | failed => cases hnext

theorem Inv.step (h : Inv (n + 1) duration s) (htimely : Timely (n + 1) duration s a)
    (hs : step (n + 1) duration s a = some s') : Inv (n + 1) duration s' := by
  cases a with
  | tick now =>
      rw [RedisWindow.step] at hs
      split at hs
      · cases hs
      · cases hs
        exact h.of_same rfl rfl id
  | start =>
      cases hs
      exact h.of_same rfl rfl Pool.exists_start
  | run i =>
      obtain ⟨p, x, hget, hnext, rfl⟩ := step_run_eq_some.1 hs
      exact h.run hget (htimely p hget) hnext

theorem Inv.limits (h : Inv (n + 1) duration s) : Limits (n + 1) (1000 * duration) s.log := by
  by_cases hpos : 0 < duration
  · exact (h.spaced hpos).limits n.succ_pos
  · intro start
    rw [List.countP_eq_zero.2]
    · exact Nat.zero_le _
    · intro t _
      simp only [decide_eq_true_eq]
      omega

end

/-- In a run whose pushes may all still push, no window shorter than the duration holds more
accepted requests than the limit, and the list is no longer than it when all have finished. -/
theorem redisRateLimiter_spec (maxRequestNum : Nat) (duration clock : Int)
    (hmax : 1 ≤ maxRequestNum) (as : List Act) (s : State)
    (htimely : Run.Along (step maxRequestNum duration) (Timely maxRequestNum duration)
      (initial clock) as)
    (hs : Run.exec (step maxRequestNum duration) (initial clock) as = some s) :
    Limits maxRequestNum (1000 * duration) s.log ∧
      ((∀ p ∈ s.procs, p.finished = true) → s.list.length ≤ maxRequestNum) := by
  obtain ⟨n, rfl⟩ := Nat.exists_eq_succ_of_ne_zero (Nat.ne_of_gt hmax)
  have hinv : Inv (n + 1) duration s :=
    Run.exec_invariant (fun _ _ _ h ht hs => h.step ht hs) (Inv.initial _ _ clock) htimely hs
  refine ⟨hinv.limits, ?_⟩
  intro hfinished
  rcases hinv.trimmed with hle | ⟨p, hp, rfl⟩
  · exact hle
  · cases hfinished _ hp

/-- One request is accepted, one refused, and one accepted when the duration is over. -/
theorem redisRateLimiter_spec_three :
    Limits 1 1000 [1000, 0] ∧ [1000].length ≤ 1 := by
  have h := redisRateLimiter_spec 1 1 0 (le_refl 1)
    [.start, .run 0, .run 0, .run 0, .start, .tick 999, .run 1, .run 1, .run 1, .start,
      .tick 1000, .run 2, .run 2, .run 2, .run 2, .run 2, .run 2]
    ⟨1000, [1000], [.accepted, .refused, .accepted], [1000, 0]⟩ (by decide) (by decide)
  exact ⟨h.1, h.2 (by decide)⟩

/-- Two executions find the list empty, and both push. -/
theorem redisRateLimiter_two_push :
    ¬ ∀ (maxRequestNum : Nat) (duration clock : Int), 1 ≤ maxRequestNum →
      ∀ (as : List Act) (s : State),
        Run.exec (step maxRequestNum duration) (initial clock) as = some s →
        Limits maxRequestNum (1000 * duration) s.log ∧
          ((∀ p ∈ s.procs, p.finished = true) → s.list.length ≤ maxRequestNum) := by
  intro h
  have hlimits := (h 1 1 0 (le_refl 1)
    [.start, .start, .run 0, .run 1, .run 0, .run 0, .run 1, .run 1]
    ⟨0, [0, 0], [.accepted, .accepted], [0, 0]⟩ (by decide)).1
  exact absurd (hlimits 0) (by decide)

end DazeApi.RateLimit.RedisWindow
