import DazeApi.RateLimit.Limiter
import DazeApi.Lib.Run

/-!
# The two limiters

Both limiters are sliding windows over the requests that they have let through.  The one
in memory looks at the arrivals of all of them: its check records every request that it
lets through, and the record of the successes is never looked at.  The one in Redis looks
at the completions of the successes.

`Alike` says that the two windows are full or not full together.  The limiters let the
same requests through as long as this is so, and no longer.
-/

namespace DazeApi.RateLimit

open Window

/-! ## The two windows -/

/-- The arrivals of the requests that were let through, the newest first. -/
def arrivals (log : List Request) : List Int := log.map (·.arrive)

/-- The completions of those that succeeded. -/
def successes (log : List Request) : List Int := (log.filter (·.succeeds)).map (·.finish)

/-- So many of the requests that were let through arrived within the duration exactly if
so many of them succeeded and finished within it. -/
def Alike (n : Nat) (duration : Int) (log : List Request) (r : Request) : Prop :=
  Full n duration r.arrive (arrivals log) ↔ Full n duration r.arrive (successes log)

instance (n : Nat) (duration : Int) (log : List Request) (r : Request) :
    Decidable (Alike n duration log r) :=
  inferInstanceAs (Decidable (_ ↔ _))

/-- A request is let through, or not, by its window. -/
def logged (n : Nat) (duration : Int) (times : List Request → List Int) (log : List Request)
    (r : Request) : List Request :=
  if Full n duration r.arrive (times log) then log else r :: log

/-- The requests that were let through are over when the next ones arrive. -/
structure Before (log rs : List Request) : Prop where
  ordered : log.Pairwise fun later earlier => earlier.finish ≤ later.arrive
  finishes : ∀ r ∈ log, r.arrive ≤ r.finish
  next : ∀ r ∈ log, ∀ r' ∈ rs, r.finish ≤ r'.arrive

section

variable {n : Nat} {duration : Int} {log rs : List Request} {r : Request}
  {times : List Request → List Int}

theorem before_logged (h : Before log (r :: rs)) (hrs : Sequential (r :: rs)) :
    Before (logged n duration times log r) rs := by
  have hnext : ∀ q ∈ log, ∀ r' ∈ rs, q.finish ≤ r'.arrive :=
    fun q hq r' hr' => h.next q hq r' (List.mem_cons_of_mem _ hr')
  rw [logged]
  split
  next => exact ⟨h.ordered, h.finishes, hnext⟩
  next =>
    refine ⟨List.pairwise_cons.2 ⟨fun q hq => h.next q hq r (by simp), h.ordered⟩, ?_, ?_⟩
    · intro q hq
      rcases List.mem_cons.1 hq with rfl | hq
      · exact hrs.finishes _ (by simp)
      · exact h.finishes q hq
    · intro q hq r' hr'
      rcases List.mem_cons.1 hq with rfl | hq
      · exact (List.pairwise_cons.1 hrs.follows).1 r' hr'
      · exact hnext q hq r' hr'

theorem Sequential.tail (h : Sequential (r :: rs)) : Sequential rs :=
  ⟨fun q hq => h.finishes q (List.mem_cons_of_mem _ hq), (List.pairwise_cons.1 h.follows).2⟩

theorem sorted_arrivals (h : Before log rs) :
    (arrivals log).Pairwise fun later earlier => earlier ≤ later := by
  rw [arrivals, List.pairwise_map]
  refine h.ordered.imp_of_mem ?_
  intro q q' hq hq' hle
  have := h.finishes q' hq'
  omega

theorem sorted_successes (h : Before log rs) :
    (successes log).Pairwise fun later earlier => earlier ≤ later := by
  rw [successes, List.pairwise_map]
  refine List.Pairwise.filter _ (h.ordered.imp_of_mem ?_)
  intro q q' hq hq' hle
  have := h.finishes q hq
  omega

end

/-! ## The limiter in memory -/

/-- The key of the check holds the last arrivals. -/
def MemoryHolds (userId : String) (n : Nat) (store : Store) (log : List Request) : Prop :=
  store ("MRRLS" ++ userId ++ "_check") =
    if log = [] then none else some ((arrivals log).take n).reverse

theorem set_same (store : Store) (key : String) (queue : List Int) :
    (store.set key queue) key = some queue := if_pos rfl

theorem set_other {store : Store} {key k : String} {queue : List Int} (h : k ≠ key) :
    (store.set key queue) k = store k := if_neg h

theorem request_other {store : Store} {key k : String} (h : k ≠ key) (n : Nat)
    (duration now : Int) : (store.request key n duration now).1 k = store k := by
  rw [Store.request]
  split
  next =>
    split
    next => exact set_other h
    next =>
      split
      next =>
        split
        next => exact set_other h
        next => rfl
      next => rfl
  next => exact set_other h

theorem check_ne_success (userId : String) :
    "MRRLS" ++ userId ++ "_check" ≠ "MRRLS" ++ userId := by
  intro h
  have hlength := congrArg String.length h
  rw [String.length_append] at hlength
  have hcheck : "_check".length = 6 := rfl
  omega

/-- The check lets a request through unless the window of the arrivals is full, and
records it. -/
theorem request_check {userId : String} {n : Nat} (duration : Int) {store : Store}
    {log rs : List Request} (r : Request) (hholds : MemoryHolds userId (n + 1) store log)
    (hlog : Before log rs) :
    (store.request ("MRRLS" ++ userId ++ "_check") (n + 1) duration r.arrive).2 =
        !decide (Full (n + 1) duration r.arrive (arrivals log)) ∧
      MemoryHolds userId (n + 1)
        (store.request ("MRRLS" ++ userId ++ "_check") (n + 1) duration r.arrive).1
        (logged (n + 1) duration arrivals log r) := by
  have hfull : Full (n + 1) duration r.arrive (arrivals log) ↔ _ :=
    full_iff (sorted_arrivals hlog)
  rw [MemoryHolds] at hholds
  rw [Store.request, hholds, MemoryHolds, logged]
  cases log with
  | nil =>
      have hempty : ¬ Full (n + 1) duration r.arrive [] := by simp [Full]
      simp [arrivals, hempty, set_same]
  | cons q log =>
      rw [if_neg (List.cons_ne_nil q log)]
      by_cases hlen : (arrivals (q :: log)).length < n + 1
      · -- There is room in the queue.
        have hnone : ¬ Full (n + 1) duration r.arrive (arrivals (q :: log)) := by
          rw [hfull, List.getElem?_eq_none (by omega)]
          simp
        have hroom : ((arrivals (q :: log)).take (n + 1)).reverse.length < n + 1 := by
          rw [List.length_reverse, List.length_take]
          omega
        simp only [hroom, if_true, hnone, decide_false, Bool.not_false, if_false, set_same,
          List.cons_ne_nil, true_and]
        exact congrArg some (reverse_take_cons_of_lt hlen).symm
      · -- The oldest of the queue decides.
        obtain ⟨old, hget⟩ : ∃ old, (arrivals (q :: log))[n]? = some old :=
          ⟨_, List.getElem?_eq_getElem (by omega)⟩
        obtain ⟨rest, hqueue, hnext⟩ := reverse_take_cons (x := r.arrive) hget
        have hlength : ¬ (old :: rest).length < n + 1 := by
          rw [← hqueue, List.length_reverse, List.length_take]
          omega
        have hold : Full (n + 1) duration r.arrive (arrivals (q :: log)) ↔
            r.arrive - old < duration := by
          rw [hfull, hget]
          simp
        simp only [hqueue, hlength, if_false, hold]
        by_cases hin : r.arrive - old < duration
        · have hin' : ¬ duration ≤ r.arrive - old := by omega
          simp [hin, hin', hholds, hqueue]
        · have hin' : duration ≤ r.arrive - old := by omega
          simp only [hin', if_true, hin, decide_false, Bool.not_false, if_false, set_same,
            List.cons_ne_nil, true_and]
          exact congrArg some hnext.symm

/-- The whole handler does what its check does. -/
theorem memory_step {userId : String} {n : Nat} (duration : Int) {store : Store}
    {log rs : List Request} (r : Request) (hholds : MemoryHolds userId (n + 1) store log)
    (hlog : Before log rs) :
    (memoryRateLimitHandler userId duration 0 (n + 1) store r).2 =
        !decide (Full (n + 1) duration r.arrive (arrivals log)) ∧
      MemoryHolds userId (n + 1) (memoryRateLimitHandler userId duration 0 (n + 1) store r).1
        (logged (n + 1) duration arrivals log r) := by
  obtain ⟨hanswer, hstore⟩ := request_check duration r hholds hlog
  have hzero : ¬ 0 < 0 := Nat.lt_irrefl 0
  simp only [memoryRateLimitHandler, hzero, if_false, if_true]
  split
  next hallowed =>
    refine ⟨hallowed.symm.trans hanswer, ?_⟩
    split
    next => 
      rw [MemoryHolds, request_other (check_ne_success userId)]
      exact hstore
    next => exact hstore
  next hrefused =>
    refine ⟨?_, hstore⟩
    rw [← hanswer]
    exact (Bool.eq_false_iff.2 hrefused).symm

/-! ## The limiter in Redis -/

/-- The list holds the last completions of successes. -/
def RedisHolds (n : Nat) (redis : Redis) (log : List Request) : Prop :=
  redis.successes = (successes log).take n

theorem check_iff {n : Nat} {duration now : Int} {times : List Int}
    (h : times.Pairwise fun later earlier => earlier ≤ later) :
    checkRedisRateLimit (times.take (n + 1)) (n + 1) duration now =
      !decide (Full (n + 1) duration now times) := by
  have hfull : Full (n + 1) duration now times ↔ _ := full_iff h
  rw [checkRedisRateLimit, if_neg (by omega)]
  by_cases hlen : times.length < n + 1
  · have hnone : ¬ Full (n + 1) duration now times := by
      rw [hfull, List.getElem?_eq_none (by omega)]
      simp
    rw [if_pos (by rw [List.length_take]; omega)]
    simp [hnone]
  · obtain ⟨old, hget⟩ : ∃ old, times[n]? = some old :=
      ⟨_, List.getElem?_eq_getElem (by omega)⟩
    have hlast : (times.take (n + 1)).getLast? = some old := by
      rw [List.take_add_one, hget]
      simp
    have hold : Full (n + 1) duration now times ↔ now - old < duration := by
      rw [hfull, hget]
      simp
    rw [if_neg (by rw [List.length_take]; omega), hlast]
    by_cases hin : now - old < duration
    · simp [hold, hin]
    · simp [hold, hin]

theorem redis_step {n : Nat} (duration : Int) {redis : Redis} {log rs : List Request}
    (r : Request) (hholds : RedisHolds (n + 1) redis log) (hlog : Before log rs) :
    (redisRateLimitHandler duration 0 (n + 1) redis r).2 =
        !decide (Full (n + 1) duration r.arrive (successes log)) ∧
      RedisHolds (n + 1) (redisRateLimitHandler duration 0 (n + 1) redis r).1
        (logged (n + 1) duration successes log r) := by
  have hcheck : checkRedisRateLimit ((successes log).take (n + 1)) (n + 1) duration r.arrive = _ :=
    check_iff (sorted_successes hlog)
  rw [RedisHolds] at hholds
  rw [redisRateLimitHandler, hholds, hcheck, logged]
  by_cases hfull : Full (n + 1) duration r.arrive (successes log)
  · simp [hfull, RedisHolds, hholds]
  · simp only [hfull, decide_false, Bool.not_false, if_true, Nat.lt_irrefl, if_false, RedisHolds,
      true_and]
    cases hsucc : r.succeeds with
    | false => simp [successes, hsucc]
    | true => 
        simp only [if_true, recordRedisRequest, successes, hsucc, List.filter_cons_of_pos,
          List.map_cons]
        simp [List.take_take]

/-- The list of a user without requests, and no token bucket. -/
def noRequests : Redis := ⟨[], none⟩

/-- In every history the successes that Redis lets through keep the limit. -/
theorem limits_redis {n : Nat} (duration : Int) :
    ∀ {rs log : List Request} {redis : Redis}, RedisHolds (n + 1) redis log → Before log rs →
      Sequential rs → Limits (n + 1) duration (successes log) →
      Limits (n + 1) duration
        (completions (accepts (redisRateLimitHandler duration 0 (n + 1)) redis rs) rs ++
          successes log)
  | [], log, redis, _, _, _, hlimits => hlimits
  | r :: rs, log, redis, hholds, hlog, hrs, hlimits => by
      obtain ⟨hanswer, hnext⟩ := redis_step duration r hholds hlog
      have ih := limits_redis duration hnext (before_logged hlog hrs) hrs.tail
      rw [accepts, hanswer]
      by_cases hfull : Full (n + 1) duration r.arrive (successes log)
      · rw [logged, if_pos hfull] at ih
        simpa [hfull, completions] using ih hlimits
      · rw [logged, if_neg hfull] at ih
        simp only [hfull, decide_false, Bool.not_false, completions]
        cases hsucc : r.succeeds with
        | false =>
            have hsame : successes (r :: log) = successes log := by simp [successes, hsucc]
            rw [hsame] at ih
            exact ih hlimits
        | true =>
            have hcons : successes (r :: log) = r.finish :: successes log := by
              simp [successes, hsucc]
            rw [hcons] at ih
            have hlimits' := ih (hlimits.cons hfull (hrs.finishes r (by simp)))
            intro start
            rw [if_pos rfl, List.cons_append, ← List.perm_middle.countP_eq]
            exact hlimits' start

/-! ## Agreement -/

/-- The two windows are full together at every request of a history. -/
def AlikeAlong (n : Nat) (duration : Int) (log rs : List Request) : Prop :=
  Run.Along (fun log r => some (logged n duration arrivals log r)) (Alike n duration) log rs

theorem accepts_eq_iff {userId : String} {n : Nat} (duration : Int) :
    ∀ {rs log : List Request} {store : Store} {redis : Redis},
      MemoryHolds userId (n + 1) store log → RedisHolds (n + 1) redis log → Before log rs →
      Sequential rs →
      (accepts (memoryRateLimitHandler userId duration 0 (n + 1)) store rs =
          accepts (redisRateLimitHandler duration 0 (n + 1)) redis rs ↔
        AlikeAlong (n + 1) duration log rs)
  | [], _, _, _, _, _, _, _ => by simp [accepts, AlikeAlong, Run.Along]
  | r :: rs, log, store, redis, hmemory, hredis, hlog, hrs => by
      obtain ⟨hanswer, hmemory'⟩ := memory_step duration r hmemory hlog
      obtain ⟨hanswer', hredis'⟩ := redis_step duration r hredis hlog
      rw [accepts, accepts, hanswer, hanswer', List.cons.injEq]
      have hflag : (!decide (Full (n + 1) duration r.arrive (arrivals log))) =
          (!decide (Full (n + 1) duration r.arrive (successes log))) ↔
            Alike (n + 1) duration log r := by
        rw [Bool.not_inj_iff, decide_eq_decide]
        rfl
      rw [hflag, AlikeAlong, Run.Along]
      refine and_congr_right fun halike => ?_
      -- As long as the windows are alike, there is one log.
      have hsame : logged (n + 1) duration successes log r =
          logged (n + 1) duration arrivals log r := by
        rw [logged, logged, if_congr halike.symm rfl rfl]
      rw [hsame] at hredis'
      rw [accepts_eq_iff duration hmemory' hredis' (before_logged hlog hrs) hrs.tail]
      simp [AlikeAlong]

/-- A user without requests. -/
def emptyStore : Store := fun _ => none

/-- The limiters let the same requests of a history through, and neither lets more
successes complete in a window than the limit. -/
def LimitersAgree (userId : String) (duration : Int) (successMaxCount : Nat) (rs : List Request) :
    Prop :=
  let memory := accepts (memoryRateLimitHandler userId duration 0 successMaxCount) emptyStore rs
  let redis := accepts (redisRateLimitHandler duration 0 successMaxCount) noRequests rs
  memory = redis ∧ Limits successMaxCount duration (completions memory rs) ∧
    Limits successMaxCount duration (completions redis rs)

instance (n : Nat) (duration : Int) (log rs : List Request) :
    Decidable (AlikeAlong n duration log rs) :=
  inferInstanceAs (Decidable (Run.Along _ _ _ _))

/-- For every sequential history of a user the limiters agree exactly if the two windows
are full together at every request. -/
theorem limitersAgree_iff (userId : String) (duration : Int) {successMaxCount : Nat}
    (hpos : 0 < successMaxCount) {rs : List Request} (hrs : Sequential rs) :
    LimitersAgree userId duration successMaxCount rs ↔
      AlikeAlong successMaxCount duration [] rs := by
  obtain ⟨n, rfl⟩ : ∃ n, successMaxCount = n + 1 := ⟨successMaxCount - 1, by omega⟩
  have hlog : Before [] rs := ⟨List.Pairwise.nil, by simp, by simp⟩
  have hmemory : MemoryHolds userId (n + 1) emptyStore [] := rfl
  have hredis : RedisHolds (n + 1) noRequests [] := rfl
  have hlimits := limits_redis duration hredis hlog hrs (fun _ => Nat.zero_le _)
  rw [successes, List.filter_nil, List.map_nil, List.append_nil] at hlimits
  have hiff := accepts_eq_iff duration hmemory hredis hlog hrs
  rw [LimitersAgree, ← hiff]
  constructor
  · exact fun h => h.1
  · intro h
    rw [h]
    exact ⟨rfl, hlimits, hlimits⟩

theorem limitersAgree_successes :
    LimitersAgree "1" 60 2 [⟨0, 0, 200⟩, ⟨1, 1, 200⟩, ⟨2, 2, 200⟩, ⟨61, 61, 200⟩] :=
  (limitersAgree_iff "1" 60 (by decide) (by decide)).2 (by decide)

/-- A failure counts in memory and not in Redis. -/
theorem not_limitersAgree_failure :
    Sequential [⟨0, 1, 500⟩, ⟨2, 3, 200⟩] ∧
      ¬ LimitersAgree "1" 60 1 [⟨0, 1, 500⟩, ⟨2, 3, 200⟩] := by
  refine ⟨by decide, ?_⟩
  rintro ⟨haccepts, -⟩
  exact absurd haccepts (by decide +kernel)

end DazeApi.RateLimit
