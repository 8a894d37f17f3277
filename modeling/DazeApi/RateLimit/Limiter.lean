import DazeApi.Lib.Window

/-!
# The model request limiter

`memoryRateLimitHandler` and `redisRateLimitHandler` (`middleware/model-rate-limit.go`)
with `InMemoryRateLimiter` (`common/rate-limit.go`) and the token bucket of
`common/limiter`.  Times are in seconds.  A request is given by its arrival and by what
the handlers behind the limiter make of it.
-/

namespace DazeApi.RateLimit

/-- A request: when it arrives, when its answer is complete, and the status of that. -/
structure Request where
  arrive : Int
  finish : Int
  status : Nat
deriving DecidableEq, Repr

/-- `c.Writer.Status() < 400`. -/
def Request.succeeds (r : Request) : Bool := r.status < 400

/-! ## In memory -/

/-- `InMemoryRateLimiter.store`: the times of a key, the oldest first. -/
abbrev Store := String → Option (List Int)

def Store.set (store : Store) (key : String) (queue : List Int) : Store := fun k =>
  if k = key then some queue else store k

/-- `InMemoryRateLimiter.Request`. -/
def Store.request (store : Store) (key : String) (maxRequestNum : Nat) (duration now : Int) :
    Store × Bool :=
  match store key with
  | some queue =>
      if queue.length < maxRequestNum then (store.set key (queue ++ [now]), true)
      else
        match queue with
        | old :: rest =>
            if duration ≤ now - old then (store.set key (rest ++ [now]), true) else (store, false)
        -- No queue is empty, since each is made with a first time.
        | [] => (store, false)
  | none => (store.set key [now], true)

/-- `memoryRateLimitHandler`, with the keys of a user: whether the request is let
through. -/
def memoryRateLimitHandler (userId : String) (duration : Int) (totalMaxCount successMaxCount : Nat)
    (store : Store) (r : Request) : Store × Bool :=
  let totalKey := "MRRL" ++ userId
  let successKey := "MRRLS" ++ userId
  let (store, allowed) :=
    if 0 < totalMaxCount then store.request totalKey totalMaxCount duration r.arrive
    else (store, true)
  if allowed then
    let (store, allowed) :=
      store.request (successKey ++ "_check") successMaxCount duration r.arrive
    if allowed then
      (if r.succeeds then (store.request successKey successMaxCount duration r.finish).1
        else store, true)
    else (store, false)
  else (store, false)

/-! ## In Redis -/

/-- The keys of a user: the list of the successes, the newest first, and the token
bucket. -/
structure Redis where
  successes : List Int
  bucket : Option (Int × Int)
deriving DecidableEq, Repr

/-- `checkRedisRateLimit`. -/
def checkRedisRateLimit (times : List Int) (maxCount : Nat) (duration now : Int) : Bool :=
  if maxCount = 0 then true
  else if times.length < maxCount then true
  else
    match times.getLast? with
    | some old => if now - old < duration then false else true
    -- An empty text is no time, and the check fails.
    | none => false

/-- `recordRedisRequest`. -/
def recordRedisRequest (times : List Int) (maxCount : Nat) (now : Int) : List Int :=
  if maxCount = 0 then times else (now :: times).take maxCount

/-- The token bucket of `rate_limit.lua`. -/
def allow (bucket : Option (Int × Int)) (requested rate capacity now : Int) :
    Option (Int × Int) × Bool :=
  let tokens :=
    match bucket with
    | some (tokens, last) => min capacity (tokens + (now - last) * rate)
    | none => capacity
  if requested ≤ tokens then (some (tokens - requested, now), true) else (some (tokens, now), false)

/-- `redisRateLimitHandler`: whether the request is let through.  After a refusal by the
token bucket `c.Next()` calls nothing, and the status is 429. -/
def redisRateLimitHandler (duration : Int) (totalMaxCount successMaxCount : Nat) (redis : Redis)
    (r : Request) : Redis × Bool :=
  if checkRedisRateLimit redis.successes successMaxCount duration r.arrive then
    let (bucket, allowed) :=
      if 0 < totalMaxCount then
        allow redis.bucket duration totalMaxCount (totalMaxCount * duration) r.arrive
      else (redis.bucket, true)
    if allowed then
      ({ successes :=
          if r.succeeds then recordRedisRequest redis.successes successMaxCount r.finish
          else redis.successes
         bucket := bucket }, true)
    else ({ redis with bucket := bucket }, false)
  else (redis, false)

/-! ## Histories -/

/-- Each request is finished before the next arrives. -/
structure Sequential (rs : List Request) : Prop where
  finishes : ∀ r ∈ rs, r.arrive ≤ r.finish
  follows : rs.Pairwise fun r r' => r.finish ≤ r'.arrive

instance (rs : List Request) : Decidable (Sequential rs) :=
  decidable_of_iff ((∀ r ∈ rs, r.arrive ≤ r.finish) ∧ rs.Pairwise fun r r' => r.finish ≤ r'.arrive)
    ⟨fun h => ⟨h.1, h.2⟩, fun h => ⟨h.finishes, h.follows⟩⟩

/-- Which requests of a history a limiter lets through. -/
def accepts {σ : Type} (handler : σ → Request → σ × Bool) : σ → List Request → List Bool
  | _, [] => []
  | s, r :: rs => (handler s r).2 :: accepts handler (handler s r).1 rs

/-- When the successes among the accepted requests complete. -/
def completions : List Bool → List Request → List Int
  | true :: accepted, r :: rs =>
      if r.succeeds then r.finish :: completions accepted rs else completions accepted rs
  | false :: accepted, _ :: rs => completions accepted rs
  | _, _ => []

end DazeApi.RateLimit
