import DazeApi.Types.Error

/-!
# The retry decision and channel selection

`shouldRetry` (`controller/relay.go`) with the status code rules it consults
(`setting/operation_setting/status_code_ranges.go`), and the search for the
channel of the next attempt, `CacheGetRandomSatisfiedChannel`
(`service/channel_select.go`).

The random choice among the satisfying channels of one group is an answer of the
environment.  What the search keeps between two calls is the retry counter of
`RetryParam` and the index of the current auto group in the request context.
-/

namespace DazeApi.Relay

open DazeApi.Types

/-! ## Status code rules -/

/-- `StatusCodeRange`, both ends included. -/
structure StatusCodeRange where
  first : Int
  last : Int
deriving DecidableEq, Repr

/-- `AutomaticRetryStatusCodeRanges` as it is set by default. -/
def automaticRetryStatusCodeRanges : List StatusCodeRange :=
  [⟨100, 199⟩, ⟨300, 399⟩, ⟨401, 407⟩, ⟨409, 499⟩, ⟨500, 503⟩, ⟨505, 523⟩, ⟨525, 599⟩]

/-- `alwaysSkipRetryStatusCodes`. -/
def alwaysSkipRetryStatusCodes : List Int := [504, 524]

/-- `alwaysSkipRetryCodes`. -/
def alwaysSkipRetryCodes : List String := ["bad_response_body"]

/-- `IsAlwaysSkipRetryStatusCode`. -/
def isAlwaysSkipRetryStatusCode (code : Int) : Bool := code ∈ alwaysSkipRetryStatusCodes

/-- `IsAlwaysSkipRetryCode`. -/
def isAlwaysSkipRetryCode (errorCode : String) : Bool := errorCode ∈ alwaysSkipRetryCodes

/-- The loop of `shouldMatchStatusCodeRanges`.  It gives up at the first range
that starts behind the code: the ranges are kept sorted. -/
def matchRanges : List StatusCodeRange → Int → Bool
  | [], _ => false
  | r :: rs, code =>
      if code < r.first then false
      else if code ≤ r.last then true
      else matchRanges rs code

/-- `shouldMatchStatusCodeRanges`. -/
def shouldMatchStatusCodeRanges (ranges : List StatusCodeRange) (code : Int) : Bool :=
  if code < 100 ∨ code > 599 then false else matchRanges ranges code

/-- `ShouldRetryByStatusCode`. -/
def shouldRetryByStatusCode (ranges : List StatusCodeRange) (code : Int) : Bool :=
  if isAlwaysSkipRetryStatusCode code then false else shouldMatchStatusCodeRanges ranges code

/-! ## The decision -/

/-- What a request and the settings fix for all of its attempts.  `GetUserAutoGroup`
is the list of auto groups that the user may use, and `autoGroupsEnabled` says
that the list it is taken from is not empty. -/
structure Request where
  retryTimes : Int
  ranges : List StatusCodeRange
  affinitySkipRetry : Bool
  specificChannelId : Bool
  crossGroupRetry : Bool
  autoGroupsEnabled : Bool
  autoGroups : List String
  tokenGroup : String
  modelName : String
  /-- The channel that the distributor selected. -/
  channelId : Int
deriving DecidableEq, Repr

/-- `shouldRetry`; `retryTimes` is the number of retries left. -/
def shouldRetry (r : Request) (openaiErr : Option NewAPIError) (retryTimes : Int) : Bool :=
  match openaiErr with
  | none => false
  | some e =>
      if r.affinitySkipRetry then false
      else if isChannelError e then true
      else if isSkipRetryError e then false
      else if retryTimes ≤ 0 then false
      else if r.specificChannelId then false
      else if e.statusCode ≥ 200 ∧ e.statusCode < 300 then false
      else if e.statusCode < 100 ∨ e.statusCode > 599 then true
      else if isAlwaysSkipRetryCode e.errorCode then false
      else shouldRetryByStatusCode r.ranges e.statusCode

/-- The errors that end a request.  A channel error does not, unless the request
is bound to its channel by affinity; any other error does when it is marked, when
no retry is left, when the token names its channel, or by its class and status. -/
def Refused (r : Request) (e : NewAPIError) (retryTimes : Int) : Prop :=
  r.affinitySkipRetry = true ∨
  isChannelError e = false ∧
    (e.skipRetry = true ∨ retryTimes ≤ 0 ∨ r.specificChannelId = true ∨
      (200 ≤ e.statusCode ∧ e.statusCode < 300) ∨
      (100 ≤ e.statusCode ∧ e.statusCode ≤ 599 ∧
        (e.errorCode = "bad_response_body" ∨ e.statusCode = 504 ∨ e.statusCode = 524 ∨
          shouldMatchStatusCodeRanges r.ranges e.statusCode = false)))

instance (r : Request) (e : NewAPIError) (n : Int) : Decidable (Refused r e n) :=
  inferInstanceAs (Decidable (_ ∨ _))

theorem shouldRetryByStatusCode_eq_false {ranges : List StatusCodeRange} {code : Int} :
    shouldRetryByStatusCode ranges code = false ↔
      code = 504 ∨ code = 524 ∨ shouldMatchStatusCodeRanges ranges code = false := by
  simp only [shouldRetryByStatusCode, isAlwaysSkipRetryStatusCode, alwaysSkipRetryStatusCodes,
    List.mem_cons, List.not_mem_nil, or_false, decide_eq_true_eq]
  split
  next h => simpa using h.imp_right Or.inl
  next h =>
    rw [not_or] at h
    simp [h.1, h.2]

/-- `shouldRetry` turns down the errors that end a request, and no others. -/
theorem shouldRetry_eq_false_iff (r : Request) (e : NewAPIError) (n : Int) :
    shouldRetry r (some e) n = false ↔ Refused r e n := by
  simp only [shouldRetry, Refused, isSkipRetryError, isAlwaysSkipRetryCode, alwaysSkipRetryCodes,
    List.mem_singleton, decide_eq_true_eq]
  split
  next h => simp [h]
  next ha =>
    split
    next h => simp [ha, h]
    next hc =>
      rw [Bool.not_eq_true] at hc
      simp only [ha, hc, true_and]
      split
      next h => simp [h]
      next hs =>
        split
        next h => simp [h]
        next hn =>
          split
          next h => simp [h]
          next hp =>
            -- what is left depends on the class and the status of the error alone
            simp only [hs, hn, hp, false_or, Bool.false_eq_true]
            split
            next h => simp [h]
            next h2 =>
              split
              next h => simp only [Bool.true_eq_false, false_iff]; omega
              next ho =>
                split
                next h => simp only [h, true_or, and_true, true_iff]; omega
                next hb =>
                  simp only [hb, false_or, shouldRetryByStatusCode_eq_false]
                  constructor
                  · intro h
                    exact Or.inr ⟨by omega, by omega, h⟩
                  · rintro (h | h)
                    · exact absurd h h2
                    · exact h.2.2

/-! ## Channel selection -/

/-- The part of `RetryParam` that changes. -/
structure RetryParam where
  retry : Int
  resetNextTry : Bool
deriving DecidableEq, Repr

/-- `RetryParam.IncreaseRetry`. -/
def RetryParam.increaseRetry (p : RetryParam) : RetryParam :=
  if p.resetNextTry then { p with resetNextTry := false } else { p with retry := p.retry + 1 }

/-- The state of the search: the retry parameter and `ContextKeyAutoGroupIndex`. -/
structure Search where
  param : RetryParam
  autoGroupIndex : Option Nat
deriving DecidableEq, Repr

section

variable {κ : Type}

/-- The answers of `model.GetRandomSatisfiedChannel` to a group and a retry number. -/
abbrev Pick (κ : Type) := String → Int → Except String (Option κ)

/-- The loop of `CacheGetRandomSatisfiedChannel` over the auto groups, from the
`i`-th on.  `start` is the index it began with. -/
def selectAutoGroup (r : Request) (pick : Pick κ) (start : Nat) :
    Nat → List String → Search → Option (κ × String) × Search
  | _, [], s => (none, s)
  | i, g :: gs, s =>
      let priorityRetry := if start < i then 0 else s.param.retry
      match pick g priorityRetry with
      | .ok (some channel) =>
          if r.crossGroupRetry ∧ r.retryTimes ≤ priorityRetry then
            -- this attempt still uses the group, the next one starts behind it
            (some (channel, g), { param := ⟨0, true⟩, autoGroupIndex := some (i + 1) })
          else (some (channel, g), { s with autoGroupIndex := some i })
      | _ =>
          selectAutoGroup r pick start (i + 1) gs
            { param := { s.param with retry := 0 }, autoGroupIndex := some (i + 1) }

/-- `CacheGetRandomSatisfiedChannel`: the channel and the group it was found in,
no channel, or an error; with the group that the caller reports. -/
def cacheGetRandomSatisfiedChannel (r : Request) (pick : Pick κ) (s : Search) :
    Except String (Option κ) × String × Search :=
  if r.tokenGroup = "auto" then
    if !r.autoGroupsEnabled then (.error "auto groups is not enabled", r.tokenGroup, s)
    else
      let start := s.autoGroupIndex.getD 0
      match selectAutoGroup r pick start start (r.autoGroups.drop start) s with
      | (some (channel, g), s') => (.ok (some channel), g, s')
      | (none, s') => (.ok none, r.tokenGroup, s')
  else (pick r.tokenGroup s.param.retry, r.tokenGroup, s)

end

end DazeApi.Relay
