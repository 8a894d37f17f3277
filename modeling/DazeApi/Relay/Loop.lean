import DazeApi.Lib.Run
import DazeApi.Relay.Retry
import DazeApi.Relay.Stream

/-!
# The retry loop

The loop of `Relay` (`controller/relay.go`) over the attempts of one request.  One
step is one pass through the body of the loop: `getChannel`, the request body, the
handler, and the decision whether to go on.  A label holds the answers the
environment gives during the pass, so a run is any sequence of selected channels
with whatever their handlers delivered.

The state records which attempt wrote what.  The error object that the deferred
function renders at the end is not among these writes.
-/

namespace DazeApi.Relay

open DazeApi.Types

/-- The state of the loop. -/
structure Loop where
  search : Search
  /-- `info.ChannelMeta` is set, which the first handler does. -/
  channelMeta : Bool
  /-- The number of handlers that were called. -/
  attempts : Nat
  written : List (Nat × Write)
  newAPIError : Option NewAPIError
  returned : Bool
deriving DecidableEq, Repr

/-- Before the loop.  The distributor may have left an auto group index. -/
def Loop.start (autoGroupIndex : Option Nat) : Loop where
  search := ⟨⟨0, false⟩, autoGroupIndex⟩
  channelMeta := false
  attempts := 0
  written := []
  newAPIError := none
  returned := false

/-- An error of `GetBodyStorage`. -/
structure BodyError where
  text : String
  tooLarge : Bool
deriving DecidableEq, Repr

/-- The error that the loop makes of it. -/
def BodyError.toAPIError (b : BodyError) : NewAPIError :=
  newErrorWithStatusCode b.text "read_request_body_failed" (if b.tooLarge then 413 else 400)
    [.skipRetry]

/-- The answers of the environment in one pass through the loop. -/
structure Attempt (κ : Type) where
  /-- `model.CacheGetChannel`. -/
  cached : Int → Except String κ
  /-- `model.GetRandomSatisfiedChannel`. -/
  pick : Pick κ
  /-- `SetupContextForSelectedChannel`. -/
  setup : κ → Option NewAPIError
  /-- `GetBodyStorage`. -/
  body : Option BodyError
  /-- The handler of the relay format. -/
  handler : κ → Delivery

section

variable {κ : Type} (r : Request)

/-- The errors of `getChannel`. -/
def channelNotFound (text : String) : NewAPIError := newError text "get_channel_failed" [.skipRetry]

/-- `getChannel`. -/
def getChannel (s : Loop) (a : Attempt κ) : Except NewAPIError κ × Search :=
  if !s.channelMeta then
    if r.channelId ≤ 0 then (.error (channelNotFound "渠道未选择"), s.search)
    else
      match a.cached r.channelId with
      | .error err =>
          (.error (channelNotFound ("获取渠道 #" ++ toString r.channelId ++ " 失败: " ++ err)), s.search)
      | .ok channel => (.ok channel, s.search)
  else
    match cacheGetRandomSatisfiedChannel r a.pick s.search with
    | (.error err, group, search) =>
        (.error (channelNotFound ("获取分组 " ++ group ++ " 下模型 " ++ r.modelName ++
          " 的可用渠道失败（retry）: " ++ err)), search)
    | (.ok none, group, search) =>
        (.error (channelNotFound ("分组 " ++ group ++ " 下模型 " ++ r.modelName ++
          " 的可用渠道不存在（retry）")), search)
    | (.ok (some channel), _, search) =>
        match a.setup channel with
        | some e => (.error e, search)
        | none => (.ok channel, search)

/-- The loop after a pass that ended with `break`. -/
def Loop.stop (s : Loop) (search : Search) (e : NewAPIError) : Loop :=
  { s with search := search, newAPIError := some e, returned := true }

/-- The loop after the handler of the attempt has delivered `d`. -/
def Loop.deliver (s : Loop) (search : Search) (d : Delivery) : Loop :=
  { s with
    search := search
    channelMeta := true
    attempts := s.attempts + 1
    written := s.written ++ d.writes.map fun w => (s.attempts, w)
    newAPIError := d.err }

/-- The loop after the decision on the delivery `d`. -/
def Loop.decide (s : Loop) (search : Search) (d : Delivery) : Loop :=
  if shouldRetry r d.err (r.retryTimes - search.param.retry) then
    s.deliver { search with param := search.param.increaseRetry } d
  else { s.deliver search d with returned := true }

/-- One pass through the loop, when its condition holds. -/
def pass (s : Loop) (a : Attempt κ) : Option Loop :=
  if s.returned ∨ r.retryTimes < s.search.param.retry then none
  else
    match getChannel r s a with
    | (.error e, search) => some (s.stop search e)
    | (.ok channel, search) =>
        match a.body with
        | some b => some (s.stop search b.toAPIError)
        | none => some (s.decide r search (a.handler channel))

/-- A pass in which a channel and the body are found. -/
theorem pass_eq_decide {s : Loop} {a : Attempt κ} {channel : κ} {search : Search}
    (hret : s.returned = false) (hle : s.search.param.retry ≤ r.retryTimes)
    (hgc : getChannel r s a = (.ok channel, search)) (hb : a.body = none) :
    pass r s a = some (s.decide r search (a.handler channel)) := by
  have hguard : ¬ (s.returned = true ∨ r.retryTimes < s.search.param.retry) := by
    simp only [hret, Bool.false_eq_true, false_or]
    omega
  simp only [pass, if_neg hguard, hgc, hb]

/-- What one pass can do: nothing when the loop is over, stop with an error before
the handler, or deliver and decide. -/
theorem pass_cases {s s' : Loop} {a : Attempt κ} (h : pass r s a = some s') :
    s.returned = false ∧ s.search.param.retry ≤ r.retryTimes ∧
    ((∃ search e, s' = s.stop search e) ∨
      ∃ channel search, getChannel r s a = (.ok channel, search) ∧ a.body = none ∧
        s' = s.decide r search (a.handler channel)) := by
  simp only [pass] at h
  split at h
  next => cases h
  next hg =>
    rw [not_or, Bool.not_eq_true, Int.not_lt] at hg
    refine ⟨hg.1, hg.2, ?_⟩
    split at h
    next e search hgc => exact Or.inl ⟨search, e, (Option.some.inj h).symm⟩
    next channel search hgc =>
      split at h
      next b hb => exact Or.inl ⟨search, b.toAPIError, (Option.some.inj h).symm⟩
      next hb => exact Or.inr ⟨channel, search, hgc, hb, (Option.some.inj h).symm⟩

end

end DazeApi.Relay
