import DazeApi.Channels.Affinity
import DazeApi.Channels.Selection
import DazeApi.Lib.Expiring
import DazeApi.Lib.Run
import DazeApi.Relay.Retry

/-!
# The distributor

Before a request is relayed the distributor selects its channel: the one that its token names, the
one that is recorded under its affinity key, or one that is drawn.  When the request has been
answered, the channel is recorded under the key.  Requests come and end in any order, and between
them administrators change channels and settings, and entries of the cache expire, are cleared or
are evicted.

Channels are read from the memory cache of `Index`.  An entry of the affinity cache stands with the
time at which it expires.
-/

namespace DazeApi.Channels.Distributor

open Expiring
open Affinity (channelAffinityCacheNamespace fullKey buildChannelAffinityCacheKeySuffix)

/-! ## Rules -/

/-- `ChannelAffinityKeySource`. -/
structure KeySource where
  type : String
  key : String
  path : String

/-- `ChannelAffinityRule`, but for its override template. -/
structure AffinityRule extends Affinity.Rule where
  modelRegex : List String
  pathRegex : List String
  userAgentInclude : List String
  keySources : List KeySource
  valueRegex : String
  ttlSeconds : Int
  skipRetryOnFailure : Bool

/-- `ChannelAffinitySetting`. -/
structure Setting where
  enabled : Bool
  switchOnSuccess : Bool
  defaultTTLSeconds : Int
  rules : List AffinityRule

/-- The package `regexp`: `Compile`, with `MatchString` of what it gives. -/
structure Env where
  compile : String → Option (String → Bool)

/-- What the distributor reads of a request.  `relay.tokenGroup` is the using group. -/
structure Request where
  relay : Relay.Request
  /-- `ContextKeyTokenSpecificChannelId`. -/
  tokenChannel : Option Int
  shouldSelectChannel : Bool
  path : String
  userAgent : String
  contextInt : String → Int
  contextString : String → String
  /-- `gjson.GetBytes` of the body, as text. -/
  gjson : String → Option String

variable (env : Env)

/-- `matchAnyRegexCached`.  A pattern that does not compile is passed over. -/
def matchAnyRegexCached (patterns : List String) (s : String) : Bool :=
  s ≠ "" && patterns.any fun pattern =>
    pattern ≠ "" && (env.compile pattern).any fun re => re s

/-- `matchAnyIncludeFold`. -/
def matchAnyIncludeFold (patterns : List String) (s : String) : Bool :=
  s ≠ "" && patterns.any fun p =>
    Text.trimSpace p ≠ "" && Text.contains (Text.toLower s) (Text.toLower (Text.trimSpace p))

def extractChannelAffinityValue (r : Request) (src : KeySource) : String :=
  if src.type = "context_int" then
    if src.key = "" ∨ r.contextInt src.key ≤ 0 then "" else Nat.repr (r.contextInt src.key).toNat
  else if src.type = "context_string" then
    if src.key = "" then "" else Text.trimSpace (r.contextString src.key)
  else if src.type = "gjson" then
    if src.path = "" then "" else Text.trimSpace ((r.gjson src.path).getD "")
  else ""

/-- The first value that a source gives. -/
def affinityValue (r : Request) (rule : AffinityRule) : Option String :=
  (rule.keySources.map (extractChannelAffinityValue r)).find? (· ≠ "")

/-- The tests before the value is looked for. -/
def AffinityRule.applies (rule : AffinityRule) (r : Request) : Bool :=
  matchAnyRegexCached env rule.modelRegex r.relay.modelName &&
    (rule.pathRegex.isEmpty || matchAnyRegexCached env rule.pathRegex r.path) &&
    (rule.userAgentInclude.isEmpty || matchAnyIncludeFold rule.userAgentInclude r.userAgent)

/-- The loop over the rules: the first that matches, with its value. -/
def findRule (r : Request) : List AffinityRule → Option (AffinityRule × String)
  | [] => none
  | rule :: rules =>
      if !rule.applies env r then findRule r rules
      else
        match affinityValue r rule with
        | none => findRule r rules
        | some value =>
            if rule.valueRegex ≠ "" && !matchAnyRegexCached env [rule.valueRegex] value then
              findRule r rules
            else some (rule, value)

/-- `channelAffinityMeta`. -/
structure Meta where
  cacheKeySuffix : String
  ttlSeconds : Int
  skipRetry : Bool

/-- The key that is read. -/
def Meta.readKey (m : Meta) : String := fullKey channelAffinityCacheNamespace m.cacheKeySuffix

/-- The key that is written: `cacheKeyFull` goes through `FullKey` once more. -/
def Meta.writtenKey (m : Meta) : String :=
  fullKey channelAffinityCacheNamespace (channelAffinityCacheNamespace ++ ":" ++ m.cacheKeySuffix)

/-- What the rule that matches leaves in the context. -/
def metaOf (setting : Setting) (r : Request) : Option Meta :=
  if !setting.enabled then none
  else
    (findRule env r setting.rules).map fun found : AffinityRule × String => {
      cacheKeySuffix :=
        buildChannelAffinityCacheKeySuffix found.1.toRule r.relay.tokenGroup found.2
      ttlSeconds :=
        if found.1.ttlSeconds ≤ 0 then setting.defaultTTLSeconds else found.1.ttlSeconds
      skipRetry := found.1.skipRetryOnFailure }

/-! ## The state -/

/-- A request that is being relayed. -/
structure Flight where
  request : Request
  info : Option Meta
  /-- `ginKeyChannelAffinitySkipRetry`, which is set when the preferred channel is used. -/
  used : Option Bool
  /-- The channel that the distributor selected. -/
  first : Int
  /-- The channels that the context has had, the last one first. -/
  tried : List Int

/-- `c.GetInt("channel_id")`. -/
def Flight.channelId (f : Flight) : Int := f.tried.headD 0

def Flight.shouldSkipRetryAfterChannelAffinityFailure (f : Flight) : Bool :=
  match f.used with
  | some skip => skip
  | none => f.info.any (·.skipRetry)

inductive Proc
  | flying (f : Flight)
  /-- Answered below 400 at a time, under the settings of that time. -/
  | answered (f : Flight) (time : Nat) (setting : Setting)
  | failed (f : Flight)

def Proc.flight : Proc → Flight
  | .flying f | .answered f _ _ | .failed f => f

structure State where
  clock : Nat
  setting : Setting
  channels : Index.Cache
  entries : List (Entry String Int)
  procs : List Proc
  /-- What was put into the affinity cache and taken out of it, the newest first. -/
  events : List (Event String Int)

def initial (setting : Setting) (channels : Index.Cache) : State := ⟨0, setting, channels, [], [], []⟩

/-- `HybridCache.Get` under a full key. -/
def State.cacheGet (s : State) (full : String) : Option Int :=
  if full = "" then none
  else
    match get s.entries full with
    | none => none
    | some e => if s.clock < e.time then some e.value else none

/-- `GetPreferredChannelByAffinity`, and what it leaves in the context. -/
def getPreferredChannelByAffinity (s : State) (readFails : Bool) (r : Request) :
    Option Meta × Option Int :=
  match metaOf env s.setting r with
  | none => (none, none)
  | some m => (some m, if readFails then none else s.cacheGet m.readKey)

/-! ## `Distribute` -/

/-- `IsChannelEnabledForGroupModel` with the memory cache. -/
def isChannelEnabledForGroupModel (s : Index.Cache) (group model : String) (id : Int) : Bool :=
  if group = "" ∨ model = "" ∨ id ≤ 0 then false
  else if id ∈ s.group2model2channels group model then true
  else
    let normalized := Selection.formatMatchingModelName model
    normalized ≠ "" && normalized ≠ model && decide (id ∈ s.group2model2channels group normalized)

/-- The group in which a preferred channel serves the model of a request. -/
def servingGroup (s : Index.Cache) (r : Request) (id : Int) : Option String :=
  if r.relay.tokenGroup = "auto" then
    r.relay.autoGroups.find? fun g => isChannelEnabledForGroupModel s g r.relay.modelName id
  else if isChannelEnabledForGroupModel s r.relay.tokenGroup r.relay.modelName id then
    some r.relay.tokenGroup
  else none

/-- What the distributor has selected: the channel, the group and `used`. -/
structure Selected where
  info : Option Meta
  channel : Option Channel
  group : String
  used : Option Bool

/-- What the distributor is told: the row of the channel that the token names, whether the affinity
cache fails, the draw, and whether the model has a price. -/
structure Answers where
  row : Option Channel
  readFails : Bool
  rand : Selection.Rand
  configured : Bool

/-- What becomes of a preferred channel: a refusal, the channel with its group, or neither. -/
def usePreferred (s : Index.Cache) (r : Request) (m : Meta) (id : Int) :
    Except Nat (Option (Channel × String)) :=
  match Selection.cachedChannel s id with
  | .error _ => .ok none
  | .ok preferred =>
      if !preferred.enabled then if m.skipRetry then .error 403 else .ok none
      else .ok ((servingGroup s r preferred.id).map (preferred, ·))

/-- `CacheGetRandomSatisfiedChannel`, in the first pass. -/
def drawn (s : Index.Cache) (r : Request) (rand : Selection.Rand) :
    Except String (Option Channel) × String × Relay.Search :=
  Relay.cacheGetRandomSatisfiedChannel r.relay
    (fun g retry =>
      Selection.getRandomSatisfiedChannel r.relay.retryTimes rand s g r.relay.modelName retry)
    ⟨⟨0, false⟩, none⟩

/-- The selection of a request whose token names no channel. -/
def select (s : State) (r : Request) (a : Answers) : Except Nat Selected :=
  let found := getPreferredChannelByAffinity env s a.readFails r
  let preferred :=
    match found.1, found.2 with
    | some m, some id => usePreferred s.channels r m id
    | _, _ => .ok none
  match preferred with
  | .error code => .error code
  | .ok (some used) =>
      .ok ⟨found.1, some used.1, used.2, some (found.1.any (·.skipRetry))⟩
  | .ok none =>
      match drawn s.channels r a.rand with
      | (.ok (some c), group, _) => .ok ⟨found.1, some c, group, none⟩
      | _ => .error 503

/-- The selection; an error is the status of the refusal. -/
def selectChannel (s : State) (r : Request) (a : Answers) : Except Nat Selected :=
  match r.tokenChannel with
  | some _ =>
      match a.row with
      | none => .error 400
      | some c => if !c.enabled then .error 403 else .ok ⟨none, some c, "", none⟩
  | none =>
      if !r.shouldSelectChannel then .ok ⟨none, none, "", none⟩
      else if r.relay.modelName = "" then .error 400
      else select env s r a

/-- `Distribute` up to `c.Next()`. -/
def distribute (s : State) (r : Request) (a : Answers) : Except Nat Selected :=
  match selectChannel env s r a with
  | .error code => .error code
  | .ok sel =>
      if Text.trimSpace r.relay.modelName ≠ "" && !a.configured then .error 400 else .ok sel

/-! ## Afterwards -/

/-- How long an entry is kept, in nanoseconds. -/
def lifetime (setting : Setting) (m : Meta) : Nat :=
  let ttlSeconds := if m.ttlSeconds ≤ 0 then setting.defaultTTLSeconds else m.ttlSeconds
  (if ttlSeconds ≤ 0 then 3600 else ttlSeconds).toNat * 1000000000

/-- `RecordChannelAffinity`: the entry that is put. -/
def Flight.recordChannelAffinity (f : Flight) (setting : Setting) (now : Nat) :
    Option (Entry String Int) :=
  if f.first ≤ 0 ∨ !setting.enabled then none
  else
    match f.info with
    | none => none
    | some m =>
        let channelID :=
          if setting.switchOnSuccess ∧ 0 < f.channelId then f.channelId else f.first
        if m.writtenKey = "" then none
        else some ⟨m.writtenKey, channelID, now + lifetime setting m⟩

/-- `shouldRetry` of the relay loop. -/
def Flight.shouldRetry (f : Flight) (e : Types.NewAPIError) (retryTimes : Int) : Bool :=
  Relay.shouldRetry { f.request.relay with
    affinitySkipRetry := f.shouldSkipRetryAfterChannelAffinityFailure
    specificChannelId := f.request.tokenChannel.isSome } (some e) retryTimes

inductive Act
  | tick (d : Nat)
  | setChannels (channels : Index.Cache)
  | setSetting (setting : Setting)
  /-- Keys that are cleared by an administrator, or evicted. -/
  | forget (key : String)
  | arrive (r : Request) (a : Answers)
  /-- An attempt has failed, and the loop goes on with a channel. -/
  | retry (p : Nat) (e : Types.NewAPIError) (retryTimes : Int) (id : Int)
  /-- `c.Next()` returns, with a status below 400 or not. -/
  | finish (p : Nat) (ok : Bool)

def State.goto (s : State) (p : Nat) (proc : Proc) : State := { s with procs := s.procs.set p proc }

/-- A flight that is answered, and the record of its channel. -/
def State.answer (s : State) (p : Nat) (f : Flight) : State :=
  let s' := s.goto p (.answered f s.clock s.setting)
  match f.recordChannelAffinity s.setting s.clock with
  | none => s'
  | some e => { s' with entries := put s.entries e, events := .put e :: s.events }

def step (s : State) : Act → Option State
  | .tick d => some { s with clock := s.clock + d }
  | .setChannels channels => some { s with channels := channels }
  | .setSetting setting => some { s with setting := setting }
  | .forget key =>
      some { s with entries := erase s.entries key, events := .erase key :: s.events }
  | .arrive r a =>
      match distribute env s r a with
      | .error _ => some s
      | .ok sel =>
          match sel.channel with
          | none => some s
          | some c =>
              some { s with procs := s.procs ++ [.flying ⟨r, sel.info, sel.used, c.id, [c.id]⟩] }
  | .retry p e retryTimes id =>
      match s.procs[p]? with
      | some (.flying f) =>
          if f.shouldRetry e retryTimes then
            some (s.goto p (.flying { f with tried := id :: f.tried }))
          else none
      | _ => none
  | .finish p ok =>
      match s.procs[p]? with
      | some (.flying f) => some (if ok then s.answer p f else s.goto p (.failed f))
      | _ => none

end DazeApi.Channels.Distributor
