import DazeApi.Relay.Override

/-!
# Request headers of an attempt

From the channel that was selected to the headers of the upstream request:
`SetupContextForSelectedChannel` (`middleware/distributor.go`), `InitChannelMeta`
(`relay/common/relay_info.go`), `ApplyParamOverrideWithRelayInfo`
(`relay/common/override.go`), and `DoApiRequest` with `processHeaderOverride`
(`relay/channel/api_request.go`).

The request context and `RelayInfo` are two records that all attempts of a request
share.  An attempt overwrites most of their fields.  It does not touch
`UseRuntimeHeadersOverride` and `RuntimeHeadersOverride` when its channel has no
parameter override, the organization when its channel has none, and it never
resets `IsStream`.
-/

namespace DazeApi.Relay

open DazeApi.Types

/-! ## The client -/

/-- `RelayMode`, as far as headers depend on it. -/
inductive RelayMode where
  | audioTranscription
  | audioTranslation
  | realtime
  | other
deriving DecidableEq, Repr

/-- The request of the client. -/
structure Client where
  originModelName : String
  requestURLPath : String
  relayMode : RelayMode
  isStream : Bool
  isChannelTest : Bool
  headers : Headers
deriving DecidableEq

/-- `Header.Get`, which does not distinguish case. -/
def headerGet (headers : Headers) (name : String) : String :=
  ((headers.entries.find? fun e => Text.toLower e.1 = Text.toLower name).map (·.2)).getD ""

/-- `cloneRequestHeaders`. -/
def cloneRequestHeaders (q : Client) : Headers :=
  q.headers.entries.foldl
    (fun target e =>
      if Text.trimSpace e.2 = "" then target else target.insert e.1 (Text.trimSpace e.2))
    ∅

/-! ## Channel and request context -/

/-- The channel types that the headers depend on. -/
inductive ChannelType where
  | openAI
  | azure
  | openRouter
  | other (n : Nat)
deriving DecidableEq, Repr

section

variable {β l ω γ : Type}

/-- A channel as it is set up for the request: with the key that was taken, the
affinity template merged into its parameter override, and the model name that its
mapping gives. -/
structure Channel (l ω γ : Type) where
  type : ChannelType
  key : String
  organization : Option String
  paramOverride : ParamOverride l ω γ
  headerOverride : Headers
  passThroughBodyEnabled : Bool
  upstreamModelName : String

/-- The keys of the request context that are read again. -/
structure GinContext (l ω γ : Type) where
  channelType : ChannelType
  channelKey : String
  channelOrganization : String
  channelParamOverride : ParamOverride l ω γ
  channelHeaderOverride : Headers
  passThroughBodyEnabled : Bool
  upstreamModelName : String

/-- `SetupContextForSelectedChannel`. -/
def setupContextForSelectedChannel (c : GinContext l ω γ) (channel : Channel l ω γ) :
    GinContext l ω γ where
  channelType := channel.type
  channelKey := channel.key
  -- the key is set only for a channel that has an organization, and never removed
  channelOrganization :=
    if channel.organization.getD "" ≠ "" then channel.organization.getD ""
    else c.channelOrganization
  channelParamOverride := channel.paramOverride
  channelHeaderOverride := channel.headerOverride
  passThroughBodyEnabled := channel.passThroughBodyEnabled
  upstreamModelName := channel.upstreamModelName

/-- `ChannelMeta`. -/
structure ChannelMeta (l ω γ : Type) where
  channelType : ChannelType
  apiKey : String
  organization : String
  paramOverride : ParamOverride l ω γ
  headersOverride : Headers
  passThroughBodyEnabled : Bool
  upstreamModelName : String

/-- `RelayInfo`. -/
structure RelayInfo (l ω γ : Type) where
  channelMeta : ChannelMeta l ω γ
  isStream : Bool
  retryIndex : Int
  lastError : Option NewAPIError
  useRuntimeHeadersOverride : Bool
  runtimeHeadersOverride : Headers

/-- `InitChannelMeta`. -/
def RelayInfo.initChannelMeta (info : RelayInfo l ω γ) (c : GinContext l ω γ) : RelayInfo l ω γ :=
  { info with
    channelMeta :=
      { channelType := c.channelType
        apiKey := c.channelKey
        organization := c.channelOrganization
        paramOverride := c.channelParamOverride
        headersOverride := c.channelHeaderOverride
        passThroughBodyEnabled := c.passThroughBodyEnabled
        upstreamModelName := c.upstreamModelName } }

/-! ## Header overrides -/

/-- `GetEffectiveHeaderOverride`. -/
def getEffectiveHeaderOverride (info : RelayInfo l ω γ) : Headers :=
  if info.useRuntimeHeadersOverride then sanitizeHeaderOverrideMap info.runtimeHeadersOverride
  else sanitizeHeaderOverrideMap info.channelMeta.headersOverride

/-- `BuildParamOverrideContext`. -/
def buildParamOverrideContext (q : Client) (info : RelayInfo l ω γ) : Context where
  model :=
    if info.channelMeta.upstreamModelName ≠ "" then info.channelMeta.upstreamModelName
    else q.originModelName
  upstreamModel := info.channelMeta.upstreamModelName
  originalModel := q.originModelName
  requestPath := q.requestURLPath
  requestHeaders := buildRequestHeadersContext (cloneRequestHeaders q)
  headerOverride := sanitizeHeaderOverrideMap (getEffectiveHeaderOverride info)
  retryIndex := info.retryIndex
  lastError := info.lastError
  isChannelTest := q.isChannelTest

/-- `syncRuntimeHeaderOverrideFromContext`. -/
def syncRuntimeHeaderOverrideFromContext (info : RelayInfo l ω γ) (ctx : Context) :
    RelayInfo l ω γ :=
  { info with
    runtimeHeadersOverride := sanitizeHeaderOverrideMap ctx.headerOverride
    useRuntimeHeadersOverride := true }

/-- `ApplyParamOverrideWithRelayInfo`. -/
def applyParamOverrideWithRelayInfo (eng : Engine β l ω γ) (q : Client) (body : β)
    (info : RelayInfo l ω γ) : Except String (β × RelayInfo l ω γ) :=
  if info.channelMeta.paramOverride.isEmpty then .ok (body, info)
  else
    match applyParamOverride eng body (buildParamOverrideContext q info)
        info.channelMeta.paramOverride with
    | .error err => .error err
    | .ok (body', ctx) => .ok (body', syncRuntimeHeaderOverrideFromContext info ctx)

/-! ## Sending -/

/-- `shouldSkipPassthroughHeader`. -/
def shouldSkipPassthroughHeader (name : String) : Bool :=
  let lower := Text.toLower (Text.trimSpace name)
  lower = "" ∨ lower ∈ ["connection", "keep-alive", "proxy-authenticate", "proxy-authorization",
    "te", "trailer", "transfer-encoding", "upgrade", "cookie", "host", "content-length",
    "accept-encoding", "authorization", "x-api-key", "x-goog-api-key", "sec-websocket-key",
    "sec-websocket-version", "sec-websocket-extensions"]

/-- The text that begins a placeholder for a header of the client. -/
def clientHeaderPlaceholderPrefix : String := "\x7bclient_header:"

/-- `applyHeaderOverridePlaceholders`: no value leaves the header out. -/
def applyHeaderOverridePlaceholders (template : String) (q : Client) (apiKey : String) :
    Except String (Option String) :=
  let trimmed := Text.trimSpace template
  if Text.hasPrefix trimmed clientHeaderPlaceholderPrefix then
    let afterPrefix := (Text.dropPrefix trimmed clientHeaderPlaceholderPrefix).toList
    let inner := afterPrefix.takeWhile (· ≠ '\x7d')
    if afterPrefix ≠ inner ++ ['\x7d'] then
      .error ("client_header placeholder must be the full value: " ++ template)
    else
      let name := Text.trimSpace (String.ofList inner)
      if name = "" then .error ("client_header placeholder name is empty: " ++ template)
      else
        let value := headerGet q.headers name
        .ok (if Text.trimSpace value = "" then none else some value)
  else
    let filled := Text.replaceAll template "\x7bapi_key\x7d" apiKey
    .ok (if Text.trimSpace filled = "" then none else some filled)

/-- `isHeaderPassthroughRuleKey`. -/
def isHeaderPassthroughRuleKey (key : String) : Bool :=
  let key := Text.trimSpace key
  if key = "" then false
  else if key = "*" then true
  else Text.hasPrefix (Text.toLower key) "re:" || Text.hasPrefix (Text.toLower key) "regex:"

/-- A passthrough rule among the keys of an override. -/
inductive PassRule where
  | all
  | pattern (p : String)
deriving DecidableEq, Repr

/-- The rule that a key stands for, if any. -/
def passRule (key : String) : Option PassRule :=
  let key := Text.trimSpace (Text.toLower key)
  if key = "*" then some .all
  else if Text.hasPrefix key "re:" then some (.pattern (Text.trimSpace (Text.dropPrefix key "re:")))
  else if Text.hasPrefix key "regex:" then
    some (.pattern (Text.trimSpace (Text.dropPrefix key "regex:")))
  else none

/-- `regexp.Compile`, as the test of a name. -/
abbrev Compile := String → Option (String → Bool)

/-- The first loop of `processHeaderOverride`: the tests that pass a header through. -/
def passTests (compile : Compile) : List String → Except String (List (String → Bool))
  | [] => .ok []
  | key :: keys =>
      match passRule key with
      | none => passTests compile keys
      | some .all => do return (fun _ => true) :: (← passTests compile keys)
      | some (.pattern p) =>
          if p = "" then .error ("header passthrough regex pattern is empty: " ++ key)
          else
            match compile p with
            | none => .error ("invalid regex: " ++ p)
            | some test => do return test :: (← passTests compile keys)

/-- The headers of the client that pass. -/
def passedHeaders (q : Client) (tests : List (String → Bool)) : Headers :=
  q.headers.entries.foldl
    (fun target e =>
      let value := Text.trimSpace e.2
      if shouldSkipPassthroughHeader e.1 ∨ ¬ tests.any (· e.1) ∨ value = "" then target
      else target.insert (Text.toLower (Text.trimSpace e.1)) value)
    ∅

/-- The second loop of `processHeaderOverride`: the explicit overrides. -/
def explicitHeaders (q : Client) (apiKey : String) :
    List (String × String) → Headers → Except String Headers
  | [], target => .ok target
  | (k, v) :: rest, target =>
      let key := Text.trimSpace (Text.toLower k)
      if isHeaderPassthroughRuleKey k ∨ key = "" then explicitHeaders q apiKey rest target
      else if q.isChannelTest ∧ Text.hasPrefix (Text.trimSpace v) clientHeaderPlaceholderPrefix then
        explicitHeaders q apiKey rest target
      else
        match applyHeaderOverridePlaceholders v q apiKey with
        | .error err => .error err
        | .ok none => explicitHeaders q apiKey rest target
        | .ok (some value) => explicitHeaders q apiKey rest (target.insert key value)

/-- `processHeaderOverride`. -/
def processHeaderOverride (compile : Compile) (q : Client) (info : RelayInfo l ω γ) :
    Except String Headers := do
  let source := getEffectiveHeaderOverride info
  let tests ← if q.isChannelTest then .ok [] else passTests compile source.keys
  explicitHeaders q info.channelMeta.apiKey (source.entries.map fun e => (e.1, e.2))
    (if tests.isEmpty then ∅ else passedHeaders q tests)

/-- `SetupApiRequestHeader`. -/
def setupApiRequestHeader (q : Client) (isStream : Bool) : Headers :=
  match q.relayMode with
  | .audioTranscription | .audioTranslation | .realtime => ∅
  | .other =>
      let accept := headerGet q.headers "Accept"
      (AList.insert "content-type" (headerGet q.headers "Content-Type") ∅).insert "accept"
        (if isStream ∧ accept = "" then "text/event-stream" else accept)

/-- `SetupRequestHeader` of the OpenAI adaptor, by lower-case names. -/
def setupRequestHeader (q : Client) (info : RelayInfo l ω γ) : Headers :=
  let m := info.channelMeta
  let headers := setupApiRequestHeader q info.isStream
  if m.channelType = .azure then headers.insert "api-key" m.apiKey
  else
    let headers :=
      if m.channelType = .openAI ∧ m.organization ≠ "" then
        headers.insert "openai-organization" m.organization
      else headers
    let hasAuthOverride := m.headersOverride.keys.any fun k => Text.toLower k = "authorization"
    let authorize (h : Headers) : Headers :=
      if hasAuthOverride then h else h.insert "authorization" ("Bearer " ++ m.apiKey)
    let headers :=
      if q.relayMode = .realtime then
        if headerGet q.headers "Sec-WebSocket-Protocol" ≠ "" then
          headers.insert "sec-websocket-protocol"
            ("realtime,openai-insecure-api-key." ++ m.apiKey ++ ",openai-beta.realtime-v1")
        else authorize (headers.insert "openai-beta" "realtime=v1")
      else authorize headers
    if m.channelType = .openRouter then
      (headers.insert "http-referer" "https://www.newapi.ai").insert "x-openrouter-title" "New API"
    else headers

/-- `SetupRequestHeader` of an adaptor: what it sets from the client and the channel. -/
abbrev Adaptor (l ω γ : Type) := Client → RelayInfo l ω γ → Headers

/-- The headers of `DoApiRequest`, and of `DoWssRequest` in a realtime session: an
override wins over what the adaptor sets. -/
def doRequest (compile : Compile) (adaptor : Adaptor l ω γ) (q : Client)
    (info : RelayInfo l ω γ) : Except String Headers :=
  match processHeaderOverride compile q info with
  | .error err => .error err
  | .ok override =>
      let headers := override.entries.foldl (fun h e => h.insert e.1 e.2) (adaptor q info)
      .ok (if q.relayMode = .realtime then
          headers.insert "content-type" (headerGet q.headers "Content-Type")
        else headers)

/-! ## An attempt -/

/-- One attempt: the channel, the converted request, the place in the retry loop,
and whether the upstream answers with an event stream. -/
structure HeaderAttempt (β l ω γ : Type) where
  channel : Channel l ω γ
  body : β
  retryIndex : Int
  lastError : Option NewAPIError
  answersStream : Bool

/-- What the attempts of a request share. -/
structure Shared (l ω γ : Type) where
  ctx : GinContext l ω γ
  info : RelayInfo l ω γ

/-- Before the first attempt: no key of the context and no field of a channel is set. -/
def Shared.start (q : Client) : Shared l ω γ where
  ctx := ⟨.other 0, "", "", .empty, ∅, false, ""⟩
  info := ⟨⟨.other 0, "", "", .empty, ∅, false, ""⟩, q.isStream, 0, none, false, ∅⟩

/-- The shared records when the handler of the attempt has called `InitChannelMeta`. -/
def prepare (s : Shared l ω γ) (a : HeaderAttempt β l ω γ) : Shared l ω γ :=
  let ctx := setupContextForSelectedChannel s.ctx a.channel
  let info := { s.info with retryIndex := a.retryIndex, lastError := a.lastError }
  ⟨ctx, info.initChannelMeta ctx⟩

/-- The override step of a handler: a body that is passed through is left alone. -/
def overrideStep (eng : Engine β l ω γ) (q : Client) (a : HeaderAttempt β l ω γ)
    (info : RelayInfo l ω γ) : Except String (RelayInfo l ω γ) :=
  if info.channelMeta.passThroughBodyEnabled then .ok info
  else (applyParamOverrideWithRelayInfo eng q a.body info).map (·.2)

/-- What an attempt lets out: the effective header overrides it computed, and the
headers of its request if it comes to that. -/
structure Observation where
  effective : List Headers
  sent : Except String Headers

/-- The headers of an attempt that starts with the shared records `s`. -/
def observe (eng : Engine β l ω γ) (compile : Compile) (adaptor : Adaptor l ω γ) (q : Client)
    (s : Shared l ω γ) (a : HeaderAttempt β l ω γ) : Observation :=
  let info := (prepare s a).info
  match overrideStep eng q a info with
  | .error err => ⟨[getEffectiveHeaderOverride info], .error err⟩
  | .ok info' =>
      ⟨[getEffectiveHeaderOverride info, getEffectiveHeaderOverride info'],
        doRequest compile adaptor q info'⟩

/-- The shared records after an attempt.  `info.IsStream` is set by an upstream
that answers with an event stream. -/
def attemptHeaders (eng : Engine β l ω γ) (q : Client) (s : Shared l ω γ)
    (a : HeaderAttempt β l ω γ) : Shared l ω γ :=
  let p := prepare s a
  match overrideStep eng q a p.info with
  | .error _ => p
  | .ok info => ⟨p.ctx, { info with isStream := info.isStream || a.answersStream }⟩

end

end DazeApi.Relay
