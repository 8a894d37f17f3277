import DazeApi.Lib.Run
import DazeApi.Lib.Rounding
import DazeApi.Billing.Session

/-!
# Realtime sessions

The billing of a WebSocket session, from `PreConsumeBilling` to the return of
`Relay`: `OpenaiRealtimeHandler` and `preConsumeUsage`
(`relay/channel/openai/relay-openai.go`), `PreWssConsumeQuota` and
`PostWssConsumeQuota` (`service/quota.go`), `WssHelper` (`relay/websocket.go`).

The handler has two readers, one for each direction, and a main routine that wakes
up when a connection closes or a reader reports an error.  They share the three
usage accumulators without a lock.  Here a step is an access of one routine to the
shared data, so the main routine may wake up in the middle of a turn.  A call of
`PreWssConsumeQuota` is one step.
-/

namespace DazeApi.Realtime

open DazeApi.Types DazeApi.Billing

/-! ## Usage -/

/-- `dto.RealtimeUsage`, with the details of its two sides. -/
structure RealtimeUsage where
  totalTokens : Int
  inputTokens : Int
  outputTokens : Int
  inputCached : Int
  inputText : Int
  inputAudio : Int
  outputText : Int
  outputAudio : Int
deriving DecidableEq, Repr

instance : Zero RealtimeUsage := ⟨⟨0, 0, 0, 0, 0, 0, 0, 0⟩⟩

instance : Add RealtimeUsage :=
  ⟨fun u v =>
    ⟨u.totalTokens + v.totalTokens, u.inputTokens + v.inputTokens, u.outputTokens + v.outputTokens,
      u.inputCached + v.inputCached, u.inputText + v.inputText, u.inputAudio + v.inputAudio,
      u.outputText + v.outputText, u.outputAudio + v.outputAudio⟩⟩

theorem RealtimeUsage.zero_add (u : RealtimeUsage) : 0 + u = u := by
  show RealtimeUsage.mk (0 + _) (0 + _) (0 + _) (0 + _) (0 + _) (0 + _) (0 + _) (0 + _) = u
  simp only [Int.zero_add]

@[simp] theorem RealtimeUsage.totalTokens_zero : (0 : RealtimeUsage).totalTokens = 0 := rfl

/-- Tokens of a message of the client, as `CountTokenRealtime` counts them. -/
def RealtimeUsage.input (text audio : Int) : RealtimeUsage :=
  ⟨text + audio, text + audio, 0, 0, text, audio, 0, 0⟩

/-- Tokens of an event of the upstream. -/
def RealtimeUsage.output (text audio : Int) : RealtimeUsage :=
  ⟨text + audio, 0, text + audio, 0, 0, 0, text, audio⟩

/-! ## Prices -/

/-- `pricing.ModelPricing`, in dollars for a million tokens or for a call. -/
structure ModelPricing where
  usePerCallPricing : Bool
  perCallPrice : ℚ
  promptPrice : ℚ
  completionPrice : ℚ
  audioInputPrice : ℚ
  audioOutputPrice : ℚ

/-- `TokenDetails`. -/
structure TokenDetails where
  textTokens : Int
  audioTokens : Int
deriving DecidableEq, Repr

/-- `QuotaInfo`. -/
structure QuotaInfo where
  inputDetails : TokenDetails
  outputDetails : TokenDetails
  usePerCall : Bool
  perCallPrice : ℚ
  promptPrice : ℚ
  completionPrice : ℚ
  audioInputPrice : ℚ
  audioOutputPrice : ℚ
  groupDiscount : ℚ

/-- `calculateAudioQuota`.  A price for a million tokens in dollars is a price for
one token in microdollars. -/
def calculateAudioQuota (info : QuotaInfo) : Int :=
  if info.usePerCall then Rounding.trunc (info.perCallPrice * 1000000 * info.groupDiscount)
  else
    let textInputCost := info.inputDetails.textTokens * info.promptPrice
    let textOutputCost := info.outputDetails.textTokens * info.completionPrice
    let audioInputCost := info.inputDetails.audioTokens * info.audioInputPrice
    let audioOutputCost := info.outputDetails.audioTokens * info.audioOutputPrice
    Rounding.halfAway
      ((textInputCost + textOutputCost + audioInputCost + audioOutputCost) * info.groupDiscount)

/-- The `QuotaInfo` of a usage. -/
def quotaInfo (pricing : ModelPricing) (groupDiscount : ℚ) (usage : RealtimeUsage) : QuotaInfo where
  inputDetails := ⟨usage.inputText, usage.inputAudio⟩
  outputDetails := ⟨usage.outputText, usage.outputAudio⟩
  usePerCall := pricing.usePerCallPricing
  perCallPrice := pricing.perCallPrice
  promptPrice := pricing.promptPrice
  completionPrice := pricing.completionPrice
  audioInputPrice := pricing.audioInputPrice
  audioOutputPrice := pricing.audioOutputPrice
  groupDiscount := groupDiscount

/-- What a session is fixed to: the request, its model, and `PriceData`. -/
structure Conf where
  env : BillingEnv
  info : RelayInfo
  originModelName : String
  usePerCallPricing : Bool
  groupDiscount : ℚ

/-- The quota of a usage at the given prices. -/
def Conf.quota (cf : Conf) (pricing : ModelPricing) (usage : RealtimeUsage) : Int :=
  calculateAudioQuota (quotaInfo pricing cf.groupDiscount usage)

/-! ## Charges -/

/-- `PostConsumeQuota`, without the notification. -/
def postConsumeQuota (isPlayground : Bool) (acc : Accounts) (quota : Int)
    (walletErr tokenErr : StoreErr) : Accounts × StoreErr :=
  match
    if quota > 0 then decreaseUserQuota acc quota walletErr
    else increaseUserQuota acc (-quota) walletErr
  with
  | .error e => (acc, some e)
  | .ok acc =>
      if isPlayground then (acc, none)
      else
        match
          if quota > 0 then decreaseTokenQuota acc quota tokenErr
          else increaseTokenQuota acc (-quota) tokenErr
        with
        | .error e => (acc, some e)
        | .ok acc => (acc, none)

/-- What `GetTokenByKey` answers. -/
structure TokenRow where
  unlimitedQuota : Bool
  remainQuota : Int
deriving DecidableEq, Repr

/-- The answers of the environment to one `PreWssConsumeQuota`. -/
structure PreWssCalls where
  userQuota : Except String Int
  token : Except String TokenRow
  pricing : Option ModelPricing
  walletErr : StoreErr
  tokenErr : StoreErr

/-- `PreWssConsumeQuota`: the balances and the error. -/
def preWssConsumeQuota (cf : Conf) (usage : RealtimeUsage) (acc : Accounts) (io : PreWssCalls) :
    Accounts × StoreErr :=
  if cf.usePerCallPricing then (acc, none)
  else
    match io.userQuota with
    | .error e => (acc, some e)
    | .ok userQuota =>
        match io.token with
        | .error e => (acc, some e)
        | .ok token =>
            match io.pricing with
            | none => (acc, some ("model pricing not found: " ++ cf.originModelName))
            | some pricing =>
                let quota := cf.quota pricing usage
                if userQuota < quota then
                  (acc, some ("user quota is not enough, user quota: " ++
                    cf.env.formatQuota userQuota ++ ", need quota: " ++ cf.env.formatQuota quota))
                else if !token.unlimitedQuota && token.remainQuota < quota then
                  (acc, some ("token quota is not enough, token remain quota: " ++
                    cf.env.formatQuota token.remainQuota ++ ", need quota: " ++
                    cf.env.formatQuota quota))
                else postConsumeQuota cf.info.isPlayground acc quota io.walletErr io.tokenErr

/-- The quota that `PostWssConsumeQuota` logs and counts as used; it charges nothing. -/
def postWssConsumeQuota (cf : Conf) (pricing : Option ModelPricing) (usage : RealtimeUsage) :
    Option Int :=
  pricing.map fun p => if usage.totalTokens = 0 then 0 else cf.quota p usage

/-! ## The session -/

/-- Whether the usage of a turn is the upstream's or was counted here. -/
inductive Source where
  | reported
  | counted
deriving DecidableEq, Repr

/-- How far the reader is with a turn: its usage is in the accumulator, added to the
sum, or charged. -/
inductive Phase where
  | accumulated
  | summed
  | charged
deriving DecidableEq, Repr

/-- The reader of the upstream. -/
inductive Reader where
  | reading
  | turn (src : Source) (phase : Phase)
  | stopped
deriving DecidableEq, Repr

/-- The loop of `Relay` over connection attempts, the session, and after it. -/
inductive Stage where
  | dialing
  | connected
  | returned
deriving DecidableEq, Repr

/-- A turn, which is a ghost: the usage of its `response.done`, and the quota of that
usage once a charge for it has succeeded. -/
structure Turn where
  usage : RealtimeUsage
  charged : Option Int
deriving DecidableEq, Repr

/-- The state of a request.  `posted` is what `PostWssConsumeQuota` was given. -/
structure State where
  stage : Stage
  session : BillingSession
  acc : Accounts
  usage : RealtimeUsage
  localUsage : RealtimeUsage
  sumUsage : RealtimeUsage
  reader : Reader
  turns : List Turn
  posted : Option RealtimeUsage
  logged : Option Int
deriving DecidableEq, Repr

/-- The state that `PreConsumeBilling` leaves.  When it fails, `Relay` returns. -/
def start (cf : Conf) (quotaToPreConsume : Int) (acc : Accounts) (io : PreConsumeCalls) : State :=
  let r := newBillingSession cf.env cf.info quotaToPreConsume acc io
  { stage :=
      match r.2 with
      | .ok _ => .dialing
      | .error _ => .returned
    session :=
      match r.2 with
      | .ok session => session
      | .error _ => BillingSession.fresh cf.info
    acc := r.1
    usage := 0
    localUsage := 0
    sumUsage := 0
    reader := .reading
    turns := []
    posted := none
    logged := none }

inductive Event where
  /-- An attempt of `WssHelper` fails to connect, and is retried. -/
  | dialFailed
  /-- The last one fails, and `Relay` returns with an error after its refund. -/
  | relayFails (walletErr tokenErr : StoreErr)
  | connect
  | clientMessage (text audio : Int)
  | upstreamEvent (text audio : Int)
  | responseDone (usage : RealtimeUsage)
  | responseDoneCounted (text audio : Int)
  /-- The first half of `preConsumeUsage`. -/
  | addToSum
  /-- The second half. -/
  | preWss (io : PreWssCalls)
  | clear
  | readerStops
  /-- The main routine wakes up and returns, and `WssHelper` after it. -/
  | finish (io : PreWssCalls) (pricing : Option ModelPricing)

/-- The accumulator that a turn is billed from. -/
def State.billed (s : State) : Source → RealtimeUsage
  | .reported => s.usage
  | .counted => s.localUsage

/-- The latest turn has been charged, at the prices of the call. -/
def chargeTurn (cf : Conf) (pricing : Option ModelPricing) : List Turn → List Turn
  | [] => []
  | t :: ts => { t with charged := t.charged.or (pricing.map fun p => cf.quota p t.usage) } :: ts

/-- The balances after an update whose error is only logged. -/
def ignoreErr (acc : Accounts) : Except String Accounts → Accounts
  | .ok acc' => acc'
  | .error _ => acc

/-- `Refund`, with its asynchronous body. -/
def refundStep (s : State) (walletErr tokenErr : StoreErr) : State :=
  match s.session.refund with
  | (session, some (.funding consumed tokenConsumed isPlayground)) =>
      let acc := ignoreErr s.acc (fundingRefund s.acc consumed walletErr)
      { s with
        stage := .returned
        session := session
        acc := ignoreErr acc (tokenRefund acc tokenConsumed isPlayground tokenErr) }
  | (session, _) => { s with stage := .returned, session := session }

/-- The second half of `preConsumeUsage` in the reader.  An error stops it. -/
def preWssStep (cf : Conf) (s : State) (src : Source) (io : PreWssCalls) : State :=
  match preWssConsumeQuota cf (s.billed src) s.acc io with
  | (acc, none) =>
      { s with acc := acc, reader := .turn src .charged, turns := chargeTurn cf io.pricing s.turns }
  | (acc, some _) => { s with acc := acc, reader := .stopped }

/-- The end of the handler: what is left in `usage` is billed, and an error ignored. -/
def lastCharge (cf : Conf) (s : State) (io : PreWssCalls) : State :=
  if s.usage.totalTokens = 0 then s
  else
    let r := preWssConsumeQuota cf s.usage s.acc io
    { s with
      sumUsage := s.sumUsage + s.usage
      acc := r.1
      turns := if r.2 = none then chargeTurn cf io.pricing s.turns else s.turns }

/-- `PostWssConsumeQuota` and the return. -/
def finishStep (cf : Conf) (s : State) (io : PreWssCalls) (pricing : Option ModelPricing) : State :=
  let s := lastCharge cf s io
  { s with
    stage := .returned
    posted := some s.sumUsage
    logged := postWssConsumeQuota cf pricing s.sumUsage }

/-- A step of the reader of the upstream. -/
def readerStep (cf : Conf) (s : State) (e : Event) : Option State :=
  match s.reader, e with
  | .reading, .upstreamEvent text audio =>
      some { s with localUsage := s.localUsage + .output text audio }
  | .reading, .responseDone usage =>
      some
        { s with
          usage := s.usage + usage
          reader := .turn .reported .accumulated
          turns := ⟨usage, none⟩ :: s.turns }
  | .reading, .responseDoneCounted text audio =>
      some
        { s with
          localUsage := s.localUsage + .input text audio
          reader := .turn .counted .accumulated
          turns := ⟨s.localUsage + .input text audio, none⟩ :: s.turns }
  | .reading, .readerStops => some { s with reader := .stopped }
  | .turn src .accumulated, .addToSum =>
      some { s with sumUsage := s.sumUsage + s.billed src, reader := .turn src .summed }
  | .turn src .summed, .preWss io => some (preWssStep cf s src io)
  | .turn .reported .charged, .clear =>
      some { s with usage := 0, localUsage := 0, reader := .reading }
  | .turn .counted .charged, .clear => some { s with localUsage := 0, reader := .reading }
  | _, _ => none

/-- A step of the loop of `Relay` before a connection is made. -/
def dialStep (s : State) : Event → Option State
  | .dialFailed => some s
  | .relayFails walletErr tokenErr => some (refundStep s walletErr tokenErr)
  | .connect => some { s with stage := .connected }
  | _ => none

/-- The system. -/
def step (cf : Conf) (s : State) (e : Event) : Option State :=
  match s.stage with
  | .dialing => dialStep s e
  | .returned => none
  | .connected =>
      match e with
      | .clientMessage text audio =>
          some { s with localUsage := s.localUsage + .input text audio }
      | .finish io pricing => some (finishStep cf s io pricing)
      | e => readerStep cf s e

end DazeApi.Realtime
