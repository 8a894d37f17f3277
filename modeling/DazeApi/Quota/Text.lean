import Mathlib.Data.List.Sort
import DazeApi.Lib.Rounding

/-!
# The charge for a text request

`calculateTextQuotaSummary` (`service/text_quota.go`), with what it calls:
`NormalizeInputTokenDetails` (`dto/openai_response.go`), the price tiers
(`setting/pricing/tiered.go`), the prices of the built-in tools
(`setting/operation_setting/tools.go`) and `CalcOpenRouterCacheCreateTokens`
(`service/quota.go`).  Prices and discounts are rational numbers; a price is in
dollars for a million tokens, so in microdollars for one.
-/

namespace DazeApi.Quota

/-! ## Usage -/

/-- `dto.InputTokenDetails`. -/
structure InputTokenDetails where
  cachedTokens : Int
  cachedCreationTokens : Int
  cacheWriteTokens : Int
  textTokens : Int
  audioTokens : Int
  imageTokens : Int
deriving DecidableEq, Repr

instance : Zero InputTokenDetails := ⟨⟨0, 0, 0, 0, 0, 0⟩⟩

/-- `usage.Cost`, which is of any type. -/
inductive Cost where
  | absent
  | float (cost : ℚ)
  | int (cost : Int)
  | other
deriving DecidableEq

/-- `dto.Usage`, as far as the charge depends on it or a conversion writes it. -/
structure Usage where
  promptTokens : Int
  completionTokens : Int
  totalTokens : Int
  inputTokens : Int
  usageSemantic : String
  usageSource : String
  promptTokensDetails : InputTokenDetails
  inputTokensDetails : Option InputTokenDetails
  claudeCacheCreation5mTokens : Int
  claudeCacheCreation1hTokens : Int
  cost : Cost
deriving DecidableEq

instance : Zero Usage := ⟨⟨0, 0, 0, 0, "", "", 0, none, 0, 0, .absent⟩⟩

/-- `normalizeCacheWrite`. -/
def InputTokenDetails.normalizeCacheWrite (d : InputTokenDetails) : InputTokenDetails :=
  let d :=
    if d.cachedCreationTokens = 0 ∧ d.cacheWriteTokens > 0 then
      { d with cachedCreationTokens := d.cacheWriteTokens }
    else d
  if d.cacheWriteTokens = 0 ∧ d.cachedCreationTokens > 0 then
    { d with cacheWriteTokens := d.cachedCreationTokens }
  else d

/-- A detail that is absent is taken from `src`. -/
def InputTokenDetails.orElse (d src : InputTokenDetails) : InputTokenDetails where
  cachedTokens := if d.cachedTokens = 0 then src.cachedTokens else d.cachedTokens
  cachedCreationTokens :=
    if d.cachedCreationTokens = 0 then src.cachedCreationTokens else d.cachedCreationTokens
  cacheWriteTokens := if d.cacheWriteTokens = 0 then src.cacheWriteTokens else d.cacheWriteTokens
  imageTokens := if d.imageTokens = 0 then src.imageTokens else d.imageTokens
  audioTokens := if d.audioTokens = 0 then src.audioTokens else d.audioTokens
  textTokens := if d.textTokens = 0 then src.textTokens else d.textTokens

/-- `NormalizeInputTokenDetails`. -/
def Usage.normalizeInputTokenDetails (u : Usage) : Usage :=
  let d := u.promptTokensDetails.normalizeCacheWrite
  match u.inputTokensDetails with
  | none => { u with promptTokensDetails := d }
  | some src =>
      let src := src.normalizeCacheWrite
      { u with
        inputTokensDetails := some src
        promptTokensDetails := (d.orElse src).normalizeCacheWrite }

/-- `ValidUsage`. -/
def validUsage : Option Usage → Bool
  | none => false
  | some u => u.promptTokens != 0 || u.completionTokens != 0

/-! ## Prices -/

/-- The prices by token that `PriceData` and `textQuotaSummary` both hold. -/
structure Prices where
  promptPrice : ℚ
  completionPrice : ℚ
  cacheReadPrice : ℚ
  cacheWritePrice : ℚ
  cacheWrite5mPrice : ℚ
  cacheWrite1hPrice : ℚ
  imagePrice : ℚ
  audioInputPrice : ℚ
deriving DecidableEq

/-- `types.PriceData`, as far as the charge depends on it. -/
structure PriceData where
  prices : Prices
  perCallPrice : ℚ
  usePerCallPricing : Bool
  useTieredPricing : Bool
  matchedTier : String
  groupDiscount : ℚ
  otherDiscounts : List ℚ
deriving DecidableEq

/-- `pricing.PricingTier`.  Without a `maxLen` the tier is unbounded. -/
structure PricingTier where
  maxLen : Option Int
  promptPrice : ℚ
  completionPrice : ℚ
  cacheReadPrice : ℚ
  cacheWritePrice : ℚ
deriving DecidableEq

/-- `PricingTier.Label`. -/
def PricingTier.label (t : PricingTier) : String :=
  match t.maxLen with
  | none => "∞"
  | some n => "<=" ++ toString n

/-- `pricing.ModelPricing`, as far as the tiers go. -/
structure ModelPricing where
  billingMode : String
  tiers : List PricingTier

/-- `IsTiered`. -/
def ModelPricing.isTiered (p : ModelPricing) : Bool :=
  p.billingMode == "tiered" && p.tiers.length > 0

/-- The order by which `SelectTier` sorts: `a` goes before `b`. -/
def PricingTier.less (a b : PricingTier) : Bool :=
  match a.maxLen, b.maxLen with
  | none, _ => false
  | some _, none => true
  | some m, some n => m < n

/-- The loop of `SelectTier` over the sorted tiers. -/
def scanTiers (lenTokens : Int) : List PricingTier → Option PricingTier → Option PricingTier
  | [], fallback => fallback
  | t :: tiers, fallback =>
      match t.maxLen with
      | none => scanTiers lenTokens tiers (if fallback = none then some t else fallback)
      | some n => if lenTokens ≤ n then some t else scanTiers lenTokens tiers fallback

/-- `SelectTier`. -/
def ModelPricing.selectTier (p : ModelPricing) (inputLen : Int) : Option PricingTier :=
  if p.isTiered then
    let tiers := p.tiers.insertionSort (fun a b => ¬ b.less a)
    let lenTokens := if inputLen < 0 then 0 else inputLen
    match scanTiers lenTokens tiers none with
    | some t => some t
    | none => tiers.getLast?
  else none

/-- `InputContextLength`. -/
def inputContextLength (promptTokens cacheReadTokens cacheCreationTokens : Int)
    (isClaude : Bool) : Int :=
  let total :=
    if isClaude then promptTokens + cacheReadTokens + cacheCreationTokens else promptTokens
  if total < 0 then 0 else total

/-- The prices of a tier, over those of the model.  The cache writes for five minutes
and for an hour get theirs from the price of the tier. -/
def Prices.ofTier (p : Prices) (t : PricingTier) : Prices :=
  { p with
    promptPrice := t.promptPrice
    completionPrice := t.completionPrice
    cacheReadPrice := t.cacheReadPrice
    cacheWritePrice := t.cacheWritePrice
    cacheWrite5mPrice := t.cacheWritePrice
    cacheWrite1hPrice := t.cacheWritePrice * (6 / 3.75) }

/-! ## The request -/

/-- `types.RelayFormat`; the empty one is `none` where it can occur. -/
inductive RelayFormat where
  | openAI
  | claude
  | gemini
  | openAIResponses
  | openAIResponsesCompaction
  | openAIAudio
  | openAIImage
  | openAIRealtime
  | rerank
  | embedding
  | task
  | mjProxy
deriving DecidableEq, Repr

/-- `BuildInToolInfo`. -/
structure BuildInToolInfo where
  callCount : Int
  searchContextSize : String

/-- `relaycommon.RelayInfo`, as far as the charge depends on it.  There is no
`channelType` without a `ChannelMeta`. -/
structure RelayInfo where
  originModelName : String
  startTime : Int
  relayFormat : Option RelayFormat
  finalRequestRelayFormat : Option RelayFormat
  requestConversionChain : List (Option RelayFormat)
  channelType : Option Int
  builtInTools : Option (String → Option BuildInToolInfo)
  priceData : PriceData

/-- `constant.ChannelTypeOpenRouter`. -/
def channelTypeOpenRouter : Int := 20

/-- `GetFinalRequestRelayFormat`. -/
def RelayInfo.getFinalRequestRelayFormat (info : RelayInfo) : Option RelayFormat :=
  match info.finalRequestRelayFormat, info.requestConversionChain.getLast? with
  | some format, _ => some format
  | none, some format => format
  | none, none => info.relayFormat

/-- What the handlers leave in the `gin.Context`. -/
structure Ctx where
  tokenName : String
  chatCompletionWebSearchContextSize : String
  claudeWebSearchRequests : Int
  imageGenerationCall : Bool
  imageGenerationCallQuality : String
  imageGenerationCallSize : String

/-- A request that called no tool. -/
def noTools : Ctx := ⟨"", "", 0, false, "", ""⟩

/-- The clock, the saved model prices, and what the conversion of a float that is no
`int` gives, which Go leaves open. -/
structure Env where
  now : Int
  getModelPricing : String → Option ModelPricing
  undefinedInt : Int

/-- No model has a saved price. -/
def noTiers : Env := ⟨0, fun _ => none, 0⟩

/-- `usageSemanticFromUsage`. -/
def usageSemanticFromUsage (info : RelayInfo) (usage : Option Usage) : String :=
  let fromFormat :=
    if info.getFinalRequestRelayFormat = some .claude then "anthropic" else "openai"
  match usage with
  | none => fromFormat
  | some u => if u.usageSemantic ≠ "" then u.usageSemantic else fromFormat

/-- `isLegacyClaudeDerivedOpenAIUsage`. -/
def isLegacyClaudeDerivedOpenAIUsage (info : RelayInfo) (u : Usage) : Bool :=
  if info.getFinalRequestRelayFormat = some .claude then false
  else if u.usageSource ≠ "" ∨ u.usageSemantic ≠ "" then false
  else u.claudeCacheCreation5mTokens > 0 || u.claudeCacheCreation1hTokens > 0

/-- `CalcOpenRouterCacheCreateTokens`. -/
def calcOpenRouterCacheCreateTokens (env : Env) (u : Usage) (pd : PriceData) : Int :=
  let p := pd.prices
  if p.cacheWritePrice = 0 then 0
  else
    let cost := match u.cost with
      | .float cost => cost
      | _ => 0
    if p.cacheWritePrice - p.promptPrice = 0 then env.undefinedInt
    else
      Rounding.trunc ((cost * 1000000 - u.promptTokens * p.promptPrice +
        u.promptTokensDetails.cachedTokens * p.cacheReadPrice -
        u.completionTokens * p.completionPrice) / (p.cacheWritePrice - p.promptPrice))

/-! ## Tools -/

/-- A charge for the calls of a tool, with the count and the price that the summary
records. -/
structure ToolCharge where
  callCount : Int
  price : ℚ
  charge : ℚ

instance : Zero ToolCharge := ⟨⟨0, 0, 0⟩⟩

/-- `pricing.MicrodollarsPerDollar`. -/
def microdollarsPerDollar : ℚ := 1000000

/-- `decimal.Decimal.Div`. -/
def decimalDiv (x y : ℚ) : ℚ := Rounding.divRound 16 x y

/-- `GetWebSearchPricePerThousand`.  The context size no longer matters. -/
def getWebSearchPricePerThousand (modelName _contextSize : String) : ℚ :=
  if "o3".toList.isPrefixOf modelName.toList ∨ "o4".toList.isPrefixOf modelName.toList ∨
      "gpt-5".toList.isPrefixOf modelName.toList then 10
  else 25

/-- `GetClaudeWebSearchPricePerThousand`. -/
def getClaudeWebSearchPricePerThousand : ℚ := 10

/-- `GetFileSearchPricePerThousand`. -/
def getFileSearchPricePerThousand : ℚ := 2.5

/-- `GetGPTImage1PriceOnceCall`. -/
def getGPTImage1PriceOnceCall (quality size : String) : ℚ :=
  match quality, size with
  | "low", "1024x1024" => 0.011
  | "low", "1024x1536" => 0.016
  | "low", "1536x1024" => 0.016
  | "medium", "1024x1024" => 0.042
  | "medium", "1024x1536" => 0.063
  | "medium", "1536x1024" => 0.063
  | "high", "1024x1024" => 0.167
  | "high", "1024x1536" => 0.25
  | "high", "1536x1024" => 0.25
  | _, _ => 0.167

/-- Web searches: those of the Responses API, or the one of a search model. -/
def webSearch (ctx : Ctx) (info : RelayInfo) (groupDiscount : ℚ) : ToolCharge :=
  match info.builtInTools with
  | some tools =>
      match tools "web_search_preview" with
      | some tool =>
          if tool.callCount > 0 then
            let price := getWebSearchPricePerThousand info.originModelName tool.searchContextSize
            ⟨tool.callCount, price,
              decimalDiv (price * tool.callCount * microdollarsPerDollar) 1000 * groupDiscount⟩
          else 0
      | none => 0
  | none =>
      if "search-preview".toList.isSuffixOf info.originModelName.toList then
        let searchContextSize :=
          if ctx.chatCompletionWebSearchContextSize = "" then "medium"
          else ctx.chatCompletionWebSearchContextSize
        let price := getWebSearchPricePerThousand info.originModelName searchContextSize
        ⟨1, price, decimalDiv (price * microdollarsPerDollar) 1000 * groupDiscount⟩
      else 0

/-- Web searches of Claude.  The count is recorded also when it is not charged. -/
def claudeWebSearch (ctx : Ctx) (groupDiscount : ℚ) : ToolCharge :=
  let callCount := ctx.claudeWebSearchRequests
  if callCount > 0 then
    let price := getClaudeWebSearchPricePerThousand
    ⟨callCount, price,
      decimalDiv (price * microdollarsPerDollar) 1000 * groupDiscount * callCount⟩
  else ⟨callCount, 0, 0⟩

/-- File searches of the Responses API. -/
def fileSearch (info : RelayInfo) (groupDiscount : ℚ) : ToolCharge :=
  match info.builtInTools with
  | some tools =>
      match tools "file_search" with
      | some tool =>
          if tool.callCount > 0 then
            let price := getFileSearchPricePerThousand
            ⟨tool.callCount, price,
              decimalDiv (price * tool.callCount * microdollarsPerDollar) 1000 * groupDiscount⟩
          else 0
      | none => 0
  | none => 0

/-- The call of the image generation. -/
def imageGenerationCall (ctx : Ctx) (groupDiscount : ℚ) : ToolCharge :=
  if ctx.imageGenerationCall then
    let price :=
      getGPTImage1PriceOnceCall ctx.imageGenerationCallQuality ctx.imageGenerationCallSize
    ⟨1, price, price * microdollarsPerDollar * groupDiscount⟩
  else 0

/-! ## The summary -/

/-- `textQuotaSummary`. -/
structure TextQuotaSummary where
  promptTokens : Int
  completionTokens : Int
  totalTokens : Int
  cacheTokens : Int
  cacheCreationTokens : Int
  cacheCreationTokens5m : Int
  cacheCreationTokens1h : Int
  imageTokens : Int
  audioTokens : Int
  modelName : String
  tokenName : String
  useTimeSeconds : Int
  prices : Prices
  groupDiscount : ℚ
  perCallPrice : ℚ
  usePerCallPricing : Bool
  quotaMicrodollars : Int
  isClaudeUsageSemantic : Bool
  usageSemantic : String
  webSearchPrice : ℚ
  webSearchCallCount : Int
  claudeWebSearchPrice : ℚ
  claudeWebSearchCallCount : Int
  fileSearchPrice : ℚ
  fileSearchCallCount : Int
  imageGenerationCallPrice : ℚ

/-- The summary before anything is computed, from the normalised usage. -/
def initialSummary (env : Env) (ctx : Ctx) (info : RelayInfo) (usageSemantic : String)
    (u : Usage) : TextQuotaSummary where
  promptTokens := u.promptTokens
  completionTokens := u.completionTokens
  totalTokens := u.promptTokens + u.completionTokens
  cacheTokens := u.promptTokensDetails.cachedTokens
  cacheCreationTokens := u.promptTokensDetails.cachedCreationTokens
  cacheCreationTokens5m := u.claudeCacheCreation5mTokens
  cacheCreationTokens1h := u.claudeCacheCreation1hTokens
  imageTokens := u.promptTokensDetails.imageTokens
  audioTokens := u.promptTokensDetails.audioTokens
  modelName := info.originModelName
  tokenName := ctx.tokenName
  useTimeSeconds := env.now - info.startTime
  prices := info.priceData.prices
  groupDiscount := info.priceData.groupDiscount
  perCallPrice := info.priceData.perCallPrice
  usePerCallPricing := info.priceData.usePerCallPricing
  quotaMicrodollars := 0
  isClaudeUsageSemantic := usageSemantic == "anthropic"
  usageSemantic := usageSemantic
  webSearchPrice := 0
  webSearchCallCount := 0
  claudeWebSearchPrice := 0
  claudeWebSearchCallCount := 0
  fileSearchPrice := 0
  fileSearchCallCount := 0
  imageGenerationCallPrice := 0

/-- The tier that an input of this length falls in, for a model with tiers. -/
def tierFor (env : Env) (info : RelayInfo) (inputLen : Int) : Option PricingTier :=
  if info.priceData.useTieredPricing then
    match env.getModelPricing info.originModelName with
    | some modelPricing =>
        if modelPricing.isTiered then modelPricing.selectTier inputLen else none
    | none => none
  else none

/-- The price data with the prices of the selected tier. -/
def PriceData.withTier (pd : PriceData) : Option PricingTier → PriceData
  | none => pd
  | some t => { pd with prices := pd.prices.ofTier t, matchedTier := t.label }

/-- The cache writes of a usage from OpenRouter: where they are not reported they are
guessed from the cost. -/
def openRouterCacheCreationTokens (env : Env) (pd : PriceData) (u : Usage)
    (promptTokens cacheCreationTokens : Int) : Int :=
  if cacheCreationTokens = 0 ∧ pd.prices.cacheWritePrice ≠ 0 ∧ u.cost ≠ .int 0 ∧
      pd.usePerCallPricing = false then
    let maybeCacheCreationTokens := calcOpenRouterCacheCreateTokens env u pd
    if maybeCacheCreationTokens ≥ 0 ∧ promptTokens ≥ maybeCacheCreationTokens then
      maybeCacheCreationTokens
    else cacheCreationTokens
  else cacheCreationTokens

/-- The billing of Claude through OpenRouter: the prompt of its usage includes the
cache. -/
def splitOpenRouterPrompt (env : Env) (pd : PriceData) (u : Usage) (s : TextQuotaSummary) :
    TextQuotaSummary :=
  let promptTokens := s.promptTokens - s.cacheTokens
  let cacheCreationTokens :=
    openRouterCacheCreationTokens env pd u promptTokens s.cacheCreationTokens
  { s with
    cacheCreationTokens := cacheCreationTokens
    promptTokens := promptTokens - cacheCreationTokens }

/-- Whether the cache tokens are taken out of the prompt. -/
def takesOutCache (legacyClaudeDerived : Bool) (s : TextQuotaSummary) : Bool :=
  !s.isClaudeUsageSemantic && !legacyClaudeDerived

/-! The blocks of the cost: each takes the tokens that are left at the prompt price, and
gives those that are left after it and what its own tokens cost. -/

/-- The cache reads. -/
def cacheReadCost (legacyClaudeDerived : Bool) (s : TextQuotaSummary) (baseTokens : ℚ) : ℚ × ℚ :=
  if s.cacheTokens ≠ 0 then
    (if takesOutCache legacyClaudeDerived s then baseTokens - s.cacheTokens else baseTokens,
      s.cacheTokens * s.prices.cacheReadPrice)
  else (baseTokens, 0)

/-- The cache writes. -/
def cacheWriteCost (legacyClaudeDerived : Bool) (s : TextQuotaSummary) (baseTokens : ℚ) : ℚ × ℚ :=
  let hasSplitCacheCreationTokens := s.cacheCreationTokens5m > 0 ∨ s.cacheCreationTokens1h > 0
  if s.cacheCreationTokens ≠ 0 ∨ hasSplitCacheCreationTokens then
    if takesOutCache legacyClaudeDerived s then
      (baseTokens - s.cacheCreationTokens, s.cacheCreationTokens * s.prices.cacheWritePrice)
    else
      let remaining := s.cacheCreationTokens - s.cacheCreationTokens5m - s.cacheCreationTokens1h
      let remaining := if remaining < 0 then 0 else remaining
      (baseTokens, remaining * s.prices.cacheWritePrice +
        s.cacheCreationTokens5m * s.prices.cacheWrite5mPrice +
        s.cacheCreationTokens1h * s.prices.cacheWrite1hPrice)
  else (baseTokens, 0)

/-- The images. -/
def imageCost (s : TextQuotaSummary) (baseTokens : ℚ) : ℚ × ℚ :=
  if s.imageTokens ≠ 0 then (baseTokens - s.imageTokens, s.imageTokens * s.prices.imagePrice)
  else (baseTokens, 0)

/-- The audio input.  Its price for a token is divided once more by a million. -/
def audioInputCost (s : TextQuotaSummary) (baseTokens : ℚ) : ℚ × ℚ :=
  if s.audioTokens ≠ 0 ∧ s.prices.audioInputPrice > 0 then
    (baseTokens - s.audioTokens, decimalDiv (s.audioTokens * s.prices.audioInputPrice) 1000000)
  else (baseTokens, 0)

/-- The cost of the tokens, before the discount. -/
def tokenCost (legacyClaudeDerived : Bool) (s : TextQuotaSummary) : ℚ :=
  let (baseTokens, cachedTokensCost) := cacheReadCost legacyClaudeDerived s s.promptTokens
  let (baseTokens, cacheWriteCost) := cacheWriteCost legacyClaudeDerived s baseTokens
  let (baseTokens, imageCost) := imageCost s baseTokens
  let (baseTokens, audioInputCost) := audioInputCost s baseTokens
  let promptCost := baseTokens * s.prices.promptPrice
  let completionCost := s.completionTokens * s.prices.completionPrice
  promptCost + completionCost + cachedTokensCost + cacheWriteCost + imageCost + audioInputCost

/-- The rounded amount: `cost` with its discount, the tools, and the other discounts. -/
def roundedTotal (pd : PriceData) (cost groupDiscount tools : ℚ) : Int :=
  Rounding.halfAway
    (pd.otherDiscounts.foldl (fun total discount => total * discount)
      (cost * groupDiscount + tools))

/-- `calculateTextQuotaSummary`: the summary, and the request with the tier that its
input fell in. -/
def calculateTextQuotaSummary (env : Env) (ctx : Ctx) (info : RelayInfo)
    (usage : Option Usage) : TextQuotaSummary × RelayInfo :=
  let priceData := info.priceData
  let usageSemantic := usageSemanticFromUsage info usage
  let billedByUpstream := validUsage usage
  let u := (usage.getD 0).normalizeInputTokenDetails
  let s := initialSummary env ctx info usageSemantic u
  let tier := tierFor env info
    (inputContextLength s.promptTokens s.cacheTokens s.cacheCreationTokens
      s.isClaudeUsageSemantic)
  let info := { info with priceData := priceData.withTier tier }
  let s := { s with prices := info.priceData.prices }
  let legacyClaudeDerived := isLegacyClaudeDerivedOpenAIUsage info u
  let isOpenRouterClaudeBilling :=
    info.channelType = some channelTypeOpenRouter ∧ s.isClaudeUsageSemantic
  let s := if isOpenRouterClaudeBilling then splitOpenRouterPrompt env priceData u s else s
  let web := webSearch ctx info s.groupDiscount
  let claudeWeb := claudeWebSearch ctx s.groupDiscount
  let file := fileSearch info s.groupDiscount
  let image := imageGenerationCall ctx s.groupDiscount
  let cost :=
    if s.usePerCallPricing then s.perCallPrice * microdollarsPerDollar
    else tokenCost legacyClaudeDerived s
  let quota := roundedTotal priceData cost s.groupDiscount
    (web.charge + claudeWeb.charge + file.charge + image.charge)
  ({ s with
      webSearchPrice := web.price
      webSearchCallCount := web.callCount
      claudeWebSearchPrice := claudeWeb.price
      claudeWebSearchCallCount := claudeWeb.callCount
      fileSearchPrice := file.price
      fileSearchCallCount := file.callCount
      imageGenerationCallPrice := image.price
      quotaMicrodollars :=
        if !billedByUpstream || s.totalTokens == 0 then 0 else quota }, info)

end DazeApi.Quota
