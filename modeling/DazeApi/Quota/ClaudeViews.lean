import DazeApi.Quota.Classes

/-!
# Two views of a Claude usage

`buildOpenAIStyleUsageFromClaudeUsage` (`relay/channel/claude/relay-claude.go`) and the
charges for a Claude usage as it comes and as it is shown to an OpenAI client.  The
second view adds to the prompt the larger of the total of the cache writes and its two
parts, and the charge takes only the total out of it again.
-/

namespace DazeApi.Quota

/-! ## The conversion -/

/-- `cacheCreationTokensForOpenAIUsage`. -/
def cacheCreationTokensForOpenAIUsage : Option Usage → Int
  | none => 0
  | some u =>
      let splitCacheCreationTokens :=
        u.claudeCacheCreation5mTokens + u.claudeCacheCreation1hTokens
      if splitCacheCreationTokens = 0 then u.promptTokensDetails.cachedCreationTokens
      else if u.promptTokensDetails.cachedCreationTokens > splitCacheCreationTokens then
        u.promptTokensDetails.cachedCreationTokens
      else splitCacheCreationTokens

/-- `buildOpenAIStyleUsageFromClaudeUsage`. -/
def buildOpenAIStyleUsageFromClaudeUsage : Option Usage → Usage
  | none => 0
  | some u =>
      let cacheCreationTokens := cacheCreationTokensForOpenAIUsage (some u)
      let totalInputTokens :=
        u.promptTokens + u.promptTokensDetails.cachedTokens + cacheCreationTokens
      { u with
        promptTokens := totalInputTokens
        inputTokens := totalInputTokens
        totalTokens := totalInputTokens + u.completionTokens
        usageSemantic := "openai"
        usageSource := "anthropic" }

/-- The counts of a usage of Claude. -/
structure ClaudeCounts where
  prompt : Nat
  cached : Nat
  creation : Nat
  w5m : Nat
  w1h : Nat
  completion : Nat

namespace ClaudeCounts

/-- The usage as the Claude handlers fill it in. -/
def usage (c : ClaudeCounts) : Usage where
  promptTokens := c.prompt
  completionTokens := c.completion
  totalTokens := c.prompt + c.completion
  inputTokens := 0
  usageSemantic := "anthropic"
  usageSource := ""
  promptTokensDetails := ⟨c.cached, c.creation, 0, 0, 0, 0⟩
  inputTokensDetails := none
  claudeCacheCreation5mTokens := c.w5m
  claudeCacheCreation1hTokens := c.w1h
  cost := .absent

/-- The same usage for an OpenAI client. -/
def openAIUsage (c : ClaudeCounts) : Usage :=
  buildOpenAIStyleUsageFromClaudeUsage (some c.usage)

/-- The cache writes: the larger of the total and its parts. -/
def writes (c : ClaudeCounts) : Nat := max c.creation (c.w5m + c.w1h)

variable (c : ClaudeCounts)

theorem cacheCreationTokensForOpenAIUsage_usage :
    cacheCreationTokensForOpenAIUsage (some c.usage) = c.writes := by
  simp only [cacheCreationTokensForOpenAIUsage, usage, writes]
  split_ifs <;> omega

@[simp] theorem openAIUsage_promptTokens :
    c.openAIUsage.promptTokens = c.prompt + c.cached + c.writes := by
  simp only [openAIUsage, buildOpenAIStyleUsageFromClaudeUsage,
    cacheCreationTokensForOpenAIUsage_usage]
  rfl

/-- The cache writes of the details, in both of the fields. -/
theorem normalizeCacheWrite_details :
    c.usage.promptTokensDetails.normalizeCacheWrite = ⟨c.cached, c.creation, c.creation, 0, 0, 0⟩ := by
  by_cases h0 : c.creation = 0
  · simp [InputTokenDetails.normalizeCacheWrite, usage, h0]
  · have hcreation : 0 < c.creation := Nat.pos_of_ne_zero h0
    simp [InputTokenDetails.normalizeCacheWrite, usage, hcreation]

theorem normalize_usage_details :
    c.usage.normalizeInputTokenDetails.promptTokensDetails =
      ⟨c.cached, c.creation, c.creation, 0, 0, 0⟩ :=
  c.normalizeCacheWrite_details

theorem normalize_openAIUsage_details :
    c.openAIUsage.normalizeInputTokenDetails.promptTokensDetails =
      ⟨c.cached, c.creation, c.creation, 0, 0, 0⟩ :=
  c.normalizeCacheWrite_details

@[simp] theorem usage_promptTokens : c.usage.promptTokens = c.prompt := rfl

@[simp] theorem usage_completionTokens : c.usage.completionTokens = c.completion := rfl

@[simp] theorem usage_w5m : c.usage.claudeCacheCreation5mTokens = c.w5m := rfl

@[simp] theorem usage_w1h : c.usage.claudeCacheCreation1hTokens = c.w1h := rfl

@[simp] theorem openAIUsage_completionTokens : c.openAIUsage.completionTokens = c.completion := rfl

@[simp] theorem openAIUsage_w5m : c.openAIUsage.claudeCacheCreation5mTokens = c.w5m := rfl

@[simp] theorem openAIUsage_w1h : c.openAIUsage.claudeCacheCreation1hTokens = c.w1h := rfl

/-- The cost of the tokens as Claude counts them. -/
def cost (p : Prices) : ℚ :=
  c.prompt * p.promptPrice + c.completion * p.completionPrice + c.cached * p.cacheReadPrice +
    splitWriteCost p c.creation c.w5m c.w1h

/-- What the second view charges more: the cache writes beyond the total cost what a prompt
token costs, and no part has a price of its own. -/
def viewShift (p : Prices) : ℚ :=
  (c.writes - c.creation) * (p.promptPrice - p.cacheWritePrice) +
    c.w5m * (p.cacheWritePrice - p.cacheWrite5mPrice) +
    c.w1h * (p.cacheWritePrice - p.cacheWrite1hPrice)

/-- With one price for the cache writes only those beyond the total are charged
differently. -/
theorem viewShift_of_equal_prices {p : Prices} (h5m : p.cacheWrite5mPrice = p.cacheWritePrice)
    (h1h : p.cacheWrite1hPrice = p.cacheWritePrice) :
    c.viewShift p = (c.writes - c.creation) * (p.promptPrice - p.cacheWritePrice) := by
  rw [viewShift, h5m, h1h]
  ring

/-- Without a split nothing is charged differently. -/
theorem viewShift_of_no_split (p : Prices) (h5m : c.w5m = 0) (h1h : c.w1h = 0) :
    c.viewShift p = 0 := by
  simp [viewShift, writes, h5m, h1h]

variable (env : Env) (ctx : Ctx) (info : RelayInfo)

@[simp] theorem isClaudeUsage_usage : isClaudeUsage info c.usage = true := by
  simp [isClaudeUsage, usageSemanticFromUsage, usage]

@[simp] theorem isClaudeUsage_openAIUsage : isClaudeUsage info c.openAIUsage = false := by
  simp [isClaudeUsage, usageSemanticFromUsage, openAIUsage, buildOpenAIStyleUsageFromClaudeUsage]

/-- What Claude counts costs what its classes cost. -/
theorem usageCost_usage :
    usageCost env info c.usage = c.cost (chargedPrices env info c.usage) := by
  rw [usageCost, classCost_classes, normalize_usage_details]
  simp [cost, cachePart]

theorem splitWriteCost_eq (p : Prices) :
    splitWriteCost p c.creation c.w5m c.w1h =
      (c.writes - (c.w5m + c.w1h)) * p.cacheWritePrice + c.w5m * p.cacheWrite5mPrice +
        c.w1h * p.cacheWrite1hPrice := by
  have hrest : max ((c.creation : Int) - c.w5m - c.w1h) 0 = c.writes - (c.w5m + c.w1h) := by
    unfold writes
    omega
  rw [splitWriteCost, hrest]
  push_cast
  rfl

/-- The second view has the same classes but for the prompt and the cache writes. -/
theorem usageCost_openAIUsage :
    usageCost env info c.openAIUsage =
      c.cost (chargedPrices env info c.openAIUsage) +
        c.viewShift (chargedPrices env info c.openAIUsage) := by
  rw [usageCost, classCost_classes, normalize_openAIUsage_details, cost, viewShift,
    splitWriteCost_eq]
  simp [cachePart]
  ring

/-- Nothing else is charged for the second view. -/
theorem excess_openAIUsage : excess env info c.openAIUsage = 0 := by
  refine excess_eq_zero env ?_ ?_ (Or.inl ?_)
  · unfold isLegacyClaudeDerivedOpenAIUsage
    simp [openAIUsage, buildOpenAIStyleUsageFromClaudeUsage]
  · rw [isOpenRouterClaudeUsage_normalize]
    simp [isOpenRouterClaudeUsage]
  · rw [normalize_openAIUsage_details]

/-- What OpenRouter's billing takes out of the first view. -/
def openRouterMoved (p : Prices) : ℚ :=
  openRouterExcess env info p c.usage.normalizeInputTokenDetails

theorem excess_usage :
    excess env info c.usage = c.openRouterMoved env info (chargedPrices env info c.usage) := by
  have hlegacy : isLegacyClaudeDerivedOpenAIUsage info c.usage.normalizeInputTokenDetails = false :=
    not_legacy_of_isClaudeUsage (by rw [isClaudeUsage_normalize, isClaudeUsage_usage])
  have haudio : audioExcess (chargedPrices env info c.usage) c.usage.normalizeInputTokenDetails = 0 :=
    audioExcess_eq_zero (Or.inl (by rw [normalize_usage_details]))
  simp only [excess, legacyExcess, hlegacy, haudio, openRouterMoved, Bool.false_eq_true, if_false,
    zero_add, add_zero]

end ClaudeCounts

/-! ## The two charges -/

/-- The rounded charge for tokens of this cost. -/
def chargeFor (ctx : Ctx) (info : RelayInfo) (cost : ℚ) : Int :=
  roundedTotal info.priceData
    (if info.priceData.usePerCallPricing then info.priceData.perCallPrice * microdollarsPerDollar
      else cost)
    info.priceData.groupDiscount (toolCharges ctx info)

/-- Both views fall in the same tier and are charged the same. -/
def ViewsAgree (env : Env) (ctx : Ctx) (info : RelayInfo) (c : ClaudeCounts) : Prop :=
  let anthropic := calculateTextQuotaSummary env ctx info (some c.usage)
  let openAI := calculateTextQuotaSummary env ctx info (some c.openAIUsage)
  anthropic.2.priceData = openAI.2.priceData ∧
    anthropic.1.quotaMicrodollars = openAI.1.quotaMicrodollars

section

variable (env : Env) (ctx : Ctx) (info : RelayInfo) (c : ClaudeCounts)

/-- The tier of the first view is selected by the total of the cache writes, that of the
second by the larger of the total and its parts. -/
theorem inputLength_usage : inputLength info c.usage = c.prompt + c.cached + c.creation := by
  rw [inputLength, c.isClaudeUsage_usage, c.normalize_usage_details]
  simp only [inputContextLength, normalize_promptTokens, ClaudeCounts.usage_promptTokens, if_true]
  rw [if_neg (by omega)]

theorem inputLength_openAIUsage :
    inputLength info c.openAIUsage = c.prompt + c.cached + c.writes := by
  rw [inputLength, c.isClaudeUsage_openAIUsage, c.normalize_openAIUsage_details]
  simp only [inputContextLength, normalize_promptTokens, ClaudeCounts.openAIUsage_promptTokens,
    Bool.false_eq_true, if_false]
  rw [if_neg (by omega)]

/-- The prices that the request is left with. -/
theorem calculateTextQuotaSummary_priceData (u : Usage) :
    (calculateTextQuotaSummary env ctx info (some u)).2.priceData =
      info.priceData.withTier (tierFor env info (inputLength info u)) := by
  simp only [calculateTextQuotaSummary, inputLength]
  rfl

/-- A view without tokens is not charged. -/
theorem quota_usage :
    (calculateTextQuotaSummary env ctx info (some c.usage)).1.quotaMicrodollars =
      if c.prompt + c.completion = 0 then 0
      else
        chargeFor ctx info
          (c.cost (chargedPrices env info c.usage) +
            c.openRouterMoved env info (chargedPrices env info c.usage)) := by
  have hzero : c.usage.promptTokens + c.usage.completionTokens = 0 ↔
      c.prompt + c.completion = 0 := by
    simp only [ClaudeCounts.usage_promptTokens, ClaudeCounts.usage_completionTokens]
    omega
  rw [calculateTextQuotaSummary_quota, tokenCost_chargedSummary env ctx info c.usage (by simp)
    (by simp), c.usageCost_usage, c.excess_usage]
  simp only [hzero, chargeFor]

theorem quota_openAIUsage :
    (calculateTextQuotaSummary env ctx info (some c.openAIUsage)).1.quotaMicrodollars =
      if c.prompt + c.cached + c.writes + c.completion = 0 then 0
      else
        chargeFor ctx info
          (c.cost (chargedPrices env info c.openAIUsage) +
            c.viewShift (chargedPrices env info c.openAIUsage)) := by
  have hzero : c.openAIUsage.promptTokens + c.openAIUsage.completionTokens = 0 ↔
      c.prompt + c.cached + c.writes + c.completion = 0 := by
    simp only [ClaudeCounts.openAIUsage_promptTokens, ClaudeCounts.openAIUsage_completionTokens]
    omega
  rw [calculateTextQuotaSummary_quota, tokenCost_chargedSummary env ctx info c.openAIUsage
    (by simp) (by simp), c.usageCost_openAIUsage, c.excess_openAIUsage, add_zero]
  simp only [hzero, chargeFor]

/-- The two views are charged the same exactly when the input with the total of the cache
writes and the one with the larger of the total and its parts fall in the same tier, and
neither what the second view shifts nor what OpenRouter's billing moves changes the rounded
charge; a usage of the cache alone is charged nothing in the first view. -/
theorem viewsAgree_iff :
    ViewsAgree env ctx info c ↔
      info.priceData.withTier (tierFor env info (c.prompt + c.cached + c.creation)) =
          info.priceData.withTier (tierFor env info (c.prompt + c.cached + c.writes)) ∧
        let p := (info.priceData.withTier
          (tierFor env info (c.prompt + c.cached + c.creation))).prices
        if c.prompt + c.completion = 0 then
          c.cached + c.writes = 0 ∨ chargeFor ctx info (c.cost p + c.viewShift p) = 0
        else
          chargeFor ctx info (c.cost p + c.openRouterMoved env info p) =
            chargeFor ctx info (c.cost p + c.viewShift p) := by
  unfold ViewsAgree
  simp only [calculateTextQuotaSummary_priceData, quota_usage, quota_openAIUsage, chargedPrices,
    inputLength_usage, inputLength_openAIUsage]
  refine and_congr_right fun htier => ?_
  rw [← htier]
  by_cases hzero : c.prompt + c.completion = 0
  · have htotal : c.prompt + c.cached + c.writes + c.completion = 0 ↔
        c.cached + c.writes = 0 := by omega
    simp only [if_pos hzero, htotal]
    split
    · next h => exact ⟨fun _ => Or.inl h, fun _ => rfl⟩
    · next h => exact ⟨fun heq => Or.inr heq.symm, fun hor => (hor.resolve_left h).symm⟩
  · rw [if_neg hzero, if_neg hzero, if_neg (by omega)]

end

/-! ## Cache writes beyond the total -/

/-- A model with one price for the cache writes. -/
def claudePrices : PriceData where
  prices := ⟨1, 5, 0.1, 1.25, 1.25, 1.25, 0, 0⟩
  perCallPrice := 0
  usePerCallPricing := false
  useTieredPricing := false
  matchedTier := ""
  groupDiscount := 1
  otherDiscounts := []

/-- A chat request on a Claude channel. -/
def claudeRequest : RelayInfo where
  originModelName := "claude-3-7-sonnet"
  startTime := 0
  relayFormat := some .openAI
  finalRequestRelayFormat := some .claude
  requestConversionChain := []
  channelType := some 14
  builtInTools := none
  priceData := claudePrices

/-- Five minute writes that the upstream did not add up. -/
def unsummedWrites : ClaudeCounts where
  prompt := 62
  cached := 3544
  creation := 0
  w5m := 586
  w1h := 0
  completion := 95

/-- The writes beyond the total cost 1.25 each in one view and 1 in the other. -/
theorem not_viewsAgree_unsummedWrites :
    claudePrices.prices.cacheWrite5mPrice = claudePrices.prices.cacheWritePrice ∧
      claudePrices.prices.cacheWrite1hPrice = claudePrices.prices.cacheWritePrice ∧
      (calculateTextQuotaSummary noTiers noTools claudeRequest
        (some unsummedWrites.usage)).1.quotaMicrodollars = 1624 ∧
      (calculateTextQuotaSummary noTiers noTools claudeRequest
        (some unsummedWrites.openAIUsage)).1.quotaMicrodollars = 1477 ∧
      ¬ ViewsAgree noTiers noTools claudeRequest unsummedWrites := by
  have hanthropic : (calculateTextQuotaSummary noTiers noTools claudeRequest
      (some unsummedWrites.usage)).1.quotaMicrodollars = 1624 := by decide +kernel
  have hopenAI : (calculateTextQuotaSummary noTiers noTools claudeRequest
      (some unsummedWrites.openAIUsage)).1.quotaMicrodollars = 1477 := by decide +kernel
  refine ⟨rfl, rfl, hanthropic, hopenAI, ?_⟩
  rintro ⟨-, hquota⟩
  rw [hanthropic, hopenAI] at hquota
  exact absurd hquota (by decide)

end DazeApi.Quota
