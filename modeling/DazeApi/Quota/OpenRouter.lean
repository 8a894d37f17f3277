import DazeApi.Quota.ClaudeViews

/-!
# The cache writes of OpenRouter

OpenRouter reports what a request cost, but not how many tokens were written to the
cache.  `CalcOpenRouterCacheCreateTokens` solves the price formula for them.  It adds the
cost of the cache reads where it has to leave them out, with their share of the prompt,
so what it finds is off by `readError`.
-/

namespace DazeApi.Quota

/-- What OpenRouter charges for a prompt of which `cached` tokens were read from the cache
and `written` tokens were written to it, in microdollars. -/
def openRouterCost (p : Prices) (prompt cached written completion : Int) : ℚ :=
  (prompt - cached - written) * p.promptPrice + cached * p.cacheReadPrice +
    written * p.cacheWritePrice + completion * p.completionPrice

/-- A usage with the cost of `written` tokens that were written to the cache. -/
structure PricedAt (p : Prices) (u : Usage) (written : Int) (cost : ℚ) : Prop where
  reported : u.cost = .float cost
  formula : cost * 1000000 =
    openRouterCost p u.promptTokens u.promptTokensDetails.cachedTokens written u.completionTokens
  cached_nonneg : 0 ≤ u.promptTokensDetails.cachedTokens
  written_nonneg : 0 ≤ written
  completion_nonneg : 0 ≤ u.completionTokens
  parts : u.promptTokensDetails.cachedTokens + written ≤ u.promptTokens

/-- A request to a Claude model through OpenRouter, billed by the token at the prices of
the request, with a usage that reports neither cache writes nor images nor audio. -/
structure OpenRouterRequest (env : Env) (info : RelayInfo) (u : Usage) : Prop where
  openRouter : isOpenRouterClaudeUsage info u
  byToken : info.priceData.usePerCallPricing = false
  prices : chargedPrices env info u = info.priceData.prices
  creation : u.normalizeInputTokenDetails.promptTokensDetails.cachedCreationTokens = 0
  w5m : u.claudeCacheCreation5mTokens = 0
  w1h : u.claudeCacheCreation1hTokens = 0
  image : u.normalizeInputTokenDetails.promptTokensDetails.imageTokens = 0
  audio : u.normalizeInputTokenDetails.promptTokensDetails.audioTokens = 0

/-- The requests with this usage are charged its cost, with the discounts and the tools. -/
def ChargesCost (env : Env) (pd : PriceData) (n : Usage) (cost : ℚ) : Prop :=
  ∀ ctx info u, info.priceData = pd → u.normalizeInputTokenDetails = n →
    OpenRouterRequest env info u →
      (calculateTextQuotaSummary env ctx info (some u)).1.quotaMicrodollars =
        if u.promptTokens + u.completionTokens = 0 then 0
        else roundedTotal pd (cost * 1000000) pd.groupDiscount (toolCharges ctx info)

/-- The price formula is inverted: the tokens that were written are found, and the cost is
charged.  Where cache writes cost as much as the prompt, nothing is divided by zero: what
is found does not depend on what the conversion of an infinite float gives. -/
def InvertsFormula (env : Env) (pd : PriceData) (n : Usage) (written : Int) (cost : ℚ) : Prop :=
  (pd.prices.cacheWritePrice ≠ pd.prices.promptPrice →
    calcOpenRouterCacheCreateTokens env n pd = written ∧ ChargesCost env pd n cost) ∧
  (pd.prices.cacheWritePrice = pd.prices.promptPrice →
    ∀ x, calcOpenRouterCacheCreateTokens { env with undefinedInt := x } n pd =
      calcOpenRouterCacheCreateTokens env n pd)

/-- What the cache reads add to the number of the cache writes. -/
def readError (p : Prices) (cached : Int) : ℚ :=
  cached * (2 * p.cacheReadPrice - p.promptPrice) / (p.cacheWritePrice - p.promptPrice)

/-- The prices and the cache reads that do not disturb the number of the cache writes. -/
def ReadsCancel (p : Prices) (cached written : Int) : Prop :=
  if p.cacheWritePrice = 0 then written = 0
  else if written = 0 then |readError p cached| < 1
  else 0 ≤ readError p cached ∧ readError p cached < 1

instance (p : Prices) (cached written : Int) : Decidable (ReadsCancel p cached written) :=
  inferInstanceAs (Decidable (if p.cacheWritePrice = 0 then written = 0
    else if written = 0 then |readError p cached| < 1
    else 0 ≤ readError p cached ∧ readError p cached < 1))

/-! ## What the function finds -/

section

variable {env : Env} {pd : PriceData} {n : Usage} {written : Int} {cost : ℚ}

theorem calcOpenRouterCacheCreateTokens_of_zero (hw : pd.prices.cacheWritePrice = 0) :
    calcOpenRouterCacheCreateTokens env n pd = 0 := by
  rw [calcOpenRouterCacheCreateTokens, if_pos hw]

theorem calcOpenRouterCacheCreateTokens_of_eq (hw : pd.prices.cacheWritePrice ≠ 0)
    (hwp : pd.prices.cacheWritePrice = pd.prices.promptPrice) :
    calcOpenRouterCacheCreateTokens env n pd = env.undefinedInt := by
  rw [calcOpenRouterCacheCreateTokens, if_neg hw, if_pos (sub_eq_zero.2 hwp)]

theorem calcOpenRouterCacheCreateTokens_eq (h : PricedAt pd.prices n written cost)
    (hw : pd.prices.cacheWritePrice ≠ 0)
    (hwp : pd.prices.cacheWritePrice ≠ pd.prices.promptPrice) :
    calcOpenRouterCacheCreateTokens env n pd =
      Rounding.trunc (written + readError pd.prices n.promptTokensDetails.cachedTokens) := by
  have hd : pd.prices.cacheWritePrice - pd.prices.promptPrice ≠ 0 := sub_ne_zero.2 hwp
  rw [calcOpenRouterCacheCreateTokens, if_neg hw, if_neg hd, h.reported]
  congr 1
  have hformula := h.formula
  rw [openRouterCost] at hformula
  rw [readError]
  field_simp
  linear_combination hformula

variable (env) in
/-- The tokens that were written are found exactly if the cache reads cancel out. -/
theorem calcOpenRouterCacheCreateTokens_eq_iff (h : PricedAt pd.prices n written cost)
    (hwp : pd.prices.cacheWritePrice ≠ pd.prices.promptPrice) :
    calcOpenRouterCacheCreateTokens env n pd = written ↔
      ReadsCancel pd.prices n.promptTokensDetails.cachedTokens written := by
  unfold ReadsCancel
  by_cases hw : pd.prices.cacheWritePrice = 0
  · rw [calcOpenRouterCacheCreateTokens_of_zero hw, if_pos hw, eq_comm]
  · rw [calcOpenRouterCacheCreateTokens_eq h hw hwp, if_neg hw]
    by_cases h0 : written = 0
    · rw [if_pos h0, h0, Int.cast_zero, zero_add, Rounding.trunc_eq_zero_iff]
    · have hpos : 0 < written := lt_of_le_of_ne h.written_nonneg (Ne.symm h0)
      rw [if_neg h0, Rounding.trunc_eq_iff_of_pos hpos]
      constructor
      · rintro ⟨hle, hlt⟩
        exact ⟨by linarith, by linarith⟩
      · rintro ⟨hle, hlt⟩
        exact ⟨by linarith, by linarith⟩

/-- A number of cache writes that was found passes the guard. -/
theorem openRouterCacheCreationTokens_eq (h : PricedAt pd.prices n written cost)
    (hcalc : calcOpenRouterCacheCreateTokens env n pd = written)
    (hpd : pd.usePerCallPricing = false) :
    openRouterCacheCreationTokens env pd n
        (n.promptTokens - n.promptTokensDetails.cachedTokens) 0 = written := by
  unfold openRouterCacheCreationTokens
  by_cases hw : pd.prices.cacheWritePrice = 0
  · rw [if_neg (fun hall => hall.2.1 hw), ← hcalc, calcOpenRouterCacheCreateTokens_of_zero hw]
  · have hcost : n.cost ≠ .int 0 := by simp [h.reported]
    have hparts := h.parts
    rw [if_pos ⟨rfl, hw, hcost, hpd⟩, hcalc]
    exact if_pos ⟨h.written_nonneg, by omega⟩

/-- Once the tokens are found, their cost is charged. -/
theorem chargesCost_of_calc (h : PricedAt pd.prices n written cost)
    (hcalc : calcOpenRouterCacheCreateTokens env n pd = written) :
    ChargesCost env pd n cost := by
  rintro ctx info u rfl rfl hreq
  have hclaude : isClaudeUsage info u = true := hreq.openRouter.2
  have hor := (isOpenRouterClaudeUsage_normalize info u).2 hreq.openRouter
  have hcreation := openRouterCacheCreationTokens_eq h hcalc hreq.byToken
  have hcost : usageCost env info u + excess env info u = cost * 1000000 := by
    have hlegacy : isLegacyClaudeDerivedOpenAIUsage info u.normalizeInputTokenDetails = false :=
      not_legacy_of_isClaudeUsage (by rw [isClaudeUsage_normalize, hclaude])
    have haudio : audioExcess info.priceData.prices u.normalizeInputTokenDetails = 0 :=
      audioExcess_eq_zero (Or.inl hreq.audio)
    have hmax : max written 0 = written := max_eq_left h.written_nonneg
    rw [usageCost, classCost_classes, excess, legacyExcess, openRouterExcess, hreq.prices,
      hlegacy, if_pos hor, haudio, hreq.creation, hcreation, h.formula, hreq.image, hreq.audio]
    simp only [hclaude, if_true, cachePart, splitWriteCost, openRouterCost,
      normalize_promptTokens, normalize_completionTokens, normalize_claudeCacheCreation5mTokens,
      normalize_claudeCacheCreation1hTokens, hreq.w5m, hreq.w1h, sub_zero, hmax, max_self,
      Int.cast_zero, zero_mul, add_zero, Bool.false_eq_true, if_false, zero_add]
    ring
  rw [calculateTextQuotaSummary_quota, hreq.byToken,
    tokenCost_chargedSummary env ctx info u hreq.w5m.ge hreq.w1h.ge, hcost]
  simp only [Bool.false_eq_true, if_false]

/-- The formula is inverted exactly if the cache reads cancel out; where cache writes cost
as much as the prompt, exactly if both are free. -/
theorem invertsFormula_iff (h : PricedAt pd.prices n written cost) :
    InvertsFormula env pd n written cost ↔
      if pd.prices.cacheWritePrice = pd.prices.promptPrice then pd.prices.cacheWritePrice = 0
      else ReadsCancel pd.prices n.promptTokensDetails.cachedTokens written := by
  by_cases hwp : pd.prices.cacheWritePrice = pd.prices.promptPrice
  · rw [if_pos hwp]
    constructor
    · rintro ⟨_, hindep⟩
      by_contra hw
      have hone := hindep hwp (env.undefinedInt + 1)
      rw [calcOpenRouterCacheCreateTokens_of_eq hw hwp,
        calcOpenRouterCacheCreateTokens_of_eq hw hwp] at hone
      exact absurd hone (by simp)
    · intro hw
      refine ⟨fun hne => absurd hwp hne, fun _ x => ?_⟩
      rw [calcOpenRouterCacheCreateTokens_of_zero hw, calcOpenRouterCacheCreateTokens_of_zero hw]
  · rw [if_neg hwp, ← calcOpenRouterCacheCreateTokens_eq_iff env h hwp]
    constructor
    · rintro ⟨hfinds, _⟩
      exact (hfinds hwp).1
    · intro hcalc
      exact ⟨fun _ => ⟨hcalc, chargesCost_of_calc h hcalc⟩, fun heq => absurd heq hwp⟩

end

/-! ## A prompt that is read and written -/

/-- A prompt of twenty thousand tokens, `cached` of them read from the cache and five
thousand written to it, at this cost. -/
def writtenUsage (cached : Int) (cost : ℚ) : Usage :=
  { (0 : Usage) with
    promptTokens := 20000
    promptTokensDetails := { (0 : InputTokenDetails) with cachedTokens := cached }
    cost := .float cost }

/-- Without cache reads the writes are found. -/
theorem invertsFormula_without_reads :
    InvertsFormula noTiers claudePrices (writtenUsage 0 0.02125) 5000 0.02125 := by
  have h : PricedAt claudePrices.prices (writtenUsage 0 0.02125) 5000 0.02125 := by
    constructor <;> decide +kernel
  exact (invertsFormula_iff h).2 (by decide +kernel)

/-- A thousand cache reads leave 1800 of the five thousand writes. -/
theorem not_invertsFormula_reads :
    PricedAt claudePrices.prices (writtenUsage 1000 0.02035) 5000 0.02035 ∧
      calcOpenRouterCacheCreateTokens noTiers (writtenUsage 1000 0.02035) claudePrices = 1800 ∧
      ¬ InvertsFormula noTiers claudePrices (writtenUsage 1000 0.02035) 5000 0.02035 := by
  have h : PricedAt claudePrices.prices (writtenUsage 1000 0.02035) 5000 0.02035 := by
    constructor <;> decide +kernel
  have hcalc :
      calcOpenRouterCacheCreateTokens noTiers (writtenUsage 1000 0.02035) claudePrices = 1800 := by
    decide +kernel
  refine ⟨h, hcalc, ?_⟩
  rintro ⟨hfinds, _⟩
  have hfound := (hfinds (by decide +kernel)).1
  rw [hcalc] at hfound
  exact absurd hfound (by decide)

end DazeApi.Quota
