import Mathlib.Tactic.Ring
import Mathlib.Tactic.LinearCombination
import DazeApi.Realtime.Session
import DazeApi.Quota.Text

/-!
# The classes of the tokens

What a usage costs, class by class, and what `calculateTextQuotaSummary` makes of it.
The two differ by an amount that the usage and the prices determine: a priced audio
token is divided by a million twice, a usage taken for a legacy one of Claude keeps its
cache in the prompt, and the prompt of an OpenRouter usage loses its cache.
-/

namespace DazeApi.Quota

/-! ## The blocks of the cost -/

/-- Cache writes whose five minute and one hour parts have prices of their own. -/
def splitWriteCost (p : Prices) (creation w5m w1h : Int) : ℚ :=
  (max (creation - w5m - w1h) 0 : Int) * p.cacheWritePrice + w5m * p.cacheWrite5mPrice +
    w1h * p.cacheWrite1hPrice

/-- The audio tokens that leave the prompt: all of them once they have a price. -/
def audioTaken (p : Prices) (audio : Int) : ℚ := if 0 < p.audioInputPrice then audio else 0

/-- What the block charges for the audio tokens. -/
def audioCharged (p : Prices) (audio : Int) : ℚ :=
  if 0 < p.audioInputPrice then decimalDiv (audio * p.audioInputPrice) 1000000 else 0

section Blocks

variable (legacy : Bool) (s : TextQuotaSummary) (base : ℚ)

theorem cacheReadCost_eq :
    cacheReadCost legacy s base =
      (base - (if takesOutCache legacy s then (s.cacheTokens : ℚ) else 0),
        s.cacheTokens * s.prices.cacheReadPrice) := by
  unfold cacheReadCost
  by_cases h0 : s.cacheTokens = 0
  · simp [h0]
  · rw [if_pos h0]
    split <;> simp

theorem cacheWriteCost_eq (h5m : 0 ≤ s.cacheCreationTokens5m)
    (h1h : 0 ≤ s.cacheCreationTokens1h) :
    cacheWriteCost legacy s base =
      (base - (if takesOutCache legacy s then (s.cacheCreationTokens : ℚ) else 0),
        if takesOutCache legacy s then s.cacheCreationTokens * s.prices.cacheWritePrice
        else splitWriteCost s.prices s.cacheCreationTokens s.cacheCreationTokens5m
          s.cacheCreationTokens1h) := by
  unfold cacheWriteCost
  by_cases h0 : s.cacheCreationTokens ≠ 0 ∨ s.cacheCreationTokens5m > 0 ∨
      s.cacheCreationTokens1h > 0
  · rw [if_pos h0]
    by_cases hout : takesOutCache legacy s
    · simp only [hout, if_true]
    · have hmax (n : Int) : (if n < 0 then 0 else n) = max n 0 := by omega
      simp only [if_neg hout, hmax, splitWriteCost, sub_zero]
  · have hzero : s.cacheCreationTokens = 0 ∧ s.cacheCreationTokens5m = 0 ∧
        s.cacheCreationTokens1h = 0 := by omega
    obtain ⟨hc, h5, h1⟩ := hzero
    rw [if_neg h0, hc, h5, h1]
    simp [splitWriteCost]

theorem imageCost_eq :
    imageCost s base = (base - s.imageTokens, s.imageTokens * s.prices.imagePrice) := by
  unfold imageCost
  by_cases h0 : s.imageTokens = 0
  · simp [h0]
  · rw [if_pos h0]

theorem audioInputCost_eq :
    audioInputCost s base =
      (base - audioTaken s.prices s.audioTokens, audioCharged s.prices s.audioTokens) := by
  unfold audioInputCost audioTaken audioCharged
  by_cases hp : 0 < s.prices.audioInputPrice
  · by_cases h0 : s.audioTokens = 0
    · simp [h0, decimalDiv]
    · rw [if_pos ⟨h0, hp⟩, if_pos hp, if_pos hp]
  · rw [if_neg (fun h => hp h.2), if_neg hp, if_neg hp, sub_zero]

end Blocks

/-- The blocks add up to one sum. -/
theorem tokenCost_eq (legacy : Bool) (s : TextQuotaSummary) (h5m : 0 ≤ s.cacheCreationTokens5m)
    (h1h : 0 ≤ s.cacheCreationTokens1h) :
    tokenCost legacy s =
      (s.promptTokens - (if takesOutCache legacy s then (s.cacheTokens : ℚ) else 0) -
          (if takesOutCache legacy s then (s.cacheCreationTokens : ℚ) else 0) -
          s.imageTokens - audioTaken s.prices s.audioTokens) * s.prices.promptPrice +
        s.completionTokens * s.prices.completionPrice +
        s.cacheTokens * s.prices.cacheReadPrice +
        (if takesOutCache legacy s then s.cacheCreationTokens * s.prices.cacheWritePrice
          else splitWriteCost s.prices s.cacheCreationTokens s.cacheCreationTokens5m
            s.cacheCreationTokens1h) +
        s.imageTokens * s.prices.imagePrice + audioCharged s.prices s.audioTokens := by
  simp only [tokenCost, cacheReadCost_eq, cacheWriteCost_eq legacy s _ h5m h1h, imageCost_eq,
    audioInputCost_eq]

/-! ## The charge by classes -/

/-- The semantics that the usage is read with. -/
def isClaudeUsage (info : RelayInfo) (u : Usage) : Bool :=
  usageSemanticFromUsage info (some u) == "anthropic"

/-- Whether it is Claude billed through OpenRouter. -/
def isOpenRouterClaudeUsage (info : RelayInfo) (u : Usage) : Prop :=
  info.channelType = some channelTypeOpenRouter ∧ isClaudeUsage info u

instance (info : RelayInfo) (u : Usage) : Decidable (isOpenRouterClaudeUsage info u) :=
  inferInstanceAs (Decidable (_ ∧ _))

/-- The length that selects the tier. -/
def inputLength (info : RelayInfo) (u : Usage) : Int :=
  let n := u.normalizeInputTokenDetails
  inputContextLength n.promptTokens n.promptTokensDetails.cachedTokens
    n.promptTokensDetails.cachedCreationTokens (isClaudeUsage info u)

/-- The prices in force: those of the tier, over those of the model. -/
def chargedPrices (env : Env) (info : RelayInfo) (u : Usage) : Prices :=
  (info.priceData.withTier (tierFor env info (inputLength info u))).prices

/-- The price of an audio token of the input. -/
def audioTokenPrice (p : Prices) : ℚ :=
  if 0 < p.audioInputPrice then p.audioInputPrice else p.promptPrice

/-- A priced audio token is what `calculateAudioQuota` charges for: `tokens` of them cost
their number times the price. -/
theorem calculateAudioQuota_audio {p : Prices} (hp : 0 < p.audioInputPrice) (tokens : Int)
    (promptPrice completionPrice audioOutputPrice discount : ℚ) :
    Realtime.calculateAudioQuota
        ⟨⟨0, tokens⟩, ⟨0, 0⟩, false, 0, promptPrice, completionPrice, p.audioInputPrice,
          audioOutputPrice, discount⟩ =
      Rounding.halfAway (tokens * audioTokenPrice p * discount) := by
  simp [Realtime.calculateAudioQuota, audioTokenPrice, hp]

/-- The tokens of the cache that a prompt count includes. -/
def cachePart (isClaude : Bool) (d : InputTokenDetails) : Int :=
  if isClaude then 0 else d.cachedTokens + d.cachedCreationTokens

/-- The cache writes, with their prices. -/
def cacheWriteClasses (p : Prices) (isClaude : Bool) (n : Usage) : List (Int × ℚ) :=
  let creation := n.promptTokensDetails.cachedCreationTokens
  let w5m := n.claudeCacheCreation5mTokens
  let w1h := n.claudeCacheCreation1hTokens
  if isClaude then
    [(max (creation - w5m - w1h) 0, p.cacheWritePrice), (w5m, p.cacheWrite5mPrice),
      (w1h, p.cacheWrite1hPrice)]
  else [(creation, p.cacheWritePrice)]

/-- The tokens of a normalised usage, class by class, with their prices. -/
def classes (p : Prices) (isClaude : Bool) (n : Usage) : List (Int × ℚ) :=
  let d := n.promptTokensDetails
  [(n.promptTokens - d.imageTokens - d.audioTokens - cachePart isClaude d, p.promptPrice),
    (n.completionTokens, p.completionPrice), (d.cachedTokens, p.cacheReadPrice),
    (d.imageTokens, p.imagePrice), (d.audioTokens, audioTokenPrice p)] ++
  cacheWriteClasses p isClaude n

/-- What the tokens cost. -/
def classCost (cs : List (Int × ℚ)) : ℚ :=
  (cs.map fun c => (c.1 : ℚ) * c.2).sum

/-- What the tools cost. -/
def toolCharges (ctx : Ctx) (info : RelayInfo) : ℚ :=
  let discount := info.priceData.groupDiscount
  (webSearch ctx info discount).charge + (claudeWebSearch ctx discount).charge +
    (fileSearch info discount).charge + (imageGenerationCall ctx discount).charge

/-- What a usage costs. -/
def usageCost (env : Env) (info : RelayInfo) (u : Usage) : ℚ :=
  classCost (classes (chargedPrices env info u) (isClaudeUsage info u)
    u.normalizeInputTokenDetails)

/-- The images, the audio and, where the prompt includes it, the cache are disjoint parts
of the prompt. -/
def PartsOfPrompt (info : RelayInfo) (u : Usage) : Prop :=
  let n := u.normalizeInputTokenDetails
  let d := n.promptTokensDetails
  d.imageTokens + d.audioTokens + cachePart (isClaudeUsage info u) d ≤ n.promptTokens

instance (info : RelayInfo) (u : Usage) : Decidable (PartsOfPrompt info u) :=
  inferInstanceAs (Decidable (_ ≤ _))

/-- Details without a negative count. -/
structure InputTokenDetails.Nonneg (d : InputTokenDetails) : Prop where
  cached : 0 ≤ d.cachedTokens
  creation : 0 ≤ d.cachedCreationTokens
  write : 0 ≤ d.cacheWriteTokens
  text : 0 ≤ d.textTokens
  audio : 0 ≤ d.audioTokens
  image : 0 ≤ d.imageTokens

/-- A usage without a negative count. -/
structure Usage.Nonneg (u : Usage) : Prop where
  prompt : 0 ≤ u.promptTokens
  completion : 0 ≤ u.completionTokens
  details : u.promptTokensDetails.Nonneg
  input : ∀ d ∈ u.inputTokensDetails, d.Nonneg
  w5m : 0 ≤ u.claudeCacheCreation5mTokens
  w1h : 0 ≤ u.claudeCacheCreation1hTokens

/-! ## The amount that is charged beside the classes -/

/-- A legacy usage of Claude keeps its cache in the prompt, and its cache writes have
their own prices. -/
def legacyExcess (info : RelayInfo) (p : Prices) (n : Usage) : ℚ :=
  let d := n.promptTokensDetails
  if isLegacyClaudeDerivedOpenAIUsage info n then
    (d.cachedTokens + d.cachedCreationTokens) * p.promptPrice +
      (splitWriteCost p d.cachedCreationTokens n.claudeCacheCreation5mTokens
        n.claudeCacheCreation1hTokens - d.cachedCreationTokens * p.cacheWritePrice)
  else 0

/-- The prompt of an OpenRouter usage loses its cache, with the cache writes that were
guessed. -/
def openRouterExcess (env : Env) (info : RelayInfo) (p : Prices) (n : Usage) : ℚ :=
  let d := n.promptTokensDetails
  if isOpenRouterClaudeUsage info n then
    let creation := openRouterCacheCreationTokens env info.priceData n
      (n.promptTokens - d.cachedTokens) d.cachedCreationTokens
    splitWriteCost p creation n.claudeCacheCreation5mTokens n.claudeCacheCreation1hTokens -
      splitWriteCost p d.cachedCreationTokens n.claudeCacheCreation5mTokens
        n.claudeCacheCreation1hTokens -
      (d.cachedTokens + creation) * p.promptPrice
  else 0

/-- A priced audio token is divided by a million twice. -/
def audioExcess (p : Prices) (n : Usage) : ℚ :=
  let audio := n.promptTokensDetails.audioTokens * p.audioInputPrice
  if 0 < p.audioInputPrice then decimalDiv audio 1000000 - audio else 0

/-- What is charged for the tokens beside the cost of their classes. -/
def excess (env : Env) (info : RelayInfo) (u : Usage) : ℚ :=
  let n := u.normalizeInputTokenDetails
  let p := chargedPrices env info u
  legacyExcess info p n + openRouterExcess env info p n + audioExcess p n

theorem audioExcess_eq_zero {p : Prices} {n : Usage}
    (h : n.promptTokensDetails.audioTokens = 0 ∨ ¬ 0 < p.audioInputPrice) :
    audioExcess p n = 0 := by
  unfold audioExcess
  obtain h | h := h
  · simp [h, decimalDiv]
  · rw [if_neg h]

/-- Nothing else is charged for a usage that is neither taken for a legacy one nor billed
through OpenRouter, without priced audio. -/
theorem excess_eq_zero (env : Env) {info : RelayInfo} {u : Usage}
    (hlegacy : isLegacyClaudeDerivedOpenAIUsage info u.normalizeInputTokenDetails = false)
    (hor : ¬ isOpenRouterClaudeUsage info u.normalizeInputTokenDetails)
    (haudio : u.normalizeInputTokenDetails.promptTokensDetails.audioTokens = 0 ∨
      ¬ 0 < (chargedPrices env info u).audioInputPrice) :
    excess env info u = 0 := by
  simp only [excess, legacyExcess, hlegacy, openRouterExcess, if_neg hor,
    audioExcess_eq_zero haudio, Bool.false_eq_true, if_false, add_zero]

/-! ## The summary -/

section Summary

variable (env : Env) (ctx : Ctx) (info : RelayInfo) (u : Usage)

/-- The summary whose tokens are charged. -/
def chargedSummary : TextQuotaSummary :=
  let n := u.normalizeInputTokenDetails
  let s := { initialSummary env ctx info (usageSemanticFromUsage info (some u)) n with
    prices := chargedPrices env info u }
  if isOpenRouterClaudeUsage info u then splitOpenRouterPrompt env info.priceData n s else s

@[simp] theorem normalize_promptTokens :
    u.normalizeInputTokenDetails.promptTokens = u.promptTokens := by
  unfold Usage.normalizeInputTokenDetails
  split <;> rfl

@[simp] theorem normalize_completionTokens :
    u.normalizeInputTokenDetails.completionTokens = u.completionTokens := by
  unfold Usage.normalizeInputTokenDetails
  split <;> rfl

@[simp] theorem normalize_usageSemantic :
    u.normalizeInputTokenDetails.usageSemantic = u.usageSemantic := by
  unfold Usage.normalizeInputTokenDetails
  split <;> rfl

@[simp] theorem normalize_claudeCacheCreation5mTokens :
    u.normalizeInputTokenDetails.claudeCacheCreation5mTokens =
      u.claudeCacheCreation5mTokens := by
  unfold Usage.normalizeInputTokenDetails
  split <;> rfl

@[simp] theorem normalize_claudeCacheCreation1hTokens :
    u.normalizeInputTokenDetails.claudeCacheCreation1hTokens =
      u.claudeCacheCreation1hTokens := by
  unfold Usage.normalizeInputTokenDetails
  split <;> rfl

theorem isClaudeUsage_normalize :
    isClaudeUsage info u.normalizeInputTokenDetails = isClaudeUsage info u := by
  simp [isClaudeUsage, usageSemanticFromUsage]

theorem isOpenRouterClaudeUsage_normalize :
    isOpenRouterClaudeUsage info u.normalizeInputTokenDetails ↔
      isOpenRouterClaudeUsage info u := by
  simp [isOpenRouterClaudeUsage, isClaudeUsage_normalize]

@[simp] theorem chargedSummary_totalTokens :
    (chargedSummary env ctx info u).totalTokens = u.promptTokens + u.completionTokens := by
  unfold chargedSummary
  split <;> simp [splitOpenRouterPrompt, initialSummary]

@[simp] theorem chargedSummary_groupDiscount :
    (chargedSummary env ctx info u).groupDiscount = info.priceData.groupDiscount := by
  unfold chargedSummary
  split <;> rfl

@[simp] theorem chargedSummary_perCallPrice :
    (chargedSummary env ctx info u).perCallPrice = info.priceData.perCallPrice := by
  unfold chargedSummary
  split <;> rfl

@[simp] theorem chargedSummary_usePerCallPricing :
    (chargedSummary env ctx info u).usePerCallPricing = info.priceData.usePerCallPricing := by
  unfold chargedSummary
  split <;> rfl

theorem not_validUsage_or (u : Usage) :
    (!validUsage (some u) || u.promptTokens + u.completionTokens == 0) = true ↔
      u.promptTokens + u.completionTokens = 0 := by
  simp only [validUsage, Bool.or_eq_true, Bool.not_eq_true', Bool.or_eq_false_iff, bne_eq_false_iff_eq,
    beq_iff_eq]
  omega

/-- Every branch of the function, with the tokens behind `chargedSummary`. -/
theorem calculateTextQuotaSummary_quota :
    (calculateTextQuotaSummary env ctx info (some u)).1.quotaMicrodollars =
      if u.promptTokens + u.completionTokens = 0 then 0
      else
        roundedTotal info.priceData
          (if info.priceData.usePerCallPricing then
            info.priceData.perCallPrice * microdollarsPerDollar
          else
            tokenCost (isLegacyClaudeDerivedOpenAIUsage info u.normalizeInputTokenDetails)
              (chargedSummary env ctx info u))
          info.priceData.groupDiscount (toolCharges ctx info) := by
  have hunfold : (calculateTextQuotaSummary env ctx info (some u)).1.quotaMicrodollars =
      let s := chargedSummary env ctx info u
      if !validUsage (some u) || s.totalTokens == 0 then 0
      else
        roundedTotal info.priceData
          (if s.usePerCallPricing then s.perCallPrice * microdollarsPerDollar
          else
            tokenCost (isLegacyClaudeDerivedOpenAIUsage info u.normalizeInputTokenDetails) s)
          s.groupDiscount
          ((webSearch ctx info s.groupDiscount).charge +
            (claudeWebSearch ctx s.groupDiscount).charge +
            (fileSearch info s.groupDiscount).charge +
            (imageGenerationCall ctx s.groupDiscount).charge) := rfl
  rw [hunfold]
  simp only [chargedSummary_totalTokens, chargedSummary_groupDiscount,
    chargedSummary_perCallPrice, chargedSummary_usePerCallPricing, not_validUsage_or, toolCharges]

/-- A usage with a Claude semantic is not a legacy one. -/
theorem not_legacy_of_isClaudeUsage {info : RelayInfo} {u : Usage}
    (h : isClaudeUsage info u = true) : isLegacyClaudeDerivedOpenAIUsage info u = false := by
  unfold isLegacyClaudeDerivedOpenAIUsage
  split
  · rfl
  · next hformat =>
      have hsem : u.usageSemantic ≠ "" := by
        rintro hempty
        simp [isClaudeUsage, usageSemanticFromUsage, hempty, hformat] at h
      rw [if_pos (Or.inr hsem)]

/-- The classes, added up. -/
theorem classCost_classes (p : Prices) (isClaude : Bool) (n : Usage) :
    classCost (classes p isClaude n) =
      (n.promptTokens - n.promptTokensDetails.imageTokens - n.promptTokensDetails.audioTokens -
          cachePart isClaude n.promptTokensDetails : Int) * p.promptPrice +
        n.completionTokens * p.completionPrice +
        n.promptTokensDetails.cachedTokens * p.cacheReadPrice +
        n.promptTokensDetails.imageTokens * p.imagePrice +
        n.promptTokensDetails.audioTokens * audioTokenPrice p +
        (if isClaude then
          splitWriteCost p n.promptTokensDetails.cachedCreationTokens
            n.claudeCacheCreation5mTokens n.claudeCacheCreation1hTokens
        else n.promptTokensDetails.cachedCreationTokens * p.cacheWritePrice) := by
  cases isClaude with
  | true =>
      simp only [classCost, classes, cacheWriteClasses, if_true, List.cons_append, List.nil_append,
        List.map_cons, List.map_nil, List.sum_cons, List.sum_nil, splitWriteCost]
      ring
  | false =>
      simp only [classCost, classes, cacheWriteClasses, List.cons_append, List.nil_append,
        List.map_cons, List.map_nil, List.sum_cons, List.sum_nil, Bool.false_eq_true, if_false]
      ring

/-- An audio token costs its class price beside what the block leaves out. -/
theorem audioCharged_sub (p : Prices) (n : Usage) :
    audioCharged p n.promptTokensDetails.audioTokens -
        audioTaken p n.promptTokensDetails.audioTokens * p.promptPrice =
      n.promptTokensDetails.audioTokens * audioTokenPrice p -
        n.promptTokensDetails.audioTokens * p.promptPrice + audioExcess p n := by
  unfold audioCharged audioTaken audioTokenPrice audioExcess
  split <;> ring

theorem chargedSummary_of_openRouter (h : isOpenRouterClaudeUsage info u) :
    chargedSummary env ctx info u =
      splitOpenRouterPrompt env info.priceData u.normalizeInputTokenDetails
        { initialSummary env ctx info (usageSemanticFromUsage info (some u))
            u.normalizeInputTokenDetails with prices := chargedPrices env info u } := by
  rw [chargedSummary, if_pos h]

theorem chargedSummary_of_not_openRouter (h : ¬ isOpenRouterClaudeUsage info u) :
    chargedSummary env ctx info u =
      { initialSummary env ctx info (usageSemanticFromUsage info (some u))
          u.normalizeInputTokenDetails with prices := chargedPrices env info u } := by
  rw [chargedSummary, if_neg h]

theorem takesOutCache_chargedSummary (legacy : Bool) :
    takesOutCache legacy (chargedSummary env ctx info u) =
      (!isClaudeUsage info u && !legacy) := by
  unfold chargedSummary
  split <;> rfl

/-- What is charged for the tokens is the cost of their classes and the excess. -/
theorem tokenCost_chargedSummary (h5m : 0 ≤ u.claudeCacheCreation5mTokens)
    (h1h : 0 ≤ u.claudeCacheCreation1hTokens) :
    tokenCost (isLegacyClaudeDerivedOpenAIUsage info u.normalizeInputTokenDetails)
        (chargedSummary env ctx info u) =
      usageCost env info u + excess env info u := by
  have hs5m : 0 ≤ (chargedSummary env ctx info u).cacheCreationTokens5m := by
    unfold chargedSummary
    split <;> simpa [splitOpenRouterPrompt, initialSummary] using h5m
  have hs1h : 0 ≤ (chargedSummary env ctx info u).cacheCreationTokens1h := by
    unfold chargedSummary
    split <;> simpa [splitOpenRouterPrompt, initialSummary] using h1h
  have haudio := audioCharged_sub (chargedPrices env info u) u.normalizeInputTokenDetails
  rw [tokenCost_eq _ _ hs5m hs1h, takesOutCache_chargedSummary, usageCost, classCost_classes,
    excess, legacyExcess, openRouterExcess]
  by_cases hor : isOpenRouterClaudeUsage info u
  · -- the prompt loses the cache and the cache writes that were guessed
    have hlegacy : isLegacyClaudeDerivedOpenAIUsage info u.normalizeInputTokenDetails = false :=
      not_legacy_of_isClaudeUsage (by rw [isClaudeUsage_normalize, hor.2])
    simp only [chargedSummary_of_openRouter env ctx info u hor, splitOpenRouterPrompt,
      initialSummary, hor.2, hlegacy, (isOpenRouterClaudeUsage_normalize info u).2 hor, cachePart]
    push_cast
    simp only [Bool.not_true, Bool.false_and, Bool.false_eq_true, if_false]
    linear_combination haudio
  · simp only [chargedSummary_of_not_openRouter env ctx info u hor, initialSummary,
      mt (isOpenRouterClaudeUsage_normalize info u).1 hor, cachePart, if_false]
    cases hclaude : isClaudeUsage info u with
    | true =>
        have hlegacy :
            isLegacyClaudeDerivedOpenAIUsage info u.normalizeInputTokenDetails = false :=
          not_legacy_of_isClaudeUsage (by rw [isClaudeUsage_normalize, hclaude])
        rw [hlegacy]
        push_cast
        simp only [Bool.not_true, Bool.false_and, Bool.false_eq_true, if_false, if_true]
        linear_combination haudio
    | false =>
        cases isLegacyClaudeDerivedOpenAIUsage info u.normalizeInputTokenDetails with
        | true =>
            push_cast
            simp only [Bool.not_true, Bool.and_false, Bool.false_eq_true, if_false, if_true]
            linear_combination haudio
        | false =>
            push_cast
            simp only [Bool.not_false, Bool.and_true, if_true]
            linear_combination haudio

end Summary

end DazeApi.Quota
