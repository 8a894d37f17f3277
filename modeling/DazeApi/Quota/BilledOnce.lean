import DazeApi.Quota.Classes

/-!
# Every prompt token billed once

When the charge for a token-priced request is the rounded cost of its classes and its
tools, and when it is not negative.
-/

namespace DazeApi.Quota

/-- The charge in full: the cost of the classes with the discount, and the tools. -/
def fullCharge (env : Env) (ctx : Ctx) (info : RelayInfo) (u : Usage) : ℚ :=
  usageCost env info u * info.priceData.groupDiscount + toolCharges ctx info

/-- A usage whose images, audio and cache are parts of the prompt is charged the rounded
cost of its classes and its tools; no usage is charged a negative amount. -/
def BilledOnce (env : Env) (ctx : Ctx) (info : RelayInfo) (u : Usage) : Prop :=
  let quota := (calculateTextQuotaSummary env ctx info (some u)).1.quotaMicrodollars
  (PartsOfPrompt info u → quota = Rounding.halfAway (fullCharge env ctx info u)) ∧ 0 ≤ quota

section

variable (env : Env) (ctx : Ctx) (info : RelayInfo) (u : Usage)

/-- The charge at token prices, without other discounts. -/
theorem calculateTextQuotaSummary_tokenPriced (hpc : info.priceData.usePerCallPricing = false)
    (hother : info.priceData.otherDiscounts = []) (hu : u.Nonneg) :
    (calculateTextQuotaSummary env ctx info (some u)).1.quotaMicrodollars =
      if u.promptTokens + u.completionTokens = 0 then 0
      else
        Rounding.halfAway
          (fullCharge env ctx info u + excess env info u * info.priceData.groupDiscount) := by
  rw [calculateTextQuotaSummary_quota, hpc, roundedTotal, hother]
  simp only [Bool.false_eq_true, if_false, List.foldl_nil]
  rw [tokenCost_chargedSummary env ctx info u hu.w5m hu.w1h]
  congr 2
  unfold fullCharge
  ring

/-- A request is billed so exactly when the excess does not change the rounded charge and
does not take it below zero, where a usage without prompt and completion tokens is not
charged at all. -/
theorem billedOnce_iff (hpc : info.priceData.usePerCallPricing = false)
    (hother : info.priceData.otherDiscounts = []) (hu : u.Nonneg) :
    BilledOnce env ctx info u ↔
      if u.promptTokens + u.completionTokens = 0 then
        PartsOfPrompt info u → Rounding.halfAway (fullCharge env ctx info u) = 0
      else
        (PartsOfPrompt info u →
          Rounding.halfAway
              (fullCharge env ctx info u + excess env info u * info.priceData.groupDiscount) =
            Rounding.halfAway (fullCharge env ctx info u)) ∧
        -(1 / 2) <
          fullCharge env ctx info u + excess env info u * info.priceData.groupDiscount := by
  unfold BilledOnce
  rw [calculateTextQuotaSummary_tokenPriced env ctx info u hpc hother hu]
  split
  · simp only [le_refl, and_true, eq_comm]
  · simp only [Rounding.halfAway_nonneg_iff]

end

/-! ## A request with audio -/

/-- A model with the given prices for the prompt and for audio input. -/
def audioPrices (promptPrice audioInputPrice : ℚ) : PriceData where
  prices := ⟨promptPrice, 4, 0, 0, 0, 0, 0, audioInputPrice⟩
  perCallPrice := 0
  usePerCallPricing := false
  useTieredPricing := false
  matchedTier := ""
  groupDiscount := 1
  otherDiscounts := []

/-- A chat request on an OpenAI channel. -/
def chatRequest (pd : PriceData) : RelayInfo where
  originModelName := "gpt-audio"
  startTime := 0
  relayFormat := some .openAI
  finalRequestRelayFormat := none
  requestConversionChain := []
  channelType := some 1
  builtInTools := none
  priceData := pd

/-- A thousand prompt tokens, four hundred of them audio. -/
def audioUsage : Usage :=
  { (0 : Usage) with
    promptTokens := 1000
    promptTokensDetails := { (0 : InputTokenDetails) with audioTokens := 400, textTokens := 600 } }

theorem audioUsage_nonneg : audioUsage.Nonneg := by
  constructor <;> try decide
  · constructor <;> decide
  · intro d hd
    cases hd

/-- Without a price for audio the request is billed at the prompt price. -/
theorem billedOnce_audioUnpriced :
    BilledOnce noTiers noTools (chatRequest (audioPrices 1 0)) audioUsage :=
  (billedOnce_iff noTiers noTools (chatRequest (audioPrices 1 0)) audioUsage rfl rfl
    audioUsage_nonneg).2 (by rw [if_neg (by decide)]; decide +kernel)

/-- Four hundred audio tokens for ten dollars a million are charged nothing. -/
theorem not_billedOnce_audioPriced :
    audioUsage.Nonneg ∧ PartsOfPrompt (chatRequest (audioPrices 1 10)) audioUsage ∧
      Rounding.halfAway
        (fullCharge noTiers noTools (chatRequest (audioPrices 1 10)) audioUsage) = 4600 ∧
      (calculateTextQuotaSummary noTiers noTools (chatRequest (audioPrices 1 10))
        (some audioUsage)).1.quotaMicrodollars = 600 ∧
      ¬ BilledOnce noTiers noTools (chatRequest (audioPrices 1 10)) audioUsage := by
  refine ⟨audioUsage_nonneg, by decide +kernel, by decide +kernel, by decide +kernel, ?_⟩
  rintro ⟨hcharge, -⟩
  exact absurd (hcharge (by decide +kernel)) (by decide +kernel)

end DazeApi.Quota
