import Mathlib.Algebra.Order.Archimedean.Basic
import DazeApi.Quota.PriceHelper

/-!
# Free models

A request for a free model opens no billing session, so its user need not be able to pay.
The test for it looks at some of the prices, and at the discount of the first attempt.  The
charge takes every price, the tools of the request, and the discount of the last attempt:
it is zero for whatever the upstream reports exactly if that discount is.
-/

namespace DazeApi.Quota

/-- Requests with these price data, in any environment with these saved prices and with any
other discounts, settle at zero whatever the upstream reports. -/
def SettlesAtZero (o : PriceOptions) (name : String) (pd : PriceData) : Prop :=
  ∀ now undefinedInt ctx info otherDiscounts usage,
    info.originModelName = name →
    info.priceData = { pd with otherDiscounts := otherDiscounts } →
      (calculateTextQuotaSummary (o.env now undefinedInt) ctx info usage).1.quotaMicrodollars = 0

/-- What is marked as a free model settles at zero, whatever group the retries end with. -/
def FreeSettlesAtZero (o : PriceOptions) (c : GroupContext) (info : GroupInfo) (name : String)
    (promptTokens : Int) (tokens : TokenCountMeta) (retries : List GroupContext) : Prop :=
  ∀ r, modelPriceHelper o c info name promptTokens tokens = .ok r → r.1.opensSession = false →
    SettlesAtZero o name (afterRetries r retries).1.toPriceData

/-- A request that passes the test for a free model: the discount of the first attempt is
zero, or the prices that the test looks at are. -/
def FreeRequest (o : PriceOptions) (c : GroupContext) (info : GroupInfo) (name : String) : Prop :=
  ∃ m, o.getModelPricing name = some m ∧ o.enableFreeModelPreConsume = false ∧
    (discountOf (c.userGroupRatio.getD info.userGroupRatio) (c.autoGroup.getD info.usingGroup) = 0 ∨
      if m.usePerCallPricing then
        m.perCallPrice = 0
      else if m.isTiered then
        ∀ t ∈ m.tiers, t.promptPrice = 0 ∧ t.completionPrice = 0 ∧ t.cacheReadPrice = 0 ∧
          t.cacheWritePrice = 0
      else m.promptPrice = 0 ∧ m.completionPrice = 0)

/-! ## The test -/

@[simp] theorem PricedModel.atTier_none (m : PricedModel) : m.atTier none = m := rfl

@[simp] theorem PricedModel.atTier_usePerCallPricing (m : PricedModel) (tier : Option PricingTier) :
    (m.atTier tier).usePerCallPricing = m.usePerCallPricing := by
  cases tier <;> rfl

@[simp] theorem PricedModel.atTier_toModelPricing (m : PricedModel) (tier : Option PricingTier) :
    (m.atTier tier).toModelPricing = m.toModelPricing := by
  cases tier <;> rfl

section ImageRatio

variable (m : PricedModel) (ratio : ℚ)

@[simp] theorem PricedModel.withImageRatio_usePerCallPricing :
    (m.withImageRatio ratio).usePerCallPricing = m.usePerCallPricing := by
  unfold withImageRatio
  split <;> split <;> rfl

@[simp] theorem PricedModel.withImageRatio_toModelPricing :
    (m.withImageRatio ratio).toModelPricing = m.toModelPricing := by
  unfold withImageRatio
  split <;> split <;> rfl

@[simp] theorem PricedModel.withImageRatio_promptPrice :
    (m.withImageRatio ratio).promptPrice = m.promptPrice := by
  unfold withImageRatio
  split <;> split <;> rfl

@[simp] theorem PricedModel.withImageRatio_completionPrice :
    (m.withImageRatio ratio).completionPrice = m.completionPrice := by
  unfold withImageRatio
  split <;> split <;> rfl

/-- A price by call is scaled by a ratio that is not zero. -/
theorem PricedModel.withImageRatio_perCallPrice_eq_zero (h : m.usePerCallPricing = true) :
    (m.withImageRatio ratio).perCallPrice = 0 ↔ m.perCallPrice = 0 := by
  unfold withImageRatio
  rw [if_pos h]
  split
  next hratio => simp [hratio]
  next => exact Iff.rfl

end ImageRatio

theorem ModelPricing.hasTierPrices_eq_false {p : ModelPricing} :
    p.hasTierPrices = false ↔
      ∀ t ∈ p.tiers, t.promptPrice = 0 ∧ t.completionPrice = 0 ∧ t.cacheReadPrice = 0 ∧
        t.cacheWritePrice = 0 := by
  simp [hasTierPrices, and_assoc]

/-- The helper marks exactly the requests that pass the test. -/
theorem freeRequest_iff (o : PriceOptions) (c : GroupContext) (info : GroupInfo) (name : String)
    (promptTokens : Int) (tokens : TokenCountMeta) :
    FreeRequest o c info name ↔
      ∃ r, modelPriceHelper o c info name promptTokens tokens = .ok r ∧
        r.1.opensSession = false := by
  unfold FreeRequest modelPriceHelper
  rw [handleGroupRatio_eq]
  cases hm : o.getModelPricing name with
  | none => simp
  | some m =>
      simp only [Option.some.injEq, exists_eq_left', Except.ok.injEq, HelperPriceData.opensSession,
        Bool.not_eq_false', isFreeModel, PricedModel.withImageRatio_usePerCallPricing,
        PricedModel.atTier_usePerCallPricing, PricedModel.withImageRatio_toModelPricing,
        PricedModel.atTier_toModelPricing, PricedModel.withImageRatio_promptPrice,
        PricedModel.withImageRatio_completionPrice]
      cases o.enableFreeModelPreConsume with
      | true => simp
      | false =>
          by_cases hdiscount : discountOf (c.userGroupRatio.getD info.userGroupRatio)
              (c.autoGroup.getD info.usingGroup) = 0
          · simp [hdiscount]
          · cases hcall : m.usePerCallPricing with
            | true => simp [hdiscount, PricedModel.withImageRatio_perCallPrice_eq_zero, hcall]
            | false =>
                cases htiered : m.isTiered with
                | true => simp [hdiscount, ModelPricing.hasTierPrices_eq_false]
                | false => simp [hdiscount]

/-- A request that passes the test is left with the discount of the last attempt. -/
theorem afterRetries_groupDiscount {o : PriceOptions} {c : GroupContext} {info : GroupInfo}
    {name : String} {promptTokens : Int} {tokens : TokenCountMeta}
    {r : HelperPriceData × GroupInfo}
    (h : modelPriceHelper o c info name promptTokens tokens = .ok r)
    (retries : List GroupContext) :
    (afterRetries r retries).1.groupDiscount = lastDiscount c info retries := by
  unfold modelPriceHelper at h
  rw [handleGroupRatio_eq] at h
  cases hm : o.getModelPricing name with
  | none => simp [hm] at h
  | some m =>
      simp only [hm, Except.ok.injEq] at h
      rcases List.eq_nil_or_concat retries with rfl | ⟨before, last, rfl⟩
      · rw [← h]
        rfl
      · rw [List.concat_eq_append, afterRetries_concat_groupDiscount, lastDiscount,
          List.getLast?_concat, ← h]

/-! ## The charge -/

section Tools

variable (ctx : Ctx) (info : RelayInfo)

@[simp] theorem webSearch_charge_zero : (webSearch ctx info 0).charge = 0 := by
  unfold webSearch
  repeat' split
  all_goals first | rfl | exact mul_zero _

@[simp] theorem claudeWebSearch_charge_zero : (claudeWebSearch ctx 0).charge = 0 := by
  dsimp only [claudeWebSearch]
  split
  · simp
  · rfl

@[simp] theorem fileSearch_charge_zero : (fileSearch info 0).charge = 0 := by
  unfold fileSearch
  repeat' split
  all_goals first | rfl | exact mul_zero _

@[simp] theorem imageGenerationCall_charge_zero : (imageGenerationCall ctx 0).charge = 0 := by
  unfold imageGenerationCall
  split
  · exact mul_zero _
  · rfl

end Tools

theorem roundedTotal_zero (pd : PriceData) (cost : ℚ) : roundedTotal pd cost 0 0 = 0 := by
  have hfold : ∀ discounts : List ℚ,
      discounts.foldl (fun total discount => total * discount) 0 = 0 := by
    intro discounts
    induction discounts with
    | nil => rfl
    | cons d discounts ih => simpa using ih
  rw [roundedTotal, mul_zero, add_zero, hfold, Rounding.halfAway_zero]

theorem calculateTextQuotaSummary_none (env : Env) (ctx : Ctx) (info : RelayInfo) :
    (calculateTextQuotaSummary env ctx info none).1.quotaMicrodollars = 0 := by
  simp [calculateTextQuotaSummary, validUsage]

/-- Where the discount factor is zero there is no charge, neither for tokens nor for
tools. -/
theorem settlesAtZero_of_groupDiscount (o : PriceOptions) (name : String) {pd : PriceData}
    (h : pd.groupDiscount = 0) : SettlesAtZero o name pd := by
  intro now undefinedInt ctx info otherDiscounts usage _ hpd
  have hdiscount : info.priceData.groupDiscount = 0 := by rw [hpd, h]
  cases usage with
  | none => exact calculateTextQuotaSummary_none _ ctx info
  | some u =>
      have htools : toolCharges ctx info = 0 := by simp [toolCharges, hdiscount]
      rw [calculateTextQuotaSummary_quota, hdiscount, htools, roundedTotal_zero, ite_self]

/-- A request with these price data, on no channel. -/
def pricedRequest (name : String) (pd : PriceData) : RelayInfo where
  originModelName := name
  startTime := 0
  relayFormat := some .claude
  finalRequestRelayFormat := none
  requestConversionChain := []
  channelType := none
  builtInTools := some fun _ => none
  priceData := pd

/-- What Claude reports of its web searches. -/
def searches (n : Nat) : Ctx := { noTools with claudeWebSearchRequests := n }

/-- A usage of one prompt token. -/
def onePrompt : Usage := { (0 : Usage) with promptTokens := 1 }

theorem toolCharges_searches (n : Nat) (name : String) (pd : PriceData) :
    toolCharges (searches n) (pricedRequest name pd) = n * (10000 * pd.groupDiscount) := by
  have hprice : decimalDiv (getClaudeWebSearchPricePerThousand * microdollarsPerDollar) 1000 =
      10000 := by decide +kernel
  have hclaude : (claudeWebSearch (searches n) pd.groupDiscount).charge =
      n * (10000 * pd.groupDiscount) := by
    dsimp only [claudeWebSearch]
    split
    next => simp only [hprice, searches, Int.cast_natCast]; ring
    next h =>
      have hn : n = 0 := by simpa [searches] using h
      simp [hn]
  have hweb : (webSearch (searches n) (pricedRequest name pd) pd.groupDiscount).charge = 0 := rfl
  have hfile : (fileSearch (pricedRequest name pd) pd.groupDiscount).charge = 0 := rfl
  have himage : (imageGenerationCall (searches n) pd.groupDiscount).charge = 0 := rfl
  change (webSearch (searches n) (pricedRequest name pd) pd.groupDiscount).charge +
    (claudeWebSearch (searches n) pd.groupDiscount).charge +
    (fileSearch (pricedRequest name pd) pd.groupDiscount).charge +
    (imageGenerationCall (searches n) pd.groupDiscount).charge = _
  rw [hweb, hclaude, hfile, himage, zero_add, add_zero, add_zero]

/-- Enough web searches outweigh any other cost. -/
theorem exists_charge (cost : ℚ) {discount : ℚ} (h : discount ≠ 0) :
    ∃ n : Nat, 1 ≤ |cost + n * (10000 * discount)| := by
  have hpos : 0 < |10000 * discount| := abs_pos.2 (mul_ne_zero (by norm_num) h)
  obtain ⟨n, hn⟩ := exists_nat_gt ((1 + |cost|) / |10000 * discount|)
  refine ⟨n, ?_⟩
  rw [div_lt_iff₀ hpos] at hn
  have htriangle : |n * (10000 * discount)| ≤ |cost + n * (10000 * discount)| + |cost| := by
    have := abs_sub (cost + n * (10000 * discount)) cost
    rwa [add_sub_cancel_left] at this
  rw [abs_mul, Nat.abs_cast] at htriangle
  linarith

/-- At any other discount a request with enough web searches is charged. -/
theorem groupDiscount_of_settlesAtZero {o : PriceOptions} {name : String} {pd : PriceData}
    (h : SettlesAtZero o name pd) : pd.groupDiscount = 0 := by
  by_contra hdiscount
  let plain : PriceData := { pd with otherDiscounts := [] }
  let info := pricedRequest name plain
  let tokens := if plain.usePerCallPricing then plain.perCallPrice * microdollarsPerDollar
    else usageCost (o.env 0 0) info onePrompt + excess (o.env 0 0) info onePrompt
  obtain ⟨n, hn⟩ := exists_charge (tokens * pd.groupDiscount) hdiscount
  have hzero := h 0 0 (searches n) info [] (some onePrompt) rfl rfl
  have htotal : (0 : Int) ≠ onePrompt.promptTokens + onePrompt.completionTokens := by decide
  rw [calculateTextQuotaSummary_quota, if_neg htotal.symm,
    tokenCost_chargedSummary _ _ _ _ le_rfl le_rfl, toolCharges_searches] at hzero
  have hround : Rounding.halfAway (tokens * pd.groupDiscount + n * (10000 * pd.groupDiscount)) =
      0 := hzero
  rw [Rounding.halfAway_eq_zero_iff] at hround
  linarith

/-- What is marked as a free model settles at zero for every usage exactly if the discount
of the last attempt is zero. -/
theorem freeSettlesAtZero_iff (o : PriceOptions) (c : GroupContext) (info : GroupInfo)
    (name : String) (promptTokens : Int) (tokens : TokenCountMeta)
    (retries : List GroupContext) :
    FreeSettlesAtZero o c info name promptTokens tokens retries ↔
      (FreeRequest o c info name → lastDiscount c info retries = 0) := by
  rw [freeRequest_iff o c info name promptTokens tokens]
  constructor
  · rintro h ⟨r, hr, hfree⟩
    rw [← afterRetries_groupDiscount hr retries]
    exact groupDiscount_of_settlesAtZero (h r hr hfree)
  · intro h r hr hfree
    refine settlesAtZero_of_groupDiscount o name ?_
    rw [← h ⟨r, hr, hfree⟩]
    exact afterRetries_groupDiscount hr retries

/-! ## A free model with a price for the cache -/

/-- A model whose prompt and completion cost nothing, while a cache read costs a tenth of a
dollar for a million tokens. -/
def freeTextModel : PricedModel where
  billingMode := ""
  tiers := []
  promptPrice := 0
  completionPrice := 0
  cacheReadPrice := 0.1
  cacheWritePrice := 0
  imagePrice := 0
  audioInputPrice := 0
  audioOutputPrice := 0
  perCallPrice := 0
  usePerCallPricing := false
  fixedPriceUnit := ""

/-- Free models are not charged in advance. -/
def freeOptions : PriceOptions := ⟨fun _ => some freeTextModel, 500, false⟩

/-- A user without discounts. -/
def plainGroup : GroupContext := ⟨"default", none, none⟩

/-- Forty thousand prompt tokens, thirty thousand of them read from the cache. -/
def cachedPrompt : Usage :=
  { (0 : Usage) with
    promptTokens := 40000
    promptTokensDetails := { (0 : InputTokenDetails) with cachedTokens := 30000 } }

/-- What the helper makes of them. -/
def freePriceData : HelperPriceData where
  prices := ⟨0, 0, 0.1, 0, 0, 0, 0, 0⟩
  perCallPrice := 0
  usePerCallPricing := false
  useTieredPricing := false
  matchedTier := ""
  groupDiscount := 1
  otherDiscounts := []
  freeModel := true
  audioOutputPrice := 0
  fixedPriceUnit := ""
  quotaToPreConsume := 0

theorem modelPriceHelper_freeTextModel :
    modelPriceHelper freeOptions plainGroup ⟨"default", []⟩ "free-text" 40000 ⟨1000, 0⟩ =
      .ok (freePriceData, ⟨"default", []⟩) := by
  simp [modelPriceHelper, handleGroupRatio, freeOptions, plainGroup, freeTextModel, freePriceData,
    ModelPricing.isTiered, PricedModel.withImageRatio, isFreeModel]

/-- The model is free, and its cache reads cost three thousand microdollars. -/
theorem not_freeSettlesAtZero_cached :
    freePriceData.opensSession = false ∧
      ¬ FreeSettlesAtZero freeOptions plainGroup ⟨"default", []⟩ "free-text" 40000 ⟨1000, 0⟩ [] := by
  refine ⟨rfl, fun h => ?_⟩
  have hzero := h (freePriceData, ⟨"default", []⟩) modelPriceHelper_freeTextModel rfl 0 0 noTools
    (pricedRequest "free-text" freePriceData.toPriceData) [] (some cachedPrompt) rfl rfl
  have hcharge : (calculateTextQuotaSummary (freeOptions.env 0 0) noTools
      (pricedRequest "free-text" freePriceData.toPriceData)
      (some cachedPrompt)).1.quotaMicrodollars = 3000 := by
    decide +kernel
  rw [hcharge] at hzero
  cases hzero

end DazeApi.Quota
