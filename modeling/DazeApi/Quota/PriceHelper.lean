import DazeApi.Quota.Classes

/-!
# The price data of a request

`ModelPriceHelper` and `HandleGroupRatio` (`relay/helper/price.go`), with the update of the
group discount in `getChannel` (`controller/relay.go`).  The price data are made for the
first attempt; a retry may use another group, and takes the discount of that one.
-/

namespace DazeApi.Quota

/-- `pricing.ModelPricing`, with its prices. -/
structure PricedModel extends ModelPricing where
  promptPrice : ℚ
  completionPrice : ℚ
  cacheReadPrice : ℚ
  cacheWritePrice : ℚ
  imagePrice : ℚ
  audioInputPrice : ℚ
  audioOutputPrice : ℚ
  perCallPrice : ℚ
  usePerCallPricing : Bool
  fixedPriceUnit : String

/-- `HasTierPrices`. -/
def ModelPricing.hasTierPrices (p : ModelPricing) : Bool :=
  p.tiers.any fun tier =>
    tier.promptPrice ≠ 0 || tier.completionPrice ≠ 0 || tier.cacheReadPrice ≠ 0 ||
      tier.cacheWritePrice ≠ 0

/-- What the helper reads of the options: the saved prices (`RequireModelPricing`),
`PreConsumedQuota` and `EnableFreeModelPreConsume`. -/
structure PriceOptions where
  getModelPricing : String → Option PricedModel
  preConsumedQuota : Int
  enableFreeModelPreConsume : Bool

/-- The saved prices as a settlement reads them. -/
def PriceOptions.env (o : PriceOptions) (now undefinedInt : Int) : Env where
  now := now
  getModelPricing name := (o.getModelPricing name).map PricedModel.toModelPricing
  undefinedInt := undefinedInt

/-- What the `gin.Context` holds of the group: the group in use, the discounts of the
user's groups, and the group that the automatic choice ended with. -/
structure GroupContext where
  usingGroup : String
  userGroupRatio : Option (List (String × ℚ))
  autoGroup : Option String

/-- What `RelayInfo` holds of the group. -/
structure GroupInfo where
  usingGroup : String
  userGroupRatio : List (String × ℚ)

/-- `HandleGroupRatio`: the discount, and the group in use. -/
def handleGroupRatio (c : GroupContext) (info : GroupInfo) : ℚ × GroupInfo :=
  let info := { info with usingGroup := c.autoGroup.getD info.usingGroup }
  let userGroupRatio := c.userGroupRatio.getD info.userGroupRatio
  let groupDiscount :=
    if userGroupRatio.length = 0 then 1
    else (userGroupRatio.lookup info.usingGroup).getD 1
  (groupDiscount, info)

/-- `types.TokenCountMeta`, as far as the prices depend on it. -/
structure TokenCountMeta where
  maxTokens : Int
  imagePriceRatio : ℚ

/-- `types.PriceData`, with what the charge does not depend on. -/
structure HelperPriceData extends PriceData where
  freeModel : Bool
  audioOutputPrice : ℚ
  fixedPriceUnit : String
  quotaToPreConsume : Int

/-- `claudeCacheCreation1hMultiplier`. -/
def claudeCacheCreation1hMultiplier : ℚ := 6 / 3.75

/-- `pricing.ToMicrodollars`. -/
def toMicrodollars (dollars : ℚ) : Int := Rounding.trunc (dollars * microdollarsPerDollar)

/-- The prices by token for an input of the estimated length. -/
def PricedModel.atTier (m : PricedModel) (tier : Option PricingTier) : PricedModel :=
  match tier with
  | none => m
  | some tier =>
      { m with
        promptPrice := tier.promptPrice
        completionPrice := tier.completionPrice
        cacheReadPrice := tier.cacheReadPrice
        cacheWritePrice := tier.cacheWritePrice }

/-- The price of the images of a request. -/
def PricedModel.withImageRatio (m : PricedModel) (imagePriceRatio : ℚ) : PricedModel :=
  if m.usePerCallPricing then
    if imagePriceRatio ≠ 0 then { m with perCallPrice := m.perCallPrice * imagePriceRatio } else m
  else if imagePriceRatio ≠ 0 ∧ m.imagePrice = 0 then
    { m with imagePrice := m.promptPrice * imagePriceRatio }
  else m

/-- The quota that the estimate of the request needs. -/
def estimatedQuota (m : PricedModel) (promptTokenCount completionTokenCount : Int)
    (groupDiscount : ℚ) : Int :=
  if m.usePerCallPricing then
    Rounding.trunc (m.perCallPrice * microdollarsPerDollar * groupDiscount)
  else
    Rounding.trunc
      (toMicrodollars (promptTokenCount / 1000000 * m.promptPrice +
        completionTokenCount / 1000000 * m.completionPrice) * groupDiscount)

/-- The test for a free model. -/
def isFreeModel (o : PriceOptions) (m : PricedModel) (useTiered : Bool) (groupDiscount : ℚ) :
    Bool :=
  if !o.enableFreeModelPreConsume then
    if groupDiscount = 0 then true
    else if m.usePerCallPricing then m.perCallPrice == 0
    else if useTiered then !m.hasTierPrices
    else m.promptPrice == 0 && m.completionPrice == 0
  else false

/-- `ModelPriceHelper`: the price data, and what it leaves of the group. -/
def modelPriceHelper (o : PriceOptions) (c : GroupContext) (info : GroupInfo) (name : String)
    (promptTokens : Int) (tokens : TokenCountMeta) : Except String (HelperPriceData × GroupInfo) :=
  let (groupDiscount, info) := handleGroupRatio c info
  match o.getModelPricing name with
  | none => .error ("model pricing not configured: " ++ name)
  | some saved =>
      let promptTokenCount := max promptTokens o.preConsumedQuota
      let completionTokenCount := max tokens.maxTokens 0
      let useTiered := !saved.usePerCallPricing && saved.isTiered
      let tier := if useTiered then saved.selectTier promptTokenCount else none
      let m := (saved.atTier tier).withImageRatio tokens.imagePriceRatio
      let freeModel := isFreeModel o m useTiered groupDiscount
      let preConsumedQuota :=
        if freeModel then 0
        else estimatedQuota m promptTokenCount completionTokenCount groupDiscount
      .ok
        ({ prices :=
            { promptPrice := m.promptPrice
              completionPrice := m.completionPrice
              cacheReadPrice := m.cacheReadPrice
              cacheWritePrice := m.cacheWritePrice
              cacheWrite5mPrice := m.cacheWritePrice
              cacheWrite1hPrice := m.cacheWritePrice * claudeCacheCreation1hMultiplier
              imagePrice := m.imagePrice
              audioInputPrice := m.audioInputPrice }
           perCallPrice := m.perCallPrice
           usePerCallPricing := m.usePerCallPricing
           useTieredPricing := useTiered
           matchedTier := (tier.map PricingTier.label).getD ""
           groupDiscount := groupDiscount
           otherDiscounts := []
           freeModel := freeModel
           audioOutputPrice := m.audioOutputPrice
           fixedPriceUnit := m.fixedPriceUnit
           quotaToPreConsume := preConsumedQuota }, info)

/-- `getChannel` on a retry, up to the choice of the channel. -/
def retryGroup (c : GroupContext) (r : HelperPriceData × GroupInfo) :
    HelperPriceData × GroupInfo :=
  let info : GroupInfo :=
    { usingGroup := c.usingGroup
      userGroupRatio := c.userGroupRatio.getD r.2.userGroupRatio }
  let (groupDiscount, info) := handleGroupRatio c info
  ({ r.1 with groupDiscount := groupDiscount }, info)

/-- The price data after a sequence of retries. -/
def afterRetries (r : HelperPriceData × GroupInfo) (retries : List GroupContext) :
    HelperPriceData × GroupInfo :=
  retries.foldl (fun r c => retryGroup c r) r

/-- `Relay` opens no billing session for a free model. -/
def HelperPriceData.opensSession (pd : HelperPriceData) : Bool := !pd.freeModel

/-! ## What a retry changes -/

/-- The discount of a group: that of the user's groups, or none. -/
def discountOf (userGroupRatio : List (String × ℚ)) (group : String) : ℚ :=
  (userGroupRatio.lookup group).getD 1

theorem handleGroupRatio_eq (c : GroupContext) (info : GroupInfo) :
    handleGroupRatio c info =
      (discountOf (c.userGroupRatio.getD info.userGroupRatio) (c.autoGroup.getD info.usingGroup),
        { info with usingGroup := c.autoGroup.getD info.usingGroup }) := by
  simp only [handleGroupRatio, discountOf]
  split
  next hempty => rw [List.length_eq_zero_iff.1 hempty]; rfl
  next => rfl

/-- The discounts of the groups that the last attempt saw. -/
def lastRatios (first : List (String × ℚ)) (retries : List GroupContext) : List (String × ℚ) :=
  retries.foldl (fun ratios c => c.userGroupRatio.getD ratios) first

/-- The discount of the last attempt: that of its group. -/
def lastDiscount (c : GroupContext) (info : GroupInfo) (retries : List GroupContext) : ℚ :=
  match retries.getLast? with
  | none =>
      discountOf (c.userGroupRatio.getD info.userGroupRatio) (c.autoGroup.getD info.usingGroup)
  | some last =>
      discountOf (lastRatios info.userGroupRatio retries) (last.autoGroup.getD last.usingGroup)

theorem afterRetries_userGroupRatio (retries : List GroupContext) :
    ∀ r, (afterRetries r retries).2.userGroupRatio =
      lastRatios r.2.userGroupRatio retries := by
  induction retries with
  | nil =>
      intro r
      rfl
  | cons c retries ih =>
      intro r
      have hhead : (retryGroup c r).2.userGroupRatio =
          c.userGroupRatio.getD r.2.userGroupRatio := by
        simp only [retryGroup, handleGroupRatio_eq]
      have htail := ih (retryGroup c r)
      rw [hhead] at htail
      exact htail

/-- After a retry the discount is that of its group. -/
theorem afterRetries_concat_groupDiscount (r : HelperPriceData × GroupInfo)
    (retries : List GroupContext) (c : GroupContext) :
    (afterRetries r (retries ++ [c])).1.groupDiscount =
      discountOf (lastRatios r.2.userGroupRatio (retries ++ [c]))
        (c.autoGroup.getD c.usingGroup) := by
  have hratios := afterRetries_userGroupRatio retries r
  rw [afterRetries, List.foldl_concat, ← afterRetries, lastRatios, List.foldl_concat, ← lastRatios]
  simp only [retryGroup, handleGroupRatio_eq, hratios]
  cases c.userGroupRatio <;> rfl

end DazeApi.Quota
