import Mathlib.Data.Int.ConditionallyCompleteOrder
import Mathlib.Order.WithBot
import DazeApi.Lib.Decimal
import DazeApi.Lib.Threshold
import DazeApi.Quota.ClaudeViews

/-!
# The price tiers

`SelectTier` is a selection by a threshold: a tier bounds the length of the input, and an
unlimited one has the bound `⊤`.  The length that `calculateTextQuotaSummary` selects
with is taken before the parts of the function that decide which count includes which,
so it need not be the number of input tokens that are billed.
-/

namespace DazeApi.Quota

/-! ## The bounds -/

/-- The longest input of a tier. -/
def PricingTier.bound (t : PricingTier) : WithTop Int :=
  match t.maxLen with
  | none => ⊤
  | some n => n

@[simp] theorem PricingTier.bound_eq_top_iff {t : PricingTier} :
    t.bound = ⊤ ↔ t.maxLen = none := by
  unfold PricingTier.bound
  cases t.maxLen <;> simp

@[simp] theorem PricingTier.bound_eq_coe_iff {t : PricingTier} {n : Int} :
    t.bound = n ↔ t.maxLen = some n := by
  unfold PricingTier.bound
  cases t.maxLen <;> simp

theorem PricingTier.bound_of_none {t : PricingTier} (h : t.maxLen = none) : t.bound = ⊤ :=
  bound_eq_top_iff.2 h

theorem PricingTier.bound_of_some {t : PricingTier} {n : Int} (h : t.maxLen = some n) :
    t.bound = n :=
  bound_eq_coe_iff.2 h

theorem PricingTier.bound_injective_maxLen {s t : PricingTier} (h : s.bound = t.bound) :
    s.maxLen = t.maxLen := by
  cases ht : t.maxLen with
  | none =>
      rw [bound_of_none ht] at h
      exact bound_eq_top_iff.1 h
  | some n =>
      rw [bound_of_some ht] at h
      exact bound_eq_coe_iff.1 h

theorem PricingTier.less_iff (a b : PricingTier) : a.less b = true ↔ a.bound < b.bound := by
  unfold less bound
  cases a.maxLen with
  | none => simp
  | some m =>
      cases b.maxLen with
      | none => simp
      | some n => simp

/-- What `SelectTier` sorts by. -/
theorem not_less_iff (a b : PricingTier) : ¬ b.less a = true ↔ a.bound ≤ b.bound := by
  rw [PricingTier.less_iff, not_lt]

/-- The sorted tiers. -/
def ModelPricing.sortedTiers (p : ModelPricing) : List PricingTier :=
  p.tiers.insertionSort fun a b => ¬ b.less a

theorem ModelPricing.sorted_sortedTiers (p : ModelPricing) :
    Threshold.Sorted PricingTier.bound p.sortedTiers :=
  Threshold.sorted_insertionSort _ not_less_iff p.tiers

theorem ModelPricing.sortedTiers_perm (p : ModelPricing) : p.sortedTiers.Perm p.tiers :=
  List.perm_insertionSort _ p.tiers

theorem ModelPricing.sortedTiers_ne_nil {p : ModelPricing} (hp : p.isTiered = true) :
    p.sortedTiers ≠ [] := by
  intro hnil
  have hlen := p.sortedTiers_perm.length_eq
  simp only [isTiered, Bool.and_eq_true, decide_eq_true_eq, hnil, List.length_nil] at hp hlen
  omega

/-! ## `SelectTier` selects by the bound -/

/-- Past the first unlimited tier of a sorted list the loop finds nothing else. -/
theorem scanTiers_of_unlimited {len : Int} {t : PricingTier} :
    ∀ {tiers : List PricingTier}, (∀ b ∈ tiers, b.maxLen = none) →
      scanTiers len tiers (some t) = some t
  | [], _ => rfl
  | b :: tiers, h => by
      have hb : b.maxLen = none := h b List.mem_cons_self
      have ih : scanTiers len tiers (some t) = some t :=
        scanTiers_of_unlimited fun c hc => h c (List.mem_cons_of_mem b hc)
      simpa [scanTiers, hb] using ih

theorem scanTiers_eq_find? (len : Int) :
    ∀ {tiers : List PricingTier}, Threshold.Sorted PricingTier.bound tiers →
      scanTiers len tiers none = tiers.find? fun t => (len : WithTop Int) ≤ t.bound
  | [], _ => rfl
  | t :: tiers, h => by
      obtain ⟨hle, htail⟩ := List.pairwise_cons.1 h
      have ih := scanTiers_eq_find? len htail
      cases hmax : t.maxLen with
      | none =>
          have hunlimited : ∀ b ∈ tiers, b.maxLen = none := by
            intro b hb
            have hb' := hle b hb
            rw [PricingTier.bound_of_none hmax, top_le_iff] at hb'
            exact PricingTier.bound_eq_top_iff.1 hb'
          rw [List.find?_cons_of_pos (by simp [PricingTier.bound_of_none hmax])]
          simpa [scanTiers, hmax] using scanTiers_of_unlimited hunlimited
      | some n =>
          have hbound : (len : WithTop Int) ≤ t.bound ↔ len ≤ n := by
            rw [PricingTier.bound_of_some hmax, WithTop.coe_le_coe]
          by_cases hlen : len ≤ n
          · rw [List.find?_cons_of_pos (by simpa using hbound.2 hlen)]
            simp [scanTiers, hmax, hlen]
          · rw [List.find?_cons_of_neg (by simpa using mt hbound.1 hlen), ← ih]
            simp [scanTiers, hmax, hlen]

theorem ModelPricing.selectTier_eq {p : ModelPricing} (hp : p.isTiered = true) (inputLen : Int) :
    p.selectTier inputLen =
      Threshold.select PricingTier.bound ((max inputLen 0 : Int) : WithTop Int)
        p.sortedTiers := by
  have hlen : (if inputLen < 0 then 0 else inputLen) = max inputLen 0 := by omega
  have hscan := scanTiers_eq_find? (max inputLen 0) p.sorted_sortedTiers
  simp only [selectTier, if_pos hp, hlen, Threshold.select]
  rw [← hscan]
  unfold sortedTiers
  split
  next t hfound => rw [hfound, Option.some_or]
  next hnone => rw [hnone, Option.none_or]

theorem ModelPricing.exists_selectTier {p : ModelPricing} (hp : p.isTiered = true)
    (inputLen : Int) : ∃ t, p.selectTier inputLen = some t := by
  rw [selectTier_eq hp]
  exact Threshold.select_isSome _ _ (sortedTiers_ne_nil hp)

theorem ModelPricing.selected_of_selectTier {p : ModelPricing} (hp : p.isTiered = true)
    {inputLen : Int} {t : PricingTier} (h : p.selectTier inputLen = some t) :
    Threshold.Selected PricingTier.bound ((max inputLen 0 : Int) : WithTop Int) p.tiers t := by
  rw [selectTier_eq hp] at h
  exact (p.sorted_sortedTiers.selected h).of_perm p.sortedTiers_perm

/-! ## The three priorities -/

/-- The tier for an input of this length: a bounded one with the smallest bound that is
large enough, or else an unlimited one, or else the bounded one with the largest bound. -/
def TierFor (tiers : List PricingTier) (len : Int) (t : PricingTier) : Prop :=
  if ∃ b ∈ tiers, ∃ n, b.maxLen = some n ∧ len ≤ n then
    ∃ m, t.maxLen = some m ∧ len ≤ m ∧
      ∀ b ∈ tiers, ∀ n, b.maxLen = some n → len ≤ n → m ≤ n
  else if ∃ b ∈ tiers, b.maxLen = none then t.maxLen = none
  else ∃ m, t.maxLen = some m ∧ ∀ b ∈ tiers, ∀ n, b.maxLen = some n → n ≤ m

theorem tierFor_of_selected {tiers : List PricingTier} {len : Int} {t : PricingTier}
    (h : Threshold.Selected PricingTier.bound (len : WithTop Int) tiers t) :
    TierFor tiers len t := by
  unfold TierFor
  split
  next hfits =>
    obtain ⟨b, hb, n, hn, hle⟩ := hfits
    have hlen : (len : WithTop Int) ≤ b.bound := by
      rw [PricingTier.bound_of_some hn, WithTop.coe_le_coe]
      exact hle
    obtain ⟨hlt, hleast⟩ := h.least b hb hlen
    -- its bound is at most a finite one
    rw [PricingTier.bound_of_some hn] at hleast
    cases hmax : t.maxLen with
    | none => simp [PricingTier.bound_of_none hmax] at hleast
    | some m =>
        rw [PricingTier.bound_of_some hmax, WithTop.coe_le_coe] at hlt
        refine ⟨m, rfl, hlt, fun c hc k hk hck => ?_⟩
        have hbest := (h.least c hc (by
          rw [PricingTier.bound_of_some hk, WithTop.coe_le_coe]
          exact hck)).2
        rw [PricingTier.bound_of_some hmax, PricingTier.bound_of_some hk,
          WithTop.coe_le_coe] at hbest
        exact hbest
  next hnone =>
    have hshort : ∀ b ∈ tiers, ∀ n, b.maxLen = some n → n < len := by
      intro b hb n hn
      by_contra hge
      exact hnone ⟨b, hb, n, hn, not_lt.1 hge⟩
    split
    next hunlimited =>
      obtain ⟨b, hb, htop⟩ := hunlimited
      have hlt := (h.least b hb (by simp [PricingTier.bound_of_none htop])).1
      cases hmax : t.maxLen with
      | none => rfl
      | some m =>
          rw [PricingTier.bound_of_some hmax, WithTop.coe_le_coe] at hlt
          exact absurd (hshort t h.mem m hmax) (not_lt.2 hlt)
    next hbounded =>
      cases hmax : t.maxLen with
      | none => exact absurd ⟨t, h.mem, hmax⟩ hbounded
      | some m =>
          refine ⟨m, rfl, fun b hb n hn => ?_⟩
          have hbest := h.greatest b hb (by
            rw [PricingTier.bound_of_some hmax, WithTop.coe_lt_coe]
            exact hshort t h.mem m hmax)
          rw [PricingTier.bound_of_some hmax, PricingTier.bound_of_some hn,
            WithTop.coe_le_coe] at hbest
          exact hbest

/-- Tiers with different bounds are told apart by them. -/
theorem injOn_bound {tiers : List PricingTier}
    (h : (tiers.map PricingTier.maxLen).Nodup) :
    Set.InjOn PricingTier.bound {t | t ∈ tiers} := by
  intro s hs t ht hbound
  exact List.inj_on_of_nodup_map h hs ht (PricingTier.bound_injective_maxLen hbound)

/-- `SelectTier` is exact, does not depend on the order of the tiers where their bounds
differ, and selects a larger bound for a longer input.  A negative length counts as none. -/
theorem selectTier_exact (p : ModelPricing) (hp : p.isTiered = true) :
    (∀ inputLen, ∃ t ∈ p.tiers, p.selectTier inputLen = some t ∧
      TierFor p.tiers (max inputLen 0) t) ∧
    ((p.tiers.map PricingTier.maxLen).Nodup → ∀ tiers : List PricingTier,
      tiers.Perm p.tiers → ∀ inputLen,
        { p with tiers := tiers }.selectTier inputLen = p.selectTier inputLen) ∧
    (∀ m n s t, m ≤ n → p.selectTier m = some s → p.selectTier n = some t →
      s.bound ≤ t.bound) := by
  refine ⟨fun inputLen => ?_, fun hnodup tiers hperm inputLen => ?_, fun m n s t hmn hs ht => ?_⟩
  · obtain ⟨t, ht⟩ := ModelPricing.exists_selectTier hp inputLen
    have hsel := ModelPricing.selected_of_selectTier hp ht
    exact ⟨t, hsel.mem, ht, tierFor_of_selected hsel⟩
  · have hp' : ModelPricing.isTiered { p with tiers := tiers } = true := by
      simpa [ModelPricing.isTiered, hperm.length_eq] using hp
    have hsorted := ModelPricing.sortedTiers_perm { p with tiers := tiers }
    have hinj : Set.InjOn PricingTier.bound
        {t | t ∈ ModelPricing.sortedTiers { p with tiers := tiers }} := by
      have hsame := injOn_bound ((hsorted.trans hperm).map PricingTier.maxLen |>.nodup_iff.2 hnodup)
      exact hsame
    rw [ModelPricing.selectTier_eq hp', ModelPricing.selectTier_eq hp]
    exact Threshold.select_eq_of_perm hinj (ModelPricing.sorted_sortedTiers _)
      p.sorted_sortedTiers ((hsorted.trans hperm).trans p.sortedTiers_perm.symm)
  · have hle : ((max m 0 : Int) : WithTop Int) ≤ ((max n 0 : Int) : WithTop Int) := by
      rw [WithTop.coe_le_coe]
      omega
    exact (ModelPricing.selected_of_selectTier hp hs).key_le
      (ModelPricing.selected_of_selectTier hp ht) hle

/-- A model with two bounded tiers and an unlimited one, in no order. -/
def threeTiers : ModelPricing :=
  ⟨"tiered", [⟨none, 6, 22.5, 0.6, 7.5⟩, ⟨some 200000, 3, 15, 0.3, 3.75⟩,
    ⟨some 32000, 1, 5, 0.1, 1.25⟩]⟩

theorem selectTier_exact_three :
    threeTiers.isTiered = true ∧
      ∃ t ∈ threeTiers.tiers, threeTiers.selectTier 32001 = some t ∧
        TierFor threeTiers.tiers (max 32001 0) t :=
  ⟨rfl, (selectTier_exact threeTiers rfl).1 32001⟩

/-! ## The input that is billed -/

/-- The input tokens that a summary bills, in all classes together: those at the price of
the prompt, with the images and the audio, the cache reads and the cache writes.  Where
the writes for five minutes and for an hour are told apart, the count of all the writes
only adds what it has beyond them. -/
def billedInputTokens (legacyClaudeDerived : Bool) (s : TextQuotaSummary) : Int :=
  if takesOutCache legacyClaudeDerived s then
    (s.promptTokens - s.cacheTokens - s.cacheCreationTokens) + s.cacheTokens +
      s.cacheCreationTokens
  else
    s.promptTokens + s.cacheTokens +
      max s.cacheCreationTokens (s.cacheCreationTokens5m + s.cacheCreationTokens1h)

/-- Prices of one for each input token. -/
def unitPrices : Prices := ⟨1, 0, 1, 1, 1, 1, 1, 0⟩

/-- At these prices the cost is the number of the input tokens. -/
theorem tokenCost_unitPrices (legacy : Bool) (s : TextQuotaSummary) (hp : s.prices = unitPrices)
    (h5m : 0 ≤ s.cacheCreationTokens5m) (h1h : 0 ≤ s.cacheCreationTokens1h) :
    tokenCost legacy s = billedInputTokens legacy s := by
  have haudio : audioTaken unitPrices s.audioTokens = 0 := if_neg (lt_irrefl 0)
  have hcharged : audioCharged unitPrices s.audioTokens = 0 := if_neg (lt_irrefl 0)
  have hsplit : splitWriteCost unitPrices s.cacheCreationTokens s.cacheCreationTokens5m
      s.cacheCreationTokens1h =
      (max s.cacheCreationTokens (s.cacheCreationTokens5m + s.cacheCreationTokens1h) : Int) := by
    have hmax : max s.cacheCreationTokens (s.cacheCreationTokens5m + s.cacheCreationTokens1h) =
        max (s.cacheCreationTokens - s.cacheCreationTokens5m - s.cacheCreationTokens1h) 0 +
          s.cacheCreationTokens5m + s.cacheCreationTokens1h := by omega
    rw [hmax, splitWriteCost]
    push_cast
    simp only [unitPrices, mul_one]
  rw [tokenCost_eq legacy s h5m h1h, hp, haudio, hcharged, hsplit, billedInputTokens]
  cases takesOutCache legacy s with
  | true =>
      simp only [unitPrices, if_true]
      push_cast
      ring
  | false =>
      simp only [unitPrices, Bool.false_eq_true, if_false]
      push_cast
      ring

/-- The number of input tokens that are billed for a usage, by its semantics. -/
def billedLength (env : Env) (info : RelayInfo) (u : Usage) : Int :=
  let n := u.normalizeInputTokenDetails
  let d := n.promptTokensDetails
  let split := n.claudeCacheCreation5mTokens + n.claudeCacheCreation1hTokens
  if isOpenRouterClaudeUsage info u then
    let creation := openRouterCacheCreationTokens env info.priceData n
      (n.promptTokens - d.cachedTokens) d.cachedCreationTokens
    n.promptTokens - creation + max creation split
  else if isClaudeUsage info u || isLegacyClaudeDerivedOpenAIUsage info n then
    n.promptTokens + d.cachedTokens + max d.cachedCreationTokens split
  else n.promptTokens

section Billed

variable (env : Env) (ctx : Ctx) (info : RelayInfo) (u : Usage)

theorem billedInputTokens_chargedSummary :
    billedInputTokens (isLegacyClaudeDerivedOpenAIUsage info u.normalizeInputTokenDetails)
        (chargedSummary env ctx info u) = billedLength env info u := by
  rw [billedInputTokens, takesOutCache_chargedSummary, billedLength]
  by_cases hor : isOpenRouterClaudeUsage info u
  · rw [chargedSummary_of_openRouter env ctx info u hor]
    simp only [hor, hor.2, splitOpenRouterPrompt, initialSummary, if_true, Bool.not_true,
      Bool.false_and, Bool.false_eq_true, if_false]
    ring
  · rw [chargedSummary_of_not_openRouter env ctx info u hor]
    simp only [hor, if_false, initialSummary]
    cases isClaudeUsage info u with
    | true => simp
    | false =>
        cases isLegacyClaudeDerivedOpenAIUsage info u.normalizeInputTokenDetails with
        | true => simp
        | false =>
            simp only [Bool.not_false, Bool.and_self, Bool.or_self, if_true, Bool.false_eq_true,
              if_false]
            ring

/-- The tokens that the call bills. -/
theorem billedInputTokens_eq :
    billedInputTokens (isLegacyClaudeDerivedOpenAIUsage info u.normalizeInputTokenDetails)
        (calculateTextQuotaSummary env ctx info (some u)).1 = billedLength env info u := by
  rw [← billedInputTokens_chargedSummary env ctx info u]
  rfl

end Billed

/-! ## The tier that is used -/

theorem PricingTier.label_injective {s t : PricingTier} (h : s.label = t.label) :
    s.maxLen = t.maxLen := by
  unfold label at h
  cases hs : s.maxLen with
  | none =>
      cases ht : t.maxLen with
      | none => rfl
      | some n =>
          rw [hs, ht] at h
          have hlist := congrArg String.toList h
          simp [String.toList_append] at hlist
  | some m =>
      cases ht : t.maxLen with
      | none =>
          rw [hs, ht] at h
          have hlist := congrArg String.toList h
          simp [String.toList_append] at hlist
      | some n =>
          rw [hs, ht] at h
          have hlist := congrArg String.toList h
          simp only [String.toList_append, Decimal.toList_toString] at hlist
          rw [Decimal.formatInt_injective (List.append_cancel_left hlist)]

/-- The price data tell the tier. -/
theorem PriceData.withTier_injective {pd : PriceData} {s t : PricingTier}
    (h : pd.withTier (some s) = pd.withTier (some t)) : s = t := by
  have hlabel : s.label = t.label := congrArg PriceData.matchedTier h
  have hprices : pd.prices.ofTier s = pd.prices.ofTier t := congrArg PriceData.prices h
  have hmax := PricingTier.label_injective hlabel
  have hprompt : s.promptPrice = t.promptPrice := congrArg Prices.promptPrice hprices
  have hcompletion : s.completionPrice = t.completionPrice :=
    congrArg Prices.completionPrice hprices
  have hread : s.cacheReadPrice = t.cacheReadPrice := congrArg Prices.cacheReadPrice hprices
  have hwrite : s.cacheWritePrice = t.cacheWritePrice := congrArg Prices.cacheWritePrice hprices
  cases s
  cases t
  simp_all

/-- A request for a model with tiers. -/
structure TieredRequest (env : Env) (info : RelayInfo) (m : ModelPricing) : Prop where
  uses : info.priceData.useTieredPricing = true
  found : env.getModelPricing info.originModelName = some m
  tiered : m.isTiered = true

theorem TieredRequest.tierFor {env : Env} {info : RelayInfo} {m : ModelPricing}
    (h : TieredRequest env info m) (inputLen : Int) :
    tierFor env info inputLen = m.selectTier inputLen := by
  simp [Quota.tierFor, h.uses, h.found, h.tiered]

/-- The tier of the call is the one for an input of this length: it is the one that it
records, and its prices are those that it bills with. -/
def UsesTier (env : Env) (ctx : Ctx) (info : RelayInfo) (u : Usage) (m : ModelPricing)
    (inputLen : Int) : Prop :=
  let result := calculateTextQuotaSummary env ctx info (some u)
  result.2.priceData = info.priceData.withTier (m.selectTier inputLen) ∧
    result.1.prices = (info.priceData.withTier (m.selectTier inputLen)).prices

/-- The two lengths lie on the same side of every bound, or the largest bound alone lies
between them, without an unlimited tier. -/
def SameTier (tiers : List PricingTier) (m n : Int) : Prop :=
  let x : WithTop Int := (max m 0 : Int)
  let y : WithTop Int := (max n 0 : Int)
  Threshold.SameSide PricingTier.bound (min x y) (max x y) tiers

instance (tiers : List PricingTier) (m n : Int) : Decidable (SameTier tiers m n) :=
  inferInstanceAs (Decidable (Threshold.SameSide _ _ _ _))

theorem ModelPricing.selectTier_eq_iff {p : ModelPricing} (hp : p.isTiered = true) (m n : Int) :
    p.selectTier m = p.selectTier n ↔ SameTier p.tiers m n := by
  rw [selectTier_eq hp, selectTier_eq hp, Threshold.select_eq_iff p.sorted_sortedTiers, SameTier,
    sortedTiers, Threshold.sameSide_insertionSort _ not_less_iff]

theorem usesTier_iff {env : Env} {ctx : Ctx} {info : RelayInfo} {u : Usage} {m : ModelPricing}
    (h : TieredRequest env info m) (n : Int) :
    UsesTier env ctx info u m n ↔ m.selectTier (inputLength info u) = m.selectTier n := by
  have hdata : (calculateTextQuotaSummary env ctx info (some u)).2.priceData =
      info.priceData.withTier (m.selectTier (inputLength info u)) := by
    rw [← h.tierFor]
    rfl
  have hprices : (calculateTextQuotaSummary env ctx info (some u)).1.prices =
      (info.priceData.withTier (m.selectTier (inputLength info u))).prices := by
    have hcharged : (chargedSummary env ctx info u).prices = chargedPrices env info u := by
      unfold chargedSummary
      split <;> rfl
    rw [← h.tierFor, ← chargedPrices, ← hcharged]
    rfl
  simp only [UsesTier, hdata, hprices]
  constructor
  · rintro ⟨hsame, _⟩
    obtain ⟨s, hs⟩ := ModelPricing.exists_selectTier h.tiered (inputLength info u)
    obtain ⟨t, ht⟩ := ModelPricing.exists_selectTier h.tiered n
    rw [hs, ht] at hsame ⊢
    rw [PriceData.withTier_injective hsame]
  · intro hsame
    rw [hsame]
    exact ⟨rfl, rfl⟩

/-- The call uses the tier for the input tokens that it bills exactly if the length that
it selects with lies on the same side of the bounds as their number. -/
theorem usesTier_billedInputTokens_iff {env : Env} {ctx : Ctx} {info : RelayInfo} {u : Usage}
    {m : ModelPricing} (h : TieredRequest env info m) :
    UsesTier env ctx info u m
        (billedInputTokens (isLegacyClaudeDerivedOpenAIUsage info u.normalizeInputTokenDetails)
          (calculateTextQuotaSummary env ctx info (some u)).1) ↔
      SameTier m.tiers (inputLength info u) (billedLength env info u) := by
  rw [billedInputTokens_eq, usesTier_iff h, ModelPricing.selectTier_eq_iff h.tiered]

/-- A request for a Claude model with tiers, on a channel of this type. -/
def tieredRequest (channelType : Int) : RelayInfo :=
  { claudeRequest with
    channelType := some channelType
    priceData := { claudePrices with useTieredPricing := true } }

/-- Every model has the three tiers. -/
def tieredEnv : Env := ⟨0, fun _ => some threeTiers, 0⟩

theorem tieredRequest_tiered (channelType : Int) :
    TieredRequest tieredEnv (tieredRequest channelType) threeTiers :=
  ⟨rfl, rfl, rfl⟩

/-- A prompt of twenty thousand tokens, fifteen thousand of them read from the cache. -/
def cachedUsage : Usage :=
  { (0 : Usage) with
    promptTokens := 20000
    promptTokensDetails := { (0 : InputTokenDetails) with cachedTokens := 15000 } }

/-- From Anthropic itself the cache comes on top of the prompt. -/
theorem usesTier_anthropic :
    UsesTier tieredEnv noTools (tieredRequest 14) cachedUsage threeTiers
      (billedInputTokens (isLegacyClaudeDerivedOpenAIUsage (tieredRequest 14)
          cachedUsage.normalizeInputTokenDetails)
        (calculateTextQuotaSummary tieredEnv noTools (tieredRequest 14) (some cachedUsage)).1) :=
  (usesTier_billedInputTokens_iff (tieredRequest_tiered 14)).2 (by decide +kernel)

/-- OpenRouter counts the cache in the prompt: it is counted twice for the tier, and once
for the bill. -/
theorem not_usesTier_openRouter :
    TieredRequest tieredEnv (tieredRequest channelTypeOpenRouter) threeTiers ∧
      ¬ UsesTier tieredEnv noTools (tieredRequest channelTypeOpenRouter) cachedUsage threeTiers
        (billedInputTokens
          (isLegacyClaudeDerivedOpenAIUsage (tieredRequest channelTypeOpenRouter)
            cachedUsage.normalizeInputTokenDetails)
          (calculateTextQuotaSummary tieredEnv noTools (tieredRequest channelTypeOpenRouter)
            (some cachedUsage)).1) := by
  refine ⟨tieredRequest_tiered channelTypeOpenRouter, ?_⟩
  rw [billedInputTokens_eq, usesTier_iff (tieredRequest_tiered channelTypeOpenRouter)]
  decide +kernel

end DazeApi.Quota
