import Mathlib.Tactic.Ring
import DazeApi.Tasks.Billing

/-!
# Settlement by tokens

`RecalculateTaskQuotaByTokens` charges what the used tokens cost at the prices in
force, times the discount recorded at submission.  Zero stands for "not recorded"
in the discount and for "nothing to settle" in the amount, so a free group is
charged the full price and an amount that comes to zero leaves the pre-charge.
-/

namespace DazeApi.Tasks

/-! ## One settlement -/

/-- A settlement that does something: it asks for a positive amount that is not the
pre-charge, and the wallet does not refuse. -/
def Settles (t : Task) (actualQuota : Int) (io : BillingCalls) : Prop :=
  0 < actualQuota ∧ actualQuota ≠ t.quota ∧ io.fundingErr = false

theorem recalculateTaskQuota_of_settles {t : Task} {actualQuota : Int} {io : BillingCalls}
    (acc : Accounts) (h : Settles t actualQuota io) :
    recalculateTaskQuota t actualQuota acc io =
      ({ t with quota := actualQuota },
        { taskAdjustTokenQuota t { acc with wallet := acc.wallet - (actualQuota - t.quota) }
            (actualQuota - t.quota) io with
          ledger := acc.ledger ++ [.settle (actualQuota - t.quota)] }) := by
  obtain ⟨hpos, hne, hio⟩ := h
  unfold recalculateTaskQuota
  rw [if_neg (by omega), if_neg (by omega), hio, taskAdjustFunding_ok]
  simp

theorem recalculateTaskQuota_of_not_settles {t : Task} {actualQuota : Int} {io : BillingCalls}
    (acc : Accounts) (h : ¬ Settles t actualQuota io) :
    recalculateTaskQuota t actualQuota acc io = (t, acc) := by
  unfold recalculateTaskQuota
  by_cases hpos : actualQuota ≤ 0
  · rw [if_pos hpos]
  · rw [if_neg hpos]
    by_cases hne : actualQuota = t.quota
    · rw [if_pos (by omega)]
    · have herr : io.fundingErr = true := by
        cases hio : io.fundingErr with
        | true => rfl
        | false => exact absurd ⟨by omega, hne, hio⟩ h
      rw [if_neg (by omega), herr]
      rfl

/-! ## The amount -/

/-- What `totalTokens` cost, half of them read and half written, in microdollars. -/
def tokenCharge (mp : ModelPricing) (groupDiscount : ℚ) (totalTokens : Int) : Int :=
  Rounding.trunc ((((totalTokens / 2 : Int) : ℚ) * mp.promptPrice +
    ((totalTokens - totalTokens / 2 : Int) : ℚ) * mp.completionPrice) * groupDiscount)

/-- The discount that the settlement applies: one that is not positive counts as not
recorded. -/
def appliedDiscount (bc : TaskBillingContext) : ℚ :=
  if bc.groupDiscount > 0 then bc.groupDiscount else 1

theorem appliedDiscount_of_pos {bc : TaskBillingContext} (h : 0 < bc.groupDiscount) :
    appliedDiscount bc = bc.groupDiscount := if_pos h

theorem appliedDiscount_zero {bc : TaskBillingContext} (h : bc.groupDiscount = 0) :
    appliedDiscount bc = 1 := by
  rw [appliedDiscount, h, if_neg (lt_irrefl _)]

@[simp] theorem tokenCharge_zero (mp : ModelPricing) (totalTokens : Int) :
    tokenCharge mp 0 totalTokens = 0 := by
  simp [tokenCharge, Rounding.trunc]

/-- Prices are per million tokens and quotas in millionths of a dollar. -/
theorem recalculateTaskQuotaByTokens_eq {env : PollEnv} {t : Task} {totalTokens : Int}
    {bc : TaskBillingContext} {mp : ModelPricing} (acc : Accounts) (io : BillingCalls)
    (htotal : 0 < totalTokens) (hbc : t.privateData.billingContext = some bc)
    (hmp : env.getModelPricing (taskModelName t) = some mp)
    (hprice : mp.usePerCallPricing = false) :
    recalculateTaskQuotaByTokens env t totalTokens acc io =
      recalculateTaskQuota t (tokenCharge mp (appliedDiscount bc) totalTokens) acc io := by
  have hhalf : totalTokens.tdiv 2 = totalTokens / 2 := Int.tdiv_eq_ediv_of_nonneg (by omega)
  have hcost (p c d : ℚ) :
      (p / 1000000 * mp.promptPrice + c / 1000000 * mp.completionPrice) * 1000000 * d =
        (p * mp.promptPrice + c * mp.completionPrice) * d := by
    ring
  unfold recalculateTaskQuotaByTokens
  rw [if_neg (by omega), hmp]
  simp only [hprice, Bool.false_eq_true, if_false, hbc, hhalf, hcost]
  rfl

theorem recalculateTaskQuotaByTokens_perCall {env : PollEnv} {t : Task} {mp : ModelPricing}
    (totalTokens : Int) (acc : Accounts) (io : BillingCalls)
    (hmp : env.getModelPricing (taskModelName t) = some mp) (hprice : mp.usePerCallPricing = true) :
    recalculateTaskQuotaByTokens env t totalTokens acc io = (t, acc) := by
  unfold recalculateTaskQuotaByTokens
  simp [hmp, hprice]

/-! ## What is charged in the end -/

/-- The pre-charge of a task and what a settlement took on top of it. -/
def netCharged (t : Task) (acc acc' : Accounts) : Int := t.quota + (acc.wallet - acc'.wallet)

/-- What a settlement has charged in the end: the amount it asks for, or the
pre-charge if it does nothing. -/
theorem netCharged_recalculateTaskQuota (t : Task) (actualQuota : Int) (acc : Accounts)
    (io : BillingCalls) :
    (Settles t actualQuota io ∧
        netCharged t acc (recalculateTaskQuota t actualQuota acc io).2 = actualQuota) ∨
      (¬ Settles t actualQuota io ∧
        netCharged t acc (recalculateTaskQuota t actualQuota acc io).2 = t.quota) := by
  by_cases h : Settles t actualQuota io
  · refine Or.inl ⟨h, ?_⟩
    rw [recalculateTaskQuota_of_settles acc h]
    simp only [netCharged, taskAdjustTokenQuota_wallet]
    omega
  · refine Or.inr ⟨h, ?_⟩
    rw [recalculateTaskQuota_of_not_settles acc h]
    simp [netCharged]

/-- When a settlement by tokens charges the recorded discount. -/
def DiscountKept (t : Task) (bc : TaskBillingContext) (mp : ModelPricing) (totalTokens : Int)
    (io : BillingCalls) : Prop :=
  -- the settlement reaches the wallet with the recorded discount
  (mp.usePerCallPricing = false ∧ 0 < bc.groupDiscount ∧
      0 < tokenCharge mp bc.groupDiscount totalTokens ∧ io.fundingErr = false) ∨
  -- the pre-charge was the right amount, and nothing is charged on top of it
  (t.quota = tokenCharge mp bc.groupDiscount totalTokens ∧
    (0 < bc.groupDiscount ∨ mp.usePerCallPricing = true ∨ tokenCharge mp 1 totalTokens ≤ 0 ∨
      io.fundingErr = true))

/-- A task of the group "half", whose tokens are settled at half price. -/
def halfPriceTask (groupDiscount : ℚ) (quota : Int) : Task where
  id := 1
  taskID := "task_1"
  platform := .video "sora"
  quota := quota
  status := .success
  failReason := ""
  submitTime := 1
  startTime := 2
  finishTime := 3
  progress := "100%"
  originModelName := "sora-2"
  privateData := ⟨"up_1", "", 7, some ⟨"", groupDiscount, "sora-2", false⟩⟩
  data := ""

/-- Two dollars for a million tokens, read or written. -/
def twoDollars : PollEnv where
  adjustBillingOnComplete _ _ := 0
  getModelPricing _ := some ⟨false, 2, 2⟩
  serverAddress := ""

end DazeApi.Tasks
