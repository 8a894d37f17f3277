import DazeApi.Lib.Rounding
import DazeApi.Tasks.Row

/-!
# Refund and settlement of a task

`service/task_billing.go`: the refund of a failed task and the settlement of a
successful one.  The accounts they move are the owner's wallet and the remaining
quota of the token the task was submitted with.  `ledger` is a ghost: it lists
the refunds and settlements that reached the wallet, in order, and no function
reads it.

A store call may fail.  `BillingCalls` is what the environment answers to the
calls of one refund or settlement.  The statistics counters and the log rows
that the source also writes are left out.

Prices are rationals where the source has `float64`, and the conversion to a
quota truncates toward zero as Go's `int(x)` does.
-/

namespace DazeApi.Tasks

/-! ## Accounts -/

/-- What `RefundTaskQuota` or `RecalculateTaskQuota` did to the wallet. -/
inductive BillingEvent where
  | refund (quota : Int)
  | settle (quotaDelta : Int)
deriving DecidableEq, Repr

/-- The wallet of the task's owner, the task's token, and the ghost ledger. -/
structure Accounts where
  wallet : Int
  tokenRemain : Int
  ledger : List BillingEvent
deriving DecidableEq, Repr

/-- The answers of the store to one refund or settlement: whether the wallet
update fails, the key `resolveTokenKey` finds, and whether the token update
fails. -/
structure BillingCalls where
  fundingErr : Bool
  tokenKey : String
  tokenErr : Bool
deriving DecidableEq, Repr

/-- `pricing.ModelPricing`, the fields that token settlement reads. -/
structure ModelPricing where
  usePerCallPricing : Bool
  promptPrice : ℚ
  completionPrice : ℚ
deriving DecidableEq, Repr

/-- `relaycommon.TaskInfo`, the fields that polling reads. -/
structure TaskInfo where
  status : String
  reason : String
  url : String
  progress : String
  totalTokens : Int
deriving DecidableEq, Repr

/-- What polling takes from outside `service`: the adaptor's billing hook, the
configured model prices, and the server address of proxy URLs. -/
structure PollEnv where
  adjustBillingOnComplete : Task → TaskInfo → Int
  getModelPricing : String → Option ModelPricing
  serverAddress : String

/-! ## Adjustments -/

/-- `taskAdjustFunding`: a positive delta charges, a negative one pays back. -/
def taskAdjustFunding (acc : Accounts) (delta : Int) (err : Bool) : Option Accounts :=
  if err then none
  else if delta > 0 then some { acc with wallet := acc.wallet - delta }
  else some { acc with wallet := acc.wallet + -delta }

/-- `taskAdjustTokenQuota`. -/
def taskAdjustTokenQuota (t : Task) (acc : Accounts) (delta : Int) (io : BillingCalls) :
    Accounts :=
  if t.privateData.tokenId ≤ 0 ∨ delta = 0 then acc
  else if io.tokenKey = "" then acc
  else if io.tokenErr then acc
  else if delta > 0 then { acc with tokenRemain := acc.tokenRemain - delta }
  else { acc with tokenRemain := acc.tokenRemain + -delta }

/-- `taskModelName`. -/
def taskModelName (t : Task) : String :=
  match t.privateData.billingContext with
  | some bc => if bc.originModelName ≠ "" then bc.originModelName else t.originModelName
  | none => t.originModelName

/-- `RefundTaskQuota`. -/
def refundTaskQuota (t : Task) (acc : Accounts) (io : BillingCalls) : Accounts :=
  if t.quota = 0 then acc
  else
    match taskAdjustFunding acc (-t.quota) io.fundingErr with
    | none => acc
    | some acc' =>
        let acc'' := taskAdjustTokenQuota t acc' (-t.quota) io
        { acc'' with ledger := acc''.ledger ++ [.refund t.quota] }

/-- `RecalculateTaskQuota`: the settled copy and the accounts.  The new quota is
stored in the copy only. -/
def recalculateTaskQuota (t : Task) (actualQuota : Int) (acc : Accounts) (io : BillingCalls) :
    Task × Accounts :=
  if actualQuota ≤ 0 then (t, acc)
  else
    let quotaDelta := actualQuota - t.quota
    if quotaDelta = 0 then (t, acc)
    else
      match taskAdjustFunding acc quotaDelta io.fundingErr with
      | none => (t, acc)
      | some acc' =>
          let acc'' := taskAdjustTokenQuota t acc' quotaDelta io
          ({ t with quota := actualQuota },
            { acc'' with ledger := acc''.ledger ++ [.settle quotaDelta] })

/-- `RecalculateTaskQuotaByTokens`. -/
def recalculateTaskQuotaByTokens (env : PollEnv) (t : Task) (totalTokens : Int) (acc : Accounts)
    (io : BillingCalls) : Task × Accounts :=
  if totalTokens ≤ 0 then (t, acc)
  else
    match env.getModelPricing (taskModelName t) with
    | none => (t, acc)
    | some mp =>
        if mp.usePerCallPricing then (t, acc)
        else
          let groupDiscount : ℚ :=
            match t.privateData.billingContext with
            | some bc => if bc.groupDiscount > 0 then bc.groupDiscount else 1
            | none => 1
          let promptTokens := totalTokens.tdiv 2
          let completionTokens := totalTokens - promptTokens
          let costDollars : ℚ := (promptTokens : ℚ) / 1000000 * mp.promptPrice +
            (completionTokens : ℚ) / 1000000 * mp.completionPrice
          recalculateTaskQuota t (Rounding.trunc (costDollars * 1000000 * groupDiscount)) acc io

/-- The price was fixed at submission: per call, or per second. -/
def Task.fixedPrice (t : Task) : Bool :=
  match t.privateData.billingContext with
  | some bc => bc.perCallBilling || bc.fixedPriceUnit = "second"
  | none => false

/-- `settleTaskBillingOnComplete`. -/
def settleTaskBillingOnComplete (env : PollEnv) (t : Task) (taskResult : TaskInfo)
    (acc : Accounts) (io : BillingCalls) : Task × Accounts :=
  if t.fixedPrice then (t, acc)
  else if env.adjustBillingOnComplete t taskResult > 0 then
    recalculateTaskQuota t (env.adjustBillingOnComplete t taskResult) acc io
  else if taskResult.totalTokens > 0 then
    recalculateTaskQuotaByTokens env t taskResult.totalTokens acc io
  else (t, acc)

/-! ## What a ledger says -/

/-- The refunds of a ledger. -/
def refunds : List BillingEvent → List Int
  | [] => []
  | .refund q :: l => q :: refunds l
  | .settle _ :: l => refunds l

/-- The charges of the settlements of a ledger; a negative one paid back. -/
def settlements : List BillingEvent → List Int
  | [] => []
  | .refund _ :: l => settlements l
  | .settle d :: l => d :: settlements l

@[simp] theorem refunds_append (l l' : List BillingEvent) :
    refunds (l ++ l') = refunds l ++ refunds l' := by
  induction l with
  | nil => rfl
  | cons e l ih => cases e <;> simp [refunds, ih]

@[simp] theorem settlements_append (l l' : List BillingEvent) :
    settlements (l ++ l') = settlements l ++ settlements l' := by
  induction l with
  | nil => rfl
  | cons e l ih => cases e <;> simp [settlements, ih]

/-- The wallet and the ledger agree when the wallet started at `w`. -/
def Accounts.Booked (w : Int) (acc : Accounts) : Prop :=
  acc.wallet = w + (refunds acc.ledger).sum - (settlements acc.ledger).sum

/-! ## Specifications -/

theorem taskAdjustFunding_eq {acc acc' : Accounts} {delta : Int} {err : Bool}
    (h : taskAdjustFunding acc delta err = some acc') :
    acc' = { acc with wallet := acc.wallet - delta } := by
  unfold taskAdjustFunding at h
  split at h
  next => cases h
  next =>
    split at h
    next => exact (Option.some.inj h).symm
    next =>
      rw [← Option.some.inj h]
      simp [Int.sub_eq_add_neg]

theorem taskAdjustFunding_ok (acc : Accounts) (delta : Int) :
    taskAdjustFunding acc delta false = some { acc with wallet := acc.wallet - delta } := by
  unfold taskAdjustFunding
  split
  next h => cases h
  next => split <;> simp [Int.sub_eq_add_neg]

@[simp] theorem taskAdjustTokenQuota_wallet (t : Task) (acc : Accounts) (delta : Int)
    (io : BillingCalls) : (taskAdjustTokenQuota t acc delta io).wallet = acc.wallet := by
  unfold taskAdjustTokenQuota
  split_ifs <;> rfl

@[simp] theorem taskAdjustTokenQuota_ledger (t : Task) (acc : Accounts) (delta : Int)
    (io : BillingCalls) : (taskAdjustTokenQuota t acc delta io).ledger = acc.ledger := by
  unfold taskAdjustTokenQuota
  split_ifs <;> rfl

/-- A refund of a charged task whose wallet update succeeds pays the quota back
and is booked once. -/
theorem refundTaskQuota_paid {t : Task} {io : BillingCalls} (acc : Accounts) (hq : t.quota ≠ 0)
    (hio : io.fundingErr = false) :
    (refundTaskQuota t acc io).wallet = acc.wallet + t.quota ∧
      (refundTaskQuota t acc io).ledger = acc.ledger ++ [.refund t.quota] := by
  unfold refundTaskQuota
  rw [if_neg hq, hio, taskAdjustFunding_ok]
  simp

theorem refundTaskQuota_booked {w : Int} {acc : Accounts} (t : Task) (io : BillingCalls)
    (h : acc.Booked w) : (refundTaskQuota t acc io).Booked w := by
  unfold refundTaskQuota
  split
  next => exact h
  next =>
    split
    next => exact h
    next acc' hf =>
      rw [taskAdjustFunding_eq hf]
      simp only [Accounts.Booked, taskAdjustTokenQuota_wallet, taskAdjustTokenQuota_ledger,
        refunds_append, settlements_append, refunds, settlements, List.sum_append,
        List.sum_cons, List.sum_nil] at h ⊢
      omega

/-- What a settlement does: nothing, or one booked settlement that moves the
quota of the copy. -/
theorem recalculateTaskQuota_cases (t : Task) (actualQuota : Int) (acc : Accounts)
    (io : BillingCalls) :
    recalculateTaskQuota t actualQuota acc io = (t, acc) ∨
      (∃ d tok, recalculateTaskQuota t actualQuota acc io =
        ({ t with quota := actualQuota },
          ⟨acc.wallet - d, tok, acc.ledger ++ [.settle d]⟩)) := by
  unfold recalculateTaskQuota
  split
  next => exact Or.inl rfl
  next =>
    simp only
    split
    next => exact Or.inl rfl
    next =>
      split
      next => exact Or.inl rfl
      next acc' hf =>
        right
        rw [taskAdjustFunding_eq hf]
        exact ⟨_, _, Prod.ext rfl (by simp only [taskAdjustTokenQuota_wallet,
          taskAdjustTokenQuota_ledger]; rfl)⟩

/-- `settleTaskBillingOnComplete` does nothing or is one `RecalculateTaskQuota`. -/
theorem settleTaskBillingOnComplete_cases (env : PollEnv) (t : Task) (ti : TaskInfo)
    (acc : Accounts) (io : BillingCalls) :
    settleTaskBillingOnComplete env t ti acc io = (t, acc) ∨
      ∃ actualQuota,
        settleTaskBillingOnComplete env t ti acc io = recalculateTaskQuota t actualQuota acc io := by
  unfold settleTaskBillingOnComplete
  split
  next => exact Or.inl rfl
  next =>
    split
    next => exact Or.inr ⟨_, rfl⟩
    next =>
      split
      next =>
        unfold recalculateTaskQuotaByTokens
        split
        next => exact Or.inl rfl
        next =>
          split
          next => exact Or.inl rfl
          next =>
            split
            next => exact Or.inl rfl
            next => exact Or.inr ⟨_, rfl⟩
      next => exact Or.inl rfl

/-- What the settlement of a completed task does. -/
theorem settle_cases (env : PollEnv) (t : Task) (ti : TaskInfo) (acc : Accounts)
    (io : BillingCalls) :
    settleTaskBillingOnComplete env t ti acc io = (t, acc) ∨
      ∃ q d tok, settleTaskBillingOnComplete env t ti acc io =
        ({ t with quota := q }, ⟨acc.wallet - d, tok, acc.ledger ++ [.settle d]⟩) := by
  rcases settleTaskBillingOnComplete_cases env t ti acc io with h | ⟨q, h⟩
  · exact Or.inl h
  · rcases recalculateTaskQuota_cases t q acc io with h' | ⟨d, tok, h'⟩
    · exact Or.inl (h.trans h')
    · exact Or.inr ⟨q, d, tok, h.trans h'⟩

theorem settle_booked {w : Int} {acc : Accounts} (env : PollEnv) (t : Task) (ti : TaskInfo)
    (io : BillingCalls) (h : acc.Booked w) :
    (settleTaskBillingOnComplete env t ti acc io).2.Booked w := by
  rcases settle_cases env t ti acc io with hs | ⟨q, d, tok, hs⟩
  · rw [hs]
    exact h
  · rw [hs]
    simp only [Accounts.Booked, refunds_append, settlements_append, refunds, settlements,
      List.sum_append, List.sum_cons, List.sum_nil] at h ⊢
    omega

/-- A settlement books no refund. -/
theorem settle_refunds (env : PollEnv) (t : Task) (ti : TaskInfo) (acc : Accounts)
    (io : BillingCalls) :
    refunds (settleTaskBillingOnComplete env t ti acc io).2.ledger = refunds acc.ledger := by
  rcases settle_cases env t ti acc io with hs | ⟨q, d, tok, hs⟩
  · rw [hs]
  · rw [hs]
    simp [refunds]

end DazeApi.Tasks
