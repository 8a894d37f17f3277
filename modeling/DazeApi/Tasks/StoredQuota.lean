import DazeApi.Tasks.System
import DazeApi.Tasks.TokenSettlement

/-!
# The stored quota and the charge

One task polled round after round by `updateVideoSingleTask`, each round on the
row as it was read.  The round that completes the task writes the row first and
settles afterwards, and the settlement stores the new quota only in the copy in
memory.  So the row keeps the pre-charge, which is what was charged only if the
settlement left it alone.
-/

namespace DazeApi.Tasks

/-! ## Adjustments that do not fail -/

/-- The store calls of a refund or settlement all succeed, and the token is found. -/
structure BillingCalls.Succeed (io : BillingCalls) : Prop where
  funding : io.fundingErr = false
  tokenKey : io.tokenKey ≠ ""
  token : io.tokenErr = false

theorem taskAdjustTokenQuota_ok {t : Task} {io : BillingCalls} (acc : Accounts) (delta : Int)
    (hid : 0 < t.privateData.tokenId) (hio : io.Succeed) :
    taskAdjustTokenQuota t acc delta io =
      { acc with tokenRemain := acc.tokenRemain - delta } := by
  unfold taskAdjustTokenQuota
  by_cases hd : delta = 0
  · rw [if_pos (Or.inr hd), hd, Int.sub_zero]
  · rw [if_neg (by omega), if_neg hio.tokenKey, hio.token]
    split
    next h => cases h
    next => split <;> simp [Int.sub_eq_add_neg]

/-- A refund pays the quota back to both accounts. -/
theorem refundTaskQuota_ok {t : Task} {io : BillingCalls} (acc : Accounts)
    (hid : 0 < t.privateData.tokenId) (hio : io.Succeed) :
    (refundTaskQuota t acc io).wallet = acc.wallet + t.quota ∧
      (refundTaskQuota t acc io).tokenRemain = acc.tokenRemain + t.quota := by
  unfold refundTaskQuota
  split
  next hq => omega
  next =>
    rw [hio.funding, taskAdjustFunding_ok]
    simp only [taskAdjustTokenQuota_ok _ _ hid hio]
    omega

/-- A settlement moves both accounts by the same amount. -/
theorem recalculateTaskQuota_ok {t : Task} {actualQuota : Int} {io : BillingCalls}
    (acc : Accounts) (hid : 0 < t.privateData.tokenId) (hio : io.Succeed)
    (h : Settles t actualQuota io) :
    (recalculateTaskQuota t actualQuota acc io).2.wallet =
        acc.wallet - (actualQuota - t.quota) ∧
      (recalculateTaskQuota t actualQuota acc io).2.tokenRemain =
        acc.tokenRemain - (actualQuota - t.quota) := by
  rw [recalculateTaskQuota_of_settles acc h]
  simp only [taskAdjustTokenQuota_ok _ _ hid hio, and_self]

/-! ## What a settlement asks for -/

/-- The quota that `RecalculateTaskQuotaByTokens` asks for; 0 where it asks for none. -/
def tokensQuota (env : PollEnv) (t : Task) (totalTokens : Int) : Int :=
  match env.getModelPricing (taskModelName t) with
  | none => 0
  | some mp =>
      if mp.usePerCallPricing then 0
      else
        let groupDiscount : ℚ :=
          match t.privateData.billingContext with
          | some bc => if bc.groupDiscount > 0 then bc.groupDiscount else 1
          | none => 1
        let promptTokens := totalTokens.tdiv 2
        let completionTokens := totalTokens - promptTokens
        let costDollars : ℚ := (promptTokens : ℚ) / 1000000 * mp.promptPrice +
          (completionTokens : ℚ) / 1000000 * mp.completionPrice
        Rounding.trunc (costDollars * 1000000 * groupDiscount)

/-- The quota that the settlement of a completed task asks for; 0 where it asks for
none. -/
def settlementQuota (env : PollEnv) (t : Task) (taskResult : TaskInfo) : Int :=
  if t.fixedPrice then 0
  else if env.adjustBillingOnComplete t taskResult > 0 then
    env.adjustBillingOnComplete t taskResult
  else if taskResult.totalTokens > 0 then tokensQuota env t taskResult.totalTokens
  else 0

theorem recalculateTaskQuota_zero (t : Task) (acc : Accounts) (io : BillingCalls) :
    recalculateTaskQuota t 0 acc io = (t, acc) := by
  unfold recalculateTaskQuota
  rw [if_pos (Int.le_refl 0)]

theorem recalculateTaskQuotaByTokens_eq_recalculate {env : PollEnv} {t : Task} {totalTokens : Int}
    (acc : Accounts) (io : BillingCalls) (h : 0 < totalTokens) :
    recalculateTaskQuotaByTokens env t totalTokens acc io =
      recalculateTaskQuota t (tokensQuota env t totalTokens) acc io := by
  unfold recalculateTaskQuotaByTokens tokensQuota
  rw [if_neg (by omega)]
  cases env.getModelPricing (taskModelName t) with
  | none => exact (recalculateTaskQuota_zero t acc io).symm
  | some mp =>
      cases hprice : mp.usePerCallPricing with
      | true =>
          simp only [hprice, if_true]
          exact (recalculateTaskQuota_zero t acc io).symm
      | false =>
          cases t.privateData.billingContext with
          | none => simp only [hprice, Bool.false_eq_true, if_false]
          | some bc => simp only [hprice, Bool.false_eq_true, if_false]

/-- All routes of the settlement end in one `RecalculateTaskQuota`. -/
theorem settleTaskBillingOnComplete_eq (env : PollEnv) (t : Task) (ti : TaskInfo) (acc : Accounts)
    (io : BillingCalls) :
    settleTaskBillingOnComplete env t ti acc io =
      recalculateTaskQuota t (settlementQuota env t ti) acc io := by
  unfold settleTaskBillingOnComplete settlementQuota
  split
  next => exact (recalculateTaskQuota_zero t acc io).symm
  next =>
    split
    next => rfl
    next =>
      split
      next htotal => exact recalculateTaskQuotaByTokens_eq_recalculate acc io htotal
      next => exact (recalculateTaskQuota_zero t acc io).symm

/-! ## Rounds -/

/-- The row of a task and the accounts it was charged to. -/
structure Polled where
  row : Task
  accounts : Accounts
deriving DecidableEq, Repr

/-- What the environment answers in one round: the time, the upstream answer, whether
the write fails, and the store's answers to the billing. -/
structure RoundCalls where
  now : Int
  ans : VideoAnswer
  err : Bool
  io : BillingCalls
deriving DecidableEq, Repr

/-- `updateVideoSingleTask` on the row as it was read. -/
def updateVideoSingleTask (env : PollEnv) (s : Polled) (a : RoundCalls) : Polled :=
  match videoUpdate env a.now s.row a.ans with
  | (_, none) => s
  | (t, some b) =>
      match videoWriteOf s.row t with
      | .transition =>
          match t.updateWithStatus s.row s.row.status a.err with
          | (row, some true) => ⟨row, (runVideoBilling env t s.accounts a.io b).2⟩
          | (row, _) => ⟨row, s.accounts⟩
      | .progress =>
          ⟨(t.updateWithStatus s.row s.row.status a.err).1,
            (runVideoBilling env t s.accounts a.io b).2⟩
      | .unchanged => ⟨s.row, (runVideoBilling env t s.accounts a.io b).2⟩

/-- A round polls an unfinished row only. -/
def pollRound (env : PollEnv) (s : Polled) (a : RoundCalls) : Option Polled :=
  if unfinishedSync s.row then some (updateVideoSingleTask env s a) else none

/-- What a round does to an unfinished task. -/
inductive RoundStep (env : PollEnv) (s : Polled) (a : RoundCalls) : Polled → Prop where
  | waits {s' : Polled} :
      s'.row.status.isDone = false → s'.row.quota = s.row.quota →
      s'.row.privateData.tokenId = s.row.privateData.tokenId → s'.accounts = s.accounts →
      (a.err = true ∨ ∀ t ti, videoUpdate env a.now s.row a.ans ≠ (t, some (.settle ti))) →
      RoundStep env s a s'
  | succeeds {t : Task} {ti : TaskInfo} :
      a.err = false → videoUpdate env a.now s.row a.ans = (t, some (.settle ti)) →
      t.status = .success →
      RoundStep env s a ⟨t, (recalculateTaskQuota t (settlementQuota env t ti) s.accounts a.io).2⟩
  | fails {t : Task} :
      (∀ t ti, videoUpdate env a.now s.row a.ans ≠ (t, some (.settle ti))) →
      t.status = .failure → t.quota = s.row.quota →
      t.privateData.tokenId = s.row.privateData.tokenId →
      RoundStep env s a ⟨t, refundTaskQuota t s.accounts a.io⟩

theorem refundTaskQuota_zero {t : Task} (acc : Accounts) (io : BillingCalls) (h : t.quota = 0) :
    refundTaskQuota t acc io = acc := by
  unfold refundTaskQuota
  rw [if_pos h]

/-- A guarded update of a row whose status is the expected one. -/
theorem updateWithStatus_self (t row : Task) (err : Bool) :
    t.updateWithStatus row row.status err = if err then (row, none) else (t, some true) := by
  unfold Task.updateWithStatus
  cases err <;> simp

theorem roundStep {env : PollEnv} {s : Polled} (a : RoundCalls)
    (hundone : s.row.status.isDone = false) :
    RoundStep env s a (updateVideoSingleTask env s a) := by
  unfold updateVideoSingleTask
  split
  next t heq => exact .waits hundone rfl rfl rfl (Or.inr (by simp [heq]))
  next t b heq =>
    obtain ⟨hquota, -, hb⟩ := videoUpdate_spec heq
    have htoken : t.privateData.tokenId = s.row.privateData.tokenId := by
      have h := (videoUpdate_kept env a.now s.row a.ans).2.2
      rwa [heq] at h
    rcases hb with ⟨hst, rfl⟩ | ⟨hst, ti, rfl⟩ | ⟨hst, rfl⟩
    · -- the task goes on
      have hkeep : ∀ t' ti, videoUpdate env a.now s.row a.ans ≠ (t', some (.settle ti)) := by
        simp [heq]
      split
      next hw => exact absurd hw (videoWriteOf_ne_transition hst)
      next =>
        rw [updateWithStatus_self]
        split
        next => exact .waits hundone rfl rfl rfl (Or.inr hkeep)
        next => exact .waits hst hquota htoken rfl (Or.inr hkeep)
      next => exact .waits hundone rfl rfl rfl (Or.inr hkeep)
    · rw [videoWriteOf_transition hundone (by rw [hst]; rfl)]
      simp only [updateWithStatus_self]
      cases herr : a.err with
      | true => exact .waits hundone rfl rfl rfl (Or.inl herr)
      | false =>
          simp only [Bool.false_eq_true, if_false, runVideoBilling,
            settleTaskBillingOnComplete_eq]
          exact .succeeds herr heq hst
    · rw [videoWriteOf_transition hundone (by rw [hst]; rfl)]
      simp only [updateWithStatus_self]
      have hfail : ∀ t' ti, videoUpdate env a.now s.row a.ans ≠ (t', some (.settle ti)) := by
        intro t' ti h
        rw [heq] at h
        split at h <;> cases h
      cases herr : a.err with
      | true => exact .waits hundone rfl rfl rfl (Or.inl herr)
      | false =>
          simp only [Bool.false_eq_true, if_false]
          have hbill : (runVideoBilling env t s.accounts a.io
              (if s.row.quota ≠ 0 then .refund else .keep)).2 =
                refundTaskQuota t s.accounts a.io := by
            split
            next => rfl
            next hq => exact (refundTaskQuota_zero _ _ (by omega)).symm
          rw [hbill]
          exact .fails hfail hst hquota htoken

/-! ## Runs -/

/-- What the wallet and the token have paid for a task of pre-charge `q`, charged
before the accounts stood at `acc₀`. -/
def walletDebit (q : Int) (acc₀ acc : Accounts) : Int := q + (acc₀.wallet - acc.wallet)

def tokenDebit (q : Int) (acc₀ acc : Accounts) : Int := q + (acc₀.tokenRemain - acc.tokenRemain)

/-- The row says what was charged for the task. -/
def ChargedAsStored (q : Int) (acc₀ : Accounts) (s : Polled) : Prop :=
  walletDebit q acc₀ s.accounts = tokenDebit q acc₀ s.accounts ∧
    (s.row.status = .success → walletDebit q acc₀ s.accounts = s.row.quota) ∧
    (s.row.status = .failure → walletDebit q acc₀ s.accounts = 0)

/-- A round that completes the task with success asks for no other quota than the
pre-charge. -/
def KeepsPreCharge (env : PollEnv) (s : Polled) (a : RoundCalls) : Prop :=
  ∀ t ti, videoUpdate env a.now s.row a.ans = (t, some (.settle ti)) → a.err = false →
    settlementQuota env t ti ≤ 0 ∨ settlementQuota env t ti = t.quota

/-- The task is still to be charged or refunded: nothing has moved since submission. -/
structure Pending (q tokenId : Int) (acc₀ : Accounts) (s : Polled) : Prop where
  undone : s.row.status.isDone = false
  quota : s.row.quota = q
  token : s.row.privateData.tokenId = tokenId
  accounts : s.accounts = acc₀

/-- One round: the task stays pending, or it is finished and charged as stored
exactly if the round kept the pre-charge. -/
theorem Pending.round {env : PollEnv} {q tokenId : Int} {acc₀ : Accounts} {s s' : Polled}
    {a : RoundCalls} (h : Pending q tokenId acc₀ s) (hid : 0 < tokenId) (hio : a.io.Succeed)
    (hs : pollRound env s a = some s') :
    (Pending q tokenId acc₀ s' ∧ KeepsPreCharge env s a) ∨
      (s'.row.status.isDone = true ∧ (ChargedAsStored q acc₀ s' ↔ KeepsPreCharge env s a)) := by
  simp only [pollRound] at hs
  split at hs
  next =>
    have hround := (roundStep a h.undone : RoundStep env s a _)
    rw [Option.some.inj hs] at hround
    cases hround with
    | waits hst hq hk hacc hans =>
        refine Or.inl ⟨⟨hst, hq.trans h.quota, hk.trans h.token, hacc.trans h.accounts⟩, ?_⟩
        intro t ti hup herr
        rcases hans with hans | hans
        · rw [hans] at herr
          cases herr
        · exact absurd hup (hans t ti)
    | @succeeds t ti herr hup hst =>
        refine Or.inr ⟨by rw [hst]; rfl, ?_⟩
        have hquota : t.quota = q := by
          have := (videoUpdate_kept env a.now s.row a.ans).1
          rw [hup] at this
          exact this.trans h.quota
        have htoken : 0 < t.privateData.tokenId := by
          have := (videoUpdate_kept env a.now s.row a.ans).2.2
          rw [hup] at this
          rw [this, h.token]
          exact hid
        have hkeeps : KeepsPreCharge env s a ↔
            settlementQuota env t ti ≤ 0 ∨ settlementQuota env t ti = t.quota := by
          refine ⟨fun hk => hk t ti hup herr, fun hk t' ti' hup' _ => ?_⟩
          rw [hup] at hup'
          cases hup'
          exact hk
        rw [hkeeps, h.accounts]
        unfold ChargedAsStored walletDebit tokenDebit
        by_cases hset : Settles t (settlementQuota env t ti) a.io
        · obtain ⟨hw, hk⟩ := recalculateTaskQuota_ok acc₀ htoken hio hset
          obtain ⟨hpos, hne, -⟩ := hset
          rw [hw, hk, hst, hquota]
          rw [hquota] at hne
          simp
          omega
        · have hnot : settlementQuota env t ti ≤ 0 ∨ settlementQuota env t ti = t.quota := by
            by_contra hcon
            exact hset ⟨by omega, by omega, hio.funding⟩
          rw [recalculateTaskQuota_of_not_settles acc₀ hset, hst, hquota]
          simp [hquota ▸ hnot]
    | @fails t hans hst hq hk =>
        refine Or.inr ⟨by rw [hst]; rfl, ?_⟩
        have hkeeps : KeepsPreCharge env s a := fun t' ti hup _ => absurd hup (hans t' ti)
        obtain ⟨hw, htok⟩ := refundTaskQuota_ok s.accounts
          (by rw [hk, h.token]; exact hid : 0 < t.privateData.tokenId) hio
        rw [h.accounts] at hw htok ⊢
        simp only [hkeeps, iff_true, ChargedAsStored, walletDebit, tokenDebit, hw, htok, hst, hq,
          h.quota]
        simp
  next => cases hs

/-- No round polls a finished task. -/
theorem pollRound_of_done {env : PollEnv} {s : Polled} (a : RoundCalls)
    (h : s.row.status.isDone = true) : pollRound env s a = none := by
  simp only [TaskStatus.isDone, Bool.or_eq_true, decide_eq_true_eq] at h
  unfold pollRound unfinishedSync
  rcases h with h | h <;> simp [h]

/-- A task of token 7 and pre-charge 100 that has been submitted. -/
def submittedTask : Task :=
  { halfPriceTask 1 100 with
    status := .submitted, progress := "10%", finishTime := 0 }

/-- The upstream reports success, and no call fails. -/
def completed : RoundCalls where
  now := 5
  ans := .body ⟨"SUCCESS", "", "https://v", "", 0⟩ .noError "\x7b\x7d"
  err := false
  io := ⟨false, "sk-1", false⟩

/-- An adaptor that bills a fixed quota on completion. -/
def billsOnComplete (quota : Int) : PollEnv where
  adjustBillingOnComplete _ _ := quota
  getModelPricing _ := none
  serverAddress := ""

end DazeApi.Tasks
