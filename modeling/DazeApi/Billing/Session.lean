import DazeApi.Types.Error

/-!
# Billing sessions

`service/billing_session.go` and `service/funding_source.go`: the pre-charge of
a request against the wallet of its user and the remaining quota of its token,
and the settlement or refund that ends it.

The two balances are the value in the database plus what the batch updater still
holds for it.  A store call answers with `none`, or with the text of an error,
in which case the balance is as before.  What the two reads of the pre-charge
answer is left to the environment here, since either may come from a cache.
-/

namespace DazeApi.Billing

open DazeApi.Types

/-! ## The two balances -/

/-- The wallet of the user and the remaining quota of the token of a request. -/
structure Accounts where
  wallet : Int
  token : Int
deriving DecidableEq, Repr

/-- The answer of a store call: `none`, or the text of an error. -/
abbrev StoreErr := Option String

def negativeQuota : String := "quota 不能为负数！"

/-- The common shape of the four updates: a negative amount is refused, and an
error of the store leaves the balances. -/
def adjust {α : Type} (f : α → Int → α) (acc : α) (quota : Int) (err : StoreErr) :
    Except String α :=
  if quota < 0 then .error negativeQuota
  else
    match err with
    | some e => .error e
    | none => .ok (f acc quota)

/-- `model.IncreaseUserQuota`. -/
def increaseUserQuota : Accounts → Int → StoreErr → Except String Accounts :=
  adjust fun acc quota => { acc with wallet := acc.wallet + quota }

/-- `model.DecreaseUserQuota`. -/
def decreaseUserQuota : Accounts → Int → StoreErr → Except String Accounts :=
  adjust fun acc quota => { acc with wallet := acc.wallet - quota }

/-- `model.IncreaseTokenQuota`. -/
def increaseTokenQuota : Accounts → Int → StoreErr → Except String Accounts :=
  adjust fun acc quota => { acc with token := acc.token + quota }

/-- `model.DecreaseTokenQuota`. -/
def decreaseTokenQuota : Accounts → Int → StoreErr → Except String Accounts :=
  adjust fun acc quota => { acc with token := acc.token - quota }

/-- An update of an amount that is not negative does what it says or answers an
error of the store. -/
theorem adjust_of_nonneg {α : Type} (f : α → Int → α) (acc : α) {quota : Int} (err : StoreErr)
    (h : 0 ≤ quota) :
    adjust f acc quota err = match err with
      | some e => .error e
      | none => .ok (f acc quota) := by
  simp only [adjust, if_neg (Int.not_lt.2 h)]

theorem adjust_ok {α : Type} {f : α → Int → α} {acc acc' : α} {quota : Int} {err : StoreErr}
    (h : adjust f acc quota err = .ok acc') :
    0 ≤ quota ∧ err = none ∧ acc' = f acc quota := by
  simp only [adjust] at h
  split at h
  next => cases h
  next hq =>
    split at h
    next => cases h
    next => cases h; exact ⟨by omega, rfl, rfl⟩

/-! ## Requests -/

/-- What a billing session reads of `relaycommon.RelayInfo` and the context. -/
structure RelayInfo where
  isPlayground : Bool
  tokenUnlimited : Bool
  forcePreConsume : Bool
  /-- `c.GetInt("token_quota")`. -/
  tokenQuota : Int
  userQuota : Int
deriving DecidableEq, Repr

/-- The trust threshold and the rendering of a quota in a message. -/
structure BillingEnv where
  trustQuota : Int
  formatQuota : Int → String

/-- `BillingSession.shouldTrust`. -/
def shouldTrust (env : BillingEnv) (info : RelayInfo) : Bool :=
  !info.forcePreConsume && env.trustQuota > 0 &&
    (info.tokenUnlimited || info.tokenQuota > env.trustQuota) && info.userQuota > env.trustQuota

/-! ## Sessions -/

/-- `BillingSession`, with `consumed` of its `WalletFunding`. -/
structure BillingSession where
  isPlayground : Bool
  consumed : Int
  preConsumedQuota : Int
  tokenConsumed : Int
  fundingSettled : Bool
  settled : Bool
  refunded : Bool
deriving DecidableEq, Repr

/-- A session before `preConsume`. -/
def BillingSession.fresh (info : RelayInfo) : BillingSession where
  isPlayground := info.isPlayground
  consumed := 0
  preConsumedQuota := 0
  tokenConsumed := 0
  fundingSettled := false
  settled := false
  refunded := false

/-- What the environment answers during a pre-charge: the two reads, the two
charges, and the return of the token's charge when the wallet's fails. -/
structure PreConsumeCalls where
  userQuota : Except String Int
  tokenRemain : Except String Int
  tokenErr : StoreErr
  fundingErr : StoreErr
  rollbackErr : StoreErr

/-- `PreConsumeTokenQuota`. -/
def preConsumeTokenQuota (env : BillingEnv) (info : RelayInfo) (quota : Int) (acc : Accounts)
    (tokenRemain : Except String Int) (tokenErr : StoreErr) : Except String Accounts :=
  if quota < 0 then .error negativeQuota
  else if info.isPlayground then .ok acc
  else
    match tokenRemain with
    | .error e => .error e
    | .ok remain =>
        if !info.tokenUnlimited && remain < quota then
          .error ("token quota is not enough, token remain quota: " ++ env.formatQuota remain ++
            ", need quota: " ++ env.formatQuota quota)
        else decreaseTokenQuota acc quota tokenErr

/-- `WalletFunding.PreConsume`: the balances and the amount consumed. -/
def fundingPreConsume (acc : Accounts) (amount : Int) (err : StoreErr) :
    Except String (Accounts × Int) :=
  if amount ≤ 0 then .ok (acc, 0)
  else (decreaseUserQuota acc amount err).map fun acc' => (acc', amount)

/-- The return of the token's charge in `preConsume`; its error is only logged. -/
def rollbackToken (s : BillingSession) (acc : Accounts) (err : StoreErr) : Accounts :=
  if s.tokenConsumed > 0 && !s.isPlayground then
    match increaseTokenQuota acc s.tokenConsumed err with
    | .ok acc' => acc'
    | .error _ => acc
  else acc

/-- `BillingSession.preConsume` after the token has been charged. -/
def preConsumeFunding (s : BillingSession) (effectiveQuota : Int) (acc : Accounts)
    (io : PreConsumeCalls) : Accounts × Except NewAPIError BillingSession :=
  match fundingPreConsume acc effectiveQuota io.fundingErr with
  | .error e =>
      (rollbackToken s acc io.rollbackErr, .error (newError e "update_data_error" [.skipRetry]))
  | .ok (acc', consumed) =>
      (acc', .ok { s with consumed := consumed, preConsumedQuota := effectiveQuota })

/-- `BillingSession.preConsume`. -/
def preConsume (env : BillingEnv) (info : RelayInfo) (quota : Int) (acc : Accounts)
    (io : PreConsumeCalls) : Accounts × Except NewAPIError BillingSession :=
  let effectiveQuota := if shouldTrust env info then 0 else quota
  let s := BillingSession.fresh info
  if effectiveQuota > 0 then
    match preConsumeTokenQuota env info effectiveQuota acc io.tokenRemain io.tokenErr with
    | .error e =>
        (acc, .error (newErrorWithStatusCode e "pre_consume_token_quota_failed" 403
          [.skipRetry, .noRecordErrorLog]))
    | .ok acc' =>
        preConsumeFunding { s with tokenConsumed := effectiveQuota } effectiveQuota acc' io
  else preConsumeFunding s effectiveQuota acc io

/-- `NewBillingSession`. -/
def newBillingSession (env : BillingEnv) (info : RelayInfo) (preConsumedQuota : Int)
    (acc : Accounts) (io : PreConsumeCalls) : Accounts × Except NewAPIError BillingSession :=
  match io.userQuota with
  | .error e => (acc, .error (newError e "query_data_error" [.skipRetry]))
  | .ok userQuota =>
      if userQuota ≤ 0 then
        (acc, .error (newErrorWithStatusCode
          ("用户额度不足, 剩余额度: " ++ env.formatQuota userQuota)
          "insufficient_user_quota" 403 [.skipRetry, .noRecordErrorLog]))
      else
        let info := { info with userQuota := userQuota }
        if !shouldTrust env info && userQuota - preConsumedQuota < 0 then
          (acc, .error (newErrorWithStatusCode
            ("预扣费额度失败, 用户剩余额度: " ++ env.formatQuota userQuota ++
              ", 需要预扣费额度: " ++ env.formatQuota preConsumedQuota)
            "insufficient_user_quota" 403 [.skipRetry, .noRecordErrorLog]))
        else preConsume env info preConsumedQuota acc io

/-! ## What a pre-charge takes of the wallet -/

/-- A session that has been neither settled nor refunded, and whose charge a refund
would return. -/
structure BillingSession.Open (s : BillingSession) : Prop where
  settled : s.settled = false
  refunded : s.refunded = false
  fundingSettled : s.fundingSettled = false
  nonneg : 0 ≤ s.consumed
  covered : 0 < s.consumed → 0 < s.tokenConsumed

/-- `PreConsumeTokenQuota` takes the quota from the token, or in the playground
nothing. -/
theorem preConsumeTokenQuota_ok {env : BillingEnv} {info : RelayInfo} {quota : Int}
    {acc acc' : Accounts} {remain : Except String Int} {err : StoreErr}
    (h : preConsumeTokenQuota env info quota acc remain err = .ok acc') :
    acc' = { acc with token := if info.isPlayground then acc.token else acc.token - quota } := by
  simp only [preConsumeTokenQuota] at h
  split at h
  next => cases h
  next =>
    split at h
    next hplay =>
      cases h
      rw [if_pos hplay]
    next hplay =>
      rw [if_neg hplay]
      split at h
      next => cases h
      next =>
        split at h
        next => cases h
        next => exact (adjust_ok h).2.2

theorem wallet_of_preConsumeTokenQuota {env : BillingEnv} {info : RelayInfo} {quota : Int}
    {acc acc' : Accounts} {remain : Except String Int} {err : StoreErr}
    (h : preConsumeTokenQuota env info quota acc remain err = .ok acc') :
    acc'.wallet = acc.wallet := by
  rw [preConsumeTokenQuota_ok h]

/-- A pre-charge that succeeds has taken what its session holds, and one that fails
has taken nothing. -/
def PreCharged (acc : Accounts) : Accounts × Except NewAPIError BillingSession → Prop
  | (acc', .ok s) => acc'.wallet = acc.wallet - s.consumed ∧ s.Open
  | (acc', .error _) => acc'.wallet = acc.wallet

theorem wallet_rollbackToken (s : BillingSession) (acc : Accounts) (err : StoreErr) :
    (rollbackToken s acc err).wallet = acc.wallet := by
  simp only [rollbackToken]
  split
  next =>
    split
    next acc' hi => rw [(adjust_ok hi).2.2]
    next => rfl
  next => rfl

/-- The wallet's half of a pre-charge, of a session that has charged the token. -/
theorem preCharged_preConsumeFunding {s : BillingSession} {q : Int} (acc : Accounts)
    (io : PreConsumeCalls) (hs : s.Open) (hq : 0 < q → 0 < s.tokenConsumed) :
    PreCharged acc (preConsumeFunding s q acc io) := by
  simp only [preConsumeFunding, fundingPreConsume]
  by_cases hpos : q ≤ 0
  · simp only [hpos, if_true]
    refine ⟨by simp, hs.settled, hs.refunded, hs.fundingSettled, Int.le_refl _, ?_⟩
    intro h
    cases h
  · simp only [hpos, if_false]
    cases hd : decreaseUserQuota acc q io.fundingErr with
    | error e => exact wallet_rollbackToken s acc io.rollbackErr
    | ok acc' =>
        obtain ⟨h0, -, rfl⟩ := adjust_ok hd
        exact ⟨rfl, hs.settled, hs.refunded, hs.fundingSettled, h0, fun _ => hq (by omega)⟩

theorem PreCharged.of_wallet_eq {acc acc' : Accounts}
    {r : Accounts × Except NewAPIError BillingSession} (h : PreCharged acc' r)
    (hw : acc'.wallet = acc.wallet) : PreCharged acc r := by
  obtain ⟨a, e | s⟩ := r
  · exact Eq.trans h hw
  · exact ⟨by rw [h.1, hw], h.2⟩

theorem preCharged_preConsume (env : BillingEnv) (info : RelayInfo) (quota : Int) (acc : Accounts)
    (io : PreConsumeCalls) : PreCharged acc (preConsume env info quota acc io) := by
  simp only [preConsume]
  generalize (if shouldTrust env info then 0 else quota) = q
  have hfresh : (BillingSession.fresh info).Open :=
    ⟨rfl, rfl, rfl, Int.le_refl _, fun h => by cases h⟩
  split
  next hq =>
    split
    next => exact rfl
    next acc' ht =>
      refine PreCharged.of_wallet_eq ?_ (wallet_of_preConsumeTokenQuota ht)
      refine preCharged_preConsumeFunding acc' io ⟨rfl, rfl, rfl, Int.le_refl _, fun _ => hq⟩ ?_
      exact fun _ => hq
  next hq => exact preCharged_preConsumeFunding acc io hfresh fun h => absurd h hq

/-- `NewBillingSession` refuses and leaves the accounts as they are, or it pre-charges with the
quota that it has read. -/
theorem newBillingSession_cases {P : Accounts × Except NewAPIError BillingSession → Prop}
    {env : BillingEnv} {info : RelayInfo} {quota : Int} {acc : Accounts} {io : PreConsumeCalls}
    (hrefused : ∀ e, P (acc, .error e))
    (hcharged : ∀ userQuota, P (preConsume env { info with userQuota := userQuota } quota acc io)) :
    P (newBillingSession env info quota acc io) := by
  simp only [newBillingSession]
  split
  next => exact hrefused _
  next userQuota _ =>
    split
    next => exact hrefused _
    next =>
      split
      next => exact hrefused _
      next => exact hcharged userQuota

theorem preCharged_newBillingSession (env : BillingEnv) (info : RelayInfo) (quota : Int)
    (acc : Accounts) (io : PreConsumeCalls) :
    PreCharged acc (newBillingSession env info quota acc io) :=
  newBillingSession_cases (fun _ => rfl) fun userQuota =>
    preCharged_preConsume env { info with userQuota := userQuota } quota acc io

/-! ## Settlement -/

/-- The store's answers to a settlement. -/
structure SettleCalls where
  fundingErr : StoreErr
  tokenErr : StoreErr
deriving DecidableEq, Repr

/-- `WalletFunding.Settle`. -/
def fundingSettle (acc : Accounts) (delta : Int) (err : StoreErr) : Except String Accounts :=
  if delta = 0 then .ok acc
  else if delta > 0 then decreaseUserQuota acc delta err
  else increaseUserQuota acc (-delta) err

/-- The adjustment of the token by a settlement. -/
def tokenSettle (acc : Accounts) (delta : Int) (err : StoreErr) : Except String Accounts :=
  if delta > 0 then decreaseTokenQuota acc delta err
  else increaseTokenQuota acc (-delta) err

theorem fundingSettle_eq (acc : Accounts) {delta : Int} (err : StoreErr) (h : delta ≠ 0) :
    fundingSettle acc delta err = match err with
      | some e => .error e
      | none => .ok { acc with wallet := acc.wallet - delta } := by
  simp only [fundingSettle, if_neg h]
  split
  next hpos => exact adjust_of_nonneg _ _ _ (by omega)
  next hneg =>
    rw [increaseUserQuota, adjust_of_nonneg _ _ _ (by omega)]
    cases err <;> simp [Int.sub_eq_add_neg]

theorem tokenSettle_eq (acc : Accounts) (delta : Int) (err : StoreErr) :
    tokenSettle acc delta err = match err with
      | some e => .error e
      | none => .ok { acc with token := acc.token - delta } := by
  simp only [tokenSettle]
  split
  next hpos => exact adjust_of_nonneg _ _ _ (by omega)
  next hneg =>
    rw [increaseTokenQuota, adjust_of_nonneg _ _ _ (by omega)]
    cases err <;> simp [Int.sub_eq_add_neg]

/-- The second half of `Settle`, after the wallet. -/
def settleToken (s : BillingSession) (acc : Accounts) (delta : Int) (io : SettleCalls) :
    BillingSession × Accounts × StoreErr :=
  let s' := { s with settled := true }
  if s.isPlayground then (s', acc, none)
  else
    match tokenSettle acc delta io.tokenErr with
    | .ok acc' => (s', acc', none)
    | .error e => (s', acc, some e)

/-- `BillingSession.Settle`: the session, the balances and the error. -/
def BillingSession.settle (s : BillingSession) (acc : Accounts) (actualQuota : Int)
    (io : SettleCalls) : BillingSession × Accounts × StoreErr :=
  if s.settled then (s, acc, none)
  else
    let delta := actualQuota - s.preConsumedQuota
    if delta = 0 then ({ s with settled := true }, acc, none)
    else if s.fundingSettled then settleToken s acc delta io
    else
      match fundingSettle acc delta io.fundingErr with
      | .error e => (s, acc, some e)
      | .ok acc' => settleToken { s with fundingSettled := true } acc' delta io

/-- A settlement ends in one of three ways on an open session whose wallet part
has not been settled: the estimate was right, the wallet refuses, or the wallet
takes the difference, whatever the token does. -/
theorem settle_cases (s : BillingSession) (acc : Accounts) (a : Int) (io : SettleCalls)
    (hs : s.settled = false) (hf : s.fundingSettled = false) (hpg : s.isPlayground = false) :
    (a = s.preConsumedQuota ∧ s.settle acc a io = ({ s with settled := true }, acc, none)) ∨
    (a ≠ s.preConsumedQuota ∧ ∃ e, io.fundingErr = some e ∧ s.settle acc a io = (s, acc, some e)) ∨
    (a ≠ s.preConsumedQuota ∧ io.fundingErr = none ∧
      ∃ token, s.settle acc a io =
          ({ s with fundingSettled := true, settled := true },
            ⟨acc.wallet - (a - s.preConsumedQuota), token⟩, io.tokenErr) ∧
        (io.tokenErr = none → token = acc.token - (a - s.preConsumedQuota))) := by
  simp only [BillingSession.settle, hs, hf, Bool.false_eq_true, if_false]
  by_cases ha : a = s.preConsumedQuota
  · exact Or.inl ⟨ha, by rw [if_pos (by omega)]⟩
  · have hd : a - s.preConsumedQuota ≠ 0 := by omega
    rw [if_neg hd, fundingSettle_eq acc io.fundingErr hd]
    cases hfe : io.fundingErr with
    | some e => exact Or.inr (Or.inl ⟨ha, e, rfl, rfl⟩)
    | none =>
        refine Or.inr (Or.inr ⟨ha, rfl, ?_⟩)
        simp only [settleToken, hpg, Bool.false_eq_true, if_false, tokenSettle_eq]
        cases hte : io.tokenErr with
        | some e => exact ⟨acc.token, rfl, by simp⟩
        | none => exact ⟨_, rfl, fun _ => rfl⟩

/-- Once the token is settled, the session is; it is not thereby refunded. -/
theorem settleToken_flags (s : BillingSession) (acc : Accounts) (delta : Int) (io : SettleCalls) :
    (settleToken s acc delta io).1.settled = true ∧
      (settleToken s acc delta io).1.refunded = s.refunded := by
  simp only [settleToken]
  split
  next => exact ⟨rfl, rfl⟩
  next => split <;> exact ⟨rfl, rfl⟩

/-- A settlement that the wallet does not refuse leaves the session settled. -/
theorem settle_settled {s : BillingSession} {a : Int} {io : SettleCalls} (acc : Accounts)
    (h : a = s.preConsumedQuota ∨ s.fundingSettled = true ∨ io.fundingErr = none) :
    (s.settle acc a io).1.settled = true := by
  simp only [BillingSession.settle]
  split
  next hs => exact hs
  next =>
    split
    next => rfl
    next hd =>
      split
      next => exact (settleToken_flags ..).1
      next hf =>
        have hio : io.fundingErr = none :=
          (h.resolve_left (by omega)).resolve_left hf
        rw [fundingSettle_eq acc io.fundingErr hd, hio]
        exact (settleToken_flags ..).1

/-- A settlement does not touch the refund flag. -/
theorem settle_refunded (s : BillingSession) (acc : Accounts) (a : Int) (io : SettleCalls) :
    (s.settle acc a io).1.refunded = s.refunded := by
  simp only [BillingSession.settle]
  split
  next => rfl
  next =>
    split
    next => rfl
    next =>
      split
      next => exact (settleToken_flags ..).2
      next =>
        split
        next => rfl
        next => exact (settleToken_flags ..).2

/-! ## Refund -/

/-- `needsRefundLocked`. -/
def BillingSession.needsRefundLocked (s : BillingSession) : Bool :=
  if s.settled || s.refunded || s.fundingSettled then false else s.tokenConsumed > 0

/-- What the asynchronous body of a refund has still to do. -/
inductive RefundJob where
  | funding (consumed tokenConsumed : Int) (isPlayground : Bool)
  | token (tokenConsumed : Int) (isPlayground : Bool)
  | finished
deriving DecidableEq, Repr

/-- `BillingSession.Refund` up to the start of its asynchronous body. -/
def BillingSession.refund (s : BillingSession) : BillingSession × Option RefundJob :=
  if s.settled || s.refunded || !s.needsRefundLocked then (s, none)
  else ({ s with refunded := true }, some (.funding s.consumed s.tokenConsumed s.isPlayground))

/-- `WalletFunding.Refund`. -/
def fundingRefund (acc : Accounts) (consumed : Int) (err : StoreErr) : Except String Accounts :=
  if consumed ≤ 0 then .ok acc else increaseUserQuota acc consumed err

/-- The return of the token's charge by the asynchronous body. -/
def tokenRefund (acc : Accounts) (tokenConsumed : Int) (isPlayground : Bool) (err : StoreErr) :
    Except String Accounts :=
  if tokenConsumed > 0 && !isPlayground then increaseTokenQuota acc tokenConsumed err
  else .ok acc

end DazeApi.Billing
