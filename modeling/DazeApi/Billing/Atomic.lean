import DazeApi.Billing.Session

/-!
# A pre-charge is all or nothing

`NewBillingSession` charges the token, then the wallet, and returns the token's
charge by hand when the wallet refuses.  The store may fail at any of its calls
except that return.  An error leaves both balances as they were, and a session
has taken the quota it reports from the wallet and, outside the playground, from
the token.
-/

namespace DazeApi.Billing

open DazeApi.Types

/-- The fields of `RelayInfo` that `syncRelayInfo` writes. -/
structure SyncedInfo where
  finalPreConsumedQuota : Int
  billingSource : String
deriving DecidableEq, Repr

/-- `BillingSession.syncRelayInfo`. -/
def BillingSession.syncRelayInfo (s : BillingSession) : SyncedInfo where
  finalPreConsumedQuota := s.preConsumedQuota
  billingSource := "wallet"

/-- The balances after a charge of `q`; the playground has no token to charge. -/
def Accounts.charged (acc : Accounts) (isPlayground : Bool) (q : Int) : Accounts where
  wallet := acc.wallet - q
  token := if isPlayground then acc.token else acc.token - q

@[simp] theorem charged_zero (acc : Accounts) (isPlayground : Bool) :
    acc.charged isPlayground 0 = acc := by
  simp [Accounts.charged]

/-- An outcome of `NewBillingSession` on the balances `acc`: nothing was charged, or
exactly what the session reports. -/
def AllOrNothing (isPlayground : Bool) (acc : Accounts) :
    Accounts × Except NewAPIError BillingSession → Prop
  | (acc', .error _) => acc' = acc
  | (acc', .ok s) => acc' = acc.charged isPlayground s.syncRelayInfo.finalPreConsumedQuota

/-- The return of a token charge that the store does not refuse. -/
theorem rollbackToken_ok {s : BillingSession} {q : Int} (acc : Accounts) (hq : 0 < q)
    (hs : s.tokenConsumed = q) :
    rollbackToken s { acc with token := if s.isPlayground then acc.token else acc.token - q } none =
      acc := by
  cases hplay : s.isPlayground with
  | true => simp [rollbackToken, hplay]
  | false =>
      have hpos : (decide (s.tokenConsumed > 0) && !s.isPlayground) = true := by
        simp [hplay, hs, hq]
      rw [rollbackToken, if_pos hpos, increaseTokenQuota, adjust_of_nonneg _ _ _ (by omega), hs]
      simp

/-- The wallet's half, when the token's half has taken `q`. -/
theorem allOrNothing_preConsumeFunding {s : BillingSession} {q : Int} {io : PreConsumeCalls}
    (acc : Accounts) (hq : 0 < q) (hs : s.tokenConsumed = q) (hio : io.rollbackErr = none) :
    AllOrNothing s.isPlayground acc (preConsumeFunding s q
      { acc with token := if s.isPlayground then acc.token else acc.token - q } io) := by
  simp only [preConsumeFunding, fundingPreConsume, if_neg (by omega : ¬ q ≤ 0), decreaseUserQuota,
    adjust_of_nonneg _ _ _ (by omega : 0 ≤ q), hio]
  cases io.fundingErr with
  | some e => exact rollbackToken_ok acc hq hs
  | none => rfl

theorem allOrNothing_preConsume {quota : Int} {io : PreConsumeCalls} (env : BillingEnv)
    (info : RelayInfo) (acc : Accounts) (hquota : 0 ≤ quota) (hio : io.rollbackErr = none) :
    AllOrNothing info.isPlayground acc (preConsume env info quota acc io) := by
  have heff : 0 ≤ (if shouldTrust env info then 0 else quota) := by
    split
    next => exact Int.le_refl 0
    next => exact hquota
  simp only [preConsume]
  generalize (if shouldTrust env info then 0 else quota) = q at heff ⊢
  split
  next hq =>
    split
    next => exact rfl
    next acc' htok =>
      rw [preConsumeTokenQuota_ok htok]
      exact allOrNothing_preConsumeFunding
        (s := { BillingSession.fresh info with tokenConsumed := q }) acc hq rfl hio
  next hq =>
    -- a free request charges neither
    obtain rfl : q = 0 := by omega
    simp [preConsumeFunding, fundingPreConsume, AllOrNothing, BillingSession.syncRelayInfo]

end DazeApi.Billing
