import DazeApi.Lib.Run
import DazeApi.Lib.Pool
import DazeApi.Billing.Session

/-!
# Concurrent pre-charges of one user

Any number of requests of one user in `NewBillingSession`, each with a token of
its own choice.  A request reads the wallet and compares, reads the token and
compares, charges the token, charges the wallet, and returns the token's charge
when the wallet's fails.  These six calls are the atomic steps, so between a
comparison and its charge any other request may come in.

The wallet is one balance: `GetUserQuota` reads the cache, or the row and the
pending delta of the batch updater.  `GetTokenByKey` has no such correction, so
a token has a row and a pending delta, and a read that misses the cache sees the
row alone.
-/

namespace DazeApi.Billing.PreConsume

open DazeApi.Types

/-! ## The system -/

/-- Settings, and which tokens have no limit. -/
structure Config where
  env : BillingEnv
  unlimited : Nat → Bool
  redisEnabled : Bool
  batchUpdateEnabled : Bool

/-- The remaining quota of a token: its row and what the batch updater holds. -/
structure TokenBalance where
  row : Int
  pending : Int
deriving DecidableEq, Repr

def TokenBalance.live (b : TokenBalance) : Int := b.row + b.pending

/-- The update of a token by `delta`, in the row or in the batch store. -/
def TokenBalance.move (batchUpdateEnabled : Bool) (b : TokenBalance) (delta : Int) :
    TokenBalance :=
  if batchUpdateEnabled then { b with pending := b.pending + delta }
  else { b with row := b.row + delta }

/-- What `GetTokenByKey` reads. -/
def TokenBalance.read (redisEnabled cacheHit : Bool) (b : TokenBalance) : Int :=
  if redisEnabled && cacheHit then b.live else b.row

/-- A request as it enters `NewBillingSession`. -/
structure Request where
  tokenId : Nat
  isPlayground : Bool
  forcePreConsume : Bool
  tokenQuota : Int
  preConsumedQuota : Int
deriving DecidableEq, Repr

/-- The request's `RelayInfo` once the wallet has been read. -/
def Request.info (cfg : Config) (r : Request) (userQuota : Int) : RelayInfo where
  isPlayground := r.isPlayground
  tokenUnlimited := cfg.unlimited r.tokenId
  forcePreConsume := r.forcePreConsume
  tokenQuota := r.tokenQuota
  userQuota := userQuota

/-- Where a request stands; `q` is the effective quota. -/
inductive Proc where
  /-- The wallet has been compared. -/
  | checked (r : Request) (q : Int)
  /-- The token has been compared. -/
  | tokenChecked (r : Request) (q : Int)
  /-- The token has been charged, or need not be. -/
  | tokenCharged (r : Request) (q : Int) (session : BillingSession)
  /-- The wallet refused, and the token's charge is to be returned. -/
  | rollingBack (r : Request) (q : Int) (session : BillingSession) (e : NewAPIError)
  | created (r : Request) (session : BillingSession)
  /-- `kept` is a token charge that could not be returned. -/
  | rejected (r : Request) (e : NewAPIError) (kept : Int)
deriving DecidableEq, Repr

/-- `failed` is a ghost: a store call has answered an error. -/
structure State where
  wallet : Int
  tokens : Nat → TokenBalance
  procs : List Proc
  failed : Bool

def initial (wallet : Int) (tokens : Nat → TokenBalance) : State where
  wallet := wallet
  tokens := tokens
  procs := []
  failed := false

inductive Act where
  | start (r : Request) (err : StoreErr)
  | readToken (i : Nat) (cacheHit : Bool) (err : StoreErr)
  | chargeToken (i : Nat) (err : StoreErr)
  | chargeWallet (i : Nat) (err : StoreErr)
  | rollback (i : Nat) (err : StoreErr)
  /-- The batch updater writes the pending delta of a token to its row. -/
  | flushToken (tokenId : Nat)
deriving DecidableEq, Repr

def tokenError (e : String) : NewAPIError :=
  newErrorWithStatusCode e "pre_consume_token_quota_failed" 403 [.skipRetry, .noRecordErrorLog]

/-- The beginning of `NewBillingSession`, up to the first charge. -/
def startProc (cfg : Config) (r : Request) (wallet : Int) : StoreErr → Proc
  | some e => .rejected r (newError e "query_data_error" [.skipRetry]) 0
  | none =>
      if wallet ≤ 0 then
        .rejected r (newErrorWithStatusCode
          ("用户额度不足, 剩余额度: " ++ cfg.env.formatQuota wallet)
          "insufficient_user_quota" 403 [.skipRetry, .noRecordErrorLog]) 0
      else if !shouldTrust cfg.env (r.info cfg wallet) && wallet - r.preConsumedQuota < 0 then
        .rejected r (newErrorWithStatusCode
          ("预扣费额度失败, 用户剩余额度: " ++ cfg.env.formatQuota wallet ++
            ", 需要预扣费额度: " ++ cfg.env.formatQuota r.preConsumedQuota)
          "insufficient_user_quota" 403 [.skipRetry, .noRecordErrorLog]) 0
      else
        let q := if shouldTrust cfg.env (r.info cfg wallet) then 0 else r.preConsumedQuota
        let session := BillingSession.fresh (r.info cfg wallet)
        -- `PreConsumeTokenQuota` returns at once in the playground
        if q > 0 then
          if r.isPlayground then .tokenCharged r q { session with tokenConsumed := q }
          else .checked r q
        else .tokenCharged r q session

/-- The comparison of `PreConsumeTokenQuota`. -/
def readTokenProc (cfg : Config) (r : Request) (q remain : Int) : StoreErr → Proc
  | some e => .rejected r (tokenError e) 0
  | none =>
      if !cfg.unlimited r.tokenId && remain < q then
        .rejected r (tokenError ("token quota is not enough, token remain quota: " ++
          cfg.env.formatQuota remain ++ ", need quota: " ++ cfg.env.formatQuota q)) 0
      else .tokenChecked r q

def State.goto (s : State) (i : Nat) (p : Proc) : State := { s with procs := s.procs.set i p }

def State.setToken (s : State) (k : Nat) (b : TokenBalance) : State :=
  { s with tokens := Function.update s.tokens k b }

/-- A store call has answered. -/
def State.answered (s : State) (err : StoreErr) : State := { s with failed := s.failed || err.isSome }

/-- The token's charge. -/
def chargeTokenStep (cfg : Config) (s : State) (i : Nat) (r : Request) (q : Int)
    (err : StoreErr) : State :=
  match adjust (fun b d => TokenBalance.move cfg.batchUpdateEnabled b (-d)) (s.tokens r.tokenId)
      q err with
  | .error e => (s.answered err).goto i (.rejected r (tokenError e) 0)
  | .ok b =>
      (s.setToken r.tokenId b).goto i
        (.tokenCharged r q
          { BillingSession.fresh (r.info cfg s.wallet) with tokenConsumed := q })

/-- The wallet's charge and the end of `preConsume`. -/
def chargeWalletStep (s : State) (i : Nat) (r : Request) (q : Int) (session : BillingSession)
    (err : StoreErr) : State :=
  if q ≤ 0 then s.goto i (.created r { session with preConsumedQuota := q })
  else
    match adjust (fun w d => w - d) s.wallet q err with
    | .error e =>
        let apiErr := newError e "update_data_error" [.skipRetry]
        (s.answered err).goto i
          (if session.tokenConsumed > 0 && !r.isPlayground then .rollingBack r q session apiErr
           else .rejected r apiErr 0)
    | .ok w =>
        { s with wallet := w }.goto i
          (.created r { session with consumed := q, preConsumedQuota := q })

/-- The return of the token's charge. -/
def rollbackStep (cfg : Config) (s : State) (i : Nat) (r : Request) (session : BillingSession)
    (e : NewAPIError) (err : StoreErr) : State :=
  match adjust (TokenBalance.move cfg.batchUpdateEnabled) (s.tokens r.tokenId)
      session.tokenConsumed err with
  | .error _ => (s.answered err).goto i (.rejected r e session.tokenConsumed)
  | .ok b => (s.setToken r.tokenId b).goto i (.rejected r e 0)

/-- The system. -/
def step (cfg : Config) (s : State) : Act → Option State
  | .start r err =>
      some { s.answered err with procs := s.procs ++ [startProc cfg r s.wallet err] }
  | .readToken i cacheHit err =>
      match s.procs[i]? with
      | some (.checked r q) =>
          some ((s.answered err).goto i
            (readTokenProc cfg r q ((s.tokens r.tokenId).read cfg.redisEnabled cacheHit) err))
      | _ => none
  | .chargeToken i err =>
      match s.procs[i]? with
      | some (.tokenChecked r q) => some (chargeTokenStep cfg s i r q err)
      | _ => none
  | .chargeWallet i err =>
      match s.procs[i]? with
      | some (.tokenCharged r q session) => some (chargeWalletStep s i r q session err)
      | _ => none
  | .rollback i err =>
      match s.procs[i]? with
      | some (.rollingBack r _ session e) => some (rollbackStep cfg s i r session e err)
      | _ => none
  | .flushToken k => some (s.setToken k ⟨(s.tokens k).live, 0⟩)

/-! ## Inversion -/

/-- The transitions of the system. -/
inductive Step (cfg : Config) (s : State) : Act → State → Prop where
  | start {r : Request} {err : StoreErr} :
      Step cfg s (.start r err)
        { s.answered err with procs := s.procs ++ [startProc cfg r s.wallet err] }
  | readToken {i : Nat} {cacheHit : Bool} {err : StoreErr} {r : Request} {q : Int} :
      s.procs[i]? = some (.checked r q) →
      Step cfg s (.readToken i cacheHit err) ((s.answered err).goto i
        (readTokenProc cfg r q ((s.tokens r.tokenId).read cfg.redisEnabled cacheHit) err))
  | tokenCharged {i : Nat} {r : Request} {q : Int} :
      s.procs[i]? = some (.tokenChecked r q) →
      Step cfg s (.chargeToken i none)
        ((s.setToken r.tokenId (TokenBalance.move cfg.batchUpdateEnabled (s.tokens r.tokenId) (-q))).goto i
          (.tokenCharged r q
            { BillingSession.fresh (r.info cfg s.wallet) with tokenConsumed := q }))
  | tokenRefused {i : Nat} {err : StoreErr} {r : Request} {q : Int} {e : NewAPIError} :
      s.procs[i]? = some (.tokenChecked r q) →
      (q < 0 ∨ err.isSome = true) →
      Step cfg s (.chargeToken i err) ((s.answered err).goto i (.rejected r e 0))
  | walletFree {i : Nat} {err : StoreErr} {r : Request} {q : Int} {session : BillingSession} :
      s.procs[i]? = some (.tokenCharged r q session) →
      q ≤ 0 →
      Step cfg s (.chargeWallet i err)
        (s.goto i (.created r { session with preConsumedQuota := q }))
  | walletCharged {i : Nat} {r : Request} {q : Int} {session : BillingSession} :
      s.procs[i]? = some (.tokenCharged r q session) →
      Step cfg s (.chargeWallet i none) ({ s with wallet := s.wallet - q }.goto i
        (.created r { session with consumed := q, preConsumedQuota := q }))
  | walletRefused {i : Nat} {err : StoreErr} {r : Request} {q : Int} {session : BillingSession}
      {e : NewAPIError} :
      s.procs[i]? = some (.tokenCharged r q session) →
      err.isSome = true →
      Step cfg s (.chargeWallet i err) ((s.answered err).goto i
        (if session.tokenConsumed > 0 && !r.isPlayground then .rollingBack r q session e
         else .rejected r e 0))
  | rolledBack {i : Nat} {r : Request} {q : Int} {session : BillingSession} {e : NewAPIError} :
      s.procs[i]? = some (.rollingBack r q session e) →
      Step cfg s (.rollback i none)
        ((s.setToken r.tokenId
            (TokenBalance.move cfg.batchUpdateEnabled (s.tokens r.tokenId) session.tokenConsumed)).goto i
          (.rejected r e 0))
  | notRolledBack {i : Nat} {err : StoreErr} {r : Request} {q : Int} {session : BillingSession}
      {e : NewAPIError} :
      s.procs[i]? = some (.rollingBack r q session e) →
      (session.tokenConsumed < 0 ∨ err.isSome = true) →
      Step cfg s (.rollback i err)
        ((s.answered err).goto i (.rejected r e session.tokenConsumed))
  | flushToken {k : Nat} :
      Step cfg s (.flushToken k) (s.setToken k ⟨(s.tokens k).live, 0⟩)

/-- Every step of the system is a transition of `Step`. -/
theorem step_inv {cfg : Config} {s s' : State} {a : Act} (h : step cfg s a = some s') :
    Step cfg s a s' := by
  cases a with
  | start r err => cases h; exact .start
  | readToken i cacheHit err =>
      simp only [step] at h
      split at h
      next hp => cases h; exact .readToken hp
      next => cases h
  | chargeToken i err =>
      simp only [step] at h
      split at h
      next r q hp =>
        cases h
        simp only [chargeTokenStep, adjust]
        by_cases hq : q < 0
        · rw [if_pos hq]
          exact .tokenRefused hp (Or.inl hq)
        · rw [if_neg hq]
          cases err with
          | some e => exact .tokenRefused hp (Or.inr rfl)
          | none => exact .tokenCharged hp
      next => cases h
  | chargeWallet i err =>
      simp only [step] at h
      split at h
      next r q session hp =>
        cases h
        simp only [chargeWalletStep]
        split
        next hq => exact .walletFree hp hq
        next hq =>
          rw [adjust_of_nonneg _ _ _ (by omega)]
          cases err with
          | some e => exact .walletRefused hp rfl
          | none => exact .walletCharged hp
      next => cases h
  | rollback i err =>
      simp only [step] at h
      split at h
      next r q session e hp =>
        cases h
        simp only [rollbackStep, adjust]
        by_cases hq : session.tokenConsumed < 0
        · rw [if_pos hq]
          exact .notRolledBack hp (Or.inl hq)
        · rw [if_neg hq]
          cases err with
          | some e => exact .notRolledBack hp (Or.inr rfl)
          | none => exact .rolledBack hp
      next => cases h
  | flushToken k => cases h; exact .flushToken

end DazeApi.Billing.PreConsume
