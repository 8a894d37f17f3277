import DazeApi.Billing.Requests

/-!
# The ledgers of finished requests agree

When all requests have ended and no store has refused a write, the log has one row for each
request that succeeded and none for the others, and every other ledger has moved by the sum of
these rows.

On the way there a request may have charged more to a ledger than the log says.  That is its hold
on the ledger, and what the ledger has moved by is at any time the sum of the rows and the holds.
-/

namespace DazeApi.Billing.Requests

open DazeApi.Relay (Attempt Loop pass getChannel)

/-! ## What is meant -/

/-- A ledger that the log can be compared with. -/
inductive Key where
  | wallet
  | token (tokenId : Nat)
  | usedQuota
  | requestCount
  | channel (channelId : Int)
deriving DecidableEq, Repr

/-- What has been charged to a ledger. -/
def Ledgers.spent (l : Ledgers) : Key → Int
  | .wallet => -l.wallet
  | .token tokenId => -l.tokens tokenId
  | .usedQuota => l.usedQuota
  | .requestCount => l.requestCount
  | .channel channelId => l.channels channelId

/-- What charges of the two balances are to a ledger; the playground has no token. -/
def balances (tokenId : Nat) (isPlayground : Bool) (wallet token : Int) : Key → Int
  | .wallet => wallet
  | .token k => if tokenId = k ∧ isPlayground = false then token else 0
  | _ => 0

/-- What a count of `quota` is to a ledger; a request that is charged nothing is not counted. -/
def counts (channelId quota : Int) : Key → Int
  | .usedQuota => quota
  | .requestCount => if quota ≠ 0 then 1 else 0
  | .channel c => if channelId = c then quota else 0
  | _ => 0

def Log.charge (log : Log) (key : Key) : Int :=
  balances log.tokenId log.isPlayground log.quota log.quota key + counts log.channelId log.quota key

/-- The row of a request that has succeeded and ended. -/
def Exec.log (e : Exec) : Option Log :=
  match e.proc with
  | .ended log => log
  | _ => none

/-- Nobody has more to do. -/
def State.Ended (s : State) : Prop := ∀ e ∈ s.execs, ∃ log, e.proc = .ended log

/-- Every ledger agrees with the log, and the log with the requests. -/
structure Agree (before : Ledgers) (s : State) : Prop where
  logs : s.ledgers.logs.Perm (s.execs.filterMap Exec.log)
  wallet : s.ledgers.wallet = before.wallet - Pool.total Log.quota s.ledgers.logs
  usedQuota : s.ledgers.usedQuota = before.usedQuota + Pool.total Log.quota s.ledgers.logs
  requestCount : s.ledgers.requestCount =
    before.requestCount + (s.ledgers.logs.filter fun log => log.quota ≠ 0).length
  token : ∀ k, s.ledgers.tokens k = before.tokens k -
    Pool.total Log.quota (s.ledgers.logs.filter fun log => log.tokenId = k ∧ log.isPlayground = false)
  channel : ∀ c, s.ledgers.channels c = before.channels c +
    Pool.total Log.quota (s.ledgers.logs.filter fun log => log.channelId = c)

/-- What the pricing gives: no negative estimate, and retries that may be none. -/
def Act.Proper : Act → Prop
  | .start r _ => 0 ≤ r.quotaToPreConsume ∧ 0 ≤ r.relay.retryTimes
  | _ => True

/-! ## Sessions -/

/-- A session that holds a charge of `p`. -/
def held (isPlayground : Bool) (p : Int) : BillingSession where
  isPlayground := isPlayground
  consumed := p
  preConsumedQuota := p
  tokenConsumed := p
  fundingSettled := false
  settled := false
  refunded := false

section

variable {env : BillingEnv} {info : RelayInfo} {quota : Int} {acc : Accounts} {io : PreConsumeCalls}

theorem held_preConsume {s : BillingSession} (hquota : 0 ≤ quota)
    (h : (preConsume env info quota acc io).2 = .ok s) :
    ∃ p, 0 ≤ p ∧ s = held info.isPlayground p := by
  have heff : 0 ≤ (if shouldTrust env info then 0 else quota) := by split <;> omega
  simp only [preConsume] at h
  generalize (if shouldTrust env info then 0 else quota) = p at h heff
  split at h
  next hpos =>
    split at h
    next => cases h
    next acc' _ =>
      simp only [preConsumeFunding, fundingPreConsume, if_neg (Int.not_le.2 hpos)] at h
      cases hd : decreaseUserQuota acc' p io.fundingErr with
      | error e => simp [hd, Except.map] at h
      | ok acc'' =>
          simp only [hd, Except.map] at h
          cases h
          exact ⟨p, heff, rfl⟩
  next hpos =>
    obtain rfl : p = 0 := by omega
    simp only [preConsumeFunding, fundingPreConsume, Int.le_refl, if_true] at h
    cases h
    exact ⟨0, Int.le_refl 0, rfl⟩

theorem held_newBillingSession {s : BillingSession} (hquota : 0 ≤ quota)
    (h : (newBillingSession env info quota acc io).2 = .ok s) :
    ∃ p, 0 ≤ p ∧ s = held info.isPlayground p := by
  revert h
  refine newBillingSession_cases
    (P := fun r => r.2 = .ok s → ∃ p, 0 ≤ p ∧ s = held info.isPlayground p)
    (fun _ h => by cases h) fun userQuota h => ?_
  obtain ⟨p, hp, hs⟩ := held_preConsume hquota h
  exact ⟨p, hp, hs⟩

/-- A pre-charge takes what its session holds, or nothing. -/
theorem allOrNothing_newBillingSession (hquota : 0 ≤ quota) (hio : io.rollbackErr = none) :
    AllOrNothing info.isPlayground acc (newBillingSession env info quota acc io) :=
  newBillingSession_cases (fun _ => rfl) fun userQuota =>
    allOrNothing_preConsume env { info with userQuota := userQuota } acc hquota hio

theorem fundingSettle_ok {delta : Int} {err : StoreErr} {acc' : Accounts}
    (h : fundingSettle acc delta err = .ok acc') : acc' = { acc with wallet := acc.wallet - delta } := by
  by_cases hdelta : delta = 0
  · rw [fundingSettle, if_pos hdelta] at h
    cases h
    rw [hdelta, Int.sub_zero]
  · rw [fundingSettle_eq acc err hdelta] at h
    cases err with
    | some e => cases h
    | none => exact (Except.ok.inj h).symm

/-- A settlement that succeeds takes the rest. -/
theorem settle_held (isPlayground : Bool) (p actual : Int) (io : SettleCalls)
    (h : ((held isPlayground p).settle acc actual io).2.2 = none) :
    ((held isPlayground p).settle acc actual io).2.1 = acc.charged isPlayground (actual - p) := by
  rw [BillingSession.settle] at h ⊢
  simp only [held, Bool.false_eq_true, if_false] at h ⊢
  split
  next hzero => rw [hzero, charged_zero]
  next hdelta =>
    rw [if_neg hdelta] at h
    cases hfund : fundingSettle acc (actual - p) io.fundingErr with
    | error e =>
        rw [hfund] at h
        cases h
    | ok acc' =>
        rw [hfund] at h
        simp only [settleToken] at h ⊢
        rw [fundingSettle_ok hfund] at h ⊢
        cases isPlayground with
        | true => rfl
        | false =>
            simp only [Bool.false_eq_true, if_false, tokenSettle_eq] at h ⊢
            cases htoken : io.tokenErr with
            | some e =>
                rw [htoken] at h
                cases h
            | none => rfl

theorem postConsumeQuota_ok {isPlayground : Bool} {we te : StoreErr}
    (h : (Realtime.postConsumeQuota isPlayground acc quota we te).2 = none) :
    (Realtime.postConsumeQuota isPlayground acc quota we te).1 = acc.charged isPlayground quota := by
  have hwallet : ∀ acc', (if quota > 0 then decreaseUserQuota acc quota we
      else increaseUserQuota acc (-quota) we) = .ok acc' →
        acc' = { acc with wallet := acc.wallet - quota } := by
    intro acc' h'
    split at h'
    next => exact (adjust_ok h').2.2
    next => rw [(adjust_ok h').2.2, Int.sub_eq_add_neg]
  have htoken : ∀ acc₁ acc₂ : Accounts, (if quota > 0 then decreaseTokenQuota acc₁ quota te
      else increaseTokenQuota acc₁ (-quota) te) = .ok acc₂ →
        acc₂ = { acc₁ with token := acc₁.token - quota } := by
    intro acc₁ acc₂ h'
    split at h'
    next => exact (adjust_ok h').2.2
    next => rw [(adjust_ok h').2.2, Int.sub_eq_add_neg]
  simp only [Realtime.postConsumeQuota] at h ⊢
  split at h
  next => cases h
  next acc₁ h₁ =>
    rw [hwallet acc₁ h₁] at h ⊢
    cases isPlayground with
    | true => rfl
    | false =>
        simp only [Bool.false_eq_true, if_false] at h ⊢
        split at h
        next => cases h
        next acc₂ h₂ => exact htoken _ acc₂ h₂

end

/-! ## Holds -/

/-- The charge that the session holds. -/
def heldQuota (session : Option BillingSession) : Int := (session.map (·.preConsumedQuota)).getD 0

/-- What a request has charged to a ledger and not yet written to the log. -/
def Exec.hold (e : Exec) (key : Key) : Int :=
  let balances := fun wallet token =>
    balances e.request.tokenId e.request.info.isPlayground wallet token key
  match e.proc with
  | .loop session _ | .count session _ _ => balances (heldQuota session) (heldQuota session)
  | .settle session channelId quota =>
      balances (heldQuota session) (heldQuota session) + counts channelId quota key
  | .log channelId quota => balances quota quota + counts channelId quota key
  | .refund (.funding consumed tokenConsumed _) => balances consumed tokenConsumed
  | .refund (.token tokenConsumed _) => balances 0 tokenConsumed
  | .refund .finished | .ended _ => 0

/-- The session of a request, if there is one, holds its charge. -/
def SessionOk (r : Request) (session : Option BillingSession) : Prop :=
  ∀ s ∈ session, ∃ p, 0 ≤ p ∧ s = held r.info.isPlayground p

/-- What holds of a request at its place. -/
def Exec.Ok (e : Exec) : Prop :=
  match e.proc with
  | .loop session loop =>
      SessionOk e.request session ∧
        (loop.newAPIError = none → loop.search.param.retry ≤ e.request.relay.retryTimes)
  | .count session _ _ | .settle session _ _ => SessionOk e.request session
  | .log _ _ => True
  | .refund (.funding consumed tokenConsumed isPlayground) =>
      0 ≤ consumed ∧ tokenConsumed = consumed ∧ isPlayground = e.request.info.isPlayground
  | .refund (.token tokenConsumed isPlayground) =>
      0 ≤ tokenConsumed ∧ isPlayground = e.request.info.isPlayground
  | .refund .finished => True
  | .ended log => ∀ l ∈ log, l.tokenId = e.request.tokenId ∧
      l.isPlayground = e.request.info.isPlayground

structure Inv (before : Ledgers) (s : State) : Prop where
  ok : ∀ e ∈ s.execs, e.Ok
  logs : s.ledgers.logs.Perm (s.execs.filterMap Exec.log)
  spent : s.failed = false → ∀ key, s.ledgers.spent key =
    before.spent key + Pool.total (fun log => log.charge key) s.ledgers.logs +
      Pool.total (fun e => e.hold key) s.execs

section

variable {before : Ledgers} {s s' : State} {i : Nat} {e : Exec} {p : Proc}

theorem balances_add (tokenId : Nat) (isPlayground : Bool) (w w' t t' : Int) (key : Key) :
    balances tokenId isPlayground (w + w') (t + t') key =
      balances tokenId isPlayground w t key + balances tokenId isPlayground w' t' key := by
  cases key with
  | wallet => rfl
  | token k =>
      simp only [balances]
      split <;> omega
  | usedQuota | requestCount | channel c => rfl

theorem spent_setAccounts (l : Ledgers) (tokenId : Nat) (isPlayground : Bool) (w t : Int)
    (acc : Accounts) (hwallet : acc.wallet = l.wallet - w)
    (htoken : acc.token = l.tokens tokenId - if isPlayground = false then t else 0) (key : Key) :
    (l.setAccounts tokenId acc).spent key =
      l.spent key + balances tokenId isPlayground w t key := by
  cases key with
  | wallet =>
      show -acc.wallet = -l.wallet + w
      omega
  | token k =>
      simp only [Ledgers.spent, Ledgers.setAccounts, balances]
      by_cases hk : tokenId = k
      · subst hk
        rw [Function.update_self, htoken]
        simp only [true_and]
        omega
      · rw [Function.update_of_ne (Ne.symm hk), if_neg fun h => hk h.1, Int.add_zero]
  | usedQuota | requestCount | channel c => exact (Int.add_zero _).symm

theorem spent_charged (l : Ledgers) (tokenId : Nat) (isPlayground : Bool) (d : Int) (key : Key) :
    (l.setAccounts tokenId ((l.accounts tokenId).charged isPlayground d)).spent key =
      l.spent key + balances tokenId isPlayground d d key := by
  refine spent_setAccounts l tokenId isPlayground d d _ rfl ?_ key
  cases isPlayground with
  | true => exact (Int.sub_zero _).symm
  | false => rfl

theorem setAccounts_accounts (l : Ledgers) (tokenId : Nat) :
    l.setAccounts tokenId (l.accounts tokenId) = l := by
  rw [Ledgers.setAccounts, Ledgers.accounts, Function.update_eq_self]

theorem spent_count (l : Ledgers) {channelId quota : Int} (hquota : quota ≠ 0) (key : Key) :
    (l.count channelId quota).spent key = l.spent key + counts channelId quota key := by
  cases key with
  | wallet | token k => exact (Int.add_zero _).symm
  | usedQuota => rfl
  | requestCount =>
      show l.requestCount + 1 = l.requestCount + _
      rw [counts, if_pos hquota]
  | channel c =>
      simp only [Ledgers.spent, Ledgers.count, counts]
      by_cases hc : channelId = c
      · subst hc
        rw [Function.update_self, if_pos rfl]
      · rw [Function.update_of_ne (Ne.symm hc), if_neg hc, Int.add_zero]

theorem counts_zero (channelId : Int) (key : Key) : counts channelId 0 key = 0 := by
  cases key with
  | channel c =>
      simp only [counts]
      split <;> rfl
  | wallet | token k | usedQuota | requestCount => rfl

/-- A log that is there from the beginning of a step on. -/
theorem Inv.logs_goto (h : Inv before s) (he : s.execs[i]? = some e) (hlog : e.log = none)
    (hp : (⟨e.request, p⟩ : Exec).log = none) :
    s.ledgers.logs.Perm ((s.execs.set i ⟨e.request, p⟩).filterMap Exec.log) := by
  rw [Pool.filterMap_set_of_none he hlog hp]
  exact h.logs

/-- A step that moves a request on, and the ledgers by the change of its hold. -/
theorem Inv.goto {l : Ledgers} {f : Bool} (h : Inv before s) (he : s.execs[i]? = some e)
    (hlogs : l.logs = s.ledgers.logs) (hlog : e.log = none)
    (hp : (⟨e.request, p⟩ : Exec).log = none) (hok : (⟨e.request, p⟩ : Exec).Ok)
    (hf : f = false → s.failed = false)
    (hspent : f = false → ∀ key,
      l.spent key = s.ledgers.spent key - e.hold key + (⟨e.request, p⟩ : Exec).hold key) :
    Inv before ⟨l, s.execs.set i ⟨e.request, p⟩, f⟩ := by
  refine ⟨Pool.forall_set h.ok hok, ?_, ?_⟩
  · show l.logs.Perm _
    rw [hlogs]
    exact h.logs_goto he hlog hp
  · intro hfalse key
    show l.spent key = before.spent key + Pool.total _ l.logs + Pool.total _ (s.execs.set i _)
    rw [hlogs, Pool.total_set _ _ he, hspent hfalse key, h.spent (hf hfalse) key]
    omega

/-! ## Steps -/

theorem balances_zero (tokenId : Nat) (isPlayground : Bool) (key : Key) :
    balances tokenId isPlayground 0 0 key = 0 := by
  cases key with
  | token k =>
      simp only [balances]
      split <;> rfl
  | wallet | usedQuota | requestCount | channel c => rfl

/-- After an error the refund holds what the session held. -/
theorem failed_spec {r : Request} {session : Option BillingSession} (h : SessionOk r session) :
    (⟨r, failed session⟩ : Exec).Ok ∧ (⟨r, failed session⟩ : Exec).log = none ∧
      ∀ key, (⟨r, failed session⟩ : Exec).hold key =
        balances r.tokenId r.info.isPlayground (heldQuota session) (heldQuota session) key := by
  have hended : ∀ session : Option BillingSession, failed session = .ended none →
      heldQuota session = 0 → _ := fun session hfailed hquota =>
    (⟨by rw [hfailed]; exact fun l hl => absurd hl (by simp), by rw [hfailed]; rfl, fun key => by
      rw [hfailed, hquota, balances_zero]; rfl⟩ :
      (⟨r, failed session⟩ : Exec).Ok ∧ (⟨r, failed session⟩ : Exec).log = none ∧
        ∀ key, (⟨r, failed session⟩ : Exec).hold key =
          balances r.tokenId r.info.isPlayground (heldQuota session) (heldQuota session) key)
  cases session with
  | none => exact hended none rfl rfl
  | some s =>
      obtain ⟨p, hp, rfl⟩ := h s rfl
      by_cases hpos : 0 < p
      · have hfailed : failed (some (held r.info.isPlayground p)) =
            .refund (.funding p p r.info.isPlayground) := by
          simp [failed, BillingSession.refund, BillingSession.needsRefundLocked, held,
            Int.not_le.2 hpos]
        rw [hfailed]
        exact ⟨⟨hp, rfl, rfl⟩, rfl, fun key => rfl⟩
      · obtain rfl : p = 0 := by omega
        exact hended _ rfl rfl

/-- A pass keeps the hold, and a request that leaves the loop has ended it well or failed. -/
theorem passProc_spec {r : Request} {session : Option BillingSession} {loop : Loop}
    {a : Attempt Int} {c : Consumption} (hok : SessionOk r session)
    (h : passProc r session loop a c = some p) :
    (⟨r, p⟩ : Exec).Ok ∧ (⟨r, p⟩ : Exec).log = none ∧
      ∀ key, (⟨r, p⟩ : Exec).hold key = (⟨r, .loop session loop⟩ : Exec).hold key := by
  obtain ⟨loop', hpass, hp⟩ := Option.map_eq_some_iff.1 h
  subst hp
  obtain ⟨hreturned, -, ⟨search, err, rfl⟩ | ⟨channelId, search, hchannel, -, rfl⟩⟩ :=
    Relay.pass_cases r.relay hpass
  · exact failed_spec hok
  · generalize a.handler channelId = d
    rw [Loop.decide]
    split
    next hretry =>
      -- only an error is retried
      have hreturned' : (loop.deliver { search with param := search.param.increaseRetry } d).returned
          = false := hreturned
      rw [hreturned']
      refine ⟨⟨hok, fun hnone => ?_⟩, rfl, fun key => rfl⟩
      have herr : d.err = none := hnone
      rw [herr] at hretry
      cases hretry
    next =>
      rw [hchannel]
      cases hd : d.err with
      | none =>
          simp only [Loop.deliver, hd, Bool.not_true, Bool.false_eq_true, if_false]
          exact ⟨hok, rfl, fun key => rfl⟩
      | some err =>
          simp only [Loop.deliver, hd, Bool.not_true, Bool.false_eq_true, if_false]
          exact failed_spec hok

theorem leaveProc_spec {r : Request} {session : Option BillingSession} {loop : Loop}
    (hok : (⟨r, .loop session loop⟩ : Exec).Ok) (h : leaveProc r session loop = some p) :
    (⟨r, p⟩ : Exec).Ok ∧ (⟨r, p⟩ : Exec).log = none ∧
      ∀ key, (⟨r, p⟩ : Exec).hold key = (⟨r, .loop session loop⟩ : Exec).hold key := by
  rw [leaveProc] at h
  split at h
  next hcond =>
    rw [Bool.and_eq_true, decide_eq_true_eq] at hcond
    rw [Option.some.injEq] at h
    subst h
    cases herr : loop.newAPIError with
    | none =>
        have hle : loop.search.param.retry ≤ r.relay.retryTimes := hok.2 herr
        omega
    | some err => exact failed_spec hok.1
  next => cases h

/-- The settlement turns the hold of the session into the charge. -/
theorem settleBilling_spec {r : Request} {session : Option BillingSession} {l : Ledgers}
    {quota : Int} {io : SettleCalls} (hok : SessionOk r session)
    (h : (settleBilling r.info.isPlayground session (l.accounts r.tokenId) quota io).2 = none)
    (key : Key) :
    (l.setAccounts r.tokenId
        (settleBilling r.info.isPlayground session (l.accounts r.tokenId) quota io).1).spent key =
      l.spent key + balances r.tokenId r.info.isPlayground (quota - heldQuota session)
        (quota - heldQuota session) key := by
  have hcharged : (settleBilling r.info.isPlayground session (l.accounts r.tokenId) quota io).1 =
      (l.accounts r.tokenId).charged r.info.isPlayground (quota - heldQuota session) := by
    cases session with
    | some s =>
        obtain ⟨p, -, rfl⟩ := hok s rfl
        exact settle_held r.info.isPlayground p quota io h
    | none =>
        simp only [settleBilling] at h ⊢
        split
        next hdelta =>
          rw [if_pos hdelta] at h
          exact postConsumeQuota_ok h
        next hdelta =>
          have hzero : quota - heldQuota none = 0 := not_not.1 hdelta
          rw [hzero, charged_zero]
  rw [hcharged, spent_charged]

theorem fundingRefund_ok {acc acc' : Accounts} {consumed : Int} {err : StoreErr}
    (hconsumed : 0 ≤ consumed) (h : fundingRefund acc consumed err = .ok acc') :
    acc' = { acc with wallet := acc.wallet + consumed } := by
  rw [fundingRefund] at h
  split at h
  next hzero =>
    obtain rfl : consumed = 0 := by omega
    rw [← Except.ok.inj h, Int.add_zero]
  next => exact (adjust_ok h).2.2

theorem tokenRefund_ok {acc acc' : Accounts} {tokenConsumed : Int} {isPlayground : Bool}
    {err : StoreErr} (hconsumed : 0 ≤ tokenConsumed)
    (h : tokenRefund acc tokenConsumed isPlayground err = .ok acc') :
    acc' = { acc with
      token := acc.token + if isPlayground = false then tokenConsumed else 0 } := by
  rw [tokenRefund] at h
  split at h
  next hcond =>
    rw [Bool.and_eq_true, Bool.not_eq_true'] at hcond
    rw [if_pos hcond.2]
    exact (adjust_ok h).2.2
  next hcond =>
    rw [← Except.ok.inj h]
    cases isPlayground with
    | true => rw [if_neg (by decide), Int.add_zero]
    | false =>
        have hzero : ¬ 0 < tokenConsumed := by simpa using hcond
        obtain rfl : tokenConsumed = 0 := by omega
        rw [if_pos rfl, Int.add_zero]

/-- The refund of one balance, after which the request goes on to `p`. -/
theorem Inv.refunded {r : Except String Accounts} {w t : Int} (h : Inv before s)
    (he : s.execs[i]? = some e) (hlog : e.log = none)
    (hp : (⟨e.request, p⟩ : Exec).log = none) (hok : (⟨e.request, p⟩ : Exec).Ok)
    (hhold : ∀ key, e.hold key = (⟨e.request, p⟩ : Exec).hold key +
      balances e.request.tokenId e.request.info.isPlayground w t key)
    (hr : ∀ acc, r = .ok acc → acc.wallet = s.ledgers.wallet + w ∧
      acc.token = s.ledgers.tokens e.request.tokenId +
        if e.request.info.isPlayground = false then t else 0) :
    Inv before ((s.goto i e p).refunded e.request.tokenId r) := by
  cases r with
  | error err =>
      exact h.goto (l := s.ledgers) (f := true) he rfl hlog hp hok (fun hf => by cases hf)
        (fun hf => by cases hf)
  | ok acc =>
      obtain ⟨hwallet, htoken⟩ := hr acc rfl
      refine h.goto (l := s.ledgers.setAccounts e.request.tokenId acc) (f := s.failed) he rfl hlog hp
        hok id fun _ key => ?_
      have hback := spent_setAccounts s.ledgers e.request.tokenId e.request.info.isPlayground (-w) (-t)
        acc (by omega) (by rw [htoken]; split <;> omega) key
      have hsum := balances_add e.request.tokenId e.request.info.isPlayground w (-w) t (-t) key
      rw [Int.add_right_neg, Int.add_right_neg, balances_zero] at hsum
      have := hhold key
      omega

theorem Inv.stepExec {a : Act} (h : Inv before s) (he : s.execs[i]? = some e)
    (hs : stepExec s i e a = some s') : Inv before s' := by
  have hok := h.ok e (Pool.mem_of_get he)
  obtain ⟨r, proc⟩ := e
  cases a with
  | start r io => cases hs
  | pass j a c =>
      cases proc with
      | loop session loop =>
          obtain ⟨p, hp, rfl⟩ := Option.map_eq_some_iff.1 hs
          obtain ⟨hpok, hplog, hhold⟩ := passProc_spec hok.1 hp
          refine h.goto he rfl rfl hplog hpok id fun _ key => ?_
          rw [hhold key]
          exact (Int.sub_add_cancel _ _).symm
      | count | settle | log | refund | ended => cases hs
  | leave j =>
      cases proc with
      | loop session loop =>
          obtain ⟨p, hp, rfl⟩ := Option.map_eq_some_iff.1 hs
          obtain ⟨hpok, hplog, hhold⟩ := leaveProc_spec hok hp
          refine h.goto he rfl rfl hplog hpok id fun _ key => ?_
          rw [hhold key]
          exact (Int.sub_add_cancel _ _).symm
      | count | settle | log | refund | ended => cases hs
  | count j =>
      cases proc with
      | count session channelId c =>
          -- what is not counted is charged nothing
          have hzero : Quota.validUsage c.usage = false → c.quota = 0 := by
            intro hvalid
            simp only [Consumption.quota, Quota.calculateTextQuotaSummary, hvalid]
            rfl
          have hskip : c.quota = 0 → Inv before (s.goto i ⟨r, .count session channelId c⟩
              (.settle session channelId c.quota)) := by
            intro hquota
            refine h.goto he rfl rfl rfl hok id fun _ key => ?_
            simp only [Exec.hold, hquota, counts_zero]
            omega
          simp only [Requests.stepExec] at hs
          split at hs
          next hvalid =>
            cases hs
            exact hskip (hzero (by simpa using hvalid))
          next =>
            split at hs
            next hquota =>
              cases hs
              refine h.goto he rfl rfl rfl hok id fun _ key => ?_
              refine (spent_count s.ledgers hquota key).trans ?_
              simp only [Exec.hold]
              omega
            next hquota =>
              cases hs
              exact hskip (not_not.1 hquota)
      | loop | settle | log | refund | ended => cases hs
  | settle j io =>
      cases proc with
      | settle session channelId quota =>
          cases hs
          refine h.goto he rfl rfl rfl trivial (fun hf => ?_) fun hf key => ?_
          · exact (Bool.or_eq_false_iff.1 hf).1
          · have herr : (settleBilling r.info.isPlayground session
                (s.ledgers.accounts r.tokenId) quota io).2 = none := by
              have := (Bool.or_eq_false_iff.1 hf).2
              rwa [Option.isSome_eq_false_iff, Option.isNone_iff_eq_none] at this
            refine (settleBilling_spec hok herr key).trans ?_
            have hsum := balances_add r.tokenId r.info.isPlayground (heldQuota session)
              (quota - heldQuota session) (heldQuota session) (quota - heldQuota session) key
            rw [show heldQuota session + (quota - heldQuota session) = quota by omega] at hsum
            simp only [Exec.hold]
            omega
      | loop | count | log | refund | ended => cases hs
  | log j =>
      cases proc with
      | log channelId quota =>
          cases hs
          refine ⟨Pool.forall_set h.ok ?_, ?_, fun hf key => ?_⟩
          · intro l hl
            obtain rfl := Option.mem_some_iff.1 hl
            exact ⟨rfl, rfl⟩
          · exact (h.logs.append_right _).trans (Pool.filterMap_set_of_some he rfl rfl)
          · show s.ledgers.spent key = before.spent key + Pool.total _ (s.ledgers.logs ++ [_]) +
              Pool.total _ (s.execs.set i _)
            rw [Pool.total_start, Pool.total_set _ _ he, h.spent hf key]
            simp only [Exec.hold, Log.charge]
            omega
      | loop | count | settle | refund | ended => cases hs
  | refundFunding j err =>
      cases proc with
      | refund job =>
          cases job with
          | funding consumed tokenConsumed isPlayground =>
              cases hs
              obtain ⟨hconsumed, rfl, hplay⟩ := hok
              replace hplay : isPlayground = r.info.isPlayground := hplay
              subst hplay
              refine h.refunded (w := tokenConsumed) (t := 0) he rfl rfl ⟨hconsumed, rfl⟩
                (fun key => ?_) fun acc hacc => ?_
              · have hsum := balances_add r.tokenId r.info.isPlayground 0 tokenConsumed tokenConsumed
                  0 key
                rw [Int.zero_add, Int.add_zero] at hsum
                exact hsum
              · rw [fundingRefund_ok hconsumed hacc]
                exact ⟨rfl, by rw [ite_self, Int.add_zero]; rfl⟩
          | token | finished => cases hs
      | loop | count | settle | log | ended => cases hs
  | refundToken j err =>
      cases proc with
      | refund job =>
          cases job with
          | token tokenConsumed isPlayground =>
              cases hs
              obtain ⟨hconsumed, hplay⟩ := hok
              replace hplay : isPlayground = r.info.isPlayground := hplay
              subst hplay
              refine h.refunded (w := 0) (t := tokenConsumed) he rfl rfl
                (fun l hl => absurd hl (by simp)) (fun key => ?_) fun acc hacc => ?_
              · exact (Int.zero_add _).symm
              · rw [tokenRefund_ok hconsumed hacc]
                exact ⟨(Int.add_zero _).symm, rfl⟩
          | funding | finished => cases hs
      | loop | count | settle | log | ended => cases hs

theorem begin_ok {r : Request} {l : Ledgers} {io : PreConsumeCalls}
    (hr : 0 ≤ r.quotaToPreConsume ∧ 0 ≤ r.relay.retryTimes) :
    (⟨r, (begin r l io).2⟩ : Exec).Ok ∧ (⟨r, (begin r l io).2⟩ : Exec).log = none ∧
      (begin r l io).1.logs = l.logs := by
  rw [begin]
  split
  next => exact ⟨⟨fun s hs => absurd hs (by simp), fun _ => hr.2⟩, rfl, rfl⟩
  next =>
    split
    next => exact ⟨fun l hl => absurd hl (by simp), rfl, rfl⟩
    next acc session hnew =>
      refine ⟨⟨fun s hs => ?_, fun _ => hr.2⟩, rfl, rfl⟩
      obtain rfl := Option.mem_some_iff.1 hs
      exact held_newBillingSession hr.1 (by rw [hnew])

/-- A pre-charge adds to the ledgers what the new request holds. -/
theorem begin_spent {r : Request} {l : Ledgers} {io : PreConsumeCalls}
    (hr : 0 ≤ r.quotaToPreConsume) (hio : io.rollbackErr = none) (key : Key) :
    (begin r l io).1.spent key = l.spent key + (⟨r, (begin r l io).2⟩ : Exec).hold key := by
  rw [begin]
  split
  next =>
    show l.spent key = l.spent key + balances _ _ 0 0 key
    rw [balances_zero, Int.add_zero]
  next =>
    have hall : AllOrNothing r.info.isPlayground (l.accounts r.tokenId)
        (newBillingSession r.billing r.info r.quotaToPreConsume (l.accounts r.tokenId) io) :=
      allOrNothing_newBillingSession hr hio
    split
    next acc err hnew =>
      rw [hnew] at hall
      show (l.setAccounts r.tokenId acc).spent key = l.spent key + 0
      have hacc : acc = l.accounts r.tokenId := hall
      rw [hacc, setAccounts_accounts, Int.add_zero]
    next acc session hnew =>
      rw [hnew] at hall
      obtain ⟨p, -, rfl⟩ := held_newBillingSession (s := session) hr (by rw [hnew])
      show (l.setAccounts r.tokenId acc).spent key = l.spent key + balances _ _ p p key
      have hacc : acc = (l.accounts r.tokenId).charged r.info.isPlayground p := hall
      rw [hacc, spent_charged]

theorem Inv.step {a : Act} (h : Inv before s) (ha : a.Proper) (hs : step s a = some s') :
    Inv before s' := by
  cases a with
  | start r io =>
      cases hs
      have hbegin : (⟨r, (begin r s.ledgers io).2⟩ : Exec).Ok ∧
          (⟨r, (begin r s.ledgers io).2⟩ : Exec).log = none ∧
          (begin r s.ledgers io).1.logs = s.ledgers.logs := begin_ok ha
      obtain ⟨hok, hlog, hlogs⟩ := hbegin
      refine ⟨Pool.forall_start h.ok hok, ?_, fun hf key => ?_⟩
      · show (begin r s.ledgers io).1.logs.Perm _
        rw [hlogs, List.filterMap_append, List.filterMap_cons_none hlog]
        exact (List.append_nil _).symm ▸ h.logs
      · obtain ⟨hf, hio⟩ := Bool.or_eq_false_iff.1 hf
        have hio : io.rollbackErr = none := by
          rwa [Option.isSome_eq_false_iff, Option.isNone_iff_eq_none] at hio
        show (begin r s.ledgers io).1.spent key = before.spent key +
          Pool.total _ (begin r s.ledgers io).1.logs + Pool.total _ (s.execs ++ [_])
        rw [hlogs, Pool.total_start, begin_spent ha.1 hio, h.spent hf key]
        omega
  | pass i a c | leave i | count i | settle i io | log i | refundFunding i err | refundToken i err =>
      simp only [Requests.step, Act.index] at hs
      split at hs
      · cases hs
      next e he => exact h.stepExec he hs

theorem inv_initial (before : Ledgers) : Inv before (initial before) := by
  refine ⟨fun e he => absurd he List.not_mem_nil, List.Perm.refl _, fun _ key => ?_⟩
  show before.spent key = before.spent key + 0 + 0
  omega

/-! ## The sums of a ledger -/

theorem total_filter (q : Log → Bool) (logs : List Log) :
    Pool.total (fun log => if q log then log.quota else 0) logs =
      Pool.total Log.quota (logs.filter q) := by
  induction logs with
  | nil => rfl
  | cons log logs ih =>
      rw [Pool.total_cons, ih, List.filter_cons]
      cases q log with
      | true => rw [if_pos rfl, if_pos rfl, Pool.total_cons]
      | false => rw [if_neg Bool.false_ne_true, if_neg Bool.false_ne_true, Int.zero_add]

theorem total_counted (logs : List Log) :
    Pool.total (fun log => if log.quota ≠ 0 then (1 : Int) else 0) logs =
      (logs.filter fun log => log.quota ≠ 0).length := by
  induction logs with
  | nil => rfl
  | cons log logs ih =>
      rw [Pool.total_cons, ih, List.filter_cons]
      by_cases hzero : log.quota = 0
      · rw [if_neg (not_not.2 hzero), if_neg (by simpa using hzero), Int.zero_add]
      · rw [if_pos hzero, if_pos (by simpa using hzero), List.length_cons]
        omega

/-- Requests that have all ended hold nothing. -/
theorem Inv.agree (h : Inv before s) (hended : s.Ended) (hf : s.failed = false) :
    Agree before s := by
  have hspent : ∀ key, s.ledgers.spent key =
      before.spent key + Pool.total (fun log => log.charge key) s.ledgers.logs := by
    intro key
    rw [h.spent hf key, Pool.total_eq_zero (fun e : Exec => e.hold key), Int.add_zero]
    intro e he
    obtain ⟨log, hlog⟩ := hended e he
    simp only [Exec.hold, hlog]
  refine ⟨h.logs, ?_, ?_, ?_, fun k => ?_, fun c => ?_⟩
  · have hwallet := hspent .wallet
    have hsum : Pool.total (fun log => log.charge .wallet) s.ledgers.logs =
        Pool.total Log.quota s.ledgers.logs :=
      congrArg (fun f => Pool.total f _) (funext fun log => Int.add_zero _)
    simp only [Ledgers.spent] at hwallet
    omega
  · have hsum : Pool.total (fun log => log.charge .usedQuota) s.ledgers.logs =
        Pool.total Log.quota s.ledgers.logs :=
      congrArg (fun f => Pool.total f _) (funext fun log => Int.zero_add _)
    rw [← hsum]
    exact hspent .usedQuota
  · rw [← total_counted]
    refine (hspent .requestCount).trans ?_
    congr 2
    exact funext fun log => Int.zero_add _
  · have htoken := hspent (.token k)
    have hsum : Pool.total (fun log => log.charge (.token k)) s.ledgers.logs =
        Pool.total Log.quota
          (s.ledgers.logs.filter fun log => log.tokenId = k ∧ log.isPlayground = false) := by
      rw [← total_filter]
      refine congrArg (fun f => Pool.total f _) (funext fun log => (Int.add_zero _).trans ?_)
      simp only [balances, decide_eq_true_eq]
    simp only [Ledgers.spent] at htoken
    omega
  · have hsum : Pool.total (fun log => log.charge (.channel c)) s.ledgers.logs =
        Pool.total Log.quota (s.ledgers.logs.filter fun log => log.channelId = c) := by
      rw [← total_filter]
      refine congrArg (fun f => Pool.total f _) (funext fun log => (Int.zero_add _).trans ?_)
      simp only [counts, decide_eq_true_eq]
    rw [← hsum]
    exact hspent (.channel c)

end

instance (s : State) : Decidable s.Ended :=
  decidable_of_iff (∀ e ∈ s.execs, (match e.proc with | .ended _ => true | _ => false) = true) <| by
    refine forall_congr' fun e => imp_congr_right fun _ => ?_
    cases e.proc <;> simp

/-- A thousand of the wallet is estimated, and one retry is left. -/
def thousand (tokenId : Nat) : Request where
  billing := ⟨0, fun _ => ""⟩
  info := ⟨false, false, false, 9000, 9000⟩
  tokenId := tokenId
  freeModel := false
  quotaToPreConsume := 1000
  relay := ⟨1, Relay.automaticRetryStatusCodeRanges, false, false, false, false, [], "default",
    "gpt-4o", 1⟩
  autoGroupIndex := none

/-- An attempt on channel 1, or after it on channel 2. -/
def attempt (err : Option Types.NewAPIError) : Attempt Int where
  cached := fun id => .ok id
  pick := fun _ _ => .ok (some 2)
  setup := fun _ => none
  body := none
  handler := fun _ => ⟨[], err⟩

/-- A thousand tokens for two dollars a million. -/
def twoThousand : Consumption where
  env := Quota.noTiers
  ctx := Quota.noTools
  info :=
    { originModelName := "gpt-4o"
      startTime := 0
      relayFormat := some .openAI
      finalRequestRelayFormat := none
      requestConversionChain := []
      channelType := some 1
      builtInTools := none
      priceData := ⟨⟨2, 0, 0, 0, 0, 0, 0, 0⟩, 0, false, false, "", 1, []⟩ }
  usage := some { (0 : Quota.Usage) with promptTokens := 1000 }

/-- A request that succeeds on its second channel, while another one fails. -/
def interleaved : List Act :=
  let overloaded := some (Types.newErrorWithStatusCode "overloaded" "bad_response_status_code" 503 [])
  let invalid := some (Types.newErrorWithStatusCode "invalid" "bad_response_status_code" 400 [])
  [.start (thousand 1) ⟨.ok 9000, .ok 9000, none, none, none⟩,
    .start (thousand 2) ⟨.ok 8000, .ok 9000, none, none, none⟩,
    .pass 0 (attempt overloaded) twoThousand, .pass 1 (attempt invalid) twoThousand,
    .pass 0 (attempt none) twoThousand, .count 0, .refundFunding 1 none, .settle 0 ⟨none, none⟩,
    .refundToken 1 none, .log 0]

end DazeApi.Billing.Requests
