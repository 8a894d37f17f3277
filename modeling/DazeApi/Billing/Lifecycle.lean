import DazeApi.Lib.Run
import DazeApi.Lib.Pool
import DazeApi.Billing.Session

/-!
# The life of a billing session

Any sequence of `Settle` and `Refund` calls on a session, with the asynchronous
body of a refund cut at its two updates.  The mutex of the session covers a whole
`Settle` and the flags of a `Refund`, so these are atomic.

`Refund` looks at `settled`, but `Settle` does not look at `refunded`.  A session
that is settled after a refund pays the charge back and then charges the
difference to the estimate as if it were still held.
-/

namespace DazeApi.Billing.Lifecycle

/-! ## The system -/

/-- The session, the balances and the refund bodies under way.  The last three
fields are ghosts: the quotas of the settlements that took effect, the refunds
paid to the wallet, and whether an adjustment has failed. -/
structure State where
  session : BillingSession
  accounts : Accounts
  jobs : List RefundJob
  settlements : List Int
  refundsPaid : Nat
  failed : Bool
deriving DecidableEq, Repr

/-- A session as `preConsume` leaves it. -/
def initial (session : BillingSession) (accounts : Accounts) : State where
  session := session
  accounts := accounts
  jobs := []
  settlements := []
  refundsPaid := 0
  failed := false

inductive Act where
  | settle (actualQuota : Int) (io : SettleCalls)
  | refund
  | refundFunding (i : Nat) (err : StoreErr)
  | refundToken (i : Nat) (err : StoreErr)
deriving DecidableEq, Repr

/-- A `Settle` call.  It has taken effect when it leaves the session settled. -/
def settleStep (s : State) (actualQuota : Int) (io : SettleCalls) : State :=
  let r := s.session.settle s.accounts actualQuota io
  { s with
    session := r.1
    accounts := r.2.1
    settlements :=
      if !s.session.settled && r.1.settled then s.settlements ++ [actualQuota]
      else s.settlements
    failed := s.failed || r.2.2.isSome }

/-- The wallet's part of a refund body. -/
def refundFundingStep (s : State) (i : Nat) (err : StoreErr) (consumed tokenConsumed : Int)
    (isPlayground : Bool) : State :=
  let jobs := s.jobs.set i (.token tokenConsumed isPlayground)
  match fundingRefund s.accounts consumed err with
  | .ok acc => { s with accounts := acc, jobs := jobs, refundsPaid := s.refundsPaid + 1 }
  | .error _ => { s with jobs := jobs, failed := true }

/-- The token's part of a refund body. -/
def refundTokenStep (s : State) (i : Nat) (err : StoreErr) (tokenConsumed : Int)
    (isPlayground : Bool) : State :=
  let jobs := s.jobs.set i .finished
  match tokenRefund s.accounts tokenConsumed isPlayground err with
  | .ok acc => { s with accounts := acc, jobs := jobs }
  | .error _ => { s with jobs := jobs, failed := true }

/-- The system. -/
def step (s : State) : Act → Option State
  | .settle actualQuota io => some (settleStep s actualQuota io)
  | .refund =>
      some { s with session := s.session.refund.1, jobs := s.jobs ++ s.session.refund.2.toList }
  | .refundFunding i err =>
      match s.jobs[i]? with
      | some (.funding consumed tokenConsumed isPlayground) =>
          some (refundFundingStep s i err consumed tokenConsumed isPlayground)
      | _ => none
  | .refundToken i err =>
      match s.jobs[i]? with
      | some (.token tokenConsumed isPlayground) =>
          some (refundTokenStep s i err tokenConsumed isPlayground)
      | _ => none

/-- Every refund body has run to its end. -/
def State.Complete (s : State) : Prop := ∀ j ∈ s.jobs, j = .finished

instance (s : State) : Decidable s.Complete :=
  inferInstanceAs (Decidable (∀ j ∈ s.jobs, j = .finished))

/-! ## The law -/

/-- What the calls on a session may add up to, for a session that pre-charged `p`
when the balances were `before`. -/
structure Law (before : Accounts) (p : Int) (s : State) : Prop where
  single : s.settlements.length ≤ 1
  exclusive : s.settlements = [] ∨ s.refundsPaid = 0
  settled : ∀ a ∈ s.settlements, s.accounts.wallet = before.wallet - a
  refunded : s.refundsPaid ≠ 0 → s.accounts.wallet = before.wallet
  neither : s.settlements = [] → s.refundsPaid = 0 → s.accounts.wallet = before.wallet - p
  token : s.failed = false →
    s.accounts.token - before.token = s.accounts.wallet - before.wallet

/-- No `Settle` takes effect on a session that has been refunded. -/
def notAfterRefund (s : State) : Act → Bool
  | .settle actualQuota io =>
      s.session.settled || !s.session.refunded ||
        (actualQuota ≠ s.session.preConsumedQuota && !s.session.fundingSettled &&
          io.fundingErr.isSome)
  | _ => true

/-! ## Pre-charge -/

/-- A session that holds a charge of `p`. -/
def holding (p : Int) : BillingSession where
  isPlayground := false
  consumed := p
  preConsumedQuota := p
  tokenConsumed := p
  fundingSettled := false
  settled := false
  refunded := false

/-- A pre-charge that succeeds holds the same amount of the wallet and of the
token. -/
theorem preConsume_ok {env : BillingEnv} {info : RelayInfo} {quota : Int}
    {before acc : Accounts} {io : PreConsumeCalls} {session : BillingSession}
    (hpg : info.isPlayground = false) (hq : 0 ≤ quota)
    (h : preConsume env info quota before io = (acc, .ok session)) :
    0 ≤ session.preConsumedQuota ∧ session = holding session.preConsumedQuota ∧
      acc = ⟨before.wallet - session.preConsumedQuota, before.token - session.preConsumedQuota⟩ := by
  have heff : 0 ≤ (if shouldTrust env info then 0 else quota) := by split <;> omega
  simp only [preConsume] at h
  generalize (if shouldTrust env info then 0 else quota) = p at h heff
  split at h
  next hpos =>
    split at h
    next => cases h
    next acc' htok =>
      have hacc' : acc' = { before with token := before.token - p } := by
        simp only [preConsumeTokenQuota, if_neg (Int.not_lt.2 heff), hpg, Bool.false_eq_true,
          if_false] at htok
        split at htok
        next => cases htok
        next =>
          split at htok
          next => cases htok
          next => exact (adjust_ok htok).2.2
      simp only [preConsumeFunding, fundingPreConsume, if_neg (Int.not_le.2 hpos)] at h
      cases hd : decreaseUserQuota acc' p io.fundingErr with
      | error e => simp [hd, Except.map] at h
      | ok acc'' =>
          have hacc'' := (adjust_ok hd).2.2
          simp only [hd, Except.map] at h
          cases h
          refine ⟨heff, ?_, ?_⟩
          · simp [holding, BillingSession.fresh, hpg]
          · rw [hacc'', hacc']
  next hpos =>
    have hp : p = 0 := by omega
    subst hp
    simp only [preConsumeFunding, fundingPreConsume, Int.le_refl, if_true] at h
    cases h
    refine ⟨Int.le_refl _, ?_, ?_⟩
    · simp [holding, BillingSession.fresh, hpg]
    · simp

/-! ## Phases

Without a `Settle` after a `Refund`, a session that holds `p` goes one of two
ways: it is settled once, or its charge is paid back by one refund body. -/

/-- The balances after the session has taken `w` of the wallet and, unless an
adjustment failed, as much of the token. -/
def State.Took (before : Accounts) (w t : Int) (s : State) : Prop :=
  s.accounts.wallet = before.wallet - w ∧
    (s.failed = false → s.accounts.token = before.token - t)

inductive Phase (before : Accounts) (p : Int) (s : State) : Prop where
  | held : s.session = holding p → s.jobs = [] → s.settlements = [] → s.refundsPaid = 0 →
      s.Took before p p → Phase before p s
  | settled (a : Int) : s.session.settled = true → s.jobs = [] → s.settlements = [a] →
      s.refundsPaid = 0 → s.Took before a a → Phase before p s
  /-- The refund body is before its update of the wallet. -/
  | refunding : s.session = { holding p with refunded := true } → 0 < p →
      s.jobs = [.funding p p false] → s.settlements = [] → s.refundsPaid = 0 →
      s.Took before p p → Phase before p s
  /-- The refund body is between its two updates; the first has succeeded or not. -/
  | returning : s.session = { holding p with refunded := true } → 0 < p →
      s.jobs = [.token p false] → s.settlements = [] →
      (s.refundsPaid = 1 ∧ s.Took before 0 p ∨
        s.refundsPaid = 0 ∧ s.failed = true ∧ s.Took before p p) → Phase before p s
  | refunded : s.session = { holding p with refunded := true } →
      s.jobs = [.finished] → s.settlements = [] →
      (s.refundsPaid = 1 ∧ s.Took before 0 0 ∨
        s.refundsPaid = 0 ∧ s.failed = true ∧ s.Took before p p) → Phase before p s

section

variable {before : Accounts} {p : Int} {s s' : State}

/-- A `Settle` on a session that holds its charge. -/
theorem Phase.settle_held {a : Int} {io : SettleCalls} (hses : s.session = holding p)
    (hj : s.jobs = []) (hst : s.settlements = []) (hr : s.refundsPaid = 0)
    (hb : s.Took before p p) : Phase before p (settleStep s a io) := by
  obtain ⟨hw, ht⟩ := hb
  have hcases := settle_cases s.session s.accounts a io (by rw [hses]; rfl) (by rw [hses]; rfl)
    (by rw [hses]; rfl)
  have hpre : s.session.preConsumedQuota = p := by rw [hses]; rfl
  have hns : s.session.settled = false := by rw [hses]; rfl
  rw [hpre] at hcases
  simp only [settleStep, hns]
  rcases hcases with ⟨rfl, hcall⟩ | ⟨ha, e, -, hcall⟩ | ⟨ha, -, token, hcall, htok⟩
  · rw [hcall]
    refine .settled a rfl hj (by simp [hst]) hr ⟨hw, ?_⟩
    simpa using ht
  · rw [hcall]
    refine .held hses hj (by simp [hst, hns]) hr ⟨hw, ?_⟩
    simp
  · rw [hcall]
    refine .settled a rfl hj (by simp [hst]) hr ⟨?_, ?_⟩
    · simp only [hw]
      omega
    · intro hf
      obtain ⟨hf, hte⟩ := Bool.or_eq_false_iff.1 hf
      simp only [htok (by simpa using hte), ht hf]
      omega

/-- A `Settle` on a settled session does nothing. -/
theorem settleStep_of_settled {a : Int} {io : SettleCalls} (h : s.session.settled = true) :
    settleStep s a io = s := by
  simp [settleStep, BillingSession.settle, h]

/-- A `Settle` that the wallet refuses does nothing but fail. -/
theorem settleStep_of_refused {a : Int} {io : SettleCalls}
    (hns : s.session.settled = false) (ha : a ≠ s.session.preConsumedQuota)
    (hf : s.session.fundingSettled = false) (hio : io.fundingErr.isSome = true) :
    settleStep s a io = { s with failed := true } := by
  obtain ⟨e, he⟩ := Option.isSome_iff_exists.1 hio
  have hd : a - s.session.preConsumedQuota ≠ 0 := by omega
  simp [settleStep, BillingSession.settle, hns, hf, hd, fundingSettle_eq, he]

/-- A failure says nothing new about the phase. -/
theorem Phase.fail (h : Phase before p s) : Phase before p { s with failed := true } := by
  have htook : ∀ {w t : Int}, s.Took before w t →
      State.Took before w t { s with failed := true } :=
    fun ht => ⟨ht.1, by simp⟩
  cases h with
  | held hs hj hst hr hb => exact .held hs hj hst hr (htook hb)
  | settled a hs hj hst hr hb => exact .settled a hs hj hst hr (htook hb)
  | refunding hs hp hj hst hr hb => exact .refunding hs hp hj hst hr (htook hb)
  | returning hs hp hj hst hb =>
      refine .returning hs hp hj hst ?_
      rcases hb with ⟨hr, hb⟩ | ⟨hr, -, hb⟩
      · exact Or.inl ⟨hr, htook hb⟩
      · exact Or.inr ⟨hr, rfl, htook hb⟩
  | refunded hs hj hst hb =>
      refine .refunded hs hj hst ?_
      rcases hb with ⟨hr, hb⟩ | ⟨hr, -, hb⟩
      · exact Or.inl ⟨hr, htook hb⟩
      · exact Or.inr ⟨hr, rfl, htook hb⟩

/-- A `Settle` that does not come after a refund keeps the phases. -/
theorem Phase.settle {a : Int} {io : SettleCalls} (h : Phase before p s)
    (hn : notAfterRefund s (.settle a io) = true) : Phase before p (settleStep s a io) := by
  -- a session whose refund has begun is left only by a settlement that is refused
  have hafter : s.session = { holding p with refunded := true } →
      settleStep s a io = { s with failed := true } := by
    intro hs
    have hn' : a ≠ p ∧ io.fundingErr.isSome = true := by
      simpa [notAfterRefund, hs, holding] using hn
    exact settleStep_of_refused (by rw [hs]; rfl) (by rw [hs]; exact hn'.1) (by rw [hs]; rfl) hn'.2
  cases h with
  | held hs hj hst hr hb => exact Phase.settle_held hs hj hst hr hb
  | settled a' hs hj hst hr hb =>
      rw [settleStep_of_settled hs]
      exact .settled a' hs hj hst hr hb
  | refunding hs hp hj hst hr hb =>
      rw [hafter hs]
      exact (Phase.refunding hs hp hj hst hr hb).fail
  | returning hs hp hj hst hb =>
      rw [hafter hs]
      exact (Phase.returning hs hp hj hst hb).fail
  | refunded hs hj hst hb =>
      rw [hafter hs]
      exact (Phase.refunded hs hj hst hb).fail

/-- `Refund` starts a body on a session that holds a charge, and nowhere else. -/
theorem Phase.refund (h : Phase before p s) :
    Phase before p { s with session := s.session.refund.1,
                            jobs := s.jobs ++ s.session.refund.2.toList } := by
  have hnone : s.session.refund = (s.session, none) → Phase before p { s with
      session := s.session.refund.1, jobs := s.jobs ++ s.session.refund.2.toList } := by
    intro hr
    simpa [hr] using h
  cases h with
  | held hs hj hst hr hb =>
      by_cases hpos : 0 < p
      · have hcall : s.session.refund =
            ({ holding p with refunded := true }, some (.funding p p false)) := by
          rw [hs]
          simp [BillingSession.refund, BillingSession.needsRefundLocked, holding, hpos]
        rw [hcall]
        exact .refunding rfl hpos (by simp [hj]) hst hr hb
      · refine hnone ?_
        rw [hs]
        simp [BillingSession.refund, BillingSession.needsRefundLocked, holding, hpos]
  | settled a hs hj hst hr hb => exact hnone (by simp [BillingSession.refund, hs])
  | refunding hs => exact hnone (by rw [hs]; simp [BillingSession.refund])
  | returning hs => exact hnone (by rw [hs]; simp [BillingSession.refund])
  | refunded hs => exact hnone (by rw [hs]; simp [BillingSession.refund])

/-- The entry of the only refund body. -/
theorem eq_of_single {j j' : RefundJob} {i : Nat} (h : s.jobs = [j]) (hi : s.jobs[i]? = some j') :
    i = 0 ∧ j' = j := by
  rw [h, List.getElem?_singleton] at hi
  split at hi
  next h0 => exact ⟨h0, (Option.some.inj hi).symm⟩
  next => cases hi

/-- The wallet's part of the refund body. -/
theorem Phase.refundFunding {i : Nat} {err : StoreErr} {c t : Int} {pg : Bool}
    (h : Phase before p s) (hi : s.jobs[i]? = some (.funding c t pg)) :
    Phase before p (refundFundingStep s i err c t pg) := by
  cases h with
  | held hs hj => simp [hj] at hi
  | settled a hs hj => simp [hj] at hi
  | returning hs hp hj => cases (eq_of_single hj hi).2
  | refunded hs hj => cases (eq_of_single hj hi).2
  | refunding hs hp hj hst hr hb =>
      obtain ⟨rfl, hjob⟩ := eq_of_single hj hi
      cases hjob
      obtain ⟨hw, ht⟩ := hb
      simp only [refundFundingStep, fundingRefund, if_neg (Int.not_le.2 hp), increaseUserQuota,
        adjust_of_nonneg _ _ _ (Int.le_of_lt hp)]
      cases err with
      | some e =>
          refine .returning hs hp (by simp [hj]) hst (Or.inr ⟨hr, rfl, hw, ?_⟩)
          simp
      | none =>
          refine .returning hs hp (by simp [hj]) hst (Or.inl ⟨by simp [hr], ?_, ht⟩)
          simp only [hw]
          omega

/-- The token's part of the refund body. -/
theorem Phase.refundToken {i : Nat} {err : StoreErr} {t : Int} {pg : Bool}
    (h : Phase before p s) (hi : s.jobs[i]? = some (.token t pg)) :
    Phase before p (refundTokenStep s i err t pg) := by
  cases h with
  | held hs hj => simp [hj] at hi
  | settled a hs hj => simp [hj] at hi
  | refunding hs hp hj => cases (eq_of_single hj hi).2
  | refunded hs hj => cases (eq_of_single hj hi).2
  | returning hs hp hj hst hb =>
      obtain ⟨rfl, hjob⟩ := eq_of_single hj hi
      cases hjob
      simp only [refundTokenStep, tokenRefund, hp, decide_true, Bool.not_false, Bool.and_self,
        if_true, increaseTokenQuota, adjust_of_nonneg _ _ _ (Int.le_of_lt hp)]
      cases err with
      | some e =>
          refine .refunded hs (by simp [hj]) hst ?_
          rcases hb with ⟨hr, hw, -⟩ | ⟨hr, -, hw, -⟩
          · exact Or.inl ⟨hr, hw, by simp⟩
          · exact Or.inr ⟨hr, rfl, hw, by simp⟩
      | none =>
          refine .refunded hs (by simp [hj]) hst ?_
          rcases hb with ⟨hr, hw, ht⟩ | ⟨hr, hf, hw, -⟩
          · refine Or.inl ⟨hr, hw, fun hf => ?_⟩
            simp only [ht hf]
            omega
          · exact Or.inr ⟨hr, hf, hw, by simp [hf]⟩

/-- A step that does not settle a refunded session keeps the phases. -/
theorem Phase.step {a : Act} (h : Phase before p s) (hn : notAfterRefund s a = true)
    (hs : Lifecycle.step s a = some s') : Phase before p s' := by
  cases a with
  | settle q io => cases hs; exact h.settle hn
  | refund => cases hs; exact h.refund
  | refundFunding i err =>
      simp only [Lifecycle.step] at hs
      split at hs
      next c t pg hi => cases hs; exact h.refundFunding hi
      next => cases hs
  | refundToken i err =>
      simp only [Lifecycle.step] at hs
      split at hs
      next t pg hi => cases hs; exact h.refundToken hi
      next => cases hs

/-- With every refund body at its end, each phase meets the law. -/
theorem Phase.law (h : Phase before p s) (hc : s.Complete) : Law before p s := by
  cases h with
  | held hs hj hst hr hb =>
      exact ⟨by simp [hst], Or.inl hst, by simp [hst], fun h0 => absurd hr h0,
        fun _ _ => hb.1, fun hf => by rw [hb.2 hf, hb.1]; omega⟩
  | settled a hs hj hst hr hb =>
      exact ⟨by simp [hst], Or.inr hr, by simp [hst, hb.1], fun h0 => absurd hr h0,
        by simp [hst], fun hf => by rw [hb.2 hf, hb.1]; omega⟩
  | refunding hs hp hj => cases hc _ (by rw [hj]; exact List.mem_singleton.2 rfl)
  | returning hs hp hj => cases hc _ (by rw [hj]; exact List.mem_singleton.2 rfl)
  | refunded hs hj hst hb =>
      rcases hb with ⟨hr, hw, ht⟩ | ⟨hr, hf, hw, -⟩
      · exact ⟨by simp [hst], Or.inl hst, by simp [hst], fun _ => by rw [hw]; omega,
          by simp [hr], fun hf => by rw [ht hf, hw]; omega⟩
      · exact ⟨by simp [hst], Or.inl hst, by simp [hst], fun h0 => absurd hr h0,
          fun _ _ => hw, by simp [hf]⟩

/-! ## A settlement after a refund -/

/-- The session has been settled and refunded. -/
def State.Clash (s : State) : Prop := s.settlements ≠ [] ∧ s.session.refunded = true

/-- A refund that has been called is under way, paid, or failed. -/
def State.RefundPending (s : State) : Prop :=
  s.session.refunded = true → s.failed = true ∨ s.refundsPaid ≠ 0 ∨
    ∃ (i : Nat) (c t : Int) (pg : Bool), s.jobs[i]? = some (RefundJob.funding c t pg)

/-- A `Settle` outside the condition is a clash. -/
theorem clash_of_settle {a : Act} (hn : ¬ notAfterRefund s a = true)
    (hs : Lifecycle.step s a = some s') : s'.Clash := by
  cases a with
  | settle q io =>
      cases hs
      simp only [notAfterRefund, Bool.or_eq_true, Bool.and_eq_true, decide_eq_true_eq,
        Bool.not_eq_true', not_or, not_and, Bool.not_eq_true, Bool.not_eq_false,
        Option.isSome_eq_false_iff, Option.isNone_iff_eq_none] at hn
      obtain ⟨⟨hns, href⟩, hio⟩ := hn
      have hset : (s.session.settle s.accounts q io).1.settled = true := by
        refine settle_settled s.accounts ?_
        by_cases hq : q = s.session.preConsumedQuota
        · exact Or.inl hq
        · cases hf : s.session.fundingSettled with
          | true => exact Or.inr (Or.inl rfl)
          | false => exact Or.inr (Or.inr (hio ⟨hq, hf⟩))
      refine ⟨?_, ?_⟩
      · simp [settleStep, hns, hset]
      · simp only [settleStep]
        rw [settle_refunded, href]
  | refund => exact absurd rfl hn
  | refundFunding i err => exact absurd rfl hn
  | refundToken i err => exact absurd rfl hn

/-- Neither flag of a clash is ever taken back. -/
theorem State.Clash.step {a : Act} (h : s.Clash) (hs : Lifecycle.step s a = some s') :
    s'.Clash := by
  obtain ⟨hst, href⟩ := h
  cases a with
  | settle q io =>
      cases hs
      refine ⟨?_, ?_⟩
      · simp only [settleStep]
        split
        next => simp
        next => exact hst
      · simp only [settleStep]
        rw [settle_refunded, href]
  | refund =>
      cases hs
      exact ⟨hst, by simp [BillingSession.refund, href]⟩
  | refundFunding i err =>
      simp only [Lifecycle.step] at hs
      split at hs
      next =>
        cases hs
        simp only [refundFundingStep]
        split <;> exact ⟨hst, href⟩
      next => cases hs
  | refundToken i err =>
      simp only [Lifecycle.step] at hs
      split at hs
      next =>
        cases hs
        simp only [refundTokenStep]
        split <;> exact ⟨hst, href⟩
      next => cases hs

theorem State.RefundPending.step {a : Act} (h : s.RefundPending)
    (hs : Lifecycle.step s a = some s') : s'.RefundPending := by
  cases a with
  | settle q io =>
      cases hs
      intro href
      simp only [settleStep] at href
      rw [settle_refunded] at href
      rcases h href with hf | hr | hj
      · exact Or.inl (by simp [settleStep, hf])
      · exact Or.inr (Or.inl hr)
      · exact Or.inr (Or.inr hj)
  | refund =>
      cases hs
      intro href
      simp only [BillingSession.refund] at href ⊢
      split at href
      next hcond =>
        rw [if_pos hcond]
        simpa using h href
      next hcond =>
        rw [if_neg hcond]
        exact Or.inr (Or.inr ⟨s.jobs.length, _, _, _, List.getElem?_concat_length⟩)
  | refundFunding i err =>
      simp only [Lifecycle.step] at hs
      split at hs
      next =>
        cases hs
        intro _
        simp only [refundFundingStep]
        split
        next => exact Or.inr (Or.inl (by simp))
        next => exact Or.inl rfl
      next => cases hs
  | refundToken i err =>
      simp only [Lifecycle.step] at hs
      split at hs
      next t pg hi =>
        cases hs
        have hjob : ∀ {k : Nat} {c t' : Int} {pg' : Bool},
            s.jobs[k]? = some (RefundJob.funding c t' pg') →
            (s.jobs.set i .finished)[k]? = some (RefundJob.funding c t' pg') := by
          intro k c t' pg' hk
          refine Pool.get_set_ne hk ?_
          rintro rfl
          rw [hi] at hk
          cases hk
        simp only [refundTokenStep]
        split
        next =>
          intro href
          rcases h href with hf | hr | ⟨k, c, t', pg', hk⟩
          · exact Or.inl hf
          · exact Or.inr (Or.inl hr)
          · exact Or.inr (Or.inr ⟨k, c, t', pg', hjob hk⟩)
        next => exact fun _ => Or.inl rfl
      next => cases hs

/-- A clash that runs to its end without a failure breaks the law. -/
theorem State.Clash.not_law (h : s.Clash) (hp : s.RefundPending) (hc : s.Complete)
    (hf : s.failed = false) : ¬ Law before p s := by
  intro hlaw
  rcases hlaw.exclusive with hst | hr
  · exact h.1 hst
  · rcases hp h.2 with hf' | hr' | ⟨i, c, t, pg, hj⟩
    · rw [hf] at hf'
      cases hf'
    · exact hr' hr
    · cases hc _ (Pool.mem_of_get hj)

end

/-! ## Runs -/

/-- For a session whose pre-charge of a non-negative estimate succeeded outside
the playground, and any sequence of calls run to its end: as long as no `Settle`
takes effect after a `Refund`, the law holds; and where no adjustment failed, it
holds only then. -/
theorem law_iff_notAfterRefund (env : BillingEnv) (info : RelayInfo) (quota : Int)
    (before acc : Accounts) (io : PreConsumeCalls) (session : BillingSession) (as : List Act)
    (s : State) (hpg : info.isPlayground = false) (hq : 0 ≤ quota)
    (hpre : preConsume env info quota before io = (acc, .ok session))
    (h : Run.exec step (initial session acc) as = some s) (hc : s.Complete) :
    (Run.Along step (fun s a => notAfterRefund s a = true) (initial session acc) as →
      Law before session.preConsumedQuota s) ∧
    (s.failed = false → Law before session.preConsumedQuota s →
      Run.Along step (fun s a => notAfterRefund s a = true) (initial session acc) as) := by
  obtain ⟨-, hses, rfl⟩ := preConsume_ok hpg hq hpre
  refine ⟨fun hn => ?_, fun hf hlaw => ?_⟩
  · have hph : Phase before session.preConsumedQuota s :=
      Run.exec_invariant (fun _ _ _ hI hP hs => hI.step hP hs)
        (.held hses rfl rfl rfl ⟨rfl, fun _ => rfl⟩) hn h
    exact hph.law hc
  · have hpend : s.RefundPending :=
      Run.exec_always (fun _ _ _ hI hs => hI.step hs)
        (by rw [hses]; intro href; cases href) h
    have hor := Run.along_or (R := fun _ _ => True) (I := fun _ => True)
      (fun _ _ _ _ _ _ => trivial) (fun _ _ _ _ _ => clash_of_settle)
      (fun _ _ _ _ _ => State.Clash.step) as _ _ trivial
      (Run.along_of_forall (fun _ _ => trivial) as _) h
    rcases hor with hn | hclash
    · exact hn
    · exact absurd hlaw (hclash.not_law hpend hc hf)

/-! ## Sessions to run -/

def plainEnv : BillingEnv where
  trustQuota := 0
  formatQuota := fun q => toString q

def plainInfo : RelayInfo := ⟨false, false, false, 1000, 1000⟩

def callsOk : PreConsumeCalls := ⟨.ok 1000, .ok 1000, none, none, none⟩

/-- A settlement that the wallet first refuses, then a refund that comes too late. -/
theorem law_retried_settle :
    ∃ s, Run.exec step (initial (holding 100) ⟨900, 900⟩)
        [.settle 60 ⟨some "timeout", none⟩, .settle 60 ⟨none, none⟩, .refund] = some s ∧
      s.accounts = ⟨940, 940⟩ ∧ Law ⟨1000, 1000⟩ 100 s := by
  refine ⟨_, rfl, by decide, ?_⟩
  exact (law_iff_notAfterRefund plainEnv plainInfo 100 ⟨1000, 1000⟩ ⟨900, 900⟩ callsOk (holding 100)
    [.settle 60 ⟨some "timeout", none⟩, .settle 60 ⟨none, none⟩, .refund] _ rfl (by decide) rfl rfl
    (by decide)).1 (by decide)

/-- A refund of a charge of 100 followed by a settlement of 50: the wallet ends
50 above where it began. -/
theorem refund_then_settle_breaks_law :
    ¬ ∀ (env : BillingEnv) (info : RelayInfo) (quota : Int) (before acc : Accounts)
        (io : PreConsumeCalls) (session : BillingSession) (as : List Act) (s : State),
      info.isPlayground = false → preConsume env info quota before io = (acc, .ok session) →
      Run.exec step (initial session acc) as = some s → s.Complete →
      Law before session.preConsumedQuota s := by
  intro h
  have hlaw := h plainEnv plainInfo 100 ⟨1000, 1000⟩ ⟨900, 900⟩ callsOk (holding 100)
    [.refund, .refundFunding 0 none, .refundToken 0 none, .settle 50 ⟨none, none⟩] _ rfl rfl rfl
    (by decide)
  exact absurd (hlaw.settled 50 (by decide)) (by decide)

end DazeApi.Billing.Lifecycle
