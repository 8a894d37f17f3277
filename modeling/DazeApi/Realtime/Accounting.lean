import DazeApi.Realtime.Session

/-!
# What a realtime session debits

When `Relay` returns, the wallet should have been debited the quota of each turn whose
charge succeeded, and the usage handed to `PostWssConsumeQuota` should hold every turn
once.  Neither is so in general.  `PostWssConsumeQuota` does not settle the billing
session, so the pre-charge is kept.  A reported turn whose charge fails stays in
`usage`, and the end of the handler adds it to the sum again and charges it again.  The
same happens to a turn that the main routine interrupts.

`Sound` leaves these steps out, and `billed_of_sound` is the result over all runs.
-/

namespace DazeApi.Realtime

open DazeApi.Types DazeApi.Billing

/-! ## Charges -/

theorem postConsumeQuota_wallet {pg : Bool} {acc : Accounts} {quota : Int} {we te : StoreErr}
    (h : (postConsumeQuota pg acc quota we te).2 = none) :
    (postConsumeQuota pg acc quota we te).1.wallet = acc.wallet - quota := by
  have hwallet : ∀ acc', (if quota > 0 then decreaseUserQuota acc quota we
      else increaseUserQuota acc (-quota) we) = .ok acc' → acc'.wallet = acc.wallet - quota := by
    intro acc' h'
    split at h'
    next => rw [(adjust_ok h').2.2]
    next => rw [(adjust_ok h').2.2, Int.sub_eq_add_neg]
  have htoken : ∀ acc₁ acc₂ : Accounts, (if quota > 0 then decreaseTokenQuota acc₁ quota te
      else increaseTokenQuota acc₁ (-quota) te) = .ok acc₂ → acc₂.wallet = acc₁.wallet := by
    intro acc₁ acc₂ h'
    split at h'
    next => rw [(adjust_ok h').2.2]
    next => rw [(adjust_ok h').2.2]
  simp only [postConsumeQuota] at h ⊢
  split at h
  next => cases h
  next acc₁ h₁ =>
    split at h
    next hpg =>
      rw [if_pos hpg]
      exact hwallet acc₁ h₁
    next hpg =>
      rw [if_neg hpg]
      split at h
      next => cases h
      next acc₂ h₂ => exact (htoken acc₁ acc₂ h₂).trans (hwallet acc₁ h₁)

/-- A `PreWssConsumeQuota` that succeeds takes the quota of the usage from the wallet. -/
theorem preWssConsumeQuota_ok {cf : Conf} {usage : RealtimeUsage} {acc : Accounts}
    {io : PreWssCalls} (hprice : cf.usePerCallPricing = false)
    (h : (preWssConsumeQuota cf usage acc io).2 = none) :
    ∃ pricing, io.pricing = some pricing ∧
      (preWssConsumeQuota cf usage acc io).1.wallet = acc.wallet - cf.quota pricing usage := by
  simp only [preWssConsumeQuota, hprice, Bool.false_eq_true, if_false] at h ⊢
  split at h
  next => cases h
  next =>
    split at h
    next => cases h
    next =>
      split at h
      next => cases h
      next pricing hp =>
        refine ⟨pricing, hp, ?_⟩
        split at h
        next => cases h
        next hu =>
          split at h
          next => cases h
          next ht =>
            simp only [hu, ht, if_false, Bool.false_eq_true] at h ⊢
            exact postConsumeQuota_wallet h

/-! ## The law -/

/-- The quotas of the turns that were charged. -/
def chargedTotal (turns : List Turn) : Int := (turns.map fun t => t.charged.getD 0).sum

/-- The usage of all turns. -/
def usageTotal : List Turn → RealtimeUsage
  | [] => 0
  | t :: ts => usageTotal ts + t.usage

/-- The wallet has been debited the quotas of the charged turns and nothing more, and
what `PostWssConsumeQuota` was given holds every turn once. -/
def Billed (before : Int) (s : State) : Prop :=
  before - s.acc.wallet = chargedTotal s.turns ∧ ∀ u, s.posted = some u → u = usageTotal s.turns

instance (before : Int) (s : State) : Decidable (Billed before s) :=
  match h : s.posted with
  | none => decidable_of_iff (before - s.acc.wallet = chargedTotal s.turns)
      ⟨fun hw => ⟨hw, by simp [h]⟩, fun hb => hb.1⟩
  | some u => decidable_of_iff (before - s.acc.wallet = chargedTotal s.turns ∧ u = usageTotal s.turns)
      ⟨fun hw => ⟨hw.1, by rw [h]; rintro v ⟨⟩; exact hw.2⟩, fun hb => ⟨hb.1, hb.2 u h⟩⟩

@[simp] theorem usageTotal_chargeTurn (cf : Conf) (pricing : Option ModelPricing)
    (turns : List Turn) : usageTotal (chargeTurn cf pricing turns) = usageTotal turns := by
  cases turns with
  | nil => rfl
  | cons t ts => rfl

theorem chargedTotal_cons_none (u : RealtimeUsage) (turns : List Turn) :
    chargedTotal (⟨u, none⟩ :: turns) = chargedTotal turns := by
  simp [chargedTotal]

theorem chargedTotal_chargeTurn (cf : Conf) (pricing : ModelPricing) {t : Turn} (ts : List Turn)
    (ht : t.charged = none) :
    chargedTotal (chargeTurn cf (some pricing) (t :: ts)) =
      chargedTotal (t :: ts) + cf.quota pricing t.usage := by
  simp [chargedTotal, chargeTurn, ht, Int.add_comm]

/-! ## The restriction -/

/-- The handler may end here: no turn is under way, or the one that is has been charged
and left no total in `usage`. -/
def Reader.Calm (totalTokens : Int) : Reader → Prop
  | .reading => True
  | .stopped => True
  | .turn _ .charged => totalTokens = 0
  | .turn _ _ => False

instance (n : Int) : (r : Reader) → Decidable (r.Calm n)
  | .reading => .isTrue trivial
  | .stopped => .isTrue trivial
  | .turn _ .charged => inferInstanceAs (Decidable (n = 0))
  | .turn _ .accumulated => .isFalse id
  | .turn _ .summed => .isFalse id

/-- The turn in the reader is counted here and not yet charged. -/
def Reader.Counting : Reader → Prop
  | .turn .counted .accumulated => True
  | .turn .counted .summed => True
  | _ => False

instance : (r : Reader) → Decidable r.Counting
  | .turn .counted .accumulated => .isTrue trivial
  | .turn .counted .summed => .isTrue trivial
  | .turn .counted .charged => .isFalse id
  | .turn .reported _ => .isFalse id
  | .reading => .isFalse id
  | .stopped => .isFalse id

/-- A charge of the turn succeeds; or it fails with the wallet untouched, and the turn
is one that the end of the handler does not look at. -/
def ChargeSound (cf : Conf) (s : State) (src : Source) (io : PreWssCalls) : Prop :=
  (preWssConsumeQuota cf (s.billed src) s.acc io).2 = none ∨
    (preWssConsumeQuota cf (s.billed src) s.acc io).1.wallet = s.acc.wallet ∧
      (src = .counted ∨ s.usage.totalTokens = 0)

instance (cf : Conf) (s : State) (src : Source) (io : PreWssCalls) :
    Decidable (ChargeSound cf s src io) :=
  inferInstanceAs (Decidable (_ ∨ _ ∧ (_ ∨ _)))

/-- The steps after which the law still holds. -/
def Sound (cf : Conf) (s : State) : Event → Prop
  | .relayFails walletErr _ => s.session.consumed = 0 ∨ walletErr = none
  | .clientMessage _ _ => ¬ s.reader.Counting
  | .preWss io => ∀ src ∈ [Source.reported, .counted], s.reader = .turn src .summed →
      ChargeSound cf s src io
  | .finish _ _ => s.session.consumed = 0 ∧ s.reader.Calm s.usage.totalTokens
  | _ => True

instance (cf : Conf) (s : State) : (e : Event) → Decidable (Sound cf s e)
  | .relayFails walletErr _ => inferInstanceAs (Decidable (s.session.consumed = 0 ∨ walletErr = none))
  | .clientMessage _ _ => inferInstanceAs (Decidable (¬ s.reader.Counting))
  | .preWss io => inferInstanceAs (Decidable (∀ src ∈ [Source.reported, .counted],
      s.reader = .turn src .summed → ChargeSound cf s src io))
  | .finish _ _ =>
      inferInstanceAs (Decidable (s.session.consumed = 0 ∧ s.reader.Calm s.usage.totalTokens))
  | .dialFailed | .connect | .upstreamEvent _ _ | .responseDone _ | .responseDoneCounted _ _
  | .addToSum | .clear | .readerStops => .isTrue trivial

/-! ## The invariant -/

/-- The latest turn has not been charged, and the accumulator it is billed from holds
its usage and no other. -/
def State.Current (s : State) (src : Source) : Prop :=
  ∃ t ts, s.turns = t :: ts ∧ t.charged = none ∧ s.billed src = t.usage ∧
    (src = .counted → s.usage = 0)

/-- The accumulators, by how far the reader is. -/
def State.Progress (s : State) : Prop :=
  match s.reader with
  | .reading => s.usage = 0 ∧ s.sumUsage = usageTotal s.turns
  | .stopped => s.usage.totalTokens = 0 ∧ s.sumUsage = usageTotal s.turns
  | .turn src .accumulated => s.Current src ∧ s.sumUsage = usageTotal s.turns.tail
  | .turn src .summed => s.Current src ∧ s.sumUsage = usageTotal s.turns
  | .turn src .charged => (src = .counted → s.usage = 0) ∧ s.sumUsage = usageTotal s.turns

/-- No turn yet, and the wallet lacks what the billing session holds. -/
structure State.Dialing (before : Int) (s : State) : Prop where
  stage : s.stage = .dialing
  wallet : s.acc.wallet = before - s.session.consumed
  isOpen : s.session.Open
  reader : s.reader = .reading
  usage : s.usage = 0
  sumUsage : s.sumUsage = 0
  turns : s.turns = []
  posted : s.posted = none

/-- The wallet lacks what the billing session holds and the quotas of the charged turns. -/
structure State.Connected (before : Int) (s : State) : Prop where
  stage : s.stage = .connected
  wallet : s.acc.wallet = before - s.session.consumed - chargedTotal s.turns
  progress : s.Progress

/-- The invariant of a request, by its stage. -/
inductive Inv (before : Int) (s : State) : Prop where
  | dialing (h : s.Dialing before)
  | connected (h : s.Connected before)
  | returned (h : s.stage = .returned) (hb : Billed before s)

theorem inv_start (cf : Conf) (p : Int) (acc : Accounts) (io : PreConsumeCalls) :
    Inv acc.wallet (start cf p acc io) := by
  have h := preCharged_newBillingSession cf.env cf.info p acc io
  cases hr : newBillingSession cf.env cf.info p acc io with
  | mk acc' res =>
      rw [hr] at h
      cases res with
      | ok session =>
          refine .dialing ⟨?_, ?_, ?_, rfl, rfl, rfl, rfl, rfl⟩
          · simp [start, hr]
          · simpa [start, hr] using h.1
          · simpa [start, hr] using h.2
      | error e =>
          have hw : acc'.wallet = acc.wallet := h
          refine .returned (by simp [start, hr]) ⟨?_, by simp [start]⟩
          simp [start, hr, hw, chargedTotal]

section

variable {cf : Conf} {before : Int} {s s' : State}

/-! ### Before the session -/

theorem wallet_tokenRefund (acc : Accounts) (c : Int) (pg : Bool) (err : StoreErr) :
    (ignoreErr acc (tokenRefund acc c pg err)).wallet = acc.wallet := by
  cases ht : tokenRefund acc c pg err with
  | error e => rfl
  | ok acc' =>
      simp only [tokenRefund] at ht
      split at ht
      next => simp only [ignoreErr, (adjust_ok ht).2.2]
      next =>
        cases ht
        rfl

/-- A request that fails before the session gets its pre-charge back, when the store
takes the refund. -/
theorem State.Dialing.refundStep {walletErr tokenErr : StoreErr} (h : s.Dialing before)
    (hs : s.session.consumed = 0 ∨ walletErr = none) :
    Inv before (refundStep s walletErr tokenErr) := by
  have hcharged : chargedTotal s.turns = 0 := by rw [h.turns]; rfl
  by_cases hpos : 0 < s.session.tokenConsumed
  · have hjob : s.session.refund =
        ({ s.session with refunded := true },
          some (.funding s.session.consumed s.session.tokenConsumed s.session.isPlayground)) := by
      simp [BillingSession.refund, BillingSession.needsRefundLocked, h.isOpen.settled,
        h.isOpen.refunded, h.isOpen.fundingSettled, hpos]
    refine .returned (by simp only [Realtime.refundStep, hjob]) ⟨?_, ?_⟩
    · simp only [Realtime.refundStep, hjob, wallet_tokenRefund, hcharged]
      have hw := h.wallet
      by_cases hc : s.session.consumed ≤ 0
      · have hn := h.isOpen.nonneg
        simp only [fundingRefund, hc, if_true, ignoreErr]
        omega
      · have hnone : walletErr = none := hs.resolve_left (by omega)
        simp only [fundingRefund, hc, if_false, hnone, increaseUserQuota,
          adjust_of_nonneg _ _ _ (h.isOpen.nonneg), ignoreErr]
        omega
    · intro u hu
      simp only [Realtime.refundStep, hjob, h.posted] at hu
      cases hu
  · have hnojob : s.session.refund = (s.session, none) := by
      simp [BillingSession.refund, BillingSession.needsRefundLocked, h.isOpen.settled,
        h.isOpen.refunded, h.isOpen.fundingSettled, hpos]
    have hzero : s.session.consumed = 0 := by
      have hn := h.isOpen.nonneg
      by_contra hne
      exact hpos (h.isOpen.covered (by omega))
    refine .returned (by simp only [Realtime.refundStep, hnojob]) ⟨?_, ?_⟩
    · simp only [Realtime.refundStep, hnojob, hcharged]
      have hw := h.wallet
      omega
    · intro u hu
      simp only [Realtime.refundStep, hnojob, h.posted] at hu
      cases hu

theorem State.Dialing.connect (h : s.Dialing before) :
    Inv before { s with stage := .connected } := by
  refine .connected ⟨rfl, ?_, ?_⟩
  · have hw := h.wallet
    simp only [h.turns]
    simpa [chargedTotal] using hw
  · simp only [State.Progress, h.reader]
    exact ⟨h.usage, by rw [h.sumUsage, h.turns]; rfl⟩

/-! ### The session -/

/-- Only the local count changes, and no turn is billed from it just now. -/
theorem State.Connected.localUsage (h : s.Connected before) (u : RealtimeUsage)
    (hc : ¬ s.reader.Counting) : Inv before { s with localUsage := u } := by
  refine .connected ⟨h.stage, h.wallet, ?_⟩
  have hp := h.progress
  simp only [State.Progress] at hp ⊢
  split at hp
  next => exact hp
  next => exact hp
  next src hr =>
    cases src with
    | reported => exact hp
    | counted => exact absurd (by rw [hr]; trivial) hc
  next src hr =>
    cases src with
    | reported => exact hp
    | counted => exact absurd (by rw [hr]; trivial) hc
  next => exact hp

/-- A turn begins. -/
theorem State.Connected.begin (h : s.Connected before) (hr : s.reader = .reading) (src : Source)
    {usage localUsage : RealtimeUsage} {t : RealtimeUsage}
    (hbilled : (match src with | .reported => usage | .counted => localUsage) = t)
    (hzero : src = .counted → usage = 0) :
    Inv before
      { s with
        usage := usage
        localUsage := localUsage
        reader := .turn src .accumulated
        turns := ⟨t, none⟩ :: s.turns } := by
  have hp := h.progress
  simp only [State.Progress, hr] at hp
  refine .connected ⟨h.stage, ?_, ?_, ?_⟩
  · simp only [chargedTotal_cons_none]
    exact h.wallet
  · refine ⟨⟨t, none⟩, s.turns, rfl, rfl, ?_, hzero⟩
    cases src with
    | reported => exact hbilled
    | counted => exact hbilled
  · exact hp.2

/-- The usage of the turn is added to the sum. -/
theorem State.Connected.addToSum {src : Source} (h : s.Connected before)
    (hr : s.reader = .turn src .accumulated) :
    Inv before { s with sumUsage := s.sumUsage + s.billed src, reader := .turn src .summed } := by
  have hp := h.progress
  simp only [State.Progress, hr] at hp
  obtain ⟨⟨t, ts, hturns, hnone, hbilled, hzero⟩, hsum⟩ := hp
  refine .connected ⟨h.stage, h.wallet, ⟨t, ts, hturns, hnone, ?_, hzero⟩, ?_⟩
  · cases src with
    | reported => exact hbilled
    | counted => exact hbilled
  · show s.sumUsage + s.billed src = usageTotal s.turns
    rw [hsum, hbilled, hturns]
    rfl

/-- The charge of a turn. -/
theorem State.Connected.preWss {src : Source} {io : PreWssCalls} (h : s.Connected before)
    (hprice : cf.usePerCallPricing = false) (hr : s.reader = .turn src .summed)
    (hs : ChargeSound cf s src io) : Inv before (preWssStep cf s src io) := by
  have hp := h.progress
  simp only [State.Progress, hr] at hp
  obtain ⟨⟨t, ts, hturns, hnone, hbilled, hzero⟩, hsum⟩ := hp
  simp only [ChargeSound] at hs
  have hw := h.wallet
  simp only [preWssStep]
  split
  next acc' hpre =>
    -- the charge succeeds, with the quota of the turn's own usage
    obtain ⟨pricing, hpricing, hwallet⟩ := preWssConsumeQuota_ok hprice (by rw [hpre])
    rw [hpre, hbilled] at hwallet
    refine .connected ⟨h.stage, ?_, hzero, ?_⟩
    · show acc'.wallet = _
      simp only [hturns, hpricing, chargedTotal_chargeTurn cf pricing ts hnone]
      rw [hturns] at hw
      have hwallet' : acc'.wallet = s.acc.wallet - cf.quota pricing t.usage := hwallet
      omega
    · simpa using hsum
  next acc' e hpre =>
    rw [hpre] at hs
    rcases hs with hs | ⟨hsame, hsrc⟩
    · cases hs
    · refine .connected ⟨h.stage, ?_, ?_, hsum⟩
      · exact Eq.trans hsame hw
      · rcases hsrc with rfl | htotal
        · simp only [hzero rfl, RealtimeUsage.totalTokens_zero]
        · exact htotal

theorem State.Connected.clear {src : Source} {usage localUsage : RealtimeUsage}
    (h : s.Connected before) (hr : s.reader = .turn src .charged) (hzero : usage = 0) :
    Inv before { s with usage := usage, localUsage := localUsage, reader := .reading } := by
  have hp := h.progress
  simp only [State.Progress, hr] at hp
  exact .connected ⟨h.stage, h.wallet, hzero, hp.2⟩

theorem State.Connected.readerStops (h : s.Connected before) (hr : s.reader = .reading) :
    Inv before { s with reader := .stopped } := by
  have hp := h.progress
  simp only [State.Progress, hr] at hp
  refine .connected ⟨h.stage, h.wallet, ?_, hp.2⟩
  simp only [hp.1, RealtimeUsage.totalTokens_zero]

/-- A session that ends between two turns has been debited the quotas of its charged
turns and what its billing session still holds. -/
theorem State.Connected.finish_eq (h : s.Connected before)
    (hcalm : s.reader.Calm s.usage.totalTokens) (cf : Conf) (io : PreWssCalls)
    (pricing : Option ModelPricing) :
    before - (finishStep cf s io pricing).acc.wallet =
        s.session.consumed + chargedTotal (finishStep cf s io pricing).turns ∧
      (finishStep cf s io pricing).posted = some (usageTotal (finishStep cf s io pricing).turns) := by
  have hp := h.progress
  have hdone : s.usage.totalTokens = 0 ∧ s.sumUsage = usageTotal s.turns := by
    simp only [State.Progress] at hp
    split at hp
    next => exact ⟨by rw [hp.1]; rfl, hp.2⟩
    next => exact hp
    next hr => simp [hr, Reader.Calm] at hcalm
    next hr => simp [hr, Reader.Calm] at hcalm
    next hr =>
      rw [hr] at hcalm
      exact ⟨hcalm, hp.2⟩
  have hlast : lastCharge cf s io = s := by
    simp only [lastCharge, hdone.1, if_true]
  have hw := h.wallet
  simp only [finishStep, hlast, hdone.2, and_true]
  omega

/-- So a pre-charge that was not zero is debited on top. -/
theorem State.Connected.billed_finish_iff {io : PreWssCalls} {pricing : Option ModelPricing}
    (h : s.Connected before) (hcalm : s.reader.Calm s.usage.totalTokens) :
    Billed before (finishStep cf s io pricing) ↔ s.session.consumed = 0 := by
  obtain ⟨hwallet, hposted⟩ := h.finish_eq hcalm cf io pricing
  constructor
  · intro hb
    have := hb.1
    omega
  · intro hzero
    refine ⟨by omega, ?_⟩
    intro u hu
    rw [hposted] at hu
    cases hu
    rfl

/-- A turn that is left in `usage` after it was added to the sum is counted twice. -/
theorem not_billed_of_leftover {io : PreWssCalls} {pricing : Option ModelPricing}
    (hleft : s.usage.totalTokens ≠ 0) (hsum : s.sumUsage = usageTotal s.turns) :
    ¬ Billed before (finishStep cf s io pricing) := by
  rintro ⟨-, hb⟩
  have hturns : usageTotal (lastCharge cf s io).turns = usageTotal s.turns := by
    simp only [lastCharge, hleft, if_false]
    split
    · exact usageTotal_chargeTurn _ _ _
    · rfl
  have hposted : s.sumUsage + s.usage = usageTotal s.turns := by
    have h := hb (s.sumUsage + s.usage) (by simp only [finishStep, lastCharge, hleft, if_false])
    rw [← hturns]
    exact h
  have htotal := congrArg RealtimeUsage.totalTokens hposted
  rw [hsum] at htotal
  have hadd : (usageTotal s.turns).totalTokens + s.usage.totalTokens =
      (usageTotal s.turns).totalTokens := htotal
  omega

theorem State.Dialing.step {e : Event} (hI : s.Dialing before) (hs : Sound cf s e)
    (h : dialStep s e = some s') : Inv before s' := by
  cases e with
  | dialFailed =>
      cases h
      exact .dialing hI
  | relayFails walletErr tokenErr =>
      cases h
      exact hI.refundStep hs
  | connect =>
      cases h
      exact hI.connect
  | _ => cases h

theorem State.Connected.usage_of_reading (hI : s.Connected before) (hr : s.reader = .reading) :
    s.usage = 0 := by
  have hp := hI.progress
  simp only [State.Progress, hr] at hp
  exact hp.1

theorem State.Connected.usage_of_counted (hI : s.Connected before)
    (hr : s.reader = .turn .counted .charged) : s.usage = 0 := by
  have hp := hI.progress
  simp only [State.Progress, hr] at hp
  exact hp.1 trivial

theorem State.Connected.readerStep {e : Event} (hprice : cf.usePerCallPricing = false)
    (hI : s.Connected before) (hs : Sound cf s e) (h : readerStep cf s e = some s') :
    Inv before s' := by
  simp only [Realtime.readerStep] at h
  split at h
  next hr =>
    cases h
    exact hI.localUsage _ (by rw [hr]; exact not_false)
  next usage hr =>
    cases h
    refine hI.begin hr .reported ?_ (fun hsrc => by cases hsrc)
    rw [hI.usage_of_reading hr, RealtimeUsage.zero_add]
  next text audio hr =>
    cases h
    exact hI.begin hr .counted rfl fun _ => hI.usage_of_reading hr
  next hr =>
    cases h
    exact hI.readerStops hr
  next src hr =>
    cases h
    exact hI.addToSum hr
  next src io hr =>
    cases h
    exact hI.preWss hprice hr (hs src (by cases src <;> decide) hr)
  next hr =>
    cases h
    exact hI.clear hr rfl
  next hr =>
    cases h
    exact hI.clear hr (hI.usage_of_counted hr)
  next => cases h

theorem Inv.step {e : Event} (hprice : cf.usePerCallPricing = false) (hI : Inv before s)
    (hs : Sound cf s e) (h : step cf s e = some s') : Inv before s' := by
  cases hI with
  | dialing hd =>
      simp only [Realtime.step, hd.stage] at h
      exact hd.step hs h
  | connected hc =>
      simp only [Realtime.step, hc.stage] at h
      cases e with
      | clientMessage text audio =>
          cases h
          simpa only [hc.stage] using hc.localUsage (s.localUsage + .input text audio) hs
      | finish io pricing =>
          cases h
          exact .returned rfl ((hc.billed_finish_iff hs.2).2 hs.1)
      | _ => exact hc.readerStep hprice hs h
  | returned hst hb =>
      simp only [Realtime.step, hst] at h
      cases h

end

/-- In every session on a token-priced model whose steps are all sound, when `Relay`
returns the wallet has been debited the quotas of the turns whose charge succeeded, and
`PostWssConsumeQuota` was given every turn once. -/
theorem billed_of_sound (cf : Conf) (hprice : cf.usePerCallPricing = false)
    (quotaToPreConsume : Int) (acc : Accounts) (io : PreConsumeCalls) (es : List Event) (s : State)
    (hsound : Run.Along (step cf) (Sound cf) (start cf quotaToPreConsume acc io) es)
    (h : Run.exec (step cf) (start cf quotaToPreConsume acc io) es = some s)
    (hret : s.stage = .returned) : Billed acc.wallet s := by
  have hI : Inv acc.wallet s :=
    Run.exec_invariant (fun _ _ _ hI hs hstep => hI.step hprice hs hstep)
      (inv_start cf quotaToPreConsume acc io) hsound h
  cases hI with
  | dialing hd =>
      rw [hd.stage] at hret
      cases hret
  | connected hc =>
      rw [hc.stage] at hret
      cases hret
  | returned _ hb => exact hb

/-! ## Two sessions -/

/-- Ten dollars for a million text tokens, and twenty for a million audio tokens. -/
def examplePricing : ModelPricing := ⟨false, 0, 10, 10, 20, 20⟩

/-- A request of a user with 5000 left, under the given trust threshold. -/
def exampleConf (trustQuota : Int) : Conf where
  env := ⟨trustQuota, fun q => toString q⟩
  info := ⟨false, true, false, 0, 0⟩
  originModelName := "gpt-realtime"
  usePerCallPricing := false
  groupDiscount := 1

/-- A turn of thirty tokens, twenty of them audio. -/
def exampleUsage : RealtimeUsage := ⟨30, 10, 20, 0, 10, 0, 0, 20⟩

def exampleCalls : PreWssCalls := ⟨.ok 5000, .ok ⟨true, 0⟩, some examplePricing, none, none⟩

/-- One turn, and then the client goes. -/
def oneTurn : List Event :=
  [.connect, .responseDone exampleUsage, .addToSum, .preWss exampleCalls, .clear,
    .finish exampleCalls (some examplePricing)]

/-- A pre-charge of 1000 is never given back: the session of one turn of 500 has been
debited 1500. -/
theorem preCharge_is_kept :
    ¬ ∀ (cf : Conf) (quotaToPreConsume : Int) (acc : Accounts) (io : PreConsumeCalls)
        (es : List Event) (s : State), cf.usePerCallPricing = false →
      Run.exec (step cf) (start cf quotaToPreConsume acc io) es = some s →
      s.stage = .returned → Billed acc.wallet s := by
  intro h
  obtain ⟨s, hs, hw⟩ := Run.exists_of_any (step (exampleConf 0))
    (start (exampleConf 0) 1000 ⟨5000, 0⟩ ⟨.ok 5000, .ok 0, none, none, none⟩) oneTurn
    (fun s => s.stage = .returned ∧ s.acc.wallet = 3500 ∧ chargedTotal s.turns = 500)
    (by decide +kernel)
  simp only [decide_eq_true_eq] at hw
  obtain ⟨hret, hwallet, hcharged⟩ := hw
  have hb := h (exampleConf 0) 1000 ⟨5000, 0⟩ ⟨.ok 5000, .ok 0, none, none, none⟩ oneTurn s rfl hs
    hret
  have hlaw := hb.1
  rw [hwallet, hcharged] at hlaw
  exact absurd hlaw (by decide)

/-- The same session of a user who is trusted, so that nothing is pre-charged. -/
theorem billed_of_trusted :
    ∃ s, Run.exec (step (exampleConf 100))
        (start (exampleConf 100) 1000 ⟨5000, 0⟩ ⟨.ok 5000, .ok 0, none, none, none⟩) oneTurn = some s ∧
      s.acc.wallet = 4500 ∧ s.posted = some exampleUsage ∧ Billed 5000 s := by
  obtain ⟨s, hs, hw⟩ := Run.exists_of_any (step (exampleConf 100))
    (start (exampleConf 100) 1000 ⟨5000, 0⟩ ⟨.ok 5000, .ok 0, none, none, none⟩) oneTurn
    (fun s => s.stage = .returned ∧ s.acc.wallet = 4500 ∧ s.posted = some exampleUsage)
    (by decide +kernel)
  simp only [decide_eq_true_eq] at hw
  exact ⟨s, hs, hw.2.1, hw.2.2, billed_of_sound (exampleConf 100) rfl 1000 ⟨5000, 0⟩ _ oneTurn s
    (by decide +kernel) hs hw.1⟩

end DazeApi.Realtime
