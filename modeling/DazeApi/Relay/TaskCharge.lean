import DazeApi.Lib.Scaling
import DazeApi.Relay.TaskRatios

/-!
# What a submission charges

The ratios of a request come from the origin task of a remix and from the adaptor's
estimate.  `AddOtherRatio` writes them to `OtherDiscounts`, the loop reads
`OtherRatios`, and the price is rebuilt in between, so none of them reaches the
charge, and the task records what the adaptor returns after submission.
-/

namespace DazeApi.Relay.TaskSubmit

open DazeApi.Types
open DazeApi.Billing (Accounts BillingEnv BillingSession PreConsumeCalls newBillingSession)

/-! ## The ratios of a request -/

/-- The ratios that `ResolveOriginTask` presets from the origin task of a remix. -/
def presetRatios : Option OriginTask → Ratios
  | none => ∅
  | some t =>
      match t.billingContext with
      | some rs => rs
      | none => t.legacyRatios ∅

/-- The preset ratios and the estimated ones, the estimate winning. -/
def mergedRatios (preset estimated : Ratios) : Ratios := estimated ∪ preset

/-- A product of the base quota with all ratios, truncated after each factor in some order
or once at the end. -/
def UpToTruncation (quota base : Int) (rs : List ℚ) : Prop :=
  (∃ os, os.Perm rs ∧ quota = Scaling.times base os) ∨ quota = Rounding.trunc (base * rs.prod)

/-! ## The price -/

@[simp] theorem addOtherRatio_otherRatios (p : PriceData) (key : String) (ratio : ℚ) :
    (p.addOtherRatio key ratio).otherRatios = p.otherRatios := by
  unfold PriceData.addOtherRatio
  split <;> rfl

@[simp] theorem addOtherRatio_quota (p : PriceData) (key : String) (ratio : ℚ) :
    (p.addOtherRatio key ratio).quota = p.quota := by
  unfold PriceData.addOtherRatio
  split <;> rfl

@[simp] theorem addOtherRatio_fixedPriceUnit (p : PriceData) (key : String) (ratio : ℚ) :
    (p.addOtherRatio key ratio).fixedPriceUnit = p.fixedPriceUnit := by
  unfold PriceData.addOtherRatio
  split <;> rfl

/-- Adding ratios changes `OtherDiscounts` only, as far as the charge is concerned. -/
theorem addOtherRatios_frame (p : PriceData) (rs : Ratios) :
    (p.addOtherRatios rs).otherRatios = p.otherRatios ∧
      (p.addOtherRatios rs).quota = p.quota ∧
        (p.addOtherRatios rs).fixedPriceUnit = p.fixedPriceUnit := by
  unfold PriceData.addOtherRatios
  generalize rs.entries = es
  induction es generalizing p with
  | nil => exact ⟨rfl, rfl, rfl⟩
  | cons e es ih =>
      obtain ⟨hr, hq, hu⟩ := ih (p.addOtherRatio e.1 e.2)
      rw [List.foldl_cons, hr, hq, hu]
      simp

/-- The loop finds no ratios. -/
theorem priceRequest_otherRatios (modelName : String) (mp : ModelPricing) (io : AttemptCalls) :
    (priceRequest modelName mp io).otherRatios = ∅ :=
  (addOtherRatios_frame _ io.estimated).1

theorem priceRequest_quota {modelName : String} {mp : ModelPricing} {io : AttemptCalls}
    (hunit : mp.fixedPriceUnit ≠ "second") :
    (priceRequest modelName mp io).quota =
      baseQuota mp io.groupDiscount io.enableFreeModelPreConsume := by
  obtain ⟨hr, hq, hu⟩ := addOtherRatios_frame
    (modelPriceHelperPerCall mp io.groupDiscount io.enableFreeModelPreConsume) io.estimated
  have hempty : values (∅ : Ratios) = [] := rfl
  have hnone : (modelPriceHelperPerCall mp io.groupDiscount
      io.enableFreeModelPreConsume).otherRatios = ∅ := rfl
  have hcall : (modelPriceHelperPerCall mp io.groupDiscount
      io.enableFreeModelPreConsume).fixedPriceUnit ≠ "second" := hunit
  unfold priceRequest
  simp only [chargedQuota, hr, hq, hu, hnone, hempty, order_nil, if_neg hcall]
  split <;> rfl

/-! ## One attempt -/

/-- A forced pre-charge is never waived. -/
theorem preConsumedQuota_of_forced {env : BillingEnv} {info : Billing.RelayInfo} {quota : Int}
    {acc acc' : Accounts} {io : PreConsumeCalls} {s : BillingSession}
    (hforce : info.forcePreConsume = true)
    (h : newBillingSession env info quota acc io = (acc', .ok s)) :
    s.preConsumedQuota = quota := by
  have htrust : ∀ userQuota : Int,
      Billing.shouldTrust env { info with userQuota := userQuota } = false := by
    intro userQuota
    simp [Billing.shouldTrust, hforce]
  have hfunding : ∀ (s₀ : BillingSession) (acc : Accounts),
      (Billing.preConsumeFunding s₀ quota acc io) = (acc', .ok s) → s.preConsumedQuota = quota := by
    intro s₀ acc h
    unfold Billing.preConsumeFunding at h
    split at h
    next => cases h
    next => cases h; rfl
  simp only [newBillingSession, htrust, Billing.preConsume, Bool.false_eq_true, if_false] at h
  split at h
  next => cases h
  next =>
    split at h
    next => cases h
    next =>
      split at h
      next => cases h
      next =>
        split at h
        next =>
          split at h
          next => cases h
          next => exact hfunding _ _ h
        next => exact hfunding _ _ h

theorem sendTask_cases (info : RelayInfo) (acc : Accounts) (io : AttemptCalls) :
    (∃ e, sendTask info acc io = (info, acc, .error e)) ∨
      ∃ r, sendTask info acc io = (adjustOnSubmit info io, acc, .ok r) := by
  unfold sendTask
  split
  next => exact Or.inl ⟨_, rfl⟩
  next => exact Or.inl ⟨_, rfl⟩
  next => exact Or.inl ⟨_, rfl⟩
  next => exact Or.inl ⟨_, rfl⟩
  next => exact Or.inr ⟨_, rfl⟩

@[simp] theorem adjustOnSubmit_billing (info : RelayInfo) (io : AttemptCalls) :
    (adjustOnSubmit info io).billing = info.billing := by
  unfold adjustOnSubmit
  split <;> rfl

/-- The recorded ratios are the adjustment's, which may have none. -/
theorem adjustOnSubmit_otherRatios {info : RelayInfo} (io : AttemptCalls)
    (h : info.priceData.otherRatios = ∅) :
    SameMap (adjustOnSubmit info io).priceData.otherRatios io.adjusted := by
  unfold adjustOnSubmit
  split
  next => exact fun _ => rfl
  next hlen =>
    have hnil : io.adjusted = ∅ :=
      AList.ext (List.eq_nil_of_length_eq_zero (by omega))
    rw [h, hnil]
    exact fun _ => rfl

/-- What an attempt has done: if it made the pre-charge, that was the price of the
request, and if it submitted the task, the recorded ratios are the adjustment's. -/
structure Attempted (price : Int) (before after : RelayInfo) (adjusted : Ratios)
    (submitted : Bool) : Prop where
  preCharged : before.billing = none → ∀ s, after.billing = some s → s.preConsumedQuota = price
  recorded : submitted = true → SameMap after.priceData.otherRatios adjusted

/-- The outcome was a submitted task. -/
def isSubmitted : Except TaskError TaskSubmitResult → Bool
  | .ok _ => true
  | .error _ => false

theorem sendTask_attempted (info : RelayInfo) (acc : Accounts) (io : AttemptCalls)
    (hr : info.priceData.otherRatios = ∅) {before : RelayInfo} {price : Int}
    (hbill : before.billing = none → ∀ s, info.billing = some s → s.preConsumedQuota = price) :
    Attempted price before (sendTask info acc io).1 io.adjusted
      (isSubmitted (sendTask info acc io).2.2) := by
  rcases sendTask_cases info acc io with ⟨e, h⟩ | ⟨r, h⟩
  · rw [h]
    exact ⟨hbill, fun h => by cases h⟩
  · rw [h]
    refine ⟨?_, fun _ => adjustOnSubmit_otherRatios io hr⟩
    rw [adjustOnSubmit_billing]
    exact hbill

theorem preCharge_attempted (info : RelayInfo) (env : BillingEnv) (acc : Accounts)
    (io : AttemptCalls) (hr : info.priceData.otherRatios = ∅) :
    Attempted info.priceData.quota info (preCharge env info acc io).1 io.adjusted
      (isSubmitted (preCharge env info acc io).2.2) := by
  unfold preCharge
  split
  next =>
    dsimp only
    split
    next => exact ⟨fun hnone s hs => by simp [hnone] at hs, fun h => by cases h⟩
    next acc' s hs =>
      refine sendTask_attempted _ acc' io (by exact hr) fun _ s' hs' => ?_
      cases hs'
      exact preConsumedQuota_of_forced rfl hs
  next => exact sendTask_attempted info acc io hr fun hnone s hs => by simp [hnone] at hs

theorem relayTaskSubmit_attempted {io : AttemptCalls} {mp : ModelPricing} (env : BillingEnv)
    (info : RelayInfo) (acc : Accounts) (hmp : io.modelPricing = .ok mp)
    (hunit : mp.fixedPriceUnit ≠ "second") :
    Attempted (baseQuota mp io.groupDiscount io.enableFreeModelPreConsume) info
      (relayTaskSubmit env info acc io).1 io.adjusted
      (isSubmitted (relayTaskSubmit env info acc io).2.2) := by
  have hstopped : ∀ (info' : RelayInfo) (e : TaskError), info'.billing = info.billing →
      Attempted (baseQuota mp io.groupDiscount io.enableFreeModelPreConsume) info info' io.adjusted
        (isSubmitted (.error e)) := by
    intro info' e hsame
    exact ⟨fun hnone s hs => by simp [hsame, hnone] at hs, fun h => by cases h⟩
  unfold relayTaskSubmit
  split
  next => exact hstopped info _ rfl
  next =>
    split
    next => exact hstopped _ _ rfl
    next =>
      simp only [hmp]
      split
      next => exact hstopped _ _ rfl
      next =>
        have h := preCharge_attempted { info with
            action := io.action, originModelName := billedModel info io
            upstreamModelName := ‹String›
            publicTaskID :=
              if info.publicTaskID = "" then io.generatedTaskID else info.publicTaskID
            priceData := priceRequest (billedModel info io) mp io }
          env acc io (priceRequest_otherRatios _ mp io)
        rw [← (priceRequest_quota hunit : (priceRequest (billedModel info io) mp io).quota = _)]
        exact ⟨h.preCharged, h.recorded⟩

/-! ## A request -/

/-- A request as an attempt finds it: its origin task has been resolved, and earlier
attempts have failed. -/
def beforeAttempt (env : BillingEnv) (info : RelayInfo) (acc : Accounts)
    (origin : Option OriginTask) (earlier : List AttemptCalls) : RelayInfo × Accounts :=
  earlier.foldl
    (fun s io => ((relayTaskSubmit env s.1 s.2 io).1, (relayTaskSubmit env s.1 s.2 io).2.1))
    (resolveOriginTask info origin, acc)

/-- An attempt charges the base quota times all ratios, and records them. -/
def ChargesRatios (env : BillingEnv) (s : RelayInfo × Accounts) (origin : Option OriginTask)
    (mp : ModelPricing) (io : AttemptCalls) : Prop :=
  let out := relayTaskSubmit env s.1 s.2 io
  let merged := mergedRatios (presetRatios origin) io.estimated
  (s.1.billing = none → ∀ session, out.1.billing = some session →
    UpToTruncation session.preConsumedQuota
      (baseQuota mp io.groupDiscount io.enableFreeModelPreConsume) (values merged)) ∧
  (isSubmitted out.2.2 = true →
    SameMap (taskBillingContext out.1 io.taskPricePatches).otherRatios merged)

/-- The ratios make no difference: an attempt that pre-charges has a base quota that they
leave as it is, and one that submits the task is adjusted to exactly them. -/
def RatiosIdle (env : BillingEnv) (s : RelayInfo × Accounts) (origin : Option OriginTask)
    (mp : ModelPricing) (io : AttemptCalls) : Prop :=
  let out := relayTaskSubmit env s.1 s.2 io
  let merged := mergedRatios (presetRatios origin) io.estimated
  let base := baseQuota mp io.groupDiscount io.enableFreeModelPreConsume
  (s.1.billing = none → out.1.billing.isSome = true → UpToTruncation base base (values merged)) ∧
  (isSubmitted out.2.2 = true → SameMap io.adjusted merged)

/-- Every attempt of every request for a model that is not priced by the second. -/
theorem chargesRatios_iff (env : BillingEnv) (info : RelayInfo) (acc : Accounts)
    (origin : Option OriginTask) (earlier : List AttemptCalls) (io : AttemptCalls)
    (mp : ModelPricing) (hmp : io.modelPricing = .ok mp)
    (hunit : mp.fixedPriceUnit ≠ "second") :
    ChargesRatios env (beforeAttempt env info acc origin earlier) origin mp io ↔
      RatiosIdle env (beforeAttempt env info acc origin earlier) origin mp io := by
  generalize beforeAttempt env info acc origin earlier = s
  have hattempt := relayTaskSubmit_attempted env s.1 s.2 hmp hunit
  unfold ChargesRatios RatiosIdle
  refine and_congr ?_ ?_
  · constructor
    · intro h hnone hsome
      obtain ⟨session, hsession⟩ := Option.isSome_iff_exists.1 hsome
      have hq := h hnone session hsession
      rwa [hattempt.preCharged hnone session hsession] at hq
    · intro h hnone session hsession
      rw [hattempt.preCharged hnone session hsession]
      exact h hnone (by rw [hsession]; rfl)
  · refine forall_congr' fun hsub => ?_
    have hrec := hattempt.recorded hsub
    constructor
    · exact fun h k => (hrec k).symm.trans (h k)
    · exact fun h k => (hrec k).trans (h k)

/-- A video request at ten cents a call that the adaptor estimates by `estimated`, on an
upstream that takes it. -/
def videoRequest (estimated : Ratios) : AttemptCalls where
  platform := "sora"
  adaptorFound := true
  validateErr := none
  action := "generate"
  mapped := .ok "sora-2"
  generatedTaskID := "task_1"
  modelPricing := .ok ⟨1 / 10, true, "", 0⟩
  groupDiscount := 1
  enableFreeModelPreConsume := false
  taskPricePatches := []
  request := some ⟨5, none⟩
  estimated := estimated
  applyOrder := asListed
  preConsume := ⟨.ok 900000, .ok 900000, none, none, none⟩
  buildErr := none
  doRequestErr := none
  badResponse := none
  response := .ok ("up_1", "")
  adjusted := ∅
  divideOrder := asListed
  multiplyOrder := asListed

/-- A request for "sora-2" before any attempt. -/
def newRequest : RelayInfo where
  originModelName := "sora-2"
  upstreamModelName := ""
  action := ""
  publicTaskID := ""
  priceData := PriceData.zero
  account := ⟨false, false, false, 900000, 0⟩
  billing := none

theorem chargesRatios_noRatios :
    ChargesRatios ⟨0, fun _ => ""⟩ (beforeAttempt ⟨0, fun _ => ""⟩ newRequest ⟨900000, 900000⟩ none [])
        none ⟨1 / 10, true, "", 0⟩ (videoRequest ∅) ↔
      RatiosIdle ⟨0, fun _ => ""⟩ (beforeAttempt ⟨0, fun _ => ""⟩ newRequest ⟨900000, 900000⟩ none [])
        none ⟨1 / 10, true, "", 0⟩ (videoRequest ∅) :=
  chargesRatios_iff ⟨0, fun _ => ""⟩ newRequest ⟨900000, 900000⟩ none [] (videoRequest ∅)
    ⟨1 / 10, true, "", 0⟩ rfl (by decide)

/-- Five seconds at ten cents are charged as one call. -/
theorem not_chargesRatios_fiveSeconds :
    ¬ ChargesRatios ⟨0, fun _ => ""⟩
        (beforeAttempt ⟨0, fun _ => ""⟩ newRequest ⟨900000, 900000⟩ none []) none
        ⟨1 / 10, true, "", 0⟩ (videoRequest ((∅ : Ratios).insert "seconds" 5)) := by
  rintro ⟨hcharge, -⟩
  obtain ⟨session, hsession⟩ := Option.isSome_iff_exists.1
    (by decide +kernel : (relayTaskSubmit ⟨0, fun _ => ""⟩ newRequest ⟨900000, 900000⟩
      (videoRequest ((∅ : Ratios).insert "seconds" 5))).1.billing.isSome = true)
  have hquota := (relayTaskSubmit_attempted ⟨0, fun _ => ""⟩ newRequest ⟨900000, 900000⟩ rfl
    (by decide)).preCharged rfl session hsession
  have h := hcharge rfl session hsession
  rw [hquota] at h
  rcases h with ⟨os, hos, hq⟩ | hq
  · obtain rfl : os = [5] := List.perm_singleton.1 hos
    revert hq
    decide +kernel
  · revert hq
    decide +kernel

end DazeApi.Relay.TaskSubmit
