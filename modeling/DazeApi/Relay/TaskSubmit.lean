import Mathlib.Data.List.AList
import Mathlib.Data.Rat.Floor
import DazeApi.Lib.Rounding
import DazeApi.Billing.Session

/-!
# Task submission

`RelayTaskSubmit` and `ResolveOriginTask` (`relay/relay_task.go`), with the
pricing of `ModelPriceHelperPerCall` (`relay/helper/price.go`) and the record that
the controller makes of a submitted task.

One call of `RelayTaskSubmit` is one attempt.  What lies outside (the adaptor of the
platform, the price table, the settings, the store, the upstream) answers through
`AttemptCalls`.  Go ranges over a map in no fixed order: a map is an association list,
and a `RangeOrder` says in which order one loop sees its values.

Prices and ratios are rationals where the source has `float64`.
-/

namespace DazeApi.Relay.TaskSubmit

open DazeApi.Types
open DazeApi.Billing (Accounts BillingEnv BillingSession PreConsumeCalls newBillingSession)

/-! ## Ratios -/

/-- A map of ratios. -/
abbrev Ratios := AList fun _ : String => ℚ

/-- The ratios of a map, as it is listed. -/
def values (rs : Ratios) : List ℚ := rs.entries.map Sigma.snd

/-- Two listings of one map. -/
def SameMap (rs rs' : Ratios) : Prop := ∀ k, rs.lookup k = rs'.lookup k

/-- The order in which one loop over a map sees its values. -/
structure RangeOrder where
  order : List ℚ → List ℚ
  perm : ∀ rs, (order rs).Perm rs

/-- The order of the listing. -/
def asListed : RangeOrder where
  order := id
  perm := List.Perm.refl

@[simp] theorem order_nil (o : RangeOrder) : o.order [] = [] := (o.perm []).eq_nil

/-! ## Prices -/

/-- `types.PriceData`, the fields of a task. -/
structure PriceData where
  freeModel : Bool
  perCallPrice : ℚ
  usePerCallPricing : Bool
  fixedPriceUnit : String
  groupDiscount : ℚ
  otherDiscounts : Ratios
  otherRatios : Ratios
  quota : Int

/-- The zero `types.PriceData` of a new request. -/
def PriceData.zero : PriceData where
  freeModel := false
  perCallPrice := 0
  usePerCallPricing := false
  fixedPriceUnit := ""
  groupDiscount := 0
  otherDiscounts := ∅
  otherRatios := ∅
  quota := 0

/-- `PriceData.AddOtherRatio`. -/
def PriceData.addOtherRatio (p : PriceData) (key : String) (ratio : ℚ) : PriceData :=
  if ratio ≤ 0 then p else { p with otherDiscounts := p.otherDiscounts.insert key ratio }

/-- A loop of `AddOtherRatio` over a map. -/
def PriceData.addOtherRatios (p : PriceData) (rs : Ratios) : PriceData :=
  rs.entries.foldl (fun p e => p.addOtherRatio e.1 e.2) p

/-- `pricing.ModelPricing`, the fields that a task is priced by. -/
structure ModelPricing where
  perCallPrice : ℚ
  usePerCallPricing : Bool
  fixedPriceUnit : String
  promptPrice : ℚ

/-- The base quota of one call: microdollars, truncated. -/
def baseQuota (mp : ModelPricing) (groupDiscount : ℚ) (enableFreeModelPreConsume : Bool) : Int :=
  let price := if mp.usePerCallPricing then mp.perCallPrice else mp.promptPrice
  if !enableFreeModelPreConsume && (groupDiscount = 0 || price = 0) then 0
  else Rounding.trunc (price * 1000000 * groupDiscount)

/-- `ModelPriceHelperPerCall` of a configured model. -/
def modelPriceHelperPerCall (mp : ModelPricing) (groupDiscount : ℚ)
    (enableFreeModelPreConsume : Bool) : PriceData :=
  let price := if mp.usePerCallPricing then mp.perCallPrice else mp.promptPrice
  { PriceData.zero with
    freeModel := !enableFreeModelPreConsume && (groupDiscount = 0 || price = 0)
    perCallPrice := price
    usePerCallPricing := mp.usePerCallPricing
    fixedPriceUnit := mp.fixedPriceUnit
    groupDiscount := groupDiscount
    quota := baseQuota mp groupDiscount enableFreeModelPreConsume }

/-- `relaycommon.TaskSubmitReq`, the fields that give a duration; `seconds` is what
`strconv.Atoi` makes of the trimmed text. -/
structure TaskSubmitReq where
  duration : Int
  seconds : Option Int
deriving DecidableEq, Repr

/-- `resolveTaskSeconds`. -/
def resolveTaskSeconds (req : Option TaskSubmitReq) (ratios : Ratios) : ℚ :=
  match ratios.lookup "seconds" with
  | some s => if s > 0 then ⌈s⌉ else fromRequest
  | none => fromRequest
where
  fromRequest : ℚ :=
    match req with
    | none => 1
    | some r =>
        if r.duration > 0 then r.duration
        else
          match r.seconds with
          | some s => if s > 0 then s else 1
          | none => 1

/-- The loop over the ratios: a truncation after each factor. -/
def applyRatios (quota : Int) (order : List ℚ) : Int :=
  order.foldl (fun q ra => if ra ≠ 1 then Rounding.trunc (q * ra) else q) quota

/-- Step 6 of `RelayTaskSubmit`: by the second, or by the ratios unless the model is
one of `TaskPricePatches`. -/
def chargedQuota (p : PriceData) (perCallOnly : Bool) (req : Option TaskSubmitReq)
    (order : List ℚ) : Int :=
  if p.fixedPriceUnit = "second" then
    if resolveTaskSeconds req p.otherRatios > 0 then
      Rounding.trunc (p.quota * resolveTaskSeconds req p.otherRatios)
    else p.quota
  else if !perCallOnly then applyRatios p.quota order
  else p.quota

/-- The division by the ratios that were applied. -/
def divideRatios (quota : Int) (order : List ℚ) : Int :=
  order.foldl
    (fun q ra => if ra ≠ 1 ∧ ra > 0 then Rounding.trunc (q / ra) else q) quota

/-- `recalcQuotaFromRatios`: the recorded ratios are divided out one by one and the
new ones multiplied together. -/
def recalcQuotaFromRatios (quota : Int) (recorded ratios : List ℚ) : Int :=
  Rounding.trunc
    (ratios.foldl (fun x ra => if ra ≠ 1 then x * ra else x) (divideRatios quota recorded : ℚ))

/-! ## Requests -/

/-- `dto.TaskError`; the message is what `TaskErrorWrapper` makes of the text. -/
structure TaskError where
  code : String
  message : String
  statusCode : Int
  localError : Bool
deriving DecidableEq, Repr

/-- `relaycommon.RelayInfo`, the fields of a task. -/
structure RelayInfo where
  originModelName : String
  upstreamModelName : String
  action : String
  publicTaskID : String
  priceData : PriceData
  account : Billing.RelayInfo
  billing : Option BillingSession

/-- What `ResolveOriginTask` reads of the origin task of a remix: the ratios of its
`BillingContext`, or `seconds` and `size` of its data. -/
structure OriginTask where
  billingContext : Option Ratios
  seconds : Int
  size : String

/-- The ratios that the data of an old task stands for. -/
def OriginTask.legacyRatios (t : OriginTask) (rs : Ratios) : Ratios :=
  (rs.insert "seconds" (if t.seconds ≤ 0 then 4 else (t.seconds : ℚ))).insert "size"
    (if t.size = "1792x1024" ∨ t.size = "1024x1792" then 1666667 / 1000000 else 1)

/-- The remix part of `ResolveOriginTask`. -/
def resolveOriginTask (info : RelayInfo) : Option OriginTask → RelayInfo
  | none => info
  | some t =>
      match t.billingContext with
      | some rs => { info with priceData := info.priceData.addOtherRatios rs }
      | none =>
          { info with priceData :=
              { info.priceData with otherRatios := t.legacyRatios info.priceData.otherRatios } }

/-! ## Attempts -/

/-- The answers to one attempt. -/
structure AttemptCalls where
  platform : String
  /-- `GetTaskAdaptor` knows the platform. -/
  adaptorFound : Bool
  validateErr : Option TaskError
  action : String
  /-- `ModelMappedHelper`: the upstream model name. -/
  mapped : Except String String
  generatedTaskID : String
  /-- `pricing.RequireModelPricing`. -/
  modelPricing : Except String ModelPricing
  groupDiscount : ℚ
  enableFreeModelPreConsume : Bool
  taskPricePatches : List String
  request : Option TaskSubmitReq
  /-- `EstimateBilling`. -/
  estimated : Ratios
  applyOrder : RangeOrder
  preConsume : PreConsumeCalls
  buildErr : Option String
  doRequestErr : Option String
  /-- The status and body of a response that is not 200. -/
  badResponse : Option (Int × String)
  /-- `DoResponse`: the upstream task id and the task data. -/
  response : Except TaskError (String × String)
  /-- `AdjustBillingOnSubmit`. -/
  adjusted : Ratios
  divideOrder : RangeOrder
  multiplyOrder : RangeOrder

/-- `TaskSubmitResult`. -/
structure TaskSubmitResult where
  upstreamTaskID : String
  taskData : String
  platform : String
  quota : Int
deriving DecidableEq, Repr

/-- `service.CoverTaskActionToModelName`. -/
def coverTaskActionToModelName (platform action : String) : String :=
  platform.toLower ++ "_" ++ action.toLower

/-- Steps 11 and 12: the adjustment after the response. -/
def adjustOnSubmit (info : RelayInfo) (io : AttemptCalls) : RelayInfo :=
  if io.adjusted.entries.length > 0 then
    { info with priceData :=
        { info.priceData with
          otherRatios := io.adjusted
          quota := recalcQuotaFromRatios info.priceData.quota
            (io.divideOrder.order (values info.priceData.otherRatios))
            (io.multiplyOrder.order (values io.adjusted)) } }
  else info

/-- Steps 8 to 12, after the pre-charge. -/
def sendTask (info : RelayInfo) (acc : Accounts) (io : AttemptCalls) :
    RelayInfo × Accounts × Except TaskError TaskSubmitResult :=
  match io.buildErr, io.doRequestErr, io.badResponse, io.response with
  | some e, _, _, _ => (info, acc, .error ⟨"build_request_failed", e, 500, false⟩)
  | none, some e, _, _ => (info, acc, .error ⟨"do_request_failed", e, 500, false⟩)
  | none, none, some (status, body), _ =>
      (info, acc, .error ⟨"fail_to_fetch_task", body, status, false⟩)
  | none, none, none, .error e => (info, acc, .error e)
  | none, none, none, .ok (upstreamTaskID, taskData) =>
      let info := adjustOnSubmit info io
      (info, acc, .ok ⟨upstreamTaskID, taskData, io.platform, info.priceData.quota⟩)

/-- `service.TaskErrorFromAPIError`. -/
def taskErrorFromAPIError (e : NewAPIError) : TaskError where
  code := e.errorCode
  message := e.err
  statusCode := e.statusCode
  localError := false

/-- Step 7: the pre-charge, by the first attempt that gets here. -/
def preCharge (env : BillingEnv) (info : RelayInfo) (acc : Accounts) (io : AttemptCalls) :
    RelayInfo × Accounts × Except TaskError TaskSubmitResult :=
  if info.billing.isNone && !info.priceData.freeModel then
    let info := { info with account := { info.account with forcePreConsume := true } }
    match newBillingSession env info.account info.priceData.quota acc io.preConsume with
    | (acc', .error e) => (info, acc', .error (taskErrorFromAPIError e))
    | (acc', .ok session) => sendTask { info with billing := some session } acc' io
  else sendTask info acc io

/-- Steps 4 to 6: the price of the request. -/
def priceRequest (modelName : String) (mp : ModelPricing) (io : AttemptCalls) : PriceData :=
  let p := modelPriceHelperPerCall mp io.groupDiscount io.enableFreeModelPreConsume
  let p := p.addOtherRatios io.estimated
  { p with
    quota := chargedQuota p (io.taskPricePatches.contains modelName) io.request
      (io.applyOrder.order (values p.otherRatios)) }

/-- The model the request is billed as. -/
def billedModel (info : RelayInfo) (io : AttemptCalls) : String :=
  if info.originModelName = "" then coverTaskActionToModelName io.platform io.action
  else info.originModelName

/-- `RelayTaskSubmit`. -/
def relayTaskSubmit (env : BillingEnv) (info : RelayInfo) (acc : Accounts) (io : AttemptCalls) :
    RelayInfo × Accounts × Except TaskError TaskSubmitResult :=
  if !io.adaptorFound then
    (info, acc, .error
      ⟨"invalid_api_platform", "invalid api platform: " ++ io.platform, 400, true⟩)
  else
    match io.validateErr with
    | some e => ({ info with action := io.action }, acc, .error e)
    | none =>
        let modelName := billedModel info io
        let info := { info with
          action := io.action, originModelName := modelName, upstreamModelName := modelName }
        match io.mapped with
        | .error e => (info, acc, .error ⟨"model_mapping_failed", e, 400, true⟩)
        | .ok upstreamModelName =>
            let info := { info with
              upstreamModelName := upstreamModelName
              publicTaskID :=
                if info.publicTaskID = "" then io.generatedTaskID else info.publicTaskID }
            match io.modelPricing with
            | .error e => (info, acc, .error ⟨"model_price_error", e, 400, false⟩)
            | .ok mp => preCharge env { info with priceData := priceRequest modelName mp io } acc io

/-! ## The record of a task -/

/-- `model.TaskBillingContext` as the controller fills it. -/
structure TaskBillingContext where
  perCallPrice : ℚ
  usePerCallPricing : Bool
  fixedPriceUnit : String
  groupDiscount : ℚ
  otherRatios : Ratios
  originModelName : String
  perCallBilling : Bool

/-- The billing context of the task that `RelayTask` inserts. -/
def taskBillingContext (info : RelayInfo) (taskPricePatches : List String) :
    TaskBillingContext where
  perCallPrice := info.priceData.perCallPrice
  usePerCallPricing := info.priceData.usePerCallPricing
  fixedPriceUnit := info.priceData.fixedPriceUnit
  groupDiscount := info.priceData.groupDiscount
  otherRatios := info.priceData.otherRatios
  originModelName := info.originModelName
  perCallBilling := taskPricePatches.contains info.originModelName

end DazeApi.Relay.TaskSubmit
