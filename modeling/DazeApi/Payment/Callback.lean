import DazeApi.Lib.Text
import DazeApi.Payment.Order
import Mathlib.Data.List.AList
import Mathlib.Data.List.Sort

/-!
# Payment callbacks

`AlipayNotify` and `EpayNotify` from the parameter map of the request to the call
of `CompleteTopUp`: the check of the signature, the order lookup, and what each
handler asks of the order (`controller/topup_alipay.go`, `topup_epay.go`,
`service/alipay.go`).

RSA verification and MD5 are opaque.  The two handlers differ in what they leave
unchecked.  `AlipayVerifyCallback` accepts everything while no public key is
configured, and `AlipayNotify` does not look at the payment method of the order.
`EpayNotify` does, but it does not ask for a key: with an empty one the expected
hash is the MD5 of public text.
-/

namespace DazeApi.Payment

/-! ## Signatures -/

/-- The parameters of a request. -/
abbrev Params := AList fun _ : String => String

/-- Reading a missing parameter of a Go map gives the empty string. -/
def Params.get (params : Params) (k : String) : String := (params.lookup k).getD ""

/-- `operation_setting.PaymentSetting`, the keys that callbacks are checked with. -/
structure PaymentSetting where
  alipayPublicKey : String
  epayKey : String
deriving DecidableEq, Repr

/-- The opaque part of the checks, over types for parsed keys and signatures:
`alipayLoadPublicKey`, the decoding of a signature, `rsa.VerifyPKCS1v15` over the
SHA-256 of a text, and the MD5 of a text in hex. -/
structure Crypto (κ β : Type) where
  loadPublicKey : String → Option κ
  decodeBase64 : String → Option β
  verify : κ → String → β → Bool
  md5Hex : String → String

/-- The text that is signed: the parameters whose name passes the filter and
whose value is not empty, sorted by name. -/
def canonical (keep : String → Bool) (params : Params) : String :=
  let keys := (params.keys.filter fun k => keep k && params.get k ≠ "").insertionSort (· ≤ ·)
  "&".intercalate (keys.map fun k => k ++ "=" ++ params.get k)

/-- `alipayBuildSignContent`. -/
def alipayBuildSignContent (params : Params) : String := canonical (fun _ => true) params

section

variable {κ β : Type} (c : Crypto κ β)

/-- The RSA check of `AlipayVerifyCallback` against a configured key. -/
def alipaySignVerifies (key unsigned sign : String) : Bool :=
  match c.loadPublicKey key with
  | none => false
  | some publicKey =>
      match c.decodeBase64 sign with
      | none => false
      | some signBytes => c.verify publicKey unsigned signBytes

/-- `AlipayVerifyCallback`. -/
def alipayVerifyCallback (ps : PaymentSetting) (params : Params) : Bool :=
  if ps.alipayPublicKey = "" then true
  else
    match params.lookup "sign" with
    | none => false
    | some sign =>
        alipaySignVerifies c ps.alipayPublicKey
          (alipayBuildSignContent ((params.erase "sign").erase "sign_type")) sign

/-- `xunhuSign`. -/
def xunhuSign (params : Params) (appSecret : String) : String :=
  c.md5Hex (canonical (fun k => k ≠ "hash") params ++ appSecret)

/-- `verifyXunhuSign`. -/
def verifyXunhuSign (params : Params) (appSecret : String) : Bool :=
  let received := Text.toLower (params.get "hash")
  if received = "" then false else received = xunhuSign c params appSecret

/-! ## Handlers -/

/-- What a handler answers, and the order it calls `CompleteTopUp` for. -/
structure Outcome where
  code : Nat
  body : String
  completes : Option TopUp
deriving DecidableEq, Repr

/-- `GetTopUpByTradeNo`. -/
def getTopUpByTradeNo (orders : List TopUp) (tradeNo : String) : Option TopUp :=
  orders.find? fun o => o.tradeNo = tradeNo

/-- `AlipayNotify` on a parsed form. -/
def alipayNotify (ps : PaymentSetting) (orders : List TopUp) (params : Params) : Outcome :=
  if !alipayVerifyCallback c ps params then ⟨400, "sign fail", none⟩
  else if params.get "trade_status" ≠ "TRADE_SUCCESS" ∧
      params.get "trade_status" ≠ "TRADE_FINISHED" then ⟨200, "success", none⟩
  else
    match getTopUpByTradeNo orders (params.get "out_trade_no") with
    | none => ⟨200, "success", none⟩
    | some topUp =>
        if topUp.status ≠ .pending then ⟨200, "success", none⟩
        else ⟨200, "success", some topUp⟩

/-- `EpayNotify` on a parsed form. -/
def epayNotify (ps : PaymentSetting) (orders : List TopUp) (params : Params) : Outcome :=
  if !verifyXunhuSign c params ps.epayKey then ⟨400, "fail", none⟩
  else if params.get "status" ≠ "OD" then ⟨200, "success", none⟩
  else if params.get "trade_order_id" = "" then ⟨200, "success", none⟩
  else
    match getTopUpByTradeNo orders (params.get "trade_order_id") with
    | none => ⟨200, "success", none⟩
    | some topUp =>
        if topUp.status ≠ .pending ∨ topUp.paymentMethod ≠ "epay" then ⟨200, "success", none⟩
        else ⟨200, "success", some topUp⟩

/-- A callback: which handler it is delivered to, with its parameters. -/
inductive Callback where
  | alipay (params : Params)
  | epay (params : Params)

def notify (ps : PaymentSetting) (orders : List TopUp) : Callback → Outcome
  | .alipay params => alipayNotify c ps orders params
  | .epay params => epayNotify c ps orders params

/-! ## Genuine callbacks -/

/-- The callback is signed under a key that is configured, over the canonical
text of its other parameters, and the order is of its payment method and trade
number. -/
def Genuine (ps : PaymentSetting) (o : TopUp) : Callback → Prop
  | .alipay params =>
      ps.alipayPublicKey ≠ "" ∧
      (∃ sign, params.lookup "sign" = some sign ∧
        alipaySignVerifies c ps.alipayPublicKey
          (alipayBuildSignContent ((params.erase "sign").erase "sign_type")) sign = true) ∧
      o.paymentMethod = "alipay" ∧ o.tradeNo = params.get "out_trade_no"
  | .epay params =>
      ps.epayKey ≠ "" ∧
      (params.get "hash" ≠ "" ∧
        Text.toLower (params.get "hash") =
          c.md5Hex (canonical (fun k => k ≠ "hash") params ++ ps.epayKey)) ∧
      o.paymentMethod = "epay" ∧ o.tradeNo = params.get "trade_order_id"

/-- The pending order that a callback reporting a payment names. -/
def Callback.paidOrder (orders : List TopUp) : Callback → Option TopUp
  | .alipay params =>
      if params.get "trade_status" = "TRADE_SUCCESS" ∨ params.get "trade_status" = "TRADE_FINISHED"
      then (getTopUpByTradeNo orders (params.get "out_trade_no")).filter (·.status = .pending)
      else none
  | .epay params =>
      if params.get "status" = "OD" ∧ params.get "trade_order_id" ≠ ""
      then (getTopUpByTradeNo orders (params.get "trade_order_id")).filter (·.status = .pending)
      else none

/-- The callback cannot complete the order `o` that it names unless it is genuine:
for Alipay, a public key is configured, and the order is an Alipay one or the
signature is wrong; for epay, a key is configured, or the order is of another
payment method or the signature is wrong, which the handler does check. -/
def Closed (ps : PaymentSetting) (o : TopUp) : Callback → Prop
  | .alipay params =>
      ps.alipayPublicKey ≠ "" ∧
        (o.paymentMethod = "alipay" ∨ alipayVerifyCallback c ps params = false)
  | .epay params =>
      ps.epayKey ≠ "" ∨ o.paymentMethod ≠ "epay" ∨ verifyXunhuSign c params ps.epayKey = false

/-! ## What the handlers check -/

theorem tradeNo_of_get {orders : List TopUp} {tradeNo : String} {o : TopUp}
    (h : getTopUpByTradeNo orders tradeNo = some o) : o.tradeNo = tradeNo := by
  simpa using List.find?_some h

theorem tradeNo_of_paidOrder {orders : List TopUp} {o : TopUp} {params : Params} :
    ((Callback.alipay params).paidOrder orders = some o → o.tradeNo = params.get "out_trade_no") ∧
    ((Callback.epay params).paidOrder orders = some o →
      o.tradeNo = params.get "trade_order_id") := by
  refine ⟨fun h => ?_, fun h => ?_⟩
  · simp only [Callback.paidOrder] at h
    split at h
    next => exact tradeNo_of_get (Option.filter_eq_some_iff.1 h).1
    next => cases h
  · simp only [Callback.paidOrder] at h
    split at h
    next => exact tradeNo_of_get (Option.filter_eq_some_iff.1 h).1
    next => cases h

/-- `AlipayNotify` completes the paid order of every callback that verifies. -/
theorem alipayNotify_completes (ps : PaymentSetting) (orders : List TopUp) (params : Params)
    (o : TopUp) :
    (alipayNotify c ps orders params).completes = some o ↔
      alipayVerifyCallback c ps params = true ∧
        (Callback.alipay params).paidOrder orders = some o := by
  simp only [alipayNotify, Callback.paidOrder]
  cases alipayVerifyCallback c ps params with
  | false => simp
  | true =>
      simp only [Bool.not_true, Bool.false_eq_true, if_false, true_and]
      by_cases hst : params.get "trade_status" = "TRADE_SUCCESS" ∨
          params.get "trade_status" = "TRADE_FINISHED"
      · rw [if_pos hst, if_neg (by tauto)]
        cases getTopUpByTradeNo orders (params.get "out_trade_no") with
        | none => simp
        | some t =>
            by_cases hp : t.status = .pending <;> simp [hp, Option.filter]
      · rw [if_neg hst, if_pos (by tauto)]

/-- `EpayNotify` completes the paid order of a callback that verifies when it is
an epay order. -/
theorem epayNotify_completes (ps : PaymentSetting) (orders : List TopUp) (params : Params)
    (o : TopUp) :
    (epayNotify c ps orders params).completes = some o ↔
      verifyXunhuSign c params ps.epayKey = true ∧
        (Callback.epay params).paidOrder orders = some o ∧ o.paymentMethod = "epay" := by
  simp only [epayNotify, Callback.paidOrder]
  cases verifyXunhuSign c params ps.epayKey with
  | false => simp
  | true =>
      simp only [Bool.not_true, Bool.false_eq_true, if_false, true_and]
      by_cases hst : params.get "status" = "OD"
      · by_cases hid : params.get "trade_order_id" = ""
        · simp [hst, hid]
        · rw [if_neg (by simp [hst]), if_neg hid, if_pos ⟨hst, hid⟩]
          cases getTopUpByTradeNo orders (params.get "trade_order_id") with
          | none => simp
          | some t =>
              by_cases hp : t.status = .pending
              · by_cases hm : t.paymentMethod = "epay"
                · simp only [hp, hm, ne_eq, not_true_eq_false, or_self, if_false, Option.filter,
                    decide_true, if_true, Option.some.injEq]
                  exact ⟨fun h => ⟨h, h ▸ hm⟩, fun h => h.1⟩
                · simp only [hp, hm, ne_eq, not_true_eq_false, not_false_eq_true, or_true, if_true,
                    Option.filter, decide_true, Option.some.injEq, false_iff, reduceCtorEq]
                  rintro ⟨rfl, hm'⟩
                  exact hm hm'
              · simp [hp, Option.filter]
      · simp [hst]

/-- With a public key configured, the check is the RSA check. -/
theorem alipayVerifyCallback_iff {ps : PaymentSetting} {params : Params}
    (hk : ps.alipayPublicKey ≠ "") :
    alipayVerifyCallback c ps params = true ↔
      ∃ sign, params.lookup "sign" = some sign ∧
        alipaySignVerifies c ps.alipayPublicKey
          (alipayBuildSignContent ((params.erase "sign").erase "sign_type")) sign = true := by
  simp only [alipayVerifyCallback, if_neg hk]
  cases params.lookup "sign" <;> simp

theorem toLower_eq_empty {t : String} : Text.toLower t = "" ↔ t = "" := by
  constructor
  · intro h
    have hl : t.toList.map Char.toLower = [] := by
      simpa [Text.toLower] using congrArg String.toList h
    exact String.toList_inj.1 (by simpa using hl)
  · rintro rfl
    rfl

theorem verifyXunhuSign_iff {params : Params} {key : String} :
    verifyXunhuSign c params key = true ↔ params.get "hash" ≠ "" ∧
      Text.toLower (params.get "hash") =
        c.md5Hex (canonical (fun k => k ≠ "hash") params ++ key) := by
  simp only [verifyXunhuSign, toLower_eq_empty, xunhuSign]
  by_cases h : params.get "hash" = "" <;> simp [h]

/-- A callback completes only genuine payments exactly if the order it names is
not open to one of the three holes: no Alipay public key, an Alipay callback
signed for an order of another payment method, no epay key. -/
theorem genuine_iff_closed (ps : PaymentSetting) (orders : List TopUp) (cb : Callback) :
    (∀ o, (notify c ps orders cb).completes = some o → Genuine c ps o cb) ↔
      ∀ o, cb.paidOrder orders = some o → Closed c ps o cb := by
  cases cb with
  | alipay params =>
      refine forall_congr' fun o => ?_
      rw [notify, alipayNotify_completes]
      constructor
      · intro h hpaid
        cases hv : alipayVerifyCallback c ps params with
        | true =>
            obtain ⟨hk, -, hm, -⟩ := h ⟨hv, hpaid⟩
            exact ⟨hk, Or.inl hm⟩
        | false =>
            refine ⟨fun hk => ?_, Or.inr hv⟩
            simp [alipayVerifyCallback, hk] at hv
      · rintro h ⟨hv, hpaid⟩
        obtain ⟨hk, hm⟩ := h hpaid
        rcases hm with hm | hf
        · exact ⟨hk, (alipayVerifyCallback_iff c hk).1 hv, hm, tradeNo_of_paidOrder.1 hpaid⟩
        · rw [hv] at hf
          cases hf
  | epay params =>
      refine forall_congr' fun o => ?_
      rw [notify, epayNotify_completes]
      constructor
      · intro h hpaid
        by_cases hm : o.paymentMethod = "epay"
        · cases hv : verifyXunhuSign c params ps.epayKey with
          | true => exact Or.inl (h ⟨hv, hpaid, hm⟩).1
          | false => exact Or.inr (Or.inr hv)
        · exact Or.inr (Or.inl hm)
      · rintro h ⟨hv, hpaid, hm⟩
        have hk : ps.epayKey ≠ "" := by
          rcases h hpaid with hk | hm' | hf
          · exact hk
          · exact absurd hm hm'
          · rw [hv] at hf
            cases hf
        exact ⟨hk, (verifyXunhuSign_iff c).1 hv, hm, tradeNo_of_paidOrder.2 hpaid⟩

end

/-! ## A forged callback -/

/-- A verification that accepts nothing. -/
def rejectAll : Crypto Unit Unit where
  loadPublicKey := fun _ => some ()
  decodeBase64 := fun _ => some ()
  verify := fun _ _ _ => false
  md5Hex := fun _ => "d41d8cd98f00b204e9800998ecf8427e"

/-- Two parameters and no signature. -/
def unsignedParams : Params :=
  (AList.insert "trade_status" "TRADE_SUCCESS" ∅).insert "out_trade_no" "T1"

/-- While no public key is configured, a callback without any signature completes
a pending order. -/
theorem unsigned_callback_completes :
    ¬ ∀ (c : Crypto Unit Unit) (ps : PaymentSetting) (orders : List TopUp) (cb : Callback)
        (o : TopUp), (notify c ps orders cb).completes = some o → Genuine c ps o cb := by
  intro h
  have hg := h rejectAll ⟨"", "secret"⟩ [⟨1, 10, 10, "T1", "alipay", .pending⟩]
    (.alipay unsignedParams) ⟨1, 10, 10, "T1", "alipay", .pending⟩ (by decide +kernel)
  exact hg.1 rfl

end DazeApi.Payment
