import DazeApi.Lib.Run
import DazeApi.Lib.Pool
import DazeApi.Lib.Rounding

/-!
# Completing a top-up order

One pending order and any number of executions that may complete it: the Alipay
notification, the user's status query, the epay notification, and the
administrator's completion (`controller/topup_alipay.go`, `topup_epay.go`,
`topup.go`, `model/topup.go`).

The database is at READ COMMITTED.  A `SELECT` sees the committed row and takes
no lock: the query option by which the source asks for `FOR UPDATE` is one of an
older version of the library and has no effect.  The first `UPDATE` of a
transaction takes the row lock of the order and keeps it to the end of the
transaction; it has no guard on the status.  A transaction's writes become
visible when it commits.

`LockOrder` is a mutex in the memory of one node, taken by two of the four entry
points.  A callback is taken as verified and paid here.  Money is a rational
where the source has a float.

`credits` and `commits` are ghosts: the amounts added to the user's quota, and
the number of transactions committed.  `failed` says that a database call has
answered an error.
-/

namespace DazeApi.Payment

/-! ## Orders -/

/-- The status of an order. -/
inductive TopUpStatus where
  | pending
  | success
  | failed
  | expired
deriving DecidableEq, Repr

/-- `model.TopUp`, the columns that completing it reads and writes. -/
structure TopUp where
  userId : Int
  amount : Int
  money : ℚ
  tradeNo : String
  paymentMethod : String
  status : TopUpStatus
deriving DecidableEq, Repr

/-- `common.QuotaPerUnit` and `common.MicrodollarsPerUnit`. -/
structure Units where
  quotaPerUnit : ℚ
  microdollarsPerUnit : ℚ
deriving DecidableEq, Repr

/-- The quota that the notifications and the status query give for an order. -/
def notifyQuota (u : Units) (o : TopUp) : Int := Rounding.trunc (o.money * u.microdollarsPerUnit)

/-- The quota that `ManualCompleteTopUp` gives for an order. -/
def manualQuota (u : Units) (o : TopUp) : Int :=
  if o.paymentMethod = "stripe" then Rounding.trunc (o.money * u.quotaPerUnit)
  else if o.paymentMethod = "alipay" ∨ o.paymentMethod = "epay" then
    Rounding.trunc (o.money * u.microdollarsPerUnit)
  else Rounding.trunc (o.amount * u.quotaPerUnit)

/-! ## Executions -/

/-- The entry points; a node is named where its mutex is taken. -/
inductive Entry where
  | alipayNotify
  | alipayStatus
  | epayNotify (node : Nat)
  | adminComplete (node : Nat)
deriving DecidableEq, Repr

/-- The node whose mutex the entry point takes. -/
def Entry.locks : Entry → Option Nat
  | .alipayNotify => none
  | .alipayStatus => none
  | .epayNotify node => some node
  | .adminComplete node => some node

/-- Where an execution stands. -/
inductive Proc where
  /-- Before `LockOrder`. -/
  | waiting (e : Entry)
  /-- Before the first read of the order.  The administrator's completion has none. -/
  | entered (e : Entry)
  /-- The status query waits for Alipay's answer on an order it read as pending;
  `quota` is what its copy gives. -/
  | querying (quota : Int)
  /-- Before the `SELECT` of `CompleteTopUp`; `quota` is what it is to credit. -/
  | selecting (e : Entry) (quota : Int)
  /-- Before the `SELECT` of `ManualCompleteTopUp`. -/
  | selectingManual (node : Nat)
  /-- It has read the order as pending and is about to save it as completed. -/
  | saving (e : Entry) (quota : Int)
  /-- It has saved the order and is about to credit the user. -/
  | crediting (e : Entry) (quota : Int)
  | committing (e : Entry) (quota : Int)
  /-- It has found the order completed and commits a transaction without writes. -/
  | committingNoop (e : Entry)
  /-- Before `UnlockOrder`. -/
  | leaving (node : Nat)
  | returned
deriving DecidableEq, Repr

structure State where
  order : TopUp
  userQuota : Int
  /-- The execution whose transaction holds the row lock of the order. -/
  rowLock : Option Nat
  /-- The execution that holds the mutex of a node. -/
  orderLocks : Nat → Option Nat
  procs : List Proc
  credits : List Int
  commits : Nat
  failed : Bool

def initial (order : TopUp) (userQuota : Int) : State where
  order := order
  userQuota := userQuota
  rowLock := none
  orderLocks := fun _ => none
  procs := []
  credits := []
  commits := 0
  failed := false

/-- The atomic steps; `err` is an error of the database. -/
inductive Act where
  | start (e : Entry)
  | lock (i : Nat)
  | load (i : Nat) (err : Bool)
  /-- `AlipayQueryPayment` answers whether the trade is paid. -/
  | query (i : Nat) (paid : Bool)
  | select (i : Nat) (err : Bool)
  | save (i : Nat) (err : Bool)
  | credit (i : Nat) (err : Bool)
  | commit (i : Nat) (err : Bool)
  | unlock (i : Nat)
deriving DecidableEq, Repr

def State.goto (s : State) (i : Nat) (p : Proc) : State := { s with procs := s.procs.set i p }

/-- The rest of an entry point after its work: the deferred `UnlockOrder`. -/
def leave (e : Entry) : Proc :=
  match e.locks with
  | some node => .leaving node
  | none => .returned

/-- Where an entry point goes on once it has its mutex, if it takes one. -/
def begin : Entry → Proc
  | .adminComplete node => .selectingManual node
  | e => .entered e

/-- The first read of the order, `GetTopUpByTradeNo`, and the checks on it. -/
def afterLoad (u : Units) (o : TopUp) : Entry → Proc
  | .alipayNotify =>
      if o.status ≠ .pending then .returned else .selecting .alipayNotify (notifyQuota u o)
  | .alipayStatus =>
      if o.status ≠ .pending ∨ o.paymentMethod ≠ "alipay" then .returned
      else .querying (notifyQuota u o)
  | .epayNotify node =>
      if o.status ≠ .pending ∨ o.paymentMethod ≠ "epay" then leave (.epayNotify node)
      else .selecting (.epayNotify node) (notifyQuota u o)
  | .adminComplete node => .selectingManual node

/-- `CompleteTopUp` after its `SELECT`. -/
def afterSelect (o : TopUp) (e : Entry) (quota : Int) : Proc :=
  if o.status ≠ .pending then .committingNoop e else .saving e quota

/-- `ManualCompleteTopUp` after its `SELECT`. -/
def afterSelectManual (u : Units) (o : TopUp) (node : Nat) : Proc :=
  if o.status = .success then .committingNoop (.adminComplete node)
  else if o.status ≠ .pending then .leaving node
  else if manualQuota u o ≤ 0 then .leaving node
  else .saving (.adminComplete node) (manualQuota u o)

/-- A transaction ends without effect. -/
def rollback (s : State) (i : Nat) (e : Entry) : State :=
  { s with rowLock := none, failed := true }.goto i (leave e)

/-- The system. -/
def step (u : Units) (s : State) : Act → Option State
  | .start e =>
      some { s with procs := s.procs ++ [if e.locks.isSome then .waiting e else begin e] }
  | .lock i =>
      match s.procs[i]? with
      | some (.waiting e) =>
          match e.locks with
          | some node =>
              if s.orderLocks node = none then
                some ({ s with orderLocks := Function.update s.orderLocks node (some i) }.goto i
                  (begin e))
              else none
          | none => none
      | _ => none
  | .load i err =>
      match s.procs[i]? with
      | some (.entered e) =>
          if err then some ({ s with failed := true }.goto i (leave e))
          else some (s.goto i (afterLoad u s.order e))
      | _ => none
  | .query i paid =>
      match s.procs[i]? with
      | some (.querying quota) =>
          some (s.goto i (if paid then .selecting .alipayStatus quota else .returned))
      | _ => none
  | .select i err =>
      match s.procs[i]? with
      | some (.selecting e quota) =>
          if err then some ({ s with failed := true }.goto i (leave e))
          else some (s.goto i (afterSelect s.order e quota))
      | some (.selectingManual node) =>
          if err then some ({ s with failed := true }.goto i (.leaving node))
          else some (s.goto i (afterSelectManual u s.order node))
      | _ => none
  | .save i err =>
      match s.procs[i]? with
      | some (.saving e quota) =>
          if s.rowLock = none then
            if err then some (rollback s i e)
            else some ({ s with rowLock := some i }.goto i (.crediting e quota))
          else none
      | _ => none
  | .credit i err =>
      match s.procs[i]? with
      | some (.crediting e quota) =>
          if err then some (rollback s i e) else some (s.goto i (.committing e quota))
      | _ => none
  | .commit i err =>
      match s.procs[i]? with
      | some (.committing e quota) =>
          if err then some (rollback s i e)
          else
            some ({ s with
              order := { s.order with status := .success }
              userQuota := s.userQuota + quota
              rowLock := none
              credits := s.credits ++ [quota]
              commits := s.commits + 1 }.goto i (leave e))
      | some (.committingNoop e) =>
          if err then some ({ s with failed := true }.goto i (leave e))
          else some ({ s with commits := s.commits + 1 }.goto i (leave e))
      | _ => none
  | .unlock i =>
      match s.procs[i]? with
      | some (.leaving node) =>
          some ({ s with orderLocks := Function.update s.orderLocks node none }.goto i .returned)
      | _ => none

/-! ## Inversion -/

/-- The transaction of the execution has written and holds the row lock. -/
def Proc.inTx : Proc → Bool
  | .crediting .. => true
  | .committing .. => true
  | _ => false

/-- The execution is about to commit a transaction without writes. -/
def Proc.isNoop : Proc → Bool
  | .committingNoop _ => true
  | _ => false

/-- The amount an execution is to credit. -/
def Proc.quota? : Proc → Option Int
  | .querying q => some q
  | .selecting _ q => some q
  | .saving _ q => some q
  | .crediting _ q => some q
  | .committing _ q => some q
  | _ => none

/-- An execution that has no amount yet takes one of the two of the order. -/
def Proc.Amount (u : Units) (o : TopUp) (p : Proc) : Prop :=
  ∀ q, p.quota? = some q → q = notifyQuota u o ∨ q = manualQuota u o

/-- The transitions of the system.  All reads are `moved`: the execution stays
outside its writes, and ends in a commit without writes only on an order that is
no longer pending. -/
inductive Step (u : Units) (s : State) : Act → State → Prop where
  | started {e : Entry} {p : Proc} :
      p.inTx = false → p.isNoop = false → p.quota? = none →
      Step u s (.start e) { s with procs := s.procs ++ [p] }
  | moved {a : Act} {i : Nat} {p p' : Proc} {locks : Nat → Option Nat} {failed : Bool} :
      s.procs[i]? = some p → p.inTx = false → p'.inTx = false →
      (p'.isNoop = true → s.order.status ≠ .pending) →
      (p.Amount u s.order → p'.Amount u s.order) →
      (s.failed = true → failed = true) → (∀ j err, a ≠ .save j err) →
      Step u s a ({ s with orderLocks := locks, failed := failed }.goto i p')
  | saved {i : Nat} {e : Entry} {quota : Int} :
      s.procs[i]? = some (.saving e quota) → s.rowLock = none →
      Step u s (.save i false) ({ s with rowLock := some i }.goto i (.crediting e quota))
  | credited {i : Nat} {e : Entry} {quota : Int} :
      s.procs[i]? = some (.crediting e quota) →
      Step u s (.credit i false) (s.goto i (.committing e quota))
  | committed {i : Nat} {e : Entry} {quota : Int} :
      s.procs[i]? = some (.committing e quota) →
      Step u s (.commit i false)
        ({ s with
            order := { s.order with status := .success }
            userQuota := s.userQuota + quota
            rowLock := none
            credits := s.credits ++ [quota]
            commits := s.commits + 1 }.goto i (leave e))
  | committedNoop {i : Nat} {e : Entry} :
      s.procs[i]? = some (.committingNoop e) →
      Step u s (.commit i false) ({ s with commits := s.commits + 1 }.goto i (leave e))
  | rolledBack {a : Act} {i : Nat} {e : Entry} {p : Proc} :
      s.procs[i]? = some p → (p.inTx = true ∨ s.rowLock = none) →
      (∀ j err, a = .save j err → err = true) →
      Step u s a (rollback s i e)

theorem leave_inTx (e : Entry) : (leave e).inTx = false := by
  cases e <;> rfl

theorem leave_isNoop (e : Entry) : (leave e).isNoop = false := by
  cases e <;> rfl

theorem leave_quota? (e : Entry) : (leave e).quota? = none := by
  cases e <;> rfl

theorem begin_plain (e : Entry) :
    (begin e).inTx = false ∧ (begin e).isNoop = false ∧ (begin e).quota? = none := by
  cases e <;> exact ⟨rfl, rfl, rfl⟩

theorem amount_of_none {u : Units} {o : TopUp} {p : Proc} (h : p.quota? = none) :
    p.Amount u o := by
  intro q hq
  rw [h] at hq
  cases hq

/-- The read before the transaction. -/
theorem afterLoad_plain (u : Units) (o : TopUp) (e : Entry) :
    (afterLoad u o e).inTx = false ∧ (afterLoad u o e).isNoop = false ∧
      (afterLoad u o e).Amount u o := by
  cases e <;> simp only [afterLoad] <;> try split
  all_goals refine ⟨rfl, rfl, ?_⟩
  all_goals
    intro q hq
    cases hq
    try exact Or.inl rfl

theorem afterSelect_plain (u : Units) (o : TopUp) (e : Entry) (quota : Int) :
    (afterSelect o e quota).inTx = false ∧
      ((afterSelect o e quota).isNoop = true → o.status ≠ .pending) ∧
      ((Proc.selecting e quota).Amount u o → (afterSelect o e quota).Amount u o) := by
  simp only [afterSelect]
  split
  next h => exact ⟨rfl, fun _ => h, fun _ => amount_of_none rfl⟩
  next => exact ⟨rfl, fun hn => (nomatch hn), fun ha q hq => ha q hq⟩

theorem afterSelectManual_plain (u : Units) (o : TopUp) (node : Nat) :
    (afterSelectManual u o node).inTx = false ∧
      ((afterSelectManual u o node).isNoop = true → o.status ≠ .pending) ∧
      (afterSelectManual u o node).Amount u o := by
  simp only [afterSelectManual]
  split
  next h => exact ⟨rfl, fun _ => by simp [h], amount_of_none rfl⟩
  next =>
    split
    next => exact ⟨rfl, fun hn => (nomatch hn), amount_of_none rfl⟩
    next =>
      split
      next => exact ⟨rfl, fun hn => (nomatch hn), amount_of_none rfl⟩
      next =>
        refine ⟨rfl, fun hn => (nomatch hn), ?_⟩
        intro q hq
        cases hq
        exact Or.inr rfl

/-- A read that fails, or a step that ends an execution without a write. -/
theorem Step.left {u : Units} {s : State} {a : Act} {i : Nat} {p : Proc} (e : Entry)
    (hp : s.procs[i]? = some p) (hpt : p.inTx = false) (ha : ∀ j err, a ≠ .save j err) :
    Step u s a ({ s with failed := true }.goto i (leave e)) :=
  .moved hp hpt (leave_inTx e) (fun hn => by rw [leave_isNoop] at hn; cases hn)
    (fun _ => amount_of_none (leave_quota? e)) (fun _ => rfl) ha

/-- Every step of the system is a transition of `Step`. -/
theorem step_inv {u : Units} {s s' : State} {a : Act} (h : step u s a = some s') :
    Step u s a s' := by
  cases a with
  | start e =>
      cases h
      split
      next => exact .started rfl rfl rfl
      next => exact .started (begin_plain e).1 (begin_plain e).2.1 (begin_plain e).2.2
  | lock i =>
      simp only [step] at h
      split at h
      next e hp =>
        split at h
        next =>
          split at h
          next =>
            cases h
            obtain ⟨ht, hn, hq⟩ := begin_plain e
            exact .moved hp rfl ht (fun hn' => by rw [hn] at hn'; cases hn')
              (fun _ => amount_of_none hq) id (fun _ _ => nofun)
          next => cases h
        next => cases h
      next => cases h
  | load i err =>
      simp only [step] at h
      split at h
      next e hp =>
        cases err with
        | true => cases h; exact .left e hp rfl (fun _ _ => nofun)
        | false =>
            cases h
            obtain ⟨ht, hn, ha⟩ := afterLoad_plain u s.order e
            exact .moved hp rfl ht (fun hn' => by rw [hn] at hn'; cases hn') (fun _ => ha) id
              (fun _ _ => nofun)
      next => cases h
  | query i paid =>
      simp only [step] at h
      split at h
      next quota hp =>
        cases h
        cases paid with
        | true =>
            exact .moved hp rfl rfl (fun hn => (nomatch hn)) (fun ha q hq => ha q hq) id
              (fun _ _ => nofun)
        | false =>
            exact .moved hp rfl rfl (fun hn => (nomatch hn)) (fun _ => amount_of_none rfl) id
              (fun _ _ => nofun)
      next => cases h
  | select i err =>
      simp only [step] at h
      split at h
      next e quota hp =>
        cases err with
        | true => cases h; exact .left e hp rfl (fun _ _ => nofun)
        | false =>
            cases h
            obtain ⟨ht, hn, ha⟩ := afterSelect_plain u s.order e quota
            exact .moved hp rfl ht hn ha id (fun _ _ => nofun)
      next node hp =>
        cases err with
        | true => cases h; exact .left (.adminComplete node) hp rfl (fun _ _ => nofun)
        | false =>
            cases h
            obtain ⟨ht, hn, ha⟩ := afterSelectManual_plain u s.order node
            exact .moved hp rfl ht hn (fun _ => ha) id (fun _ _ => nofun)
      next => cases h
  | save i err =>
      simp only [step] at h
      split at h
      next e quota hp =>
        split at h
        next hl =>
          cases err with
          | true => cases h; exact .rolledBack hp (Or.inr hl) (by rintro _ _ ⟨⟩; rfl)
          | false => cases h; exact .saved hp hl
        next => cases h
      next => cases h
  | credit i err =>
      simp only [step] at h
      split at h
      next e quota hp =>
        cases err with
        | true => cases h; exact .rolledBack hp (Or.inl rfl) (fun _ _ => nofun)
        | false => cases h; exact .credited hp
      next => cases h
  | commit i err =>
      simp only [step] at h
      split at h
      next e quota hp =>
        cases err with
        | true => cases h; exact .rolledBack hp (Or.inl rfl) (fun _ _ => nofun)
        | false => cases h; exact .committed hp
      next e hp =>
        cases err with
        | true => cases h; exact .left e hp rfl (fun _ _ => nofun)
        | false => cases h; exact .committedNoop hp
      next => cases h
  | unlock i =>
      simp only [step] at h
      split at h
      next node hp =>
        cases h
        exact .moved hp rfl rfl (fun hn => (nomatch hn)) (fun _ => amount_of_none rfl) id
          (fun _ _ => nofun)
      next => cases h

end DazeApi.Payment
