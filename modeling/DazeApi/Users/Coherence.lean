import DazeApi.Users.Cache
import DazeApi.Payment.Order

/-!
# Coherence of the cached quota

The operations that move or read the quota of one user, one after the other, with
Redis on (without it there is no hash to speak of): `model/user.go`,
`model/user_cache.go` and `model/topup.go`.  Each treats the hash in its own way.
`IncreaseUserQuota` and `DecreaseUserQuota` move the hash first, and rebuild it before
that if it is not complete.  The top-ups commit to the row first and then do the same,
so that a rebuild already counts the credit.  `Edit` leaves the quota of a complete hash
as it is, and gives any other hash the quota of the row alone.
`TransferAffQuotaToQuota` does not touch the hash.

A call of a store may fail, and `Calls` says which ones of an operation do.
-/

namespace DazeApi.Users.Coherence

open DazeApi.Payment

/-! ## The user -/

/-- The user and the settings of the process. -/
structure Env where
  userId : Int
  userId_pos : 0 < userId
  batchUpdateEnabled : Bool
  units : Units

/-- `model.User`, the columns that these operations read. -/
structure User where
  status : Int
  quota : Int
  affQuota : Int
deriving DecidableEq, Repr

/-- The row of the user, its entry in the batch updater's map, and its hash. -/
structure Wallet where
  row : User
  pending : Int
  cache : Option UserHash
deriving DecidableEq, Repr

/-- The calls of an operation that fail. -/
structure Calls where
  incr : Bool
  get : Bool
  del : Bool
  load : Bool
  set : Bool
  retry : Bool
  db : Bool
  reload : Bool
deriving DecidableEq, Repr

def Calls.ok : Calls := ⟨false, false, false, false, false, false, false, false⟩

/-- `pendingBatchDelta` of the user. -/
def Wallet.pendingBatchDelta (env : Env) (w : Wallet) : Int :=
  if env.batchUpdateEnabled then w.pending else 0

def Wallet.addQuota (w : Wallet) (delta : Int) : Wallet :=
  { w with row := { w.row with quota := w.row.quota + delta } }

/-! ## The cache functions -/

/-- `updateUserCache`. -/
def updateUserCache (w : Wallet) (user : UserBase) (err : Bool) : Wallet :=
  if err then w else { w with cache := some (redisHSetObjPreservingQuota w.cache user) }

/-- `GetUserCache` after it has found no complete hash. -/
def rebuild (env : Env) (w : Wallet) (io : Calls) : Wallet × Option UserBase :=
  if io.load then (w, none)
  else
    let user : UserBase :=
      ⟨env.userId, w.row.status, w.row.quota + w.pendingBatchDelta env⟩
    (updateUserCache w user io.set, some user)

/-- `GetUserCache`. -/
def getUserCache (env : Env) (w : Wallet) (io : Calls) : Wallet × Option UserBase :=
  match if io.get then none else redisHGetObj w.cache with
  | some ub =>
      if userBaseCacheLooksComplete env.userId ub then (w, some ub)
      else rebuild env (if io.del then w else { w with cache := none }) io
  | none => rebuild env w io

/-- `cacheIncrUserQuota`; its callers only log its error. -/
def cacheIncrUserQuota (env : Env) (w : Wallet) (delta : Int) (io : Calls) : Wallet :=
  if io.incr then w
  else
    match redisHIncrByIfComplete w.cache delta with
    | (entry, true) => { w with cache := entry }
    | (_, false) =>
        match getUserCache env w io with
        | (w', none) => w'
        | (w', some _) =>
            if io.retry then w'
            else { w' with cache := (redisHIncrByIfComplete w'.cache delta).1 }

/-- `syncUserQuotaCacheIncr`. -/
def syncUserQuotaCacheIncr (env : Env) (w : Wallet) (delta : Int) (io : Calls) : Wallet :=
  if delta = 0 then w else cacheIncrUserQuota env w delta io

/-! ## The operations -/

/-- `IncreaseUserQuota` and `DecreaseUserQuota` after their check of the amount. -/
def adjust (env : Env) (w : Wallet) (delta : Int) (db : Bool) (io : Calls) : Wallet :=
  let w' := cacheIncrUserQuota env w delta io
  if !db && env.batchUpdateEnabled then { w' with pending := w'.pending + delta }
  else if io.db then w'
  else w'.addQuota delta

/-- `IncreaseUserQuota`. -/
def increaseUserQuota (env : Env) (w : Wallet) (quota : Int) (db : Bool) (io : Calls) : Wallet :=
  if quota < 0 then w else adjust env w quota db io

/-- `DecreaseUserQuota`. -/
def decreaseUserQuota (env : Env) (w : Wallet) (quota : Int) (io : Calls) : Wallet :=
  if quota < 0 then w else adjust env w (-quota) false io

/-- `CompleteTopUp` of an order that its transaction finds in the given status. -/
def completeTopUp (env : Env) (w : Wallet) (status : TopUpStatus) (quota : Int) (io : Calls) :
    Wallet :=
  if io.db then w
  else if status ≠ .pending then w
  else syncUserQuotaCacheIncr env (w.addQuota quota) quota io

/-- `ManualCompleteTopUp` of an order of the user. -/
def manualCompleteTopUp (env : Env) (w : Wallet) (order : TopUp) (io : Calls) : Wallet :=
  if io.db then w
  else if order.status ≠ .pending then w
  else
    let quotaToAdd := manualQuota env.units order
    if quotaToAdd ≤ 0 then w
    else syncUserQuotaCacheIncr env (w.addQuota quotaToAdd) quotaToAdd io

/-- `User.Edit`; `io.db` fails its first read or its update. -/
def edit (env : Env) (w : Wallet) (quota : Int) (includeQuota : Bool) (io : Calls) : Wallet :=
  if io.db then w
  else
    let w' := if includeQuota then { w with row := { w.row with quota := quota } } else w
    if io.reload then w'
    else updateUserCache w' ⟨env.userId, w'.row.status, w'.row.quota⟩ io.set

/-- `TransferAffQuotaToQuota`. -/
def transferAffQuotaToQuota (env : Env) (w : Wallet) (quota : Int) (io : Calls) : Wallet :=
  if quota < env.units.quotaPerUnit then w
  else if io.db then w
  else if w.row.affQuota < quota then w
  else { w with
    row := { w.row with affQuota := w.row.affQuota - quota, quota := w.row.quota + quota } }

/-- `GetUserQuota` when it reads the row itself. -/
def readQuota (env : Env) (w : Wallet) (io : Calls) : Wallet :=
  if io.db then w
  else if io.set then w
  else { w with
    cache := some (redisHSetNXQuota w.cache (w.row.quota + w.pendingBatchDelta env)) }

/-- `GetUserQuota`. -/
def getUserQuota (env : Env) (w : Wallet) (fromDB : Bool) (io : Calls) : Wallet :=
  if fromDB then readQuota env w io
  else
    match getUserCache env w io with
    | (w', some _) => w'
    | (w', none) => readQuota env w' io

/-! ## Histories -/

inductive Op where
  | increaseUserQuota (quota : Int) (db : Bool) (io : Calls)
  | decreaseUserQuota (quota : Int) (io : Calls)
  | completeTopUp (status : TopUpStatus) (quota : Int) (io : Calls)
  | manualCompleteTopUp (order : TopUp) (io : Calls)
  | edit (quota : Int) (includeQuota : Bool) (io : Calls)
  | transferAffQuotaToQuota (quota : Int) (io : Calls)
  | getUserQuota (fromDB : Bool) (io : Calls)
  | expire
deriving DecidableEq

def apply (env : Env) (w : Wallet) : Op → Wallet
  | .increaseUserQuota quota db io => Coherence.increaseUserQuota env w quota db io
  | .decreaseUserQuota quota io => Coherence.decreaseUserQuota env w quota io
  | .completeTopUp status quota io => Coherence.completeTopUp env w status quota io
  | .manualCompleteTopUp order io => Coherence.manualCompleteTopUp env w order io
  | .edit quota includeQuota io => Coherence.edit env w quota includeQuota io
  | .transferAffQuotaToQuota quota io => Coherence.transferAffQuotaToQuota env w quota io
  | .getUserQuota fromDB io => Coherence.getUserQuota env w fromDB io
  | .expire => { w with cache := none }

def step (env : Env) (w : Wallet) (op : Op) : Option Wallet := some (apply env w op)

/-- A user whose hash is not in Redis yet. -/
def cold (row : User) (pending : Int) : Wallet := ⟨row, pending, none⟩

/-- No call of the operation fails. -/
def Op.succeeds : Op → Bool
  | .increaseUserQuota _ _ io => io = .ok
  | .decreaseUserQuota _ io => io = .ok
  | .completeTopUp _ _ io => io = .ok
  | .manualCompleteTopUp _ io => io = .ok
  | .edit _ _ io => io = .ok
  | .transferAffQuotaToQuota _ io => io = .ok
  | .getUserQuota _ io => io = .ok
  | .expire => true

/-! ## The property -/

/-- The quota in the database and the delta pending for it. -/
def Wallet.live (env : Env) (w : Wallet) : Int := w.row.quota + w.pendingBatchDelta env

/-- The hash, where there is one, has the live quota. -/
def Coherent (env : Env) (w : Wallet) : Prop :=
  ∀ h, w.cache = some h → h.quota = some (w.live env)

/-- There is a complete hash. -/
def Wallet.warm (w : Wallet) : Bool := w.cache.any UserHash.complete

/-- The calls of a rebuild do not bring a hash to Redis. -/
def Calls.unbuilt (io : Calls) : Bool := io.load || io.set

/-- The delta of `cacheIncrUserQuota` gets to a hash: to the one that is there if it is
complete, and else to the one that is rebuilt. -/
def Wallet.reached (w : Wallet) (io : Calls) : Bool :=
  !io.incr && (w.warm || !io.unbuilt && !io.retry)

/-- `cacheIncrUserQuota` leaves no hash: it does not rebuild one, and there was none or it
has deleted the one that was not complete. -/
def Wallet.leftCold (w : Wallet) (io : Calls) : Bool :=
  !w.warm && (io.incr || io.unbuilt) && (w.cache = none || !io.incr && !io.get && !io.del)

/-- A delta gets to the hash exactly if it gets to the row or to the pending delta; or
no hash is left to miss it. -/
def Wallet.keepsDelta (env : Env) (w : Wallet) (delta : Int) (db : Bool) (io : Calls) : Bool :=
  delta = 0 ||
    if !db && env.batchUpdateEnabled || !io.db then w.reached io || w.leftCold io
    else !w.reached io

/-- A credit that is in the row already gets to a complete hash.  Without one, no hash is
left, or the rebuild is all that is done. -/
def Wallet.keepsCredit (w : Wallet) (credit : Int) (io : Calls) : Bool :=
  credit = 0 ||
    if w.warm then !io.incr else w.leftCold io || !io.incr && !io.unbuilt && io.retry

/-- An edit leaves the quota as it is, or finds no hash that keeps the old one; one that
writes a hash without a complete one before it finds nothing pending. -/
def Wallet.keepsEdit (env : Env) (w : Wallet) (quota : Int) (includeQuota : Bool) (io : Calls) :
    Bool :=
  if io.reload || io.set then !includeQuota || quota = w.row.quota || w.cache = none
  else if w.warm then !includeQuota || quota = w.row.quota
  else w.pendingBatchDelta env = 0

/-- An operation moves the hash and the live quota alike. -/
def keeps (env : Env) (w : Wallet) : Op → Bool
  | .increaseUserQuota quota db io => quota < 0 || w.keepsDelta env quota db io
  | .decreaseUserQuota quota io => quota < 0 || w.keepsDelta env (-quota) false io
  | .completeTopUp status quota io => io.db || status ≠ .pending || w.keepsCredit quota io
  | .manualCompleteTopUp order io =>
      io.db || order.status ≠ .pending || manualQuota env.units order ≤ 0 ||
        w.keepsCredit (manualQuota env.units order) io
  | .edit quota includeQuota io => io.db || w.keepsEdit env quota includeQuota io
  | .transferAffQuotaToQuota quota io =>
      quota < env.units.quotaPerUnit || io.db || w.row.affQuota < quota || quota = 0 ||
        w.cache = none
  | .getUserQuota _ _ => true
  | .expire => true

section

variable {env : Env} {w : Wallet} {h : UserHash} {delta : Int} {io : Calls}

/-- What `GetUserCache` stores. -/
def Wallet.rebuilt (env : Env) (w : Wallet) : UserHash :=
  ⟨some env.userId, some w.row.status, some (w.live env)⟩

theorem rebuilt_complete (env : Env) (w : Wallet) : (w.rebuilt env).complete = true := by
  have := env.userId_pos
  simp only [UserHash.complete, Wallet.rebuilt, Option.any_some, decide_eq_true_eq]
  omega

theorem coherent_some (hc : w.cache = some h) :
    Coherent env w ↔ h.quota = some (w.live env) := by
  constructor
  · intro hw
    exact hw h hc
  · intro hq k hk
    cases hc.symm.trans hk
    exact hq

theorem coherent_none (hc : w.cache = none) : Coherent env w := by
  intro h hh
  rw [hc] at hh
  cases hh

/-- With the quota of the hash known, where there is one. -/
theorem coherent_iff_of_quota {q : Int} (hq : ∀ h, w.cache = some h → h.quota = some q) :
    Coherent env w ↔ w.cache = none ∨ q = w.live env := by
  cases hc : w.cache with
  | none => exact iff_of_true (coherent_none hc) (Or.inl rfl)
  | some h =>
      rw [coherent_some hc, hq h hc]
      simp

/-! ## What the cache functions do -/

theorem warm_cases (w : Wallet) :
    (∃ h, w.cache = some h ∧ h.complete = true ∧ w.warm = true) ∨ w.warm = false := by
  cases hw : w.warm with
  | false => exact Or.inr rfl
  | true =>
      obtain ⟨h, hc, hcomp⟩ := (Option.any_eq_true _ _).1 hw
      exact Or.inl ⟨h, hc, hcomp, rfl⟩

/-- `updateUserCache` without a complete hash. -/
theorem updateUserCache_of_not_warm (hw : w.warm = false) (user : UserBase) :
    updateUserCache w user false =
      { w with cache := some ⟨some user.id, some user.status, some user.quota⟩ } := by
  simp only [updateUserCache, Bool.false_eq_true, if_false, redisHSetObjPreservingQuota]
  cases hc : w.cache with
  | none => rfl
  | some h =>
      have hn : h.complete = false := by simpa [Wallet.warm, hc] using hw
      simp [hn]

/-- A rebuild that does not bring a hash to Redis leaves the one that is there. -/
theorem rebuild_unbuilt (env : Env) (w : Wallet) (hio : io.unbuilt = true) :
    (rebuild env w io).1 = w := by
  simp only [rebuild]
  split
  next => rfl
  next hload =>
    have hset : io.set = true := by simpa [Calls.unbuilt, hload] using hio
    simp [updateUserCache, hset]

theorem rebuild_of_not_warm (env : Env) (hw : w.warm = false) (hio : io.unbuilt = false) :
    rebuild env w io =
      ({ w with cache := some (w.rebuilt env) }, some ⟨env.userId, w.row.status, w.live env⟩) := by
  simp only [Calls.unbuilt, Bool.or_eq_false_iff] at hio
  simp only [rebuild, hio.1, hio.2, Bool.false_eq_true, if_false]
  rw [updateUserCache_of_not_warm hw]
  rfl

/-- A hash that is not complete does not look complete. -/
theorem not_looksComplete (env : Env) (hn : h.complete = false) :
    userBaseCacheLooksComplete env.userId ⟨h.id.getD 0, h.status.getD 0, h.quota.getD 0⟩ =
      false := by
  have hpos := env.userId_pos
  have hid : h.id.getD 0 = 0 := by
    cases hi : h.id with
    | none => rfl
    | some k => simpa [UserHash.complete, hi] using hn
  have hne : ¬ (0 : Int) = env.userId := by omega
  simp [userBaseCacheLooksComplete, hid, hne]

/-- The wallet when `GetUserCache` rebuilds a hash that is not complete: the old one is
deleted if it can be read and deleted. -/
def Wallet.cleared (w : Wallet) (io : Calls) : Wallet :=
  if io.get || io.del then w else { w with cache := none }

theorem warm_cleared (hw : w.warm = false) (io : Calls) : (w.cleared io).warm = false := by
  rw [Wallet.cleared]
  split
  next => exact hw
  next => rfl

/-- `GetUserCache` without a complete hash rebuilds it. -/
theorem getUserCache_of_not_warm (env : Env) (hw : w.warm = false) (io : Calls) :
    getUserCache env w io = rebuild env (w.cleared io) io := by
  cases hget : io.get with
  | true => simp [getUserCache, Wallet.cleared, hget]
  | false =>
      simp only [getUserCache, hget, Bool.false_eq_true, if_false, redisHGetObj]
      cases hc : w.cache with
      | none =>
          have hsame : w.cleared io = w := by
            rw [Wallet.cleared]
            split
            next => rfl
            next => rw [← hc]
          simp [hsame]
      | some h =>
          have hn : h.complete = false := by simpa [Wallet.warm, hc] using hw
          simp only [Option.map_some, not_looksComplete env hn, Bool.false_eq_true, if_false,
            Wallet.cleared, hget, Bool.false_or]

/-- An increment of a hash that is not complete does nothing. -/
theorem redisHIncr_of_not_warm (hw : w.warm = false) (delta : Int) :
    redisHIncrByIfComplete w.cache delta = (w.cache, false) := by
  cases hc : w.cache with
  | none => rfl
  | some h =>
      have hn : h.complete = false := by simpa [Wallet.warm, hc] using hw
      simp [redisHIncrByIfComplete, hn]

/-- An increment of a complete hash. -/
theorem cacheIncr_of_warm (env : Env) (hc : w.cache = some h) (hcomp : h.complete = true)
    (hio : io.incr = false) (delta : Int) :
    cacheIncrUserQuota env w delta io =
      { w with cache := some { h with quota := some (h.quota.getD 0 + delta) } } := by
  simp [cacheIncrUserQuota, hio, redisHIncrByIfComplete, hc, hcomp]

/-- An increment that finds no complete hash and does not rebuild one. -/
theorem cacheIncr_unbuilt (env : Env) (hw : w.warm = false) (hincr : io.incr = false)
    (hio : io.unbuilt = true) (delta : Int) :
    cacheIncrUserQuota env w delta io = w.cleared io := by
  have hwallet := rebuild_unbuilt env (w.cleared io) hio
  have hretry := redisHIncr_of_not_warm (warm_cleared hw io) delta
  simp only [cacheIncrUserQuota, hincr, Bool.false_eq_true, if_false,
    redisHIncr_of_not_warm hw, getUserCache_of_not_warm env hw]
  split
  next hreb =>
    rw [hreb] at hwallet
    exact hwallet
  next hreb =>
    rw [hreb] at hwallet
    dsimp only at hwallet
    rw [hwallet, hretry]
    simp

/-- An increment without a complete hash comes on top of a rebuild. -/
theorem cacheIncr_of_not_warm (env : Env) (hw : w.warm = false) (hincr : io.incr = false)
    (hio : io.unbuilt = false) (delta : Int) :
    cacheIncrUserQuota env w delta io =
      { w with
        cache := some { w.rebuilt env with
          quota := some (w.live env + if io.retry then 0 else delta) } } := by
  have hreb : rebuild env (w.cleared io) io =
      ({ w with cache := some (w.rebuilt env) },
        some ⟨env.userId, w.row.status, w.live env⟩) := by
    rw [rebuild_of_not_warm env (warm_cleared hw io) hio, Wallet.cleared]
    split
    next => rfl
    next => rfl
  have hsecond : redisHIncrByIfComplete (some (w.rebuilt env)) delta =
      (some { w.rebuilt env with quota := some (w.live env + delta) }, true) := by
    simp only [redisHIncrByIfComplete, rebuilt_complete, if_true]
    rfl
  simp only [cacheIncrUserQuota, hincr, Bool.false_eq_true, if_false,
    redisHIncr_of_not_warm hw, getUserCache_of_not_warm env hw, hreb, hsecond]
  split
  next => simp [Wallet.rebuilt]
  next => rfl

/-- What an increment does to a hash whose quota is known.  A rebuild starts from the live
quota. -/
theorem cacheIncr_spec (env : Env) (delta : Int) (io : Calls) {q : Int}
    (hq : ∀ h, w.cache = some h → h.quota = some q) :
    ∃ c, cacheIncrUserQuota env w delta io = { w with cache := c } ∧
      (c = none ↔ w.leftCold io = true) ∧
      ∀ h, c = some h →
        h.quota = some ((if w.warm || io.incr || io.unbuilt then q else w.live env) +
          if w.reached io then delta else 0) := by
  cases hincr : io.incr with
  | true =>
      refine ⟨w.cache, by simp [cacheIncrUserQuota, hincr], ?_, ?_⟩
      · rcases warm_cases w with ⟨h, hc, -, hw⟩ | hw <;> simp [Wallet.leftCold, hincr, hw]
        simp [hc]
      · intro h hc
        simp [Wallet.reached, hincr, hq h hc]
  | false =>
      rcases warm_cases w with ⟨h, hc, hcomp, hw⟩ | hw
      · refine ⟨_, cacheIncr_of_warm env hc hcomp hincr delta, ?_, ?_⟩
        · simp [Wallet.leftCold, hw]
        · rintro k ⟨⟩
          simp [Wallet.reached, hincr, hw, hq h hc]
      · cases hio : io.unbuilt with
        | true =>
            refine ⟨(w.cleared io).cache, ?_, ?_, ?_⟩
            · rw [cacheIncr_unbuilt env hw hincr hio, Wallet.cleared]
              split <;> rfl
            · simp only [Wallet.cleared, Wallet.leftCold, hw, hincr, hio]
              split
              next hkept =>
                rcases Bool.or_eq_true_iff.1 hkept with hget | hdel
                · simp [hget]
                · simp [hdel]
              next hkept =>
                have hgone := Bool.or_eq_false_iff.1 (Bool.not_eq_true _ ▸ hkept)
                simp [hgone.1, hgone.2]
            · intro h hc
              have hold : w.cache = some h := by
                rw [Wallet.cleared] at hc
                split at hc
                next => exact hc
                next => cases hc
              simp [Wallet.reached, hincr, hio, hw, hq h hold]
        | false =>
            refine ⟨_, cacheIncr_of_not_warm env hw hincr hio delta, ?_, ?_⟩
            · simp [Wallet.leftCold, hincr, hio]
            · rintro k ⟨⟩
              cases hretry : io.retry <;> simp [Wallet.reached, hincr, hio, hw, hretry]

/-- A delta that gets to a hash leaves one. -/
theorem not_leftCold_of_reached (hr : w.reached io = true) : w.leftCold io = false := by
  simp only [Wallet.reached, Bool.and_eq_true, Bool.or_eq_true, Bool.not_eq_true'] at hr
  obtain ⟨hincr, hw | ⟨hio, -⟩⟩ := hr
  · simp [Wallet.leftCold, hw]
  · simp [Wallet.leftCold, hincr, hio]

/-! ## What the operations do to coherence -/

/-- `IncreaseUserQuota` and `DecreaseUserQuota` move the hash before the live quota. -/
theorem coherent_adjust_iff (hI : Coherent env w) (delta : Int) (db : Bool) (io : Calls) :
    Coherent env (adjust env w delta db io) ↔ w.keepsDelta env delta db io = true := by
  obtain ⟨c, heq, hcold, hquota⟩ := cacheIncr_spec env delta io hI
  simp only [ite_self] at hquota
  -- Whether the delta lands in the live quota is all that the last branches differ in.
  have hlands : ∃ w', adjust env w delta db io = w' ∧ w'.cache = c ∧
      w'.live env = w.live env +
        if !db && env.batchUpdateEnabled || !io.db then delta else 0 := by
    refine ⟨_, rfl, ?_⟩
    simp only [adjust, heq]
    cases hbatch : (!db && env.batchUpdateEnabled) with
    | true =>
        simp only [Bool.and_eq_true] at hbatch
        simp only [if_true, Bool.true_or, Wallet.live, Wallet.pendingBatchDelta, hbatch.2,
          true_and]
        omega
    | false =>
        cases io.db with
        | true => simp [Wallet.live, Wallet.pendingBatchDelta]
        | false =>
            simp only [Bool.false_eq_true, if_false, Bool.not_false, Bool.or_true, if_true,
              Wallet.live, Wallet.pendingBatchDelta, Wallet.addQuota, true_and]
            omega
  obtain ⟨w', hw', hc, hlive⟩ := hlands
  rw [hw', coherent_iff_of_quota (hc ▸ hquota), hc, hcold, hlive, Wallet.keepsDelta]
  generalize (!db && env.batchUpdateEnabled || !io.db) = lands
  cases hr : w.reached io with
  | true =>
      have hn := not_leftCold_of_reached hr
      cases lands <;> simp [hn]
  | false => cases lands <;> simp [or_comm]

theorem live_addQuota (env : Env) (w : Wallet) (quota : Int) :
    (w.addQuota quota).live env = w.live env + quota := by
  simp only [Wallet.live, Wallet.addQuota, Wallet.pendingBatchDelta]
  omega

/-- A credit that is in the row before the hash moves: a rebuild counts it, and then it
is added again. -/
theorem coherent_sync_iff (hI : Coherent env w) (quota : Int) (io : Calls) :
    Coherent env (syncUserQuotaCacheIncr env (w.addQuota quota) quota io) ↔
      w.keepsCredit quota io = true := by
  by_cases hz : quota = 0
  · subst hz
    have hsame : w.addQuota 0 = w := by simp [Wallet.addQuota]
    simpa [syncUserQuotaCacheIncr, Wallet.keepsCredit, hsame] using hI
  · obtain ⟨c, heq, hcold, hquota⟩ := cacheIncr_spec (w := w.addQuota quota) env quota io hI
    have hwarm : (w.addQuota quota).warm = w.warm := rfl
    have hreached : (w.addQuota quota).reached io = w.reached io := rfl
    have hleft : (w.addQuota quota).leftCold io = w.leftCold io := rfl
    rw [hwarm, hreached, live_addQuota] at hquota
    rw [hleft] at hcold
    rw [syncUserQuotaCacheIncr, if_neg hz, heq]
    rw [coherent_iff_of_quota (w := { w.addQuota quota with cache := c }) hquota]
    show c = none ∨ _ = (w.addQuota quota).live env ↔ _
    rw [hcold, live_addQuota]
    cases hw : w.warm with
    | true =>
        cases hincr : io.incr <;>
          simp [Wallet.keepsCredit, Wallet.reached, Wallet.leftCold, hz, hw, hincr]
    | false =>
        cases hincr : io.incr <;> cases hio : io.unbuilt <;> cases hretry : io.retry <;>
          simp [Wallet.keepsCredit, Wallet.reached, Wallet.leftCold, hz, hw, hincr, hio, hretry]

theorem coherent_edit_iff (hI : Coherent env w) (quota : Int) (includeQuota : Bool)
    (io : Calls) :
    Coherent env (edit env w quota includeQuota io) ↔
      keeps env w (.edit quota includeQuota io) = true := by
  simp only [edit, keeps, Wallet.keepsEdit]
  cases hdb : io.db with
  | true => simpa using hI
  | false =>
      simp only [Bool.false_eq_true, if_false, Bool.false_or]
      -- The wallet whose row is edited, before the hash is.
      generalize hedited : (if includeQuota then { w with row := { w.row with quota := quota } }
        else w) = w'
      have hcache : w'.cache = w.cache := by
        rw [← hedited]
        split <;> rfl
      have hpending : w'.pendingBatchDelta env = w.pendingBatchDelta env := by
        rw [← hedited]
        split <;> rfl
      have hrow : w'.row.quota = w.row.quota ↔ includeQuota = false ∨ quota = w.row.quota := by
        rw [← hedited]
        cases includeQuota <;> simp
      have hold : ∀ h, w'.cache = some h → h.quota = some (w.live env) := by
        rw [hcache]
        exact hI
      have hlive : w.live env = w'.live env ↔ w'.row.quota = w.row.quota := by
        simp only [Wallet.live, hpending]
        omega
      cases hlost : (io.reload || io.set) with
      | true =>
          have hsame : (if io.reload then w'
              else updateUserCache w' ⟨env.userId, w'.row.status, w'.row.quota⟩ io.set) = w' := by
            rcases Bool.or_eq_true_iff.1 hlost with hr | hs
            · simp [hr]
            · simp [updateUserCache, hs]
          rw [hsame, coherent_iff_of_quota hold, hcache, hlive, hrow]
          simp [or_comm]
      | false =>
          obtain ⟨hr, hs⟩ := Bool.or_eq_false_iff.1 hlost
          simp only [hr, hs, Bool.false_eq_true, if_false]
          rcases warm_cases w with ⟨h, hc, hcomp, hw⟩ | hw
          · have hq := hI h hc
            rw [hw, coherent_some (by simp [updateUserCache, hcache, hc]; rfl)]
            simp only [redisHSetObjPreservingQuota, Option.bind_some, hcomp, if_true, hq,
              Option.some_or, Option.some.injEq]
            show w.live env = w'.live env ↔ _
            rw [hlive, hrow]
            simp
          · have hw' : w'.warm = false := by
              rw [Wallet.warm, hcache]
              exact hw
            rw [hw, updateUserCache_of_not_warm hw', coherent_some rfl]
            show some w'.row.quota = some (w'.row.quota + w'.pendingBatchDelta env) ↔ _
            simp [hpending]

theorem coherent_transfer_iff (hI : Coherent env w) (quota : Int) (io : Calls) :
    Coherent env (transferAffQuotaToQuota env w quota io) ↔
      keeps env w (.transferAffQuotaToQuota quota io) = true := by
  simp only [transferAffQuotaToQuota, keeps, Bool.or_eq_true, decide_eq_true_eq]
  split
  next hmin => simp [hI, hmin]
  next hmin =>
    split
    next hdb => simp [hI, hdb]
    next hdb =>
      split
      next haff => simp [hI, haff]
      next haff =>
        simp only [hmin, hdb, haff, false_or]
        cases hc : w.cache with
        | none => exact iff_of_true (coherent_none rfl) (Or.inr rfl)
        | some h =>
            have hq := hI h hc
            rw [coherent_some rfl, hq]
            simp only [Wallet.live, Wallet.pendingBatchDelta, Option.some.injEq, reduceCtorEq,
              or_false, false_or]
            omega

/-- Only a rebuild changes what `GetUserCache` finds, and it stores the live quota. -/
theorem coherent_rebuild (hI : Coherent env w) (io : Calls) :
    Coherent env (rebuild env w io).1 := by
  cases hio : io.unbuilt with
  | true =>
      rw [rebuild_unbuilt env w hio]
      exact hI
  | false =>
      rcases warm_cases w with ⟨h, hc, hcomp, -⟩ | hw
      · simp only [Calls.unbuilt, Bool.or_eq_false_iff] at hio
        simp only [rebuild, hio.1, hio.2, Bool.false_eq_true, if_false]
        rw [coherent_some (by simp [updateUserCache, hc]; rfl)]
        simp only [redisHSetObjPreservingQuota, Option.bind_some, hcomp, if_true, hI h hc,
          Option.some_or]
        rfl
      · rw [rebuild_of_not_warm env hw hio]
        exact (coherent_some rfl).2 rfl

/-- `GetUserCache` keeps the hash, deletes it or rebuilds it. -/
theorem coherent_getUserCache (hI : Coherent env w) (io : Calls) :
    Coherent env (getUserCache env w io).1 := by
  simp only [getUserCache]
  split
  next =>
    split
    next => exact hI
    next =>
      refine coherent_rebuild ?_ io
      split
      next => exact hI
      next => exact coherent_none rfl
  next => exact coherent_rebuild hI io

theorem coherent_readQuota (hI : Coherent env w) (io : Calls) :
    Coherent env (readQuota env w io) := by
  rw [readQuota]
  split
  next => exact hI
  next =>
    split
    next => exact hI
    next =>
      refine (coherent_some rfl).2 ?_
      cases hc : w.cache with
      | none => rfl
      | some h =>
          have hq := hI h hc
          simp only [redisHSetNXQuota, hq, Option.some_or]
          rfl

theorem coherent_getUserQuota (hI : Coherent env w) (fromDB : Bool) (io : Calls) :
    Coherent env (getUserQuota env w fromDB io) := by
  rw [getUserQuota]
  split
  next => exact coherent_readQuota hI io
  next =>
    have hget := coherent_getUserCache hI io
    split
    next heq =>
      rw [heq] at hget
      exact hget
    next heq =>
      rw [heq] at hget
      exact coherent_readQuota hget io

/-- An operation keeps the hash coherent exactly if it meets `keeps`. -/
theorem coherent_step_iff {op : Op} {w' : Wallet} (hI : Coherent env w)
    (hs : step env w op = some w') : Coherent env w' ↔ keeps env w op = true := by
  cases hs
  cases op with
  | increaseUserQuota quota db io =>
      simp only [apply, increaseUserQuota, keeps, Bool.or_eq_true, decide_eq_true_eq]
      split
      next hneg => simp [hI, hneg]
      next hneg => simpa [hneg] using coherent_adjust_iff hI quota db io
  | decreaseUserQuota quota io =>
      simp only [apply, decreaseUserQuota, keeps, Bool.or_eq_true, decide_eq_true_eq]
      split
      next hneg => simp [hI, hneg]
      next hneg => simpa [hneg] using coherent_adjust_iff hI (-quota) false io
  | completeTopUp status quota io =>
      simp only [apply, completeTopUp, keeps, Bool.or_eq_true, decide_eq_true_eq]
      split
      next hdb => simp [hI, hdb]
      next hdb =>
        split
        next hst => simp [hI, hst]
        next hst => simpa [hdb, hst] using coherent_sync_iff hI quota io
  | manualCompleteTopUp order io =>
      simp only [apply, manualCompleteTopUp, keeps, Bool.or_eq_true, decide_eq_true_eq]
      split
      next hdb => simp [hI, hdb]
      next hdb =>
        split
        next hst => simp [hI, hst]
        next hst =>
          split
          next hle => simp [hI, hle]
          next hle =>
            simpa [hdb, hst, hle] using coherent_sync_iff hI (manualQuota env.units order) io
  | edit quota includeQuota io => exact coherent_edit_iff hI quota includeQuota io
  | transferAffQuotaToQuota quota io => exact coherent_transfer_iff hI quota io
  | getUserQuota fromDB io => exact iff_of_true (coherent_getUserQuota hI fromDB io) rfl
  | expire => exact iff_of_true (coherent_none rfl) rfl

end

/-- In every history, whichever calls fail, the hash has the live quota after every
operation after which it exists, exactly if every operation meets `keeps`. -/
theorem coherent_iff_keeps (env : Env) (row : User) (pending : Int) (ops : List Op) :
    Run.Always (step env) (Coherent env) (cold row pending) ops ↔
      Run.Along (step env) (fun w op => keeps env w op = true) (cold row pending) ops := by
  obtain ⟨w, hw⟩ := Run.exec_total (fun w op => show (step env w op).isSome = true from rfl) ops
    (cold row pending)
  exact Run.always_iff_along (R := fun _ _ => True) (fun _ _ _ hI _ hs => coherent_step_iff hI hs)
    ops _ w (coherent_none rfl) (Run.along_of_forall (fun _ _ => trivial) ops _) hw

/-! ## Two histories -/

def exampleEnv : Env := ⟨7, by decide, true, ⟨500, 1000000⟩⟩

def exampleUser : User := ⟨1, 1000, 600⟩

/-- A charge warms the hash up, and the top-up finds it. -/
def warmTopUp : List Op :=
  [.decreaseUserQuota 100 .ok, .completeTopUp .pending 300 .ok, .getUserQuota true .ok]

/-- The top-up finds no hash. -/
def coldTopUp : List Op := [.completeTopUp .pending 300 .ok]

theorem coherent_warmTopUp :
    ∃ w, Run.exec (step exampleEnv) (cold exampleUser 0) warmTopUp = some w ∧
      w.cache = some ⟨some 7, some 1, some 1200⟩ ∧
      Run.Always (step exampleEnv) (Coherent exampleEnv) (cold exampleUser 0) warmTopUp := by
  obtain ⟨w, hw, hc⟩ := Run.exists_of_any (step exampleEnv) (cold exampleUser 0) warmTopUp
    (fun w => w.cache = some ⟨some 7, some 1, some 1200⟩) (by decide +kernel)
  exact ⟨w, hw, of_decide_eq_true hc,
    (coherent_iff_keeps exampleEnv exampleUser 0 warmTopUp).2 (by decide +kernel)⟩

/-- The row has 1300 and the hash 1600: the rebuild counts the credit of 300, and it is
added once more. -/
theorem coldTopUp_counts_twice :
    ¬ ∀ (env : Env) (row : User) (pending : Int) (ops : List Op) (w : Wallet),
      (∀ op ∈ ops, op.succeeds = true) →
      Run.exec (step env) (cold row pending) ops = some w → Coherent env w := by
  intro h
  obtain ⟨w, hw, hend⟩ := Run.exists_of_any (step exampleEnv) (cold exampleUser 0) coldTopUp
    (fun w => w.cache = some ⟨some 7, some 1, some 1600⟩ ∧ w.live exampleEnv = 1300)
    (by decide +kernel)
  obtain ⟨hc, hl⟩ := of_decide_eq_true hend
  have hq := h exampleEnv exampleUser 0 coldTopUp w (by decide) hw _ hc
  rw [hl] at hq
  exact absurd hq (by decide)

end DazeApi.Users.Coherence
