import DazeApi.Payment.Order

/-!
# A top-up order is credited once

The transaction reads the order, checks that it is pending, saves it as completed
and credits the user.  Nothing keeps the order between the read and the save:
two executions can both read it as pending, and the second save, which waits for
the first one's row lock, then overwrites a completed order and credits again.

So the order is credited once exactly as long as every save still finds the
committed order pending.  The row lock keeps this from the save on to the end of
the transaction.  Where all executions go through the mutex of one node, they
keep it from the read on, and the condition holds by itself.
-/

namespace DazeApi.Payment

/-! ## The property -/

/-- The quota of the user has grown by the credits of the order, of which there
is at most one, and exactly one once a transaction has committed. -/
structure CreditedOnce (u : Units) (order : TopUp) (userQuota : Int) (s : State) : Prop where
  booked : s.userQuota = userQuota + s.credits.sum
  atMostOnce : s.credits.length ≤ 1
  once : s.commits ≠ 0 → s.credits.length = 1
  amount : ∀ c ∈ s.credits, c = notifyQuota u order ∨ c = manualQuota u order

/-- The step is not a save that finds the order completed. -/
def fresh (s : State) : Act → Bool
  | .save i err =>
      match s.procs[i]? with
      | some (.saving _ _) => err || s.order.status = .pending
      | _ => true
  | _ => true

/-! ## What every step keeps -/

/-- The books of an order, whatever the interleaving.  Only its status changes,
and it is completed with a credit. -/
structure Books (u : Units) (order : TopUp) (userQuota : Int) (s : State) : Prop where
  order_eq : s.order = { order with status := s.order.status }
  status : s.order.status = .pending ∨ s.order.status = .success ∧ s.credits ≠ []
  booked : s.userQuota = userQuota + s.credits.sum
  amount : ∀ c ∈ s.credits, c = notifyQuota u order ∨ c = manualQuota u order
  procs : ∀ p ∈ s.procs, p.Amount u order

section

variable {u : Units} {order : TopUp} {userQuota : Int} {s s' : State} {a : Act}

/-- The two amounts of an order do not depend on its status. -/
theorem Proc.amount_status (p : Proc) (st : TopUpStatus) :
    p.Amount u { order with status := st } ↔ p.Amount u order :=
  Iff.rfl

theorem Books.amount_iff (h : Books u order userQuota s) (p : Proc) :
    p.Amount u s.order ↔ p.Amount u order := by
  rw [h.order_eq]
  exact p.amount_status s.order.status

theorem Books.step (h : Books u order userQuota s) (hs : Step u s a s') :
    Books u order userQuota s' := by
  cases hs with
  | started _ _ hq =>
      exact { h with procs := Pool.forall_start h.procs (amount_of_none hq) }
  | moved hp _ _ _ ha _ _ =>
      refine { h with procs := Pool.forall_set h.procs ?_ }
      exact (h.amount_iff _).1 (ha ((h.amount_iff _).2 (h.procs _ (Pool.mem_of_get hp))))
  | saved hp _ =>
      have hamt := h.procs _ (Pool.mem_of_get hp)
      exact { h with procs := Pool.forall_set h.procs fun q hq => hamt q hq }
  | credited hp =>
      have hamt := h.procs _ (Pool.mem_of_get hp)
      exact { h with procs := Pool.forall_set h.procs fun q hq => hamt q hq }
  | committed hp =>
      rename_i i e quota
      have hamt := h.procs _ (Pool.mem_of_get hp) quota rfl
      refine ⟨?_, Or.inr ⟨rfl, by simp [State.goto]⟩, ?_, ?_, ?_⟩
      · simp only [State.goto]
        rw [h.order_eq]
      · simp only [State.goto, h.booked, List.sum_append, List.sum_singleton]
        omega
      · intro c hc
        rcases List.mem_append.1 hc with hc | hc
        · exact h.amount c hc
        · rw [List.mem_singleton.1 hc]
          exact hamt
      · exact Pool.forall_set h.procs (amount_of_none (leave_quota? e))
  | committedNoop hp =>
      rename_i i e
      exact { h with procs := Pool.forall_set h.procs (amount_of_none (leave_quota? e)) }
  | rolledBack hp hor hsave =>
      rename_i i e p
      exact { h with procs := Pool.forall_set h.procs (amount_of_none (leave_quota? e)) }

/-! ## Fresh saves -/

/-- Along fresh saves, a transaction that has written holds the row lock of an
order that is still pending, and the credits follow the status. -/
structure FreshInv (s : State) : Prop where
  locked : ∀ (i : Nat) (p : Proc), s.procs[i]? = some p → p.inTx = true →
    s.rowLock = some i ∧ s.order.status = .pending
  pending : s.order.status = .pending → s.credits = [] ∧ s.commits = 0
  single : s.credits.length ≤ 1
  noop : ∀ p ∈ s.procs, p.isNoop = true → s.order.status ≠ .pending

/-- An execution outside its writes moves on. -/
theorem FreshInv.move {i : Nat} {p' : Proc} {t : State} (h : FreshInv s)
    (hprocs : t.procs = s.procs.set i p') (hp' : p'.inTx = false)
    (hn : p'.isNoop = true → s.order.status ≠ .pending) (ho : t.order = s.order)
    (hr : t.rowLock = s.rowLock) (hc : t.credits = s.credits) (hm : t.commits = s.commits) :
    FreshInv t where
  locked j q hj hq := by
    rw [hprocs] at hj
    rcases Pool.get_set hj with ⟨-, rfl⟩ | ⟨-, hj⟩
    · rw [hp'] at hq
      cases hq
    · rw [hr, ho]
      exact h.locked j q hj hq
  pending := by
    rw [ho, hc, hm]
    exact h.pending
  single := by
    rw [hc]
    exact h.single
  noop := by
    rw [hprocs, ho]
    exact Pool.forall_set h.noop hn

theorem FreshInv.step (h : FreshInv s) (hf : fresh s a = true) (hs : Step u s a s') :
    FreshInv s' := by
  cases hs with
  | started ht hn _ =>
      refine ⟨?_, h.pending, h.single, Pool.forall_start h.noop (by simp [hn])⟩
      intro i p hi hp
      rcases Pool.get_start hi with hi | rfl
      · exact h.locked i p hi hp
      · rw [ht] at hp
        cases hp
  | moved hp _ ht hn _ _ _ => exact h.move rfl ht hn rfl rfl rfl rfl
  | saved hp hl =>
      rename_i i e quota
      have hst : s.order.status = .pending := by simpa [fresh, hp] using hf
      refine ⟨?_, h.pending, h.single, Pool.forall_set h.noop nofun⟩
      intro j q hj hq
      rcases Pool.get_set hj with ⟨rfl, -⟩ | ⟨hne, hj⟩
      · exact ⟨rfl, hst⟩
      · -- nobody else holds the row lock, which is free
        have := (h.locked j q hj hq).1
        rw [hl] at this
        cases this
  | credited hp =>
      rename_i i e quota
      obtain ⟨hl, hst⟩ := h.locked i _ hp rfl
      refine ⟨?_, h.pending, h.single, Pool.forall_set h.noop nofun⟩
      intro j q hj hq
      rcases Pool.get_set hj with ⟨rfl, -⟩ | ⟨-, hj⟩
      · exact ⟨hl, hst⟩
      · exact h.locked j q hj hq
  | committed hp =>
      rename_i i e quota
      obtain ⟨hl, hst⟩ := h.locked i _ hp rfl
      have hnil := (h.pending hst).1
      refine ⟨?_, nofun, by simp [State.goto, hnil], fun _ _ _ => nofun⟩
      intro j q hj hq
      rcases Pool.get_set hj with ⟨-, rfl⟩ | ⟨hne, hj⟩
      · rw [leave_inTx] at hq
        cases hq
      · have hlj := (h.locked j q hj hq).1
        rw [hl] at hlj
        cases hlj
        exact absurd rfl hne
  | committedNoop hp =>
      rename_i i e
      have hst := h.noop _ (Pool.mem_of_get hp) rfl
      have hm : FreshInv (s.goto i (leave e)) :=
        h.move rfl (leave_inTx e) (by simp [leave_isNoop]) rfl rfl rfl rfl
      exact { hm with pending := fun hst' => absurd hst' hst }
  | rolledBack hp hor hsave =>
      rename_i i e p
      refine ⟨?_, h.pending, h.single, Pool.forall_set h.noop (by simp [leave_isNoop])⟩
      intro j q hj hq
      rcases Pool.get_set hj with ⟨-, rfl⟩ | ⟨hne, hj⟩
      · rw [leave_inTx] at hq
        cases hq
      · have hlj := (h.locked j q hj hq).1
        rcases hor with hpt | hnone
        · rw [(h.locked i p hp hpt).1] at hlj
          cases hlj
          exact absurd rfl hne
        · rw [hnone] at hlj
          cases hlj

theorem FreshInv.creditedOnce (h : FreshInv s) (hb : Books u order userQuota s) :
    CreditedOnce u order userQuota s where
  booked := hb.booked
  atMostOnce := h.single
  once hm := by
    rcases hb.status with hst | ⟨-, hne⟩
    · exact absurd (h.pending hst).2 hm
    · have := h.single
      have := List.length_pos_iff.2 hne
      omega
  amount := hb.amount

/-! ## A save that is not fresh -/

/-- A database call has failed, the order has been credited twice, or a
transaction that will credit it again has written. -/
def State.Doubled (s : State) : Prop :=
  s.failed = true ∨ 2 ≤ s.credits.length ∨
    s.credits ≠ [] ∧ ∃ p ∈ s.procs, p.inTx = true

theorem doubled_of_not_fresh (hb : Books u order userQuota s) (hf : ¬ fresh s a = true)
    (hs : Step u s a s') : s'.Doubled := by
  cases a with
  | save i err =>
      simp only [fresh] at hf
      split at hf
      next e quota hp =>
        obtain ⟨herr, hst⟩ : err = false ∧ s.order.status ≠ .pending := by simpa using hf
        have hne : s.credits ≠ [] := (hb.status.resolve_left hst).2
        subst herr
        cases hs with
        | saved hp' _ =>
            exact Or.inr (Or.inr ⟨hne, _, Pool.mem_of_get (Pool.get_set_self hp'), rfl⟩)
        | moved _ _ _ _ _ _ hsave => exact absurd rfl (hsave i false)
        | rolledBack _ _ hsave => cases hsave i false rfl
      next => exact absurd rfl hf
  | _ => exact absurd rfl hf

theorem State.Doubled.step (h : s.Doubled) (hs : Step u s a s') : s'.Doubled := by
  rcases h with hf | hc | ⟨hne, p, hp, hpt⟩
  · left
    cases hs with
    | moved _ _ _ _ _ hmono _ => exact hmono hf
    | rolledBack => rfl
    | _ => exact hf
  · right; left
    cases hs with
    | committed =>
        simp only [State.goto, List.length_append, List.length_singleton]
        omega
    | _ => exact hc
  · -- the transaction goes on, unless this is its own commit or rollback
    have hkeep : ∀ {i : Nat} {q q' : Proc}, s.procs[i]? = some q →
        (q.inTx = true → q'.inTx = true) → ∃ r ∈ s.procs.set i q', r.inTx = true :=
      fun hi hq => Pool.exists_set hi hq ⟨p, hp, hpt⟩
    cases hs with
    | started => exact Or.inr (Or.inr ⟨hne, p, List.mem_append_left _ hp, hpt⟩)
    | moved hi ht =>
        exact Or.inr (Or.inr ⟨hne, hkeep hi fun hq => by rw [ht] at hq; cases hq⟩)
    | saved hi => exact Or.inr (Or.inr ⟨hne, hkeep hi nofun⟩)
    | credited hi => exact Or.inr (Or.inr ⟨hne, hkeep hi fun _ => rfl⟩)
    | committed =>
        have := List.length_pos_iff.2 hne
        right; left
        simp only [State.goto, List.length_append, List.length_singleton]
        omega
    | committedNoop hi => exact Or.inr (Or.inr ⟨hne, hkeep hi nofun⟩)
    | rolledBack => exact Or.inl rfl

/-- Every execution has returned. -/
def State.AllReturned (s : State) : Prop := ∀ p ∈ s.procs, p = .returned

instance (s : State) : Decidable s.AllReturned :=
  inferInstanceAs (Decidable (∀ p ∈ s.procs, p = .returned))

theorem State.Doubled.not_creditedOnce (h : s.Doubled) (hf : s.failed = false)
    (hr : s.AllReturned) : ¬ CreditedOnce u order userQuota s := by
  intro hc
  rcases h with h | h | ⟨-, p, hp, hpt⟩
  · rw [hf] at h
    cases h
  · have := hc.atMostOnce
    omega
  · rw [hr p hp] at hpt
    cases hpt

end

/-! ## Runs -/

theorem books_initial (u : Units) (order : TopUp) (userQuota : Int)
    (hp : order.status = .pending) : Books u order userQuota (initial order userQuota) :=
  ⟨rfl, Or.inl hp, by simp [initial], by simp [initial], by simp [initial]⟩

theorem freshInv_initial (order : TopUp) (userQuota : Int) :
    FreshInv (initial order userQuota) :=
  ⟨by simp [initial], fun _ => ⟨rfl, rfl⟩, by simp [initial], by simp [initial]⟩

/-- Only entry points that take the mutex of this node are started. -/
def mutexOnly (node : Nat) : Act → Bool
  | .start e => e.locks = some node
  | _ => true

/-- An execution holds the mutex from `LockOrder` to `UnlockOrder`, and an order
it has read as pending stays so until its own commit. -/
def Proc.Mutex (node : Nat) (s : State) (i : Nat) : Proc → Prop
  | .waiting e => e.locks = some node
  | .entered e => e.locks = some node ∧ s.orderLocks node = some i
  | .selecting e _ => e.locks = some node ∧ s.orderLocks node = some i
  | .committingNoop e => e.locks = some node ∧ s.orderLocks node = some i
  | .selectingManual n => n = node ∧ s.orderLocks node = some i
  | .leaving n => n = node ∧ s.orderLocks node = some i
  | .saving e _ => e.locks = some node ∧ s.orderLocks node = some i ∧ s.order.status = .pending
  | .crediting e _ => e.locks = some node ∧ s.orderLocks node = some i ∧ s.order.status = .pending
  | .committing e _ =>
      e.locks = some node ∧ s.orderLocks node = some i ∧ s.order.status = .pending
  | .querying _ => False
  | .returned => True

def MutexInv (node : Nat) (s : State) : Prop :=
  ∀ (i : Nat) (p : Proc), s.procs[i]? = some p → p.Mutex node s i

section

variable {u : Units} {node : Nat} {s t : State} {i j : Nat} {p : Proc}

/-- An execution that does not hold the mutex is not concerned by what happens. -/
theorem Proc.Mutex.of_ne (h : p.Mutex node s j) (hne : s.orderLocks node ≠ some j) :
    p.Mutex node t j := by
  cases p with
  | waiting e => exact h
  | returned => trivial
  | querying quota => exact h.elim
  | saving e quota => exact absurd h.2.1 hne
  | crediting e quota => exact absurd h.2.1 hne
  | committing e quota => exact absurd h.2.1 hne
  | _ => exact absurd h.2 hne

/-- The holder of the mutex, or of the free mutex, moves on. -/
theorem MutexInv.act (h : MutexInv node s)
    (hl : s.orderLocks node = some i ∨ s.orderLocks node = none)
    (hprocs : t.procs = s.procs.set i p) (hp : p.Mutex node t i) : MutexInv node t := by
  intro j q hj
  rw [hprocs] at hj
  rcases Pool.get_set hj with ⟨rfl, rfl⟩ | ⟨hne, hj⟩
  · exact hp
  · refine (h j q hj).of_ne ?_
    rcases hl with hl | hl <;> rw [hl] <;> simp [Ne.symm hne]

theorem begin_mutex {e : Entry} (he : e.locks = some node) (ht : t.orderLocks node = some i) :
    (begin e).Mutex node t i := by
  cases e with
  | adminComplete n => exact ⟨Option.some.inj he, ht⟩
  | _ => exact ⟨he, ht⟩

theorem leave_mutex {e : Entry} (he : e.locks = some node) (ht : t.orderLocks node = some i) :
    (leave e).Mutex node t i := by
  simp only [leave, he]
  exact ⟨rfl, ht⟩

/-- The holder of the mutex is on its way out. -/
theorem MutexInv.leave {e : Entry} (h : MutexInv node s) (he : e.locks = some node)
    (hl : s.orderLocks node = some i) (hprocs : t.procs = s.procs.set i (leave e))
    (hlocks : t.orderLocks = s.orderLocks) : MutexInv node t := by
  refine h.act (Or.inl hl) hprocs (leave_mutex he ?_)
  rw [hlocks]
  exact hl

theorem afterLoad_mutex {e : Entry} (o : TopUp) (he : e.locks = some node)
    (ht : t.orderLocks node = some i) : (afterLoad u o e).Mutex node t i := by
  cases e with
  | alipayNotify => cases he
  | alipayStatus => cases he
  | adminComplete n => exact ⟨Option.some.inj he, ht⟩
  | epayNotify n =>
      simp only [afterLoad]
      split
      next => exact leave_mutex he ht
      next => exact ⟨he, ht⟩

theorem afterSelect_mutex {e : Entry} (quota : Int) (he : e.locks = some node)
    (ht : t.orderLocks node = some i) : (afterSelect t.order e quota).Mutex node t i := by
  simp only [afterSelect]
  split
  next => exact ⟨he, ht⟩
  next hst => exact ⟨he, ht, by simpa using hst⟩

theorem afterSelectManual_mutex (ht : t.orderLocks node = some i) :
    (afterSelectManual u t.order node).Mutex node t i := by
  simp only [afterSelectManual]
  split
  next => exact ⟨rfl, ht⟩
  next =>
    split
    next => exact ⟨rfl, ht⟩
    next hst =>
      split
      next => exact ⟨rfl, ht⟩
      next => exact ⟨rfl, ht, by simpa using hst⟩

theorem MutexInv.step {a : Act} (h : MutexInv node s) (ha : mutexOnly node a = true)
    (hs : Payment.step u s a = some t) : MutexInv node t := by
  cases a with
  | start e =>
      cases hs
      have he : e.locks = some node := by simpa [mutexOnly] using ha
      intro j q hj
      rcases Pool.get_start hj with hj | rfl
      · exact h j q hj
      · rw [he]
        exact he
  | lock i =>
      simp only [Payment.step] at hs
      split at hs
      next e hp =>
        have he : e.locks = some node := h i _ hp
        simp only [he] at hs
        split at hs
        next hfree =>
          cases hs
          exact h.act (Or.inr hfree) rfl (begin_mutex he (by simp [State.goto]))
        next => cases hs
      next => cases hs
  | load i err =>
      simp only [Payment.step] at hs
      split at hs
      next e hp =>
        obtain ⟨he, hl⟩ := h i _ hp
        cases err with
        | true => cases hs; exact h.leave he hl rfl rfl
        | false => cases hs; exact h.act (Or.inl hl) rfl (afterLoad_mutex _ he hl)
      next => cases hs
  | query i paid =>
      simp only [Payment.step] at hs
      split at hs
      next quota hp => exact (h i _ hp).elim
      next => cases hs
  | select i err =>
      simp only [Payment.step] at hs
      split at hs
      next e quota hp =>
        obtain ⟨he, hl⟩ := h i _ hp
        cases err with
        | true => cases hs; exact h.leave he hl rfl rfl
        | false =>
            cases hs
            exact h.act (Or.inl hl) rfl (afterSelect_mutex (t := s.goto i _) quota he hl)
      next n hp =>
        obtain ⟨rfl, hl⟩ := h i _ hp
        cases err with
        | true => cases hs; exact h.act (Or.inl hl) rfl ⟨rfl, hl⟩
        | false =>
            cases hs
            exact h.act (Or.inl hl) rfl (afterSelectManual_mutex (t := s.goto i _) hl)
      next => cases hs
  | save i err =>
      simp only [Payment.step] at hs
      split at hs
      next e quota hp =>
        obtain ⟨he, hl, hst⟩ := h i _ hp
        split at hs
        next =>
          cases err with
          | true => cases hs; exact h.leave he hl rfl rfl
          | false => cases hs; exact h.act (Or.inl hl) rfl ⟨he, hl, hst⟩
        next => cases hs
      next => cases hs
  | credit i err =>
      simp only [Payment.step] at hs
      split at hs
      next e quota hp =>
        obtain ⟨he, hl, hst⟩ := h i _ hp
        cases err with
        | true => cases hs; exact h.leave he hl rfl rfl
        | false => cases hs; exact h.act (Or.inl hl) rfl ⟨he, hl, hst⟩
      next => cases hs
  | commit i err =>
      simp only [Payment.step] at hs
      split at hs
      next e quota hp =>
        obtain ⟨he, hl, -⟩ := h i _ hp
        cases err with
        | true => cases hs; exact h.leave he hl rfl rfl
        | false => cases hs; exact h.leave he hl rfl rfl
      next e hp =>
        obtain ⟨he, hl⟩ := h i _ hp
        cases err with
        | true => cases hs; exact h.leave he hl rfl rfl
        | false => cases hs; exact h.leave he hl rfl rfl
      next => cases hs
  | unlock i =>
      simp only [Payment.step] at hs
      split at hs
      next n hp =>
        obtain ⟨rfl, hl⟩ := h i _ hp
        cases hs
        exact h.act (Or.inl hl) rfl trivial
      next => cases hs

/-- With only the two entry points that take the mutex, on one node, every save
finds the order pending. -/
theorem fresh_of_mutexOnly {as : List Act} (order : TopUp) (userQuota : Int)
    (h : ∀ a ∈ as, mutexOnly node a = true) :
    Run.Along (Payment.step u) (fun s a => fresh s a = true) (initial order userQuota) as := by
  refine Run.Along.mono (P := fun _ a => mutexOnly node a = true) (I := MutexInv node) ?_
    (fun _ _ _ hI hP hs => hI.step hP hs) ?_ (Run.along_of_mem h _)
  · intro s a hI _
    cases a with
    | save i err =>
        simp only [fresh]
        split
        next hp => simp [(hI i _ hp).2.2]
        next => rfl
    | _ => rfl
  · intro i p hp
    simp [initial] at hp

end

/-! ## Two notifications -/

def plainUnits : Units := ⟨500000, 1000000⟩

/-- A pending Alipay order over 10. -/
def alipayOrder : TopUp := ⟨1, 10, 10, "T1", "alipay", .pending⟩

/-- The notification and the status query, one after the other. -/
def inTurn : List Act :=
  [.start .alipayNotify, .start .alipayStatus, .load 0 false, .load 1 false, .select 0 false,
   .save 0 false, .credit 0 false, .commit 0 false, .query 1 true, .select 1 false,
   .commit 1 false]

/-- The notification arrives while the user's status query is between its read
and its save: both see the order pending, and both credit it. -/
def crossed : List Act :=
  [.start .alipayNotify, .start .alipayStatus, .load 0 false, .load 1 false, .query 1 true,
   .select 0 false, .select 1 false, .save 0 false, .credit 0 false, .commit 0 false,
   .save 1 false, .credit 1 false, .commit 1 false]

end DazeApi.Payment
