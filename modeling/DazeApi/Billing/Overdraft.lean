import DazeApi.Billing.PreConsume

/-!
# Overdraft by concurrent pre-charges

The comparison of a balance and its charge are two calls, and the charge is a
plain subtraction.  Two requests that both compare before either charges can
take more than there is.

What a request takes is exact all the same: in every reachable state the wallet
is what it was less the sessions created, and a token what it was less the
charges held.  So nothing is overdrawn as long as every charge still finds the
amount it takes; and with no store error, once all requests have returned,
nothing is overdrawn only then.
-/

namespace DazeApi.Billing.PreConsume

/-! ## The property -/

/-- The request charges the token `k`. -/
def Request.on (r : Request) (k : Nat) : Bool := r.tokenId = k && !r.isPlayground

def Proc.isCreated : Proc → Bool
  | .created _ _ => true
  | _ => false

/-- A session on the token `k` has been created. -/
def Proc.isCreatedOn (k : Nat) : Proc → Bool
  | .created r _ => r.on k
  | _ => false

/-- The amount a created session has taken of the wallet. -/
def Proc.amount : Proc → Int
  | .created _ session => session.preConsumedQuota
  | _ => 0

/-- The amount a created session has taken of the token `k`. -/
def Proc.amountOn (k : Nat) : Proc → Int
  | .created r session => if r.on k then session.preConsumedQuota else 0
  | _ => 0

/-- The sessions created took no more than there was. -/
def NoOverdraft (cfg : Config) (wallet : Int) (tokens : Nat → TokenBalance) (s : State) : Prop :=
  ((∃ p ∈ s.procs, p.isCreated = true) → Pool.total Proc.amount s.procs ≤ wallet) ∧
  ∀ k, cfg.unlimited k = false → (∃ p ∈ s.procs, p.isCreatedOn k = true) →
    Pool.total (Proc.amountOn k) s.procs ≤ (tokens k).live

/-- Every request has a positive estimate and is not trusted. -/
def inScope (cfg : Config) (s : State) : Act → Bool
  | .start r _ =>
      r.preConsumedQuota > 0 && !shouldTrust cfg.env (r.info cfg s.wallet)
  | _ => true

/-- A charge finds the amount it takes. -/
def covered (cfg : Config) (s : State) : Act → Bool
  | .chargeToken i err =>
      match s.procs[i]? with
      | some (.tokenChecked r q) =>
          err.isSome || cfg.unlimited r.tokenId || q ≤ (s.tokens r.tokenId).live
      | _ => true
  | .chargeWallet i err =>
      match s.procs[i]? with
      | some (.tokenCharged _ q _) => err.isSome || q ≤ s.wallet
      | _ => true
  | _ => true

/-! ## What is taken -/

/-- The charge of the token `k` that a request holds. -/
def Proc.hold (k : Nat) : Proc → Int
  | .tokenCharged r q _ => if r.on k then q else 0
  | .rollingBack r q _ _ => if r.on k then q else 0
  | .created r session => if r.on k then session.preConsumedQuota else 0
  | .rejected r _ kept => if r.on k then kept else 0
  | _ => 0

/-- What the stages of a request in scope say.  A charge is held by a request
that did not get its session only after a store error. -/
def Proc.Ok (failed : Bool) : Proc → Prop
  | .checked r q => 0 < q ∧ r.isPlayground = false
  | .tokenChecked r q => 0 < q ∧ r.isPlayground = false
  | .tokenCharged _ q session => 0 < q ∧ session.tokenConsumed = q
  | .rollingBack r q session _ =>
      0 < q ∧ session.tokenConsumed = q ∧ r.isPlayground = false ∧ failed = true
  | .created _ session => 0 < session.preConsumedQuota
  | .rejected _ _ kept => kept = 0 ∨ 0 < kept ∧ failed = true

theorem Proc.Ok.mono {p : Proc} {failed failed' : Bool} (h : p.Ok failed)
    (hf : failed = true → failed' = true) : p.Ok failed' := by
  cases p with
  | rollingBack r q session e => exact ⟨h.1, h.2.1, h.2.2.1, hf h.2.2.2⟩
  | rejected r e kept => exact h.imp id fun h => ⟨h.1, hf h.2⟩
  | _ => exact h

theorem Proc.Ok.hold_nonneg {p : Proc} {failed : Bool} (h : p.Ok failed) (k : Nat) :
    0 ≤ p.hold k := by
  cases p <;> simp only [Proc.hold, Proc.Ok] at h ⊢ <;> omega

theorem Proc.Ok.amountOn_le_hold {p : Proc} {failed : Bool} (h : p.Ok failed) (k : Nat) :
    p.amountOn k ≤ p.hold k := by
  cases p with
  | created r session => exact Int.le_refl _
  | _ => exact h.hold_nonneg k

/-- The balances are what they were less what was taken. -/
structure Taken (wallet : Int) (tokens : Nat → TokenBalance) (s : State) : Prop where
  ok : ∀ p ∈ s.procs, p.Ok s.failed
  wallet_eq : s.wallet = wallet - Pool.total Proc.amount s.procs
  tokens_eq : ∀ k, (s.tokens k).live = (tokens k).live - Pool.total (Proc.hold k) s.procs

@[simp] theorem live_move (batch : Bool) (b : TokenBalance) (delta : Int) :
    (b.move batch delta).live = b.live + delta := by
  cases batch <;> simp [TokenBalance.move, TokenBalance.live] <;> omega

/-- An update of the token of a request moves the tokens the request is on. -/
theorem live_setToken_move (s : State) {r : Request} (hpg : r.isPlayground = false) (batch : Bool)
    (delta : Int) (k : Nat) :
    ((s.setToken r.tokenId ((s.tokens r.tokenId).move batch delta)).tokens k).live =
      (s.tokens k).live + if r.on k then delta else 0 := by
  simp only [State.setToken, Function.update_apply, Request.on, hpg]
  by_cases hk : k = r.tokenId
  · subst hk
    simp
  · simp [hk, Ne.symm hk]

/-- A flush moves the pending delta into the row, and no live balance. -/
theorem live_setToken_flush (s : State) (k k' : Nat) :
    ((s.setToken k ⟨(s.tokens k).live, 0⟩).tokens k').live = (s.tokens k').live := by
  simp only [State.setToken, Function.update_apply]
  split
  next hk => simp [TokenBalance.live, hk]
  next => rfl

section

variable {cfg : Config} {w : Int} {tok : Nat → TokenBalance} {s s' t : State} {a : Act} {i : Nat}
  {p q : Proc}

/-- A request moves on, and the balances move with what it has taken. -/
theorem Taken.move (h : Taken w tok s) (hp : s.procs[i]? = some p)
    (hprocs : t.procs = s.procs.set i q) (hf : s.failed = true → t.failed = true)
    (hok : q.Ok t.failed) (hw : t.wallet = s.wallet - (q.amount - p.amount))
    (ht : ∀ k, (t.tokens k).live = (s.tokens k).live - (q.hold k - p.hold k)) :
    Taken w tok t where
  ok := by
    rw [hprocs]
    exact Pool.forall_set (fun r hr => (h.ok r hr).mono hf) hok
  wallet_eq := by
    rw [hw, hprocs, Pool.total_set _ q hp, h.wallet_eq]
    omega
  tokens_eq := by
    intro k
    rw [ht k, hprocs, Pool.total_set _ q hp, h.tokens_eq k]
    omega

/-- A request that has taken nothing moves on and takes nothing. -/
theorem Taken.goto (h : Taken w tok s) (hp : s.procs[i]? = some p) (err : StoreErr)
    (hok : q.Ok (s.failed || err.isSome)) (ha : q.amount = p.amount)
    (hh : ∀ k, q.hold k = p.hold k) : Taken w tok ((s.answered err).goto i q) := by
  refine h.move hp rfl (fun hf => by simp [State.goto, State.answered, hf]) hok ?_ ?_
  · simp only [State.goto, State.answered, ha]
    omega
  · intro k
    simp only [State.goto, State.answered, hh]
    omega

/-- The first stage of a request in scope has taken nothing. -/
theorem startProc_ok (cfg : Config) (s : State) {r : Request} {err : StoreErr} (failed : Bool)
    (hs : inScope cfg s (.start r err) = true) :
    (startProc cfg r s.wallet err).Ok failed ∧ (startProc cfg r s.wallet err).amount = 0 ∧
      ∀ k, (startProc cfg r s.wallet err).hold k = 0 := by
  simp only [inScope, Bool.and_eq_true, decide_eq_true_eq, Bool.not_eq_true'] at hs
  obtain ⟨hpos, htrust⟩ := hs
  cases err with
  | some e => simp [startProc, Proc.Ok, Proc.amount, Proc.hold]
  | none =>
      simp only [startProc, htrust, Bool.not_false, Bool.true_and, Bool.false_eq_true, if_false,
        decide_eq_true_eq, if_pos hpos]
      split
      next => simp [Proc.Ok, Proc.amount, Proc.hold]
      next =>
        split
        next => simp [Proc.Ok, Proc.amount, Proc.hold]
        next =>
          split
          next hpg => simp [Proc.Ok, Proc.amount, Proc.hold, Request.on, hpg, hpos]
          next hpg => exact ⟨⟨hpos, by simpa using hpg⟩, rfl, fun _ => rfl⟩

theorem readTokenProc_ok (cfg : Config) {r : Request} {amount : Int} (remain : Int)
    (err : StoreErr) (failed : Bool) (h : (Proc.checked r amount).Ok failed) :
    (readTokenProc cfg r amount remain err).Ok failed ∧
      (readTokenProc cfg r amount remain err).amount = 0 ∧
      ∀ k, (readTokenProc cfg r amount remain err).hold k = 0 := by
  cases err with
  | some e => simp [readTokenProc, Proc.Ok, Proc.amount, Proc.hold]
  | none =>
      simp only [readTokenProc]
      split
      next => simp [Proc.Ok, Proc.amount, Proc.hold]
      next => exact ⟨h, rfl, fun _ => rfl⟩

/-- Every step in scope moves the balances by what it takes. -/
theorem Taken.step (h : Taken w tok s) (hsc : inScope cfg s a = true) (hs : Step cfg s a s') :
    Taken w tok s' := by
  cases hs with
  | start =>
      rename_i r err
      have hstart := fun failed => startProc_ok cfg s failed hsc
      refine ⟨?_, ?_, ?_⟩
      · refine Pool.forall_start (fun p hp => (h.ok p hp).mono ?_) (hstart _).1
        intro hf
        simp [State.answered, hf]
      · simp only [State.answered, Pool.total_start, (hstart false).2.1, add_zero]
        exact h.wallet_eq
      · intro k
        simp only [State.answered, Pool.total_start, (hstart false).2.2 k, add_zero]
        exact h.tokens_eq k
  | readToken hp =>
      obtain ⟨hok, ha, hh⟩ := readTokenProc_ok cfg _ _ _ (h.ok _ (Pool.mem_of_get hp))
      refine h.goto hp _ (hok.mono ?_) ha hh
      intro hf
      simp [hf]
  | tokenCharged hp =>
      rename_i i r amount
      obtain ⟨hpos, hpg⟩ := h.ok _ (Pool.mem_of_get hp)
      refine h.move hp rfl id ⟨hpos, rfl⟩ (by simp [State.goto, State.setToken, Proc.amount]) ?_
      intro k
      have hlive := live_setToken_move s hpg cfg.batchUpdateEnabled (-amount) k
      simp only [State.goto, Proc.hold]
      rw [hlive]
      split <;> omega
  | tokenRefused hp _ => exact h.goto hp _ (Or.inl rfl) rfl (by simp [Proc.hold])
  | walletFree hp hq => exact absurd (h.ok _ (Pool.mem_of_get hp)).1 (by omega)
  | walletCharged hp =>
      obtain ⟨hpos, -⟩ := h.ok _ (Pool.mem_of_get hp)
      refine h.move hp rfl id hpos (by simp [State.goto, Proc.amount]) ?_
      intro k
      simp [State.goto, Proc.hold]
  | walletRefused hp herr =>
      rename_i i err r amount session e
      obtain ⟨hpos, htc⟩ := h.ok _ (Pool.mem_of_get hp)
      have hgt : session.tokenConsumed > 0 := by omega
      cases hpg : r.isPlayground with
      | true =>
          simp only [Bool.not_true, Bool.and_false, Bool.false_eq_true, if_false]
          exact h.goto hp _ (Or.inl rfl) rfl (by simp [Proc.hold, Request.on, hpg])
      | false =>
          simp only [hgt, decide_true, Bool.not_false, Bool.and_self, if_true]
          exact h.goto hp _ ⟨hpos, htc, hpg, by simp [herr]⟩ rfl (fun _ => rfl)
  | rolledBack hp =>
      rename_i i r amount session e
      obtain ⟨hpos, htc, hpg, hf⟩ := h.ok _ (Pool.mem_of_get hp)
      refine h.move hp rfl id (Or.inl rfl) (by simp [State.goto, State.setToken, Proc.amount]) ?_
      intro k
      have hlive := live_setToken_move s hpg cfg.batchUpdateEnabled session.tokenConsumed k
      simp only [State.goto, Proc.hold]
      rw [hlive]
      split <;> omega
  | notRolledBack hp herr =>
      obtain ⟨hpos, htc, hpg, hf⟩ := h.ok _ (Pool.mem_of_get hp)
      refine h.goto hp _ (Or.inr ⟨by omega, by simp [hf]⟩) rfl ?_
      intro k
      simp only [Proc.hold, htc]
  | flushToken =>
      rename_i k
      refine ⟨h.ok, h.wallet_eq, fun k' => ?_⟩
      rw [live_setToken_flush s k k']
      exact h.tokens_eq k'

/-! ## Covered charges -/

/-- Where something has been taken, the balance is not negative. -/
structure Solvent (cfg : Config) (s : State) : Prop where
  wallet : (∃ p ∈ s.procs, p.isCreated = true) → 0 ≤ s.wallet
  token : ∀ k, cfg.unlimited k = false → (∃ p ∈ s.procs, 0 < p.hold k) → 0 ≤ (s.tokens k).live

/-- A balance that only grows, and of which nothing new is taken, stays solvent. -/
theorem Solvent.of_le (h : Solvent cfg s)
    (hcr : (∃ p ∈ t.procs, p.isCreated = true) → ∃ p ∈ s.procs, p.isCreated = true)
    (hhold : ∀ k, (∃ p ∈ t.procs, 0 < p.hold k) → ∃ p ∈ s.procs, 0 < p.hold k)
    (hw : s.wallet ≤ t.wallet) (ht : ∀ k, (s.tokens k).live ≤ (t.tokens k).live) :
    Solvent cfg t where
  wallet hc := Int.le_trans (h.wallet (hcr hc)) hw
  token k hk hp := Int.le_trans (h.token k hk (hhold k hp)) (ht k)

theorem startProc_isCreated (cfg : Config) (r : Request) (userQuota : Int) (err : StoreErr) :
    (startProc cfg r userQuota err).isCreated = false := by
  cases err with
  | some e => rfl
  | none =>
      simp only [startProc]
      split_ifs <;> rfl

theorem readTokenProc_isCreated (cfg : Config) (r : Request) (amount remain : Int)
    (err : StoreErr) : (readTokenProc cfg r amount remain err).isCreated = false := by
  cases err with
  | some e => rfl
  | none =>
      simp only [readTokenProc]
      split <;> rfl

/-- A request moves on without a new charge. -/
theorem Solvent.goto (h : Solvent cfg s) (hp : s.procs[i]? = some p)
    (hprocs : t.procs = s.procs.set i q) (hcr : q.isCreated = true → p.isCreated = true)
    (hh : ∀ k, q.hold k ≤ p.hold k) (hw : t.wallet = s.wallet)
    (ht : ∀ k, (s.tokens k).live ≤ (t.tokens k).live) : Solvent cfg t := by
  refine h.of_le ?_ ?_ (Int.le_of_eq hw.symm) ht
  · rw [hprocs]
    exact Pool.exists_of_set hp hcr
  · intro k
    rw [hprocs]
    exact Pool.exists_of_set hp fun hq => Int.lt_of_lt_of_le hq (hh k)

/-- A covered step keeps the balances solvent. -/
theorem Solvent.step (h : Solvent cfg s) (hT : Taken w tok s) (hsc : inScope cfg s a = true)
    (hc : covered cfg s a = true) (hs : Step cfg s a s') : Solvent cfg s' := by
  cases hs with
  | start =>
      rename_i r err
      obtain ⟨-, -, hh⟩ := startProc_ok cfg s false hsc
      refine h.of_le ?_ ?_ (Int.le_refl _) fun _ => Int.le_refl _
      · exact Pool.exists_of_start (by simp [startProc_isCreated])
      · intro k
        exact Pool.exists_of_start (by simp [hh k])
  | readToken hp =>
      rename_i i hit err r amount
      obtain ⟨-, -, hh⟩ := readTokenProc_ok cfg
        ((s.tokens r.tokenId).read cfg.redisEnabled hit) err _ (hT.ok _ (Pool.mem_of_get hp))
      exact h.goto hp rfl (by simp [readTokenProc_isCreated]) (fun k => Int.le_of_eq (hh k)) rfl
        fun _ => Int.le_refl _
  | tokenCharged hp =>
      rename_i i r amount
      obtain ⟨hpos, hpg⟩ := hT.ok _ (Pool.mem_of_get hp)
      refine ⟨fun hex => h.wallet (Pool.exists_of_set hp (by simp [Proc.isCreated]) hex), ?_⟩
      intro k hk hex
      have hlive := live_setToken_move s hpg cfg.batchUpdateEnabled (-amount) k
      simp only [State.goto]
      rw [hlive]
      by_cases hon : r.on k = true
      · have htk : r.tokenId = k := by
          simp only [Request.on, Bool.and_eq_true, decide_eq_true_eq] at hon
          exact hon.1
        have hcov : amount ≤ (s.tokens k).live := by
          simpa [covered, hp, htk, hk] using hc
        rw [if_pos hon]
        omega
      · have := h.token k hk (Pool.exists_of_set hp (by simp [Proc.hold, hon]) hex)
        rw [if_neg hon]
        omega
  | tokenRefused hp _ =>
      exact h.goto hp rfl (by simp [Proc.isCreated]) (by simp [Proc.hold]) rfl
        fun _ => Int.le_refl _
  | walletFree hp hq => exact absurd (hT.ok _ (Pool.mem_of_get hp)).1 (by omega)
  | walletCharged hp =>
      have hcov := by simpa [covered, hp] using hc
      refine ⟨fun _ => by simp only [State.goto]; omega, ?_⟩
      intro k hk hex
      exact h.token k hk (Pool.exists_of_set hp (by simp [Proc.hold]) hex)
  | walletRefused hp herr =>
      rename_i i err r amount session e
      obtain ⟨hpos, htc⟩ := hT.ok _ (Pool.mem_of_get hp)
      refine h.goto hp rfl ?_ ?_ rfl fun _ => Int.le_refl _
      · split <;> simp [Proc.isCreated]
      · intro k
        split
        next => exact Int.le_refl _
        next =>
          simp only [Proc.hold]
          split <;> omega
  | rolledBack hp =>
      rename_i i r amount session e
      obtain ⟨hpos, htc, hpg, hf⟩ := hT.ok _ (Pool.mem_of_get hp)
      refine h.goto hp rfl (by simp [Proc.isCreated]) ?_ rfl ?_
      · intro k
        simp only [Proc.hold]
        split <;> omega
      · intro k
        have hlive := live_setToken_move s hpg cfg.batchUpdateEnabled session.tokenConsumed k
        simp only [State.goto]
        rw [hlive]
        split <;> omega
  | notRolledBack hp herr =>
      obtain ⟨hpos, htc, hpg, hf⟩ := hT.ok _ (Pool.mem_of_get hp)
      refine h.goto hp rfl (by simp [Proc.isCreated]) ?_ rfl fun _ => Int.le_refl _
      intro k
      simp only [Proc.hold, htc, Int.le_refl]
  | flushToken =>
      refine h.of_le id (fun _ => id) (Int.le_refl _) ?_
      intro k'
      exact Int.le_of_eq (live_setToken_flush s _ k').symm

/-- Where the balances are solvent, no more was taken than there was. -/
theorem Solvent.noOverdraft (h : Solvent cfg s) (hT : Taken w tok s) :
    NoOverdraft cfg w tok s := by
  refine ⟨?_, ?_⟩
  · intro hex
    have := h.wallet hex
    have := hT.wallet_eq
    omega
  · rintro k hk ⟨p, hp, hpc⟩
    have hpos : 0 < p.hold k := by
      have hok := hT.ok p hp
      cases p with
      | created r session =>
          simp only [Proc.isCreatedOn] at hpc
          simp only [Proc.hold, if_pos hpc]
          exact hok
      | _ => cases hpc
    have hle : Pool.total (Proc.amountOn k) s.procs ≤ Pool.total (Proc.hold k) s.procs :=
      Pool.total_le_total fun r hr => (hT.ok r hr).amountOn_le_hold k
    have := h.token k hk ⟨p, hp, hpos⟩
    have := hT.tokens_eq k
    omega

/-! ## Charges that are not covered -/

/-- A store call has failed, or a balance of which something was taken is
negative. -/
def Overdrawn (cfg : Config) (s : State) : Prop :=
  s.failed = true ∨ ((∃ p ∈ s.procs, p.isCreated = true) ∧ s.wallet < 0) ∨
    ∃ k, cfg.unlimited k = false ∧ (∃ p ∈ s.procs, 0 < p.hold k) ∧ (s.tokens k).live < 0

/-- Without a store error no step gives anything back. -/
structure Grows (s t : State) : Prop where
  created : (∃ p ∈ s.procs, p.isCreated = true) → ∃ p ∈ t.procs, p.isCreated = true
  hold : ∀ k, (∃ p ∈ s.procs, 0 < p.hold k) → ∃ p ∈ t.procs, 0 < p.hold k
  wallet : t.wallet ≤ s.wallet
  token : ∀ k, (t.tokens k).live ≤ (s.tokens k).live

/-- A request that moves on without a store error. -/
theorem Grows.goto (hp : s.procs[i]? = some p) (hprocs : t.procs = s.procs.set i q)
    (hcr : p.isCreated = true → q.isCreated = true) (hh : ∀ k, p.hold k ≤ q.hold k)
    (hw : t.wallet ≤ s.wallet) (ht : ∀ k, (t.tokens k).live ≤ (s.tokens k).live) : Grows s t where
  created := by
    rw [hprocs]
    exact Pool.exists_set hp hcr
  hold k := by
    rw [hprocs]
    exact Pool.exists_set hp fun hq => Int.lt_of_lt_of_le hq (hh k)
  wallet := hw
  token := ht

theorem Step.grows (hT : Taken w tok s) (hs : Step cfg s a s')
    (hf : s'.failed = false) : Grows s s' := by
  cases hs with
  | start =>
      exact ⟨Pool.exists_start, fun _ => Pool.exists_start, Int.le_refl _, fun _ => Int.le_refl _⟩
  | readToken hp =>
      obtain ⟨-, -, hh⟩ := readTokenProc_ok cfg _ _ _ (hT.ok _ (Pool.mem_of_get hp))
      exact .goto hp rfl (by simp [Proc.isCreated]) (fun k => Int.le_of_eq (hh k).symm)
        (Int.le_refl _) fun _ => Int.le_refl _
  | tokenCharged hp =>
      rename_i i r amount
      obtain ⟨hpos, hpg⟩ := hT.ok _ (Pool.mem_of_get hp)
      refine .goto hp rfl (by simp [Proc.isCreated]) ?_ (Int.le_refl _) ?_
      · intro k
        simp only [Proc.hold]
        split <;> omega
      · intro k
        have hlive := live_setToken_move s hpg cfg.batchUpdateEnabled (-amount) k
        simp only [State.goto]
        rw [hlive]
        split <;> omega
  | tokenRefused hp _ =>
      exact .goto hp rfl (by simp [Proc.isCreated]) (by simp [Proc.hold]) (Int.le_refl _)
        fun _ => Int.le_refl _
  | walletFree hp hq => exact absurd (hT.ok _ (Pool.mem_of_get hp)).1 (by omega)
  | walletCharged hp =>
      obtain ⟨hpos, -⟩ := hT.ok _ (Pool.mem_of_get hp)
      refine .goto hp rfl (by simp [Proc.isCreated]) (by simp [Proc.hold]) ?_
        fun _ => Int.le_refl _
      simp only [State.goto]
      omega
  | walletRefused hp herr => simp [State.goto, State.answered, herr] at hf
  | rolledBack hp =>
      obtain ⟨-, -, -, hfail⟩ := hT.ok _ (Pool.mem_of_get hp)
      simp [State.goto, State.setToken, hfail] at hf
  | notRolledBack hp herr =>
      obtain ⟨-, -, -, hfail⟩ := hT.ok _ (Pool.mem_of_get hp)
      simp [State.goto, State.answered, hfail] at hf
  | flushToken =>
      refine ⟨id, fun _ => id, Int.le_refl _, ?_⟩
      intro k'
      exact Int.le_of_eq (live_setToken_flush s _ k')

theorem Overdrawn.step (h : Overdrawn cfg s) (hT : Taken w tok s)
    (hs : Step cfg s a s') : Overdrawn cfg s' := by
  cases hf : s'.failed with
  | true => exact Or.inl hf
  | false =>
      have hg := hs.grows hT hf
      rcases h with h | ⟨hex, hw⟩ | ⟨k, hk, hex, hlt⟩
      · have hmono : s'.failed = true := by
          cases hs <;> simp [State.goto, State.answered, State.setToken, h]
        rw [hf] at hmono
        cases hmono
      · exact Or.inr (Or.inl ⟨hg.created hex, Int.lt_of_le_of_lt hg.wallet hw⟩)
      · exact Or.inr (Or.inr ⟨k, hk, hg.hold k hex, Int.lt_of_le_of_lt (hg.token k) hlt⟩)

/-- A charge that is not covered overdraws. -/
theorem overdrawn_of_not_covered (hT : Taken w tok s) (hc : ¬ covered cfg s a = true)
    (hs : Step cfg s a s') : Overdrawn cfg s' := by
  cases hs with
  | tokenCharged hp =>
      rename_i i r amount
      obtain ⟨hpos, hpg⟩ := hT.ok _ (Pool.mem_of_get hp)
      have hun : cfg.unlimited r.tokenId = false ∧ (s.tokens r.tokenId).live < amount := by
        simpa [covered, hp] using hc
      have hon : r.on r.tokenId = true := by simp [Request.on, hpg]
      refine Or.inr (Or.inr ⟨r.tokenId, hun.1, ⟨_, Pool.mem_of_get (Pool.get_set_self hp), ?_⟩, ?_⟩)
      · simpa [Proc.hold, hon] using hpos
      · have hlive := live_setToken_move s hpg cfg.batchUpdateEnabled (-amount) r.tokenId
        simp only [State.goto]
        rw [hlive, if_pos hon]
        omega
  | tokenRefused hp herr =>
      obtain ⟨hpos, -⟩ := hT.ok _ (Pool.mem_of_get hp)
      have hsome := herr.resolve_left (by omega)
      simp [covered, hp, hsome] at hc
  | walletFree hp hq => exact absurd (hT.ok _ (Pool.mem_of_get hp)).1 (by omega)
  | walletCharged hp =>
      have hlt := by simpa [covered, hp] using hc
      refine Or.inr (Or.inl ⟨⟨_, Pool.mem_of_get (Pool.get_set_self hp), rfl⟩, ?_⟩)
      simp only [State.goto]
      omega
  | walletRefused hp herr => simp [covered, hp, herr] at hc
  | _ => exact absurd rfl hc

/-- Every request has returned. -/
def State.AllReturned (s : State) : Prop :=
  ∀ p ∈ s.procs, (∃ r session, p = .created r session) ∨ ∃ r e kept, p = .rejected r e kept

/-- With all requests returned and no store error, a charge is held by a created
session. -/
theorem hold_eq_amountOn (hT : Taken w tok s) (hd : s.AllReturned) (hf : s.failed = false)
    (hp : p ∈ s.procs) (k : Nat) : p.hold k = p.amountOn k := by
  have hok := hT.ok p hp
  rcases hd p hp with ⟨r, session, rfl⟩ | ⟨r, e, kept, rfl⟩
  · rfl
  · have hkept : kept = 0 := by
      rcases hok with h0 | ⟨-, hfail⟩
      · exact h0
      · rw [hf] at hfail
        cases hfail
    simp [Proc.hold, Proc.amountOn, hkept]

theorem Overdrawn.not_noOverdraft (h : Overdrawn cfg s) (hT : Taken w tok s)
    (hd : s.AllReturned) (hf : s.failed = false) : ¬ NoOverdraft cfg w tok s := by
  rintro ⟨hw, ht⟩
  rcases h with h | ⟨hex, hlt⟩ | ⟨k, hk, ⟨p, hp, hpos⟩, hlt⟩
  · rw [hf] at h
    cases h
  · have := hw hex
    have := hT.wallet_eq
    omega
  · have hcr : p.isCreatedOn k = true := by
      rw [hold_eq_amountOn hT hd hf hp k] at hpos
      cases p with
      | created r session =>
          by_contra hn
          simp [Proc.isCreatedOn] at hn
          simp [Proc.amountOn, hn] at hpos
      | _ => simp [Proc.amountOn] at hpos
    have heq : Pool.total (Proc.amountOn k) s.procs = Pool.total (Proc.hold k) s.procs :=
      Int.le_antisymm
        (Pool.total_le_total fun r hr => Int.le_of_eq (hold_eq_amountOn hT hd hf hr k).symm)
        (Pool.total_le_total fun r hr => Int.le_of_eq (hold_eq_amountOn hT hd hf hr k))
    have := ht k hk ⟨p, hp, hcr⟩
    have := hT.tokens_eq k
    omega

end

/-! ## Runs -/

theorem taken_initial (wallet : Int) (tokens : Nat → TokenBalance) :
    Taken wallet tokens (initial wallet tokens) :=
  ⟨by simp [initial], by simp [initial], by simp [initial]⟩

theorem solvent_initial (cfg : Config) (wallet : Int) (tokens : Nat → TokenBalance) :
    Solvent cfg (initial wallet tokens) :=
  ⟨by simp [initial], by simp [initial]⟩

/-- For requests with positive estimates that are not trusted: as long as every
charge finds the amount it takes, the sessions created take no more than the
wallet and their tokens had; and with no store error, when all requests have
returned, they do so only then. -/
theorem noOverdraft_iff_covered (cfg : Config) (wallet : Int) (tokens : Nat → TokenBalance)
    (as : List Act) (s : State)
    (hsc : Run.Along (step cfg) (fun s a => inScope cfg s a = true) (initial wallet tokens) as)
    (h : Run.exec (step cfg) (initial wallet tokens) as = some s) :
    (Run.Along (step cfg) (fun s a => covered cfg s a = true) (initial wallet tokens) as →
      NoOverdraft cfg wallet tokens s) ∧
    (s.failed = false → s.AllReturned → NoOverdraft cfg wallet tokens s →
      Run.Along (step cfg) (fun s a => covered cfg s a = true) (initial wallet tokens) as) := by
  have hT : Taken wallet tokens s :=
    Run.exec_invariant (fun _ _ _ hI hP hs => hI.step hP (step_inv hs))
      (taken_initial wallet tokens) hsc h
  refine ⟨fun hcov => ?_, fun hf hd hno => ?_⟩
  · have hI : Taken wallet tokens s ∧ Solvent cfg s :=
      Run.exec_invariant (I := fun s => Taken wallet tokens s ∧ Solvent cfg s)
        (fun _ _ _ hI hP hs => ⟨hI.1.step hP.1 (step_inv hs),
          hI.2.step hI.1 hP.1 hP.2 (step_inv hs)⟩)
        ⟨taken_initial wallet tokens, solvent_initial cfg wallet tokens⟩ (hsc.and hcov) h
    exact hI.2.noOverdraft hT
  · have hor := Run.along_or (I := Taken wallet tokens) (Q := Overdrawn cfg)
      (fun _ _ _ hI hR hs => hI.step hR (step_inv hs))
      (fun _ _ _ hI _ hn hs => overdrawn_of_not_covered hI hn (step_inv hs))
      (fun _ _ _ hI _ hQ hs => hQ.step hI (step_inv hs)) as _ _
      (taken_initial wallet tokens) hsc h
    rcases hor with hcov | hover
    · exact hcov
    · exact absurd hno (hover.not_noOverdraft hT hd hf)

/-! ## Two requests -/

def plainConfig : Config where
  env := ⟨0, fun q => toString q⟩
  unlimited := fun _ => false
  redisEnabled := false
  batchUpdateEnabled := false

/-- A request for 80 on the token 3. -/
def eighty : Request := ⟨3, false, false, 0, 80⟩

/-- Two requests that each compare before either of them charges. -/
def racing : List Act :=
  [.start eighty none, .start eighty none, .readToken 0 false none, .readToken 1 false none,
   .chargeToken 0 none, .chargeWallet 0 none, .chargeToken 1 none, .chargeWallet 1 none]

/-- A user with 200 can pay for both. -/
theorem noOverdraft_racing :
    ∃ s, Run.exec (step plainConfig) (initial 200 fun _ => ⟨500, 0⟩) racing = some s ∧
      s.wallet = 40 ∧ NoOverdraft plainConfig 200 (fun _ => ⟨500, 0⟩) s := by
  obtain ⟨s, hs, hw⟩ := Run.exists_of_any (step plainConfig) (initial 200 fun _ => ⟨500, 0⟩)
    racing (fun s => s.wallet = 40) (by decide +kernel)
  exact ⟨s, hs, of_decide_eq_true hw, (noOverdraft_iff_covered plainConfig 200 _ racing s
    (by decide +kernel) hs).1 (by decide +kernel)⟩

/-- A user with 100 gets two sessions of 80. -/
theorem racing_overdraws :
    ¬ ∀ (cfg : Config) (wallet : Int) (tokens : Nat → TokenBalance) (as : List Act) (s : State),
      Run.Along (step cfg) (fun s a => inScope cfg s a = true) (initial wallet tokens) as →
      Run.exec (step cfg) (initial wallet tokens) as = some s →
      NoOverdraft cfg wallet tokens s := by
  intro h
  obtain ⟨s, hs, hend⟩ := Run.exists_of_any (step plainConfig) (initial 100 fun _ => ⟨500, 0⟩)
    racing (fun s => Pool.total Proc.amount s.procs = 160 ∧ ∃ p ∈ s.procs, p.isCreated = true)
    (by decide +kernel)
  obtain ⟨htotal, hcr⟩ := of_decide_eq_true hend
  have hle := (h plainConfig 100 _ racing s (by decide +kernel) hs).1 hcr
  rw [htotal] at hle
  exact absurd hle (by decide)

end DazeApi.Billing.PreConsume
