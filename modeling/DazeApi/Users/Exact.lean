import DazeApi.Users.Rebuild

/-!
# What a rebuild stores

The row and the map are read at two moments, while `batchUpdate` moves deltas from
one to the other.  A delta is never counted twice, since the row is read first.  But
it is missed when `batchUpdate` has taken it out of the map and its statement has not
run yet: before the rebuild reads the row, or between the two reads.  `untorn` leaves
these moments out, and then the value stored counts every delta recorded before the
rebuild read the row, and some of those recorded since.
-/

namespace DazeApi.Users.Rebuild

open DazeApi.Batch

/-! ## The property -/

/-- The value counts every delta recorded before the rebuild read the row, and some of
those recorded since. -/
def Stored.Exact (initial : Int) (r : Stored) : Prop :=
  ∃ seen : List Int, seen.Sublist r.during ∧ r.value = initial + r.before.sum + seen.sum

/-- What the map holds for a user of the deltas recorded before `began`. -/
def State.heldBefore (s : State) (id : Int) (began : Nat) : Int :=
  (queued id ((s.log.take began).drop s.swapped)).sum

/-- No delta is out of the map and not yet in the row while a rebuild needs it: no run
of `batchUpdate` carries one when a rebuild reads the row, and none takes one out
before the rebuild has read the map. -/
def untorn (s : State) : Act → Bool
  | .proc i err =>
      match s.procs[i]? with
      | some (.loading _ id) =>
          err || Pool.total (Flush.inFlight .userQuota id) s.batch.flushes = 0
      | _ => true
  | .batch a =>
      !swapsUserQuota s.batch a || s.procs.all fun
        | .loaded _ user began => s.heldBefore user.id began = 0
        | _ => true
  | _ => true

/-! ## Sums over the log -/

theorem deltas_append (id : Int) (l m : List Entry) :
    deltas id (l ++ m) = deltas id l ++ deltas id m := by
  simp [deltas]

theorem queued_append (id : Int) (l m : List Entry) :
    queued id (l ++ m) = queued id l ++ queued id m := by
  simp [queued]

theorem direct_append (id : Int) (l m : List Entry) :
    direct id (l ++ m) = direct id l ++ direct id m := by
  simp [direct]

/-- A delta is queued or written at once. -/
theorem sum_deltas (id : Int) (log : List Entry) :
    (deltas id log).sum = (queued id log).sum + (direct id log).sum := by
  induction log with
  | nil => rfl
  | cons e log ih =>
      have hcons : ∀ f : List Entry → List Int, (∀ l m, f (l ++ m) = f l ++ f m) →
          (f (e :: log)).sum = (f [e]).sum + (f log).sum := by
        intro f hf
        rw [← List.singleton_append, hf, List.sum_append]
      rw [hcons _ (deltas_append id), hcons _ (queued_append id), hcons _ (direct_append id), ih]
      have hone : (deltas id [e]).sum = (queued id [e]).sum + (direct id [e]).sum := by
        by_cases hid : e.id = id <;> cases hd : e.direct <;>
          simp [deltas, queued, direct, hid, hd]
      rw [hone]
      omega

theorem queued_sublist (id : Int) (log : List Entry) :
    (queued id log).Sublist (deltas id log) := by
  refine List.Sublist.map _ ?_
  refine List.monotone_filter_right _ ?_
  intro e he
  simp only [Bool.and_eq_true] at he
  exact he.1

theorem deltas_drop_sublist (id : Int) (log : List Entry) {m n : Nat} (h : m ≤ n) :
    (deltas id (log.drop n)).Sublist (deltas id (log.drop m)) := by
  refine List.Sublist.map _ (List.Sublist.filter _ ?_)
  exact List.drop_sublist_drop_left log h

/-- What the map holds is what it held before `began`, and what came since. -/
theorem sum_queued_drop (s : State) (id : Int) {began : Nat} (hb : began ≤ s.log.length) :
    (queued id (s.log.drop s.swapped)).sum =
      s.heldBefore id began + (queued id (s.log.drop (max s.swapped began))).sum := by
  have hsplit : s.log.drop s.swapped =
      (s.log.take began).drop s.swapped ++ s.log.drop (max s.swapped began) := by
    rcases Nat.le_total s.swapped began with hle | hle
    · rw [Nat.max_eq_right hle]
      conv_lhs => rw [← List.take_append_drop began s.log]
      rw [List.drop_append_of_le_length (by simp; omega)]
    · rw [Nat.max_eq_left hle]
      have hnil : (s.log.take began).drop s.swapped = [] := by
        rw [List.drop_eq_nil_iff]
        simp
        omega
      rw [hnil, List.nil_append]
  rw [State.heldBefore, hsplit, queued_append, List.sum_append]

/-! ## The invariant -/

/-- What the stages of a rebuild say of the user's initial quota `v₀`. -/
def Proc.Ok (db : Sql.Db) (s : State) : Proc → Prop
  | .loaded _ user began =>
      began ≤ s.log.length ∧ ∀ v₀, Sql.value db "users" user.id "quota" = some v₀ →
        user.quota + s.heldBefore user.id began = v₀ + (deltas user.id (s.log.take began)).sum
  | .storing _ user began =>
      began ≤ s.log.length ∧ ∀ v₀, Sql.value db "users" user.id "quota" = some v₀ →
        ∃ seen : List Int, seen.Sublist (deltas user.id (s.log.drop began)) ∧
          user.quota = v₀ + (deltas user.id (s.log.take began)).sum + seen.sum
  | _ => True

/-- The database holds what was written at once, on top of what the updater's balance
says; the map holds what was queued since the last swap. -/
structure Inv (db : Sql.Db) (s : State) : Prop where
  balanced : ∃ base, s.batch.Balanced base ∧ ∀ id, Sql.value base "users" id "quota" =
    (Sql.value db "users" id "quota").map (· + (direct id s.log).sum)
  recorded : ∀ id, s.batch.recorded .userQuota id = (queued id s.log).sum
  lost : ∀ id, s.batch.lost .userQuota id = 0
  pending : ∀ id, (s.batch.stores .userQuota).delta id = (queued id (s.log.drop s.swapped)).sum
  swapped_le : s.swapped ≤ s.log.length
  procs : ∀ p ∈ s.procs, p.Ok db s
  stored : ∀ r ∈ s.stored, ∀ v₀, Sql.value db "users" r.id "quota" = some v₀ → r.Exact v₀

section

variable {db : Sql.Db} {s t : State} {i : Nat} {p q : Proc}

/-- A stage says the same of a state with the same log. -/
theorem Proc.Ok.of_log_eq (h : p.Ok db s) (hlog : t.log = s.log) (hsw : t.swapped = s.swapped) :
    p.Ok db t := by
  cases p with
  | loaded by_ user began => simpa only [Proc.Ok, State.heldBefore, hlog, hsw] using h
  | storing by_ user began => simpa only [Proc.Ok, hlog] using h
  | _ => trivial

/-- A stage outlives a record. -/
theorem Proc.Ok.record (h : p.Ok db s) {e : Entry} (hlog : t.log = s.log ++ [e])
    (hsw : t.swapped = s.swapped) : p.Ok db t := by
  cases p with
  | loaded by_ user began =>
      obtain ⟨hb, hv⟩ := h
      refine ⟨by simp only [hlog, List.length_append]; omega, ?_⟩
      simpa only [State.heldBefore, hlog, hsw, List.take_append_of_le_length hb] using hv
  | storing by_ user began =>
      obtain ⟨hb, hv⟩ := h
      refine ⟨by simp only [hlog, List.length_append]; omega, ?_⟩
      intro v₀ hv₀
      obtain ⟨seen, hsub, hq⟩ := hv v₀ hv₀
      refine ⟨seen, ?_, ?_⟩
      · simp only [hlog, List.drop_append_of_le_length hb, deltas_append]
        exact hsub.trans (List.sublist_append_left _ _)
      · simpa only [hlog, List.take_append_of_le_length hb] using hq
  | _ => trivial

/-- An execution moves on, and the cache may change. -/
theorem Inv.goto (h : Inv db s) (hbatch : t.batch = s.batch) (hlog : t.log = s.log)
    (hsw : t.swapped = s.swapped) (hst : t.stored = s.stored)
    (hprocs : t.procs = s.procs.set i q) (hq : q.Ok db s) : Inv db t where
  balanced := by rw [hbatch, hlog]; exact h.balanced
  recorded := by rw [hbatch, hlog]; exact h.recorded
  lost := by rw [hbatch]; exact h.lost
  pending := by rw [hbatch, hlog, hsw]; exact h.pending
  swapped_le := by rw [hsw, hlog]; exact h.swapped_le
  procs := by
    rw [hprocs]
    exact Pool.forall_set (fun p hp => (h.procs p hp).of_log_eq hlog hsw) (hq.of_log_eq hlog hsw)
  stored := by rw [hst]; exact h.stored

theorem Inv.start (h : Inv db s) (hq : q.Ok db s) : Inv db (s.start q) where
  balanced := h.balanced
  recorded := h.recorded
  lost := h.lost
  pending := h.pending
  swapped_le := h.swapped_le
  procs := Pool.forall_start h.procs hq
  stored := h.stored

/-! ## Reading the row and the map -/

/-- The row of a user with nothing in flight lacks what the map holds. -/
theorem Inv.row (h : Inv db s) {id v₀ : Int} (hv₀ : Sql.value db "users" id "quota" = some v₀)
    (hfl : Pool.total (Flush.inFlight .userQuota id) s.batch.flushes = 0) :
    ∃ v, Sql.value s.batch.db "users" id "quota" = some v ∧
      v + s.heldBefore id s.log.length = v₀ + (deltas id s.log).sum := by
  obtain ⟨base, hbal, hbase⟩ := h.balanced
  have hcol : (⟨"users", "quota", 1⟩ : Column) ∈ BatchUpdateType.userQuota.columns := by
    simp [BatchUpdateType.columns]
  have hrow := hbal .userQuota _ hcol id
  rw [hbase, hv₀] at hrow
  refine ⟨_, hrow, ?_⟩
  have hheld : s.heldBefore id s.log.length = (queued id (s.log.drop s.swapped)).sum := by
    simp [State.heldBefore]
  simp only [State.applied, h.recorded, h.lost, h.pending, hfl, hheld, sum_deltas]
  omega

/-- The user that a rebuild loads is the user it was asked for. -/
theorem load_eq {d : Sql.Db} {id : Int} {by_ : Rebuilder} {user : UserBase}
    (h : load d id by_ = some user) :
    user.id = id ∧ ∀ v, Sql.value d "users" id "quota" = some v → user.quota = v := by
  cases by_ with
  | getUserCache caller =>
      simp only [load, getUserById] at h
      split at h
      next => cases h
      next =>
        obtain ⟨quota, hq, rfl⟩ := Option.map_eq_some_iff.1 h
        refine ⟨rfl, fun v hv => ?_⟩
        rw [hq] at hv
        exact Option.some.inj hv
  | getUserQuota =>
      cases h
      refine ⟨rfl, fun v hv => ?_⟩
      simp [hv]

/-- A rebuild that reads the row with nothing in flight. -/
theorem Inv.loaded (h : Inv db s) {id : Int} {by_ : Rebuilder} {user : UserBase}
    (hl : load s.batch.db id by_ = some user)
    (hfl : Pool.total (Flush.inFlight .userQuota id) s.batch.flushes = 0) :
    (Proc.loaded by_ user s.log.length).Ok db s := by
  obtain ⟨rfl, hquota⟩ := load_eq hl
  refine ⟨Nat.le_refl _, ?_⟩
  intro v₀ hv₀
  obtain ⟨v, hv, heq⟩ := h.row hv₀ hfl
  rw [hquota v hv, List.take_length]
  exact heq

/-- A rebuild that then reads the map. -/
theorem Inv.summed (h : Inv db s) {by_ : Rebuilder} {user : UserBase} {began : Nat}
    (hp : (Proc.loaded by_ user began).Ok db s) :
    (Proc.storing by_
      { user with
        quota := user.quota + pendingBatchDelta true s.batch .userQuota user.id } began).Ok db s := by
  obtain ⟨hb, hv⟩ := hp
  refine ⟨hb, ?_⟩
  intro v₀ hv₀
  refine ⟨queued user.id (s.log.drop (max s.swapped began)), ?_, ?_⟩
  · exact (queued_sublist _ _).trans (deltas_drop_sublist _ _ (Nat.le_max_right _ _))
  · have hsum := sum_queued_drop s user.id hb
    have hold := hv v₀ hv₀
    simp only [pendingBatchDelta, if_true, h.pending]
    omega

/-- A rebuild stores its sum. -/
theorem Inv.rebuilt (h : Inv db s) {by_ : Rebuilder} {user : UserBase} {began : Nat}
    (hp : (Proc.storing by_ user began).Ok db s) (hq : q.Ok db s) :
    Inv db ((s.rebuilt by_ user began).goto i q) where
  balanced := h.balanced
  recorded := h.recorded
  lost := h.lost
  pending := h.pending
  swapped_le := h.swapped_le
  procs :=
    Pool.forall_set (fun p hp => (h.procs p hp).of_log_eq rfl rfl) (hq.of_log_eq rfl rfl)
  stored := by
    intro r hr v₀ hv₀
    rcases List.mem_append.1 hr with hr | hr
    · exact h.stored r hr v₀ hv₀
    · cases List.mem_singleton.1 hr
      exact hp.2 v₀ hv₀

/-! ## Records -/

/-- A delta that goes into the map. -/
theorem Inv.recordQueued (h : Inv db s) {id delta : Int} {b : Batch.State}
    (hb : Batch.step s.batch (.addNewRecord .userQuota id delta) = some b) (hq : q.Ok db s) :
    Inv db ((s.record b ⟨id, delta, false⟩).goto i q) := by
  have hstep := Batch.step_inv hb
  obtain ⟨base, hbal, hbase⟩ := h.balanced
  cases hb
  refine ⟨⟨base, hbal.step hstep, ?_⟩, ?_, h.lost, ?_, ?_, ?_, h.stored⟩
  · intro k
    have hone : direct k [⟨id, delta, false⟩] = [] := by simp [direct]
    simp only [State.goto, State.record, direct_append, hone, List.append_nil]
    exact hbase k
  · intro k
    simp only [State.goto, State.record, credit, queued_append, List.sum_append, h.recorded]
    by_cases hk : k = id
    · simp [hk, queued]
    · simp [hk, Ne.symm hk, queued]
  · intro k
    simp only [State.goto, State.record, Function.update_self, Store.delta_addNewRecord,
      List.drop_append_of_le_length h.swapped_le, queued_append, List.sum_append, h.pending]
    by_cases hk : k = id
    · simp [hk, queued]
    · simp [hk, Ne.symm hk, queued]
  · have := h.swapped_le
    simp only [State.goto, State.record, List.length_append]
    omega
  · exact Pool.forall_set (fun p hp => (h.procs p hp).record rfl rfl) (hq.record rfl rfl)

theorem value_updateQuota (d : Sql.Db) (id delta k : Int) :
    Sql.value (updateQuota d id delta) "users" k "quota" =
      (Sql.value d "users" k "quota").map (· + if k = id then delta else 0) := by
  by_cases hk : k = id
  · subst hk
    cases hrow : d "users" k with
    | none => simp [Sql.value, updateQuota, hrow]
    | some row => simp [Sql.value, updateQuota, hrow]
  · simp [Sql.value, updateQuota, hk]

theorem value_updateQuota_other (d : Sql.Db) (id delta k : Int) {table column : String}
    (h : table ≠ "users" ∨ column ≠ "quota") :
    Sql.value (updateQuota d id delta) table k column = Sql.value d table k column := by
  simp only [Sql.value, updateQuota]
  split
  next ht =>
    have hc := h.resolve_left (not_not_intro ht.1)
    cases d table k with
    | none => rfl
    | some row => simp [hc]
  next => rfl

/-- A delta written to the row at once moves the row and the base of the balance
alike. -/
theorem balanced_updateQuota {b : Batch.State} {base : Sql.Db} (h : b.Balanced base)
    (id delta : Int) :
    ({ b with db := updateQuota b.db id delta } : Batch.State).Balanced
      (updateQuota base id delta) := by
  intro ty col hcol k
  have happ : ({ b with db := updateQuota b.db id delta } : Batch.State).applied ty k =
      b.applied ty k := rfl
  rw [happ]
  by_cases hq : col.table = "users" ∧ col.name = "quota"
  · have hrow := h ty col hcol k
    rw [hq.1, hq.2] at hrow ⊢
    rw [value_updateQuota, value_updateQuota, hrow, Option.map_map, Option.map_map]
    congr 1
    funext v
    simp only [Function.comp]
    omega
  · have hor : col.table ≠ "users" ∨ col.name ≠ "quota" := by
      by_cases ht : col.table = "users"
      · exact Or.inr fun hc => hq ⟨ht, hc⟩
      · exact Or.inl ht
    rw [value_updateQuota_other _ _ _ _ hor, value_updateQuota_other _ _ _ _ hor]
    exact h ty col hcol k

/-- A delta that is written to the row at once. -/
theorem Inv.recordDirect (h : Inv db s) (id delta : Int) (hq : q.Ok db s) :
    Inv db ((s.record { s.batch with db := updateQuota s.batch.db id delta }
      ⟨id, delta, true⟩).goto i q) := by
  obtain ⟨base, hbal, hbase⟩ := h.balanced
  have hone : ∀ k, queued k [⟨id, delta, true⟩] = [] := fun k => by simp [queued]
  refine ⟨⟨_, balanced_updateQuota hbal id delta, ?_⟩, ?_, h.lost, ?_, ?_, ?_, h.stored⟩
  · intro k
    rw [value_updateQuota, hbase, Option.map_map]
    congr 1
    funext v
    simp only [Function.comp, State.goto, State.record, direct_append, List.sum_append]
    by_cases hk : k = id
    · simp [hk, direct]
      omega
    · simp [hk, Ne.symm hk, direct]
  · intro k
    simp only [State.goto, State.record, queued_append, hone, List.append_nil]
    exact h.recorded k
  · intro k
    simp only [State.goto, State.record, List.drop_append_of_le_length h.swapped_le,
      queued_append, hone, List.append_nil]
    exact h.pending k
  · have := h.swapped_le
    simp only [State.goto, State.record, List.length_append]
    omega
  · exact Pool.forall_set (fun p hp => (h.procs p hp).record rfl rfl) (hq.record rfl rfl)

/-! ## Steps of the updater -/

/-- The updater's steps leave the map of user quotas alone, or take it out. -/
theorem userQuota_of_step {b b' : Batch.State} {a : Batch.Act} (ha : allowed a = true)
    (h : Batch.step b a = some b') :
    b'.recorded .userQuota = b.recorded .userQuota ∧ b'.lost .userQuota = b.lost .userQuota ∧
      b'.stores .userQuota = if swapsUserQuota b a then ∅ else b.stores .userQuota := by
  cases Batch.step_inv h with
  | addNewRecord =>
      rename_i ty id value
      have hty : BatchUpdateType.userQuota ≠ ty := by
        rintro rfl
        simp [allowed] at ha
      refine ⟨?_, rfl, ?_⟩
      · funext k
        simp [credit, hty]
      · simp [swapsUserQuota, hty]
  | start => exact ⟨rfl, rfl, rfl⟩
  | lookEnd hf => exact ⟨rfl, rfl, rfl⟩
  | look hf => exact ⟨rfl, rfl, rfl⟩
  | swapEnd hf =>
      refine ⟨rfl, rfl, ?_⟩
      simp [swapsUserQuota, hf, Batch.State.goto]
  | swap hf =>
      rename_i i ty rest
      refine ⟨rfl, rfl, ?_⟩
      cases ty <;> simp [swapsUserQuota, hf, Batch.State.goto]
  | sent hf => exact ⟨rfl, rfl, rfl⟩
  | failed hf => simp [allowed] at ha

/-- The map is taken out while no rebuild needs what it holds. -/
theorem Proc.Ok.swap (h : p.Ok db s) {b : Batch.State}
    (hheld : ∀ by_ user began, p = .loaded by_ user began → s.heldBefore user.id began = 0) :
    p.Ok db { s with batch := b, swapped := s.log.length } := by
  cases p with
  | loaded by_ user began =>
      obtain ⟨hb, hv⟩ := h
      refine ⟨hb, ?_⟩
      intro v₀ hv₀
      have hold := hv v₀ hv₀
      rw [hheld by_ user began rfl] at hold
      have hnil : (s.log.take began).drop s.log.length = [] := by
        rw [List.drop_eq_nil_iff, List.length_take]
        omega
      simpa [State.heldBefore, hnil, queued] using hold
  | _ => exact h

theorem Inv.batch (h : Inv db s) {a : Batch.Act} {b : Batch.State} (ha : allowed a = true)
    (hu : untorn s (.batch a) = true) (hs : Batch.step s.batch a = some b) :
    Inv db { s with
      batch := b
      swapped := if swapsUserQuota s.batch a then s.log.length else s.swapped } := by
  obtain ⟨base, hbal, hbase⟩ := h.balanced
  obtain ⟨hrec, hlost, hstores⟩ := userQuota_of_step ha hs
  refine ⟨⟨base, hbal.step (Batch.step_inv hs), hbase⟩, ?_, ?_, ?_, ?_, ?_, h.stored⟩
  · intro id
    simp only [hrec]
    exact h.recorded id
  · intro id
    simp only [hlost]
    exact h.lost id
  · intro id
    simp only [hstores]
    cases hsw : swapsUserQuota s.batch a with
    | true => simp [queued]
    | false => simpa using h.pending id
  · have := h.swapped_le
    simp only
    split <;> omega
  · intro p hp
    cases hsw : swapsUserQuota s.batch a with
    | true =>
        refine (h.procs p hp).swap ?_
        rintro by_ user began rfl
        simp only [untorn, hsw, Bool.not_true, Bool.false_or, List.all_eq_true] at hu
        simpa using hu _ hp
    | false => exact (h.procs p hp).of_log_eq rfl rfl

/-! ## Runs -/

theorem Caller.onUser_ok (caller : Caller) (id : Int) : (caller.onUser id).Ok db s := by
  cases caller <;> trivial

theorem Rebuilder.onError_ok (by_ : Rebuilder) (id : Int) : (by_.onError id).Ok db s := by
  cases by_ with
  | getUserCache caller => cases caller <;> trivial
  | getUserQuota => trivial

theorem Rebuilder.onStored_ok (by_ : Rebuilder) (id : Int) : (by_.onStored id).Ok db s := by
  cases by_ with
  | getUserCache caller => exact caller.onUser_ok id
  | getUserQuota => trivial

theorem Inv.readCache (h : Inv db s) (caller : Caller) (id : Int) :
    Inv db (readCache s i caller id) := by
  simp only [Rebuild.readCache]
  split
  next => exact h.goto rfl rfl rfl rfl rfl trivial
  next =>
    split
    next => exact h.goto rfl rfl rfl rfl rfl (caller.onUser_ok id)
    next => exact h.goto rfl rfl rfl rfl rfl trivial

/-- The next call of an execution keeps the invariant. -/
theorem Inv.stepProc (h : Inv db s) {err : Bool} (hp : s.procs[i]? = some p)
    (hu : untorn s (.proc i err) = true) (hs : stepProc s i err p = some t) : Inv db t := by
  have hok := h.procs p (Pool.mem_of_get hp)
  cases p with
  | incrementing id delta db' =>
      simp only [Rebuild.stepProc] at hs
      split at hs
      next => cases hs; exact h.goto rfl rfl rfl rfl rfl trivial
      next =>
        split at hs
        next => cases hs; exact h.goto rfl rfl rfl rfl rfl trivial
        next => cases hs; exact h.goto rfl rfl rfl rfl rfl trivial
  | reading caller id =>
      simp only [Rebuild.stepProc] at hs
      split at hs
      next => cases hs; exact h.goto rfl rfl rfl rfl rfl trivial
      next => cases hs; exact h.readCache caller id
  | invalidating caller id =>
      simp only [Rebuild.stepProc] at hs
      split at hs
      next => cases hs; exact h.goto rfl rfl rfl rfl rfl trivial
      next => cases hs; exact h.goto rfl rfl rfl rfl rfl trivial
  | loading by_ id =>
      simp only [Rebuild.stepProc] at hs
      split at hs
      next => cases hs; exact h.goto rfl rfl rfl rfl rfl (by_.onError_ok id)
      next herr =>
        split at hs
        next => cases hs; exact h.goto rfl rfl rfl rfl rfl (by_.onError_ok id)
        next user hl =>
          cases hs
          have hfl : Pool.total (Flush.inFlight .userQuota id) s.batch.flushes = 0 := by
            simpa [untorn, hp, herr] using hu
          exact h.goto rfl rfl rfl rfl rfl (h.loaded hl hfl)
  | loaded by_ user began =>
      cases hs
      exact h.goto rfl rfl rfl rfl rfl (h.summed hok)
  | storing by_ user began =>
      simp only [Rebuild.stepProc] at hs
      split at hs
      next => cases hs; exact h.goto rfl rfl rfl rfl rfl (by_.onStored_ok user.id)
      next => cases hs; exact h.rebuilt hok (by_.onStored_ok user.id)
  | retrying id delta db' =>
      simp only [Rebuild.stepProc] at hs
      split at hs
      next => cases hs; exact h.goto rfl rfl rfl rfl rfl trivial
      next => cases hs; exact h.goto rfl rfl rfl rfl rfl trivial
  | recording id delta db' =>
      simp only [Rebuild.stepProc] at hs
      split at hs
      next =>
        split at hs
        next => cases hs; exact h.goto rfl rfl rfl rfl rfl trivial
        next => cases hs; exact h.recordDirect id delta trivial
      next =>
        obtain ⟨b, hb, rfl⟩ := Option.map_eq_some_iff.1 hs
        exact h.recordQueued hb trivial
  | returned => cases hs

theorem Inv.step {a : Act} (h : Inv db s) (hu : untorn s a = true)
    (hs : Rebuild.step s a = some t) : Inv db t := by
  cases a with
  | increaseUserQuota id quota db' =>
      cases hs
      refine h.start ?_
      split <;> trivial
  | decreaseUserQuota id quota =>
      cases hs
      refine h.start ?_
      split <;> trivial
  | getUserQuota id fromDB =>
      cases hs
      refine h.start ?_
      split <;> trivial
  | getUserCache id =>
      cases hs
      exact h.start trivial
  | proc i err =>
      obtain ⟨p, hp, hs⟩ := Option.bind_eq_some_iff.1 hs
      exact h.stepProc hp hu hs
  | batch a =>
      simp only [Rebuild.step] at hs
      split at hs
      next ha =>
        obtain ⟨b, hb, rfl⟩ := Option.map_eq_some_iff.1 hs
        exact h.batch ha hu hb
      next => cases hs
  | expire id =>
      cases hs
      exact ⟨h.balanced, h.recorded, h.lost, h.pending, h.swapped_le,
        fun p hp => (h.procs p hp).of_log_eq rfl rfl, h.stored⟩

theorem inv_initial (db : Sql.Db) : Inv db (initial db) := by
  refine ⟨⟨db, balanced_initial db, ?_⟩, ?_, ?_, ?_, ?_, ?_, ?_⟩
  · intro id
    simp [initial, direct]
  · intro id
    simp [initial, Batch.initial, queued]
  · intro id
    simp [initial, Batch.initial]
  · intro id
    simp [initial, Batch.initial, queued]
  · exact Nat.le_refl _
  · intro p hp
    cases hp
  · intro r hr
    cases hr

end

/-- As long as no rebuild meets a delta on its way from the map to the row: what a
rebuild stores is the initial quota, all deltas recorded before it read the row, and
some of those recorded since. -/
theorem exact_of_untorn (db : Sql.Db) (as : List Act) (s : State)
    (hu : Run.Along step (fun s a => untorn s a = true) (initial db) as)
    (h : Run.exec step (initial db) as = some s) :
    ∀ r ∈ s.stored, ∀ v₀, Sql.value db "users" r.id "quota" = some v₀ → r.Exact v₀ :=
  (Run.exec_invariant (I := Inv db) (fun _ _ _ hI hP hs => hI.step hP hs) (inv_initial db)
    hu h).stored

/-! ## Two runs -/

/-- A database with one user, enabled, with a quota of 1000. -/
def oneUser : Sql.Db := fun table id =>
  if table = "users" ∧ id = 7 then
    some fun c => if c = "quota" then some 1000 else some 1
  else none

/-- The user is charged 100 with an empty cache. -/
def charge : List Act :=
  .decreaseUserQuota 7 100 :: List.replicate 7 (.proc 0 false)

/-- `GetUserQuota` starts while `batchUpdate` has the charge out of the map. -/
def tornRun : List Act :=
  charge ++ [.expire 7, .batch .start, .batch (.look 0), .batch (.swap 0),
    .getUserQuota 7 true, .proc 1 false, .proc 1 false, .proc 1 false]

/-- The charge is in the row and a further one comes in between the two reads. -/
def flushedRun : List Act :=
  charge ++ [.expire 7, .batch .start, .batch (.look 0), .batch (.swap 0),
    .batch (.send 0 1800000000 false), .getUserQuota 7 true, .proc 1 false,
    .increaseUserQuota 7 30 false, .proc 2 true, .proc 2 false, .proc 1 false, .proc 1 false]

/-- The value stored counts the charge and the credit that came in between. -/
theorem exact_flushedRun :
    ∃ s, Run.exec step (initial oneUser) flushedRun = some s ∧
      s.stored.map (fun r => (r.value, r.before, r.during)) =
        [(1000, [], []), (930, [-100], [30])] ∧
      ∀ r ∈ s.stored, ∀ v₀, Sql.value oneUser "users" r.id "quota" = some v₀ → r.Exact v₀ := by
  obtain ⟨s, hs, hst⟩ := Run.exists_of_any step (initial oneUser) flushedRun
    (fun s => s.stored.map (fun r => (r.value, r.before, r.during)) =
      [(1000, [], []), (930, [-100], [30])]) (by decide +kernel)
  exact ⟨s, hs, of_decide_eq_true hst,
    exact_of_untorn oneUser flushedRun s (by decide +kernel) hs⟩

/-- The row still has 1000 and the map nothing: the charge of 100 is missed. -/
theorem tornRun_misses_charge :
    ¬ ∀ (db : Sql.Db) (as : List Act) (s : State), Run.exec step (initial db) as = some s →
      ∀ r ∈ s.stored, ∀ v₀, Sql.value db "users" r.id "quota" = some v₀ → r.Exact v₀ := by
  intro h
  obtain ⟨s, hs, hst⟩ := Run.exists_of_any step (initial oneUser) tornRun
    (fun s => s.stored = [⟨7, 1000, [], []⟩, ⟨7, 1000, [-100], []⟩]) (by decide +kernel)
  obtain ⟨seen, hsub, hv⟩ := h oneUser tornRun s hs ⟨7, 1000, [-100], []⟩
    (by simp [of_decide_eq_true hst]) 1000 (by decide)
  cases List.sublist_nil.1 hsub
  exact absurd hv (by decide)

end DazeApi.Users.Rebuild
