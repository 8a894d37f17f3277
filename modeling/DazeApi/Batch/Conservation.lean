import DazeApi.Batch.Update

/-!
# Conservation of batched deltas

A delta given to `addNewRecord` is in one of four places: still in the map of its
type, in a map that a run of `batchUpdate` has taken out, in the database, or
lost with a statement that failed.  This balance holds in every reachable state.
So with no run under way the database and the maps together hold everything that
was recorded exactly if no delta was lost; a failed statement is logged and its
map, which is no longer in the store, is dropped.
-/

namespace DazeApi.Batch

/-! ## The property -/

/-- No run of `batchUpdate` is under way. -/
def State.AtRest (s : State) : Prop := ∀ f ∈ s.flushes, f = .returned

instance (s : State) : Decidable s.AtRest :=
  inferInstanceAs (Decidable (∀ f ∈ s.flushes, f = .returned))

/-- In the row `id`, every column of the type and the delta still pending for it
make up the initial value and all deltas recorded. -/
def State.Conserved (db : Sql.Db) (ty : BatchUpdateType) (id : Int) (s : State) : Prop :=
  ∀ col ∈ ty.columns, ∀ v₀, Sql.value db col.table id col.name = some v₀ →
    ∃ v, Sql.value s.db col.table id col.name = some v ∧
      v + col.sign * pendingBatchDelta true s ty id = v₀ + col.sign * s.recorded ty id

/-- A statement that fails carries no delta for the row `id`. -/
def keeps (ty : BatchUpdateType) (id : Int) (s : State) : Act → Bool
  | .send i _ err =>
      match s.flushes[i]? with
      | some (.sending ty' store _) => !err || ty' ≠ ty || store.delta id = 0
      | _ => true
  | _ => true

/-! ## The balance -/

/-- The delta for the row `id` in a map that a run has taken out. -/
def Flush.inFlight (ty : BatchUpdateType) (id : Int) : Flush → Int
  | .sending ty' store _ => if ty = ty' then store.delta id else 0
  | _ => 0

/-- The deltas recorded for the row `id` that are in none of the other places. -/
def State.applied (s : State) (ty : BatchUpdateType) (id : Int) : Int :=
  s.recorded ty id - (s.stores ty).delta id - Pool.total (Flush.inFlight ty id) s.flushes -
    s.lost ty id

/-- The database has every delta that is nowhere else. -/
def State.Balanced (db : Sql.Db) (s : State) : Prop :=
  ∀ ty, ∀ col ∈ ty.columns, ∀ id, Sql.value s.db col.table id col.name =
    (Sql.value db col.table id col.name).map (· + col.sign * s.applied ty id)

theorem inFlight_lookOn (ty : BatchUpdateType) (id : Int) (store : Store)
    (rest : List BatchUpdateType) : (lookOn store rest).inFlight ty id = 0 := by
  simp only [lookOn]
  split <;> rfl

/-- A map that was taken out is in flight, and an empty one has nothing to carry. -/
theorem inFlight_sendOn (ty ty' : BatchUpdateType) (id : Int) (store : Store)
    (rest : List BatchUpdateType) :
    (sendOn ty' store rest).inFlight ty id = if ty = ty' then store.delta id else 0 := by
  simp only [sendOn]
  split
  next hlen =>
    have hd : store.delta id = 0 := by
      simp [Store.delta, AList.lookup, List.eq_nil_of_length_eq_zero hlen]
    simp [Flush.inFlight, hd]
  next => rfl

section

variable {db : Sql.Db} {s s' : State} {a : Act} {i : Nat} {f g : Flush}

/-- A run that moves on without touching anything keeps the balance. -/
theorem State.Balanced.move (h : s.Balanced db) (hf : s.flushes[i]? = some f)
    (hfl : ∀ ty id, g.inFlight ty id = f.inFlight ty id) : (s.goto i g).Balanced db := by
  intro ty col hcol id
  have happ : (s.goto i g).applied ty id = s.applied ty id := by
    simp only [State.applied, State.goto, Pool.total_set _ g hf, hfl]
    omega
  rw [happ]
  exact h ty col hcol id

/-- A change of maps, ghosts and runs that leaves what is applied keeps the balance. -/
theorem State.Balanced.of_applied {t : State} (h : s.Balanced db) (hdb : t.db = s.db)
    (happ : ∀ ty id, t.applied ty id = s.applied ty id) : t.Balanced db := by
  intro ty col hcol id
  rw [hdb, happ]
  exact h ty col hcol id

/-- A statement that succeeds moves the deltas it carries into the database. -/
theorem State.Balanced.sent {now : Int} {ty : BatchUpdateType} {store : Store}
    {rest : List BatchUpdateType} (h : s.Balanced db)
    (hf : s.flushes[i]? = some (.sending ty store rest)) :
    ({ s with db := (batchSQL now store ty).exec s.db }.goto i (.swapping rest)).Balanced db := by
  intro ty' col hcol id
  have happ : ({ s with db := (batchSQL now store ty).exec s.db }.goto i
      (.swapping rest)).applied ty' id =
        s.applied ty' id + if ty' = ty then store.delta id else 0 := by
    simp only [State.applied, State.goto, Pool.total_set _ (.swapping rest) hf, Flush.inFlight]
    omega
  rw [happ]
  by_cases hty : ty' = ty
  · subst hty
    refine (value_batchSQL s.db now store hcol id).trans ?_
    rw [h ty' col hcol id, Option.map_map]
    congr 1
    funext v
    simp only [Function.comp, if_true, Int.mul_add]
    omega
  · refine (value_batchSQL_other s.db now store (Ne.symm hty) hcol id).trans ?_
    rw [h ty' col hcol id]
    simp [hty]

/-- Every step keeps the balance. -/
theorem State.Balanced.step (h : s.Balanced db) (hs : Step s a s') : s'.Balanced db := by
  cases hs with
  | addNewRecord =>
      rename_i ty id value
      refine h.of_applied rfl fun ty' id' => ?_
      simp only [State.applied, credit, Function.update_apply]
      by_cases hty : ty' = ty
      · subst hty
        simp only [if_true, Store.delta_addNewRecord]
        omega
      · simp [hty]
  | start =>
      refine h.of_applied rfl fun ty id => ?_
      simp only [State.applied, Pool.total_start, Flush.inFlight]
      omega
  | lookEnd hf => exact h.move hf fun _ _ => rfl
  | look hf => exact h.move hf fun ty id => inFlight_lookOn ty id _ _
  | swapEnd hf => exact h.move hf fun _ _ => rfl
  | swap hf =>
      rename_i i ty rest
      refine h.of_applied rfl fun ty' id => ?_
      simp only [State.applied, State.goto, Function.update_apply, inFlight_sendOn,
        Pool.total_set _ (sendOn ty (s.stores ty) rest) hf]
      by_cases hty : ty' = ty
      · subst hty
        simp only [if_true, Store.delta_empty, Flush.inFlight]
        omega
      · simp only [hty, if_false, Flush.inFlight]
        omega
  | sent hf => exact h.sent hf
  | failed hf =>
      refine h.of_applied rfl fun ty' id => ?_
      simp only [State.applied, State.goto, credit, Pool.total_set _ (.swapping _) hf,
        Flush.inFlight]
      omega

theorem balanced_initial (db : Sql.Db) : (initial db).Balanced db := by
  intro ty col _ id
  simp [initial, State.applied]

/-- The balance holds in every reachable state. -/
theorem balanced_of_run {as : List Act} (h : Run.exec Batch.step (initial db) as = some s) :
    s.Balanced db :=
  Run.exec_always (fun _ _ _ hI hs => hI.step (step_inv hs)) (balanced_initial db) h

/-! ## At rest -/

/-- With no run under way, what the database and the maps do not hold is lost. -/
theorem State.Balanced.conserved_of_lost {ty : BatchUpdateType} {id : Int} (h : s.Balanced db)
    (hrest : s.AtRest) (hlost : s.lost ty id = 0) : s.Conserved db ty id := by
  intro col hcol v₀ hv₀
  have hfl : Pool.total (Flush.inFlight ty id) s.flushes = 0 :=
    Pool.total_eq_zero _ fun f hf => by
      rw [hrest f hf]
      rfl
  have happ : s.applied ty id = s.recorded ty id - (s.stores ty).delta id := by
    simp only [State.applied, hfl, hlost]
    omega
  refine ⟨v₀ + col.sign * s.applied ty id, ?_, ?_⟩
  · rw [h ty col hcol id, hv₀]
    rfl
  · simp only [pendingBatchDelta, if_true, happ, Int.mul_sub]
    omega

/-- A step whose failing statement carries nothing for the row loses nothing of it. -/
theorem lost_step {ty : BatchUpdateType} {id : Int} (hlost : s.lost ty id = 0)
    (hk : keeps ty id s a = true) (hs : Step s a s') : s'.lost ty id = 0 := by
  cases hs with
  | failed hf =>
      rename_i i now ty' store rest
      simp only [State.goto, credit, hlost, zero_add]
      split
      next hty =>
        subst hty
        simpa [keeps, hf] using hk
      next => rfl
  | _ => exact hlost

/-- With no run of `batchUpdate` under way, and as long as no statement that
failed carried a delta for the row: the database value and the pending delta make
up the initial value and all deltas recorded, in every column of the type. -/
theorem conserved_of_keeps (db : Sql.Db) (ty : BatchUpdateType) (id : Int) (as : List Act)
    (s : State)
    (hk : Run.Along Batch.step (fun s a => keeps ty id s a = true) (initial db) as)
    (h : Run.exec Batch.step (initial db) as = some s) (hrest : s.AtRest) :
    s.Conserved db ty id := by
  have hlost : s.lost ty id = 0 :=
    Run.exec_invariant (I := fun s => s.lost ty id = 0)
      (fun _ _ _ hI hP hs => lost_step hI hP (step_inv hs)) rfl hk h
  exact (balanced_of_run h).conserved_of_lost hrest hlost

end

/-! ## Runs -/

/-- A database with one user and one token. -/
def smallDb : Sql.Db := fun table id =>
  if table = "users" ∧ id = 7 then
    some fun c => if c = "quota" then some 1000 else some 0
  else if table = "tokens" ∧ id = 3 then
    some fun c => if c = "remain_quota" then some 500 else some 0
  else none

/-- Charges to the user and the token are flushed while a further charge comes
in; `userErr` says whether the statement for the users fails. -/
def flushRun (userErr : Bool) : List Act :=
  [.addNewRecord .userQuota 7 (-100), .addNewRecord .tokenQuota 3 (-100), .start, .look 0,
   .swap 0, .addNewRecord .userQuota 7 (-20), .send 0 1800000000 userErr,
   .swap 0, .send 0 1800000000 false, .swap 0, .swap 0, .swap 0, .swap 0]

/-- The statement for the users fails, which loses nothing of the token. -/
theorem conserved_flushRun :
    ∃ s, Run.exec step (initial smallDb) (flushRun true) = some s ∧
      s.Conserved smallDb .tokenQuota 3 := by
  obtain ⟨s, hs, hrest⟩ := Run.exists_of_any step (initial smallDb) (flushRun true)
    (fun s => s.AtRest) (by decide +kernel)
  exact ⟨s, hs, conserved_of_keeps smallDb .tokenQuota 3 (flushRun true) s (by decide +kernel) hs
    (of_decide_eq_true hrest)⟩

/-- The failed statement takes the charge of 100 with it: the database still has
1000, 20 are pending, and 120 were recorded. -/
theorem not_conserved_flushRun :
    ¬ ∀ (db : Sql.Db) (ty : BatchUpdateType) (id : Int) (as : List Act) (s : State),
      Run.exec step (initial db) as = some s → s.AtRest → s.Conserved db ty id := by
  intro h
  obtain ⟨s, hs, hend⟩ := Run.exists_of_any step (initial smallDb) (flushRun true)
    (fun s => s.AtRest ∧ Sql.value s.db "users" 7 "quota" = some 1000 ∧
      pendingBatchDelta true s .userQuota 7 = -20 ∧ s.recorded .userQuota 7 = -120)
    (by decide +kernel)
  obtain ⟨hrest, hv, hp, hr⟩ := of_decide_eq_true hend
  obtain ⟨v, hv', heq⟩ := h smallDb .userQuota 7 (flushRun true) s hs hrest
    ⟨"users", "quota", 1⟩ (by decide) 1000 (by decide)
  rw [hv] at hv'
  cases hv'
  rw [hp, hr] at heq
  exact absurd heq (by decide)

end DazeApi.Batch
