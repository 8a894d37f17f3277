import DazeApi.Tasks.System

/-!
# One winner of the guarded update

The part of the polling system that writes the row only through
`UpdateWithStatus`: the timeout sweep, and the video poller on copies that are
not done.  A snapshot may be stale in any way, since other executions may have
moved the row through any number of statuses after it was read.

What makes the guard work is that the row, once done, never again has the status
of a snapshot that was not done.  So the life of the task has three phases:
nobody has won, the winner owes its billing, the winner has billed.
-/

namespace DazeApi.Tasks

/-! ## The restriction -/

/-- The steps of the sweep and of the video poller, the latter on a snapshot that
is not done. -/
def casOnly (s : State) : Act → Bool
  | .sweepLoad _ | .sweepWrite .. | .sweepBill .. => true
  | .pollLoad | .videoWrite .. | .videoBill .. => true
  | .videoAnswer i _ _ =>
      match s.procs[i]? with
      | some (.polled t) => !t.status.isDone
      | _ => true
  | _ => false

/-- The billing an execution still owes, with the copy it bills. -/
def Proc.owes : Proc → Option (Task × VideoBilling)
  | .sweepBilling t => some (t, .refund)
  | .videoBilling t b => some (t, b)
  | _ => none

/-- The call of `UpdateWithStatus` that a label makes: the copy and the expected
status. -/
def State.casCall (s : State) : Act → Option (Task × TaskStatus × Bool)
  | .sweepWrite i minutes now err =>
      match s.procs[i]? with
      | some (.swept t) => some (sweepFail minutes now t, t.status, err)
      | _ => none
  | .videoWrite i err =>
      match s.procs[i]? with
      | some (.videoWriting snap t .transition _) => some (t, snap, err)
      | some (.videoWriting snap t .progress _) => some (t, snap, err)
      | _ => none
  | _ => none

/-- The label calls `UpdateWithStatus`, and the call does not report a win. -/
def State.casLost (s : State) (a : Act) : Prop :=
  ∃ t snap err, s.casCall a = some (t, snap, err) ∧
    (t.updateWithStatus s.row snap err).2 ≠ some true

/-! ## The invariant -/

/-- What the copy of an execution says while only guarded updates are made: a
snapshot is not done, and what is not a transition neither ends the task nor
bills. -/
def Proc.Guarded : Proc → Prop
  | .swept t => t.status.isDone = false
  | .videoWriting snap t w b =>
      snap.isDone = false ∧ (w = .transition ∧ t.status.isDone = true ∨
        w ≠ .transition ∧ t.status.isDone = false ∧ b = .keep)
  | _ => True

/-- The three phases of the task whose accounts were `acc` at submission. -/
inductive Phase (env : PollEnv) (acc : Accounts) (s : State) : Prop where
  /-- Nobody has won. -/
  | unwon : s.wins = [] → s.row.status.isDone = false → s.accounts = acc →
      (∀ p ∈ s.procs, p.owes = none) → Phase env acc s
  /-- The winner `w`, and nobody else, owes a billing. -/
  | owing (w : Win) (p : Proc) : s.wins = [w] → s.row = w.task →
      w.task.status.isDone = true → s.accounts = acc →
      s.procs[w.proc]? = some p → p.owes = some (w.task, w.due) →
      (∀ j q, s.procs[j]? = some q → j ≠ w.proc → q.owes = none) → Phase env acc s
  /-- The winner `w` has billed. -/
  | billed (w : Win) (io : BillingCalls) : s.wins = [w] → s.row = w.task →
      w.task.status.isDone = true →
      s.accounts = (runVideoBilling env w.task acc io w.due).2 →
      (∀ p ∈ s.procs, p.owes = none) → Phase env acc s

/-- The invariant of the guarded part of the system. -/
structure CasInv (env : PollEnv) (acc : Accounts) (s : State) : Prop where
  guarded : ∀ p ∈ s.procs, p.Guarded
  phase : Phase env acc s

section

variable {env : PollEnv} {acc : Accounts} {s s' : State}

/-! ## Steps that keep the phase -/

/-- An execution that owes nothing moves on and owes nothing. -/
theorem Phase.move {i : Nat} {p q : Proc} (h : Phase env acc s) (hp : s.procs[i]? = some p)
    (hpo : p.owes = none) (hqo : q.owes = none) : Phase env acc (s.goto i q) := by
  cases h with
  | unwon hw hr ha ho => exact .unwon hw hr ha (Pool.forall_set ho hqo)
  | billed w io hw hr hd ha ho => exact .billed w io hw hr hd ha (Pool.forall_set ho hqo)
  | owing w pw hw hr hd ha hpw hown hot =>
      have hne : i ≠ w.proc := by
        intro hi
        rw [hi, hpw] at hp
        cases hp
        rw [hpo] at hown
        cases hown
      refine .owing w pw hw hr hd ha ?_ hown ?_
      · exact Pool.get_set_ne hpw hne
      · intro j r hj hjw
        rcases Pool.get_set hj with ⟨-, rfl⟩ | ⟨-, hj⟩
        · exact hqo
        · exact hot j r hj hjw

/-- An execution starts, owing nothing. -/
theorem Phase.start {q : Proc} (h : Phase env acc s) (hqo : q.owes = none) :
    Phase env acc (s.start q) := by
  cases h with
  | unwon hw hr ha ho => exact .unwon hw hr ha (Pool.forall_start ho hqo)
  | billed w io hw hr hd ha ho => exact .billed w io hw hr hd ha (Pool.forall_start ho hqo)
  | owing w pw hw hr hd ha hpw hown hot =>
      refine .owing w pw hw hr hd ha ?_ hown ?_
      · exact Pool.get_start_of_get hpw
      · intro j r hj hjw
        rcases Pool.get_start hj with hj | rfl
        · exact hot j r hj hjw
        · exact hqo

/-- A guarded update from a status that is not done, to one that is not done. -/
theorem Phase.progress {t : Task} {snap : TaskStatus} {err : Bool} (h : Phase env acc s)
    (hsnap : snap.isDone = false) (ht : t.status.isDone = false) :
    Phase env acc { s with row := (t.updateWithStatus s.row snap err).1 } := by
  -- a done row is not in the status of the snapshot, so the update is lost
  have hdone : ∀ row : Task, row.status.isDone = true →
      (t.updateWithStatus row snap err).1 = row := by
    intro row hrow
    refine Task.updateWithStatus_of_lost fun hwon => ?_
    rw [(Task.updateWithStatus_of_won hwon).1, hsnap] at hrow
    cases hrow
  cases h with
  | unwon hw hr ha ho =>
      refine .unwon hw ?_ ha ho
      by_cases hwon : (t.updateWithStatus s.row snap err).2 = some true
      · rw [(Task.updateWithStatus_of_won hwon).2]
        exact ht
      · rw [Task.updateWithStatus_of_lost hwon]
        exact hr
  | owing w p hw hr hd ha hp hown hot =>
      refine .owing w p hw ?_ hd ha hp hown hot
      rw [hr]
      exact hdone w.task hd
  | billed w io hw hr hd ha ho =>
      refine .billed w io hw ?_ hd ha ho
      rw [hr]
      exact hdone w.task hd

/-! ## The win and the billing -/

/-- A win from a snapshot that is not done ends the first phase: what the winner
owes is due, or there is nothing to bill. -/
theorem Phase.win {i : Nat} {p q : Proc} {t : Task} {b : VideoBilling} (h : Phase env acc s)
    (hp : s.procs[i]? = some p) (hsnap : s.row.status.isDone = false)
    (ht : t.status.isDone = true)
    (hq : q.owes = some (t, b) ∨ q.owes = none ∧ b = .keep) :
    Phase env acc ((s.win t ⟨i, t, b⟩).goto i q) := by
  cases h with
  | owing w pw hw hr hd ha hpw hown hot =>
      rw [hr, hd] at hsnap
      cases hsnap
  | billed w io hw hr hd ha ho =>
      rw [hr, hd] at hsnap
      cases hsnap
  | unwon hw hr ha ho =>
      have hwins : ((s.win t ⟨i, t, b⟩).goto i q).wins = [⟨i, t, b⟩] := by
        simp [State.goto, State.win, hw]
      rcases hq with hq | ⟨hq, rfl⟩
      · refine .owing ⟨i, t, b⟩ q hwins rfl ht ha ?_ hq ?_
        · exact Pool.get_set_self hp
        · intro j r hj hjw
          rcases Pool.get_set hj with ⟨hji, -⟩ | ⟨-, hj⟩
          · exact absurd hji hjw
          · exact ho r (Pool.mem_of_get hj)
      · exact .billed ⟨i, t, .keep⟩ ⟨false, "", false⟩ hwins rfl ht ha (Pool.forall_set ho hq)

/-- The only execution that can bill is the winner, and it bills once. -/
theorem Phase.bill {i : Nat} {p q : Proc} {t : Task} {b : VideoBilling} (h : Phase env acc s)
    (hp : s.procs[i]? = some p) (hpo : p.owes = some (t, b)) (hqo : q.owes = none)
    (io : BillingCalls) :
    Phase env acc
      ({ s with accounts := (runVideoBilling env t s.accounts io b).2 }.goto i q) := by
  cases h with
  | unwon hw hr ha ho =>
      rw [ho p (List.mem_of_getElem? hp)] at hpo
      cases hpo
  | billed w io' hw hr hd ha ho =>
      rw [ho p (List.mem_of_getElem? hp)] at hpo
      cases hpo
  | owing w pw hw hr hd ha hpw hown hot =>
      have hi : i = w.proc := by
        by_contra hne
        rw [hot i p hp hne] at hpo
        cases hpo
      subst hi
      rw [hpw] at hp
      cases hp
      rw [hown] at hpo
      cases hpo
      refine .billed w io hw hr hd ?_ ?_
      · simp [State.goto, ha]
      · intro r hr
        rcases Pool.mem_set hr with rfl | ⟨j, hj, hne⟩
        · exact hqo
        · exact hot j r hj hne

/-! ## Steps and runs -/

theorem afterVideoWrite_owes (t : Task) (b : VideoBilling) :
    (afterVideoWrite t b).owes = some (t, b) ∨
      (afterVideoWrite t b).owes = none ∧ b = .keep := by
  cases b with
  | keep => exact Or.inr ⟨rfl, rfl⟩
  | settle ti => exact Or.inl rfl
  | refund => exact Or.inl rfl

theorem afterVideoWrite_guarded (t : Task) (b : VideoBilling) :
    (afterVideoWrite t b).Guarded := by
  cases b <;> trivial

/-- The video poller's write after an answer to a snapshot that is not done. -/
theorem videoWriting_guarded {now : Int} {t t' : Task} {ans : VideoAnswer} {b : VideoBilling}
    (ht : t.status.isDone = false) (h : videoUpdate env now t ans = (t', some b)) :
    (Proc.videoWriting t.status t' (videoWriteOf t t') b).Guarded := by
  refine ⟨ht, ?_⟩
  rcases (videoUpdate_spec h).2.2 with ⟨hnd, hb⟩ | ⟨hst, -⟩ | ⟨hst, -⟩
  · exact Or.inr ⟨videoWriteOf_ne_transition hnd, hnd, hb⟩
  · have hd : t'.status.isDone = true := by rw [hst]; rfl
    exact Or.inl ⟨videoWriteOf_transition ht hd, hd⟩
  · have hd : t'.status.isDone = true := by rw [hst]; rfl
    exact Or.inl ⟨videoWriteOf_transition ht hd, hd⟩

/-- A guarded step keeps the invariant. -/
theorem CasInv.step {a : Act} (h : CasInv env acc s) (hc : casOnly s a = true)
    (hs : Step env s a s') :
    CasInv env acc s' := by
  obtain ⟨hg, hph⟩ := h
  cases hs with
  | sweepLoad hq =>
      exact ⟨Pool.forall_start hg (not_done_of_timedOut hq), hph.start rfl⟩
  | sweepWon hp hst =>
      rename_i i minutes now t
      have hnd : t.status.isDone = false := hg _ (Pool.mem_of_get hp)
      refine ⟨Pool.forall_set hg (by split <;> trivial), ?_⟩
      refine hph.win hp (hst ▸ hnd) rfl ?_
      cases hr : sweepRefunds t with
      | true => exact Or.inl rfl
      | false => exact Or.inr ⟨rfl, rfl⟩
  | sweepLost hp _ => exact ⟨Pool.forall_set hg trivial, hph.move hp rfl rfl⟩
  | sweepBill hp => exact ⟨Pool.forall_set hg trivial, hph.bill hp rfl rfl _⟩
  | pollLoad hq => exact ⟨Pool.forall_start hg trivial, hph.start rfl⟩
  | videoStop hp _ => exact ⟨Pool.forall_set hg trivial, hph.move hp rfl rfl⟩
  | videoGo hp _ hu =>
      have hnd := by simpa [casOnly, hp] using hc
      exact ⟨Pool.forall_set hg (videoWriting_guarded hnd hu), hph.move hp rfl rfl⟩
  | videoWon hp hst =>
      rename_i i snap t b
      obtain ⟨hsnap, hw⟩ := hg _ (Pool.mem_of_get hp)
      have hd : t.status.isDone = true := by simpa using hw
      exact ⟨Pool.forall_set hg (afterVideoWrite_guarded t b),
        hph.win hp (hst ▸ hsnap) hd (afterVideoWrite_owes t b)⟩
  | videoLost hp _ => exact ⟨Pool.forall_set hg trivial, hph.move hp rfl rfl⟩
  | videoProgress hp =>
      rename_i i err snap t b
      obtain ⟨hsnap, hw⟩ := hg _ (Pool.mem_of_get hp)
      obtain ⟨hnd, rfl⟩ : t.status.isDone = false ∧ b = .keep := by simpa using hw
      exact ⟨Pool.forall_set hg trivial, (hph.progress hsnap hnd).move hp rfl rfl⟩
  | videoUnchanged hp =>
      rename_i i err snap t b
      obtain ⟨-, hw⟩ := hg _ (Pool.mem_of_get hp)
      obtain ⟨-, rfl⟩ : t.status.isDone = false ∧ b = .keep := by simpa using hw
      exact ⟨Pool.forall_set hg trivial, hph.move hp rfl rfl⟩
  | videoBill hp => exact ⟨Pool.forall_set hg trivial, hph.bill hp rfl rfl _⟩
  | _ => cases hc

theorem casInv_initial {row : Task} (hrow : row.status.isDone = false) :
    CasInv env acc (initial row acc) :=
  ⟨by simp [initial], .unwon rfl hrow rfl (by simp [initial])⟩

/-- The invariant holds along every guarded run. -/
theorem casInv_of_run {row : Task} {as : List Act} (hrow : row.status.isDone = false)
    (hcas : Run.Along (step env) (fun s a => casOnly s a = true) (initial row acc) as)
    (h : Run.exec (step env) (initial row acc) as = some s) : CasInv env acc s :=
  Run.exec_invariant (fun _ _ _ hI hP hs => hI.step hP (step_inv hs)) (casInv_initial hrow) hcas h

/-- A call of `UpdateWithStatus` that does not win changes neither the row nor
the accounts. -/
theorem casLost_frame {a : Act} (hl : s.casLost a) (hs : Step env s a s') :
    s'.row = s.row ∧ s'.accounts = s.accounts ∧ s'.wins = s.wins := by
  obtain ⟨t, snap, err, hcall, hlost⟩ := hl
  cases hs with
  | sweepWon hp hst =>
      simp only [State.casCall, hp, Option.some.injEq, Prod.mk.injEq] at hcall
      obtain ⟨rfl, rfl, rfl⟩ := hcall
      simp [Task.updateWithStatus, hst] at hlost
  | videoWon hp hst =>
      simp only [State.casCall, hp, Option.some.injEq, Prod.mk.injEq] at hcall
      obtain ⟨rfl, rfl, rfl⟩ := hcall
      simp [Task.updateWithStatus, hst] at hlost
  | videoProgress hp =>
      simp only [State.casCall, hp, Option.some.injEq, Prod.mk.injEq] at hcall
      obtain ⟨rfl, rfl, rfl⟩ := hcall
      exact ⟨Task.updateWithStatus_of_lost hlost, rfl, rfl⟩
  | sweepLost => exact ⟨rfl, rfl, rfl⟩
  | videoLost => exact ⟨rfl, rfl, rfl⟩
  | videoUnchanged => exact ⟨rfl, rfl, rfl⟩
  | _ => simp [State.casCall] at hcall

/-- However the executions interleave, at most one wins the transition to a final
status, the accounts have moved by the billing of that winner and by nothing
else, and a call that does not win leaves the row and the accounts alone. -/
theorem one_winner (env : PollEnv) (row : Task) (acc : Accounts) (as : List Act) (s : State)
    (hrow : row.status.isDone = false)
    (hcas : Run.Along (step env) (fun s a => casOnly s a = true) (initial row acc) as)
    (h : Run.exec (step env) (initial row acc) as = some s) :
    s.wins.length ≤ 1 ∧
    (s.wins = [] → s.row.status.isDone = false ∧ s.accounts = acc) ∧
    (∀ w ∈ s.wins, s.row = w.task ∧ s.row.status.isDone = true ∧
      (s.accounts = acc ∧ (∃ p, s.procs[w.proc]? = some p ∧ p.owes = some (w.task, w.due)) ∧
          (∀ j q, s.procs[j]? = some q → j ≠ w.proc → q.owes = none) ∨
        (∃ io, s.accounts = (runVideoBilling env w.task acc io w.due).2) ∧
          ∀ p ∈ s.procs, p.owes = none)) ∧
    (∀ a s', s.casLost a → step env s a = some s' →
      s'.row = s.row ∧ s'.accounts = s.accounts ∧ s'.wins = s.wins) := by
  have hlost : ∀ a s', s.casLost a → step env s a = some s' →
      s'.row = s.row ∧ s'.accounts = s.accounts ∧ s'.wins = s.wins :=
    fun a s' hl hs => casLost_frame hl (step_inv hs)
  cases (casInv_of_run hrow hcas h).phase with
  | unwon hw hr ha ho =>
      refine ⟨by simp [hw], fun _ => ⟨hr, ha⟩, ?_, hlost⟩
      simp [hw]
  | owing w p hw hr hd ha hp hown hot =>
      refine ⟨by simp [hw], by simp [hw], ?_, hlost⟩
      intro w' hw'
      rw [hw, List.mem_singleton] at hw'
      subst hw'
      exact ⟨hr, hr ▸ hd, Or.inl ⟨ha, ⟨p, hp, hown⟩, hot⟩⟩
  | billed w io hw hr hd ha ho =>
      refine ⟨by simp [hw], by simp [hw], ?_, hlost⟩
      intro w' hw'
      rw [hw, List.mem_singleton] at hw'
      subst hw'
      exact ⟨hr, hr ▸ hd, Or.inr ⟨⟨io, ha⟩, ho⟩⟩

end

/-- Two pollers and the sweep on one queued task: the first poller moves it on,
the second one reports a failure against its stale snapshot and loses, the sweep
loses too, and the first poller ends the task and bills. -/
def staleRun : List Act :=
  [.pollLoad, .pollLoad, .sweepLoad 1900000000,
   .videoAnswer 0 1800000100 (statusAnswer "IN_PROGRESS" ""), .videoWrite 0 false,
   .videoAnswer 1 1800000200 (statusAnswer "FAILURE" "oom"), .videoWrite 1 false,
   .videoAnswer 0 1800000300 (statusAnswer "FAILURE" "nsfw"), .videoWrite 0 false,
   .sweepWrite 2 60 1900000000 false, .videoBill 0 callsOk]

theorem one_winner_staleRun :
    ∃ s, Run.exec (step plainEnv) (initial queuedTask openAccounts) staleRun = some s ∧
      s.wins.length ≤ 1 ∧ s.accounts.wallet = 1000 := by
  obtain ⟨s, hs, hw⟩ := Run.exists_of_any (step plainEnv) (initial queuedTask openAccounts)
    staleRun (fun s => s.accounts.wallet = 1000) (by decide +kernel)
  exact ⟨s, hs, (one_winner plainEnv queuedTask openAccounts staleRun s (by decide)
    (by decide +kernel) hs).1, of_decide_eq_true hw⟩

end DazeApi.Tasks
