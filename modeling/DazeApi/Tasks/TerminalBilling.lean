import DazeApi.Tasks.System

/-!
# Refunds of a task that ends

Over any interleaving of all executions, when is the quota of a failed task paid
back exactly once, and the quota of a successful one not at all?

The source reaches a final status on five paths, and not all of them bill.  The
two bulk failure writes and the real-time fetch store `FAILURE` and refund
nothing.  The Suno poller refunds first and saves the whole row afterwards with
no guard, also when the item has a reason but no final status.  `safe` says of
each step, from the state before it, that it does not take one of these ways;
along safe steps the refunds booked, corrected by the refunds under way, always
agree with the row.
-/

namespace DazeApi.Tasks

/-! ## The property -/

/-- The refunds booked for a task that was charged `quota` fit the status of its
row. -/
def State.RefundedOnce (quota : Int) (s : State) : Prop :=
  (s.row.status = .failure → (refunds s.accounts.ledger).sum = quota) ∧
  (s.row.status = .success → refunds s.accounts.ledger = [])

instance (quota : Int) (s : State) : Decidable (s.RefundedOnce quota) :=
  inferInstanceAs (Decidable (_ ∧ _))

/-- By how much the refunds booked run behind the row at this execution: `1` for
a refund owed, `-1` for a refund paid whose save is still to come. -/
def Proc.lag : Proc → Int
  | .sweepBilling _ => 1
  | .videoBilling _ .refund => 1
  | .sunoSaving _ true => -1
  | _ => 0

/-- No execution is between its write and its refund. -/
def State.Settled (s : State) : Prop := ∀ p ∈ s.procs, p.lag = 0

instance (s : State) : Decidable s.Settled := inferInstanceAs (Decidable (∀ p ∈ s.procs, _))

/-! ## The condition -/

/-- The bulk failure write does not fail a task that was charged. -/
def bulkSafe (row : Task) (err : Bool) : Bool := err || row.status = .failure || row.quota = 0

/-- A Suno item that refunds a charged task fails it too, and the refund is paid. -/
def sunoSafe (t : Task) (item : SunoDataResponse) (io : BillingCalls) : Bool :=
  !(taskNeedsUpdate t item && sunoFails t item) || t.quota = 0 ||
    ((sunoMerge t item).status = .failure && !io.fundingErr)

/-- The step does not take a way on which the source misses or repeats a refund. -/
def safe (s : State) : Act → Bool
  | .sweepWrite i _ _ err =>
      match s.procs[i]? with
      | some (.swept t) => err || s.row.status ≠ t.status || !t.isLegacy || t.quota = 0
      | _ => true
  | .sweepBill _ io => !io.fundingErr
  | .nullTaskFail _ err => bulkSafe s.row err
  | .missingChannelFail _ _ err => bulkSafe s.row err
  | .videoAnswer i _ _ =>
      -- a copy that is done comes from an earlier answer in the same round
      match s.procs[i]? with
      | some (.polled t) => !t.status.isDone
      | _ => true
  | .videoBill i io =>
      match s.procs[i]? with
      | some (.videoBilling _ .refund) => !io.fundingErr
      | _ => true
  | .sunoAnswer i item io =>
      match s.procs[i]? with
      | some (.polled t) => sunoSafe t item io
      | _ => true
  | .sunoSave i err =>
      match s.procs[i]? with
      | some (.sunoSaving _ refunded) =>
          s.row.quota = 0 || (if err then !refunded else s.row.status ≠ .failure)
      | _ => true
  | .fetchWrite i err =>
      match s.procs[i]? with
      | some (.fetchWriting snap t) =>
          err || s.row.status ≠ snap || t.quota = 0 ||
            (s.row.status = .failure) = (t.status = .failure)
      | _ => true
  | _ => true

/-! ## The invariant -/

/-- What the copy of an execution says, for a task that was charged `q`.  Only
the settlement of a successful video task changes the quota of a copy. -/
def Proc.Charged (q : Int) : Proc → Prop
  | .swept t => t.quota = q ∧ t.status.isDone = false
  | .sweepBilling t => t.quota = q ∧ q ≠ 0
  | .polled t => t.quota = q ∨ t.status.isDone = true ∧ t.platform ≠ .suno
  | .videoWriting snap t w b =>
      t.quota = q ∧ t.platform ≠ .suno ∧ snap.isDone = false ∧
        (w ≠ .transition ∧ t.status.isDone = false ∧ b = .keep ∨
         w = .transition ∧ t.status = .success ∧ (∃ ti, b = .settle ti) ∨
         w = .transition ∧ t.status = .failure ∧ b = if q ≠ 0 then .refund else .keep)
  | .videoBilling t b =>
      t.quota = q ∧ t.platform ≠ .suno ∧
        (t.status = .success ∧ (∃ ti, b = .settle ti) ∨ b = .refund ∧ q ≠ 0)
  | .sunoSaving t refunded => t.quota = q ∧ (refunded = true ↔ t.status = .failure ∧ q ≠ 0)
  | .fetched t => t.quota = q
  | .fetchWriting _ t => t.quota = q
  | .finished => True

/-- The refunds a row calls for. -/
def refundsDue (q : Int) (row : Task) : Int := if row.status = .failure ∧ q ≠ 0 then 1 else 0

/-- The invariant of safe runs. -/
structure ChargeInv (q : Int) (s : State) : Prop where
  quota : s.row.quota = q
  procs : ∀ p ∈ s.procs, p.Charged q
  amounts : ∀ r ∈ refunds s.accounts.ledger, r = q
  count : ((refunds s.accounts.ledger).length : Int) + Pool.total Proc.lag s.procs =
    refundsDue q s.row

theorem refundsDue_of_ne {q : Int} {row : Task} (h : row.status ≠ .failure) :
    refundsDue q row = 0 := by
  simp [refundsDue, h]

theorem refundsDue_zero (row : Task) : refundsDue 0 row = 0 := by
  simp [refundsDue]

/-- A copy that is not done has not been settled. -/
theorem polled_quota_of_not_done {q : Int} {t : Task} (h : (Proc.polled t).Charged q)
    (hnd : t.status.isDone = false) : t.quota = q := by
  rcases h with h | ⟨hd, -⟩
  · exact h
  · rw [hnd] at hd
    cases hd

/-- A Suno copy is never settled. -/
theorem polled_quota_of_suno {q : Int} {t : Task} (h : (Proc.polled t).Charged q)
    (hp : t.platform = .suno) : t.quota = q := by
  rcases h with h | ⟨-, hne⟩
  · exact h
  · exact absurd hp hne

section

variable {env : PollEnv} {q : Int} {s s' : State} {i : Nat} {p p' : Proc}

/-! ## How the invariant moves -/

/-- An execution moves on and the row is rewritten, in step with each other. -/
theorem ChargeInv.rewrite {row : Task} (h : ChargeInv q s) (hp : s.procs[i]? = some p)
    (hrow : row.quota = q) (hp' : p'.Charged q)
    (hlag : refundsDue q s.row - p.lag + p'.lag = refundsDue q row) :
    ChargeInv q ({ s with row := row }.goto i p') where
  quota := hrow
  procs := Pool.forall_set h.procs hp'
  amounts := h.amounts
  count := by
    have hc := h.count
    simp only [State.goto, Pool.total_set Proc.lag p' hp]
    omega

/-- An execution moves on and the row stays. -/
theorem ChargeInv.move (h : ChargeInv q s) (hp : s.procs[i]? = some p) (hp' : p'.Charged q)
    (hlag : p'.lag = p.lag) : ChargeInv q (s.goto i p') :=
  h.rewrite hp h.quota hp' (by omega)

theorem ChargeInv.start (h : ChargeInv q s) (hp' : p'.Charged q) (hlag : p'.lag = 0) :
    ChargeInv q (s.start p') where
  quota := h.quota
  procs := Pool.forall_start h.procs hp'
  amounts := h.amounts
  count := by
    have hc := h.count
    simp only [State.start, Pool.total_start]
    omega

/-- The ghost list of winners plays no part. -/
theorem ChargeInv.won {row : Task} {w : Win} (h : ChargeInv q ({ s with row := row }.goto i p')) :
    ChargeInv q ((s.win row w).goto i p') :=
  ⟨h.quota, h.procs, h.amounts, h.count⟩

/-- An execution pays one refund of `q`. -/
theorem ChargeInv.refund {t : Task} {io : BillingCalls} (h : ChargeInv q s)
    (hp : s.procs[i]? = some p) (hp' : p'.Charged q) (ht : t.quota = q) (hq : q ≠ 0)
    (hio : io.fundingErr = false) (hlag : p.lag = p'.lag + 1) :
    ChargeInv q ({ s with accounts := refundTaskQuota t s.accounts io }.goto i p') := by
  have hled := (refundTaskQuota_paid s.accounts (by rw [ht]; exact hq : t.quota ≠ 0) hio).2
  refine ⟨h.quota, Pool.forall_set h.procs hp', ?_, ?_⟩
  · intro r hr
    simp only [State.goto, hled, refunds_append, refunds, List.mem_append,
      List.mem_singleton] at hr
    rcases hr with hr | hr
    · exact h.amounts r hr
    · exact hr.trans ht
  · have hc := h.count
    simp only [State.goto, hled, refunds_append, refunds, List.length_append, List.length_cons,
      List.length_nil, Pool.total_set Proc.lag p' hp]
    push_cast
    omega

/-- An execution changes the accounts without a refund. -/
theorem ChargeInv.settle {acc : Accounts} (h : ChargeInv q s) (hp : s.procs[i]? = some p)
    (hp' : p'.Charged q) (hled : refunds acc.ledger = refunds s.accounts.ledger)
    (hlag : p'.lag = p.lag) : ChargeInv q ({ s with accounts := acc }.goto i p') := by
  have hm := h.move hp hp' hlag
  refine ⟨hm.quota, hm.procs, ?_, ?_⟩
  · simpa [State.goto, hled] using hm.amounts
  · simpa [State.goto, hled] using hm.count

/-! ## Writes -/

/-- A bulk failure write that is safe calls for no refund. -/
theorem refundsDue_bulk {row : Task} {reason : Option String} {err : Bool}
    (hq : row.quota = q) (h : bulkSafe row err = true) :
    refundsDue q (taskBulkUpdateByID row reason err) = refundsDue q row := by
  simp only [bulkSafe, Bool.or_eq_true, decide_eq_true_eq] at h
  rcases h with (h | h) | h
  · simp [taskBulkUpdateByID, h]
  · unfold taskBulkUpdateByID
    split
    next => rfl
    next => simp [refundsDue, h]
  · rw [← hq, h]
    simp [refundsDue]

theorem taskBulkUpdateByID_quota (row : Task) (reason : Option String) (err : Bool) :
    (taskBulkUpdateByID row reason err).quota = row.quota := by
  unfold taskBulkUpdateByID
  split <;> rfl

theorem ChargeInv.bulk {reason : Option String} {err : Bool} {t : Task} (h : ChargeInv q s)
    (hp : s.procs[i]? = some (.polled t)) (hsafe : bulkSafe s.row err = true) :
    ChargeInv q ({ s with row := taskBulkUpdateByID s.row reason err }.goto i .finished) := by
  refine h.rewrite hp ?_ trivial ?_
  · rw [taskBulkUpdateByID_quota, h.quota]
  · rw [refundsDue_bulk h.quota hsafe]
    simp [Proc.lag]

/-- The write of the real-time fetch. -/
theorem ChargeInv.fetch {snap : TaskStatus} {t : Task} {err : Bool} (h : ChargeInv q s)
    (hp : s.procs[i]? = some (.fetchWriting snap t))
    (hsafe : safe s (.fetchWrite i err) = true) :
    ChargeInv q ({ s with row := (t.updateWithStatus s.row snap err).1 }.goto i .finished) := by
  have ht : t.quota = q := h.procs _ (Pool.mem_of_get hp)
  by_cases hwon : (t.updateWithStatus s.row snap err).2 = some true
  · have hst := Task.updateWithStatus_of_won hwon
    have herr : err = false := by
      cases err with
      | false => rfl
      | true => simp [Task.updateWithStatus] at hwon
    rw [hst.2]
    refine h.rewrite hp ht trivial ?_
    simp only [safe, hp, herr, hst.1, Bool.false_or, Bool.or_eq_true, decide_eq_true_eq,
      ne_eq, not_true_eq_false, decide_false, ht, eq_iff_iff] at hsafe
    rcases hsafe with hq | hiff
    · simp [refundsDue, hq, Proc.lag]
    · simp [refundsDue, hst.1, hiff, Proc.lag]
  · rw [Task.updateWithStatus_of_lost hwon]
    exact h.move hp trivial rfl

/-! ## Steps and runs -/

/-- The video poller's next state after an answer to a copy that is not done. -/
theorem videoWriting_charged {now : Int} {t t' : Task} {ans : VideoAnswer} {b : VideoBilling}
    (hq : t.quota = q) (hp : t.platform ≠ .suno) (hnd : t.status.isDone = false)
    (h : videoUpdate env now t ans = (t', some b)) :
    (Proc.videoWriting t.status t' (videoWriteOf t t') b).Charged q := by
  obtain ⟨hq', hp', hb⟩ := videoUpdate_spec h
  refine ⟨hq'.trans hq, fun hs => hp (hp' ▸ hs), hnd, ?_⟩
  rcases hb with ⟨hnd', hb⟩ | ⟨hst, ti, hb⟩ | ⟨hst, hb⟩
  · exact Or.inl ⟨videoWriteOf_ne_transition hnd', hnd', hb⟩
  · have hd : t'.status.isDone = true := by rw [hst]; rfl
    exact Or.inr (Or.inl ⟨videoWriteOf_transition hnd hd, hst, ti, hb⟩)
  · have hd : t'.status.isDone = true := by rw [hst]; rfl
    exact Or.inr (Or.inr ⟨videoWriteOf_transition hnd hd, hst, by rw [hb, hq]⟩)

/-- The sweep has won its update. -/
theorem ChargeInv.sweepWon {minutes now : Int} {t : Task} (h : ChargeInv q s)
    (hp : s.procs[i]? = some (.swept t)) (hst : s.row.status = t.status)
    (hsafe : safe s (.sweepWrite i minutes now false) = true) :
    ChargeInv q ({ s with row := sweepFail minutes now t }.goto i
      (if sweepRefunds t then .sweepBilling (sweepFail minutes now t) else .finished)) := by
  obtain ⟨ht, hnd⟩ := h.procs _ (Pool.mem_of_get hp)
  have hne : s.row.status ≠ .failure := hst ▸ TaskStatus.ne_failure_of_not_done hnd
  have hl : t.isLegacy = false ∨ q = 0 := by
    simpa [safe, hp, hst, ht] using hsafe
  by_cases hq : q = 0
  · have hr : sweepRefunds t = false := by simp [sweepRefunds, ht, hq]
    rw [hr]
    refine h.rewrite hp ht trivial ?_
    simp [Proc.lag, refundsDue, hq]
  · have hr : sweepRefunds t = true := by
      simpa [sweepRefunds, ht, hq] using hl
    rw [if_pos hr]
    refine h.rewrite hp ht ⟨ht, hq⟩ ?_
    simp [hne, Proc.lag, refundsDue, hq, sweepFail]

/-- The video poller has won its update. -/
theorem ChargeInv.videoWon {snap : TaskStatus} {t : Task} {b : VideoBilling}
    (h : ChargeInv q s) (hp : s.procs[i]? = some (.videoWriting snap t .transition b))
    (hst : s.row.status = snap) :
    ChargeInv q ({ s with row := t }.goto i (afterVideoWrite t b)) := by
  obtain ⟨ht, hpl, hnd, hb⟩ := h.procs _ (Pool.mem_of_get hp)
  have hne : s.row.status ≠ .failure := hst ▸ TaskStatus.ne_failure_of_not_done hnd
  rcases hb with ⟨hw, -⟩ | ⟨-, hs, ti, rfl⟩ | ⟨-, hf, rfl⟩
  · exact absurd rfl hw
  · refine h.rewrite hp ht ⟨ht, hpl, Or.inl ⟨hs, ti, rfl⟩⟩ ?_
    simp [hne, Proc.lag, refundsDue, hs, afterVideoWrite]
  · by_cases hq : q = 0
    · rw [if_neg (by simpa using hq)]
      refine h.rewrite hp ht (Or.inl ht) ?_
      simp [Proc.lag, refundsDue, hq, afterVideoWrite]
    · rw [if_pos hq]
      refine h.rewrite hp ht ⟨ht, hpl, Or.inr ⟨rfl, hq⟩⟩ ?_
      simp [hne, Proc.lag, refundsDue, hf, hq, afterVideoWrite]

/-- The video poller has written progress. -/
theorem ChargeInv.videoProgress {snap : TaskStatus} {t : Task} {b : VideoBilling} {err : Bool}
    (h : ChargeInv q s) (hp : s.procs[i]? = some (.videoWriting snap t .progress b)) :
    ChargeInv q ({ s with row := (t.updateWithStatus s.row snap err).1 }.goto i
      (afterVideoWrite t b)) := by
  obtain ⟨ht, -, hnd, hb⟩ := h.procs _ (Pool.mem_of_get hp)
  obtain ⟨hnd', rfl⟩ : t.status.isDone = false ∧ b = .keep := by simpa using hb
  by_cases hwon : (t.updateWithStatus s.row snap err).2 = some true
  · obtain ⟨hst, hrow⟩ := Task.updateWithStatus_of_won hwon
    rw [hrow]
    refine h.rewrite hp ht (Or.inl ht) ?_
    rw [refundsDue_of_ne (TaskStatus.ne_failure_of_not_done hnd'),
      refundsDue_of_ne (hst ▸ TaskStatus.ne_failure_of_not_done hnd)]
    rfl
  · rw [Task.updateWithStatus_of_lost hwon]
    exact h.move hp (Or.inl ht) rfl

/-- The video poller bills. -/
theorem ChargeInv.videoBill {t : Task} {b : VideoBilling} {io : BillingCalls}
    (h : ChargeInv q s) (hp : s.procs[i]? = some (.videoBilling t b))
    (hsafe : safe s (.videoBill i io) = true) :
    ChargeInv q ({ s with accounts := (runVideoBilling env t s.accounts io b).2 }.goto i
      (.polled (runVideoBilling env t s.accounts io b).1)) := by
  obtain ⟨ht, hpl, hb⟩ := h.procs _ (Pool.mem_of_get hp)
  rcases hb with ⟨hs, ti, rfl⟩ | ⟨rfl, hq⟩
  · refine h.settle hp ?_ (settle_refunds env t ti s.accounts io) rfl
    right
    rcases settle_cases env t ti s.accounts io with hc | ⟨q', d, tok, hc⟩
    · simp [runVideoBilling, hc, hs, hpl]
    · simp [runVideoBilling, hc, hs, hpl]
  · have hio : io.fundingErr = false := by simpa [safe, hp] using hsafe
    exact h.refund hp (Or.inl ht) ht hq hio rfl

/-- The Suno poller pays the quota back and is about to save. -/
theorem ChargeInv.sunoFail {t : Task} {item : SunoDataResponse} {io : BillingCalls}
    (h : ChargeInv q s) (hp : s.procs[i]? = some (.polled t)) (hpl : t.platform = .suno)
    (hn : taskNeedsUpdate t item = true) (hf : sunoFails t item = true)
    (hsafe : safe s (.sunoAnswer i item io) = true) :
    ChargeInv q ({ s with accounts := refundTaskQuota (sunoMerge t item) s.accounts io }.goto i
      (.sunoSaving (sunoUpdate t item) (t.quota ≠ 0 && !io.fundingErr))) := by
  have ht : t.quota = q := polled_quota_of_suno (h.procs _ (Pool.mem_of_get hp)) hpl
  have hok : q = 0 ∨ (sunoMerge t item).status = .failure ∧ io.fundingErr = false := by
    simpa [safe, hp, sunoSafe, hn, hf, ht] using hsafe
  by_cases hq : q = 0
  · have hacc : refundTaskQuota (sunoMerge t item) s.accounts io = s.accounts := by
      unfold refundTaskQuota
      exact if_pos (ht.trans hq)
    rw [hacc]
    refine h.move (s := s) hp ⟨ht, by simp [ht, hq]⟩ ?_
    simp [ht, hq, Proc.lag]
  · obtain ⟨hst, hio⟩ := hok.resolve_left hq
    refine h.refund hp ⟨ht, ?_⟩ ht hq hio ?_
    · simp [ht, hq, hio, hst]
    · simp [ht, hq, hio, Proc.lag]

/-- The Suno poller saves the whole row. -/
theorem ChargeInv.sunoSave {t : Task} {refunded err : Bool} (h : ChargeInv q s)
    (hp : s.procs[i]? = some (.sunoSaving t refunded))
    (hsafe : safe s (.sunoSave i err) = true) :
    ChargeInv q ({ s with row := t.update s.row err }.goto i (.polled t)) := by
  obtain ⟨ht, hr⟩ := h.procs _ (Pool.mem_of_get hp)
  have hrow : (t.update s.row err).quota = q := by
    unfold Task.update
    split
    next => exact h.quota
    next => exact ht
  refine h.rewrite hp hrow (Or.inl ht) ?_
  by_cases hq : q = 0
  · have : refunded = false := by simpa [hq] using hr
    simp [refundsDue, hq, this, Proc.lag]
  · have hs : (if err then !refunded else s.row.status ≠ .failure) = true := by
      simpa [safe, hp, h.quota, hq] using hsafe
    cases err with
    | true =>
        have : refunded = false := by simpa using hs
        simp [Task.update, this, Proc.lag]
    | false =>
        have hne : s.row.status ≠ .failure := by simpa using hs
        rw [refundsDue_of_ne hne]
        cases refunded with
        | true =>
            have hf := (hr.1 rfl).1
            simp [Task.update, refundsDue, hf, hq, Proc.lag]
        | false =>
            have hf : t.status ≠ .failure := by simpa [hq] using hr
            simp [Task.update, refundsDue, hf, Proc.lag]

/-- A safe step keeps the invariant. -/
theorem ChargeInv.step {a : Act} (h : ChargeInv q s) (hsafe : safe s a = true)
    (hs : Step env s a s') : ChargeInv q s' := by
  cases hs with
  | sweepLoad hq => exact h.start ⟨h.quota, not_done_of_timedOut hq⟩ rfl
  | sweepWon hp hst => exact (h.sweepWon hp hst hsafe).won
  | sweepLost hp _ => exact h.move hp trivial rfl
  | sweepBill hp =>
      obtain ⟨ht, hq⟩ := h.procs _ (Pool.mem_of_get hp)
      exact h.refund hp trivial ht hq (by simpa [safe] using hsafe) rfl
  | pollLoad _ => exact h.start (Or.inl h.quota) rfl
  | nullTaskFail hp => exact h.bulk hp hsafe
  | missingChannelFail hp => exact h.bulk hp hsafe
  | videoStop hp hu =>
      rename_i j now ans t t'
      have hnd : t.status.isDone = false := by simpa [safe, hp] using hsafe
      have ht : t.quota = q :=
        polled_quota_of_not_done (h.procs _ (Pool.mem_of_get hp)) hnd
      have hq' := (videoUpdate_kept env now t ans).1
      rw [hu] at hq'
      exact h.move hp (Or.inl (hq'.trans ht)) rfl
  | videoGo hp hpl hu =>
      rename_i j now ans t t' b
      have hnd : t.status.isDone = false := by simpa [safe, hp] using hsafe
      have ht : t.quota = q :=
        polled_quota_of_not_done (h.procs _ (Pool.mem_of_get hp)) hnd
      exact h.move hp (videoWriting_charged ht hpl hnd hu) rfl
  | videoWon hp hst => exact (h.videoWon hp hst).won
  | videoLost hp _ =>
      exact h.move hp (Or.inl (h.procs _ (Pool.mem_of_get hp)).1) rfl
  | videoProgress hp => exact h.videoProgress hp
  | videoUnchanged hp =>
      rename_i j err snap t b
      obtain ⟨ht, -, -, hb⟩ := h.procs _ (Pool.mem_of_get hp)
      obtain ⟨-, rfl⟩ : t.status.isDone = false ∧ b = .keep := by simpa using hb
      exact h.move hp (Or.inl ht) rfl
  | videoBill hp => exact h.videoBill hp hsafe
  | sunoSkip _ => exact h
  | sunoFail hp hpl hn hf => exact h.sunoFail hp hpl hn hf hsafe
  | sunoGo hp hpl hf =>
      rename_i j item io t
      have ht : t.quota = q := polled_quota_of_suno (h.procs _ (Pool.mem_of_get hp)) hpl
      have hne := sunoUpdate_status_ne_failure hf
      exact h.move hp ⟨ht, by simpa using fun hst => absurd hst hne⟩ rfl
  | sunoSave hp => exact h.sunoSave hp hsafe
  | fetchLoad => exact h.start h.quota rfl
  | fetchGo hp =>
      have ht := h.procs _ (Pool.mem_of_get hp)
      exact h.move hp ((realtimeUpdate_quota env _ _).trans ht) rfl
  | fetchStop hp => exact h.move hp trivial rfl
  | fetchWrite hp => exact h.fetch hp hsafe

/-- With nothing under way, the invariant is the property. -/
theorem ChargeInv.refundedOnce (h : ChargeInv q s) (hs : s.Settled) : s.RefundedOnce q := by
  have hc := h.count
  rw [Pool.total_eq_zero Proc.lag hs, add_zero] at hc
  have hnil : refundsDue q s.row = 0 → refunds s.accounts.ledger = [] := by
    intro h0
    rw [h0] at hc
    exact List.eq_nil_of_length_eq_zero (by omega)
  refine ⟨fun hf => ?_, fun hst => hnil (refundsDue_of_ne (by simp [hst]))⟩
  by_cases hq : q = 0
  · rw [hnil (by rw [hq, refundsDue_zero]), hq]
    rfl
  · rw [refundsDue, if_pos ⟨hf, hq⟩] at hc
    obtain ⟨r, hr⟩ := List.length_eq_one_iff.1 (by omega : (refunds s.accounts.ledger).length = 1)
    rw [hr, List.sum_singleton]
    exact h.amounts r (by simp [hr])

end

theorem chargeInv_initial (row : Task) (wallet tokenRemain : Int)
    (hrow : row.status.isDone = false) :
    ChargeInv row.quota (initial row ⟨wallet, tokenRemain, []⟩) where
  quota := rfl
  procs := by simp [initial]
  amounts := by simp [initial, refunds]
  count := by
    rw [show refundsDue row.quota (initial row ⟨wallet, tokenRemain, []⟩).row = 0 from
      refundsDue_of_ne (TaskStatus.ne_failure_of_not_done hrow)]
    rfl

/-- In every state that safe steps reach from a submitted task, with no execution
between a write and its refund: a failed task has been paid back its quota in
total, a successful one has not been refunded, and the wallet has moved by the
refunds and settlements of the ledger. -/
theorem refundedOnce_of_safe (env : PollEnv) (row : Task) (wallet tokenRemain : Int)
    (as : List Act) (s : State) (hrow : row.status.isDone = false)
    (hsafe : Run.Along (step env) (fun s a => safe s a = true)
      (initial row ⟨wallet, tokenRemain, []⟩) as)
    (h : Run.exec (step env) (initial row ⟨wallet, tokenRemain, []⟩) as = some s)
    (hs : s.Settled) :
    s.RefundedOnce row.quota ∧
      s.accounts.wallet =
        wallet + (refunds s.accounts.ledger).sum - (settlements s.accounts.ledger).sum := by
  have hI : ChargeInv row.quota s :=
    Run.exec_invariant (fun _ _ _ hI hP hs => hI.step hP (step_inv hs))
      (chargeInv_initial row wallet tokenRemain hrow) hsafe h
  refine ⟨hI.refundedOnce hs, ?_⟩
  exact booked_of_run (by simp [Accounts.Booked, initial, refunds, settlements]) h

/-- A poller and the sweep race, a real-time fetch comes in between, and the
poller ends the task. -/
def racedRun : List Act :=
  [.pollLoad, .sweepLoad 1900000000, .fetchLoad,
   .fetchAnswer 2 ⟨"IN_PROGRESS", "", "", "50%", 0⟩,
   .videoAnswer 0 1800000100 (statusAnswer "FAILURE" "nsfw"), .videoWrite 0 false,
   .fetchWrite 2 false, .sweepWrite 1 60 1900000000 false, .videoBill 0 callsOk]

theorem refundedOnce_racedRun :
    ∃ s, Run.exec (step plainEnv) (initial queuedTask ⟨900, 900, []⟩) racedRun = some s ∧
      s.row.status = .failure ∧ s.RefundedOnce 100 := by
  obtain ⟨s, hs, hend⟩ := Run.exists_of_any (step plainEnv)
    (initial queuedTask ⟨900, 900, []⟩) racedRun
    (fun s => s.row.status = .failure ∧ s.Settled) (by decide +kernel)
  obtain ⟨hrow, hset⟩ := of_decide_eq_true hend
  exact ⟨s, hs, hrow, (refundedOnce_of_safe plainEnv queuedTask 900 900 racedRun s (by decide)
    (by decide +kernel) hs hset).1⟩

/-- The polling loop finds the channel of a charged task gone and fails the task
by the bulk write: the row is final, and its quota is never paid back. -/
theorem missingChannel_not_refunded :
    ¬ ∀ (env : PollEnv) (row : Task) (wallet tokenRemain : Int) (as : List Act) (s : State),
      row.status.isDone = false → row.isLegacy = false →
      Run.exec (step env) (initial row ⟨wallet, tokenRemain, []⟩) as = some s → s.Settled →
      s.RefundedOnce row.quota := by
  intro h
  have := h plainEnv queuedTask 900 900 [.pollLoad, .missingChannelFail 0 "channel gone" false] _
    (by decide) (by decide) rfl (by decide)
  exact absurd this (by decide)

end DazeApi.Tasks
