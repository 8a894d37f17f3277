import DazeApi.Lib.Run
import Mathlib.Algebra.Order.Group.Multiset
import Mathlib.Tactic.Abel

/-!
# The writer of the logs

`enqueueLog` puts a row into a channel of 5000 places, from which one worker writes batches of
100, or what there is every two seconds.  When the channel is full the caller writes the row
itself.  A write that fails is logged and its rows are gone.

`writer_spec` follows every row under any interleaving of callers, worker and clock: it is in
the table, in a place from which it will be written, or in a write that failed, and nowhere
twice; the worker writes in the order of the channel; and from every state the worker and the
callers can go on until all rows are written.
-/

namespace DazeApi.Logs.AsyncWriter

variable {α : Type}

def asyncLogChanSize : Nat := 5000

def asyncLogBatchSize : Nat := 100

structure State (α : Type) where
  /-- `asyncLogChan`. -/
  queue : List α
  /-- What the worker holds, and whether it is writing it. -/
  batch : List α
  flushing : Bool
  /-- The rows that callers are about to write themselves. -/
  direct : List α
  table : List α
  -- what writes lost, all rows, those that went into the channel, those the worker wrote
  lost : List α
  enqueued : List α
  queued : List α
  written : List α

def initial : State α := ⟨[], [], false, [], [], [], [], [], []⟩

inductive Act (α : Type)
  | enqueue (log : α)
  /-- A caller writes the row itself. -/
  | create (i : Nat) (err : Bool)
  /-- The worker receives. -/
  | take
  | tick
  /-- `CreateInBatches`, in one transaction. -/
  | flush (err : Bool)

def step (s : State α) : Act α → Option (State α)
  | .enqueue log =>
      let s := { s with enqueued := s.enqueued ++ [log] }
      if s.queue.length < asyncLogChanSize then
        some { s with queue := s.queue ++ [log], queued := s.queued ++ [log] }
      else some { s with direct := s.direct ++ [log] }
  | .create i err =>
      match s.direct[i]? with
      | none => none
      | some log =>
          let s := { s with direct := s.direct.eraseIdx i }
          if err then some { s with lost := s.lost ++ [log] }
          else some { s with table := s.table ++ [log] }
  | .take =>
      match s.flushing, s.queue with
      | false, log :: queue =>
          some { s with
            queue := queue, batch := s.batch ++ [log],
            flushing := asyncLogBatchSize ≤ (s.batch ++ [log]).length }
      | _, _ => none
  | .tick =>
      -- an empty batch is not written
      if s.flushing then none else some { s with flushing := !s.batch.isEmpty }
  | .flush err =>
      if s.flushing then
        if err then some { s with flushing := false, batch := [], lost := s.lost ++ s.batch }
        else some { s with
          flushing := false, batch := [], table := s.table ++ s.batch,
          written := s.written ++ s.batch }
      else none

/-- Rows that are not written yet. -/
def State.pending (s : State α) : List α := s.batch ++ s.queue ++ s.direct

/-- A step in which no write fails. -/
def Succeeds (_ : State α) : Act α → Prop
  | .create _ err | .flush err => err = false
  | _ => True

instance (s : State α) : ∀ a, Decidable (Succeeds s a)
  | .create _ err | .flush err => inferInstanceAs (Decidable (err = false))
  | .enqueue _ | .take | .tick => .isTrue trivial

/-! ## Every row -/

structure Inv (s : State α) : Prop where
  rows : (s.table + s.lost + (s.batch + s.queue + s.direct) : Multiset α) = s.enqueued
  order : (s.written ++ s.batch ++ s.queue).Sublist s.queued
  written : s.written.Sublist s.table
  queue : s.queue.length ≤ asyncLogChanSize
  batch : s.batch.length ≤ asyncLogBatchSize
  waiting : s.flushing = false → s.batch.length < asyncLogBatchSize
  flushing : s.flushing = true → s.batch ≠ []

/-- While no write fails, nothing is lost and the channel's order is kept whole. -/
structure Whole (s : State α) : Prop where
  lost : s.lost = []
  order : s.written ++ s.batch ++ s.queue = s.queued

section

variable {s s' : State α} {a : Act α}

theorem coe_append (l m : List α) : ((l ++ m : List α) : Multiset α) = l + m := rfl

theorem coe_eraseIdx {l : List α} {i : Nat} {x : α} (h : l[i]? = some x) :
    (l : Multiset α) = ↑[x] + ↑(l.eraseIdx i) := by
  obtain ⟨hi, rfl⟩ := List.getElem?_eq_some_iff.1 h
  exact Multiset.coe_eq_coe.2 (List.getElem_cons_eraseIdx_perm hi).symm

theorem Inv.step (h : Inv s) (hs : step s a = some s') : Inv s' := by
  have hrows := h.rows
  cases a with
  | enqueue log =>
      simp only [AsyncWriter.step] at hs
      split at hs
      next hroom =>
        cases hs
        refine ⟨?_, ?_, h.written, ?_, h.batch, h.waiting, h.flushing⟩
        · rw [coe_append, coe_append, ← hrows]
          abel
        · rw [← List.append_assoc]
          exact h.order.append_right [log]
        · rw [List.length_append]
          exact hroom
      next =>
        cases hs
        refine ⟨?_, h.order, h.written, h.queue, h.batch, h.waiting, h.flushing⟩
        rw [coe_append, coe_append, ← hrows]
        abel
  | create i err =>
      simp only [AsyncWriter.step] at hs
      split at hs
      next => cases hs
      next log hlog =>
        rw [coe_eraseIdx hlog] at hrows
        split at hs
        next =>
          cases hs
          refine ⟨?_, h.order, h.written, h.queue, h.batch, h.waiting, h.flushing⟩
          rw [coe_append, ← hrows]
          abel
        next =>
          cases hs
          refine ⟨?_, h.order, h.written.trans (List.sublist_append_left _ _), h.queue, h.batch,
            h.waiting, h.flushing⟩
          rw [coe_append, ← hrows]
          abel
  | take =>
      simp only [AsyncWriter.step] at hs
      split at hs
      next log queue hidle hqueue =>
        cases hs
        have hbatch := h.waiting hidle
        rw [hqueue, ← List.singleton_append, coe_append] at hrows
        refine ⟨?_, ?_, h.written, ?_, ?_, fun hwait => ?_, fun _ => by simp⟩
        · rw [coe_append, ← hrows]
          abel
        · have horder := h.order
          rw [hqueue] at horder
          simpa using horder
        · have hle := h.queue
          rw [hqueue, List.length_cons] at hle
          exact Nat.le_of_succ_le hle
        · rw [List.length_append]
          exact hbatch
        · exact Nat.lt_of_not_le (of_decide_eq_false hwait)
      next => cases hs
  | tick =>
      simp only [AsyncWriter.step] at hs
      split at hs
      next => cases hs
      next hidle =>
        cases hs
        refine ⟨hrows, h.order, h.written, h.queue, h.batch,
          fun _ => h.waiting (Bool.eq_false_iff.2 hidle), fun hne => ?_⟩
        simpa using hne
  | flush err =>
      simp only [AsyncWriter.step] at hs
      split at hs
      next =>
        split at hs
        next =>
          cases hs
          refine ⟨?_, ?_, h.written, h.queue, Nat.zero_le _, fun _ => Nat.zero_lt_succ 99, nofun⟩
          · rw [coe_append, ← hrows]
            show _ + (_ + _) + (0 + _ + _) = _
            abel
          · refine List.Sublist.trans ?_ h.order
            rw [List.append_nil]
            exact (List.sublist_append_left _ _).append_right _
        next =>
          cases hs
          refine ⟨?_, ?_, h.written.append_right _, h.queue, Nat.zero_le _, fun _ => Nat.zero_lt_succ 99, nofun⟩
          · rw [coe_append, ← hrows]
            show _ + _ + _ + (0 + _ + _) = _
            abel
          · rw [List.append_nil]
            exact h.order
      next => cases hs

theorem Whole.step (h : Whole s) (ha : Succeeds s a) (hs : step s a = some s') : Whole s' := by
  cases a with
  | enqueue log =>
      simp only [AsyncWriter.step] at hs
      split at hs
      next =>
        cases hs
        exact ⟨h.lost, by rw [← List.append_assoc, h.order]⟩
      next =>
        cases hs
        exact ⟨h.lost, h.order⟩
  | create i err =>
      obtain rfl : err = false := ha
      simp only [AsyncWriter.step] at hs
      split at hs
      next => cases hs
      next =>
        cases hs
        exact ⟨h.lost, h.order⟩
  | take =>
      simp only [AsyncWriter.step] at hs
      split at hs
      next log queue _ hqueue =>
        cases hs
        refine ⟨h.lost, ?_⟩
        have horder := h.order
        rw [hqueue] at horder
        simpa using horder
      next => cases hs
  | tick =>
      simp only [AsyncWriter.step] at hs
      split at hs
      next => cases hs
      next =>
        cases hs
        exact ⟨h.lost, h.order⟩
  | flush err =>
      obtain rfl : err = false := ha
      simp only [AsyncWriter.step] at hs
      split at hs
      next =>
        cases hs
        exact ⟨h.lost, by rw [List.append_nil]; exact h.order⟩
      next => cases hs

/-! ## Going on to the end -/

/-- What is left to do: a row in the channel is received, then written; a batch that waits is
written at the next tick. -/
def State.left (s : State α) : Nat :=
  3 * s.queue.length + 2 * s.batch.length + s.direct.length + if s.flushing then 0 else 1

/-- While a row is not written, a step that succeeds brings the writer nearer to the end. -/
theorem exists_step (h : Inv s) (hpending : s.pending ≠ []) :
    ∃ a s', step s a = some s' ∧ s'.left < s.left ∧ s'.lost = s.lost ∧ s'.enqueued = s.enqueued := by
  by_cases hflushing : s.flushing = true
  · have hbatch := List.length_pos_of_ne_nil (h.flushing hflushing)
    refine ⟨.flush false, _, if_pos hflushing, ?_, rfl, rfl⟩
    rw [State.left, State.left, if_pos hflushing]
    show 3 * s.queue.length + 2 * 0 + s.direct.length + 1 < _
    omega
  · rw [Bool.not_eq_true] at hflushing
    cases hqueue : s.queue with
    | cons log queue =>
        have htake : step s .take = some { s with
            queue := queue, batch := s.batch ++ [log],
            flushing := asyncLogBatchSize ≤ (s.batch ++ [log]).length } := by
          rw [step, hflushing, hqueue]
        refine ⟨.take, _, htake, ?_, rfl, rfl⟩
        rw [State.left, State.left, hqueue, hflushing, List.length_cons]
        show 3 * queue.length + 2 * (s.batch ++ [log]).length + s.direct.length + _ < _
        rw [List.length_append, List.length_singleton]
        split <;> simp only [Bool.false_eq_true, if_false] <;> omega
    | nil =>
        cases hbatch : s.batch with
        | cons x xs =>
            have htick : step s .tick = some { s with flushing := true } := by
              rw [step, hflushing, hbatch]
              rfl
            refine ⟨.tick, _, htick, ?_, rfl, rfl⟩
            rw [State.left, State.left, hflushing]
            exact Nat.lt_succ_self _
        | nil =>
            rw [State.pending, hqueue, hbatch] at hpending
            obtain ⟨x, xs, hdirect⟩ := List.exists_cons_of_ne_nil hpending
            have hdirect : s.direct = x :: xs := hdirect
            have hcreate : step s (.create 0 false) = some { s with
                direct := xs, table := s.table ++ [x] } := by
              rw [step, hdirect]
              rfl
            refine ⟨.create 0 false, _, hcreate, ?_, rfl, rfl⟩
            rw [State.left, State.left, hdirect, List.length_cons]
            show 3 * s.queue.length + 2 * s.batch.length + xs.length + (if s.flushing then 0 else 1) < _
            omega

/-- The worker and the callers can write all there is. -/
theorem exists_drained (h : Inv s) : ∃ as s', Run.exec step s as = some s' ∧ s'.pending = [] ∧
    s'.lost = s.lost ∧ s'.enqueued = s.enqueued := by
  induction hn : s.left using Nat.strong_induction_on generalizing s with
  | _ n ih =>
      by_cases hpending : s.pending = []
      · exact ⟨[], s, rfl, hpending, rfl, rfl⟩
      · obtain ⟨a, m, hm, hlt, hlost, henqueued⟩ := exists_step h hpending
        obtain ⟨as, s', hs', hdone, hlost', henqueued'⟩ := ih m.left (hn ▸ hlt) (h.step hm) rfl
        exact ⟨a :: as, s', Run.exec_cons_eq_some.2 ⟨m, hm, hs'⟩, hdone, hlost'.trans hlost,
          henqueued'.trans henqueued⟩

theorem Inv.perm (h : Inv s) : (s.table ++ s.lost ++ s.pending).Perm s.enqueued :=
  Multiset.coe_eq_coe.1 h.rows

theorem inv_initial : Inv (initial : State α) :=
  ⟨rfl, List.Sublist.refl _, List.Sublist.refl _, Nat.zero_le _, Nat.zero_le _,
    fun _ => Nat.zero_lt_succ 99, nofun⟩

/-- Every row is in the table, in a failed write, or on its way, and once; the channel and the
batch keep their bounds; the worker's rows are in the table in the order of the channel; a run
without failures loses nothing; and from every state the writer can go on until every row is
in the table or in a write that had failed before. -/
theorem writer_spec {acts : List (Act α)} (h : Run.exec step initial acts = some s) :
    (s.table ++ s.lost ++ s.pending).Perm s.enqueued ∧
    s.queue.length ≤ 5000 ∧ s.batch.length ≤ 100 ∧
    s.written.Sublist s.table ∧ (s.written ++ s.batch ++ s.queue).Sublist s.queued ∧
    (Run.Along step Succeeds initial acts →
      s.lost = [] ∧ s.written ++ s.batch ++ s.queue = s.queued) ∧
    ∃ as s', Run.exec step s as = some s' ∧ s'.lost = s.lost ∧
      (s'.table ++ s'.lost).Perm s.enqueued := by
  have hinv : Inv s := Run.exec_invariant (P := fun _ _ => True) (fun _ _ _ hI _ hs => Inv.step hI hs)
    inv_initial (Run.along_of_forall (fun _ _ => trivial) _ _) h
  refine ⟨hinv.perm, hinv.queue, hinv.batch, hinv.written, hinv.order, fun hsucceeds => ?_, ?_⟩
  · have hwhole : Whole s := Run.exec_invariant (fun _ _ _ hI hP hs => Whole.step hI hP hs)
      ⟨rfl, rfl⟩ hsucceeds h
    exact ⟨hwhole.lost, hwhole.order⟩
  · obtain ⟨as, s', hs', hdone, hlost, henqueued⟩ := exists_drained hinv
    have hinv' : Inv s' := Run.exec_invariant (P := fun _ _ => True)
      (fun _ _ _ hI _ hs => Inv.step hI hs) hinv (Run.along_of_forall (fun _ _ => trivial) _ _) hs'
    have hperm := hinv'.perm
    rw [hdone, List.append_nil, henqueued] at hperm
    exact ⟨as, s', hs', hlost, hperm⟩

/-- A tick writes a batch of two rows while a third one arrives. -/
theorem writer_spec_tick : ∃ s, Run.exec step initial
    [.enqueue 1, .enqueue 2, .take, .take, .tick, .enqueue 3, .flush false] = some s ∧
    s.table = [1, 2] ∧ s.lost = [] := by
  refine ⟨_, rfl, rfl, ?_⟩
  exact ((@writer_spec Nat _ [.enqueue 1, .enqueue 2, .take, .take, .tick, .enqueue 3, .flush false]
    rfl).2.2.2.2.2.1 (by decide)).1

end

end DazeApi.Logs.AsyncWriter
