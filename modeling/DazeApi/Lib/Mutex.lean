import DazeApi.Lib.Pool
import DazeApi.Lib.Run

/-!
# Executions under one mutex

Any number of executions share a state and one mutex that is not re-entrant.  A program
says of every position whether its next statement requests the mutex, releases it or does
other work, and of every position whether an execution that stands there has the mutex in
hand; its laws say that the second follows from the first.

An execution that requests a mutex that is held waits.  One that holds it and requests it
waits for itself: `heldForever_of_selfRequest` says that nobody releases the mutex any
more, and `not_heldForever` that this is the only way to lose it, where every execution
that holds the mutex can go on to its release.
-/

namespace Mutex

inductive Op where
  | work
  | lock
  | unlock
deriving DecidableEq, Repr

/-- An execution has the mutex in hand after a statement. -/
def handAfter : Op → Bool → Bool
  | .work, hand => hand
  | .lock, _ => true
  | .unlock, _ => false

/-- The shared state is `σ`, a position is `π`, an answer of the environment is `α`, a call
is `κ` and a change from outside is `ε`. -/
structure Program (σ π α κ ε : Type*) where
  op : π → Op
  holds : π → Bool
  start : σ → κ → π
  next : σ → π → α → Option (σ × π)
  disturb : σ → ε → σ
  holds_start : ∀ s k, holds (start s k) = false
  holds_of_unlock : ∀ p, op p = .unlock → holds p = true
  holds_next : ∀ s p a x, next s p a = some x → holds x.2 = handAfter (op p) (holds p)

/-- The shared state, the execution that holds the mutex, and all executions. -/
structure State (σ π : Type*) where
  shared : σ
  holder : Option Nat
  procs : List π

inductive Act (α κ ε : Type*) where
  | start (k : κ)
  | run (i : Nat) (a : α)
  | disturb (e : ε)

def initial {σ π : Type*} (shared : σ) : State σ π := ⟨shared, none, []⟩

section

variable {σ π α κ ε : Type*} (P : Program σ π α κ ε)

/-- The holder after a statement of execution `i`. -/
def holderAfter (op : Op) (i : Nat) (holder : Option Nat) : Option Nat :=
  match op with
  | .work => holder
  | .lock => some i
  | .unlock => none

def step (s : State σ π) : Act α κ ε → Option (State σ π)
  | .start k => some { s with procs := s.procs ++ [P.start s.shared k] }
  | .run i a =>
      s.procs[i]?.bind fun p =>
        if P.op p = .lock ∧ s.holder ≠ none then none
        else (P.next s.shared p a).map fun x =>
          ⟨x.1, holderAfter (P.op p) i s.holder, s.procs.set i x.2⟩
  | .disturb e => some { s with shared := P.disturb s.shared e }

variable {P} {s s' : State σ π} {a : α} {i : Nat}

theorem step_run_eq_some :
    step P s (.run i a) = some s' ↔
      ∃ p x, s.procs[i]? = some p ∧ (P.op p = .lock → s.holder = none) ∧
        P.next s.shared p a = some x ∧
        s' = ⟨x.1, holderAfter (P.op p) i s.holder, s.procs.set i x.2⟩ := by
  simp only [step, Option.bind_eq_some_iff]
  constructor
  · rintro ⟨p, hp, h⟩
    split at h
    next => cases h
    next hlock =>
      obtain ⟨x, hx, rfl⟩ := Option.map_eq_some_iff.1 h
      exact ⟨p, x, hp, by simpa using hlock, hx, rfl⟩
  · rintro ⟨p, x, hp, hlock, hx, rfl⟩
    refine ⟨p, hp, ?_⟩
    rw [if_neg (by simpa using hlock), hx]
    rfl

/-! ## Who holds the mutex -/

/-- The holder is the execution whose position has the mutex in hand. -/
structure WellFormed (P : Program σ π α κ ε) (s : State σ π) : Prop where
  holds_iff : ∀ i p, s.procs[i]? = some p → (P.holds p = true ↔ s.holder = some i)
  exists_proc : ∀ i, s.holder = some i → ∃ p, s.procs[i]? = some p

theorem wellFormed_initial (shared : σ) : WellFormed P (initial shared) :=
  ⟨fun i p h => by simp [initial] at h, fun i h => by simp [initial] at h⟩

theorem WellFormed.start (hs : WellFormed P s) (k : κ) :
    WellFormed P { s with procs := s.procs ++ [P.start s.shared k] } := by
  constructor
  · intro i p hp
    rcases Nat.lt_or_ge i s.procs.length with hi | hi
    · rw [List.getElem?_append_left hi] at hp
      exact hs.holds_iff i p hp
    · -- the new execution holds nothing, and the holder is an old one
      have hnew : p = P.start s.shared k := by
        rw [List.getElem?_append_right hi] at hp
        exact List.mem_singleton.1 (List.mem_of_getElem? hp)
      rw [hnew, P.holds_start]
      refine ⟨fun h => Bool.noConfusion h, ?_⟩
      intro hholder
      obtain ⟨q, hq⟩ := hs.exists_proc i hholder
      rw [List.getElem?_eq_none hi] at hq
      cases hq
  · intro i hholder
    obtain ⟨p, hp⟩ := hs.exists_proc i hholder
    exact ⟨p, Pool.get_start_of_get hp⟩

theorem WellFormed.run (hs : WellFormed P s) (h : step P s (.run i a) = some s') :
    WellFormed P s' := by
  obtain ⟨p, x, hp, hlock, hx, rfl⟩ := step_run_eq_some.1 h
  have hpi := hs.holds_iff i p hp
  constructor
  · intro j q hq
    show P.holds q = true ↔ holderAfter (P.op p) i s.holder = some j
    rcases Pool.get_set hq with ⟨rfl, rfl⟩ | ⟨hne, hq⟩
    · rw [P.holds_next _ _ _ _ hx]
      cases hop : P.op p with
      | work => exact hpi
      | lock => simp [holderAfter, handAfter]
      | unlock => simp [holderAfter, handAfter]
    · have hqj := hs.holds_iff j q hq
      cases hop : P.op p with
      | work => exact hqj
      | lock =>
          rw [hqj, hlock hop]
          simpa [holderAfter] using Ne.symm hne
      | unlock =>
          rw [hqj, hpi.1 (P.holds_of_unlock p hop)]
          simpa [holderAfter] using Ne.symm hne
  · intro j hj
    -- the holder is execution `i`, or the one that it was
    by_cases hji : j = i
    · rw [hji]
      exact ⟨x.2, Pool.get_set_self hp⟩
    · cases hop : P.op p with
      | work =>
          rw [hop] at hj
          obtain ⟨q, hq⟩ := hs.exists_proc j hj
          exact ⟨q, Pool.get_set_ne hq (Ne.symm hji)⟩
      | lock =>
          rw [hop] at hj
          exact absurd (Option.some.inj hj).symm hji
      | unlock =>
          rw [hop] at hj
          cases hj

theorem wellFormed_step {act : Act α κ ε} (hs : WellFormed P s) (h : step P s act = some s') :
    WellFormed P s' := by
  cases act with
  | start k =>
      cases h
      exact hs.start k
  | run i a => exact hs.run h
  | disturb e =>
      cases h
      exact ⟨hs.holds_iff, hs.exists_proc⟩

/-! ## Waiting for oneself -/

variable (P) in
/-- The execution that holds the mutex requests it. -/
def SelfRequest (s : State σ π) : Prop :=
  ∃ i p, s.holder = some i ∧ s.procs[i]? = some p ∧ P.op p = .lock

variable (P) in
/-- In no continuation the mutex is released. -/
def HeldForever (s : State σ π) : Prop :=
  ∃ i, s.holder = some i ∧ ∀ acts s', Run.exec (step P) s acts = some s' → s'.holder = some i

variable (P) in
/-- No execution waits for itself, and the mutex is not lost. -/
def Disciplined (s : State σ π) : Prop := ¬ SelfRequest P s ∧ ¬ HeldForever P s

/-- While the holder waits for itself, no other execution releases the mutex. -/
theorem selfRequest_kept {act : Act α κ ε} {p : π} (hs : WellFormed P s) (hi : s.holder = some i)
    (hp : s.procs[i]? = some p) (hop : P.op p = .lock) (h : step P s act = some s') :
    s'.holder = some i ∧ s'.procs[i]? = some p := by
  cases act with
  | start k =>
      cases h
      exact ⟨hi, Pool.get_start_of_get hp⟩
  | disturb e =>
      cases h
      exact ⟨hi, hp⟩
  | run j a =>
      obtain ⟨q, x, hq, hlock, hx, rfl⟩ := step_run_eq_some.1 h
      cases hopq : P.op q with
      | lock =>
          rw [hlock hopq] at hi
          cases hi
      | work =>
          have hne : j ≠ i := by
            intro hji
            subst hji
            rw [hp] at hq
            cases hq
            rw [hop] at hopq
            cases hopq
          exact ⟨hi, Pool.get_set_ne hp hne⟩
      | unlock =>
          have hj := (hs.holds_iff j q hq).1 (P.holds_of_unlock q hopq)
          rw [hi] at hj
          cases hj
          rw [hp] at hq
          cases hq
          rw [hop] at hopq
          cases hopq

theorem heldForever_of_selfRequest (hs : WellFormed P s) (h : SelfRequest P s) :
    HeldForever P s := by
  obtain ⟨i, p, hi, hp, hop⟩ := h
  refine ⟨i, hi, ?_⟩
  intro acts s' hs'
  have hinv := Run.exec_always
    (I := fun s => WellFormed P s ∧ s.holder = some i ∧ s.procs[i]? = some p)
    (fun s act s' hI hstep =>
      ⟨wellFormed_step hI.1 hstep, selfRequest_kept hI.1 hI.2.1 hI.2.2 hop hstep⟩)
    ⟨hs, hi, hp⟩ hs'
  exact hinv.2.1

/-! ## The release -/

variable (P) in
/-- Every position that has the mutex in hand and does not request it can be left towards
the release; `rank` is how far it is. -/
def Releases (rank : π → Nat) : Prop :=
  ∀ s p, P.holds p = true → P.op p ≠ .lock →
    ∃ a x, P.next s p a = some x ∧ (P.op p = .unlock ∨ P.op x.2 ≠ .lock ∧ rank x.2 < rank p)

theorem exists_release {rank : π → Nat} (hrel : Releases P rank) (n : Nat) :
    ∀ (s : State σ π) (p : π), WellFormed P s → s.holder = some i → s.procs[i]? = some p →
      P.op p ≠ .lock → rank p < n →
      ∃ acts s', Run.exec (step P) s acts = some s' ∧ s'.holder = none := by
  induction n with
  | zero =>
      intro s p _ _ _ _ hrank
      exact absurd hrank (Nat.not_lt_zero _)
  | succ n ih =>
      intro s p hs hi hp hop hrank
      have hholds := (hs.holds_iff i p hp).2 hi
      obtain ⟨a, x, hx, hnext⟩ := hrel s.shared p hholds hop
      have hstep := step_run_eq_some.2 ⟨p, x, hp, fun h => absurd h hop, hx, rfl⟩
      rcases hnext with hunlock | ⟨hop', hrank'⟩
      · refine ⟨[.run i a], _, Run.exec_cons_eq_some.2 ⟨_, hstep, rfl⟩, ?_⟩
        simp [holderAfter, hunlock]
      · by_cases hunlock : P.op p = .unlock
        · refine ⟨[.run i a], _, Run.exec_cons_eq_some.2 ⟨_, hstep, rfl⟩, ?_⟩
          simp [holderAfter, hunlock]
        · have hwork : P.op p = .work := by
            cases h : P.op p with
            | work => rfl
            | lock => exact absurd h hop
            | unlock => exact absurd h hunlock
          obtain ⟨acts, s', hs', hnone⟩ := ih _ x.2 (wellFormed_step hs hstep)
            (by simp [holderAfter, hwork, hi]) (Pool.get_set_self hp) hop' (by omega)
          exact ⟨.run i a :: acts, s', Run.exec_cons_eq_some.2 ⟨_, hstep, hs'⟩, hnone⟩

theorem not_heldForever {rank : π → Nat} (hrel : Releases P rank) (hs : WellFormed P s)
    (h : ¬ SelfRequest P s) : ¬ HeldForever P s := by
  rintro ⟨i, hi, hforever⟩
  obtain ⟨p, hp⟩ := hs.exists_proc i hi
  have hop : P.op p ≠ .lock := fun hop => h ⟨i, p, hi, hp, hop⟩
  obtain ⟨acts, s', hs', hnone⟩ :=
    exists_release hrel (rank p + 1) s p hs hi hp hop (Nat.lt_succ_self _)
  have hheld := hforever acts s' hs'
  rw [hnone] at hheld
  cases hheld

theorem disciplined_iff {rank : π → Nat} (hrel : Releases P rank) (hs : WellFormed P s) :
    Disciplined P s ↔ ¬ SelfRequest P s :=
  ⟨fun h => h.1, fun h => ⟨h, not_heldForever hrel hs h⟩⟩

/-! ## Runs -/

variable (P) in
/-- The step brings an execution to a request of the mutex that it has in hand. -/
def Clash (s : State σ π) : Act α κ ε → Prop
  | .run i a =>
      ∃ p x, s.procs[i]? = some p ∧ P.next s.shared p a = some x ∧ P.holds x.2 = true ∧
        P.op x.2 = .lock
  | _ => False

/-- The first execution that waits for itself comes there by a clash. -/
theorem selfRequest_step_iff {act : Act α κ ε} (hs : WellFormed P s) (hself : ¬ SelfRequest P s)
    (h : step P s act = some s') : SelfRequest P s' ↔ Clash P s act := by
  have hs' := wellFormed_step hs h
  cases act with
  | start k =>
      refine ⟨?_, fun hclash => hclash.elim⟩
      rintro ⟨i, p, hi, hp, hop⟩
      cases h
      obtain ⟨q, hq⟩ := hs.exists_proc i hi
      have hqp : (s.procs ++ [P.start s.shared k])[i]? = some q := Pool.get_start_of_get hq
      cases hqp.symm.trans hp
      exact hself ⟨i, p, hi, hq, hop⟩
  | disturb e =>
      cases h
      exact ⟨hself, fun hclash => hclash.elim⟩
  | run i a =>
      obtain ⟨p, x, hp, hlock, hx, rfl⟩ := step_run_eq_some.1 h
      constructor
      · rintro ⟨j, q, hj, hq, hop⟩
        have hholds := (hs'.holds_iff j q hq).2 hj
        rcases Pool.get_set hq with ⟨rfl, rfl⟩ | ⟨hne, hq'⟩
        · exact ⟨p, x, hp, hx, hholds, hop⟩
        · exact absurd ⟨j, q, (hs.holds_iff j q hq').1 hholds, hq', hop⟩ hself
      · rintro ⟨q, y, hq, hy, hholds, hop⟩
        rw [hp] at hq
        cases hq
        rw [hx] at hy
        cases hy
        have hget : (s.procs.set i x.2)[i]? = some x.2 := Pool.get_set_self hp
        exact ⟨i, x.2, (hs'.holds_iff i x.2 hget).1 hholds, hget, hop⟩

/-- A run is disciplined throughout exactly if none of its steps is a clash. -/
theorem always_disciplined_iff {rank : π → Nat} (hrel : Releases P rank) {acts : List (Act α κ ε)}
    (hs : WellFormed P s) (hself : ¬ SelfRequest P s) (h : Run.exec (step P) s acts = some s') :
    Run.Always (step P) (Disciplined P) s acts ↔
      Run.Along (step P) (fun s act => ¬ Clash P s act) s acts := by
  have hwf : Run.Along (step P) (fun s _ => WellFormed P s) s acts :=
    Run.Along.mono (P := fun _ _ => True) (fun _ _ hI _ => hI)
      (fun _ _ _ hI _ hstep => wellFormed_step hI hstep) hs
      (Run.along_of_forall (fun _ _ => trivial) acts s)
  refine Run.always_iff_along ?_ acts s s' ((disciplined_iff hrel hs).2 hself) hwf h
  intro s act s' hdis hs hstep
  rw [disciplined_iff hrel (wellFormed_step hs hstep), selfRequest_step_iff hs hdis.1 hstep]

end

end Mutex
