import DazeApi.Lib.Mutex

/-!
# Order locks

`LockOrder` and `UnlockOrder` (`controller/topup.go`): one mutex for each trade number, made
by the first goroutine that asks for it and deleted by the last.  The map and the reference
counts change under `createLock` only; each access to the map, each change of a count and
each request or release of a mutex is a step of its own.

A goroutine locks the order of one trade number, does its work and unlocks the order.
-/

namespace DazeApi.Payment.OrderLocks

/-! ## The program -/

/-- `refCountedMutex`. -/
structure RefCountedMutex where
  locked : Bool
  refCount : Int
deriving DecidableEq, Repr

/-- `orderLocks`, and the objects that were made so far.  A pointer is the number of its
object. -/
structure Shared where
  orderLocks : String → Option Nat
  objects : Nat → RefCountedMutex
  size : Nat

/-- Where a goroutine stands: what its next statement is, with its variable `rcm`. -/
inductive Pos where
  | lockCreate
  | load
  | store
  | count (rcm : Nat)
  | unlockCreate (rcm : Nat)
  | lockMu (rcm : Nat)
  | critical (rcm : Nat)
  | reload (rcm : Nat)
  | unlockMu (rcm : Nat)
  | relockCreate (rcm : Nat)
  | uncount (rcm : Nat)
  | test (rcm : Nat)
  | delete (rcm : Nat)
  | leaveCreate
  | done
  /-- The exit of `UnlockOrder` that finds no entry. -/
  | notFound
  /-- The runtime stops a program that unlocks a mutex that is not locked. -/
  | fatal
deriving DecidableEq, Repr

structure Proc where
  tradeNo : String
  pos : Pos
deriving DecidableEq, Repr

/-- What a statement does with `createLock`. -/
def Pos.op : Pos → Mutex.Op
  | .lockCreate | .relockCreate _ => .lock
  | .unlockCreate _ | .leaveCreate => .unlock
  | _ => .work

/-- The goroutine has `createLock`. -/
def Pos.inCreate : Pos → Bool
  | .load | .store | .count _ | .unlockCreate _ | .uncount _ | .test _ | .delete _
  | .leaveCreate => true
  | _ => false

/-- The object changes. -/
def Shared.setObject (s : Shared) (o : Nat) (obj : RefCountedMutex) : Shared :=
  { s with objects := Function.update s.objects o obj }

def Shared.setEntry (s : Shared) (tradeNo : String) (entry : Option Nat) : Shared :=
  { s with orderLocks := Function.update s.orderLocks tradeNo entry }

def Shared.addCount (s : Shared) (o : Nat) (d : Int) : Shared :=
  s.setObject o { s.objects o with refCount := (s.objects o).refCount + d }

def Shared.setLocked (s : Shared) (o : Nat) (locked : Bool) : Shared :=
  s.setObject o { s.objects o with locked := locked }

/-- One statement; `none` is a goroutine that waits for the mutex of its order or has
returned. -/
def next (s : Shared) (p : Proc) : Unit → Option (Shared × Proc) := fun _ =>
  match p.pos with
  | .lockCreate => some (s, { p with pos := .load })
  | .load =>
      match s.orderLocks p.tradeNo with
      | some o => some (s, { p with pos := .count o })
      | none => some (s, { p with pos := .store })
  | .store =>
      some ({ s.setEntry p.tradeNo (some s.size) with size := s.size + 1 },
        { p with pos := .count s.size })
  | .count o => some (s.addCount o 1, { p with pos := .unlockCreate o })
  | .unlockCreate o => some (s, { p with pos := .lockMu o })
  | .lockMu o =>
      if (s.objects o).locked then none
      else some (s.setLocked o true, { p with pos := .critical o })
  | .critical o => some (s, { p with pos := .reload o })
  | .reload _ =>
      match s.orderLocks p.tradeNo with
      | some o => some (s, { p with pos := .unlockMu o })
      | none => some (s, { p with pos := .notFound })
  | .unlockMu o =>
      if (s.objects o).locked then some (s.setLocked o false, { p with pos := .relockCreate o })
      else some (s, { p with pos := .fatal })
  | .relockCreate o => some (s, { p with pos := .uncount o })
  | .uncount o => some (s.addCount o (-1), { p with pos := .test o })
  | .test o =>
      if (s.objects o).refCount = 0 then some (s, { p with pos := .delete o })
      else some (s, { p with pos := .leaveCreate })
  | .delete _ => some (s.setEntry p.tradeNo none, { p with pos := .leaveCreate })
  | .leaveCreate => some (s, { p with pos := .done })
  | .done => none
  | .notFound => none
  | .fatal => none

theorem inCreate_next {s : Shared} {p : Proc} {u : Unit} {x : Shared × Proc}
    (h : next s p u = some x) : x.2.pos.inCreate = Mutex.handAfter p.pos.op p.pos.inCreate := by
  obtain ⟨tradeNo, pos⟩ := p
  cases pos with
  | load =>
      simp only [next] at h
      split at h <;> cases h <;> rfl
  | lockMu o =>
      simp only [next] at h
      split at h <;> cases h
      rfl
  | reload o =>
      simp only [next] at h
      split at h <;> cases h <;> rfl
  | unlockMu o =>
      simp only [next] at h
      split at h <;> cases h <;> rfl
  | test o =>
      simp only [next] at h
      split at h <;> cases h <;> rfl
  | done => cases h
  | notFound => cases h
  | fatal => cases h
  | lockCreate => cases h; rfl
  | store => cases h; rfl
  | count o => cases h; rfl
  | unlockCreate o => cases h; rfl
  | critical o => cases h; rfl
  | relockCreate o => cases h; rfl
  | uncount o => cases h; rfl
  | delete o => cases h; rfl
  | leaveCreate => cases h; rfl

/-- The goroutines, with `createLock` as their mutex. -/
def program : Mutex.Program Shared Proc Unit String Empty where
  op p := p.pos.op
  holds p := p.pos.inCreate
  start _ tradeNo := ⟨tradeNo, .lockCreate⟩
  next := next
  disturb s _ := s
  holds_start _ _ := rfl
  holds_of_unlock := by
    rintro ⟨tradeNo, pos⟩ h
    cases pos <;> first | rfl | cases h
  holds_next _ _ _ _ h := inCreate_next h

abbrev State := Mutex.State Shared Proc

abbrev Act := Mutex.Act Unit String Empty

/-- No order is locked. -/
def initial : State := Mutex.initial ⟨fun _ => none, fun _ => ⟨false, 0⟩, 0⟩

/-! ## What a goroutine has of an object -/

/-- The object in whose count the goroutine is: between the increment and the decrement. -/
def Pos.counted : Pos → Option Nat
  | .unlockCreate o | .lockMu o | .critical o | .reload o | .unlockMu o | .relockCreate o
  | .uncount o => some o
  | _ => none

/-- The object whose mutex the goroutine has: the critical section, up to the release. -/
def Pos.locks : Pos → Option Nat
  | .critical o | .reload o | .unlockMu o => some o
  | _ => none

/-- The object whose mutex the goroutine waits for. -/
def Pos.waits : Pos → Option Nat
  | .lockMu o => some o
  | _ => none

/-- The object whose count the goroutine is about to change or has just changed. -/
def Pos.changes : Pos → Option Nat
  | .count o | .test o | .delete o => some o
  | _ => none

/-- The object that the map has for the goroutine. -/
def Pos.refers (pos : Pos) : Option Nat := pos.counted.or pos.changes

def countOf (o : Nat) (p : Proc) : Int := if p.pos.counted = some o then 1 else 0

def lockOf (o : Nat) (p : Proc) : Int := if p.pos.locks = some o then 1 else 0

theorem countOf_nonneg (o : Nat) (p : Proc) : 0 ≤ countOf o p := by
  rw [countOf]
  split <;> decide

theorem lockOf_nonneg (o : Nat) (p : Proc) : 0 ≤ lockOf o p := by
  rw [lockOf]
  split <;> decide

theorem countOf_of_counted {p : Proc} {o : Nat} (h : p.pos.counted = some o) (o' : Nat) :
    countOf o' p = if o' = o then 1 else 0 := by
  simp only [countOf, h, Option.some.injEq, eq_comm]

theorem countOf_of_uncounted {p : Proc} (h : p.pos.counted = none) (o : Nat) :
    countOf o p = 0 := by
  rw [countOf, h]
  rfl

theorem lockOf_of_locks {p : Proc} {o : Nat} (h : p.pos.locks = some o) (o' : Nat) :
    lockOf o' p = if o' = o then 1 else 0 := by
  simp only [lockOf, h, Option.some.injEq, eq_comm]

theorem lockOf_of_unlocked {p : Proc} (h : p.pos.locks = none) (o : Nat) : lockOf o p = 0 := by
  rw [lockOf, h]
  rfl

theorem counted_of_locks {pos : Pos} {o : Nat} (h : pos.locks = some o) : pos.counted = some o := by
  cases pos <;> cases h <;> rfl

theorem inCreate_of_changes {pos : Pos} {o : Nat} (h : pos.changes = some o) :
    pos.inCreate = true := by
  cases pos <;> cases h <;> rfl

/-! ## The invariant -/

/-- The map, the counts and the goroutines agree. -/
structure Inv (s : Shared) (ps : List Proc) : Prop where
  refers : ∀ p ∈ ps, ∀ o, p.pos.refers = some o → s.orderLocks p.tradeNo = some o
  count : ∀ o, (s.objects o).refCount = Pool.total (countOf o) ps
  locked : ∀ o, Pool.total (lockOf o) ps = if (s.objects o).locked then 1 else 0
  entry : ∀ tradeNo o, s.orderLocks tradeNo = some o →
    o < s.size ∧ (0 < (s.objects o).refCount ∨
      ∃ p ∈ ps, p.tradeNo = tradeNo ∧ p.pos.changes = some o)
  inj : ∀ tradeNo tradeNo' o, s.orderLocks tradeNo = some o → s.orderLocks tradeNo' = some o →
    tradeNo = tradeNo'
  unborn : ∀ o, s.size ≤ o → s.objects o = ⟨false, 0⟩
  store : ∀ p ∈ ps, p.pos = .store → s.orderLocks p.tradeNo = none
  delete : ∀ p ∈ ps, ∀ o, p.pos = .delete o → (s.objects o).refCount = 0
  fine : ∀ p ∈ ps, p.pos ≠ .notFound ∧ p.pos ≠ .fatal

section

variable {s s' : Shared} {ps : List Proc} {i o : Nat} {p q : Proc}

theorem refers_of_counted {pos : Pos} (h : pos.counted = some o) : pos.refers = some o := by
  rw [Pos.refers, h]
  rfl

theorem Inv.refCount_nonneg (h : Inv s ps) (o : Nat) : 0 ≤ (s.objects o).refCount := by
  rw [h.count]
  exact List.sum_nonneg fun x hx => by
    obtain ⟨p, -, rfl⟩ := List.mem_map.1 hx
    exact countOf_nonneg o p

theorem Inv.refCount_pos (h : Inv s ps) (hp : ps[i]? = some p) (ho : p.pos.counted = some o) :
    0 < (s.objects o).refCount := by
  have hle := Pool.le_total_of_get (countOf_nonneg o) hp
  rw [countOf, if_pos ho, ← h.count] at hle
  omega

/-- A goroutine that has the mutex of an object has it alone. -/
theorem Inv.eq_of_locks (h : Inv s ps) {j : Nat} (hp : ps[i]? = some p) (hq : ps[j]? = some q)
    (hpo : p.pos.locks = some o) (hqo : q.pos.locks = some o) : i = j := by
  by_contra hij
  have hle := Pool.add_le_total_of_get (lockOf_nonneg o) hp hq hij
  rw [lockOf, lockOf, if_pos hpo, if_pos hqo, h.locked] at hle
  split at hle <;> omega

theorem Inv.locked_of_locks (h : Inv s ps) (hp : ps[i]? = some p) (ho : p.pos.locks = some o) :
    (s.objects o).locked = true := by
  have hle := Pool.le_total_of_get (lockOf_nonneg o) hp
  rw [lockOf, if_pos ho, h.locked] at hle
  by_contra hfree
  rw [if_neg hfree] at hle
  omega

/-- A step that changes nothing shared, of a goroutine whose count and mutex stay. -/
theorem Inv.move (h : Inv s ps) (hp : ps[i]? = some p) (htrade : q.tradeNo = p.tradeNo)
    (hcount : q.pos.counted = p.pos.counted) (hlocks : q.pos.locks = p.pos.locks)
    (hrefers : ∀ o, q.pos.refers = some o → s.orderLocks p.tradeNo = some o)
    (hchanges : ∀ o, p.pos.changes = some o → q.pos.changes = some o ∨ 0 < (s.objects o).refCount)
    (hstore : q.pos = .store → s.orderLocks p.tradeNo = none)
    (hdelete : ∀ o, q.pos = .delete o → (s.objects o).refCount = 0)
    (hfine : q.pos ≠ .notFound ∧ q.pos ≠ .fatal) : Inv s (ps.set i q) where
  refers := Pool.forall_set h.refers (htrade ▸ hrefers)
  count := by
    intro o
    rw [Pool.total_set (countOf o) q hp, h.count, countOf, countOf, hcount]
    omega
  locked := by
    intro o
    rw [Pool.total_set (lockOf o) q hp, ← h.locked, lockOf, lockOf, hlocks]
    omega
  entry := by
    intro tradeNo o ho
    obtain ⟨hsize, hold⟩ := h.entry tradeNo o ho
    refine ⟨hsize, or_iff_not_imp_left.2 fun hcounts => ?_⟩
    refine Pool.exists_set hp ?_ (hold.resolve_left hcounts)
    rintro ⟨hpt, hpo⟩
    exact ⟨htrade.trans hpt, (hchanges o hpo).resolve_right hcounts⟩
  inj := h.inj
  unborn := h.unborn
  store := Pool.forall_set h.store (htrade ▸ hstore)
  delete := Pool.forall_set h.delete hdelete
  fine := Pool.forall_set h.fine hfine

/-- A goroutine is started. -/
theorem Inv.start (h : Inv s ps) (tradeNo : String) : Inv s (ps ++ [⟨tradeNo, .lockCreate⟩]) where
  refers := Pool.forall_start h.refers fun o ho => by cases ho
  count := by
    intro o
    rw [Pool.total_start, h.count]
    simp [countOf, Pos.counted]
  locked := by
    intro o
    rw [Pool.total_start, ← h.locked]
    simp [lockOf, Pos.locks]
  entry := by
    intro tradeNo' o ho
    obtain ⟨hsize, hpos | ⟨r, hr, hro⟩⟩ := h.entry tradeNo' o ho
    · exact ⟨hsize, Or.inl hpos⟩
    · exact ⟨hsize, Or.inr ⟨r, List.mem_append_left _ hr, hro⟩⟩
  inj := h.inj
  unborn := h.unborn
  store := Pool.forall_start h.store fun hstore => by cases hstore
  delete := Pool.forall_start h.delete fun o ho => by cases ho
  fine := Pool.forall_start h.fine ⟨by simp, by simp⟩

/-- The goroutines other than the one that steps have not `createLock`. -/
def Alone (ps : List Proc) (i : Nat) : Prop :=
  ∀ (j : Nat) (r : Proc), ps[j]? = some r → j ≠ i → r.pos.inCreate = false

theorem Alone.ne {pos : Pos} (h : Alone ps i) {j : Nat} {r : Proc} (hr : ps[j]? = some r)
    (hji : j ≠ i) (hpos : pos.inCreate = true) : r.pos ≠ pos := by
  intro heq
  have hout := h j r hr hji
  rw [heq, hpos] at hout
  cases hout

@[simp] theorem objects_setObject (s : Shared) (o o' : Nat) (obj : RefCountedMutex) :
    (s.setObject o obj).objects o' = if o' = o then obj else s.objects o' :=
  Function.update_apply ..

@[simp] theorem orderLocks_setObject (s : Shared) (o : Nat) (obj : RefCountedMutex) :
    (s.setObject o obj).orderLocks = s.orderLocks := rfl

@[simp] theorem objects_setEntry (s : Shared) (tradeNo : String) (entry : Option Nat) :
    (s.setEntry tradeNo entry).objects = s.objects := rfl

@[simp] theorem size_setObject (s : Shared) (o : Nat) (obj : RefCountedMutex) :
    (s.setObject o obj).size = s.size := rfl

/-- The entry of an object that is made and stored. -/
theorem Inv.makeEntry (h : Inv s ps) (hp : ps[i]? = some p) (hpos : p.pos = .store)
    (halone : Alone ps i) :
    Inv { s.setEntry p.tradeNo (some s.size) with size := s.size + 1 }
      (ps.set i { p with pos := .count s.size }) := by
  have hnone := h.store p (Pool.mem_of_get hp) hpos
  have hother : ∀ {tradeNo : String} {o : Nat}, s.orderLocks tradeNo = some o →
      Function.update s.orderLocks p.tradeNo (some s.size) tradeNo = some o := by
    intro tradeNo o ho
    rw [Function.update_of_ne, ho]
    rintro rfl
    rw [hnone] at ho
    cases ho
  have hcases : ∀ {tradeNo : String} {o : Nat},
      Function.update s.orderLocks p.tradeNo (some s.size) tradeNo = some o →
        tradeNo = p.tradeNo ∧ o = s.size ∨ s.orderLocks tradeNo = some o := by
    intro tradeNo o ho
    rw [Function.update_apply] at ho
    split at ho
    next heq => exact Or.inl ⟨heq, (Option.some.inj ho).symm⟩
    next => exact Or.inr ho
  exact
    { refers := Pool.forall_set (fun r hr o ho => hother (h.refers r hr o ho)) fun o ho => by
        cases ho
        exact Function.update_self ..
      count := by
        intro o
        rw [Pool.total_set (countOf o) _ hp, countOf_of_uncounted (by rw [hpos]; rfl),
          countOf_of_uncounted rfl, objects_setEntry, h.count]
        omega
      locked := by
        intro o
        rw [Pool.total_set (lockOf o) _ hp, lockOf_of_unlocked (by rw [hpos]; rfl),
          lockOf_of_unlocked rfl, h.locked, objects_setEntry]
        omega
      entry := by
        intro tradeNo o ho
        rcases hcases ho with ⟨rfl, rfl⟩ | hold
        · exact ⟨Nat.lt_succ_self _,
            Or.inr ⟨_, Pool.mem_of_get (Pool.get_set_self hp), rfl, rfl⟩⟩
        · obtain ⟨hsize, hin⟩ := h.entry tradeNo o hold
          refine ⟨Nat.lt_succ_of_lt hsize, hin.imp_right (Pool.exists_set hp ?_)⟩
          rintro ⟨-, hpo⟩
          rw [hpos] at hpo
          cases hpo
      inj := by
        intro tradeNo tradeNo' o ho ho'
        rcases hcases ho with ⟨rfl, rfl⟩ | hold <;> rcases hcases ho' with ⟨rfl, heq⟩ | hold'
        · rfl
        · exact absurd (h.entry _ _ hold').1 (Nat.lt_irrefl _)
        · exact absurd (heq ▸ (h.entry _ _ hold).1) (Nat.lt_irrefl _)
        · exact h.inj _ _ o hold hold'
      unborn := fun o ho => h.unborn o (Nat.le_of_succ_le ho)
      store := by
        intro r hr hrpos
        rcases Pool.mem_set hr with rfl | ⟨j, hj, hji⟩
        · cases hrpos
        · exact absurd hrpos (halone.ne hj hji rfl)
      delete := Pool.forall_set h.delete fun o ho => by cases ho
      fine := Pool.forall_set h.fine ⟨by simp, by simp⟩ }

/-- A change of the count of an object, by a goroutine that has `createLock`. -/
theorem Inv.addCount (h : Inv s ps) (hp : ps[i]? = some p) (hpo : p.pos.refers = some o)
    (halone : Alone ps i) {pos : Pos} {d : Int} (hqo : pos.refers = some o)
    (hcount : ∀ o', countOf o' ⟨p.tradeNo, pos⟩ = countOf o' p + if o' = o then d else 0)
    (hlocks : pos.locks = p.pos.locks) (hpchanges : ∀ o', p.pos.changes = some o' → o' = o)
    (hentry : 0 < (s.objects o).refCount + d ∨ pos.changes = some o) (hstore : pos ≠ .store)
    (hdelete : ∀ o', pos ≠ .delete o') (hfine : pos ≠ .notFound ∧ pos ≠ .fatal) :
    Inv (s.addCount o d) (ps.set i ⟨p.tradeNo, pos⟩) := by
  have hmap := h.refers p (Pool.mem_of_get hp) o hpo
  exact
    { refers := Pool.forall_set h.refers fun o' ho' => by
        rw [hqo] at ho'
        cases ho'
        exact hmap
      count := by
        intro o'
        rw [Pool.total_set (countOf o') _ hp, hcount, ← h.count, Shared.addCount,
          objects_setObject]
        by_cases heq : o' = o
        · rw [if_pos heq, if_pos heq, heq]
          dsimp only
          omega
        · rw [if_neg heq, if_neg heq]
          omega
      locked := by
        intro o'
        rw [Pool.total_set (lockOf o') _ hp, h.locked, lockOf, lockOf, hlocks, Shared.addCount,
          objects_setObject]
        by_cases heq : o' = o
        · rw [if_pos heq, heq]
          dsimp only
          omega
        · rw [if_neg heq]
          omega
      entry := by
        intro tradeNo o' ho'
        obtain ⟨hsize, hold⟩ := h.entry tradeNo o' ho'
        refine ⟨hsize, ?_⟩
        rw [Shared.addCount, objects_setObject]
        by_cases heq : o' = o
        · rw [if_pos heq]
          rcases hentry with hpos | hchanges
          · exact Or.inl hpos
          · rw [heq] at ho'
            exact Or.inr ⟨_, Pool.mem_of_get (Pool.get_set_self hp),
              h.inj _ _ o hmap ho', by rw [heq]; exact hchanges⟩
        · rw [if_neg heq]
          refine hold.imp_right (Pool.exists_set hp ?_)
          rintro ⟨-, hpo'⟩
          exact absurd (hpchanges o' hpo') heq
      inj := h.inj
      unborn := by
        intro o' ho'
        have hne : o' ≠ o := by
          rintro rfl
          exact absurd (h.entry _ _ hmap).1 (Nat.not_lt.2 ho')
        rw [Shared.addCount, objects_setObject, if_neg hne]
        exact h.unborn o' ho'
      store := Pool.forall_set h.store fun hpos => absurd hpos hstore
      delete := by
        intro r hr o' hro'
        rcases Pool.mem_set hr with rfl | ⟨j, hj, hji⟩
        · exact absurd hro' (hdelete o')
        · exact absurd hro' (halone.ne hj hji rfl)
      fine := Pool.forall_set h.fine hfine }

/-- The mutex of an object is locked or unlocked. -/
theorem Inv.setLocked (h : Inv s ps) (hp : ps[i]? = some p) (hpo : p.pos.counted = some o)
    {pos : Pos} {locked : Bool} (hcounted : pos.counted = some o) (hpchanges : p.pos.changes = none)
    (hlock : ∀ o', lockOf o' ⟨p.tradeNo, pos⟩ - lockOf o' p =
      if o' = o then (if locked then 1 else 0) - (if (s.objects o).locked then 1 else 0) else 0)
    (hstore : pos ≠ .store) (hdelete : ∀ o', pos ≠ .delete o')
    (hfine : pos ≠ .notFound ∧ pos ≠ .fatal) :
    Inv (s.setLocked o locked) (ps.set i ⟨p.tradeNo, pos⟩) := by
  have hmap := h.refers p (Pool.mem_of_get hp) o (refers_of_counted hpo)
  have hcount : ∀ o', ((s.setLocked o locked).objects o').refCount = (s.objects o').refCount := by
    intro o'
    rw [Shared.setLocked, objects_setObject]
    split
    next heq => rw [heq]
    next => rfl
  exact
    { refers := Pool.forall_set h.refers fun o' ho' => by
        rw [refers_of_counted hcounted] at ho'
        cases ho'
        exact hmap
      count := by
        intro o'
        rw [hcount, Pool.total_set (countOf o') _ hp, ← h.count, countOf, countOf, hcounted, hpo]
        omega
      locked := by
        intro o'
        have hstep := hlock o'
        rw [Pool.total_set (lockOf o') _ hp, h.locked, Shared.setLocked, objects_setObject]
        by_cases heq : o' = o
        · rw [if_pos heq] at hstep ⊢
          rw [heq] at hstep ⊢
          dsimp only
          omega
        · rw [if_neg heq] at hstep ⊢
          omega
      entry := by
        intro tradeNo o' ho'
        obtain ⟨hsize, hold⟩ := h.entry tradeNo o' ho'
        refine ⟨hsize, ?_⟩
        rw [hcount]
        refine hold.imp_right (Pool.exists_set hp ?_)
        rintro ⟨-, hpo'⟩
        rw [hpchanges] at hpo'
        cases hpo'
      inj := h.inj
      unborn := by
        intro o' ho'
        have hne : o' ≠ o := by
          rintro rfl
          exact absurd (h.entry _ _ hmap).1 (Nat.not_lt.2 ho')
        rw [Shared.setLocked, objects_setObject, if_neg hne]
        exact h.unborn o' ho'
      store := Pool.forall_set h.store fun hpos => absurd hpos hstore
      delete := by
        intro r hr o' hro'
        rw [hcount]
        rcases Pool.mem_set hr with rfl | ⟨j, hj, hji⟩
        · exact absurd hro' (hdelete o')
        · exact h.delete r (Pool.mem_of_get hj) o' hro'
      fine := Pool.forall_set h.fine hfine }

/-- The last goroutine of an order deletes the entry. -/
theorem Inv.removeEntry (h : Inv s ps) (hp : ps[i]? = some p) (hpos : p.pos = .delete o)
    (halone : Alone ps i) :
    Inv (s.setEntry p.tradeNo none) (ps.set i { p with pos := .leaveCreate }) := by
  have hmap : s.orderLocks p.tradeNo = some o :=
    h.refers p (Pool.mem_of_get hp) o (by rw [hpos]; rfl)
  have hzero := h.delete p (Pool.mem_of_get hp) o hpos
  have hcases : ∀ {tradeNo : String} {o' : Nat},
      Function.update s.orderLocks p.tradeNo none tradeNo = some o' →
        tradeNo ≠ p.tradeNo ∧ s.orderLocks tradeNo = some o' := by
    intro tradeNo o' ho'
    rw [Function.update_apply] at ho'
    split at ho'
    next => cases ho'
    next hne => exact ⟨hne, ho'⟩
  exact
    { refers := by
        intro r hr o' ho'
        rcases Pool.mem_set hr with rfl | ⟨j, hj, hji⟩
        · cases ho'
        · have hrmap := h.refers r (Pool.mem_of_get hj) o' ho'
          show Function.update s.orderLocks p.tradeNo none r.tradeNo = some o'
          rw [Function.update_of_ne, hrmap]
          -- no other goroutine has the object that nobody is counted in
          intro heq
          rw [heq, hmap] at hrmap
          cases hrmap
          cases hcounted : r.pos.counted with
          | some o' =>
              rw [Pos.refers, hcounted, Option.some_or, Option.some.injEq] at ho'
              have hcount := h.refCount_pos hj (ho' ▸ hcounted)
              rw [hzero] at hcount
              exact absurd hcount (by decide)
          | none =>
              rw [Pos.refers, hcounted, Option.none_or] at ho'
              have hin := inCreate_of_changes ho'
              rw [halone j r hj hji] at hin
              cases hin
      count := by
        intro o'
        rw [Pool.total_set (countOf o') _ hp, countOf_of_uncounted (by rw [hpos]; rfl),
          countOf_of_uncounted rfl, objects_setEntry, h.count]
        omega
      locked := by
        intro o'
        rw [Pool.total_set (lockOf o') _ hp, lockOf_of_unlocked (by rw [hpos]; rfl),
          lockOf_of_unlocked rfl, h.locked, objects_setEntry]
        omega
      entry := by
        intro tradeNo o' ho'
        obtain ⟨hne, hold⟩ := hcases ho'
        obtain ⟨hsize, hin⟩ := h.entry tradeNo o' hold
        refine ⟨hsize, hin.imp_right (Pool.exists_set hp ?_)⟩
        rintro ⟨hpt, -⟩
        exact absurd hpt.symm hne
      inj := fun _ _ o' ho ho' => h.inj _ _ o' (hcases ho).2 (hcases ho').2
      unborn := h.unborn
      store := by
        intro r hr hrpos
        rcases Pool.mem_set hr with rfl | ⟨j, hj, hji⟩
        · cases hrpos
        · exact absurd hrpos (halone.ne hj hji rfl)
      delete := Pool.forall_set h.delete fun o' ho' => by cases ho'
      fine := Pool.forall_set h.fine ⟨by simp, by simp⟩ }

/-- Every statement keeps the invariant. -/
theorem Inv.next {x : Shared × Proc} (h : Inv s ps) (hp : ps[i]? = some p)
    (halone : p.pos.inCreate = true → Alone ps i) (hx : next s p () = some x) :
    Inv x.1 (ps.set i x.2) := by
  have hrefers := h.refers p (Pool.mem_of_get hp)
  obtain ⟨tradeNo, pos⟩ := p
  cases pos with
  | lockCreate =>
      cases hx
      exact h.move hp rfl rfl rfl (fun o ho => by cases ho) (fun o ho => by cases ho)
        (fun hq => by cases hq) (fun o ho => by cases ho) ⟨by simp, by simp⟩
  | load =>
      simp only [OrderLocks.next] at hx
      split at hx
      next o hmap =>
        cases hx
        exact h.move hp rfl rfl rfl (fun o' ho' => by cases ho'; exact hmap)
          (fun o ho => by cases ho) (fun hq => by cases hq) (fun o ho => by cases ho)
          ⟨by simp, by simp⟩
      next hmap =>
        cases hx
        exact h.move hp rfl rfl rfl (fun o ho => by cases ho) (fun o ho => by cases ho)
          (fun _ => hmap) (fun o ho => by cases ho) ⟨by simp, by simp⟩
  | store =>
      cases hx
      exact h.makeEntry hp rfl (halone rfl)
  | count o =>
      cases hx
      refine h.addCount hp rfl (halone rfl) rfl ?_ rfl (fun o' ho' => by cases ho'; rfl)
        (Or.inl ?_) (by simp) (by simp) ⟨by simp, by simp⟩
      · intro o'
        rw [countOf_of_counted rfl, countOf_of_uncounted rfl, Int.zero_add]
      · have hnonneg := h.refCount_nonneg o
        omega
  | unlockCreate o =>
      cases hx
      exact h.move hp rfl rfl rfl (fun o' ho' => hrefers o' ho') (fun o' ho' => by cases ho')
        (fun hq => by cases hq) (fun o ho => by cases ho) ⟨by simp, by simp⟩
  | lockMu o =>
      simp only [OrderLocks.next] at hx
      split at hx
      next => cases hx
      next hfree =>
        cases hx
        refine h.setLocked hp rfl rfl rfl ?_ (by simp) (by simp) ⟨by simp, by simp⟩
        intro o'
        rw [lockOf_of_locks rfl, lockOf_of_unlocked rfl, Int.sub_zero, if_pos rfl, if_neg hfree]
        rfl
  | critical o =>
      cases hx
      exact h.move hp rfl rfl rfl (fun o' ho' => hrefers o' ho') (fun o' ho' => by cases ho')
        (fun hq => by cases hq) (fun o ho => by cases ho) ⟨by simp, by simp⟩
  | reload o =>
      -- the entry is still the object that the goroutine has
      have hmap := hrefers o rfl
      simp only [OrderLocks.next, hmap] at hx
      cases hx
      exact h.move hp rfl rfl rfl (fun o' ho' => hrefers o' ho') (fun o' ho' => by cases ho')
        (fun hq => by cases hq) (fun o ho => by cases ho) ⟨by simp, by simp⟩
  | unlockMu o =>
      have hlocked := h.locked_of_locks hp rfl
      simp only [OrderLocks.next, hlocked, if_true] at hx
      cases hx
      refine h.setLocked hp rfl rfl rfl ?_ (by simp) (by simp) ⟨by simp, by simp⟩
      intro o'
      rw [lockOf_of_unlocked rfl, lockOf_of_locks rfl, if_pos hlocked]
      split <;> rfl
  | relockCreate o =>
      cases hx
      exact h.move hp rfl rfl rfl (fun o' ho' => hrefers o' ho') (fun o' ho' => by cases ho')
        (fun hq => by cases hq) (fun o ho => by cases ho) ⟨by simp, by simp⟩
  | uncount o =>
      cases hx
      refine h.addCount hp rfl (halone rfl) rfl ?_ rfl (fun o' ho' => by cases ho')
        (Or.inr rfl) (by simp) (by simp) ⟨by simp, by simp⟩
      intro o'
      rw [countOf_of_uncounted rfl, countOf_of_counted rfl]
      split <;> rfl
  | test o =>
      simp only [OrderLocks.next] at hx
      split at hx
      next hzero =>
        cases hx
        exact h.move hp rfl rfl rfl (fun o' ho' => hrefers o' ho') (fun o' ho' => Or.inl ho')
          (fun hq => by cases hq) (fun o' ho' => by cases ho'; exact hzero) ⟨by simp, by simp⟩
      next hzero =>
        cases hx
        refine h.move hp rfl rfl rfl (fun o' ho' => by cases ho') ?_ (fun hq => by cases hq)
          (fun o ho => by cases ho) ⟨by simp, by simp⟩
        intro o' ho'
        cases ho'
        have hnonneg := h.refCount_nonneg o
        exact Or.inr (by omega)
  | delete o =>
      cases hx
      exact h.removeEntry hp rfl (halone rfl)
  | leaveCreate =>
      cases hx
      exact h.move hp rfl rfl rfl (fun o' ho' => by cases ho') (fun o' ho' => by cases ho')
        (fun hq => by cases hq) (fun o ho => by cases ho) ⟨by simp, by simp⟩
  | done => cases hx
  | notFound => cases hx
  | fatal => cases hx

/-! ## Runs -/

/-- `createLock` is well used, and the map, the counts and the goroutines agree. -/
structure RunInv (s : State) : Prop where
  wellFormed : Mutex.WellFormed program s
  inv : Inv s.shared s.procs

theorem runInv_initial : RunInv initial where
  wellFormed := Mutex.wellFormed_initial _
  inv :=
    { refers := fun p hp => absurd hp List.not_mem_nil
      count := fun o => rfl
      locked := fun o => rfl
      entry := fun tradeNo o ho => by cases ho
      inj := fun tradeNo tradeNo' o ho => by cases ho
      unborn := fun o _ => rfl
      store := fun p hp => absurd hp List.not_mem_nil
      delete := fun p hp => absurd hp List.not_mem_nil
      fine := fun p hp => absurd hp List.not_mem_nil }

theorem RunInv.alone {s : State} (h : RunInv s) (hp : s.procs[i]? = some p)
    (hin : p.pos.inCreate = true) : Alone s.procs i := by
  intro j r hr hji
  have hholder := (h.wellFormed.holds_iff i p hp).1 hin
  rw [← Bool.not_eq_true]
  intro hrin
  have hother := (h.wellFormed.holds_iff j r hr).1 hrin
  rw [hholder] at hother
  exact hji (Option.some.inj hother).symm

theorem RunInv.step {s s' : State} {act : Act} (h : RunInv s)
    (hs : Mutex.step program s act = some s') : RunInv s' := by
  refine ⟨Mutex.wellFormed_step h.wellFormed hs, ?_⟩
  cases act with
  | start tradeNo =>
      cases hs
      exact h.inv.start tradeNo
  | disturb e => exact e.elim
  | run i u =>
      obtain ⟨p, x, hp, -, hx, rfl⟩ := Mutex.step_run_eq_some.1 hs
      exact h.inv.next hp (h.alone hp) hx

theorem runInv_of_run {s : State} {acts : List Act}
    (hs : Run.exec (Mutex.step program) initial acts = some s) : RunInv s :=
  Run.exec_always (fun _ _ _ => RunInv.step) runInv_initial hs

/-- While `createLock` is free, an entry stands exactly for the goroutines that are counted. -/
theorem RunInv.entry_iff {s : State} (h : RunInv s) (hfree : s.holder = none) (tradeNo : String) :
    (s.shared.orderLocks tradeNo).isSome = true ↔
      ∃ p ∈ s.procs, p.tradeNo = tradeNo ∧ p.pos.counted.isSome = true := by
  constructor
  · intro hsome
    obtain ⟨o, ho⟩ := Option.isSome_iff_exists.1 hsome
    obtain ⟨-, hcount | ⟨r, hr, -, hro⟩⟩ := h.inv.entry tradeNo o ho
    · rw [h.inv.count] at hcount
      obtain ⟨p, hp, hne⟩ := Pool.exists_of_total_pos hcount
      have hcounted : p.pos.counted = some o := by
        by_contra hnot
        exact hne (if_neg hnot)
      have hmap := h.inv.refers p hp o (refers_of_counted hcounted)
      exact ⟨p, hp, h.inv.inj _ _ o hmap ho, by rw [hcounted]; rfl⟩
    · -- a goroutine that changes a count has `createLock`
      obtain ⟨i, hi⟩ := List.mem_iff_getElem?.1 hr
      have hholder := (h.wellFormed.holds_iff i r hi).1 (inCreate_of_changes hro)
      rw [hfree] at hholder
      cases hholder
  · rintro ⟨p, hp, rfl, hcounted⟩
    obtain ⟨o, ho⟩ := Option.isSome_iff_exists.1 hcounted
    rw [h.inv.refers p hp o (refers_of_counted ho)]
    rfl

/-- Whatever the goroutines do: one of them at most is in the critical section of an order,
those that have or wait for the mutex of an order have the object of the map, no release
misses its entry, and while `createLock` is free there are entries exactly for the orders
that somebody is counted in. -/
theorem orders_locked (acts : List Act) (s : State)
    (hs : Run.exec (Mutex.step program) initial acts = some s) :
    (∀ (i j : Nat) (p q : Proc), s.procs[i]? = some p → s.procs[j]? = some q →
      p.pos.locks.isSome = true → q.pos.locks.isSome = true → p.tradeNo = q.tradeNo → i = j) ∧
    (∀ p ∈ s.procs, ∀ o, p.pos.locks = some o ∨ p.pos.waits = some o →
      s.shared.orderLocks p.tradeNo = some o) ∧
    (∀ p ∈ s.procs, p.pos ≠ .notFound ∧ p.pos ≠ .fatal) ∧
    (s.holder = none → ∀ tradeNo, (s.shared.orderLocks tradeNo).isSome = true ↔
      ∃ p ∈ s.procs, p.tradeNo = tradeNo ∧ p.pos.counted.isSome = true) := by
  have h := runInv_of_run hs
  refine ⟨?_, ?_, h.inv.fine, h.entry_iff⟩
  · intro i j p q hp hq hpl hql htrade
    obtain ⟨o, ho⟩ := Option.isSome_iff_exists.1 hpl
    obtain ⟨o', ho'⟩ := Option.isSome_iff_exists.1 hql
    have hmap := h.inv.refers p (Pool.mem_of_get hp) o (refers_of_counted (counted_of_locks ho))
    have hmap' := h.inv.refers q (Pool.mem_of_get hq) o' (refers_of_counted (counted_of_locks ho'))
    rw [htrade, hmap', Option.some.injEq] at hmap
    exact h.inv.eq_of_locks hp hq ho (hmap ▸ ho')
  · intro p hp o ho
    refine h.inv.refers p hp o (refers_of_counted ?_)
    rcases ho with ho | ho
    · exact counted_of_locks ho
    · cases hpos : p.pos <;> rw [hpos] at ho <;> cases ho
      rfl

/-- One goroutine that locks and unlocks an order. -/
def lockedOnce : List Act := .start "T1" :: List.replicate 6 (.run 0 ())

theorem orders_locked_lockedOnce :
    ∃ s, Run.exec (Mutex.step program) initial lockedOnce = some s ∧
      s.procs = [⟨"T1", .critical 0⟩] ∧
      ∀ p ∈ s.procs, ∀ o, p.pos.locks = some o ∨ p.pos.waits = some o →
        s.shared.orderLocks p.tradeNo = some o := by
  refine ⟨_, rfl, rfl, ?_⟩
  exact (orders_locked lockedOnce _ rfl).2.1

/-- Between the store of an entry and the increment nobody is counted in it. -/
theorem stored_not_counted :
    ∃ s, Run.exec (Mutex.step program) initial [.start "T1", .run 0 (), .run 0 (), .run 0 ()] =
        some s ∧
      (s.shared.orderLocks "T1").isSome = true ∧
        ¬ ∃ p ∈ s.procs, p.tradeNo = "T1" ∧ p.pos.counted.isSome = true := by
  refine ⟨_, rfl, rfl, ?_⟩
  rintro ⟨p, hp, -, hcounted⟩
  rw [List.mem_singleton.1 hp] at hcounted
  cases hcounted

end

end DazeApi.Payment.OrderLocks
