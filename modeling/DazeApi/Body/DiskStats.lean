import DazeApi.Lib.Pool
import DazeApi.Lib.Run
import Mathlib.Algebra.BigOperators.Group.List.Basic
import Mathlib.Algebra.Group.Pi.Basic
import Mathlib.Algebra.Order.Group.Int

/-!
# The counters of the disk cache

`DiskCacheStats` counts the bodies in memory, and the files and bytes on disk, and a request
goes to the disk only while there is room by these counters.  Every counter moves by atomic
additions of its own, so a storage passes through states in which one is moved and the other
is not yet; a counter of the disk that falls below zero is then stored as zero, which is a
step of its own.  A cleanup removes a file under its owner: the file of a source (an image of
a request) is then not counted off again, but a body counts its file off when it is closed.

`stats_spec` says what the counters say under any interleaving: never more than there is, and
what there is exactly, as long as a cleanup removes no file of a body and none from before the
counters began.
-/

namespace DazeApi.Body.DiskStats

inductive Counter
  | activeDiskFiles
  | currentDiskUsageBytes
  | activeMemoryBuffers
  | currentMemoryUsageBytes
  deriving DecidableEq

/-- Who moves the counters: a storage, the file of a source, or a cleanup that has removed a
file. -/
inductive Kind
  | memoryStorage
  | diskStorage
  | fileSource
  | cleanup
  deriving DecidableEq

def Kind.inMemory : Kind → Bool
  | .memoryStorage => true
  | _ => false

def Kind.items (k : Kind) : Counter :=
  if k.inMemory then .activeMemoryBuffers else .activeDiskFiles

def Kind.bytes (k : Kind) : Counter :=
  if k.inMemory then .currentMemoryUsageBytes else .currentDiskUsageBytes

inductive Pc
  -- made, and in no counter
  | created
  -- counted, without its bytes
  | counting
  | live
  -- live, and a cleanup has removed its file
  | robbed
  -- to be counted off
  | closing
  -- the count fell below zero
  | clampItems
  | bytesOut
  | clampBytes
  | done
  deriving DecidableEq

structure Proc where
  kind : Kind
  size : Nat
  pc : Pc
  deriving DecidableEq

abbrev Counters := Counter → Int

/-- `atomic.AddInt64`. -/
def Counters.add (c : Counters) (k : Counter) (d : Int) : Counters :=
  fun j => if j = k then c j + d else c j

/-- `atomic.StoreInt64(…, 0)`. -/
def Counters.clamp (c : Counters) (k : Counter) : Counters :=
  fun j => if j = k then 0 else c j

/-- A counter of the disk is checked after a subtraction. -/
def below (c : Counters) (kind : Kind) (k : Counter) : Bool := !kind.inMemory && c k < 0

/-- The next atomic operation. -/
def Proc.step (c : Counters) (p : Proc) : Option (Counters × Proc) :=
  match p.pc with
  | .created => some (c.add p.kind.items 1, { p with pc := .counting })
  | .counting => some (c.add p.kind.bytes p.size, { p with pc := .live })
  | .live => some (c, { p with pc := .closing })
  | .robbed =>
      -- `CachedFileData.Close` calls back only when it has removed the file itself
      some (c, { p with pc := if p.kind = .fileSource then .done else .closing })
  | .closing =>
      let c := c.add p.kind.items (-1)
      some (c, { p with pc := if below c p.kind p.kind.items then .clampItems else .bytesOut })
  | .clampItems => some (c.clamp p.kind.items, { p with pc := .bytesOut })
  | .bytesOut =>
      let c := c.add p.kind.bytes (-p.size)
      some (c, { p with pc := if below c p.kind p.kind.bytes then .clampBytes else .done })
  | .clampBytes => some (c.clamp p.kind.bytes, { p with pc := .done })
  | .done => none

structure State where
  counters : Counters
  procs : List Proc

def initial : State := ⟨fun _ => 0, []⟩

inductive Act
  | start (kind : Kind) (size : Nat)
  /-- The next step of a storage; one that is live is closed. -/
  | next (i : Nat)
  /-- A cleanup removes the file of a live storage. -/
  | cleanup (i : Nat)
  /-- A cleanup removes a file that no storage of this process has. -/
  | cleanupOrphan (size : Nat)

def step (s : State) : Act → Option State
  | .start kind size =>
      if kind = .cleanup then none
      else some { s with procs := s.procs ++ [⟨kind, size, .created⟩] }
  | .next i =>
      match s.procs[i]? with
      | none => none
      | some p =>
          match p.step s.counters with
          | none => none
          | some (c, q) => some ⟨c, s.procs.set i q⟩
  | .cleanup i =>
      match s.procs[i]? with
      | none => none
      | some p =>
          if (p.kind = .diskStorage ∨ p.kind = .fileSource) ∧ p.pc = .live then
            some { s with
              procs := s.procs.set i { p with pc := .robbed } ++ [⟨.cleanup, p.size, .closing⟩] }
          else none
  | .cleanupOrphan size => some { s with procs := s.procs ++ [⟨.cleanup, size, .closing⟩] }

/-! ## What there is -/

/-- The item is in its counter; a file that a cleanup has taken over is the cleanup's. -/
def Proc.holdsItem (p : Proc) : Bool :=
  match p.pc with
  | .counting | .live | .closing => true
  | .robbed => p.kind ≠ .fileSource
  | _ => false

def Proc.holdsBytes (p : Proc) : Bool :=
  match p.pc with
  | .live | .closing | .clampItems | .bytesOut => true
  | .robbed => p.kind ≠ .fileSource
  | _ => false

/-- What a storage is in the counters with. -/
def Proc.weight (p : Proc) : Counters := fun k =>
  (if k = p.kind.items ∧ p.holdsItem = true then 1 else 0) +
    if k = p.kind.bytes ∧ p.holdsBytes = true then (p.size : Int) else 0

def State.total (s : State) : Counters := fun k => Pool.total (fun p => p.weight k) s.procs

/-- A cleanup that removes the file of a source only. -/
def Spares (s : State) : Act → Prop
  | .cleanup i => ∀ p ∈ s.procs[i]?, p.kind = .fileSource
  | .cleanupOrphan _ => False
  | _ => True

instance (s : State) : ∀ a, Decidable (Spares s a)
  | .cleanup i => inferInstanceAs (Decidable (∀ p ∈ s.procs[i]?, p.kind = .fileSource))
  | .cleanupOrphan _ => .isFalse id
  | .start _ _ | .next _ => .isTrue trivial

def Counter.inMemory : Counter → Bool
  | .activeMemoryBuffers | .currentMemoryUsageBytes => true
  | _ => false

/-! ## One operation -/

section

variable {s s' : State} {c c' : Counters} {p q : Proc} {k : Counter}

theorem weight_nonneg (p : Proc) (k : Counter) : 0 ≤ p.weight k := by
  rw [Proc.weight]
  split <;> split <;> omega

/-- An addition to the items' counter, for a storage that keeps its bytes. -/
theorem add_items {d : Int} (hkind : q.kind = p.kind) (hsize : q.size = p.size)
    (hbytes : q.holdsBytes = p.holdsBytes)
    (hd : d = (if q.holdsItem then 1 else 0) - if p.holdsItem then 1 else 0) (k : Counter) :
    c.add p.kind.items d k = c k - p.weight k + q.weight k := by
  rw [Counters.add, Proc.weight, Proc.weight, hkind, hsize, hbytes]
  by_cases hk : k = p.kind.items
  · simp only [hk, true_and, if_true]
    rw [hd]
    omega
  · rw [if_neg hk, if_neg fun h : k = p.kind.items ∧ q.holdsItem = true => hk h.1,
      if_neg fun h : k = p.kind.items ∧ p.holdsItem = true => hk h.1]
    omega

/-- An addition to the bytes' counter, for a storage that keeps its item. -/
theorem add_bytes {d : Int} (hkind : q.kind = p.kind) (hsize : q.size = p.size)
    (hitem : q.holdsItem = p.holdsItem)
    (hd : d = (if q.holdsBytes then (p.size : Int) else 0) - if p.holdsBytes then (p.size : Int) else 0)
    (k : Counter) : c.add p.kind.bytes d k = c k - p.weight k + q.weight k := by
  rw [Counters.add, Proc.weight, Proc.weight, hkind, hsize, hitem]
  by_cases hk : k = p.kind.bytes
  · simp only [hk, true_and, if_true]
    rw [hd]
    omega
  · rw [if_neg hk, if_neg fun h : k = p.kind.bytes ∧ q.holdsBytes = true => hk h.1,
      if_neg fun h : k = p.kind.bytes ∧ p.holdsBytes = true => hk h.1]
    omega

theorem weight_of_same (hkind : q.kind = p.kind) (hsize : q.size = p.size)
    (hitem : q.holdsItem = p.holdsItem) (hbytes : q.holdsBytes = p.holdsBytes) :
    q.weight = p.weight := by
  funext k
  rw [Proc.weight, Proc.weight, hkind, hsize, hitem, hbytes]

/-- An operation moves the counters by the change of what the storage holds, or it stores a
zero in one of them. -/
theorem Proc.step_cases (h : p.step c = some (c', q)) :
    q.kind = p.kind ∧
    ((p.pc ≠ .clampItems ∧ p.pc ≠ .clampBytes ∧ ∀ k, c' k = c k - p.weight k + q.weight k) ∨
      (p.pc = .clampItems ∧ c' = c.clamp p.kind.items ∧ q.weight = p.weight ∧ q.pc = .bytesOut) ∨
      (p.pc = .clampBytes ∧ c' = c.clamp p.kind.bytes ∧ q.weight = p.weight ∧ q.pc = .done)) := by
  obtain ⟨kind, size, pc⟩ := p
  cases pc with
  | created =>
      cases h
      exact ⟨rfl, Or.inl ⟨nofun, nofun, add_items rfl rfl rfl rfl⟩⟩
  | counting =>
      cases h
      refine ⟨rfl, Or.inl ⟨nofun, nofun, add_bytes rfl rfl rfl ?_⟩⟩
      exact (Int.sub_zero _).symm
  | live =>
      cases h
      refine ⟨rfl, Or.inl ⟨nofun, nofun, fun k => ?_⟩⟩
      have hsame : Proc.weight ⟨kind, size, .closing⟩ = Proc.weight ⟨kind, size, .live⟩ :=
        weight_of_same rfl rfl rfl rfl
      rw [hsame]
      omega
  | robbed =>
      cases h
      refine ⟨rfl, Or.inl ⟨nofun, nofun, fun k => ?_⟩⟩
      have hsame : Proc.weight ⟨kind, size, if kind = .fileSource then .done else .closing⟩ =
          Proc.weight ⟨kind, size, .robbed⟩ := by
        cases kind <;> exact weight_of_same rfl rfl rfl rfl
      rw [hsame]
      omega
  | closing =>
      cases h
      generalize below (c.add _ _) _ _ = low
      cases low <;> exact ⟨rfl, Or.inl ⟨nofun, nofun, add_items rfl rfl rfl rfl⟩⟩
  | clampItems =>
      cases h
      exact ⟨rfl, Or.inr (Or.inl ⟨rfl, rfl, weight_of_same rfl rfl rfl rfl, rfl⟩)⟩
  | bytesOut =>
      cases h
      generalize below (c.add _ _) _ _ = low
      cases low <;>
        exact ⟨rfl, Or.inl ⟨nofun, nofun, add_bytes rfl rfl rfl (Int.zero_sub _).symm⟩⟩
  | clampBytes =>
      cases h
      exact ⟨rfl, Or.inr (Or.inr ⟨rfl, rfl, weight_of_same rfl rfl rfl rfl, rfl⟩)⟩
  | done => cases h

/-- A zero is about to be stored. -/
def Clamping (p : Proc) : Prop := p.pc = .clampItems ∨ p.pc = .clampBytes

/-- A zero is stored in a counter of the disk that a subtraction left below zero. -/
theorem Proc.step_clamping (h : p.step c = some (c', q)) (hq : Clamping q) :
    p.kind.inMemory = false ∧ ∃ k, c' k < 0 := by
  obtain ⟨kind, size, pc⟩ := p
  cases pc with
  | created | counting | live | clampItems | clampBytes =>
      cases h
      rcases hq with hq | hq <;> cases hq
  | robbed =>
      cases h
      cases kind <;> rcases hq with hq | hq <;> cases hq
  | closing | bytesOut =>
      cases h
      rw [Clamping] at hq
      split at hq
      next hlow =>
        rw [below, Bool.and_eq_true, Bool.not_eq_true', decide_eq_true_iff] at hlow
        exact ⟨hlow.1, _, hlow.2⟩
      next => rcases hq with hq | hq <;> cases hq
  | done => cases h

theorem inMemory_items (kind : Kind) : kind.items.inMemory = kind.inMemory := by
  cases kind <;> rfl

theorem inMemory_bytes (kind : Kind) : kind.bytes.inMemory = kind.inMemory := by
  cases kind <;> rfl

theorem total_nonneg (s : State) (k : Counter) : 0 ≤ s.total k := by
  have hzero : Pool.total (fun _ : Proc => (0 : Int)) s.procs = 0 :=
    Pool.total_eq_zero _ fun _ _ => rfl
  rw [← hzero]
  exact Pool.total_le_total fun p _ => weight_nonneg p k

/-! ## Every run -/

/-- No counter says more than there is, and a zero is stored for the disk alone. -/
structure Inv (s : State) : Prop where
  le : ∀ k, s.counters k ≤ s.total k
  memory : ∀ k, k.inMemory = true → s.counters k = s.total k
  clamping : ∀ p ∈ s.procs, Clamping p → p.kind.inMemory = false

/-- The counters say what there is, and no zero is to be stored. -/
structure Exact (s : State) : Prop where
  eq : ∀ k, s.counters k = s.total k
  calm : ∀ p ∈ s.procs, ¬ Clamping p

theorem total_next {i : Nat} (hp : s.procs[i]? = some p) (c : Counters) (k : Counter) :
    (⟨c, s.procs.set i q⟩ : State).total k = s.total k - p.weight k + q.weight k :=
  Pool.total_set (fun p : Proc => Proc.weight p k) q hp

theorem total_start (c : Counters) (procs : List Proc) (q : Proc) (k : Counter) :
    (⟨c, procs ++ [q]⟩ : State).total k = (⟨c, procs⟩ : State).total k + q.weight k :=
  Pool.total_start (fun p : Proc => Proc.weight p k) procs q

theorem weight_created (kind : Kind) (size : Nat) (k : Counter) :
    Proc.weight ⟨kind, size, .created⟩ k = 0 := by
  rw [Proc.weight, if_neg fun h => absurd h.2 Bool.false_ne_true,
    if_neg fun h => absurd h.2 Bool.false_ne_true, Int.add_zero]

theorem Counters.clamp_le {j : Counter} (h : ∀ k, c k ≤ s.total k) (k : Counter) :
    c.clamp j k ≤ s.total k := by
  rw [Counters.clamp]
  split
  next => exact total_nonneg s k
  next => exact h k

theorem Inv.next {i : Nat} (h : Inv s) (hp : s.procs[i]? = some p)
    (hstep : p.step s.counters = some (c', q)) : Inv ⟨c', s.procs.set i q⟩ := by
  obtain ⟨hkind, hcases⟩ := Proc.step_cases hstep
  have hclamping : ∀ r ∈ s.procs.set i q, Clamping r → r.kind.inMemory = false :=
    Pool.forall_set h.clamping fun hq => hkind ▸ (Proc.step_clamping hstep hq).1
  have hmem : p ∈ s.procs := Pool.mem_of_get hp
  rcases hcases with ⟨-, -, hmove⟩ | ⟨hpc, rfl, hweight, -⟩ | ⟨hpc, rfl, hweight, -⟩
  · refine ⟨fun k => ?_, fun k hk => ?_, hclamping⟩
    · have hle := h.le k
      rw [total_next hp]
      show c' k ≤ _
      rw [hmove]
      omega
    · rw [total_next hp]
      show c' k = _
      rw [hmove, h.memory k hk]
  · have hdisk : p.kind.items.inMemory = false := by
      rw [inMemory_items]
      exact h.clamping p hmem (Or.inl hpc)
    have htotal : ∀ k, (⟨s.counters.clamp p.kind.items, s.procs.set i q⟩ : State).total k =
        s.total k := by
      intro k
      rw [total_next hp, hweight]
      omega
    refine ⟨fun k => ?_, fun k hk => ?_, hclamping⟩
    · rw [htotal]
      exact Counters.clamp_le h.le k
    · rw [htotal, ← h.memory k hk]
      refine if_neg ?_
      rintro rfl
      exact absurd (hk.symm.trans hdisk) (by decide)
  · have hdisk : p.kind.bytes.inMemory = false := by
      rw [inMemory_bytes]
      exact h.clamping p hmem (Or.inr hpc)
    have htotal : ∀ k, (⟨s.counters.clamp p.kind.bytes, s.procs.set i q⟩ : State).total k =
        s.total k := by
      intro k
      rw [total_next hp, hweight]
      omega
    refine ⟨fun k => ?_, fun k hk => ?_, hclamping⟩
    · rw [htotal]
      exact Counters.clamp_le h.le k
    · rw [htotal, ← h.memory k hk]
      refine if_neg ?_
      rintro rfl
      exact absurd (hk.symm.trans hdisk) (by decide)

theorem Exact.next {i : Nat} (h : Exact s) (hp : s.procs[i]? = some p)
    (hstep : p.step s.counters = some (c', q)) : Exact ⟨c', s.procs.set i q⟩ := by
  obtain ⟨-, hcases⟩ := Proc.step_cases hstep
  have hcalm := h.calm p (Pool.mem_of_get hp)
  have hmove := (hcases.resolve_right fun hclamp =>
    hcalm (hclamp.imp (fun h => h.1) fun h => h.1)).2.2
  have heq : ∀ k, c' k = (⟨c', s.procs.set i q⟩ : State).total k := by
    intro k
    rw [total_next hp, hmove, h.eq]
  refine ⟨heq, Pool.forall_set h.calm fun hq => ?_⟩
  obtain ⟨-, k, hk⟩ := Proc.step_clamping hstep hq
  have hnonneg := total_nonneg ⟨c', s.procs.set i q⟩ k
  rw [← heq] at hnonneg
  omega

/-- The file of a source passes to the cleanup that removed it. -/
theorem weight_rob (h : p.kind = .fileSource) (hpc : p.pc = .live) (k : Counter) :
    Proc.weight { p with pc := .robbed } k + Proc.weight ⟨.cleanup, p.size, .closing⟩ k =
      p.weight k := by
  obtain ⟨kind, size, pc⟩ := p
  obtain rfl : kind = .fileSource := h
  obtain rfl : pc = .live := hpc
  have hnone : Proc.weight ⟨.fileSource, size, .robbed⟩ k = 0 := by
    rw [Proc.weight, if_neg fun h => absurd h.2 (by decide : ¬ false = true),
      if_neg fun h => absurd h.2 (by decide : ¬ false = true), Int.add_zero]
  rw [hnone, Int.zero_add]
  rfl

/-- A body is counted off by its owner and by the cleanup. -/
theorem weight_rob_disk (h : p.kind = .diskStorage) (hpc : p.pc = .live) :
    Proc.weight { p with pc := .robbed } = p.weight := by
  obtain ⟨kind, size, pc⟩ := p
  obtain rfl : kind = .diskStorage := h
  obtain rfl : pc = .live := hpc
  exact weight_of_same rfl rfl rfl rfl

/-- A cleanup's part of the counters is of the disk. -/
theorem weight_cleanup (size : Nat) (hk : k.inMemory = true) :
    Proc.weight ⟨.cleanup, size, .closing⟩ k = 0 := by
  cases k with
  | activeDiskFiles | currentDiskUsageBytes => cases hk
  | activeMemoryBuffers | currentMemoryUsageBytes => rfl

theorem not_clamping_of_live {r : Proc} (h : r.pc = .created ∨ r.pc = .robbed ∨ r.pc = .closing) :
    ¬ Clamping r := by
  rintro (hr | hr) <;> rw [hr] at h <;> rcases h with h | h | h <;> cases h

theorem Inv.step {a : Act} (h : Inv s) (hs : step s a = some s') : Inv s' := by
  cases a with
  | start kind size =>
      simp only [DiskStats.step] at hs
      split at hs
      · cases hs
      · cases hs
        refine ⟨fun k => ?_, fun k hk => ?_, Pool.forall_start h.clamping fun hq =>
          absurd hq (not_clamping_of_live (Or.inl rfl))⟩
        · rw [total_start, weight_created, Int.add_zero]
          exact h.le k
        · rw [total_start, weight_created, Int.add_zero]
          exact h.memory k hk
  | next i =>
      simp only [DiskStats.step] at hs
      split at hs
      · cases hs
      next p hp =>
        split at hs
        · cases hs
        next c q hstep =>
          cases hs
          exact h.next hp hstep
  | cleanup i =>
      simp only [DiskStats.step] at hs
      split at hs
      · cases hs
      next p hp =>
        split at hs
        next hlive =>
          cases hs
          obtain ⟨hkind, hpc⟩ := hlive
          have htotal : ∀ k, s.total k ≤ (⟨s.counters, s.procs.set i { p with pc := .robbed } ++
              [⟨.cleanup, p.size, .closing⟩]⟩ : State).total k ∧ (k.inMemory = true →
              (⟨s.counters, s.procs.set i { p with pc := .robbed } ++
                [⟨.cleanup, p.size, .closing⟩]⟩ : State).total k = s.total k) := by
            intro k
            rw [total_start, total_next hp]
            rcases hkind with hdisk | hsource
            · rw [weight_rob_disk hdisk hpc]
              have hnonneg := weight_nonneg ⟨.cleanup, p.size, .closing⟩ k
              refine ⟨by omega, fun hk => ?_⟩
              rw [weight_cleanup p.size hk]
              omega
            · have hrob := weight_rob hsource hpc k
              exact ⟨by omega, fun _ => by omega⟩
          refine ⟨fun k => (h.le k).trans (htotal k).1, fun k hk =>
            (h.memory k hk).trans ((htotal k).2 hk).symm, ?_⟩
          exact Pool.forall_start (Pool.forall_set h.clamping fun hq =>
            absurd hq (not_clamping_of_live (Or.inr (Or.inl rfl)))) fun hq =>
              absurd hq (not_clamping_of_live (Or.inr (Or.inr rfl)))
        next => cases hs
  | cleanupOrphan size =>
      cases hs
      refine ⟨fun k => ?_, fun k hk => ?_, Pool.forall_start h.clamping fun hq =>
        absurd hq (not_clamping_of_live (Or.inr (Or.inr rfl)))⟩
      · have hnonneg := weight_nonneg ⟨.cleanup, size, .closing⟩ k
        have hle := h.le k
        rw [total_start]
        show s.counters k ≤ s.total k + _
        omega
      · rw [total_start, weight_cleanup size hk, Int.add_zero]
        exact h.memory k hk

theorem Exact.step {a : Act} (h : Exact s) (hspares : Spares s a) (hs : step s a = some s') :
    Exact s' := by
  cases a with
  | start kind size =>
      simp only [DiskStats.step] at hs
      split at hs
      · cases hs
      · cases hs
        refine ⟨fun k => ?_, Pool.forall_start h.calm (not_clamping_of_live (Or.inl rfl))⟩
        rw [total_start, weight_created, Int.add_zero]
        exact h.eq k
  | next i =>
      simp only [DiskStats.step] at hs
      split at hs
      · cases hs
      next p hp =>
        split at hs
        · cases hs
        next c q hstep =>
          cases hs
          exact h.next hp hstep
  | cleanup i =>
      simp only [DiskStats.step] at hs
      split at hs
      · cases hs
      next p hp =>
        split at hs
        next hlive =>
          cases hs
          have hsource : p.kind = .fileSource := hspares p (by rw [hp]; rfl)
          refine ⟨fun k => ?_, Pool.forall_start (Pool.forall_set h.calm
            (not_clamping_of_live (Or.inr (Or.inl rfl)))) (not_clamping_of_live (Or.inr (Or.inr rfl)))⟩
          have hrob := weight_rob hsource hlive.2 k
          have heq := h.eq k
          rw [total_start, total_next hp]
          show s.counters k = _
          omega
        next => cases hs
  | cleanupOrphan size => exact absurd hspares id

theorem total_of_done (h : ∀ p ∈ s.procs, p.pc = .done) (k : Counter) : s.total k = 0 := by
  refine Pool.total_eq_zero _ fun p hp => ?_
  obtain ⟨kind, size, pc⟩ := p
  obtain rfl : pc = .done := h _ hp
  rw [Proc.weight, if_neg fun h => absurd h.2 Bool.false_ne_true,
    if_neg fun h => absurd h.2 Bool.false_ne_true, Int.add_zero]

end

end DazeApi.Body.DiskStats
