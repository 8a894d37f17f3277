import Mathlib.Algebra.BigOperators.Group.List.Basic
import Mathlib.Algebra.Order.BigOperators.Group.List
import Mathlib.Tactic.Abel
import Mathlib.Tactic.Push

/-!
# Pools of concurrent executions

The executions of a concurrent system are kept in a list, numbered in the order
in which they start.  A step of execution `i` replaces the `i`-th entry and a
start appends one, so an entry never moves.

`total f` adds up a quantity over all executions.  The laws say how a total
moves when an execution starts or takes a step, which is all that an invariant
such as *what the store holds plus what is in flight is constant* needs.
-/

namespace Pool

variable {π M : Type*}

/-- The sum of a quantity over the executions of a pool. -/
def total [AddCommGroup M] (f : π → M) (ps : List π) : M := (ps.map f).sum

section Total

variable [AddCommGroup M] (f : π → M)

@[simp] theorem total_nil : total f [] = 0 := rfl

@[simp] theorem total_cons (p : π) (ps : List π) : total f (p :: ps) = f p + total f ps := by
  simp [total]

@[simp] theorem total_start (ps : List π) (p : π) : total f (ps ++ [p]) = total f ps + f p := by
  simp [total]

/-- A step of one execution moves a total by the change of that execution. -/
theorem total_set {p : π} (q : π) :
    ∀ {ps : List π} {i : Nat}, ps[i]? = some p → total f (ps.set i q) = total f ps - f p + f q
  | [], _, h => by simp at h
  | r :: ps, 0, h => by
      simp only [List.getElem?_cons_zero, Option.some.injEq] at h
      subst h
      simp only [List.set_cons_zero, total_cons]
      abel
  | r :: ps, i + 1, h => by
      simp only [List.getElem?_cons_succ] at h
      simp only [List.set_cons_succ, total_cons, total_set q h]
      abel

/-- A total over executions that all contribute nothing is zero. -/
theorem total_eq_zero {ps : List π} (h : ∀ p ∈ ps, f p = 0) : total f ps = 0 := by
  induction ps with
  | nil => rfl
  | cons p ps ih =>
      rw [total_cons, h p (by simp), ih fun q hq => h q (by simp [hq]), add_zero]

end Total

/-- A total is at most another one that is at least as large at every execution. -/
theorem total_le_total {f g : π → Int} {ps : List π} (h : ∀ p ∈ ps, f p ≤ g p) :
    total f ps ≤ total g ps := by
  induction ps with
  | nil => exact Int.le_refl _
  | cons p ps ih =>
      simp only [total_cons]
      exact Int.add_le_add (h p (by simp)) (ih fun q hq => h q (by simp [hq]))

/-- One execution contributes no more than all, where none takes away. -/
theorem le_total_of_get {f : π → Int} (h : ∀ p, 0 ≤ f p) :
    ∀ {ps : List π} {i : Nat} {p : π}, ps[i]? = some p → f p ≤ total f ps
  | [], _, _, hp => by simp at hp
  | r :: ps, 0, p, hp => by
      rw [List.getElem?_cons_zero, Option.some.injEq] at hp
      subst hp
      have hrest : 0 ≤ total f ps := List.sum_nonneg fun x hx => by
        obtain ⟨q, -, rfl⟩ := List.mem_map.1 hx
        exact h q
      rw [total_cons]
      omega
  | r :: ps, i + 1, p, hp => by
      rw [List.getElem?_cons_succ] at hp
      have hrest := le_total_of_get h hp
      have hr := h r
      rw [total_cons]
      omega

/-- Two executions contribute no more than all. -/
theorem add_le_total_of_get {f : π → Int} (h : ∀ p, 0 ≤ f p) {ps : List π} {i j : Nat} {p q : π}
    (hp : ps[i]? = some p) (hq : ps[j]? = some q) (hij : i ≠ j) : f p + f q ≤ total f ps := by
  induction ps generalizing i j with
  | nil => simp at hp
  | cons r ps ih =>
      have hr := h r
      rw [total_cons]
      cases i with
      | zero =>
          cases j with
          | zero => exact absurd rfl hij
          | succ j =>
              rw [List.getElem?_cons_zero, Option.some.injEq] at hp
              rw [List.getElem?_cons_succ] at hq
              have hrest := le_total_of_get h hq
              rw [hp]
              omega
      | succ i =>
          rw [List.getElem?_cons_succ] at hp
          cases j with
          | zero =>
              rw [List.getElem?_cons_zero, Option.some.injEq] at hq
              have hrest := le_total_of_get h hp
              rw [hq]
              omega
          | succ j =>
              rw [List.getElem?_cons_succ] at hq
              have hrest := ih hp hq fun heq => hij (congrArg _ heq)
              omega

/-- Where the contributions are not all zero, some execution contributes. -/
theorem exists_of_total_pos {f : π → Int} {ps : List π} (h : 0 < total f ps) :
    ∃ p ∈ ps, f p ≠ 0 := by
  by_contra hnone
  push Not at hnone
  rw [total_eq_zero f hnone] at h
  exact absurd h (lt_irrefl _)

/-- A property of all executions survives a start. -/
theorem forall_start {P : π → Prop} {ps : List π} {p : π} (h : ∀ q ∈ ps, P q) (hp : P p) :
    ∀ q ∈ ps ++ [p], P q := by
  intro q hq
  rcases List.mem_append.1 hq with hq | hq
  · exact h q hq
  · rw [List.mem_singleton.1 hq]
    exact hp

/-- A property of all executions survives a step of one of them. -/
theorem forall_set {P : π → Prop} {ps : List π} {p : π} {i : Nat} (h : ∀ q ∈ ps, P q) (hp : P p) :
    ∀ q ∈ ps.set i p, P q := by
  intro q hq
  rcases List.mem_or_eq_of_mem_set hq with hq | hq
  · exact h q hq
  · rw [hq]
    exact hp

/-! ## Entries -/

/-- After a step of execution `i`, an entry is the new one or an old one elsewhere. -/
theorem get_set {ps : List π} {i j : Nat} {q r : π} (h : (ps.set i q)[j]? = some r) :
    j = i ∧ r = q ∨ j ≠ i ∧ ps[j]? = some r := by
  rw [List.getElem?_set] at h
  split at h
  next hij =>
    split at h
    next => exact Or.inl ⟨hij.symm, (Option.some.inj h).symm⟩
    next => cases h
  next hij => exact Or.inr ⟨Ne.symm hij, h⟩

theorem get_set_self {ps : List π} {i : Nat} {p q : π} (h : ps[i]? = some p) :
    (ps.set i q)[i]? = some q := by
  obtain ⟨hi, -⟩ := List.getElem?_eq_some_iff.1 h
  exact List.getElem?_set_self hi

theorem get_set_ne {ps : List π} {i j : Nat} {p q : π} (h : ps[j]? = some p) (hne : i ≠ j) :
    (ps.set i q)[j]? = some p := by
  rw [List.getElem?_set_ne hne]
  exact h

/-- A start moves no entry. -/
theorem get_start_of_get {ps : List π} {i : Nat} {p q : π} (h : ps[i]? = some p) :
    (ps ++ [q])[i]? = some p := by
  obtain ⟨hi, -⟩ := List.getElem?_eq_some_iff.1 h
  rw [List.getElem?_append_left hi]
  exact h

/-- After a start, an entry is an old one or the new one. -/
theorem get_start {ps : List π} {j : Nat} {q r : π} (h : (ps ++ [q])[j]? = some r) :
    ps[j]? = some r ∨ r = q := by
  rw [List.getElem?_append] at h
  split at h
  next => exact Or.inl h
  next => exact Or.inr (List.mem_singleton.1 (List.mem_of_getElem? h))

theorem mem_of_get {ps : List π} {p : π} {i : Nat} (h : ps[i]? = some p) : p ∈ ps :=
  List.mem_of_getElem? h

/-- After a step of execution `i`, an execution is the new one or an old one elsewhere. -/
theorem mem_set {ps : List π} {i : Nat} {q r : π} (h : r ∈ ps.set i q) :
    r = q ∨ ∃ j, ps[j]? = some r ∧ j ≠ i := by
  obtain ⟨j, hj⟩ := List.mem_iff_getElem?.1 h
  rcases get_set hj with ⟨-, rfl⟩ | ⟨hji, hr⟩
  · exact Or.inl rfl
  · exact Or.inr ⟨j, hr, hji⟩

/-! ## What executions leave behind -/

section

variable {β : Type*} {f : π → Option β} {ps : List π} {i : Nat} {p q : π}

/-- A step of an execution that leaves nothing before and after it. -/
theorem filterMap_set_of_none (h : ps[i]? = some p) (hp : f p = none) (hq : f q = none) :
    (ps.set i q).filterMap f = ps.filterMap f := by
  induction ps generalizing i with
  | nil => rfl
  | cons r ps ih =>
      cases i with
      | zero =>
          rw [List.getElem?_cons_zero, Option.some.injEq] at h
          subst h
          rw [List.set_cons_zero, List.filterMap_cons_none hp, List.filterMap_cons_none hq]
      | succ i =>
          rw [List.getElem?_cons_succ] at h
          rw [List.set_cons_succ, List.filterMap_cons, List.filterMap_cons, ih h]

/-- What a step leaves behind is one more, in some order. -/
theorem filterMap_set_of_some {x : β} (h : ps[i]? = some p) (hp : f p = none) (hq : f q = some x) :
    (ps.filterMap f ++ [x]).Perm ((ps.set i q).filterMap f) := by
  induction ps generalizing i with
  | nil => cases h
  | cons r ps ih =>
      cases i with
      | zero =>
          rw [List.getElem?_cons_zero, Option.some.injEq] at h
          subst h
          rw [List.set_cons_zero, List.filterMap_cons_none hp, List.filterMap_cons_some hq]
          exact List.perm_append_singleton x _
      | succ i =>
          rw [List.getElem?_cons_succ] at h
          rw [List.set_cons_succ, List.filterMap_cons, List.filterMap_cons]
          split
          next => exact ih h
          next => exact (ih h).cons _

end

/-! ## Some execution -/

section

variable {P : π → Prop} {ps : List π} {i : Nat} {p q : π}

/-- What some execution passes after a start that does not pass it, one passed before. -/
theorem exists_of_start (hq : ¬ P q) (h : ∃ r ∈ ps ++ [q], P r) : ∃ r ∈ ps, P r := by
  obtain ⟨r, hr, hPr⟩ := h
  rcases List.mem_append.1 hr with hr | hr
  · exact ⟨r, hr, hPr⟩
  · rw [List.mem_singleton.1 hr] at hPr
    exact absurd hPr hq

theorem exists_start (h : ∃ r ∈ ps, P r) : ∃ r ∈ ps ++ [q], P r := by
  obtain ⟨r, hr, hPr⟩ := h
  exact ⟨r, List.mem_append_left _ hr, hPr⟩

/-- What some execution passes after a step of one of them, it or another passed
before. -/
theorem exists_of_set (hp : ps[i]? = some p) (hq : P q → P p)
    (h : ∃ r ∈ ps.set i q, P r) : ∃ r ∈ ps, P r := by
  obtain ⟨r, hr, hPr⟩ := h
  rcases List.mem_or_eq_of_mem_set hr with hr | rfl
  · exact ⟨r, hr, hPr⟩
  · exact ⟨p, mem_of_get hp, hq hPr⟩

theorem exists_set (hp : ps[i]? = some p) (hq : P p → P q)
    (h : ∃ r ∈ ps, P r) : ∃ r ∈ ps.set i q, P r := by
  obtain ⟨r, hr, hPr⟩ := h
  obtain ⟨j, hj⟩ := List.mem_iff_getElem?.1 hr
  by_cases hij : i = j
  · subst hij
    rw [hp] at hj
    cases hj
    exact ⟨q, mem_of_get (get_set_self hp), hq hPr⟩
  · exact ⟨r, mem_of_get (get_set_ne hj hij), hPr⟩

end

end Pool
