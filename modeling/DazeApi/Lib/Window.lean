import Mathlib.Data.List.Basic
import Mathlib.Data.List.FinRange
import Mathlib.Data.List.Perm.Subperm

/-!
# Sliding windows

A limiter lets an event pass unless a number of earlier events lie within a duration
before it.  Since the events come in order, it need not count: it keeps the last so many
of them, newest first, and looks at the oldest of these.  `full_iff` is the reason.
-/

namespace Window

universe u

variable {α : Type u}

/-- Where what holds of an element holds of those before it, it holds of more than `n`
elements exactly if it holds of the one at position `n`. -/
theorem lt_countP_iff {p : α → Bool} :
    ∀ {xs : List α} {n : Nat}, xs.Pairwise (fun x y => p y = true → p x = true) →
      (n < xs.countP p ↔ ∃ x, xs[n]? = some x ∧ p x = true)
  | [], n, _ => by simp
  | x :: xs, n, h => by
      obtain ⟨hx, hxs⟩ := List.pairwise_cons.1 h
      cases hp : p x with
      | false =>
          have hnone : ∀ y ∈ xs, p y = false := by
            intro y hy
            rw [← Bool.not_eq_true]
            intro hpy
            rw [hx y hy hpy] at hp
            cases hp
          have hcount : (x :: xs).countP p = 0 := by
            rw [List.countP_eq_zero]
            intro y hy
            rcases List.mem_cons.1 hy with rfl | hy
            · simp [hp]
            · simp [hnone y hy]
          rw [hcount]
          constructor
          · intro h0
            omega
          · rintro ⟨y, hy, hpy⟩
            rcases List.mem_cons.1 (List.mem_of_getElem? hy) with rfl | hy
            · rw [hp] at hpy
              cases hpy
            · rw [hnone y hy] at hpy
              cases hpy
      | true =>
          rw [List.countP_cons_of_pos hp]
          cases n with
          | zero => simp [hp]
          | succ n =>
              have ih := lt_countP_iff (n := n) hxs
              simpa using ih

/-- So many of the times lie within the duration before now. -/
def Full (n : Nat) (duration now : Int) (times : List Int) : Prop :=
  n ≤ times.countP fun t => now - t < duration

instance (n : Nat) (duration now : Int) (times : List Int) :
    Decidable (Full n duration now times) :=
  inferInstanceAs (Decidable (_ ≤ _))

/-- The window is full exactly if the oldest of the last so many times lies in it. -/
theorem full_iff {n : Nat} {duration now : Int} {times : List Int}
    (h : times.Pairwise (fun later earlier => earlier ≤ later)) :
    Full (n + 1) duration now times ↔ ∃ old, times[n]? = some old ∧ now - old < duration := by
  have hmono : times.Pairwise fun x y =>
      decide (now - y < duration) = true → decide (now - x < duration) = true := by
    refine h.imp ?_
    intro x y hxy hy
    simp only [decide_eq_true_eq] at hy ⊢
    omega
  rw [Full, Nat.succ_le_iff, lt_countP_iff hmono]
  simp

/-- No window of the duration holds more than so many of the times. -/
def Limits (n : Nat) (duration : Int) (times : List Int) : Prop :=
  ∀ start, times.countP (fun t => start ≤ t ∧ t < start + duration) ≤ n

/-- A time may be added that follows a moment at which the window was not full. -/
theorem Limits.cons {n : Nat} {duration now t : Int} {times : List Int}
    (h : Limits n duration times) (hfull : ¬ Full n duration now times) (ht : now ≤ t) :
    Limits n duration (t :: times) := by
  intro start
  rw [List.countP_cons]
  split
  next hin =>
    simp only [decide_eq_true_eq] at hin
    have hle : times.countP (fun t => start ≤ t ∧ t < start + duration) ≤
        times.countP fun t => now - t < duration := by
      refine List.countP_mono_left fun s _ hs => ?_
      simp only [decide_eq_true_eq] at hs ⊢
      omega
    rw [Full] at hfull
    omega
  next => exact h start

/-- There are at most so many elements of a kind, where their places differ modulo the number. -/
theorem countP_le_of_places {p : α → Bool} {n : Nat} {xs : List α} (hn : 0 < n)
    (h : ∀ i j : Fin xs.length, i < j → p (xs.get i) = true → p (xs.get j) = true →
      i.val % n ≠ j.val % n) : xs.countP p ≤ n := by
  let places := ((List.finRange xs.length).filter fun i => p (xs.get i)).map fun i => i.val % n
  have hcount : xs.countP p = places.length := by
    rw [List.length_map, ← List.countP_eq_length_filter]
    conv_lhs => rw [← List.map_get_finRange xs, List.countP_map]
    rfl
  have hnodup : places.Nodup := by
    refine List.Nodup.map_on ?_ ((List.nodup_finRange _).filter _)
    intro i hi j hj hmod
    rcases lt_trichotomy i j with hij | hij | hij
    · exact absurd hmod (h i j hij (List.mem_filter.1 hi).2 (List.mem_filter.1 hj).2)
    · exact hij
    · exact absurd hmod.symm (h j i hij (List.mem_filter.1 hj).2 (List.mem_filter.1 hi).2)
  have hsub : places ⊆ List.range n := by
    intro r hr
    obtain ⟨i, -, rfl⟩ := List.mem_map.1 hr
    exact List.mem_range.2 (Nat.mod_lt _ hn)
  have hlen := (List.subperm_of_subset hnodup hsub).length_le
  rw [List.length_range] at hlen
  rw [hcount]
  exact hlen

/-- The times are apart by the duration wherever they are so many places apart. -/
def Spaced (n : Nat) (duration : Int) (times : List Int) : Prop :=
  ∀ i later earlier, times[i]? = some later → times[i + n]? = some earlier →
    duration ≤ later - earlier

/-- A time may be added that is apart from the last so many. -/
theorem Spaced.cons {n : Nat} {duration t : Int} {times : List Int}
    (h : Spaced (n + 1) duration times)
    (ht : ∀ old, times[n]? = some old → duration ≤ t - old) :
    Spaced (n + 1) duration (t :: times) := by
  intro i later earlier hlater hearlier
  cases i with
  | zero =>
      cases hlater
      rw [Nat.zero_add, List.getElem?_cons_succ] at hearlier
      exact ht earlier hearlier
  | succ i =>
      rw [List.getElem?_cons_succ] at hlater
      rw [Nat.add_right_comm, List.getElem?_cons_succ] at hearlier
      exact h i later earlier hlater hearlier

theorem Spaced.mul {n : Nat} {duration : Int} {times : List Int} (h : Spaced n duration times)
    (hduration : 0 ≤ duration) (k : Nat) : Spaced ((k + 1) * n) duration times := by
  induction k with
  | zero =>
      rw [Nat.zero_add, Nat.one_mul]
      exact h
  | succ k ih =>
      intro i later earlier hlater hearlier
      rw [Nat.succ_mul (k + 1), ← Nat.add_assoc] at hearlier
      obtain ⟨hlt, -⟩ := List.getElem?_eq_some_iff.1 hearlier
      have hmid := List.getElem?_eq_getElem (Nat.lt_of_le_of_lt (Nat.le_add_right _ n) hlt)
      have hfirst := ih i later _ hlater hmid
      have hlast := h _ _ earlier hmid hearlier
      omega

/-- Spaced times, in any order, have no more than so many in a window. -/
theorem Spaced.limits {n : Nat} {duration : Int} {times : List Int} (h : Spaced n duration times)
    (hn : 0 < n) : Limits n duration times := by
  intro start
  refine countP_le_of_places hn ?_
  intro i j hij hi hj hmod
  simp only [decide_eq_true_eq] at hi hj
  have hlt : i.val < j.val := hij
  obtain ⟨k, hk⟩ := Nat.dvd_of_mod_eq_zero (Nat.sub_mod_eq_zero_of_mod_eq hmod.symm)
  cases k with
  | zero =>
      rw [Nat.mul_zero] at hk
      omega
  | succ k =>
      have hplace : i.val + (k + 1) * n = j.val := by
        rw [Nat.mul_comm]
        omega
      have hlater := List.getElem?_eq_getElem i.isLt
      have hearlier : times[i.val + (k + 1) * n]? = some times[j.val] := by
        rw [hplace]
        exact List.getElem?_eq_getElem j.isLt
      have happart := h.mul (by omega) k i.val _ _ hlater hearlier
      simp only [List.get_eq_getElem] at hi hj
      omega

/-- Of the last so many of a list, oldest first, the oldest is dropped for a new one. -/
theorem reverse_take_cons {x old : α} {xs : List α} {n : Nat} (h : xs[n]? = some old) :
    ∃ rest, (xs.take (n + 1)).reverse = old :: rest ∧
      ((x :: xs).take (n + 1)).reverse = rest ++ [x] := by
  refine ⟨(xs.take n).reverse, ?_, by simp⟩
  rw [List.take_add_one, h]
  simp

theorem reverse_take_cons_of_lt {x : α} {xs : List α} {n : Nat} (h : xs.length < n) :
    ((x :: xs).take n).reverse = (xs.take n).reverse ++ [x] := by
  rw [List.take_of_length_le (by simp; omega), List.take_of_length_le (by omega),
    List.reverse_cons]

end Window
