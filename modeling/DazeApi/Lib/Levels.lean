import Mathlib.Data.Finset.Card
import Mathlib.Data.List.Sort

/-!
# Levels

The distinct values of a list in decreasing order.  A value stands at the place that is
the number of the values above it.
-/

universe u

namespace Levels

variable {α : Type u} [LinearOrder α] {l : List α} {p q : α} {i j : Nat}

/-- The distinct values of a list, the highest first. -/
def levels (l : List α) : List α := l.dedup.insertionSort (· ≥ ·)

@[simp] theorem mem_levels : p ∈ levels l ↔ p ∈ l := by
  rw [levels, List.mem_insertionSort, List.mem_dedup]

theorem nodup_levels (l : List α) : (levels l).Nodup :=
  (List.perm_insertionSort _ _).nodup_iff.2 l.nodup_dedup

theorem pairwise_levels (l : List α) : (levels l).Pairwise (· > ·) := by
  have hsorted : (levels l).Pairwise (· ≥ ·) := List.pairwise_insertionSort _ _
  refine (hsorted.and (nodup_levels l)).imp ?_
  rintro p q ⟨hge, hne⟩
  exact lt_of_le_of_ne hge (Ne.symm hne)

theorem length_levels (l : List α) : (levels l).length = l.toFinset.card := by
  rw [levels, List.length_insertionSort, List.card_toFinset]

/-- In a decreasing list a value stands behind the higher ones. -/
theorem getElem?_eq_some_iff_of_pairwise : ∀ {l : List α} {i : Nat}, l.Pairwise (· > ·) →
    (l[i]? = some p ↔ p ∈ l ∧ l.countP (p < ·) = i)
  | [], i, _ => by simp
  | q :: l, i, h => by
      obtain ⟨hq, hl⟩ := List.pairwise_cons.1 h
      have hzero {r : α} (hr : q ≤ r) : l.countP (r < ·) = 0 := by
        rw [List.countP_eq_zero]
        intro s hs
        simpa using (lt_of_lt_of_le (hq s hs) hr).le
      cases i with
      | zero =>
          rw [List.getElem?_cons_zero, List.countP_cons]
          constructor
          · intro heq
            cases heq
            simp [hzero le_rfl]
          · rintro ⟨hp, hcount⟩
            rcases List.mem_cons.1 hp with rfl | hp
            · rfl
            · simp [hq p hp] at hcount
      | succ i =>
          rw [List.getElem?_cons_succ, getElem?_eq_some_iff_of_pairwise hl, List.countP_cons]
          constructor
          · rintro ⟨hp, hcount⟩
            refine ⟨List.mem_cons_of_mem _ hp, ?_⟩
            simp [hq p hp, hcount]
          · rintro ⟨hp, hcount⟩
            rcases List.mem_cons.1 hp with rfl | hp
            · simp [hzero le_rfl] at hcount
            · refine ⟨hp, ?_⟩
              simpa [hq p hp] using hcount

/-- The place of a value is the number of the values above it. -/
theorem getElem?_levels_iff :
    (levels l)[i]? = some p ↔ p ∈ l ∧ (l.toFinset.filter (p < ·)).card = i := by
  have hcount : (levels l).countP (p < ·) = (l.toFinset.filter (p < ·)).card := by
    have hset : l.toFinset.filter (p < ·) = ((levels l).filter (p < ·)).toFinset := by
      ext q
      simp
    rw [hset, List.toFinset_card_of_nodup ((nodup_levels l).filter _), List.countP_eq_length_filter]
  rw [getElem?_eq_some_iff_of_pairwise (pairwise_levels l), mem_levels, hcount]

/-- The first level is the maximum. -/
theorem getElem?_levels_zero_iff : (levels l)[0]? = some p ↔ p ∈ l ∧ ∀ q ∈ l, q ≤ p := by
  rw [getElem?_levels_iff, Finset.card_eq_zero, Finset.filter_eq_empty_iff]
  simp

/-- A later level is a lower one. -/
theorem le_of_getElem?_levels (hi : (levels l)[i]? = some p) (hj : (levels l)[j]? = some q)
    (h : i ≤ j) : q ≤ p := by
  rw [getElem?_levels_iff] at hi hj
  by_contra hpq
  have hsub : l.toFinset.filter (q < ·) ⊂ l.toFinset.filter (p < ·) := by
    refine Finset.ssubset_iff_of_subset ?_ |>.2 ⟨q, ?_, ?_⟩
    · intro r hr
      simp only [Finset.mem_filter] at hr ⊢
      exact ⟨hr.1, lt_trans (not_le.1 hpq) hr.2⟩
    · simpa using ⟨hj.1, not_le.1 hpq⟩
    · simp
  have hlt := Finset.card_lt_card hsub
  omega

end Levels
