import Mathlib.Data.Rat.Floor
import Mathlib.Tactic.Linarith

/-!
# Rounding to an integer

The conversions from a rational amount to an integer that price computations
use: truncation toward zero, and rounding to the nearest integer with halves
away from zero.
-/

namespace Rounding

/-- Truncation toward zero, as in the conversion of a float to an integer. -/
def trunc (x : ℚ) : Int := x.num.tdiv x.den

/-- The nearest integer, halves away from zero. -/
def halfAway (x : ℚ) : Int :=
  if x ≥ 0 then (x + 1 / 2).floor else -(-x + 1 / 2).floor

/-- The quotient of two decimals, with `digits` digits after the point. -/
def divRound (digits : Nat) (x y : ℚ) : ℚ := halfAway (x / y * 10 ^ digits) / 10 ^ digits

theorem trunc_of_nonneg {x : ℚ} (h : 0 ≤ x) : trunc x = ⌊x⌋ := by
  rw [trunc, Int.tdiv_eq_ediv_of_nonneg (Rat.num_nonneg.2 h), Rat.floor_def']

theorem trunc_neg (x : ℚ) : trunc (-x) = -trunc x := by
  rw [trunc, trunc, Rat.num_neg_eq_neg_num, Rat.den_neg_eq_den, Int.neg_tdiv]

@[simp] theorem trunc_intCast (n : Int) : trunc (n : ℚ) = n := by
  simp [trunc]

theorem trunc_nonneg {x : ℚ} (h : 0 ≤ x) : 0 ≤ trunc x := by
  rw [trunc_of_nonneg h]
  exact Int.floor_nonneg.2 h

theorem trunc_le {x : ℚ} (h : 0 ≤ x) : (trunc x : ℚ) ≤ x := by
  rw [trunc_of_nonneg h]
  exact Int.floor_le x

/-- An integer part is not truncated. -/
theorem trunc_intCast_add {n : Int} {x : ℚ} (hn : 0 ≤ n) (hx : 0 ≤ x) :
    trunc (n + x) = n + trunc x := by
  rw [trunc_of_nonneg hx, trunc_of_nonneg (by positivity), Int.floor_intCast_add]

/-- What truncates to a positive integer lies between it and the next one. -/
theorem trunc_eq_iff_of_pos {x : ℚ} {n : Int} (hn : 0 < n) :
    trunc x = n ↔ (n : ℚ) ≤ x ∧ x < n + 1 := by
  rcases le_or_gt 0 x with hx | hx
  · rw [trunc_of_nonneg hx, Int.floor_eq_iff]
  · have hnonpos : trunc x ≤ 0 := by
      rw [← neg_neg x, trunc_neg, neg_nonpos]
      exact trunc_nonneg (by linarith)
    have hcast : (0 : ℚ) < n := by exact_mod_cast hn
    constructor
    · intro h
      omega
    · rintro ⟨hle, _⟩
      linarith

/-- What truncates to zero lies within one of it, on either side. -/
theorem trunc_eq_zero_iff {x : ℚ} : trunc x = 0 ↔ |x| < 1 := by
  have hnonneg : ∀ y : ℚ, 0 ≤ y → (trunc y = 0 ↔ y < 1) := by
    intro y hy
    rw [trunc_of_nonneg hy, Int.floor_eq_zero_iff]
    exact ⟨fun h => h.2, fun h => ⟨hy, h⟩⟩
  rcases le_total 0 x with hx | hx
  · rw [abs_of_nonneg hx, hnonneg x hx]
  · rw [abs_of_nonpos hx, ← hnonneg (-x) (by linarith), trunc_neg, neg_eq_zero]

theorem halfAway_eq (x : ℚ) : halfAway x = if x ≥ 0 then ⌊x + 1 / 2⌋ else -⌊-x + 1 / 2⌋ := rfl

@[simp] theorem halfAway_zero : halfAway 0 = 0 := by
  rw [halfAway_eq, if_pos le_rfl, Int.floor_eq_iff]
  norm_num

theorem halfAway_eq_zero_iff {x : ℚ} : halfAway x = 0 ↔ |x| < 1 / 2 := by
  have hfloor : ∀ y : ℚ, 0 ≤ y → (⌊y + 1 / 2⌋ = 0 ↔ y < 1 / 2) := by
    intro y hy
    rw [Int.floor_eq_zero_iff]
    exact ⟨fun h => by linarith [h.2], fun h => ⟨by linarith, by linarith⟩⟩
  rw [halfAway_eq]
  split
  · next h => rw [hfloor x h, abs_of_nonneg h]
  · next h =>
      have hneg : x < 0 := not_le.1 h
      rw [neg_eq_zero, hfloor (-x) (by linarith), abs_of_neg hneg]

@[simp] theorem divRound_zero (digits : Nat) (y : ℚ) : divRound digits 0 y = 0 := by
  simp [divRound]

/-- A half below zero already goes to minus one. -/
theorem halfAway_nonneg_iff {x : ℚ} : 0 ≤ halfAway x ↔ -(1 / 2) < x := by
  rw [halfAway_eq]
  split
  · next h =>
      have hfloor : 0 ≤ ⌊x + 1 / 2⌋ := Int.floor_nonneg.2 (by linarith)
      exact ⟨fun _ => by linarith, fun _ => hfloor⟩
  · next h =>
      have hx : x < 0 := not_le.1 h
      have hfloor : 0 ≤ ⌊-x + 1 / 2⌋ := Int.floor_nonneg.2 (by linarith)
      have hone : ⌊-x + 1 / 2⌋ < 1 ↔ -x + 1 / 2 < 1 := by
        rw [Int.floor_lt, Int.cast_one]
      constructor
      · intro hneg
        have := hone.1 (by omega)
        linarith
      · intro hlt
        have := hone.2 (by linarith)
        omega

end Rounding
