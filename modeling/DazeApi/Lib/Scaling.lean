import Mathlib.Algebra.BigOperators.Group.List.Basic
import Mathlib.Algebra.Order.BigOperators.GroupWithZero.List
import Mathlib.Tactic.Ring
import Mathlib.Tactic.Linarith
import Mathlib.Tactic.FieldSimp
import Mathlib.Tactic.Positivity
import DazeApi.Lib.Rounding

/-!
# Truncated scaling

An integer multiplied by a list of positive rationals one after the other, with a
truncation after each, and divided the same way.  Neither depends on the order
as long as nothing is lost.  `times_stable_iff` says when multiplying, dividing
and multiplying again comes back to the same integer in every order: when the
integer splits into a part that stays integral under every selection of factors,
and a rest that every order brings to zero.
-/

namespace Scaling

open Rounding

/-- The product, truncated after each factor. -/
def times (q : Int) (rs : List ℚ) : Int := rs.foldl (fun q r => trunc (q * r)) q

/-- The quotient, truncated after each divisor. -/
def divided (q : Int) (rs : List ℚ) : Int := rs.foldl (fun q r => trunc (q / r)) q

/-- A quotient by the divisors `as` multiplied by `bs`, truncated once more. -/
def rescaled (q : Int) (as bs : List ℚ) : Int := trunc (divided q as * bs.prod)

@[simp] theorem times_nil (q : Int) : times q [] = q := rfl

@[simp] theorem times_cons (q : Int) (r : ℚ) (rs : List ℚ) :
    times q (r :: rs) = times (trunc (q * r)) rs := rfl

@[simp] theorem divided_nil (q : Int) : divided q [] = q := rfl

@[simp] theorem divided_cons (q : Int) (r : ℚ) (rs : List ℚ) :
    divided q (r :: rs) = divided (trunc (q / r)) rs := rfl

/-! ## Signs -/

theorem times_neg (q : Int) (rs : List ℚ) : times (-q) rs = -times q rs := by
  induction rs generalizing q with
  | nil => rfl
  | cons r rs ih => rw [times_cons, times_cons, Int.cast_neg, neg_mul, trunc_neg, ih]

theorem divided_neg (q : Int) (rs : List ℚ) : divided (-q) rs = -divided q rs := by
  induction rs generalizing q with
  | nil => rfl
  | cons r rs ih => rw [divided_cons, divided_cons, Int.cast_neg, neg_div, trunc_neg, ih]

theorem rescaled_neg (q : Int) (as bs : List ℚ) : rescaled (-q) as bs = -rescaled q as bs := by
  rw [rescaled, rescaled, divided_neg, Int.cast_neg, neg_mul, trunc_neg]

theorem prod_pos {rs : List ℚ} (hrs : ∀ r ∈ rs, 0 < r) : 0 < rs.prod :=
  List.prod_pos hrs

theorem times_nonneg {q : Int} {rs : List ℚ} (hrs : ∀ r ∈ rs, 0 < r) (hq : 0 ≤ q) :
    0 ≤ times q rs := by
  induction rs generalizing q with
  | nil => exact hq
  | cons r rs ih =>
      have hr : 0 < r := hrs r (by simp)
      exact ih (fun r' hr' => hrs r' (by simp [hr'])) (trunc_nonneg (by positivity))

theorem divided_nonneg {q : Int} {rs : List ℚ} (hrs : ∀ r ∈ rs, 0 < r) (hq : 0 ≤ q) :
    0 ≤ divided q rs := by
  induction rs generalizing q with
  | nil => exact hq
  | cons r rs ih =>
      have hr : 0 < r := hrs r (by simp)
      exact ih (fun r' hr' => hrs r' (by simp [hr'])) (trunc_nonneg (by positivity))

/-! ## What a truncation loses -/

/-- Truncations only lose. -/
theorem times_le {q : Int} {rs : List ℚ} (hrs : ∀ r ∈ rs, 0 < r) (hq : 0 ≤ q) :
    (times q rs : ℚ) ≤ q * rs.prod := by
  induction rs generalizing q with
  | nil => simp
  | cons r rs ih =>
      have hr : 0 < r := hrs r (by simp)
      have hrs' : ∀ r' ∈ rs, 0 < r' := fun r' hr' => hrs r' (by simp [hr'])
      have hqr : (0 : ℚ) ≤ q * r := by positivity
      calc (times (trunc (q * r)) rs : ℚ)
          ≤ (trunc (q * r) : ℚ) * rs.prod := ih hrs' (trunc_nonneg hqr)
        _ ≤ (q * r) * rs.prod := by
            exact mul_le_mul_of_nonneg_right (trunc_le hqr) (prod_pos hrs').le
        _ = q * (r :: rs).prod := by rw [List.prod_cons, mul_assoc]

/-- A summand that stays integral at every step is multiplied exactly. -/
theorem times_add {y d : Int} {rs : List ℚ} (hrs : ∀ r ∈ rs, 0 < r) (hy : 0 ≤ y) (hd : 0 ≤ d)
    (hexact : ∀ as bs, rs = as ++ bs → ∃ n : Int, (y : ℚ) * as.prod = n) :
    (times (y + d) rs : ℚ) = y * rs.prod + times d rs := by
  induction rs generalizing y d with
  | nil => simp
  | cons r rs ih =>
      have hr : 0 < r := hrs r (by simp)
      obtain ⟨n, hn⟩ := hexact [r] rs rfl
      rw [List.prod_singleton] at hn
      have hn0 : 0 ≤ n := by
        have : (0 : ℚ) ≤ n := hn ▸ (by positivity)
        exact_mod_cast this
      have hd0 : 0 ≤ (d : ℚ) * r := by positivity
      have hsum : ((y + d : Int) : ℚ) * r = n + d * r := by
        rw [Int.cast_add, add_mul, hn]
      rw [times_cons, times_cons, hsum, trunc_intCast_add hn0 hd0,
        ih (fun r' hr' => hrs r' (by simp [hr'])) hn0 (trunc_nonneg hd0), List.prod_cons, ← hn,
        mul_assoc]
      intro as bs h
      obtain ⟨m, hm⟩ := hexact (r :: as) bs (by rw [h, List.cons_append])
      exact ⟨m, by rw [← hm, ← hn, List.prod_cons, mul_assoc]⟩

/-- Dividing and multiplying back only loses. -/
theorem divided_mul_le {q : Int} {rs : List ℚ} (hrs : ∀ r ∈ rs, 0 < r) (hq : 0 ≤ q) :
    (divided q rs : ℚ) * rs.prod ≤ q := by
  induction rs generalizing q with
  | nil => simp
  | cons r rs ih =>
      have hr : 0 < r := hrs r (by simp)
      have hqr : (0 : ℚ) ≤ q / r := by positivity
      calc (divided (trunc (q / r)) rs : ℚ) * (r :: rs).prod
          = (divided (trunc (q / r)) rs : ℚ) * rs.prod * r := by rw [List.prod_cons]; ring
        _ ≤ (trunc (q / r) : ℚ) * r := by
            exact mul_le_mul_of_nonneg_right
              (ih (fun r' hr' => hrs r' (by simp [hr'])) (trunc_nonneg hqr)) hr.le
        _ ≤ q / r * r := mul_le_mul_of_nonneg_right (trunc_le hqr) hr.le
        _ = q := div_mul_cancel₀ _ hr.ne'

/-- Dividing and multiplying back loses nothing exactly if every quotient on the way
is an integer. -/
theorem divided_mul_eq_iff {q : Int} {rs : List ℚ} (hrs : ∀ r ∈ rs, 0 < r) (hq : 0 ≤ q) :
    (divided q rs : ℚ) * rs.prod = q ↔
      ∀ as bs, rs = as ++ bs → ∃ n : Int, (q : ℚ) = n * as.prod := by
  induction rs generalizing q with
  | nil =>
      refine ⟨fun _ as bs h => ?_, fun _ => by simp⟩
      obtain ⟨rfl, -⟩ := List.append_eq_nil_iff.1 h.symm
      exact ⟨q, by simp⟩
  | cons r rs ih =>
      have hr : 0 < r := hrs r (by simp)
      have hrs' : ∀ r' ∈ rs, 0 < r' := fun r' hr' => hrs r' (by simp [hr'])
      have hqr : (0 : ℚ) ≤ q / r := by positivity
      have hm := trunc_nonneg hqr
      have hmr : (trunc (q / r) : ℚ) * r ≤ q := by
        have := mul_le_mul_of_nonneg_right (trunc_le hqr) hr.le
        rwa [div_mul_cancel₀ _ hr.ne'] at this
      have hle := divided_mul_le hrs' hm
      have hsplit : (divided q (r :: rs) : ℚ) * (r :: rs).prod =
          (divided (trunc (q / r)) rs : ℚ) * rs.prod * r := by
        rw [List.prod_cons, divided_cons]
        ring
      rw [hsplit]
      constructor
      · intro h as bs has
        have hexact : (trunc (q / r) : ℚ) * r = q := by
          have := mul_le_mul_of_nonneg_right hle hr.le
          linarith
        have hinner : (divided (trunc (q / r)) rs : ℚ) * rs.prod = trunc (q / r) := by
          have : (divided (trunc (q / r)) rs : ℚ) * rs.prod * r = trunc (q / r) * r := by
            rw [h, hexact]
          exact mul_right_cancel₀ hr.ne' this
        cases as with
        | nil => exact ⟨q, by simp⟩
        | cons a as =>
            obtain ⟨rfl, htail⟩ := List.cons_eq_cons.1 has
            obtain ⟨n, hn⟩ := (ih hrs' hm).1 hinner as bs htail
            exact ⟨n, by rw [List.prod_cons, ← hexact, hn]; ring⟩
      · intro h
        obtain ⟨n, hn⟩ := h [r] rs rfl
        rw [List.prod_singleton] at hn
        have htrunc : trunc (q / r) = n := by
          rw [hn, mul_div_cancel_right₀ _ hr.ne', trunc_intCast]
        rw [htrunc] at hm ⊢
        rw [(ih hrs' hm).2 ?_, ← hn]
        intro as bs htail
        obtain ⟨m, hm'⟩ := h (r :: as) bs (by rw [htail, List.cons_append])
        refine ⟨m, mul_right_cancel₀ hr.ne' ?_⟩
        rw [← hn, hm', List.prod_cons]
        ring

/-! ## Stability -/

/-- The quotient by every selection of the divisors is an integer. -/
def Divides (q : Int) (rs : List ℚ) : Prop :=
  ∀ as bs, rs.Perm (as ++ bs) → ∃ n : Int, (q : ℚ) = n * as.prod

/-- The product with every selection of the factors is an integer. -/
def Integral (y : Int) (rs : List ℚ) : Prop :=
  ∀ as bs, rs.Perm (as ++ bs) → ∃ n : Int, (y : ℚ) * as.prod = n

/-- A part that stays integral and a rest of the same sign that every order brings
to zero. -/
def Splits (q : Int) (rs : List ℚ) : Prop :=
  ∃ y d : Int, q = y + d ∧ ((0 ≤ y ∧ 0 ≤ d) ∨ (y ≤ 0 ∧ d ≤ 0)) ∧ Integral y rs ∧
    ∀ os, os.Perm rs → times d os = 0

theorem Divides.neg {q : Int} {rs : List ℚ} (h : Divides q rs) : Divides (-q) rs := by
  intro as bs hperm
  obtain ⟨n, hn⟩ := h as bs hperm
  exact ⟨-n, by push_cast; rw [hn, neg_mul]⟩

theorem Splits.neg {q : Int} {rs : List ℚ} (h : Splits q rs) : Splits (-q) rs := by
  obtain ⟨y, d, rfl, hsign, hy, hd⟩ := h
  refine ⟨-y, -d, by omega, by omega, ?_, fun os hos => by rw [times_neg, hd os hos, neg_zero]⟩
  intro as bs hperm
  obtain ⟨n, hn⟩ := hy as bs hperm
  exact ⟨-n, by push_cast; rw [neg_mul, hn]⟩

theorem pos_of_perm {rs os : List ℚ} (hrs : ∀ r ∈ rs, 0 < r) (h : os.Perm rs) :
    ∀ r ∈ os, 0 < r :=
  fun r hr => hrs r (h.mem_iff.1 hr)

/-- A rescaling by the same factors comes back exactly if nothing is lost. -/
theorem rescaled_eq_iff {q : Int} {as bs : List ℚ} (has : ∀ r ∈ as, 0 < r) (hq : 0 ≤ q)
    (hperm : as.Perm bs) :
    rescaled q as bs = q ↔ (divided q as : ℚ) * as.prod = q := by
  have hnonneg : (0 : ℚ) ≤ (divided q as : ℚ) * as.prod :=
    mul_nonneg (by exact_mod_cast divided_nonneg has hq) (prod_pos has).le
  rw [rescaled, ← hperm.prod_eq]
  constructor
  · intro h
    have hle := divided_mul_le has hq
    have hge := trunc_le hnonneg
    rw [h] at hge
    exact le_antisymm hle hge
  · intro h
    rw [h, trunc_intCast]

/-- Dividing and multiplying by the same factors comes back in every order exactly if
every quotient is an integer. -/
theorem rescaled_stable_iff (q : Int) {rs : List ℚ} (hrs : ∀ r ∈ rs, 0 < r) :
    (∀ as bs, as.Perm rs → bs.Perm rs → rescaled q as bs = q) ↔ Divides q rs := by
  have hcase : ∀ q : Int, 0 ≤ q →
      ((∀ as bs, as.Perm rs → bs.Perm rs → rescaled q as bs = q) ↔ Divides q rs) := by
    intro q hq
    constructor
    · intro h as bs hperm
      have hpos := pos_of_perm hrs hperm.symm
      have hback := h (as ++ bs) rs hperm.symm (List.Perm.refl rs)
      rw [rescaled_eq_iff hpos hq hperm.symm] at hback
      exact (divided_mul_eq_iff hpos hq).1 hback as bs rfl
    · intro h as bs has hbs
      have hpos := pos_of_perm hrs has
      rw [rescaled_eq_iff hpos hq (has.trans hbs.symm), divided_mul_eq_iff hpos hq]
      intro cs ds hcs
      exact h cs ds (hcs ▸ has.symm)
  by_cases hq : 0 ≤ q
  · exact hcase q hq
  · have hneg : Divides q rs ↔ Divides (-q) rs :=
      ⟨Divides.neg, fun h => by simpa using h.neg⟩
    rw [hneg, ← hcase (-q) (by omega)]
    refine forall_congr' fun as => forall_congr' fun bs => ?_
    rw [rescaled_neg, neg_inj]

/-- Scaling is the same in every order, and rescaling by the same factors comes back,
exactly if the integer splits. -/
theorem times_stable_iff (q : Int) {rs : List ℚ} (hrs : ∀ r ∈ rs, 0 < r) :
    ((∀ os os', os.Perm rs → os'.Perm rs → times q os = times q os') ∧
      ∀ os as bs, os.Perm rs → as.Perm rs → bs.Perm rs →
        rescaled (times q os) as bs = times q os) ↔ Splits q rs := by
  have hcase : ∀ q : Int, 0 ≤ q →
      (((∀ os os', os.Perm rs → os'.Perm rs → times q os = times q os') ∧
        ∀ os as bs, os.Perm rs → as.Perm rs → bs.Perm rs →
          rescaled (times q os) as bs = times q os) ↔ Splits q rs) := by
    intro q hq
    constructor
    · rintro ⟨horder, hstable⟩
      have hdiv : Divides (times q rs) rs :=
        (rescaled_stable_iff _ hrs).1 fun as bs => hstable rs as bs (List.Perm.refl rs)
      obtain ⟨y, hy⟩ := hdiv rs [] (by simp)
      have hprod := prod_pos hrs
      have hy0 : 0 ≤ y := by
        have h0 : (0 : ℚ) ≤ y * rs.prod := by
          rw [← hy]
          exact_mod_cast times_nonneg hrs hq
        exact_mod_cast nonneg_of_mul_nonneg_left h0 hprod
      have hyq : y ≤ q := by
        have hle := times_le hrs hq
        rw [hy] at hle
        exact_mod_cast le_of_mul_le_mul_right hle hprod
      have hint : Integral y rs := by
        intro as bs hperm
        obtain ⟨n, hn⟩ := hdiv bs as (hperm.trans List.perm_append_comm)
        have hbs : bs.prod ≠ 0 :=
          (prod_pos fun r hr => hrs r (hperm.mem_iff.2 (by simp [hr]))).ne'
        refine ⟨n, mul_right_cancel₀ hbs ?_⟩
        rw [← hn, hy, hperm.prod_eq, List.prod_append, mul_assoc]
      refine ⟨y, q - y, by omega, Or.inl ⟨hy0, by omega⟩, hint, ?_⟩
      intro os hos
      have hadd := times_add (pos_of_perm hrs hos) hy0 (by omega : 0 ≤ q - y)
        fun as bs h => hint as bs (h ▸ hos.symm)
      rw [add_sub_cancel, horder os rs hos (List.Perm.refl rs), hy, hos.prod_eq] at hadd
      exact_mod_cast (left_eq_add.1 hadd)
    · rintro ⟨y, d, rfl, hsign, hint, hrest⟩
      have hy0 : 0 ≤ y := by omega
      have hd0 : 0 ≤ d := by omega
      have heq : ∀ os, os.Perm rs → (times (y + d) os : ℚ) = y * rs.prod := by
        intro os hos
        rw [times_add (pos_of_perm hrs hos) hy0 hd0 fun as bs h => hint as bs (h ▸ hos.symm),
          hrest os hos, hos.prod_eq, Int.cast_zero, add_zero]
      refine ⟨fun os os' hos hos' => ?_, fun os as bs hos => ?_⟩
      · exact_mod_cast (heq os hos).trans (heq os' hos').symm
      · refine (rescaled_stable_iff _ hrs).2 ?_ as bs
        intro cs ds hperm
        obtain ⟨n, hn⟩ := hint ds cs (hperm.trans List.perm_append_comm)
        refine ⟨n, ?_⟩
        rw [heq os hos, hperm.prod_eq, List.prod_append, ← hn]
        ring
  by_cases hq : 0 ≤ q
  · exact hcase q hq
  · have hneg : Splits q rs ↔ Splits (-q) rs := ⟨Splits.neg, fun h => by simpa using h.neg⟩
    rw [hneg, ← hcase (-q) (by omega)]
    simp only [times_neg, rescaled_neg, neg_inj]

end Scaling
