import DazeApi.Lib.Scaling
import DazeApi.Relay.TaskSubmit

/-!
# Ratios and truncation

The submission truncates the quota after every ratio, the adjustment after every
division, and then once after the new product, each over a map in no fixed order.
A model priced by the second, or one of `TaskPricePatches`, is divided by ratios that
were never multiplied in.  The quota is the same in every order and survives an
adjustment by the same ratios exactly when `RatiosFit`.
-/

namespace DazeApi.Relay.TaskSubmit

/-! ## The loops as scalings -/

theorem applyRatios_eq (quota : Int) (order : List ℚ) :
    applyRatios quota order = Scaling.times quota order := by
  unfold applyRatios Scaling.times
  congr 1
  funext q ra
  split
  next => rfl
  next h =>
    obtain rfl : ra = 1 := not_not.1 h
    simp

theorem divideRatios_eq {order : List ℚ} (quota : Int) (hpos : ∀ ra ∈ order, 0 < ra) :
    divideRatios quota order = Scaling.divided quota order := by
  unfold divideRatios Scaling.divided
  refine List.foldl_ext _ _ _ fun q ra hra => ?_
  split
  next => rfl
  next h =>
    obtain rfl : ra = 1 := by
      by_contra hne
      exact h ⟨hne, hpos ra hra⟩
    simp

theorem foldl_ratios_eq_mul (x : ℚ) (ratios : List ℚ) :
    ratios.foldl (fun x ra => if ra ≠ 1 then x * ra else x) x = x * ratios.prod := by
  induction ratios generalizing x with
  | nil => simp
  | cons ra ratios ih =>
      rw [List.foldl_cons, ih, List.prod_cons, ← mul_assoc]
      congr 1
      split
      next => rfl
      next h => rw [not_not.1 h, mul_one]

theorem recalcQuotaFromRatios_eq {recorded : List ℚ} (quota : Int) (ratios : List ℚ)
    (hpos : ∀ ra ∈ recorded, 0 < ra) :
    recalcQuotaFromRatios quota recorded ratios = Scaling.rescaled quota recorded ratios := by
  rw [recalcQuotaFromRatios, divideRatios_eq quota hpos, foldl_ratios_eq_mul, Scaling.rescaled]

/-! ## Durations -/

theorem resolveTaskSeconds_pos (req : Option TaskSubmitReq) (ratios : Ratios) :
    0 < resolveTaskSeconds req ratios := by
  have hreq : 0 < resolveTaskSeconds.fromRequest req := by
    unfold resolveTaskSeconds.fromRequest
    split
    next => exact zero_lt_one
    next =>
      split
      next h => exact_mod_cast h
      next =>
        split
        next =>
          split
          next h => exact_mod_cast h
          next => exact zero_lt_one
        next => exact zero_lt_one
  unfold resolveTaskSeconds
  split
  next =>
    split
    next h => exact_mod_cast Int.ceil_pos.2 h
    next => exact hreq
  next => exact hreq

/-! ## Stability -/

/-- A quota charged for ratios in some order is the same in every order, and an
adjustment by the same ratios leaves it. -/
def OrderStable (charged : List ℚ → Int) (rs : List ℚ) : Prop :=
  (∀ os os', os.Perm rs → os'.Perm rs → charged os = charged os') ∧
  ∀ os as bs, os.Perm rs → as.Perm rs → bs.Perm rs →
    recalcQuotaFromRatios (charged os) as bs = charged os

/-- A quota that the ratios were not multiplied into is stable exactly if dividing by
them loses nothing. -/
theorem orderStable_const_iff {rs : List ℚ} (hpos : ∀ ra ∈ rs, 0 < ra) (quota : Int) :
    OrderStable (fun _ => quota) rs ↔ Scaling.Divides quota rs := by
  rw [← Scaling.rescaled_stable_iff quota hpos]
  constructor
  · rintro ⟨-, h⟩ as bs has hbs
    rw [← recalcQuotaFromRatios_eq quota bs (Scaling.pos_of_perm hpos has)]
    exact h rs as bs (List.Perm.refl rs) has hbs
  · refine fun h => ⟨fun _ _ _ _ => rfl, fun _ as bs _ has hbs => ?_⟩
    rw [recalcQuotaFromRatios_eq quota bs (Scaling.pos_of_perm hpos has)]
    exact h as bs has hbs

theorem orderStable_applyRatios_iff {rs : List ℚ} (hpos : ∀ ra ∈ rs, 0 < ra) (quota : Int) :
    OrderStable (applyRatios quota) rs ↔ Scaling.Splits quota rs := by
  rw [← Scaling.times_stable_iff quota hpos]
  unfold OrderStable
  simp only [applyRatios_eq]
  refine and_congr_right fun _ => ?_
  constructor
  · intro h os as bs hos has hbs
    rw [← recalcQuotaFromRatios_eq _ bs (Scaling.pos_of_perm hpos has)]
    exact h os as bs hos has hbs
  · intro h os as bs hos has hbs
    rw [recalcQuotaFromRatios_eq _ bs (Scaling.pos_of_perm hpos has)]
    exact h os as bs hos has hbs

/-- The quota of a priced task is the same for every order of its ratios, and an
adjustment by the same ratios leaves it. -/
def RatiosStable (p : PriceData) (perCallOnly : Bool) (req : Option TaskSubmitReq) : Prop :=
  OrderStable (chargedQuota p perCallOnly req) (values p.otherRatios)

/-- What the branches ask of the base quota: by the ratios, that it splits; by the second
or by the call, that the quota before any ratio can be divided by every selection of
them. -/
def RatiosFit (p : PriceData) (perCallOnly : Bool) (req : Option TaskSubmitReq) : Prop :=
  if p.fixedPriceUnit = "second" then
    Scaling.Divides (Rounding.trunc (p.quota * resolveTaskSeconds req p.otherRatios))
      (values p.otherRatios)
  else if perCallOnly then Scaling.Divides p.quota (values p.otherRatios)
  else Scaling.Splits p.quota (values p.otherRatios)

/-- For every base quota, every map of positive ratios and every way of pricing. -/
theorem ratiosStable_iff (p : PriceData) (perCallOnly : Bool) (req : Option TaskSubmitReq)
    (hpos : ∀ ra ∈ values p.otherRatios, 0 < ra) :
    RatiosStable p perCallOnly req ↔ RatiosFit p perCallOnly req := by
  unfold RatiosStable RatiosFit chargedQuota
  by_cases hsecond : p.fixedPriceUnit = "second"
  · simp only [if_pos hsecond, if_pos (resolveTaskSeconds_pos req p.otherRatios)]
    exact orderStable_const_iff hpos _
  · simp only [if_neg hsecond]
    cases perCallOnly with
    | true =>
        simp only [Bool.not_true, Bool.false_eq_true, if_false, if_true]
        exact orderStable_const_iff hpos _
    | false =>
        simp only [Bool.not_false, if_true, Bool.false_eq_true, if_false]
        exact orderStable_applyRatios_iff hpos p.quota

/-- Ten cents a call, five seconds, in the large size. -/
def largeVideo : PriceData :=
  { PriceData.zero with
    quota := 100000
    otherRatios := ((∅ : Ratios).insert "size" (1666667 / 1000000)).insert "seconds" 5 }

theorem ratiosStable_largeVideo :
    RatiosStable { largeVideo with quota := 1000000 } false none ↔
      RatiosFit { largeVideo with quota := 1000000 } false none :=
  ratiosStable_iff { largeVideo with quota := 1000000 } false none (by decide +kernel)

/-- The two orders of the two ratios charge 833333 and 833330. -/
theorem not_ratiosStable_largeVideo : ¬ RatiosStable largeVideo false none := by
  rintro ⟨horder, -⟩
  have h := horder [5, 1666667 / 1000000] [1666667 / 1000000, 5] (by decide +kernel)
    (by decide +kernel)
  revert h
  decide +kernel

end DazeApi.Relay.TaskSubmit
