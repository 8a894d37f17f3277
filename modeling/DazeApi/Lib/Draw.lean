import Mathlib.Algebra.BigOperators.Group.List.Basic
import Mathlib.Algebra.Order.BigOperators.Group.List
import Mathlib.Data.List.Nodup
import Mathlib.Tactic.Ring

/-!
# Drawing by weight

A draw below the sum of the weights goes along a list and loses the weight of every
element that it passes; the element at which it falls below a bound is picked.  With the bound 0 these are the elements
of positive weight.  With the bound 1 every element is picked by as many draws as it weighs,
except that the first one has a draw of the last (`countP_pick_one`); with the bound 0
there is no exception (`countP_pick_zero`).  The loop of a program with 64-bit integers is
the same as long as the sum fits (`wrapPick_eq`).
-/

universe u

namespace Draw

variable {α : Type u} (weight : α → Nat)

def total (l : List α) : Nat := (l.map weight).sum

/-- The loop that subtracts the weights and stops below the bound. -/
def pick (bound : Int) : Int → List α → Option α
  | _, [] => none
  | d, x :: xs => if d - weight x < bound then some x else pick bound (d - weight x) xs

variable {weight} {bound d : Int} {l pre post : List α} {x : α}

@[simp] theorem total_nil : total weight [] = 0 := rfl

@[simp] theorem total_cons : total weight (x :: l) = weight x + total weight l := rfl

@[simp] theorem total_append : total weight (pre ++ post) = total weight pre + total weight post := by
  simp [total]

theorem total_affine (f a : Nat) :
    ∀ l : List α, total (fun x => weight x * f + a) l = total weight l * f + l.length * a
  | [] => by simp
  | x :: l => by
      rw [total_cons, total_cons, total_affine f a l, List.length_cons]
      ring

theorem total_eq_zero_iff : total weight l = 0 ↔ ∀ x ∈ l, weight x = 0 := by
  simp [total, List.sum_eq_zero_iff]

theorem mem_of_pick : ∀ {l : List α} {d : Int}, pick weight bound d l = some x → x ∈ l
  | y :: l, d, h => by
      rw [pick] at h
      split at h
      next =>
        cases h
        exact List.mem_cons_self
      next => exact List.mem_cons_of_mem _ (mem_of_pick h)

/-- The draw passes the elements that it outweighs. -/
theorem pick_pass : ∀ {pre : List α} {d : Int}, bound ≤ d - total weight pre →
    pick weight bound d (pre ++ post) = pick weight bound (d - total weight pre) post
  | [], d, _ => by simp
  | y :: pre, d, h => by
      rw [total_cons, Int.natCast_add] at h
      have hpass : ¬ d - weight y < bound := by omega
      have hrest : bound ≤ d - weight y - total weight pre := by omega
      rw [List.cons_append, pick, if_neg hpass, pick_pass hrest, total_cons, Int.natCast_add,
        Int.sub_sub]

/-- The draw stops at one of the elements that outweigh it. -/
theorem exists_pick_of_lt (weight : α → Nat) (post : List α) :
    ∀ {pre : List α} {d : Int}, pre ≠ [] → d - total weight pre < bound →
    ∃ y ∈ pre, pick weight bound d (pre ++ post) = some y
  | y :: pre, d, _, h => by
      by_cases hstop : d - weight y < bound
      · exact ⟨y, List.mem_cons_self, by rw [List.cons_append, pick, if_pos hstop]⟩
      · have hne : pre ≠ [] := by
          rintro rfl
          exact hstop (by simpa using h)
        have hrest : d - weight y - total weight pre < bound := by
          rw [total_cons, Int.natCast_add] at h
          omega
        obtain ⟨z, hz, hpick⟩ := exists_pick_of_lt weight post hne hrest
        exact ⟨z, List.mem_cons_of_mem _ hz, by rw [List.cons_append, pick, if_neg hstop, hpick]⟩

/-- An element is picked by the draws between what stands before it and its own end. -/
theorem pick_middle_iff (hl : (pre ++ x :: post).Nodup) :
    pick weight bound d (pre ++ x :: post) = some x ↔
      (pre = [] ∨ bound ≤ d - total weight pre) ∧ d - total weight pre - weight x < bound := by
  obtain ⟨-, hpost, hdisj⟩ := List.nodup_append.1 hl
  have hxpre : x ∉ pre := fun hx => hdisj x hx x List.mem_cons_self rfl
  have hxpost : x ∉ post := (List.nodup_cons.1 hpost).1
  have hhead (d : Int) : pick weight bound d (x :: post) = some x ↔ d - weight x < bound := by
    rw [pick]
    split
    next h => simp [h]
    next h => simpa [h] using fun hpick => hxpost (mem_of_pick hpick)
  by_cases hpass : bound ≤ d - total weight pre
  · rw [pick_pass hpass, hhead]
    simp [hpass]
  · by_cases hnil : pre = []
    · subst hnil
      simpa using hhead d
    · obtain ⟨y, hy, hpick⟩ := exists_pick_of_lt weight (x :: post) hnil (Int.not_le.1 hpass)
      rw [hpick]
      constructor
      · intro h
        exact absurd (Option.some.inj h ▸ hy) hxpre
      · rintro ⟨h, -⟩
        exact absurd h (not_or.2 ⟨hnil, hpass⟩)

/-! ## What can be picked -/

theorem pos_of_pick_zero : ∀ {l : List α} {d : Int}, 0 ≤ d → pick weight 0 d l = some x → 0 < weight x
  | y :: l, d, hd, h => by
      rw [pick] at h
      split at h
      next hstop =>
        cases h
        omega
      next hpass => exact pos_of_pick_zero (by omega) h

/-- With the bound 0 the elements of positive weight can be picked. -/
theorem exists_pick_zero_iff :
    (∃ d : Nat, d < total weight l ∧ pick weight 0 d l = some x) ↔ x ∈ l ∧ 0 < weight x := by
  constructor
  · rintro ⟨d, -, hpick⟩
    exact ⟨mem_of_pick hpick, pos_of_pick_zero (by omega) hpick⟩
  · rintro ⟨hx, hpos⟩
    obtain ⟨pre, post, rfl⟩ := List.append_of_mem hx
    refine ⟨total weight pre, by simp; omega, ?_⟩
    rw [pick_pass (by omega), pick, if_pos (by omega)]

/-- With the bound 1 all elements can be picked, if they weigh more than 1. -/
theorem exists_pick_one_iff (hw : ∀ x ∈ l, 1 < weight x) :
    (∃ d : Nat, d < total weight l ∧ pick weight 1 d l = some x) ↔ x ∈ l := by
  constructor
  · rintro ⟨d, -, hpick⟩
    exact mem_of_pick hpick
  · intro hx
    have hwx := hw x hx
    obtain ⟨pre, post, rfl⟩ := List.append_of_mem hx
    refine ⟨total weight pre + 1, by simp; omega, ?_⟩
    rw [pick_pass (by omega), pick, if_pos (by omega)]

/-! ## In machine integers -/

section

variable {n : Int} {f : α → Int}

/-- A 64-bit integer wraps around. -/
def wrap (n : Int) : Int := n.bmod (2 ^ 64)

theorem wrap_of_lt (hlo : 0 ≤ n) (hhi : n < 2 ^ 63) : wrap n = n :=
  Int.bmod_eq_of_le_mul_two (by omega) (by omega)

theorem wrap_natCast {n : Nat} (h : n < 2 ^ 63) : wrap n = n := wrap_of_lt (by omega) (by omega)

/-- The sum of the weights, wrapped at every step. -/
def wrapTotal (f : α → Int) (l : List α) : Int := l.foldl (fun s x => wrap (s + f x)) 0

/-- The loop in 64-bit integers. -/
def wrapPick (f : α → Int) : Int → List α → Option α
  | _, [] => none
  | d, x :: xs => if wrap (d - f x) < 0 then some x else wrapPick f (wrap (d - f x)) xs

theorem foldl_wrap (hf : ∀ x ∈ l, f x = weight x) (hd : 0 ≤ d)
    (hfits : d + total weight l < 2 ^ 63) :
    l.foldl (fun s x => wrap (s + f x)) d = d + total weight l := by
  induction l generalizing d with
  | nil => simp
  | cons x l ih =>
      obtain ⟨hx, hl⟩ := List.forall_mem_cons.1 hf
      rw [total_cons, Int.natCast_add] at hfits
      have hstep : wrap (d + f x) = d + weight x := by
        rw [hx]
        exact wrap_of_lt (by omega) (by omega)
      rw [List.foldl_cons, hstep, ih hl (by omega) (by omega), total_cons, Int.natCast_add,
        Int.add_assoc]

theorem wrapTotal_eq (hf : ∀ x ∈ l, f x = weight x) (hfits : total weight l < 2 ^ 63) :
    wrapTotal f l = total weight l := by
  rw [wrapTotal, foldl_wrap hf le_rfl (by omega), Int.zero_add]

theorem wrapPick_eq (hf : ∀ x ∈ l, f x = weight x) (hfits : total weight l < 2 ^ 63)
    (hd : 0 ≤ d) (hlt : d < 2 ^ 63) : wrapPick f d l = pick weight 0 d l := by
  induction l generalizing d with
  | nil => rfl
  | cons x l ih =>
      obtain ⟨hx, hl⟩ := List.forall_mem_cons.1 hf
      rw [total_cons] at hfits
      have hstep : wrap (d - f x) = d - weight x := by
        rw [hx]
        exact Int.bmod_eq_of_le_mul_two (by omega) (by omega)
      rw [wrapPick, pick, hstep]
      split
      next => rfl
      next hpass => exact ih hl (by omega) (by omega) (by omega)

end

/-! ## How many draws pick an element -/

theorem countP_range_between (lo hi : Nat) :
    ∀ n : Nat, (List.range n).countP (fun d => lo ≤ d ∧ d < hi) = min n hi - lo
  | 0 => by simp
  | n + 1 => by
      rw [List.range_succ, List.countP_append, countP_range_between lo hi n, List.countP_singleton]
      split
      next h =>
        rw [decide_eq_true_eq] at h
        omega
      next h =>
        rw [decide_eq_true_eq] at h
        omega

variable [DecidableEq α]

/-- With the bound 0 an element is picked by as many draws as it weighs, every time that it
occurs. -/
theorem countP_pick_zero : ∀ l : List α,
    (List.range (total weight l)).countP (fun d : Nat => pick weight 0 d l = some x) =
      l.count x * weight x
  | [] => by simp
  | y :: l => by
      have hfirst : (List.range (weight y)).countP
          (fun d : Nat => pick weight 0 d (y :: l) = some x) = if y = x then weight x else 0 := by
        have hpick (d : Nat) (hd : d ∈ List.range (weight y)) :
            decide (pick weight 0 d (y :: l) = some x) = true ↔ decide (y = x) = true := by
          have hstop : (d : Int) - weight y < 0 := by
            have hlt := List.mem_range.1 hd
            omega
          rw [pick, if_pos hstop, decide_eq_true_eq, decide_eq_true_eq, Option.some.injEq]
        rw [List.countP_congr hpick]
        split
        next heq => simp [heq]
        next hne => simp [hne]
      have hrest : ((List.range (total weight l)).map (weight y + ·)).countP
          (fun d : Nat => pick weight 0 d (y :: l) = some x) = l.count x * weight x := by
        rw [List.countP_map, ← countP_pick_zero l]
        refine List.countP_congr fun d _ => ?_
        have hpass : ¬ ((weight y + d : Nat) : Int) - weight y < 0 := by omega
        have hsub : ((weight y + d : Nat) : Int) - weight y = d := by omega
        rw [Function.comp_apply, pick, if_neg hpass, hsub]
      rw [total_cons, List.range_add, List.countP_append, hfirst, hrest, List.count_cons]
      split
      next heq =>
        rw [if_pos (by simpa using heq)]
        ring
      next hne =>
        rw [if_neg (by simpa using hne)]
        ring

/-- With the bound 1 the first element has one draw more, and the last one less. -/
theorem countP_pick_one (hl : (pre ++ x :: post).Nodup) (hx : 0 < weight x)
    (hpost : post = [] ∨ 0 < total weight post) :
    (List.range (total weight (pre ++ x :: post))).countP
        (fun d : Nat => pick weight 1 d (pre ++ x :: post) = some x) + (if post = [] then 1 else 0) =
      weight x + if pre = [] then 1 else 0 := by
  have hcongr : (List.range (total weight (pre ++ x :: post))).countP
      (fun d : Nat => pick weight 1 d (pre ++ x :: post) = some x) =
      (List.range (total weight (pre ++ x :: post))).countP
        (fun d => (if pre = [] then 0 else total weight pre + 1) ≤ d ∧
          d < total weight pre + weight x + 1) := by
    refine List.countP_congr fun d _ => ?_
    rw [decide_eq_true_eq, decide_eq_true_eq, pick_middle_iff hl]
    by_cases hnil : pre = []
    · simp [hnil]
      omega
    · simp only [hnil, false_or, if_false]
      omega
  rw [hcongr, countP_range_between, total_append, total_cons]
  rcases hpost with rfl | hpost
  · by_cases hnil : pre = []
    · simp [hnil]
    · simp only [hnil, if_true, if_false, total_nil]
      omega
  · have hne : post ≠ [] := by
      rintro rfl
      simp at hpost
    by_cases hnil : pre = []
    · simp [hnil, hne]
      omega
    · simp only [hnil, hne, if_false]
      omega

end Draw
