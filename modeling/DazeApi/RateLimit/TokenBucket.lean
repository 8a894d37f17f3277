import DazeApi.RateLimit.Limiter
import Mathlib.Algebra.Order.Field.Rat
import Mathlib.Tactic.FieldSimp
import Mathlib.Tactic.Linarith
import Mathlib.Tactic.Ring

/-!
# The token bucket

The script `common/limiter/lua/rate_limit.lua` executed at times that do not decrease.  The tokens
are a potential: each accepted request takes its size from them, and they grow by the rate at most,
so that what is accepted from one time to another was in the bucket or came in since
(`tokenBucket_spec`).
-/

namespace DazeApi.RateLimit.TokenBucket

variable {requested rate capacity now s t : Int}

/-- The executions of the script at a list of times, with their answers. -/
def executions (requested rate capacity : Int) : Option (Int × Int) → List Int → List (Int × Bool)
  | _, [] => []
  | bucket, now :: times =>
      (now, (allow bucket requested rate capacity now).2) ::
        executions requested rate capacity (allow bucket requested rate capacity now).1 times

/-- The bucket after them. -/
def bucketAfter (requested rate capacity : Int) (bucket : Option (Int × Int)) (times : List Int) :
    Option (Int × Int) :=
  times.foldl (fun bucket now => (allow bucket requested rate capacity now).1) bucket

/-- The number of the requests that are accepted from `s` to `t`. -/
def acceptedIn (s t : Int) (answers : List (Int × Bool)) : Nat :=
  answers.countP fun e => e.2 ∧ s ≤ e.1 ∧ e.1 ≤ t

/-- The tokens before a request is judged. -/
def available (bucket : Option (Int × Int)) (rate capacity now : Int) : Int :=
  match bucket with
  | some (tokens, last) => min capacity (tokens + (now - last) * rate)
  | none => capacity

/-- A bucket that is neither overdrawn nor overfull, last used not after a time. -/
def Sound (capacity : Int) (bucket : Option (Int × Int)) (now : Int) : Prop :=
  ∀ tokens last, bucket = some (tokens, last) → 0 ≤ tokens ∧ tokens ≤ capacity ∧ last ≤ now

section

variable {bucket : Option (Int × Int)} {times : List Int} {now' : Int}

theorem allow_eq (bucket : Option (Int × Int)) (requested rate capacity now : Int) :
    allow bucket requested rate capacity now =
      if requested ≤ available bucket rate capacity now then
        (some (available bucket rate capacity now - requested, now), true)
      else (some (available bucket rate capacity now, now), false) := rfl

theorem Sound.mono (h : Sound capacity bucket now) (hle : now ≤ now') :
    Sound capacity bucket now' := by
  intro tokens last hb
  obtain ⟨hpos, hcap, hlast⟩ := h tokens last hb
  exact ⟨hpos, hcap, by omega⟩

theorem Sound.available (h : Sound capacity bucket now) (hrate : 0 < rate) (hcap : 0 < capacity) :
    0 ≤ available bucket rate capacity now ∧ available bucket rate capacity now ≤ capacity := by
  cases bucket with
  | none => exact ⟨hcap.le, le_refl _⟩
  | some b =>
      obtain ⟨tokens, last⟩ := b
      obtain ⟨hpos, -, hlast⟩ := h tokens last rfl
      have hadd : 0 ≤ (now - last) * rate := mul_nonneg (by omega) hrate.le
      rw [TokenBucket.available]
      omega

theorem Sound.after (h : Sound capacity bucket now) (hrate : 0 < rate) (hcap : 0 < capacity)
    (hreq : 0 < requested) :
    Sound capacity (allow bucket requested rate capacity now).1 now := by
  obtain ⟨hpos, hle⟩ := h.available hrate hcap
  rw [allow_eq]
  split
  next hreq' =>
    rintro tokens last ⟨⟩
    exact ⟨by omega, by omega, le_refl _⟩
  next =>
    rintro tokens last ⟨⟩
    exact ⟨hpos, hle, le_refl _⟩

theorem acceptedIn_of_lt {answers : List (Int × Bool)} (h : ∀ e ∈ answers, t < e.1) :
    acceptedIn s t answers = 0 := by
  rw [acceptedIn, List.countP_eq_zero]
  intro e he
  have := h e he
  simp only [decide_eq_true_eq]
  omega

theorem mem_executions {e : Int × Bool} (h : e ∈ executions requested rate capacity bucket times) :
    e.1 ∈ times := by
  induction times generalizing bucket with
  | nil => cases h
  | cons now times ih =>
      rcases List.mem_cons.1 h with rfl | h
      · exact .head _
      · exact .tail _ (ih h)

theorem acceptedIn_cons (e : Int × Bool) (answers : List (Int × Bool)) :
    acceptedIn s t (e :: answers) =
      acceptedIn s t answers + if e.2 ∧ s ≤ e.1 ∧ e.1 ≤ t then 1 else 0 := by
  rw [acceptedIn, acceptedIn, List.countP_cons]
  simp only [decide_eq_true_eq]

/-- From a time of use on, what is accepted was in the bucket then or came in since. -/
theorem accepted_le_of_some {tokens last : Int} (hrate : 0 < rate) (hcap : 0 < capacity)
    (hreq : 0 < requested) (hpos : 0 ≤ tokens) (hle : tokens ≤ capacity) (hlast : last ≤ t)
    (hafter : ∀ now ∈ times, last ≤ now) (hsorted : times.Pairwise (· ≤ ·)) :
    requested * acceptedIn s t (executions requested rate capacity (some (tokens, last)) times) ≤
      tokens + rate * (t - last) := by
  induction times generalizing tokens last with
  | nil =>
      have hadd : 0 ≤ rate * (t - last) := mul_nonneg hrate.le (by omega)
      rw [executions, acceptedIn, List.countP_nil]
      simp only [Nat.cast_zero, mul_zero]
      omega
  | cons now times ih =>
      rw [List.forall_mem_cons] at hafter
      rw [List.pairwise_cons] at hsorted
      by_cases hnow : now ≤ t
      · have hsound : Sound capacity (some (tokens, last)) now := by
          rintro tokens last ⟨⟩
          exact ⟨hpos, hle, hafter.1⟩
        obtain ⟨hpos', hle'⟩ := hsound.available hrate hcap
        have hgrown : available (some (tokens, last)) rate capacity now ≤
            tokens + rate * (now - last) := by
          rw [available, mul_comm rate]
          exact min_le_right _ _
        have hsplit : rate * (t - last) = rate * (now - last) + rate * (t - now) := by ring
        rw [executions, acceptedIn_cons, allow_eq]
        by_cases hallowed : requested ≤ available (some (tokens, last)) rate capacity now
        · rw [if_pos hallowed]
          have hrest := ih (sub_nonneg.2 hallowed) (by omega) hnow hsorted.1 hsorted.2
          have hone : requested * ((if true = true ∧ s ≤ now ∧ now ≤ t then 1 else 0 : ℕ) : ℤ) ≤
              requested := by
            split
            · rw [Nat.cast_one, mul_one]
            · rw [Nat.cast_zero, mul_zero]
              exact hreq.le
          push_cast at hone hrest ⊢
          rw [mul_add]
          linarith
        · rw [if_neg hallowed]
          have hrest := ih hpos' hle' hnow hsorted.1 hsorted.2
          have hzero : ¬ (false = true ∧ s ≤ now ∧ now ≤ t) := fun h => Bool.false_ne_true h.1
          rw [if_neg hzero, Nat.add_zero]
          linarith
      · have hadd : 0 ≤ rate * (t - last) := mul_nonneg hrate.le (by omega)
        rw [acceptedIn_of_lt, Nat.cast_zero, mul_zero]
        · omega
        · intro e he
          rcases List.mem_cons.1 (mem_executions he) with heq | he
          · omega
          · have := hsorted.1 _ he
            omega

/-- What is accepted in a window was in a full bucket or came in during the window. -/
theorem accepted_le (hrate : 0 < rate) (hcap : 0 < capacity) (hreq : 0 < requested) (hst : s ≤ t)
    (hsound : ∀ now ∈ times, Sound capacity bucket now) (hsorted : times.Pairwise (· ≤ ·)) :
    requested * acceptedIn s t (executions requested rate capacity bucket times) ≤
      capacity + rate * (t - s) := by
  induction times generalizing bucket with
  | nil =>
      have hadd : 0 ≤ rate * (t - s) := mul_nonneg hrate.le (by omega)
      rw [executions, acceptedIn, List.countP_nil]
      simp only [Nat.cast_zero, mul_zero]
      omega
  | cons now times ih =>
      rw [List.forall_mem_cons] at hsound
      rw [List.pairwise_cons] at hsorted
      have hafter := hsound.1.after hrate hcap hreq
      by_cases hin : s ≤ now ∧ now ≤ t
      · -- The first execution of the window finds a bucket that is at most full.
        obtain ⟨hpos, hle⟩ := hsound.1.available hrate hcap
        have hsince : rate * (t - now) ≤ rate * (t - s) :=
          mul_le_mul_of_nonneg_left (by omega) hrate.le
        rw [executions, acceptedIn_cons, allow_eq]
        by_cases hallowed : requested ≤ available bucket rate capacity now
        · rw [if_pos hallowed]
          have hrest := accepted_le_of_some (s := s) hrate hcap hreq
            (sub_nonneg.2 hallowed) (by omega) hin.2 hsorted.1 hsorted.2
          rw [if_pos ⟨rfl, hin⟩]
          push_cast
          rw [mul_add, mul_one]
          linarith
        · rw [if_neg hallowed]
          have hrest := accepted_le_of_some (s := s) hrate hcap hreq hpos hle hin.2 hsorted.1
            hsorted.2
          have hzero : ¬ (false = true ∧ s ≤ now ∧ now ≤ t) := fun h => Bool.false_ne_true h.1
          rw [if_neg hzero, Nat.add_zero]
          linarith
      · rw [executions, acceptedIn_cons, if_neg fun h => hin h.2, Nat.add_zero]
        exact ih (fun now' hnow' => hafter.mono (hsorted.1 now' hnow')) hsorted.2

/-- After an execution the bucket is stored, neither overdrawn nor overfull. -/
theorem bucketAfter_bounds (hrate : 0 < rate) (hcap : 0 < capacity) (hreq : 0 < requested)
    (hsound : ∀ now ∈ times, Sound capacity bucket now) (hsorted : times.Pairwise (· ≤ ·))
    (hne : times ≠ []) :
    ∃ tokens last, bucketAfter requested rate capacity bucket times = some (tokens, last) ∧
      0 ≤ tokens ∧ tokens ≤ capacity := by
  induction times generalizing bucket with
  | nil => exact absurd rfl hne
  | cons now times ih =>
      rw [List.forall_mem_cons] at hsound
      rw [List.pairwise_cons] at hsorted
      have hafter := hsound.1.after hrate hcap hreq
      cases times with
      | nil =>
          obtain ⟨tokens, hstored⟩ : ∃ tokens,
              (allow bucket requested rate capacity now).1 = some (tokens, now) := by
            rw [allow_eq]
            split
            · exact ⟨_, rfl⟩
            · exact ⟨_, rfl⟩
          obtain ⟨hpos, hle, -⟩ := hafter tokens now hstored
          exact ⟨tokens, now, hstored, hpos, hle⟩
      | cons now' times =>
          exact ih (fun t ht => hafter.mono (hsorted.1 t ht)) hsorted.2 (List.cons_ne_nil _ _)

theorem sound_none (capacity now : Int) : Sound capacity none now := by
  intro tokens last hb
  cases hb

/-- What the handler lets through, the script has accepted at a request's arrival. -/
theorem exists_executions (duration : Int) {totalMaxCount : Nat} (successMaxCount : Nat)
    (hmax : 0 < totalMaxCount) (redis : Redis) (rs : List Request) (s t : Int) :
    ∃ times, times.Sublist (rs.map (·.arrive)) ∧
      acceptedIn s t ((rs.map (·.arrive)).zip
          (accepts (redisRateLimitHandler duration totalMaxCount successMaxCount) redis rs)) =
        acceptedIn s t (executions duration totalMaxCount (totalMaxCount * duration) redis.bucket
          times) := by
  induction rs generalizing redis with
  | nil => exact ⟨[], List.Sublist.refl _, rfl⟩
  | cons r rs ih =>
      obtain ⟨times, hsub, hcount⟩ :=
        ih (redisRateLimitHandler duration totalMaxCount successMaxCount redis r).1
      rw [List.map_cons, accepts, List.zip_cons_cons, acceptedIn_cons, hcount,
        redisRateLimitHandler]
      by_cases hcheck : checkRedisRateLimit redis.successes successMaxCount duration r.arrive
      · refine ⟨r.arrive :: times, hsub.cons_cons _, ?_⟩
        rw [if_pos hcheck, executions, acceptedIn_cons]
        simp only [hmax, if_true]
        cases (allow redis.bucket duration totalMaxCount (totalMaxCount * duration) r.arrive).2 with
        | true => rfl
        | false => rfl
      · -- The script is not executed.
        refine ⟨times, hsub.cons _, ?_⟩
        rw [if_neg hcheck]
        have hzero : ¬ (false = true ∧ s ≤ r.arrive ∧ r.arrive ≤ t) :=
          fun h => Bool.false_ne_true h.1
        rw [if_neg hzero, Nat.add_zero]

theorem rate_bound (hmax : 0 < rate) (hreq : 0 < requested) {count : Nat}
    (h : requested * count ≤ rate * requested + rate * (t - s)) :
    (count : ℚ) ≤ rate + rate * (t - s) / requested := by
  have hpos : (0 : ℚ) < requested := by exact_mod_cast hreq
  have hcast : (requested : ℚ) * count ≤ rate * requested + rate * (t - s) := by exact_mod_cast h
  have hsum : (rate : ℚ) + rate * (t - s) / requested =
      (rate * requested + rate * (t - s)) / requested := by field_simp
  rw [hsum, le_div_iff₀ hpos]
  linarith

end

/-- Every execution leaves at least no and at most a full bucket of tokens, and what is accepted
from a time to another is a full bucket and the tokens of the time between at most; with the
arguments of `redisRateLimitHandler` this is the limit and the part of it for the time between,
for the script and for the handler. -/
theorem tokenBucket_spec :
    (∀ requested rate capacity : Int, 0 < requested → 0 < rate → 0 < capacity →
      ∀ times : List Int, times.Pairwise (· ≤ ·) →
        (∀ done rest, times = done ++ rest → done ≠ [] →
          ∃ tokens last, bucketAfter requested rate capacity none done = some (tokens, last) ∧
            0 ≤ tokens ∧ tokens ≤ capacity) ∧
        ∀ s t, s ≤ t → (acceptedIn s t (executions requested rate capacity none times) : ℚ) ≤
          (capacity + rate * (t - s)) / requested) ∧
      ∀ (duration : Int) (max successMaxCount : Nat), 0 < duration → 0 < max →
        (∀ times : List Int, times.Pairwise (· ≤ ·) → ∀ s t, s ≤ t →
          (acceptedIn s t (executions duration max (max * duration) none times) : ℚ) ≤
            max + max * (t - s) / duration) ∧
        ∀ (successes : List Int) (rs : List Request), (rs.map (·.arrive)).Pairwise (· ≤ ·) →
          ∀ s t, s ≤ t →
            (acceptedIn s t ((rs.map (·.arrive)).zip
              (accepts (redisRateLimitHandler duration max successMaxCount) ⟨successes, none⟩
                rs)) : ℚ) ≤ max + max * (t - s) / duration := by
  refine ⟨?_, ?_⟩
  · intro requested rate capacity hreq hrate hcap times hsorted
    refine ⟨?_, ?_⟩
    · intro done rest htimes hne
      rw [htimes, List.pairwise_append] at hsorted
      exact bucketAfter_bounds hrate hcap hreq (fun now _ => sound_none capacity now) hsorted.1 hne
    · intro s t hst
      have hpos : (0 : ℚ) < requested := by exact_mod_cast hreq
      have hle : (requested : ℚ) * acceptedIn s t (executions requested rate capacity none times) ≤
          capacity + rate * (t - s) := by
        exact_mod_cast accepted_le hrate hcap hreq hst (fun now _ => sound_none capacity now)
          hsorted
      rw [le_div_iff₀ hpos, mul_comm]
      exact hle
  · intro duration max successMaxCount hduration hmax
    have hrate : (0 : Int) < max := by exact_mod_cast hmax
    have hscript : ∀ times : List Int, times.Pairwise (· ≤ ·) → ∀ s t, s ≤ t →
        (acceptedIn s t (executions duration max (max * duration) none times) : ℚ) ≤
          max + max * (t - s) / duration := by
      intro times hsorted s t hst
      exact_mod_cast rate_bound hrate hduration (accepted_le hrate (mul_pos hrate hduration)
        hduration hst (fun now _ => sound_none _ now) hsorted)
    refine ⟨hscript, ?_⟩
    intro successes rs hsorted s t hst
    obtain ⟨times, hsub, hcount⟩ :=
      exists_executions duration successMaxCount hmax ⟨successes, none⟩ rs s t
    rw [hcount]
    exact hscript times (hsorted.sublist hsub) s t hst

/-- Two tokens at a time from a bucket of four that grows by one in a second. -/
theorem tokenBucket_spec_two :
    (acceptedIn 0 3 (executions 2 1 4 none [0, 0, 1, 3]) : ℚ) ≤ (4 + 1 * (3 - 0)) / 2 := by
  have h := (tokenBucket_spec.1 2 1 4 (by decide) (by decide) (by decide) [0, 0, 1, 3]
    (by decide)).2 0 3 (by decide)
  exact_mod_cast h

end DazeApi.RateLimit.TokenBucket
