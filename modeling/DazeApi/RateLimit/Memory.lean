import DazeApi.RateLimit.Agreement

/-!
# The limiter in memory

`InMemoryRateLimiter` (`common/rate-limit.go`) under requests of all keys and sweeps that delete
the queues of keys without a recent request.  The queue of a key holds its last accepted times;
those that it does not hold lie outside of the duration, so that the oldest of the queue decides as
all of them would (`memoryRateLimiter_spec`).
-/

namespace DazeApi.RateLimit

open Window

/-- One round of `clearExpiredItems`. -/
def Store.clearExpiredItems (store : Store) (expirationDuration now : Int) : Store := fun key =>
  (store key).bind fun queue =>
    match queue.getLast? with
    | none => none
    | some last => if expirationDuration < now - last then none else some queue

namespace Memory

inductive Event where
  | request (key : String) (maxRequestNum : Nat) (duration now : Int)
  | sweep (now : Int)
deriving DecidableEq, Repr

def Event.now : Event → Int
  | .request _ _ _ now => now
  | .sweep now => now

/-- The store, and for each key the times of the accepted requests, the newest first. -/
structure State where
  store : Store
  log : String → List Int
  clock : Int

def State.request (s : State) (key : String) (maxRequestNum : Nat) (duration now : Int) : State where
  store := (s.store.request key maxRequestNum duration now).1
  log k :=
    if k = key ∧ (s.store.request key maxRequestNum duration now).2 = true then now :: s.log k
    else s.log k
  clock := now

def State.sweep (s : State) (expirationDuration now : Int) : State where
  store := s.store.clearExpiredItems expirationDuration now
  log := s.log
  clock := now

def State.apply (expirationDuration : Int) (s : State) : Event → State
  | .request key maxRequestNum duration now => s.request key maxRequestNum duration now
  | .sweep now => s.sweep expirationDuration now

/-- The effect of an event; time does not run backwards. -/
def step (expirationDuration : Int) (s : State) (e : Event) : Option State :=
  if e.now < s.clock then none else some (s.apply expirationDuration e)

def initial (clock : Int) : State := ⟨emptyStore, fun _ => [], clock⟩

/-- The requests of the key have the one limit. -/
def Event.Fits (key : String) (maxRequestNum : Nat) (duration : Int) : Event → Prop
  | .request k m d _ => k = key → m = maxRequestNum ∧ d = duration
  | .sweep _ => True

/-- The answers that the requests of a key get. -/
def answers (expirationDuration : Int) (key : String) : State → List Event → List Bool
  | _, [] => []
  | s, .request k m d now :: es =>
      if k = key then (s.store.request k m d now).2 ::
        answers expirationDuration key (s.request k m d now) es
      else answers expirationDuration key (s.request k m d now) es
  | s, .sweep now :: es => answers expirationDuration key (s.sweep expirationDuration now) es

/-- The queue of the key holds its last accepted times, and the others are over. -/
structure Holds (key : String) (maxRequestNum : Nat) (duration : Int) (s : State) : Prop where
  sorted : (s.log key).Pairwise fun later earlier => earlier ≤ later
  past : ∀ t ∈ s.log key, t ≤ s.clock
  queue : ∃ m ≤ maxRequestNum, m ≤ (s.log key).length ∧
    s.store key = (if m = 0 then none else some ((s.log key).take m).reverse) ∧
    (m < maxRequestNum → ∀ t ∈ (s.log key).drop m, duration ≤ s.clock - t)

section

variable {key k : String} {n m : Nat} {duration expirationDuration now : Int} {s s' : State}
  {e : Event} {es : List Event}

theorem Holds.initial (key : String) (n : Nat) (duration clock : Int) :
    Holds key n duration (initial clock) := by
  refine ⟨List.Pairwise.nil, fun t ht => absurd ht List.not_mem_nil, 0, Nat.zero_le _,
    Nat.zero_le _, rfl, fun _ t ht => absurd ht List.not_mem_nil⟩

/-- Times that are over do not count. -/
theorem countP_take {times : List Int} (h : ∀ t ∈ times.drop m, duration ≤ now - t) :
    (times.countP fun t => now - t < duration) =
      (times.take m).countP fun t => now - t < duration := by
  conv_lhs => rw [← List.take_append_drop m times]
  rw [List.countP_append, Nat.add_eq_left, List.countP_eq_zero]
  intro t ht
  have hover := h t ht
  simp only [decide_eq_true_eq]
  omega

/-- A request is let through unless the window of the accepted ones is full. -/
theorem Holds.answer (h : Holds key (n + 1) duration s) (hnow : s.clock ≤ now) :
    (s.store.request key (n + 1) duration now).2 =
      !decide (Full (n + 1) duration now (s.log key)) := by
  obtain ⟨m, hm, hlen, hqueue, hover⟩ := h.queue
  have hover' : m < n + 1 → ∀ t ∈ (s.log key).drop m, duration ≤ now - t := by
    intro hlt t ht
    have := hover hlt t ht
    omega
  rw [Store.request, hqueue]
  by_cases hlt : m < n + 1
  · -- The queue has room, and so has the window.
    have hnone : ¬ Full (n + 1) duration now (s.log key) := by
      rw [Full, countP_take (hover' hlt)]
      have hle := List.countP_le_length (p := fun t => decide (now - t < duration))
        (l := (s.log key).take m)
      rw [List.length_take] at hle
      omega
    rw [decide_eq_false hnone]
    by_cases hzero : m = 0
    · rw [if_pos hzero]
      rfl
    · rw [if_neg hzero]
      have hroom : ((s.log key).take m).reverse.length < n + 1 := by
        rw [List.length_reverse, List.length_take]
        omega
      simp only [if_pos hroom]
      rfl
  · -- The oldest of the queue decides.
    obtain rfl : m = n + 1 := by omega
    obtain ⟨old, hget⟩ : ∃ old, (s.log key)[n]? = some old :=
      ⟨_, List.getElem?_eq_getElem (by omega)⟩
    obtain ⟨rest, hrev, -⟩ := reverse_take_cons (x := now) hget
    have hlength : ¬ (old :: rest).length < n + 1 := by
      rw [← hrev, List.length_reverse, List.length_take]
      omega
    have hfull : Full (n + 1) duration now (s.log key) ↔ now - old < duration := by
      rw [full_iff h.sorted, hget]
      simp
    simp only [Nat.add_one_ne_zero, if_false, hrev, hlength, hfull]
    by_cases hin : duration ≤ now - old
    · have hin' : ¬ now - old < duration := by omega
      simp [hin, hin']
    · have hin' : now - old < duration := by omega
      simp [hin, hin']

/-- The queue after a request of the key. -/
theorem Holds.stored (h : Holds key (n + 1) duration s) (hnow : s.clock ≤ now) :
    ∃ m ≤ n + 1, m ≤ (now :: s.log key).length ∧ 0 < m ∧
      ((s.store.request key (n + 1) duration now).2 = true →
        (s.store.request key (n + 1) duration now).1 key =
          some ((now :: s.log key).take m).reverse ∧
        (m < n + 1 → ∀ t ∈ (now :: s.log key).drop m, duration ≤ now - t)) := by
  obtain ⟨m, hm, hlen, hqueue, hover⟩ := h.queue
  have hover' : m < n + 1 → ∀ t ∈ (s.log key).drop m, duration ≤ now - t := by
    intro hlt t ht
    have := hover hlt t ht
    omega
  rw [Store.request, hqueue]
  by_cases hlt : m < n + 1
  · refine ⟨m + 1, by omega, by rw [List.length_cons]; omega, Nat.succ_pos m, ?_⟩
    intro _
    refine ⟨?_, fun _ => hover' hlt⟩
    by_cases hzero : m = 0
    · subst hzero
      rw [if_pos rfl]
      exact set_same s.store key [now]
    · rw [if_neg hzero]
      have hroom : ((s.log key).take m).reverse.length < n + 1 := by
        rw [List.length_reverse, List.length_take]
        omega
      simp only [if_pos hroom, set_same, List.take_succ_cons, List.reverse_cons]
  · obtain rfl : m = n + 1 := by omega
    refine ⟨n + 1, Nat.le_refl _, by rw [List.length_cons]; omega, Nat.succ_pos n, ?_⟩
    obtain ⟨old, hget⟩ : ∃ old, (s.log key)[n]? = some old :=
      ⟨_, List.getElem?_eq_getElem (by omega)⟩
    obtain ⟨rest, hrev, hnext⟩ := reverse_take_cons (x := now) hget
    have hlength : ¬ (old :: rest).length < n + 1 := by
      rw [← hrev, List.length_reverse, List.length_take]
      omega
    simp only [Nat.add_one_ne_zero, if_false, hrev, hlength]
    intro hallowed
    refine ⟨?_, fun hlt => absurd hlt (Nat.lt_irrefl _)⟩
    by_cases hin : duration ≤ now - old
    · rw [if_pos hin, hnext]
      exact set_same s.store key _
    · rw [if_neg hin] at hallowed
      cases hallowed

/-- A request that is refused changes nothing. -/
theorem store_of_refused {store : Store} (h : (store.request key n duration now).2 = false) :
    (store.request key n duration now).1 = store := by
  rw [Store.request] at h ⊢
  cases hqueue : store key with
  | none => rw [hqueue] at h; cases h
  | some queue =>
      simp only [hqueue] at h ⊢
      by_cases hlen : queue.length < n
      · rw [if_pos hlen] at h
        cases h
      · rw [if_neg hlen] at h ⊢
        cases queue with
        | nil => rfl
        | cons old rest =>
            by_cases hin : duration ≤ now - old
            · simp only [if_pos hin] at h
              cases h
            · simp only [if_neg hin]

/-! ## One event -/

theorem step_eq_some : step expirationDuration s e = some s' ↔
    s.clock ≤ e.now ∧ s.apply expirationDuration e = s' := by
  simp only [step]
  by_cases hlt : e.now < s.clock
  · rw [if_pos hlt]
    exact iff_of_false (Option.some_ne_none _).symm fun h => absurd h.1 (by omega)
  · rw [if_neg hlt, Option.some.injEq]
    exact (and_iff_right (Int.not_lt.1 hlt)).symm

theorem log_request_accepted (h : (s.store.request key n duration now).2 = true) :
    (s.request key n duration now).log key = now :: s.log key := if_pos ⟨rfl, h⟩

theorem log_request_refused (h : (s.store.request key n duration now).2 = false) (k : String) :
    (s.request key n duration now).log k = s.log k := by
  refine if_neg fun hand => ?_
  rw [h] at hand
  exact Bool.false_ne_true hand.2

theorem log_request_other (h : key ≠ k) (n : Nat) (duration now : Int) :
    (s.request k n duration now).log key = s.log key := if_neg fun hand => h hand.1

/-- An event that changes nothing of the key. -/
theorem Holds.keep (h : Holds key n duration s) (hnow : s.clock ≤ s'.clock)
    (hlog : s'.log key = s.log key) (hstore : s'.store key = s.store key) :
    Holds key n duration s' := by
  obtain ⟨m, hm, hlen, hqueue, hover⟩ := h.queue
  refine ⟨hlog ▸ h.sorted, fun t ht => ?_, m, hm, hlog ▸ hlen, ?_, fun hlt t ht => ?_⟩
  · rw [hlog] at ht
    exact Int.le_trans (h.past t ht) hnow
  · rw [hstore, hlog]
    exact hqueue
  · rw [hlog] at ht
    have := hover hlt t ht
    omega

/-- A sweep deletes a queue whose times are all over. -/
theorem Holds.sweep (h : Holds key n duration s) (hduration : duration ≤ expirationDuration)
    (hnow : s.clock ≤ now) : Holds key n duration (s.sweep expirationDuration now) := by
  obtain ⟨m, hm, hlen, hqueue, hover⟩ := h.queue
  have hstore : (s.sweep expirationDuration now).store key = (s.store key).bind fun queue =>
      match queue.getLast? with
      | none => none
      | some last => if expirationDuration < now - last then none else some queue := rfl
  by_cases hzero : m = 0
  · rw [if_pos hzero] at hqueue
    exact h.keep hnow rfl (by rw [hstore, hqueue]; rfl)
  · rw [if_neg hzero] at hqueue
    obtain ⟨last, times, hlog⟩ : ∃ last times, s.log key = last :: times := by
      cases hlog : s.log key with
      | nil => rw [hlog, List.length_nil] at hlen; omega
      | cons last times => exact ⟨last, times, rfl⟩
    have hlast : ((s.log key).take m).reverse.getLast? = some last := by
      obtain ⟨m, rfl⟩ := Nat.exists_eq_succ_of_ne_zero hzero
      rw [hlog, List.take_succ_cons, List.getLast?_reverse, List.head?_cons]
    rw [hqueue, Option.bind_some, hlast] at hstore
    by_cases hexpired : expirationDuration < now - last
    · refine ⟨h.sorted, fun t ht => Int.le_trans (h.past t ht) hnow, 0, Nat.zero_le _, Nat.zero_le _,
        hstore.trans (if_pos hexpired), fun _ t ht => ?_⟩
      have hle : t ≤ last := by
        have hsorted := h.sorted
        rw [hlog, List.pairwise_cons] at hsorted
        rw [List.drop_zero] at ht
        have ht' : t ∈ last :: times := hlog ▸ ht
        rcases List.mem_cons.1 ht' with rfl | ht'
        · exact Int.le_refl _
        · exact hsorted.1 t ht'
      have hclock : (s.sweep expirationDuration now).clock = now := rfl
      omega
    · exact h.keep hnow rfl ((hstore.trans (if_neg hexpired)).trans hqueue.symm)

/-- An accepted request is the newest of the queue. -/
theorem Holds.accept (h : Holds key (n + 1) duration s) (hnow : s.clock ≤ now)
    (hallowed : (s.store.request key (n + 1) duration now).2 = true) :
    Holds key (n + 1) duration (s.request key (n + 1) duration now) := by
  obtain ⟨m, hm, hlen, hpos, hstored⟩ := h.stored hnow
  obtain ⟨hqueue, hover⟩ := hstored hallowed
  have hlog := log_request_accepted hallowed
  have hpast : ∀ t ∈ s.log key, t ≤ now := fun t ht => Int.le_trans (h.past t ht) hnow
  refine ⟨?_, ?_, m, hm, ?_, ?_, ?_⟩
  · rw [hlog]
    exact List.pairwise_cons.2 ⟨hpast, h.sorted⟩
  · rw [hlog]
    exact List.forall_mem_cons.2 ⟨Int.le_refl _, hpast⟩
  · rwa [hlog]
  · rw [hlog, if_neg (Nat.pos_iff_ne_zero.1 hpos)]
    exact hqueue
  · rw [hlog]
    exact hover

theorem Holds.step (hduration : duration ≤ expirationDuration) (h : Holds key (n + 1) duration s)
    (hfits : e.Fits key (n + 1) duration) (hnow : s.clock ≤ e.now) :
    Holds key (n + 1) duration (s.apply expirationDuration e) := by
  cases e with
  | sweep now => exact h.sweep hduration hnow
  | request k m d now =>
      by_cases hk : k = key
      · obtain ⟨rfl, rfl⟩ := hfits hk
        subst hk
        cases hallowed : (s.store.request k (n + 1) d now).2 with
        | false =>
            exact h.keep hnow (log_request_refused hallowed k)
              (congrFun (store_of_refused hallowed) k)
        | true => exact h.accept hnow hallowed
      · exact h.keep hnow (log_request_other (Ne.symm hk) m d now)
          (request_other (Ne.symm hk) m d now)

/-! ## Runs -/

/-- The accepted requests of the key keep their distance. -/
def Spaced (n : Nat) (duration : Int) (times : List Int) : Prop :=
  ∀ i t t', times[i]? = some t → times[i + n]? = some t' → duration ≤ t - t'

theorem Spaced.cons {times : List Int} (h : Spaced (n + 1) duration times)
    (hsorted : times.Pairwise fun later earlier => earlier ≤ later)
    (hfull : ¬ Full (n + 1) duration now times) : Spaced (n + 1) duration (now :: times) := by
  intro i t t' ht ht'
  cases i with
  | zero =>
      rw [Nat.zero_add, List.getElem?_cons_succ] at ht'
      rw [full_iff hsorted] at hfull
      have hover : ¬ now - t' < duration := fun hin => hfull ⟨t', ht', hin⟩
      cases ht
      omega
  | succ i =>
      rw [Nat.succ_add, List.getElem?_cons_succ] at ht'
      rw [List.getElem?_cons_succ] at ht
      exact h i t t' ht ht'

theorem holds_step (hduration : duration ≤ expirationDuration)
    (h : Holds key (n + 1) duration s ∧ Spaced (n + 1) duration (s.log key))
    (hfits : e.Fits key (n + 1) duration) (hs : step expirationDuration s e = some s') :
    Holds key (n + 1) duration s' ∧ Spaced (n + 1) duration (s'.log key) := by
  obtain ⟨hnow, rfl⟩ := step_eq_some.1 hs
  refine ⟨h.1.step hduration hfits hnow, ?_⟩
  cases e with
  | sweep now => exact h.2
  | request k m d now =>
      change Spaced (n + 1) duration ((s.request k m d now).log key)
      by_cases hk : k = key
      · obtain ⟨rfl, rfl⟩ := hfits hk
        subst hk
        have hclock : s.clock ≤ now := hnow
        have hanswer := h.1.answer hclock
        cases hallowed : (s.store.request k (n + 1) d now).2 with
        | false =>
            rw [log_request_refused hallowed]
            exact h.2
        | true =>
            rw [log_request_accepted hallowed]
            refine h.2.cons h.1.sorted fun hfull => ?_
            rw [hallowed, decide_eq_true hfull] at hanswer
            cases hanswer
      · rw [log_request_other (Ne.symm hk)]
        exact h.2

/-- What the log is decides the answers. -/
theorem answers_congr (hduration : duration ≤ expirationDuration)
    (h : Holds key (n + 1) duration s) (h' : Holds key (n + 1) duration s')
    (hlog : s.log key = s'.log key) (hfits : ∀ e ∈ es, e.Fits key (n + 1) duration)
    (hnow : ∀ e ∈ es, s.clock ≤ e.now ∧ s'.clock ≤ e.now)
    (hsorted : es.Pairwise fun e e' => e.now ≤ e'.now) :
    answers expirationDuration key s es = answers expirationDuration key s' es := by
  induction es generalizing s s' with
  | nil => rfl
  | cons e es ih =>
      rw [List.forall_mem_cons] at hfits hnow
      rw [List.pairwise_cons] at hsorted
      obtain ⟨⟨hclock, hclock'⟩, -⟩ := hnow
      have hnext : ∀ e' ∈ es, (s.apply expirationDuration e).clock ≤ e'.now ∧
          (s'.apply expirationDuration e).clock ≤ e'.now := by
        intro e' he'
        cases e with
        | sweep now => exact ⟨hsorted.1 e' he', hsorted.1 e' he'⟩
        | request k m d now => exact ⟨hsorted.1 e' he', hsorted.1 e' he'⟩
      have hstep := h.step hduration hfits.1 hclock
      have hstep' := h'.step hduration hfits.1 hclock'
      have hrest (heq : (s.apply expirationDuration e).log key =
          (s'.apply expirationDuration e).log key) := ih hstep hstep' heq hfits.2 hnext hsorted.2
      cases e with
      | sweep now => exact hrest hlog
      | request k m d now =>
          rw [answers, answers]
          by_cases hk : k = key
          · obtain ⟨rfl, rfl⟩ := hfits.1 hk
            subst hk
            have hnow : s.clock ≤ now := hclock
            have hnow' : s'.clock ≤ now := hclock'
            have hsame : (s.store.request k (n + 1) d now).2 =
                (s'.store.request k (n + 1) d now).2 := by
              rw [h.answer hnow, h'.answer hnow', hlog]
            rw [if_pos rfl, if_pos rfl, hsame]
            refine congrArg _ (hrest ?_)
            change (s.request k (n + 1) d now).log k = (s'.request k (n + 1) d now).log k
            cases hallowed : (s'.store.request k (n + 1) d now).2 with
            | false =>
                rw [log_request_refused (hsame.trans hallowed), log_request_refused hallowed, hlog]
            | true =>
                rw [log_request_accepted (hsame.trans hallowed), log_request_accepted hallowed,
                  hlog]
          · rw [if_neg hk, if_neg hk]
            refine hrest ?_
            change (s.request k m d now).log key = (s'.request k m d now).log key
            rw [log_request_other (Ne.symm hk), log_request_other (Ne.symm hk), hlog]

end

/-- In every run the accepted requests of a key keep their distance, a request is refused only if
the window of the accepted ones is full, the queue is sorted and not longer than the limit, and a
sweep changes no later answer. -/
theorem memoryRateLimiter_spec (key : String) (maxRequestNum : Nat)
    (duration expirationDuration start : Int) (hmax : 1 ≤ maxRequestNum)
    (hduration : duration ≤ expirationDuration) (events : List Event) (s : State)
    (hfits : ∀ e ∈ events, e.Fits key maxRequestNum duration)
    (hrun : Run.exec (step expirationDuration) (initial start) events = some s) :
    (∀ i t t', (s.log key)[i]? = some t → (s.log key)[i + maxRequestNum]? = some t' →
      duration ≤ t - t') ∧
    (∀ now, s.clock ≤ now → (s.store.request key maxRequestNum duration now).2 = false →
      maxRequestNum ≤ (s.log key).countP fun t => now - t < duration) ∧
    (∀ queue, s.store key = some queue →
      queue.Pairwise (· ≤ ·) ∧ queue.length ≤ maxRequestNum) ∧
    ∀ now, s.clock ≤ now → ∀ later : List Event,
      (∀ e ∈ later, e.Fits key maxRequestNum duration) → (∀ e ∈ later, now ≤ e.now) →
      later.Pairwise (fun e e' => e.now ≤ e'.now) →
      answers expirationDuration key (s.sweep expirationDuration now) later =
        answers expirationDuration key s later := by
  obtain ⟨n, rfl⟩ := Nat.exists_eq_add_of_le' hmax
  have hinitial : Holds key (n + 1) duration (initial start) ∧
      Spaced (n + 1) duration ((initial start).log key) :=
    ⟨Holds.initial key (n + 1) duration start, fun i t t' ht => by cases ht⟩
  obtain ⟨hholds, hspaced⟩ := Run.exec_invariant
    (fun s e s' h hfits hs => holds_step hduration h hfits hs) hinitial
    (Run.along_of_mem hfits (initial start)) hrun
  refine ⟨hspaced, fun now hnow hrefused => ?_, fun queue hqueue => ?_,
    fun now hnow later hlater hafter hsorted => ?_⟩
  · rw [hholds.answer hnow, Bool.not_eq_false', decide_eq_true_eq] at hrefused
    exact hrefused
  · obtain ⟨m, hm, -, hstored, -⟩ := hholds.queue
    rw [hqueue] at hstored
    split at hstored
    · cases hstored
    · cases hstored
      refine ⟨List.pairwise_reverse.2 (hholds.sorted.sublist (List.take_sublist m _)), ?_⟩
      rw [List.length_reverse, List.length_take]
      omega
  · refine answers_congr hduration (hholds.sweep hduration hnow) hholds rfl hlater
      (fun e he => ⟨hafter e he, Int.le_trans hnow (hafter e he)⟩) hsorted

/-- Two requests and a sweep between them. -/
def twoRequests : List Event := [.request "login" 1 60 0, .sweep 30, .request "login" 1 60 70]

def afterTwoRequests : State :=
  (((initial 0).request "login" 1 60 0).sweep 1200 30).request "login" 1 60 70

theorem memoryRateLimiter_spec_login :
    (∀ i t t', (afterTwoRequests.log "login")[i]? = some t →
      (afterTwoRequests.log "login")[i + 1]? = some t' → 60 ≤ t - t') ∧
    (∀ now, afterTwoRequests.clock ≤ now →
      (afterTwoRequests.store.request "login" 1 60 now).2 = false →
      1 ≤ (afterTwoRequests.log "login").countP fun t => now - t < 60) ∧
    (∀ queue, afterTwoRequests.store "login" = some queue →
      queue.Pairwise (· ≤ ·) ∧ queue.length ≤ 1) ∧
    ∀ now, afterTwoRequests.clock ≤ now → ∀ later : List Event,
      (∀ e ∈ later, e.Fits "login" 1 60) → (∀ e ∈ later, now ≤ e.now) →
      later.Pairwise (fun e e' => e.now ≤ e'.now) →
      answers 1200 "login" (afterTwoRequests.sweep 1200 now) later =
        answers 1200 "login" afterTwoRequests later :=
  memoryRateLimiter_spec "login" 1 60 1200 0 (by decide) (by decide) twoRequests afterTwoRequests
    (by simp [twoRequests, Event.Fits]) rfl

end Memory

end DazeApi.RateLimit
