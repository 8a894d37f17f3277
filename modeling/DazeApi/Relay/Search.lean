import DazeApi.Relay.Loop
import DazeApi.Channels.Selection

/-!
# The search for the next channel

Whenever an attempt has failed, the loop of `Relay` searches for another channel
(`service/channel_select.go`): in the current auto group, with a retry number that grows
from one attempt to the next, and then in the groups behind it.  The counter of the loop is
set back when a group has no channel left, or when all of its retries are used up; in the
second case its next increment is suppressed.

The counter and the group together make a position that grows with every attempt, which
bounds the number of attempts.
-/

namespace DazeApi.Relay

open DazeApi.Types
open DazeApi.Channels.Selection (Rand AtLevel)

/-! ## What a search finds -/

/-- The channel that a search finds, with the place of its group among the auto groups and
the retry number that the group was asked with. -/
structure Found (κ : Type) where
  place : Nat
  group : String
  retry : Int
  channel : κ
deriving DecidableEq, Repr

/-- `ContextKeyAutoGroupIndex`, or 0 where it is not set. -/
def Search.index (s : Search) : Nat := s.autoGroupIndex.getD 0

section

variable {κ : Type} (r : Request) (pick : Pick κ)

/-- The group in which a search begins.  A token with a group of its own has one only. -/
def Search.place (s : Search) : Nat := if r.tokenGroup = "auto" then s.index else 0

/-- The number of groups in which a search can find a channel. -/
def groupCount : Nat := if r.tokenGroup = "auto" then r.autoGroups.length else 1

/-- The retry number with which a search asks the group at a place. -/
def Search.retryAt (s : Search) (place : Nat) : Int :=
  if s.place r < place then 0 else s.param.retry

/-- The first of some groups, from the `i`-th on, in which there is a channel. -/
def foundFrom (s : Search) : Nat → List String → Option (Found κ)
  | _, [] => none
  | i, g :: gs =>
      match pick g (s.retryAt r i) with
      | .ok (some channel) => some ⟨i, g, s.retryAt r i, channel⟩
      | _ => foundFrom s (i + 1) gs

/-- What a search finds. -/
def found (s : Search) : Option (Found κ) :=
  if r.tokenGroup = "auto" then
    if !r.autoGroupsEnabled then none
    else foundFrom r pick s s.index (r.autoGroups.drop s.index)
  else
    match pick r.tokenGroup s.param.retry with
    | .ok (some channel) => some ⟨0, r.tokenGroup, s.param.retry, channel⟩
    | _ => none

/-- The state of the search after a channel was found: it stays with the group, or goes
on behind it when the retries of the group are used up. -/
def Search.after (s : Search) (f : Found κ) : Search :=
  if r.tokenGroup = "auto" then
    if r.crossGroupRetry ∧ r.retryTimes ≤ f.retry then ⟨⟨0, true⟩, some (f.place + 1)⟩
    else ⟨{ s.param with retry := f.retry }, some f.place⟩
  else s

end

section

variable {κ : Type} {r : Request} {pick : Pick κ} {s s' : Search} {f : Found κ} {channel : κ}
  {group : String}

theorem foundFrom_spec : ∀ {gs : List String} {i : Nat}, foundFrom r pick s i gs = some f →
    i ≤ f.place ∧ gs[f.place - i]? = some f.group ∧ f.retry = s.retryAt r f.place ∧
      pick f.group f.retry = .ok (some f.channel)
  | [], _, h => by cases h
  | g :: gs, i, h => by
      simp only [foundFrom] at h
      split at h
      next channel hpick =>
        cases h
        exact ⟨le_rfl, by simp, rfl, hpick⟩
      next =>
        obtain ⟨hle, hgroup, hretry⟩ := foundFrom_spec h
        refine ⟨by omega, ?_, hretry⟩
        have hsub : f.place - i = (f.place - (i + 1)) + 1 := by omega
        rw [hsub, List.getElem?_cons_succ, hgroup]

/-- A search finds a channel in the current group or behind it. -/
theorem found_spec (h : found r pick s = some f) :
    s.place r ≤ f.place ∧ f.place < groupCount r ∧ f.retry = s.retryAt r f.place ∧
      pick f.group f.retry = .ok (some f.channel) := by
  rw [found] at h
  split at h
  next hauto =>
    split at h
    next => cases h
    next =>
      obtain ⟨hle, hgroup, hretry, hpick⟩ := foundFrom_spec h
      rw [List.getElem?_drop] at hgroup
      have hlt := (List.getElem?_eq_some_iff.1 hgroup).1
      refine ⟨by rwa [Search.place, if_pos hauto], ?_, hretry, hpick⟩
      rw [groupCount, if_pos hauto]
      omega
  next hauto =>
    split at h
    next channel hpick =>
      cases h
      refine ⟨by simp [Search.place, hauto], by simp [groupCount, hauto], ?_, hpick⟩
      simp [Search.retryAt]
    next => cases h

theorem foundFrom_of_pick {g : String} {gs : List String} {i : Nat} {channel : κ}
    (h : pick g (s.retryAt r i) = .ok (some channel)) :
    foundFrom r pick s i (g :: gs) = some ⟨i, g, s.retryAt r i, channel⟩ := by
  rw [foundFrom, h]

theorem foundFrom_of_not_pick {g : String} {gs : List String} {i : Nat}
    (h : ∀ channel, pick g (s.retryAt r i) = .ok (some channel) → False) :
    foundFrom r pick s i (g :: gs) = foundFrom r pick s (i + 1) gs := by
  rw [foundFrom]
  split
  next channel hok => exact absurd hok (h channel)
  next => rfl

/-- The loop over the auto groups, from the `i`-th on. -/
theorem selectAutoGroup_spec (pick : Pick κ) (hauto : r.tokenGroup = "auto") :
    ∀ (gs : List String) (i : Nat) (m : Search), s.index ≤ i → s.index ≤ m.index →
      m.param = { s.param with retry := s.retryAt r i } →
      (selectAutoGroup r pick s.index i gs m).1 =
          (foundFrom r pick s i gs).map (fun f => (f.channel, f.group)) ∧
        (∀ f, foundFrom r pick s i gs = some f →
          (selectAutoGroup r pick s.index i gs m).2 = s.after r f) ∧
        s.index ≤ (selectAutoGroup r pick s.index i gs m).2.index
  | [], i, m, _, hm, _ => ⟨rfl, by simp [foundFrom], hm⟩
  | g :: gs, i, m, hi, hm, hparam => by
      have hplace : s.place r = s.index := by rw [Search.place, if_pos hauto]
      have hretry : (if s.index < i then 0 else m.param.retry) = s.retryAt r i := by
        rw [hparam, Search.retryAt, hplace]
        split <;> rfl
      simp only [selectAutoGroup, hretry]
      split
      next channel hpick =>
        simp only [foundFrom_of_pick hpick, Option.some.injEq, Option.map_some, forall_eq']
        split
        next hcross =>
          refine ⟨rfl, ?_, ?_⟩
          · rw [Search.after, if_pos hauto, if_pos hcross]
          · simp only [Search.index, Option.getD_some] at hi ⊢
            omega
        next hcross =>
          refine ⟨rfl, ?_, by simpa [Search.index] using hi⟩
          rw [Search.after, if_pos hauto, if_neg hcross, hparam]
      next hpick =>
        rw [foundFrom_of_not_pick hpick]
        refine selectAutoGroup_spec pick hauto gs (i + 1) _ (by omega) ?_ ?_
        · simp only [Search.index, Option.getD_some] at hi ⊢
          omega
        · have hlt : s.place r < i + 1 := by omega
          simp [hparam, Search.retryAt, hlt]

/-- What `CacheGetRandomSatisfiedChannel` returns is what the search finds. -/
theorem found_of_cacheGet
    (h : cacheGetRandomSatisfiedChannel r pick s = (.ok (some channel), group, s')) :
    ∃ f, found r pick s = some f ∧ f.channel = channel ∧ f.group = group ∧ s' = s.after r f := by
  simp only [cacheGetRandomSatisfiedChannel] at h
  split at h
  next hauto =>
    split at h
    next => cases h
    next henabled =>
      have hparam : s.param = { s.param with retry := s.retryAt r s.index } := by
        rw [Search.retryAt, Search.place, if_pos hauto, if_neg (by omega)]
      obtain ⟨hfst, hsnd, -⟩ := selectAutoGroup_spec pick hauto (r.autoGroups.drop s.index) s.index s
        le_rfl le_rfl hparam
      have hfound : found r pick s =
          foundFrom r pick s s.index (r.autoGroups.drop s.index) := by
        rw [found, if_pos hauto, if_neg henabled]
      rw [hfound]
      have hstart : s.autoGroupIndex.getD 0 = s.index := rfl
      rw [hstart] at h
      split at h
      next c g m hselect =>
        cases h
        rw [hselect] at hfst hsnd
        obtain ⟨f, hf, hcg⟩ := Option.map_eq_some_iff.1 hfst.symm
        cases hcg
        exact ⟨f, hf, rfl, rfl, hsnd f hf⟩
      next => cases h
  next hauto =>
    simp only [Prod.mk.injEq] at h
    obtain ⟨hpick, rfl, rfl⟩ := h
    refine ⟨⟨0, r.tokenGroup, s.param.retry, channel⟩, ?_, rfl, rfl, ?_⟩
    · rw [found, if_neg hauto, hpick]
    · rw [Search.after, if_neg hauto]

/-- No search goes back. -/
theorem index_le_cacheGet (r : Request) (pick : Pick κ) (s : Search) :
    s.index ≤ (cacheGetRandomSatisfiedChannel r pick s).2.2.index := by
  simp only [cacheGetRandomSatisfiedChannel]
  split
  next hauto =>
    split
    next => exact le_rfl
    next =>
      have hparam : s.param = { s.param with retry := s.retryAt r s.index } := by
        rw [Search.retryAt, Search.place, if_pos hauto, if_neg (by omega)]
      have hle := (selectAutoGroup_spec pick hauto (r.autoGroups.drop s.index) s.index s
        le_rfl le_rfl hparam).2.2
      have hstart : s.autoGroupIndex.getD 0 = s.index := rfl
      rw [hstart]
      split
      next c g m hselect => rwa [hselect] at hle
      next m hselect => rwa [hselect] at hle
  next => exact le_rfl

end

/-! ## The position of a search -/

section

variable {κ : Type} {r : Request} {pick : Pick κ} {s : Search} {f : Found κ}

/-- The search as it stands in the next pass of the loop. -/
def Search.next (s : Search) : Search := { s with param := s.param.increaseRetry }

/-- The group and the retry number as one number. -/
def Search.position (r : Request) (s : Search) : Int :=
  (r.retryTimes + 1) * s.place r + s.param.retry

/-- The state of a search in a pass of the loop. -/
structure Search.Ready (r : Request) (s : Search) : Prop where
  flag : s.param.resetNextTry = false
  nonneg : 0 ≤ s.param.retry

/-- What the search is after the pass that has found a channel: one retry further in the
group, or at the beginning of the next one when the group has had its last retry. -/
theorem next_after_cases (hs : s.Ready r) (hf : found r pick s = some f) :
    ((s.after r f).next.place r = f.place ∧ (s.after r f).next.param = ⟨f.retry + 1, false⟩) ∨
      r.retryTimes ≤ f.retry ∧ (s.after r f).next.place r = f.place + 1 ∧
        (s.after r f).next.param = ⟨0, false⟩ := by
  obtain ⟨hle, -, hretry, -⟩ := found_spec hf
  by_cases hauto : r.tokenGroup = "auto"
  · by_cases hcross : r.crossGroupRetry ∧ r.retryTimes ≤ f.retry
    · refine Or.inr ⟨hcross.2, ?_⟩
      simp [Search.after, hauto, hcross, Search.next, Search.place, Search.index,
        RetryParam.increaseRetry]
    · refine Or.inl ?_
      rw [Search.after, if_pos hauto, if_neg hcross]
      simp [Search.next, Search.place, hauto, Search.index, RetryParam.increaseRetry, hs.flag]
  · have hplace (t : Search) : t.place r = 0 := by rw [Search.place, if_neg hauto]
    have hzero : f.place = 0 := by
      have hcount := (found_spec hf).2.1
      rw [groupCount, if_neg hauto] at hcount
      omega
    have hsame : f.retry = s.param.retry := by rw [hretry, Search.retryAt, hplace, hzero, if_neg (by omega)]
    refine Or.inl ⟨by rw [hplace, hzero], ?_⟩
    simp [Search.after, hauto, Search.next, RetryParam.increaseRetry, hs.flag, hsame]

theorem retry_found_nonneg (hs : s.Ready r) (hf : found r pick s = some f) : 0 ≤ f.retry := by
  rw [(found_spec hf).2.2.1, Search.retryAt]
  split
  next => exact le_rfl
  next => exact hs.nonneg

theorem ready_next_after (hs : s.Ready r) (hf : found r pick s = some f) :
    (s.after r f).next.Ready r := by
  have hnonneg := retry_found_nonneg hs hf
  rcases next_after_cases hs hf with ⟨-, hparam⟩ | ⟨-, -, hparam⟩
  · exact ⟨by rw [hparam], by rw [hparam]; show 0 ≤ f.retry + 1; omega⟩
  · exact ⟨by rw [hparam], by rw [hparam]⟩

/-- A search in a pass of the loop finds a channel before the position behind the last
group. -/
theorem position_lt_of_found (hR : s.param.retry ≤ r.retryTimes) (hnonneg : 0 ≤ r.retryTimes)
    (hf : found r pick s = some f) : s.position r < (r.retryTimes + 1) * groupCount r := by
  obtain ⟨hle, hlt, -, -⟩ := found_spec hf
  have hplace : (s.place r : Int) + 1 ≤ groupCount r := by omega
  have hmul := Int.mul_le_mul_of_nonneg_left hplace (by omega : 0 ≤ r.retryTimes + 1)
  rw [Search.position]
  rw [Int.mul_add, Int.mul_one] at hmul
  omega

/-- Every attempt moves the position, and never behind the last group. -/
theorem position_next_after (hs : s.Ready r) (hR : s.param.retry ≤ r.retryTimes)
    (hf : found r pick s = some f) :
    s.position r < (s.after r f).next.position r ∧
      (s.after r f).next.position r ≤ (r.retryTimes + 1) * groupCount r := by
  obtain ⟨hle, hlt, hretry, -⟩ := found_spec hf
  have hnonneg := hs.nonneg
  have hplace : (f.place : Int) + 1 ≤ groupCount r := by omega
  have hend := Int.mul_le_mul_of_nonneg_left hplace (by omega : 0 ≤ r.retryTimes + 1)
  rw [Int.mul_add, Int.mul_one] at hend
  rw [Search.retryAt] at hretry
  have hmove : s.position r ≤ (r.retryTimes + 1) * f.place + f.retry := by
    rw [Search.position]
    split at hretry
    next hbehind =>
      have hgroup : (s.place r : Int) + 1 ≤ f.place := by omega
      have hmul := Int.mul_le_mul_of_nonneg_left hgroup (by omega : 0 ≤ r.retryTimes + 1)
      rw [Int.mul_add, Int.mul_one] at hmul
      omega
    next hsame =>
      have hgroup : s.place r = f.place := by omega
      rw [hgroup]
      omega
  have hretryR : f.retry ≤ r.retryTimes := by
    rw [hretry]
    split <;> omega
  rcases next_after_cases hs hf with ⟨hgroup, hparam⟩ | ⟨hlast, hgroup, hparam⟩
  · have hnext : (s.after r f).next.position r = (r.retryTimes + 1) * f.place + (f.retry + 1) := by
      rw [Search.position, hgroup, hparam]
    omega
  · have hnext : (s.after r f).next.position r =
        (r.retryTimes + 1) * f.place + (r.retryTimes + 1) := by
      rw [Search.position, hgroup, hparam, Int.natCast_add, Int.natCast_one, Int.mul_add,
        Int.mul_one, Int.add_zero]
    omega

/-- The next search in the same group asks with the next retry number. -/
theorem retry_of_same_place {pick' : Pick κ} {f' : Found κ} (hs : s.Ready r)
    (hf : found r pick s = some f) (hf' : found r pick' (s.after r f).next = some f')
    (hsame : f'.place = f.place) : f'.retry = f.retry + 1 := by
  obtain ⟨hle, -, hretry, -⟩ := found_spec hf'
  rcases next_after_cases hs hf with ⟨hgroup, hparam⟩ | ⟨-, hgroup, -⟩
  · rw [hretry, Search.retryAt, hgroup, hsame, if_neg (by omega), hparam]
  · omega

end

/-! ## The passes of the loop -/

section

variable {κ : Type} {r : Request} {s s' : Loop} {a : Attempt κ}

/-- The channel that a pass searches for: the first one has its channel from the
distributor. -/
def selected (r : Request) (s : Loop) (a : Attempt κ) : Option (Found κ) :=
  if s.channelMeta then found r a.pick s.search else none

/-- What a pass does to the search. -/
theorem search_of_getChannel {channel : κ} {search : Search}
    (h : getChannel r s a = (.ok channel, search)) :
    s.channelMeta = false ∧ search = s.search ∨
      s.channelMeta = true ∧ ∃ f, found r a.pick s.search = some f ∧
        search = s.search.after r f := by
  simp only [getChannel] at h
  split at h
  next hmeta =>
    left
    refine ⟨by simpa using hmeta, ?_⟩
    split at h
    next => cases h
    next =>
      split at h
      next => cases h
      next =>
        cases h
        rfl
  next hmeta =>
    right
    refine ⟨by simpa using hmeta, ?_⟩
    split at h
    next => cases h
    next => cases h
    next c g m hget =>
      split at h
      next => cases h
      next =>
        cases h
        obtain ⟨f, hf, -, -, hafter⟩ := found_of_cacheGet hget
        exact ⟨f, hf, hafter⟩

theorem index_le_getChannel (r : Request) (s : Loop) (a : Attempt κ) :
    s.search.index ≤ (getChannel r s a).2.index := by
  simp only [getChannel]
  split
  next =>
    split
    next => exact le_rfl
    next => split <;> exact le_rfl
  next =>
    have hle := index_le_cacheGet r a.pick s.search
    split
    next hget => rwa [hget] at hle
    next hget => rwa [hget] at hle
    next hget =>
      rw [hget] at hle
      split <;> exact hle

/-- No pass takes the index of the auto group back. -/
theorem index_le_pass (h : pass r s a = some s') : s.search.index ≤ s'.search.index := by
  have hle := index_le_getChannel r s a
  simp only [pass] at h
  split at h
  next => cases h
  next =>
    split at h
    next e search hget =>
      cases h
      rwa [hget] at hle
    next channel search hget =>
      rw [hget] at hle
      split at h
      next =>
        cases h
        exact hle
      next =>
        cases h
        simp only [Loop.decide]
        split <;> exact hle

/-- What a pass does that is not the last one. -/
theorem pass_running (h : pass r s a = some s') (hret : s'.returned = false) :
    ∃ channel search, getChannel r s a = (.ok channel, search) ∧ s'.search = search.next ∧
      s'.attempts = s.attempts + 1 ∧ s'.channelMeta = true := by
  obtain ⟨-, -, ⟨search, e, rfl⟩ | ⟨channel, search, hget, -, rfl⟩⟩ := pass_cases r h
  · cases hret
  · refine ⟨channel, search, hget, ?_⟩
    simp only [Loop.decide] at hret ⊢
    split at hret
    next hretry =>
      rw [if_pos hretry]
      exact ⟨rfl, rfl, rfl⟩
    next => cases hret

/-- No pass makes more than one attempt, and only the last pass makes none. -/
theorem attempts_pass (h : pass r s a = some s') :
    s'.attempts = s.attempts + 1 ∧ s'.channelMeta = true ∨
      s'.attempts = s.attempts ∧ s'.channelMeta = s.channelMeta ∧ s'.returned = true := by
  obtain ⟨-, -, ⟨search, e, rfl⟩ | ⟨channel, search, -, -, rfl⟩⟩ := pass_cases r h
  · exact Or.inr ⟨rfl, rfl, rfl⟩
  · left
    simp only [Loop.decide]
    split <;> exact ⟨rfl, rfl⟩

/-- The attempts are counted by the position of the search. -/
structure Counted (r : Request) (s : Loop) : Prop where
  bound : (s.attempts : Int) ≤ (r.retryTimes + 1) * groupCount r + 1
  first : s.channelMeta = false → s.attempts = 0
  ready : s.returned = false → s.search.Ready r
  position : s.returned = false → (s.attempts : Int) ≤ s.search.position r
  limit : s.returned = false →
    s.attempts ≤ 1 ∨ s.search.position r ≤ (r.retryTimes + 1) * groupCount r

theorem counted_start (hR : 0 ≤ r.retryTimes) (index : Option Nat) :
    Counted r (Loop.start index) := by
  have hend : 0 ≤ (r.retryTimes + 1) * groupCount r := Int.mul_nonneg (by omega) (by omega)
  have hplace : 0 ≤ (r.retryTimes + 1) * ((Loop.start index).search.place r : Int) :=
    Int.mul_nonneg (by omega) (by omega)
  refine ⟨?_, fun _ => rfl, fun _ => ⟨rfl, le_rfl⟩, fun _ => ?_, fun _ => Or.inl ?_⟩
  · show (0 : Int) ≤ _
    omega
  · rw [Search.position]
    show (0 : Int) ≤ _ + 0
    omega
  · exact Nat.zero_le 1

theorem counted_pass (hR : 0 ≤ r.retryTimes) (hI : Counted r s) (h : pass r s a = some s') :
    Counted r s' := by
  obtain ⟨hret, hretry, -⟩ := pass_cases r h
  have hend : 0 ≤ (r.retryTimes + 1) * groupCount r := Int.mul_nonneg (by omega) (by omega)
  have hready := hI.ready hret
  have hposition := hI.position hret
  -- the search of a pass that goes on
  have hrunning (hret' : s'.returned = false) : s'.search.Ready r ∧
      (s'.attempts : Int) ≤ s'.search.position r ∧
        (s'.attempts ≤ 1 ∨ s'.search.position r ≤ (r.retryTimes + 1) * groupCount r) := by
    obtain ⟨channel, search, hget, hsearch, hattempts, -⟩ := pass_running h hret'
    rw [hsearch, hattempts]
    rcases search_of_getChannel hget with ⟨hmeta, rfl⟩ | ⟨-, f, hf, rfl⟩
    · have hnext : s.search.next.param = ⟨s.search.param.retry + 1, false⟩ := by
        simp [Search.next, RetryParam.increaseRetry, hready.flag]
      have hmoved : s.search.next.position r = s.search.position r + 1 := by
        have hplace : s.search.next.place r = s.search.place r := rfl
        rw [Search.position, Search.position, hplace, hnext]
        dsimp only
        omega
      have hnonneg := hready.nonneg
      refine ⟨⟨by rw [hnext], ?_⟩, by omega, Or.inl (by rw [hI.first hmeta])⟩
      rw [hnext]
      dsimp only
      omega
    · obtain ⟨hlt, hle⟩ := position_next_after hready hretry hf
      exact ⟨ready_next_after hready hf, by omega, Or.inr hle⟩
  refine ⟨?_, ?_, fun hret' => (hrunning hret').1, fun hret' => (hrunning hret').2.1,
    fun hret' => (hrunning hret').2.2⟩
  · rcases attempts_pass h with ⟨hattempts, -⟩ | ⟨hattempts, -⟩
    · cases hmeta : s.channelMeta with
      | false =>
          have hzero := hI.first hmeta
          omega
      | true =>
          obtain ⟨-, -, ⟨search, e, rfl⟩ | ⟨channel, search, hget, -, -⟩⟩ := pass_cases r h
          · exact hI.bound
          · rcases search_of_getChannel hget with ⟨hfalse, -⟩ | ⟨-, f, hf, -⟩
            · rw [hmeta] at hfalse
              cases hfalse
            · have hlt := position_lt_of_found hretry hR hf
              omega
    · rw [hattempts]
      exact hI.bound
  · intro hmeta
    rcases attempts_pass h with ⟨-, htrue⟩ | ⟨hattempts, hsame, -⟩
    · rw [hmeta] at htrue
      cases htrue
    · rw [hattempts]
      exact hI.first (hsame ▸ hmeta)

/-- Two passes in a row that find a channel in the same group ask it with one retry number
and the next one. -/
theorem retry_of_passes {s'' : Loop} {b : Attempt κ} {f f' : Found κ} (hI : Counted r s)
    (h : pass r s a = some s') (h' : pass r s' b = some s'') (hf : selected r s a = some f)
    (hf' : selected r s' b = some f') (hsame : f'.place = f.place) : f'.retry = f.retry + 1 := by
  have hret := (pass_cases r h).1
  have hret' := (pass_cases r h').1
  obtain ⟨channel, search, hget, hsearch, -, hmeta'⟩ := pass_running h hret'
  rw [selected] at hf hf'
  rw [hmeta', if_pos rfl, hsearch] at hf'
  split at hf
  next hmeta =>
    rcases search_of_getChannel hget with ⟨hfalse, -⟩ | ⟨-, g, hg, rfl⟩
    · rw [hmeta] at hfalse
      cases hfalse
    · rw [hg] at hf
      cases hf
      exact retry_of_same_place (hI.ready hret) hg hf' hsame
  next => cases hf

end

/-! ## The channels of an index -/

section

variable {r : Request} {cache : Channels.Index.Cache} {pick pick' : Pick Channels.Channel}
  {f f' : Found Channels.Channel}

/-- The answers come from the index, drawn anew for every question. -/
def FromIndex (r : Request) (cache : Channels.Index.Cache) (pick : Pick Channels.Channel) : Prop :=
  ∀ group retry, ∃ rand : Rand, pick group retry =
    Channels.Selection.getRandomSatisfiedChannel r.retryTimes rand cache group r.modelName retry

/-- A group stands at its place. -/
theorem group_of_found {s : Search} {κ : Type} {pick : Pick κ} {f : Found κ}
    (hf : found r pick s = some f) :
    f.group = if r.tokenGroup = "auto" then (r.autoGroups[f.place]?).getD "" else r.tokenGroup := by
  rw [found] at hf
  split at hf
  next hauto =>
    split at hf
    next => cases hf
    next =>
      obtain ⟨hle, hgroup, -, -⟩ := foundFrom_spec hf
      have hplace : s.index + (f.place - s.index) = f.place := by omega
      rw [List.getElem?_drop, hplace] at hgroup
      rw [if_pos hauto, hgroup, Option.getD_some]
  next hauto =>
    split at hf
    next =>
      cases hf
      rw [if_neg hauto]
    next => cases hf

/-- Of two channels that are found in one group of the same index, the one that is asked
for with the later retry number has no higher priority. -/
theorem priority_le_of_found {s s' : Search} (hindex : FromIndex r cache pick)
    (hindex' : FromIndex r cache pick') (hf : found r pick s = some f)
    (hf' : found r pick' s' = some f') (hsame : f'.place = f.place) (hle : f.retry ≤ f'.retry) :
    f'.channel.getPriority ≤ f.channel.getPriority := by
  have hgroup : f'.group = f.group := by
    rw [group_of_found hf, group_of_found hf', hsame]
  obtain ⟨rand, hrand⟩ := hindex f.group f.retry
  obtain ⟨rand', hrand'⟩ := hindex' f'.group f'.retry
  rw [(found_spec hf).2.2.2] at hrand
  rw [(found_spec hf').2.2.2, hgroup] at hrand'
  exact (Channels.Selection.atLevel_getRandomSatisfiedChannel hrand.symm).le
    (Channels.Selection.atLevel_getRandomSatisfiedChannel hrand'.symm) hle

end

/-! ## Whole runs -/

/-- No more attempts than the groups have tries, and one beside them; and no more passes
than attempts, except for a last one that makes none. -/
structure Bounded (r : Request) (s : Loop) (passes : Nat) : Prop where
  attempts : (s.attempts : Int) ≤ (r.retryTimes + 1) * groupCount r + 1
  passes : passes ≤ s.attempts + if s.returned then 1 else 0

/-- A channel that is found in the group of the one before, in an index that has not
changed, has no higher priority. -/
def Descends (r : Request) (index : Option Nat) (as : List (Attempt Channels.Channel)) : Prop :=
  ∀ pre a b post m n, as = pre ++ a :: b :: post →
    Run.exec (pass r) (Loop.start index) pre = some m → pass r m a = some n →
      ∀ cache, FromIndex r cache a.pick → FromIndex r cache b.pick →
        ∀ f f', selected r m a = some f → selected r n b = some f' → f'.place = f.place →
          f'.channel.getPriority ≤ f.channel.getPriority

/-- A channel that the distributor has found by its own search is followed, in the same
group of the same index, by channels of no higher priority. -/
def DescendsFrom (r : Request) (pick₀ : Pick Channels.Channel) (index : Option Nat)
    (as : List (Attempt Channels.Channel)) : Prop :=
  ∀ f₀, found r pick₀ ⟨⟨0, false⟩, none⟩ = some f₀ →
    index = (Search.after r ⟨⟨0, false⟩, none⟩ f₀).autoGroupIndex →
      ∀ pre b post m, as = pre ++ b :: post →
        Run.exec (pass r) (Loop.start index) pre = some m →
          ∀ cache, FromIndex r cache pick₀ → FromIndex r cache b.pick →
            ∀ f, selected r m b = some f → f.place = f₀.place →
              f.channel.getPriority ≤ f₀.channel.getPriority

section

variable {κ : Type} {r : Request} {s s' : Loop} {as : List (Attempt κ)}

theorem bounded_run (hR : 0 ≤ r.retryTimes) (index : Option Nat)
    (h : Run.exec (pass r) (Loop.start index) as = some s) :
    Counted r s ∧ as.length ≤ s.attempts + if s.returned then 1 else 0 := by
  refine Run.exec_trace (P := fun _ _ => True)
    (I := fun tr s => Counted r s ∧ tr.length ≤ s.attempts + if s.returned then 1 else 0)
    ?_ [] as (Loop.start index) s ⟨counted_start hR index, by simp⟩
    (Run.along_of_forall (fun _ _ => trivial) as _) h
  rintro tr m a m' ⟨hI, hlen⟩ - hpass
  refine ⟨counted_pass hR hI hpass, ?_⟩
  rw [(pass_cases r hpass).1] at hlen
  rw [List.length_append, List.length_singleton]
  rcases attempts_pass hpass with ⟨hattempts, -⟩ | ⟨hattempts, -, hret⟩
  · simp only [Bool.false_eq_true, if_false] at hlen
    omega
  · rw [hret]
    simp only [Bool.false_eq_true, if_false, if_true] at hlen ⊢
    omega

theorem index_le_run : ∀ {as : List (Attempt κ)} {s : Loop},
    Run.exec (pass r) s as = some s' → s.search.index ≤ s'.search.index
  | [], s, h => by
      cases h
      exact le_rfl
  | a :: as, s, h => by
      obtain ⟨m, hm, hrest⟩ := Run.exec_cons_eq_some.1 h
      exact (index_le_pass hm).trans (index_le_run hrest)

end

/-- However the attempts fail and whatever the index answers: the attempts are bounded, the
index of the auto group never decreases, and inside one group of an index that does not
change the priorities do not increase. -/
theorem retry_search (r : Request) (hR : 0 ≤ r.retryTimes) (index : Option Nat)
    (as : List (Attempt Channels.Channel)) (s : Loop)
    (h : Run.exec (pass r) (Loop.start index) as = some s) :
    Bounded r s as.length ∧
      (∀ pre post m, as = pre ++ post → Run.exec (pass r) (Loop.start index) pre = some m →
        m.search.index ≤ s.search.index) ∧
      Descends r index as ∧ ∀ pick₀, DescendsFrom r pick₀ index as := by
  have hreach {pre : List (Attempt Channels.Channel)} {m : Loop}
      (hm : Run.exec (pass r) (Loop.start index) pre = some m) : Counted r m :=
    (bounded_run hR index hm).1
  have hsplit {pre post : List (Attempt Channels.Channel)} {m : Loop} (has : as = pre ++ post)
      (hm : Run.exec (pass r) (Loop.start index) pre = some m) :
      Run.exec (pass r) m post = some s := by
    rw [has, Run.exec_append, hm] at h
    exact h
  obtain ⟨hcounted, hlength⟩ := bounded_run hR index h
  refine ⟨⟨hcounted.bound, hlength⟩, ?_, ?_, ?_⟩
  · intro pre post m has hm
    exact index_le_run (hsplit has hm)
  · intro pre a b post m n has hm hn cache hindex hindex' f f' hf hf' hsame
    obtain ⟨n', hn', hrest⟩ := Run.exec_cons_eq_some.1 (hsplit has hm)
    rw [hn] at hn'
    cases hn'
    obtain ⟨t, ht, -⟩ := Run.exec_cons_eq_some.1 hrest
    have hretry := retry_of_passes (hreach hm) hn ht hf hf' hsame
    rw [selected] at hf hf'
    split at hf
    next =>
      split at hf'
      next => exact priority_le_of_found hindex hindex' hf hf' hsame (by omega)
      next => cases hf'
    next => cases hf
  · intro pick₀ f₀ hf₀ _ pre b post m has hm cache hindex hindex' f hf hsame
    obtain ⟨t, ht, -⟩ := Run.exec_cons_eq_some.1 (hsplit has hm)
    have hret := (pass_cases r ht).1
    rw [selected] at hf
    split at hf
    next =>
      refine priority_le_of_found hindex hindex' hf₀ hf hsame ?_
      have hzero : f₀.retry = 0 := by
        rw [(found_spec hf₀).2.2.1, Search.retryAt]
        split <;> rfl
      rw [hzero]
      exact retry_found_nonneg ((hreach hm).ready hret) hf
    next => cases hf

/-- A request with two groups and two tries in each of them. -/
def crossRequest : Request where
  retryTimes := 1
  ranges := automaticRetryStatusCodeRanges
  affinitySkipRetry := false
  specificChannelId := false
  crossGroupRetry := true
  autoGroupsEnabled := true
  autoGroups := ["default", "vip"]
  tokenGroup := "auto"
  modelName := "a"
  channelId := 1

def crossChannel (id : Int) : Channels.Channel :=
  ⟨id, "sk", 1, "a", "default,vip", some (10 - id), some 1, none, .zero, []⟩

/-- The first group has two channels and the second one has one. -/
def crossCache : Channels.Index.Cache where
  group2model2channels group _ := if group = "default" then [1, 2] else [3]
  channelsIDM id := some (crossChannel id)

/-- An attempt that fails. -/
def failingAttempt : Attempt Channels.Channel where
  cached id := .ok (crossChannel id)
  pick group retry := Channels.Selection.getRandomSatisfiedChannel 1 ⟨fun _ => 0, fun _ h => h⟩
    crossCache group "a" retry
  setup _ := none
  body := none
  handler _ := ⟨[], some (newErrorWithStatusCode "overloaded" "bad_response" 500 [])⟩

/-- Every group has its two tries, and the fifth pass finds no channel. -/
theorem retry_search_cross : ∃ s,
    Run.exec (pass crossRequest) (Loop.start none) (List.replicate 5 failingAttempt) = some s ∧
      s.attempts = 4 ∧ s.search.index = 2 ∧ Bounded crossRequest s 5 := by
  obtain ⟨s, hs, hend⟩ := Run.exists_of_any (pass crossRequest) (Loop.start none)
    (List.replicate 5 failingAttempt) (fun s => s.attempts = 4 ∧ s.search.index = 2)
    (by decide +kernel)
  obtain ⟨hattempts, hindex⟩ := of_decide_eq_true hend
  exact ⟨s, hs, hattempts, hindex, (retry_search crossRequest (by decide) none _ s hs).1⟩

end DazeApi.Relay
