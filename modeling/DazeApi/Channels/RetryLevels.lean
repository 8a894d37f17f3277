import DazeApi.Channels.Selection
import Mathlib

/-!
# The levels of all tries

The tries of a request fall on the priority levels from the highest down.  What they are more than
the levels is spent on the highest one, and every other level is tried once.
-/

namespace DazeApi.Channels.Selection

section

variable {n total retry i : Int}

/-- The level is the first one until the tries left are as many as the levels below it. -/
theorem mapRetryToPriorityIndex_eq (hn : 1 ≤ n) (h : retry < max total n) :
    mapRetryToPriorityIndex retry n total = max 0 (retry - (max total n - n)) := by
  simp only [mapRetryToPriorityIndex]
  split_ifs <;> omega

/-- The tries that fall on the highest level. -/
theorem tries_highest (hn : 1 ≤ n) :
    (Finset.Ico 0 (max total n)).filter (mapRetryToPriorityIndex · n total = 0) =
      Finset.Ico 0 (max total n - n + 1) := by
  ext retry
  rw [Finset.mem_filter, Finset.mem_Ico, Finset.mem_Ico]
  constructor
  · rintro ⟨⟨hpos, hlt⟩, hzero⟩
    rw [mapRetryToPriorityIndex_eq hn hlt] at hzero
    omega
  · rintro ⟨hpos, hlt⟩
    have hlt' : retry < max total n := by omega
    refine ⟨⟨hpos, hlt'⟩, ?_⟩
    rw [mapRetryToPriorityIndex_eq hn hlt']
    omega

/-- The one try that falls on a lower level. -/
theorem tries_lower (hi : 1 ≤ i) (hin : i < n) :
    (Finset.Ico 0 (max total n)).filter (mapRetryToPriorityIndex · n total = i) =
      {max total n - n + i} := by
  have hn : 1 ≤ n := by omega
  ext retry
  rw [Finset.mem_filter, Finset.mem_Ico, Finset.mem_singleton]
  constructor
  · rintro ⟨⟨hpos, hlt⟩, hlevel⟩
    rw [mapRetryToPriorityIndex_eq hn hlt] at hlevel
    omega
  · rintro rfl
    have hlt : max total n - n + i < max total n := by omega
    refine ⟨⟨by omega, hlt⟩, ?_⟩
    rw [mapRetryToPriorityIndex_eq hn hlt]
    omega

theorem exists_try (hle : n ≤ total) (hi : 0 ≤ i) (hin : i < n) :
    ∃ retry, 0 ≤ retry ∧ retry < total ∧ mapRetryToPriorityIndex retry n total = i := by
  have hlt : total - n + i < max total n := by omega
  refine ⟨total - n + i, by omega, by omega, ?_⟩
  rw [mapRetryToPriorityIndex_eq (by omega) hlt]
  omega

end

/-- Each priority is that of one of the tries. -/
theorem exists_targetPriority {retryTimes p : Int} {ps : List Int} (hp : p ∈ ps)
    (hle : (ps.toFinset.card : Int) ≤ retryTimes + 1) :
    ∃ retry, 0 ≤ retry ∧ retry ≤ retryTimes ∧ targetPriority retryTimes ps retry = p := by
  have hrank : (rank ps p : Int) < ps.toFinset.card := by
    refine Int.ofNat_lt.2 (Finset.card_lt_card (Finset.filter_ssubset.2 ⟨p, ?_, lt_irrefl p⟩))
    exact List.mem_toFinset.2 hp
  obtain ⟨retry, hpos, hlt, hlevel⟩ := exists_try hle (Int.natCast_nonneg _) hrank
  refine ⟨retry, hpos, by omega, ?_⟩
  exact ((atLevel_iff (List.ne_nil_of_mem hp)).1 ⟨hp, hlevel.symm⟩).symm

/-- The levels of the tries: they are levels, a later try falls on a lower one, the highest one is
tried as often as tries remain, the others once; and if there are as many tries as levels, each
priority of the channels is tried. -/
theorem mapRetryToPriorityIndex_spec (n total : Int) (hn : 1 ≤ n) :
    (∀ retry, 0 ≤ mapRetryToPriorityIndex retry n total ∧
      mapRetryToPriorityIndex retry n total < n) ∧
    (∀ retry retry', retry ≤ retry' →
      mapRetryToPriorityIndex retry n total ≤ mapRetryToPriorityIndex retry' n total) ∧
    (((Finset.Ico 0 (max total n)).filter
      (mapRetryToPriorityIndex · n total = 0)).card : Int) = max total n - n + 1 ∧
    (∀ i, 1 ≤ i → i < n → ((Finset.Ico 0 (max total n)).filter
      (mapRetryToPriorityIndex · n total = i)).card = 1) ∧
    (n ≤ total → ∀ i, 0 ≤ i → i < n →
      ∃ retry, 0 ≤ retry ∧ retry < total ∧ mapRetryToPriorityIndex retry n total = i) ∧
    ∀ retryTimes ps, (ps.toFinset.card : Int) = n → n ≤ retryTimes + 1 → ∀ p ∈ ps,
      ∃ retry, 0 ≤ retry ∧ retry ≤ retryTimes ∧ targetPriority retryTimes ps retry = p := by
  refine ⟨fun retry => mapRetryToPriorityIndex_bounds retry total hn,
    fun retry retry' => mapRetryToPriorityIndex_mono n total, ?_, fun i hi hin => ?_,
    fun hle i hi hin => exists_try hle hi hin, ?_⟩
  · rw [tries_highest hn, Int.card_Ico]
    omega
  · rw [tries_lower hi hin, Finset.card_singleton]
  · rintro retryTimes ps rfl hle p hp
    exact exists_targetPriority hp hle

theorem mapRetryToPriorityIndex_spec_two :
    (∀ retry, 0 ≤ mapRetryToPriorityIndex retry 2 3 ∧ mapRetryToPriorityIndex retry 2 3 < 2) ∧
    (∀ retry retry', retry ≤ retry' →
      mapRetryToPriorityIndex retry 2 3 ≤ mapRetryToPriorityIndex retry' 2 3) ∧
    (((Finset.Ico 0 (max 3 2)).filter
      (mapRetryToPriorityIndex · 2 3 = 0)).card : Int) = max 3 2 - 2 + 1 ∧
    (∀ i, 1 ≤ i → i < 2 → ((Finset.Ico 0 (max 3 2)).filter
      (mapRetryToPriorityIndex · 2 3 = i)).card = 1) ∧
    ((2 : Int) ≤ 3 → ∀ i, 0 ≤ i → i < 2 →
      ∃ retry, 0 ≤ retry ∧ retry < 3 ∧ mapRetryToPriorityIndex retry 2 3 = i) ∧
    ∀ retryTimes ps, (ps.toFinset.card : Int) = 2 → 2 ≤ retryTimes + 1 → ∀ p ∈ ps,
      ∃ retry, 0 ≤ retry ∧ retry ≤ retryTimes ∧ targetPriority retryTimes ps retry = p :=
  mapRetryToPriorityIndex_spec 2 3 (by decide)

end DazeApi.Channels.Selection
