import Mathlib.Data.List.Basic

/-!
# Runs

A list falls into runs, in which every element joins the one before it.  A loop that merges each
element with the last result, if the two meet, merges every run to one result (`mergeFrom_eq`).
-/

namespace DazeApi.Runs

variable {α β : Type}

structure Run (α : Type) where
  first : α
  rest : List α

def Run.elements (r : Run α) : List α := r.first :: r.rest

/-- A further element in front of the first run. -/
def prepend (a : α) : List (Run α) → List (Run α)
  | [] => [⟨a, []⟩]
  | r :: rs => ⟨a, r.elements⟩ :: rs

def runsFrom (joins : α → α → Bool) (a : α) : List α → List (Run α)
  | [] => [⟨a, []⟩]
  | b :: l => if joins a b then prepend a (runsFrom joins b l) else ⟨a, []⟩ :: runsFrom joins b l

/-- The runs of a list. -/
def runs (joins : α → α → Bool) : List α → List (Run α)
  | [] => []
  | a :: l => runsFrom joins a l

/-- A loop that has one result in hand. -/
def mergeFrom (meets : β → α → Bool) (merge : β → α → β) (start : α → β) (b : β) :
    List α → List β
  | [] => [b]
  | a :: l =>
      if meets b a then mergeFrom meets merge start (merge b a) l
      else b :: mergeFrom meets merge start (start a) l

theorem runsFrom_ne_nil (joins : α → α → Bool) (a : α) (l : List α) :
    ∃ rest rs, runsFrom joins a l = ⟨a, rest⟩ :: rs := by
  cases l with
  | nil => exact ⟨[], [], rfl⟩
  | cons b l =>
      rw [runsFrom]
      split
      next =>
        rw [prepend.eq_def]
        split <;> exact ⟨_, _, rfl⟩
      next => exact ⟨[], _, rfl⟩

/-- Each run is merged to one result. -/
theorem mergeFrom_eq {joins : α → α → Bool} {meets : β → α → Bool} {merge : β → α → β}
    {start : α → β} (hstart : ∀ a c, meets (start a) c = joins a c)
    (hmerge : ∀ b a c, meets b a = true → meets (merge b a) c = joins a c) (l : List α) :
    ∀ (b : β) (a : α), (∀ c, meets b c = joins a c) → ∀ rest rs,
      runsFrom joins a l = ⟨a, rest⟩ :: rs →
        mergeFrom meets merge start b l =
          rest.foldl merge b :: rs.map fun r => r.rest.foldl merge (start r.first) := by
  induction l with
  | nil =>
      intro b a _ rest rs h
      cases h
      rfl
  | cons c l ih =>
      intro b a hb rest rs h
      obtain ⟨rest', rs', heq⟩ := runsFrom_ne_nil joins c l
      rw [runsFrom, heq] at h
      rw [mergeFrom, hb c]
      split at h
      next hjoins =>
        cases h
        rw [if_pos hjoins, ih (merge b c) c (fun k => hmerge b c k ((hb c).trans hjoins)) _ _ heq]
        rfl
      next hjoins =>
        cases h
        rw [if_neg hjoins, ih (start c) c (hstart c) _ _ heq]
        rfl

/-- Two neighbours of a run join. -/
theorem isChain_of_mem_runsFrom {joins : α → α → Bool} {a : α} {l : List α} {r : Run α}
    (h : r ∈ runsFrom joins a l) : r.elements.IsChain fun a b => joins a b = true := by
  induction l generalizing a r with
  | nil =>
      rw [runsFrom, List.mem_singleton] at h
      rw [h]
      exact .singleton a
  | cons b l ih =>
      rw [runsFrom] at h
      split at h
      next hjoins =>
        obtain ⟨rest, rs, heq⟩ := runsFrom_ne_nil joins b l
        rw [heq, prepend, List.mem_cons] at h
        rcases h with rfl | h
        · exact List.isChain_cons_cons.2
            ⟨hjoins, ih (r := ⟨b, rest⟩) (by rw [heq]; exact .head rs)⟩
        · exact ih (by rw [heq]; exact .tail _ h)
      next =>
        rcases List.mem_cons.1 h with rfl | h
        · exact .singleton a
        · exact ih h

theorem isChain_of_mem_runs {joins : α → α → Bool} {l : List α} {r : Run α}
    (h : r ∈ runs joins l) : r.elements.IsChain fun a b => joins a b = true := by
  cases l with
  | nil => cases h
  | cons a l => exact isChain_of_mem_runsFrom h

/-- The runs are the list. -/
theorem flatMap_elements_runsFrom (joins : α → α → Bool) (a : α) (l : List α) :
    (runsFrom joins a l).flatMap Run.elements = a :: l := by
  induction l generalizing a with
  | nil => rfl
  | cons b l ih =>
      obtain ⟨rest, rs, heq⟩ := runsFrom_ne_nil joins b l
      have hb := ih b
      rw [runsFrom]
      split
      next =>
        rw [heq] at hb ⊢
        rw [prepend, List.flatMap_cons, ← hb]
        rfl
      next => rw [List.flatMap_cons, hb]; rfl

theorem flatMap_elements_runs (joins : α → α → Bool) (l : List α) :
    (runs joins l).flatMap Run.elements = l := by
  cases l with
  | nil => rfl
  | cons a l => exact flatMap_elements_runsFrom joins a l

end DazeApi.Runs
