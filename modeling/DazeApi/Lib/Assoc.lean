import Mathlib.Data.List.Induction
import Mathlib.Data.List.Nodup
import Mathlib.Data.List.Perm.Basic

/-!
# Maps that are filled in some order

A map as a list of pairs whose keys differ.  Of several entries of one key the last is kept.
-/

namespace DazeApi.Assoc

variable {κ ν : Type} {m l : List (κ × ν)} {k : κ} {v v' : ν}

/-- One value of a key is in the map. -/
theorem eq_of_mem_of_mem (h : (m.map Prod.fst).Nodup) (hv : (k, v) ∈ m) (hv' : (k, v') ∈ m) :
    v = v' :=
  congrArg Prod.snd (List.inj_on_of_nodup_map h hv hv' rfl)

variable [DecidableEq κ]

def assign (m : List (κ × ν)) (e : κ × ν) : List (κ × ν) := m.filter (·.1 ≠ e.1) ++ [e]

/-- The map that the entries leave, one after another. -/
def ofEntries (l : List (κ × ν)) : List (κ × ν) := l.foldl assign []

theorem mem_assign {e e' : κ × ν} : e' ∈ assign m e ↔ e' ∈ m ∧ e'.1 ≠ e.1 ∨ e' = e := by
  simp [assign]

theorem nodup_assign (h : (m.map Prod.fst).Nodup) (e : κ × ν) :
    ((assign m e).map Prod.fst).Nodup := by
  rw [assign, List.map_append, List.map_singleton, List.nodup_append]
  refine ⟨h.sublist (List.filter_sublist.map _), List.nodup_singleton _, ?_⟩
  intro a ha b hb
  obtain ⟨e', he', rfl⟩ := List.mem_map.1 ha
  rw [List.mem_singleton.1 hb]
  simpa using (List.mem_filter.1 he').2

theorem nodup_ofEntries (l : List (κ × ν)) : ((ofEntries l).map Prod.fst).Nodup := by
  have hfold : ∀ (l m : List (κ × ν)), (m.map Prod.fst).Nodup →
      ((l.foldl assign m).map Prod.fst).Nodup := by
    intro l
    induction l with
    | nil => exact fun _ h => h
    | cons e l ih => exact fun m h => ih (assign m e) (nodup_assign h e)
  exact hfold l [] List.nodup_nil

theorem ofEntries_concat (l : List (κ × ν)) (e : κ × ν) :
    ofEntries (l ++ [e]) = assign (ofEntries l) e := by
  rw [ofEntries, List.foldl_append]
  rfl

/-- What is in the map was assigned, and not assigned anew behind. -/
theorem mem_ofEntries_append {l₁ l₂ : List (κ × ν)} {e : κ × ν} (h : e ∈ ofEntries (l₁ ++ l₂)) :
    e ∈ l₂ ∨ e ∈ ofEntries l₁ ∧ ∀ e' ∈ l₂, e'.1 ≠ e.1 := by
  induction l₂ using List.reverseRecOn with
  | nil =>
      rw [List.append_nil] at h
      exact Or.inr ⟨h, List.forall_mem_nil _⟩
  | append_singleton l₂ e' ih =>
      rw [← List.append_assoc, ofEntries_concat, mem_assign] at h
      rcases h with ⟨h, hne⟩ | rfl
      · rcases ih h with h | ⟨h, hall⟩
        · exact Or.inl (List.mem_append_left _ h)
        · refine Or.inr ⟨h, fun e'' he'' => ?_⟩
          rcases List.mem_append.1 he'' with he'' | he''
          · exact hall e'' he''
          · rw [List.mem_singleton.1 he'']
            exact hne.symm
      · exact Or.inl (List.mem_append_right _ (.head _))

theorem mem_of_mem_ofEntries {e : κ × ν} (h : e ∈ ofEntries l) : e ∈ l := by
  rw [← List.nil_append l] at h
  rcases mem_ofEntries_append h with h | ⟨h, -⟩
  · exact h
  · cases h

/-- Every key that was assigned is in the map. -/
theorem key_mem_ofEntries {e : κ × ν} (h : e ∈ l) : ∃ e' ∈ ofEntries l, e'.1 = e.1 := by
  induction l using List.reverseRecOn with
  | nil => cases h
  | append_singleton l e' ih =>
      rw [ofEntries_concat]
      by_cases hkey : e.1 = e'.1
      · exact ⟨e', mem_assign.2 (Or.inr rfl), hkey.symm⟩
      · rcases List.mem_append.1 h with h | h
        · obtain ⟨e'', he'', heq⟩ := ih h
          exact ⟨e'', mem_assign.2 (Or.inl ⟨he'', heq ▸ hkey⟩), heq⟩
        · exact absurd (congrArg Prod.fst (List.mem_singleton.1 h)) hkey

/-- The value of a key. -/
def value (m : List (κ × ν)) (k : κ) : Option ν := (m.find? (·.1 = k)).map Prod.snd

theorem value_eq_some_iff (h : (m.map Prod.fst).Nodup) : value m k = some v ↔ (k, v) ∈ m := by
  rw [value, Option.map_eq_some_iff]
  constructor
  · rintro ⟨e, he, rfl⟩
    have hkey := List.find?_some he
    rw [decide_eq_true_eq] at hkey
    rw [← hkey]
    exact List.mem_of_find?_eq_some he
  · intro hmem
    cases hfind : m.find? (·.1 = k) with
    | none =>
        have hnone := List.find?_eq_none.1 hfind (k, v) hmem
        exact absurd (decide_eq_true rfl) hnone
    | some e =>
        have hkey := List.find?_some hfind
        rw [decide_eq_true_eq] at hkey
        have he := List.mem_of_find?_eq_some hfind
        refine ⟨e, rfl, ?_⟩
        rw [← Prod.eta e, hkey] at he
        exact eq_of_mem_of_mem h he hmem

theorem value_eq_none_iff : value m k = none ↔ ∀ e ∈ m, e.1 ≠ k := by
  rw [value, Option.map_eq_none_iff, List.find?_eq_none]
  simp

/-- The order of the pairs does not matter. -/
theorem value_perm (h : (m.map Prod.fst).Nodup) (hperm : l.Perm m) : value l k = value m k := by
  have hl : (l.map Prod.fst).Nodup := (hperm.map Prod.fst).nodup_iff.2 h
  refine Option.ext fun v => ?_
  rw [value_eq_some_iff h, value_eq_some_iff hl, hperm.mem_iff]

/-- Entries of the second list come first. -/
theorem value_ofEntries_append {l₁ l₂ : List (κ × ν)} (h₁ : (l₁.map Prod.fst).Nodup)
    (h₂ : (l₂.map Prod.fst).Nodup) (k : κ) :
    value (ofEntries (l₁ ++ l₂)) k = (value l₂ k).or (value l₁ k) := by
  have hnodup := nodup_ofEntries (l₁ ++ l₂)
  cases hv : value l₂ k with
  | some v =>
      have hmem := (value_eq_some_iff h₂).1 hv
      obtain ⟨e, he, hkey⟩ := key_mem_ofEntries (l := l₁ ++ l₂) (List.mem_append_right l₁ hmem)
      rcases mem_ofEntries_append he with he' | ⟨-, hall⟩
      · rw [← Prod.eta e, hkey] at he he'
        rw [eq_of_mem_of_mem h₂ hmem he']
        exact (value_eq_some_iff hnodup).2 he
      · exact absurd hkey.symm (hall _ hmem)
  | none =>
      rw [Option.none_or]
      have hnone := value_eq_none_iff.1 hv
      cases hv' : value l₁ k with
      | some v =>
          have hmem := (value_eq_some_iff h₁).1 hv'
          obtain ⟨e, he, hkey⟩ :=
            key_mem_ofEntries (l := l₁ ++ l₂) (List.mem_append_left l₂ hmem)
          rcases List.mem_append.1 (mem_of_mem_ofEntries he) with he' | he'
          · rw [← Prod.eta e, hkey] at he he'
            rw [eq_of_mem_of_mem h₁ hmem he']
            exact (value_eq_some_iff hnodup).2 he
          · exact absurd hkey (hnone e he')
      | none =>
          rw [value_eq_none_iff]
          intro e he
          rcases List.mem_append.1 (mem_of_mem_ofEntries he) with he' | he'
          · exact value_eq_none_iff.1 hv' e he'
          · exact hnone e he'

/-- Values that are changed or left out. -/
theorem value_filterMap {μ : Type} (h : (m.map Prod.fst).Nodup) (f : ν → Option μ) (k : κ) :
    ((m.filterMap fun e => (f e.2).map fun v => (e.1, v)).map Prod.fst).Nodup ∧
      value (m.filterMap fun e => (f e.2).map fun v => (e.1, v)) k = (value m k).bind f := by
  induction m with
  | nil => exact ⟨List.nodup_nil, rfl⟩
  | cons e m ih =>
      rw [List.map_cons, List.nodup_cons] at h
      obtain ⟨hnodup, hvalue⟩ := ih h.2
      have hkeys : ∀ x ∈ m.filterMap fun e => (f e.2).map fun v => (e.1, v), x.1 ≠ e.1 := by
        intro x hx heq
        obtain ⟨y, hy, hxy⟩ := List.mem_filterMap.1 hx
        obtain ⟨v, -, rfl⟩ := Option.map_eq_some_iff.1 hxy
        exact h.1 (List.mem_map.2 ⟨y, hy, heq⟩)
      by_cases hkey : e.1 = k
      · have hhead : value (e :: m) k = some e.2 := by simp [value, hkey]
        have hnone : value (m.filterMap fun e => (f e.2).map fun v => (e.1, v)) k = none :=
          value_eq_none_iff.2 fun x hx => hkey ▸ hkeys x hx
        rw [hhead, Option.bind_some, List.filterMap_cons]
        cases hf : f e.2 with
        | none => exact ⟨hnodup, hnone⟩
        | some v =>
            refine ⟨?_, by simp [value, hkey]⟩
            rw [Option.map_some, List.map_cons, List.nodup_cons]
            refine ⟨fun hmem => ?_, hnodup⟩
            obtain ⟨x, hx, heq⟩ := List.mem_map.1 hmem
            exact hkeys x hx heq
      · have hhead : value (e :: m) k = value m k := by simp [value, hkey]
        rw [hhead, List.filterMap_cons]
        cases hf : f e.2 with
        | none => exact ⟨hnodup, hvalue⟩
        | some v =>
            refine ⟨?_, ?_⟩
            · rw [Option.map_some, List.map_cons, List.nodup_cons]
              refine ⟨fun hmem => ?_, hnodup⟩
              obtain ⟨x, hx, heq⟩ := List.mem_map.1 hmem
              exact hkeys x hx heq
            · rw [← hvalue]
              simp [value, hkey]

end DazeApi.Assoc
