import Mathlib.Algebra.GroupWithZero.Nat
import Mathlib.Data.List.Nodup

/-!
# Tables with a primary key

A table is a list of rows in which no two rows have the same key.  The operations are
those of a statement that names its rows by a condition: `update` keeps the keys, `delete`
drops rows, and `insert` fails on a key that is taken.  `find` looks a row up by its key,
and every operation has a lemma that says what `find` gives after it.
-/

universe u v

/-- The rows of a table, with distinct keys. -/
structure Table {ρ : Type u} {κ : Type v} (key : ρ → κ) where
  rows : List ρ
  nodup : (rows.map key).Nodup

namespace Table

variable {ρ : Type u} {κ : Type v} [DecidableEq κ] {key : ρ → κ}

def empty : Table key := ⟨[], List.nodup_nil⟩

/-- The row with a key. -/
def find (t : Table key) (k : κ) : Option ρ := t.rows.find? fun r => key r = k

/-- Every row is changed, and keeps its key. -/
def update (t : Table key) (f : ρ → ρ) (hf : ∀ r, key (f r) = key r) : Table key where
  rows := t.rows.map f
  nodup := by
    rw [List.map_map]
    have hkey : key ∘ f = key := funext hf
    rw [hkey]
    exact t.nodup

/-- The rows that meet the condition are dropped. -/
def delete (t : Table key) (p : ρ → Bool) : Table key where
  rows := t.rows.filter fun r => !p r
  nodup := t.nodup.sublist (List.filter_sublist.map key)

theorem mem_of_find {t : Table key} {k : κ} {r : ρ} (h : t.find k = some r) : r ∈ t.rows :=
  List.mem_of_find?_eq_some h

theorem key_of_find {t : Table key} {k : κ} {r : ρ} (h : t.find k = some r) : key r = k := by
  simpa using List.find?_some h

theorem find_of_mem {t : Table key} {r : ρ} (h : r ∈ t.rows) : t.find (key r) = some r := by
  obtain ⟨q, hq⟩ := Option.isSome_iff_exists.1
    (List.find?_isSome (p := fun q => decide (key q = key r)) |>.2 ⟨r, h, by simp⟩)
  have hkey : key q = key r := by simpa using List.find?_some hq
  have hqr := List.inj_on_of_nodup_map t.nodup (List.mem_of_find?_eq_some hq) h hkey
  rw [find, hq, hqr]

theorem find_eq_some_iff {t : Table key} {k : κ} {r : ρ} :
    t.find k = some r ↔ r ∈ t.rows ∧ key r = k := by
  constructor
  · intro h
    exact ⟨mem_of_find h, key_of_find h⟩
  · rintro ⟨hr, rfl⟩
    exact find_of_mem hr

/-- What holds of every row that is found holds of every row. -/
theorem forall_find_iff {t : Table key} {P : ρ → Prop} :
    (∀ k r, t.find k = some r → P r) ↔ ∀ r ∈ t.rows, P r := by
  constructor
  · intro h r hr
    exact h (key r) r (find_of_mem hr)
  · intro h k r hr
    exact h r (mem_of_find hr)

theorem key_not_mem_of_find_none {t : Table key} {k : κ} (h : t.find k = none) :
    k ∉ t.rows.map key := by
  intro hk
  obtain ⟨r, hr, rfl⟩ := List.mem_map.1 hk
  rw [find_of_mem hr] at h
  cases h

/-- A row is added, unless its key is taken. -/
def insert (t : Table key) (r : ρ) : Option (Table key) :=
  if h : t.find (key r) = none then
    some ⟨t.rows ++ [r], by
      rw [List.map_append, List.map_singleton, ← List.concat_eq_append]
      exact t.nodup.concat (key_not_mem_of_find_none h)⟩
  else none

@[simp] theorem find_empty (k : κ) : (empty : Table key).find k = none := rfl

theorem find_update (t : Table key) (f : ρ → ρ) (hf : ∀ r, key (f r) = key r) (k : κ) :
    (t.update f hf).find k = (t.find k).map f := by
  simp only [find, update, List.find?_map]
  have hkey : (fun r => decide (key r = k)) ∘ f = fun r => decide (key r = k) := by
    funext r
    simp [hf]
  rw [hkey]

theorem find_delete (t : Table key) (p : ρ → Bool) (k : κ) :
    (t.delete p).find k = (t.find k).filter fun r => !p r := by
  ext r
  simp [find_eq_some_iff, Option.filter_eq_some_iff, delete]
  tauto

theorem insert_eq_some {t t' : Table key} {r : ρ} (h : t.insert r = some t') :
    t.find (key r) = none ∧ ∀ k, t'.find k = if k = key r then some r else t.find k := by
  simp only [insert] at h
  split at h
  next hnone =>
    cases h
    refine ⟨hnone, ?_⟩
    intro k
    simp only [find, List.find?_append]
    by_cases hk : k = key r
    · subst hk
      have hnone' : t.rows.find? (fun q => decide (key q = key r)) = none := hnone
      simp [hnone']
    · have hne : ¬ key r = k := fun h => hk h.symm
      simp [hk, hne]
  next => cases h

/-- Of a sum over the rows with a key there is only the row that `find` gives. -/
theorem sum_find (t : Table key) (f : ρ → Nat) (k : κ) :
    (t.rows.map fun r => if k = key r then f r else 0).sum = ((t.find k).map f).getD 0 := by
  obtain ⟨rows, hnodup⟩ := t
  simp only [find]
  induction rows with
  | nil => simp
  | cons r rows ih =>
      obtain ⟨hr, hrows⟩ := List.nodup_cons.1 hnodup
      rw [List.map_cons, List.sum_cons, ih hrows]
      by_cases hk : key r = k
      · have hnone : rows.find? (fun q => decide (key q = k)) = none := by
          rw [List.find?_eq_none]
          intro q hq hqk
          exact hr (List.mem_map.2 ⟨q, hq, (of_decide_eq_true hqk).trans hk.symm⟩)
        simp [hk, hnone]
      · have hne : ¬ k = key r := fun h => hk h.symm
        simp [hk, hne]

end Table
