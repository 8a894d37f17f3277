import Mathlib.Data.List.AList
import Mathlib.Data.List.GetD

/-!
# Lists by position

A list of values can be kept as a map from positions that leaves positions out where the
value is a default.  `Matches d S xs` says that the map `S` stands for the list `xs`, and the
laws say how the map follows a change of the list.  `LastAt P l i` says where the last entry
that passes `P` is, and the laws say how that follows a new entry.
-/

namespace Positions

section

variable {α β : Type*} {f : α → β} {g : α → α} {b : β}

/-- A change at a position that a function does not see. -/
theorem map_modify_of_eq (h : ∀ a, f (g a) = f a) :
    ∀ (l : List α) (i : Nat), (l.modify i g).map f = l.map f
  | [], i => by simp
  | a :: l, 0 => by simp [h]
  | a :: l, i + 1 => by simp [map_modify_of_eq h l i]

/-- A change at a position that a function sees as one value. -/
theorem map_modify_of_const (h : ∀ a, f (g a) = b) :
    ∀ (l : List α) (i : Nat), (l.modify i g).map f = (l.map f).set i b
  | [], i => by simp
  | a :: l, 0 => by simp [h]
  | a :: l, i + 1 => by simp [map_modify_of_const h l i]

theorem getD_replicate (d : β) (n j : Nat) : (List.replicate n d).getD j d = d := by
  rw [List.getD_eq_getElem?_getD, List.getElem?_getD_replicate_default_eq]

theorem getD_append_replicate (d : β) (xs : List β) (n j : Nat) :
    (xs ++ List.replicate n d).getD j d = xs.getD j d := by
  rcases Nat.lt_or_ge j xs.length with hj | hj
  · exact List.getD_append _ _ _ _ hj
  · rw [List.getD_append_right _ _ _ _ hj, getD_replicate, List.getD_eq_default _ _ hj]

end

/-! ## The last entry of a kind -/

section

variable {α : Type*} {P : α → Prop} {l : List α} {x : α} {i : Nat}

theorem get_snoc {j : Nat} {a : α} :
    (l ++ [x])[j]? = some a ↔ l[j]? = some a ∨ j = l.length ∧ x = a := by
  rcases Nat.lt_trichotomy j l.length with hj | rfl | hj
  · rw [List.getElem?_append_left hj]
    exact (or_iff_left fun h => Nat.ne_of_lt hj h.1).symm
  · simp
  · rw [List.getElem?_eq_none (by simp; omega), List.getElem?_eq_none (Nat.le_of_lt hj)]
    simp [Nat.ne_of_gt hj]

/-- The last entry that passes `P` is at a position. -/
structure LastAt (P : α → Prop) (l : List α) (i : Nat) : Prop where
  entry : ∃ a, l[i]? = some a ∧ P a
  last : ∀ (j : Nat) (a : α), l[j]? = some a → P a → j ≤ i

theorem not_lastAt_nil : ¬ LastAt P [] i := by
  rintro ⟨⟨a, ha, -⟩, -⟩
  cases ha

/-- A new entry that passes is the last. -/
theorem lastAt_snoc_of_pos (hx : P x) : LastAt P (l ++ [x]) i ↔ l.length = i := by
  constructor
  · intro h
    obtain ⟨a, ha, -⟩ := h.entry
    refine le_antisymm (h.last l.length x (get_snoc.2 (Or.inr ⟨rfl, rfl⟩)) hx) ?_
    rcases get_snoc.1 ha with hold | ⟨rfl, -⟩
    · exact Nat.le_of_lt (List.getElem?_eq_some_iff.1 hold).1
    · exact le_refl _
  · rintro rfl
    refine ⟨⟨x, get_snoc.2 (Or.inr ⟨rfl, rfl⟩), hx⟩, fun j a hj _ => ?_⟩
    rcases get_snoc.1 hj with hold | ⟨rfl, -⟩
    · exact Nat.le_of_lt (List.getElem?_eq_some_iff.1 hold).1
    · exact le_refl _

/-- A new entry that does not pass changes nothing. -/
theorem lastAt_snoc_of_neg (hx : ¬ P x) : LastAt P (l ++ [x]) i ↔ LastAt P l i := by
  have hget : ∀ {j : Nat} {a : α}, P a → ((l ++ [x])[j]? = some a ↔ l[j]? = some a) := by
    intro j a ha
    refine get_snoc.trans (or_iff_left ?_)
    rintro ⟨-, rfl⟩
    exact hx ha
  constructor
  · rintro ⟨⟨a, hi, ha⟩, hlast⟩
    exact ⟨⟨a, (hget ha).1 hi, ha⟩, fun j b hj hb => hlast j b ((hget hb).2 hj) hb⟩
  · rintro ⟨⟨a, hi, ha⟩, hlast⟩
    exact ⟨⟨a, (hget ha).2 hi, ha⟩, fun j b hj hb => hlast j b ((hget hb).1 hj) hb⟩

end

section

variable {β : Type*} {d : β} {S : AList fun _ : Int => β} {xs : List β}

/-- The map has no position beyond the list, and the values of the list. -/
structure Matches (d : β) (S : AList fun _ : Int => β) (xs : List β) : Prop where
  range : ∀ i ∈ S, i < xs.length
  lookup : ∀ j : Nat, (S.lookup (j : Int)).getD d = xs.getD j d

theorem matches_empty (d : β) (n : Nat) : Matches d ∅ (List.replicate n d) := by
  refine ⟨fun i hi => absurd hi (AList.notMem_empty i), fun j => ?_⟩
  rw [AList.lookup_empty, getD_replicate]
  rfl

theorem Matches.insert (h : Matches d S xs) {i : Nat} (hi : i < xs.length) (x : β) :
    Matches d (S.insert (i : Int) x) (xs.set i x) := by
  refine ⟨?_, ?_⟩
  · intro k hk
    rw [List.length_set]
    rcases AList.mem_insert S |>.1 hk with rfl | hk
    · omega
    · exact h.range k hk
  · intro j
    by_cases hj : j = i
    · subst hj
      simp [AList.lookup_insert, List.getD_eq_getElem?_getD, hi]
    · have hne : (j : Int) ≠ (i : Int) := by omega
      have hne' : ¬ i = j := fun hij => hj hij.symm
      rw [AList.lookup_insert_ne hne, h.lookup j]
      simp [List.getD_eq_getElem?_getD, hne']

theorem Matches.erase (h : Matches d S xs) (i : Nat) :
    Matches d (S.erase (i : Int)) (xs.set i d) := by
  refine ⟨?_, ?_⟩
  · intro k hk
    rw [List.length_set]
    exact h.range k (AList.mem_erase.1 hk).2
  · intro j
    by_cases hj : j = i
    · subst hj
      simp only [AList.lookup_erase, List.getD_eq_getElem?_getD, List.getElem?_set, if_true]
      split <;> rfl
    · have hne : (j : Int) ≠ (i : Int) := by omega
      have hne' : ¬ i = j := fun hij => hj hij.symm
      rw [AList.lookup_erase_ne hne, h.lookup j]
      simp [List.getD_eq_getElem?_getD, hne']

/-- More positions at the end have the default. -/
theorem Matches.append (h : Matches d S xs) (n : Nat) : Matches d S (xs ++ List.replicate n d) := by
  refine ⟨?_, ?_⟩
  · intro i hi
    have hlt := h.range i hi
    rw [List.length_append]
    omega
  · intro j
    rw [h.lookup j, getD_append_replicate]

/-- One more value at the end. -/
theorem Matches.push [DecidableEq β] (h : Matches d S xs) (x : β) :
    Matches d (if x ≠ d then S.insert (xs.length : Int) x else S) (xs ++ [x]) := by
  have hone := h.append 1
  split
  next =>
    have hset := hone.insert (i := xs.length) (by simp) x
    simpa using hset
  next hx =>
    have heq : x = d := by simpa using hx
    simpa [heq] using hone

/-! ## Cutting a map -/

/-- The positions from a size on are erased, as far as they are in a list. -/
def cut (size : Int) (ks : List Int) (S : AList fun _ : Int => β) : AList fun _ : Int => β :=
  ks.foldl (fun l i => if size ≤ i then l.erase i else l) S

theorem mem_cut {size : Int} :
    ∀ (ks : List Int) (S : AList fun _ : Int => β) (i : Int),
      i ∈ cut size ks S ↔ i ∈ S ∧ ¬ (i ∈ ks ∧ size ≤ i)
  | [], S, i => by simp [cut]
  | k :: ks, S, i => by
      rw [cut, List.foldl_cons, ← cut, mem_cut ks]
      split
      next hk =>
        rw [AList.mem_erase]
        by_cases hik : i = k <;> simp [hik, hk]
      next hk =>
        by_cases hik : i = k <;> simp [hik, hk]

theorem lookup_cut {size : Int} :
    ∀ (ks : List Int) (S : AList fun _ : Int => β) (i : Int), i < size →
      (cut size ks S).lookup i = S.lookup i
  | [], _, _, _ => rfl
  | k :: ks, S, i, hi => by
      rw [cut, List.foldl_cons, ← cut, lookup_cut ks _ i hi]
      split
      next hk =>
        have hne : i ≠ k := by omega
        exact AList.lookup_erase_ne hne
      next => rfl

/-- What is left of a map below the size. -/
theorem matches_cut (xs : List β)
    (hlook : ∀ j : Nat, j < xs.length → (S.lookup (j : Int)).getD d = xs.getD j d) :
    Matches d (cut xs.length S.keys S) xs := by
  refine ⟨?_, ?_⟩
  · intro i hi
    obtain ⟨hS, hcut⟩ := (mem_cut _ _ _).1 hi
    by_contra hge
    exact hcut ⟨AList.mem_keys.2 hS, by omega⟩
  · intro j
    by_cases hj : j < xs.length
    · rw [lookup_cut _ _ _ (by omega)]
      exact hlook j hj
    · have hnot : (j : Int) ∉ cut xs.length S.keys S := by
        intro hmem
        obtain ⟨hS, hcut⟩ := (mem_cut _ _ _).1 hmem
        exact hcut ⟨AList.mem_keys.2 hS, by omega⟩
      rw [AList.lookup_eq_none.2 hnot, List.getD_eq_getElem?_getD,
        List.getElem?_eq_none (by omega)]

end

end Positions
