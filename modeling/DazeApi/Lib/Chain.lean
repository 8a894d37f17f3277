import Mathlib.Data.List.Nodup
import Mathlib.Data.List.Perm.Subperm
import Mathlib.Logic.Relation

/-!
# Chains of a partial function

From a value a chain goes on to its image, and from there to the image of that.  It ends
at a value that has no image or is its own, or it comes to a cycle.  A walk that notes the
values that it has visited finds out which, if finitely many values have an image
(`follow_iff`).
-/

universe u

namespace Chain

variable {α : Type u} {f : α → Option α} {x y z : α}

def Step (f : α → Option α) (x y : α) : Prop := f x = some y

/-- The chain from the first value comes to the second one. -/
abbrev Reaches (f : α → Option α) : α → α → Prop := Relation.ReflTransGen (Step f)

def Final (f : α → Option α) (x : α) : Prop := f x = none ∨ f x = some x

/-- The chain from the first value ends at the second one. -/
structure Ends (f : α → Option α) (x y : α) : Prop where
  reaches : Reaches f x y
  final : Final f y

/-- The chain comes to a cycle of two values or more. -/
def Cyclic (f : α → Option α) (x : α) : Prop :=
  ∃ y z, Reaches f x y ∧ f y = some z ∧ z ≠ y ∧ Reaches f z y

theorem rightUnique_step (f : α → Option α) : Relator.RightUnique (Step f) := by
  intro x y z hy hz
  exact Option.some.inj (hy.symm.trans hz)

theorem Final.eq_of_reaches (hx : Final f x) (h : Reaches f x y) : y = x := by
  induction h with
  | refl => rfl
  | tail _ hstep ih =>
      subst ih
      rcases hx with hnone | hself
      · cases hnone.symm.trans hstep
      · exact Option.some.inj (hstep.symm.trans hself)

theorem Ends.unique (hy : Ends f x y) (hz : Ends f x z) : y = z := by
  rcases Relation.ReflTransGen.total_of_right_unique (rightUnique_step f) hy.reaches hz.reaches with
    h | h
  · exact (hy.final.eq_of_reaches h).symm
  · exact hz.final.eq_of_reaches h

/-- What a cycle comes to lies on it. -/
theorem reaches_back (hstep : f x = some z) (hback : Reaches f z x) (h : Reaches f x y) :
    Reaches f y x := by
  induction h with
  | refl => exact .refl
  | tail _ hlast ih =>
      rcases ih.cases_head with heq | ⟨w, hw, hrest⟩
      · subst heq
        rwa [rightUnique_step f hlast hstep]
      · rwa [rightUnique_step f hlast hw]

theorem Ends.not_cyclic (h : Ends f x y) : ¬ Cyclic f x := by
  rintro ⟨u, v, hu, hstep, hne, hback⟩
  have huy : Reaches f u y := by
    rcases Relation.ReflTransGen.total_of_right_unique (rightUnique_step f) h.reaches hu with hy | hy
    · rw [h.final.eq_of_reaches hy]
    · exact hy
  have heq := h.final.eq_of_reaches (reaches_back hstep hback huy)
  subst heq
  exact hne (h.final.eq_of_reaches (.single hstep))

section

variable [DecidableEq α] {visited dom : List α} {n : Nat}

/-- The walk from a value, with what it has visited: the end of the chain, or nothing where
it comes to a cycle.  It takes a bounded number of steps. -/
def follow (f : α → Option α) : Nat → List α → α → Option (Option α)
  | 0, _, _ => none
  | n + 1, visited, x =>
      match f x with
      | none => some (some x)
      | some y =>
          if y ∈ visited then if y = x then some (some x) else some none
          else follow f n (y :: visited) y

theorem spec_follow {r : Option α} (hvisited : ∀ v ∈ visited, Reaches f v x)
    (h : follow f n visited x = some r) :
    (∀ y, r = some y → Ends f x y) ∧ (r = none → Cyclic f x) := by
  induction n generalizing visited x with
  | zero => cases h
  | succ n ih =>
      rw [follow] at h
      split at h
      next hx =>
        cases h
        exact ⟨fun y hy => Option.some.inj hy ▸ ⟨.refl, .inl hx⟩, nofun⟩
      next y hx =>
        split at h
        next hmem =>
          split at h
          next heq =>
            subst heq
            cases h
            exact ⟨fun z hz => Option.some.inj hz ▸ ⟨.refl, .inr hx⟩, nofun⟩
          next hne =>
            cases h
            exact ⟨nofun, fun _ => ⟨x, y, .refl, hx, hne, hvisited y hmem⟩⟩
        next hnew =>
          have hall : ∀ v ∈ y :: visited, Reaches f v y := by
            intro v hv
            rcases List.mem_cons.1 hv with rfl | hv
            · exact .refl
            · exact (hvisited v hv).tail hx
          obtain ⟨hends, hcyclic⟩ := ih hall h
          refine ⟨fun z hz => ?_, fun hr => ?_⟩
          · obtain ⟨hreach, hfinal⟩ := hends z hz
            exact ⟨.head hx hreach, hfinal⟩
          · obtain ⟨u, v, hu, hrest⟩ := hcyclic hr
            exact ⟨u, v, .head hx hu, hrest⟩

/-- The walk comes to an end: all that it has visited has an image, except for the last. -/
theorem exists_follow (hdom : ∀ x, f x ≠ none → x ∈ dom) (hnodup : visited.Nodup)
    (hvisited : ∀ v ∈ visited, v = x ∨ v ∈ dom) (hn : dom.length + 2 ≤ n + visited.length) :
    ∃ r, follow f n visited x = some r := by
  induction n generalizing visited x with
  | zero =>
      have hsub : visited ⊆ x :: dom := fun v hv => List.mem_cons.2 (hvisited v hv)
      have hle := (hnodup.subperm hsub).length_le
      rw [List.length_cons] at hle
      omega
  | succ n ih =>
      rw [follow]
      split
      next => exact ⟨_, rfl⟩
      next y hx =>
        split
        next =>
          split
          next => exact ⟨_, rfl⟩
          next => exact ⟨_, rfl⟩
        next hnew =>
          refine ih (List.nodup_cons.2 ⟨hnew, hnodup⟩) ?_ (by rw [List.length_cons]; omega)
          intro v hv
          rcases List.mem_cons.1 hv with rfl | hv
          · exact Or.inl rfl
          · rcases hvisited v hv with rfl | hv
            · exact Or.inr (hdom v (by simp [hx]))
            · exact Or.inr hv

theorem exists_follow_start (hdom : ∀ x, f x ≠ none → x ∈ dom) (x : α) :
    ∃ r, follow f (dom.length + 1) [x] x = some r :=
  exists_follow hdom (List.nodup_singleton x) (fun _ hv => Or.inl (List.mem_singleton.1 hv))
    (by simp)

/-- The walk tells whether and where the chain ends. -/
theorem follow_iff (hdom : ∀ x, f x ≠ none → x ∈ dom) (x : α) :
    (follow f (dom.length + 1) [x] x = some none ↔ Cyclic f x) ∧
      ∀ y, follow f (dom.length + 1) [x] x = some (some y) ↔ Ends f x y := by
  have hstart : ∀ v ∈ [x], Reaches f v x := by
    intro v hv
    rw [List.mem_singleton.1 hv]
  obtain ⟨r, hr⟩ := exists_follow_start hdom x
  obtain ⟨hends, hcyclic⟩ := spec_follow hstart hr
  cases r with
  | none =>
      refine ⟨⟨fun _ => hcyclic rfl, fun _ => hr⟩, fun y => ⟨fun h => ?_, fun h => ?_⟩⟩
      · cases hr.symm.trans h
      · exact absurd (hcyclic rfl) h.not_cyclic
  | some z =>
      refine ⟨⟨fun h => ?_, fun h => ?_⟩, fun y => ⟨fun h => ?_, fun h => ?_⟩⟩
      · cases hr.symm.trans h
      · exact absurd h (hends z rfl).not_cyclic
      · cases hr.symm.trans h
        exact hends z rfl
      · rw [hr, (hends z rfl).unique h]

end

end Chain
