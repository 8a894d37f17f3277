import Mathlib.Data.List.Forall2

/-!
# Lists of pieces

A list that is put together from the images of another one is compared piece by piece.
-/

namespace DazeApi.Pieces

variable {α β γ : Type}

theorem forall₂_append_iff {p : α → β → Prop} {as as' : List α} {bs bs' : List β}
    (hlen : as.length = bs.length) :
    List.Forall₂ p (as ++ as') (bs ++ bs') ↔ List.Forall₂ p as bs ∧ List.Forall₂ p as' bs' := by
  induction as generalizing bs with
  | nil =>
      rw [List.length_eq_zero_iff.1 hlen.symm]
      simp
  | cons a as ih =>
      cases bs with
      | nil => cases hlen
      | cons b bs =>
          simp only [List.cons_append, List.forall₂_cons, ih (Nat.succ.inj hlen), and_assoc]

theorem eq_of_forall₂ {R : α → α → Prop} {l l' : List α} (h : List.Forall₂ R l l')
    (heq : ∀ x ∈ l, ∀ y, R x y → y = x) : l' = l := by
  induction h with
  | nil => rfl
  | cons hxy _ ih =>
      obtain ⟨hx, hl⟩ := List.forall_mem_cons.1 heq
      rw [hx _ hxy, ih hl]

theorem exists_of_forall₂ {R : α → α → Prop} {l l' : List α} {y : α}
    (h : List.Forall₂ R l l') (hy : y ∈ l') : ∃ x ∈ l, R x y := by
  induction h with
  | nil => cases hy
  | cons hxy _ ih =>
      cases hy with
      | head => exact ⟨_, .head _, hxy⟩
      | tail _ hy =>
          obtain ⟨x, hx, h⟩ := ih hy
          exact ⟨x, .tail _ hx, h⟩

theorem flatMap_filter (p : α → Bool) (f : α → List β) (l : List α) :
    (l.filter p).flatMap f = l.flatMap fun a => if p a then f a else [] := by
  induction l with
  | nil => rfl
  | cons a l ih =>
      rw [List.filter_cons, List.flatMap_cons]
      split
      next => rw [List.flatMap_cons, ih]
      next => rw [ih, List.nil_append]

theorem length_flatMap_le {f g : α → List β} {l : List α}
    (hle : ∀ a ∈ l, (f a).length ≤ (g a).length) :
    (l.flatMap f).length ≤ (l.flatMap g).length := by
  induction l with
  | nil => exact Nat.le_refl 0
  | cons a l ih =>
      rw [List.flatMap_cons, List.flatMap_cons, List.length_append, List.length_append]
      exact Nat.add_le_add (hle a (.head l)) (ih fun b hb => hle b (.tail a hb))

/-- If no piece is longer than its counterpart, the whole is the same only piece by piece. -/
theorem flatMap_eq_flatMap_iff {f g : α → List β} {l : List α}
    (hle : ∀ a ∈ l, (f a).length ≤ (g a).length) :
    l.flatMap f = l.flatMap g ↔ ∀ a ∈ l, f a = g a := by
  refine ⟨fun h => ?_, List.flatMap_congr⟩
  induction l with
  | nil => exact List.forall_mem_nil _
  | cons a l ih =>
      have hrest : ∀ b ∈ l, (f b).length ≤ (g b).length := fun b hb => hle b (.tail a hb)
      rw [List.flatMap_cons, List.flatMap_cons] at h
      have hlen := congrArg List.length h
      rw [List.length_append, List.length_append] at hlen
      have hhead := hle a (.head l)
      have htail := length_flatMap_le hrest
      obtain ⟨heq, heqs⟩ := List.append_inj h (by omega)
      rw [List.forall_mem_cons]
      exact ⟨heq, ih hrest heqs⟩

theorem forall_split_cons {p : List α → α → List α → Prop} {a : α} {l : List α} :
    (∀ before b after, a :: l = before ++ b :: after → p before b after) ↔
      p [] a l ∧ ∀ before b after, l = before ++ b :: after → p (a :: before) b after := by
  constructor
  · intro h
    refine ⟨h [] a l rfl, fun before b after heq => h (a :: before) b after ?_⟩
    rw [heq, List.cons_append]
  · rintro ⟨hhead, htail⟩ before b after heq
    cases before with
    | nil =>
        obtain ⟨rfl, rfl⟩ := List.cons.inj heq
        exact hhead
    | cons c before =>
        obtain ⟨rfl, hrest⟩ := List.cons.inj heq
        exact htail before b after hrest

end DazeApi.Pieces
