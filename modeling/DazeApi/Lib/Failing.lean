import Mathlib.Data.List.Basic

/-!
# Loops that fail

A loop of steps that may fail has the failure of its first step that fails.
-/

namespace DazeApi.Failing

variable {ε α β σ : Type}

theorem not_exists_ok (e : ε) : ¬ ∃ a : α, Except.error e = .ok a := by
  rintro ⟨_, h⟩
  cases h

theorem bind_eq_ok {x : Except ε α} {f : α → Except ε β} {b : β}
    (h : x >>= f = .ok b) : ∃ a, x = .ok a ∧ f a = .ok b := by
  cases x with
  | ok a => exact ⟨a, rfl, h⟩
  | error e => cases h

def errorOf : Except ε α → Option ε
  | .ok _ => none
  | .error e => some e

theorem errorOf_eq_some_iff {x : Except ε α} {e : ε} : errorOf x = some e ↔ x = .error e := by
  cases x with
  | ok a => exact iff_of_false (Option.some_ne_none e).symm fun h => nomatch h
  | error e' => simp [errorOf]

/-- What follows a step that fails only as `g` says. -/
theorem errorOf_bind {x : Except ε α} {f : α → Except ε β} {g : Option ε}
    (h : ∀ a, x = .ok a → errorOf (f a) = g) :
    errorOf (x >>= f) = (errorOf x).or g := by
  cases x with
  | ok a => exact h a rfl
  | error e => rfl

theorem errorOf_foldlM {f : σ → α → Except ε σ} {g : α → Option ε} {l : List α}
    (h : ∀ s, ∀ a ∈ l, errorOf (f s a) = g a) (s : σ) :
    errorOf (l.foldlM f s) = l.findSome? g := by
  induction l generalizing s with
  | nil => rfl
  | cons a l ih =>
      rw [List.foldlM_cons, errorOf_bind fun t _ => ih (fun s b hb => h s b (.tail a hb)) t,
        h s a (.head l), List.findSome?_cons]
      cases g a <;> rfl

theorem errorOf_mapM (f : α → Except ε β) (l : List α) :
    errorOf (l.mapM f) = l.findSome? fun a => errorOf (f a) := by
  induction l with
  | nil => rfl
  | cons a l ih =>
      rw [List.mapM_cons, errorOf_bind (g := l.findSome? fun a => errorOf (f a)),
        List.findSome?_cons]
      · cases errorOf (f a) <;> rfl
      · intro b _
        rw [errorOf_bind (g := none), ih, Option.or_none]
        exact fun _ _ => rfl

theorem mapM_error {f : α → Except ε β} {l : List α} (h : ∃ a ∈ l, ∃ e, f a = .error e) :
    ∃ e, l.mapM f = .error e := by
  obtain ⟨a, ha, e, he⟩ := h
  cases hfound : l.findSome? fun a => errorOf (f a) with
  | some e' =>
      rw [← errorOf_mapM, errorOf_eq_some_iff] at hfound
      exact ⟨e', hfound⟩
  | none =>
      have hnone := List.findSome?_eq_none_iff.1 hfound a ha
      rw [he] at hnone
      cases hnone

theorem mapM_ok {f : α → Except ε β} {g : α → β} {l : List α} (h : ∀ a ∈ l, f a = .ok (g a)) :
    l.mapM f = .ok (l.map g) := by
  induction l with
  | nil => rfl
  | cons a l ih =>
      obtain ⟨ha, hl⟩ := List.forall_mem_cons.1 h
      rw [List.mapM_cons, ha, ih hl]
      rfl

/-- A failure is not met if every step that has it is behind one with another failure. -/
theorem findSome?_ne_some_iff {f : α → Option ε} {l : List α} {e : ε} :
    l.findSome? f ≠ some e ↔
      ∀ before a after, l = before ++ a :: after → f a = some e →
        ∃ b ∈ before, ∃ e' ≠ e, f b = some e' := by
  constructor
  · rintro h before a after rfl ha
    rw [List.findSome?_append, List.findSome?_cons, ha] at h
    cases hbefore : before.findSome? f with
    | none => exact absurd (by rw [hbefore]; rfl) h
    | some e' =>
        obtain ⟨b, hb, hb'⟩ := List.exists_of_findSome?_eq_some hbefore
        refine ⟨b, hb, e', ?_, hb'⟩
        rintro rfl
        exact h (by rw [hbefore]; rfl)
  · intro h heq
    obtain ⟨before, a, after, hl, ha, hbefore⟩ := List.findSome?_eq_some_iff.1 heq
    obtain ⟨b, hb, e', -, hb'⟩ := h before a after hl ha
    rw [hbefore b hb] at hb'
    cases hb'

theorem findSome?_congr {f g : α → Option ε} {l : List α} (h : ∀ a ∈ l, f a = g a) :
    l.findSome? f = l.findSome? g := by
  induction l with
  | nil => rfl
  | cons a l ih =>
      obtain ⟨ha, hl⟩ := List.forall_mem_cons.1 h
      rw [List.findSome?_cons, List.findSome?_cons, ha, ih hl]

theorem findSome?_flatMap (f : α → List β) (g : β → Option ε) (l : List α) :
    (l.flatMap f).findSome? g = l.findSome? fun a => (f a).findSome? g := by
  induction l with
  | nil => rfl
  | cons a l ih =>
      rw [List.flatMap_cons, List.findSome?_append, ih, List.findSome?_cons]
      cases (f a).findSome? g <;> rfl

end DazeApi.Failing
