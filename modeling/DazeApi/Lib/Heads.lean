import Mathlib.Data.List.Basic
import Mathlib.Data.List.Infix

/-!
# Texts of a head and a free value

A value is any text that neither begins nor ends with a blank.  What is written behind a
head is not marked as the value, so a text that goes on behind the head can be read as part
of the head or of the value.  `Extends h p` says that a value can go on behind `h` as `p`
does; two heads never give one text when neither extends the other (`exists_append_eq_iff`), and a
head never meets a prefix that does not extend it (`exists_prefix_iff`).
-/

universe u

namespace Heads

variable {α : Type u} (blank : α → Bool) {h p v w : List α} {x y : α}

/-- A text that neither begins nor ends with a blank. -/
structure Trimmed (v : List α) : Prop where
  begins : ∃ x t, v = x :: t ∧ blank x = false
  ends : ∃ t x, v = t ++ [x] ∧ blank x = false

/-- The text goes on behind the head, and not with a blank. -/
def Extends (h p : List α) : Prop := ∃ t, p = h ++ t ∧ ∀ x, t.head? = some x → blank x = false

variable {blank}

theorem Trimmed.ne_nil (hv : Trimmed blank v) : v ≠ [] := by
  rintro rfl
  obtain ⟨x, t, heq, -⟩ := hv.begins
  cases heq

theorem trimmed_singleton (hx : blank x = false) : Trimmed blank [x] :=
  ⟨⟨x, [], rfl, hx⟩, ⟨[], x, rfl, hx⟩⟩

/-- A value can be written behind what does not begin with a blank. -/
theorem Trimmed.prepend {t : List α} (hv : Trimmed blank v)
    (ht : ∀ x, t.head? = some x → blank x = false) : Trimmed blank (t ++ v) := by
  obtain ⟨s, y, rfl, hy⟩ := hv.ends
  refine ⟨?_, ⟨t ++ s, y, (List.append_assoc t s [y]).symm, hy⟩⟩
  cases t with
  | nil => exact hv.begins
  | cons x t => exact ⟨x, t ++ (s ++ [y]), rfl, ht x rfl⟩

theorem Trimmed.head_of_append {t : List α} (hv : Trimmed blank (t ++ w)) :
    ∀ x, t.head? = some x → blank x = false := by
  intro x hx
  obtain ⟨y, s, heq, hy⟩ := hv.begins
  cases t with
  | nil => cases hx
  | cons z t =>
      cases heq
      cases hx
      exact hy

/-- Two heads give one text for some values if and only if one of them extends the other. -/
theorem exists_append_eq_iff (hx : blank x = false) :
    (∃ v w, Trimmed blank v ∧ Trimmed blank w ∧ h ++ v = p ++ w) ↔
      Extends blank h p ∨ Extends blank p h := by
  constructor
  · rintro ⟨v, w, hv, hw, heq⟩
    rcases List.append_eq_append_iff.1 heq with ⟨t, rfl, rfl⟩ | ⟨t, rfl, rfl⟩
    · exact Or.inl ⟨t, rfl, hv.head_of_append⟩
    · exact Or.inr ⟨t, rfl, hw.head_of_append⟩
  · have hvalue := trimmed_singleton hx
    rintro (⟨t, rfl, ht⟩ | ⟨t, rfl, ht⟩)
    · exact ⟨t ++ [x], [x], hvalue.prepend ht, hvalue, (List.append_assoc _ _ _).symm⟩
    · exact ⟨[x], t ++ [x], hvalue, hvalue.prepend ht, List.append_assoc _ _ _⟩

/-- Some text with the head begins with the prefix. -/
theorem exists_prefix_iff (hx : blank x = false) :
    (∃ v, Trimmed blank v ∧ p <+: h ++ v) ↔ p <+: h ∨ Extends blank h p := by
  constructor
  · rintro ⟨v, hv, hp⟩
    rcases List.prefix_or_prefix_of_prefix hp (List.prefix_append h v) with hp' | ⟨t, rfl⟩
    · exact Or.inl hp'
    · obtain ⟨w, rfl⟩ := (List.prefix_append_right_inj h).1 hp
      exact Or.inr ⟨t, rfl, hv.head_of_append⟩
  · have hvalue := trimmed_singleton hx
    rintro (hp | ⟨t, rfl, ht⟩)
    · exact ⟨[x], hvalue, hp.trans (List.prefix_append h [x])⟩
    · refine ⟨t ++ [x], hvalue.prepend ht, ?_⟩
      rw [← List.append_assoc]
      exact List.prefix_append _ _

/-- Every text with the head begins with the prefix only if the head does. -/
theorem forall_prefix_iff (hx : blank x = false) (hy : blank y = false) (hxy : x ≠ y) :
    (∀ v, Trimmed blank v → p <+: h ++ v) ↔ p <+: h := by
  constructor
  · intro hall
    have hpx := hall [x] (trimmed_singleton hx)
    have hpy := hall [y] (trimmed_singleton hy)
    rw [List.prefix_concat_iff] at hpx
    rcases hpx with rfl | hpx
    · have heq := hpy.eq_of_length (by rw [List.length_append, List.length_append]; rfl)
      exact absurd (List.singleton_inj.1 (List.append_cancel_left heq)) hxy
    · exact hpx
  · intro hp v _
    exact hp.trans (List.prefix_append h v)

end Heads
