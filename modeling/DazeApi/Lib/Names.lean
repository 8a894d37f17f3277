import Mathlib.Data.List.Nodup

/-!
# Lists of names

A list of names is read as a set whose members have an order.  Every operation first
brings its lists into the normal form: each name is cleaned, what is no name is dropped,
and of equal names the first one stays.  Normal lists are left as they are, so the
operations compose like those of sets (`mem_merge`, `mem_subtract`).
-/

universe u

namespace Names

variable {α : Type u} (clean : α → Option α) {l m : List α} {x y : α}

/-- A list that is in normal form. -/
structure Normal (l : List α) : Prop where
  nodup : l.Nodup
  clean_eq : ∀ x ∈ l, clean x = some x

section

variable {clean}

theorem Normal.sublist (h : Normal clean m) (hl : l.Sublist m) : Normal clean l :=
  ⟨h.nodup.sublist hl, fun x hx => h.clean_eq x (hl.subset hx)⟩

theorem Normal.append (hl : Normal clean l) (hm : Normal clean m) (hdisj : ∀ x ∈ m, x ∉ l) :
    Normal clean (l ++ m) := by
  refine ⟨List.nodup_append.2 ⟨hl.nodup, hm.nodup, ?_⟩, fun x hx => ?_⟩
  · intro x hx y hy heq
    exact hdisj y hy (heq ▸ hx)
  · rcases List.mem_append.1 hx with hx | hx
    · exact hl.clean_eq x hx
    · exact hm.clean_eq x hx

end

variable [DecidableEq α]

/-- Of equal elements the first one stays. -/
def uniq : List α → List α
  | [] => []
  | x :: xs => x :: (uniq xs).filter (· ≠ x)

/-- The normal form. -/
def normalize (l : List α) : List α := uniq (l.filterMap clean)

/-- The names of the second list that the first one does not have are added to it. -/
def merge (base appended : List α) : List α :=
  (normalize clean appended).foldl (fun merged x => if x ∈ merged then merged else merged ++ [x])
    (normalize clean base)

def subtract (base removed : List α) : List α :=
  (normalize clean base).filter (· ∉ normalize clean removed)

def intersect (base allowed : List α) : List α :=
  (normalize clean base).filter (· ∈ normalize clean allowed)

variable {clean}

@[simp] theorem mem_uniq : x ∈ uniq l ↔ x ∈ l := by
  induction l with
  | nil => exact Iff.rfl
  | cons y l ih =>
      rw [uniq, List.mem_cons, List.mem_cons, List.mem_filter, ih, decide_eq_true_eq]
      constructor
      · rintro (h | ⟨h, -⟩)
        · exact Or.inl h
        · exact Or.inr h
      · intro h
        rcases eq_or_ne x y with heq | hne
        · exact Or.inl heq
        · exact Or.inr ⟨h.resolve_left hne, hne⟩

theorem nodup_uniq (l : List α) : (uniq l).Nodup := by
  induction l with
  | nil => exact .nil
  | cons y l ih =>
      refine List.nodup_cons.2 ⟨fun h => ?_, ih.filter _⟩
      exact absurd rfl (of_decide_eq_true (List.mem_filter.1 h).2)

theorem uniq_eq_self (h : l.Nodup) : uniq l = l := by
  induction l with
  | nil => rfl
  | cons y l ih =>
      obtain ⟨hy, hl⟩ := List.nodup_cons.1 h
      rw [uniq, ih hl, List.filter_eq_self.2]
      intro z hz
      rw [decide_eq_true_eq]
      rintro rfl
      exact hy hz

theorem mem_normalize : x ∈ normalize clean l ↔ ∃ y ∈ l, clean y = some x := by
  rw [normalize, mem_uniq, List.mem_filterMap]

theorem mem_normalize_append :
    x ∈ normalize clean (l ++ m) ↔ x ∈ normalize clean l ∨ x ∈ normalize clean m := by
  simp only [mem_normalize, List.mem_append, or_and_right, exists_or]

theorem Normal.normalize_eq (h : Normal clean l) : normalize clean l = l := by
  have hmap : l.filterMap clean = l := by
    rw [List.filterMap_congr h.clean_eq, List.filterMap_some]
  rw [normalize, hmap, uniq_eq_self h.nodup]

/-- Merging normal lists appends what is new. -/
theorem foldl_merge (hm : m.Nodup) :
    m.foldl (fun merged x => if x ∈ merged then merged else merged ++ [x]) l =
      l ++ m.filter (· ∉ l) := by
  induction m generalizing l with
  | nil => rw [List.foldl_nil, List.filter_nil, List.append_nil]
  | cons y m ih =>
      obtain ⟨hy, hm⟩ := List.nodup_cons.1 hm
      rw [List.foldl_cons, ih hm]
      split
      next hmem => rw [List.filter_cons, if_neg (by simpa using hmem)]
      next hnew =>
        have hrest : m.filter (· ∉ l ++ [y]) = m.filter (· ∉ l) := by
          refine List.filter_congr fun z hz => ?_
          have hne : z ≠ y := by
            rintro rfl
            exact hy hz
          simp [hne]
        rw [List.filter_cons, if_pos (by simpa using hnew), hrest, List.append_assoc,
          List.singleton_append]

section

variable (hclean : ∀ x y, clean x = some y → clean y = some y)

include hclean

theorem normal_normalize (l : List α) : Normal clean (normalize clean l) := by
  refine ⟨nodup_uniq _, fun x hx => ?_⟩
  obtain ⟨y, -, hy⟩ := mem_normalize.1 hx
  exact hclean y x hy

@[simp] theorem normalize_normalize (l : List α) :
    normalize clean (normalize clean l) = normalize clean l :=
  (normal_normalize hclean l).normalize_eq

theorem merge_eq (base appended : List α) : merge clean base appended =
    normalize clean base ++ (normalize clean appended).filter (· ∉ normalize clean base) :=
  foldl_merge (normal_normalize hclean appended).nodup

theorem normal_merge (base appended : List α) : Normal clean (merge clean base appended) := by
  rw [merge_eq hclean]
  refine (normal_normalize hclean base).append ?_ ?_
  · exact (normal_normalize hclean appended).sublist List.filter_sublist
  · intro x hx
    simpa using (List.mem_filter.1 hx).2

theorem normal_subtract (base removed : List α) : Normal clean (subtract clean base removed) :=
  (normal_normalize hclean base).sublist List.filter_sublist

theorem normal_intersect (base allowed : List α) : Normal clean (intersect clean base allowed) :=
  (normal_normalize hclean base).sublist List.filter_sublist

theorem mem_merge {base appended : List α} : x ∈ merge clean base appended ↔
    x ∈ normalize clean base ∨ x ∈ normalize clean appended := by
  rw [merge_eq hclean, List.mem_append, List.mem_filter, decide_eq_true_eq]
  tauto

end

theorem mem_subtract {base removed : List α} : x ∈ subtract clean base removed ↔
    x ∈ normalize clean base ∧ x ∉ normalize clean removed := by
  rw [subtract, List.mem_filter, decide_eq_true_eq]

theorem mem_intersect {base allowed : List α} : x ∈ intersect clean base allowed ↔
    x ∈ normalize clean base ∧ x ∈ normalize clean allowed := by
  rw [intersect, List.mem_filter, decide_eq_true_eq]

end Names
