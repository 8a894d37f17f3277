import Mathlib.Data.List.Find
import Mathlib.Data.List.Sort

/-!
# Selection by a threshold

Entries with a key each, and a value: the first entry whose key the value does not
exceed, or else the last one.  On a sorted list this is an entry with the least key that
is large enough, and where none is, one with the greatest key (`Selected`).  That says
nothing of the order of the list, so it is what survives a permutation.
-/

namespace Threshold

universe u v

variable {α : Type u} {κ : Type v} [LinearOrder κ] (key : α → κ)

/-- The first entry that `x` does not exceed, or else the last one. -/
def select (x : κ) (xs : List α) : Option α :=
  (xs.find? fun a => x ≤ key a).or xs.getLast?

/-- Sorted by the key. -/
def Sorted (xs : List α) : Prop := xs.Pairwise fun a b => key a ≤ key b

/-- An entry with the least key from `x` on or, where all keys lie below `x`, with the
greatest one. -/
structure Selected (x : κ) (xs : List α) (a : α) : Prop where
  mem : a ∈ xs
  least : ∀ b ∈ xs, x ≤ key b → x ≤ key a ∧ key a ≤ key b
  greatest : ∀ b ∈ xs, key a < x → key b ≤ key a

variable {key} {x y : κ} {xs ys : List α} {a b : α}

/-! ## What is selected -/

/-- The last entry of a sorted list has the greatest key. -/
theorem Sorted.le_getLast (h : Sorted key xs) (ha : xs.getLast? = some a) :
    ∀ b ∈ xs, key b ≤ key a := by
  obtain ⟨ys, rfl⟩ := List.getLast?_eq_some_iff.1 ha
  intro b hb
  rcases List.mem_append.1 hb with hb | hb
  · exact (List.pairwise_append.1 h).2.2 b hb a (List.mem_singleton_self a)
  · rw [List.mem_singleton.1 hb]

theorem Sorted.selected (h : Sorted key xs) (ha : select key x xs = some a) :
    Selected key x xs a := by
  unfold select at ha
  cases hfind : xs.find? fun b => x ≤ key b with
  | some c =>
      rw [hfind, Option.some_or] at ha
      obtain rfl := Option.some.inj ha
      obtain ⟨hx, as, bs, rfl, hbefore⟩ := List.find?_eq_some_iff_append.1 hfind
      have hxc : x ≤ key c := by simpa using hx
      refine ⟨by simp, ?_, fun b _ hlt => absurd hxc (not_le.2 hlt)⟩
      intro b hb hxb
      refine ⟨hxc, ?_⟩
      -- an entry before the first one lies below `x`
      rcases List.mem_append.1 hb with hb | hb
      · have hb' := hbefore b hb
        simp [hxb] at hb'
      · rcases List.mem_cons.1 hb with rfl | hb
        · exact le_rfl
        · have hsorted : Sorted key (c :: bs) := (List.pairwise_append.1 h).2.1
          exact (List.pairwise_cons.1 hsorted).1 b hb
  | none =>
      rw [hfind, Option.none_or] at ha
      have hbelow : ∀ b ∈ xs, ¬ x ≤ key b := by
        intro b hb
        simpa using List.find?_eq_none.1 hfind b hb
      exact ⟨List.mem_of_getLast? ha, fun b hb hxb => absurd hxb (hbelow b hb),
        fun b hb _ => h.le_getLast ha b hb⟩

variable (key x) in
theorem select_isSome (h : xs ≠ []) : ∃ a, select key x xs = some a := by
  unfold select
  cases xs.find? fun a => x ≤ key a with
  | some a => exact ⟨a, rfl⟩
  | none => exact ⟨xs.getLast h, List.getLast?_eq_some_getLast h⟩

/-- The key grows with the value. -/
theorem Selected.key_le (ha : Selected key x xs a) (hb : Selected key y xs b) (h : x ≤ y) :
    key a ≤ key b := by
  rcases le_or_gt y (key b) with hy | hy
  · exact (ha.least b hb.mem (h.trans hy)).2
  · exact hb.greatest a ha.mem hy

/-- Where the keys differ, nothing else is selected. -/
theorem Selected.unique (hinj : Set.InjOn key {c | c ∈ xs}) (ha : Selected key x xs a)
    (hb : Selected key x xs b) : a = b :=
  hinj ha.mem hb.mem (le_antisymm (ha.key_le hb le_rfl) (hb.key_le ha le_rfl))

theorem Selected.of_perm (h : xs.Perm ys) (ha : Selected key x xs a) : Selected key x ys a where
  mem := h.mem_iff.1 ha.mem
  least b hb := ha.least b (h.mem_iff.2 hb)
  greatest b hb := ha.greatest b (h.mem_iff.2 hb)

/-- Two sorted lists of the same entries select the same. -/
theorem select_eq_of_perm (hinj : Set.InjOn key {c | c ∈ xs}) (hxs : Sorted key xs)
    (hys : Sorted key ys) (h : xs.Perm ys) : select key x xs = select key x ys := by
  cases hnil : xs with
  | nil =>
      rw [hnil] at h
      rw [h.nil_eq]
  | cons c cs =>
      have hne : xs ≠ [] := by simp [hnil]
      have hne' : ys ≠ [] := fun hys => hne (by simpa [hys] using h)
      obtain ⟨a, ha⟩ := select_isSome key x hne
      obtain ⟨b, hb⟩ := select_isSome key x hne'
      rw [← hnil, ha, hb]
      have hb' : Selected key x xs b := (hys.selected hb).of_perm h.symm
      rw [(hxs.selected ha).unique hinj hb']

/-! ## Two values that select the same -/

/-- The entries with the greatest key. -/
def top (key : α → κ) (xs : List α) : List α :=
  xs.filter fun a => ∀ b ∈ xs, key b ≤ key a

theorem mem_top : a ∈ top key xs ↔ a ∈ xs ∧ ∀ b ∈ xs, key b ≤ key a := by
  simp [top]

/-- No key lies from `x` up to `y`, or the greatest key does, no other one, and its first
entry is its last. -/
def SameSide (key : α → κ) (x y : κ) (xs : List α) : Prop :=
  (∀ b ∈ xs, x ≤ key b → y ≤ key b) ∨
    (∀ b ∈ xs, key b < y ∧ (x ≤ key b → b ∈ top key xs)) ∧
      (top key xs).head? = (top key xs).getLast?

instance [DecidableEq α] : Decidable (SameSide key x y xs) :=
  inferInstanceAs (Decidable (_ ∨ _))

theorem select_eq_getLast? (h : ∀ b ∈ xs, key b < y) : select key y xs = xs.getLast? := by
  have hnone : (xs.find? fun a => y ≤ key a) = none := by
    rw [List.find?_eq_none]
    intro b hb
    simpa using h b hb
  rw [select, hnone, Option.none_or]

theorem Sorted.getLast?_top (h : Sorted key xs) : (top key xs).getLast? = xs.getLast? := by
  cases hlast : xs.getLast? with
  | none =>
      rw [List.getLast?_eq_none_iff.1 hlast]
      rfl
  | some a =>
      have htop := h.le_getLast hlast
      obtain ⟨ys, rfl⟩ := List.getLast?_eq_some_iff.1 hlast
      rw [top, List.filter_append, List.filter_cons_of_pos (by simpa using htop),
        List.filter_nil, List.getLast?_concat]

/-- Where only the greatest key is large enough, its first entry is selected. -/
theorem select_eq_head?_top (hb : b ∈ xs) (hxb : x ≤ key b)
    (h : ∀ b ∈ xs, x ≤ key b → b ∈ top key xs) : select key x xs = (top key xs).head? := by
  have hpred : ∀ c ∈ xs, decide (x ≤ key c) = decide (∀ d ∈ xs, key d ≤ key c) := by
    intro c hc
    rw [decide_eq_decide]
    exact ⟨fun hxc => (mem_top.1 (h c hc hxc)).2, fun htop => hxb.trans (htop b hb)⟩
  have hfind : (xs.find? fun c => x ≤ key c) = (top key xs).head? := by
    rw [top, List.head?_filter, List.find?_congr hpred]
  cases hhead : (top key xs).head? with
  | none =>
      rw [List.head?_eq_none_iff] at hhead
      have := h b hb hxb
      rw [hhead] at this
      cases this
  | some a => rw [select, hfind, hhead, Option.some_or]

theorem select_eq_iff_of_le (h : Sorted key xs) (hxy : x ≤ y) :
    select key x xs = select key y xs ↔ SameSide key x y xs := by
  by_cases hside : ∀ b ∈ xs, x ≤ key b → y ≤ key b
  · have hpred : ∀ b ∈ xs, decide (x ≤ key b) = decide (y ≤ key b) := by
      intro b hb
      rw [decide_eq_decide]
      exact ⟨hside b hb, hxy.trans⟩
    have hsame : select key x xs = select key y xs := by
      rw [select, select, List.find?_congr hpred]
    exact iff_of_true hsame (Or.inl hside)
  · obtain ⟨b, hb, hxb, hby⟩ : ∃ b ∈ xs, x ≤ key b ∧ key b < y := by
      simpa using hside
    obtain ⟨a, ha⟩ := select_isSome key x (List.ne_nil_of_mem hb)
    have hxa := (h.selected ha).least b hb hxb
    constructor
    · intro hsame
      rw [ha] at hsame
      -- the entry lies below `y`, so it has the greatest key
      have hay : key a < y := hxa.2.trans_lt hby
      have hgreatest := (h.selected hsame.symm).greatest
      have hbelow : ∀ c ∈ xs, key c < y := fun c hc => (hgreatest c hc hay).trans_lt hay
      have htop : ∀ c ∈ xs, x ≤ key c → c ∈ top key xs := by
        intro c hc hxc
        refine mem_top.2 ⟨hc, fun d hd => ?_⟩
        exact (hgreatest d hd hay).trans ((h.selected ha).least c hc hxc).2
      refine Or.inr ⟨fun c hc => ⟨hbelow c hc, htop c hc⟩, ?_⟩
      rw [← select_eq_head?_top hb hxb htop, h.getLast?_top, ← select_eq_getLast? hbelow, ha,
        hsame]
    · rintro (hside' | ⟨hall, hends⟩)
      · exact absurd hside' hside
      · rw [select_eq_head?_top hb hxb fun c hc => (hall c hc).2, hends, h.getLast?_top,
          select_eq_getLast? fun c hc => (hall c hc).1]

/-- Two values select the same exactly if they lie on the same side of the keys. -/
theorem select_eq_iff (h : Sorted key xs) :
    select key x xs = select key y xs ↔ SameSide key (min x y) (max x y) xs := by
  rcases le_total x y with hxy | hxy
  · rw [min_eq_left hxy, max_eq_right hxy]
    exact select_eq_iff_of_le h hxy
  · rw [min_eq_right hxy, max_eq_left hxy, eq_comm]
    exact select_eq_iff_of_le h hxy

/-! ## Sorting -/

section Sorting

variable (r : α → α → Prop) [DecidableRel r]

/-- Entries that the order does not tell apart stay in their order. -/
theorem filter_insertionSort {p : α → Bool} (xs : List α)
    (hp : ∀ a ∈ xs, ∀ b ∈ xs, p a = true → p b = true → r a b) :
    (xs.insertionSort r).filter p = xs.filter p := by
  have hpair : (xs.filter p).Pairwise r := by
    refine List.pairwise_of_forall_mem_list fun a ha b hb => ?_
    rw [List.mem_filter] at ha hb
    exact hp a ha.1 b hb.1 ha.2 hb.2
  have hsub := (List.sublist_insertionSort hpair List.filter_sublist).filter p
  rw [List.filter_filter] at hsub
  simp only [Bool.and_self] at hsub
  have hlen : (xs.filter p).length = ((xs.insertionSort r).filter p).length :=
    ((List.perm_insertionSort r xs).filter p).length_eq.symm
  exact (hsub.eq_of_length hlen).symm

theorem sorted_insertionSort (hr : ∀ a b, r a b ↔ key a ≤ key b) (xs : List α) :
    Sorted key (xs.insertionSort r) := by
  have htotal : Std.Total r := ⟨fun a b => by
    rw [hr, hr]
    exact le_total (key a) (key b)⟩
  have htrans : IsTrans α r := ⟨fun a b c => by
    rw [hr, hr, hr]
    exact le_trans⟩
  exact (List.pairwise_insertionSort r xs).imp fun h => (hr _ _).1 h

theorem top_insertionSort (hr : ∀ a b, r a b ↔ key a ≤ key b) (xs : List α) :
    top key (xs.insertionSort r) = top key xs := by
  unfold top
  simp only [List.mem_insertionSort]
  refine filter_insertionSort r xs fun a ha b _ _ hb => (hr a b).2 ?_
  rw [decide_eq_true_eq] at hb
  exact hb a ha

theorem sameSide_insertionSort (hr : ∀ a b, r a b ↔ key a ≤ key b) (xs : List α) :
    SameSide key x y (xs.insertionSort r) ↔ SameSide key x y xs := by
  simp only [SameSide, top_insertionSort r hr, List.mem_insertionSort]

end Sorting

end Threshold
