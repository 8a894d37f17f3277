import DazeApi.Lib.JsonPath

/-!
# Writing at dotted paths

When a value can be written at a path, that it is read there afterwards, and what else is read as
before.
-/

namespace JsonWrite

open JsonText JsonPath

/-! ## Paths that are apart -/

def isArray : Json → Bool
  | .arr _ => true
  | _ => false

/-- Two segments name the same child; an element is named by any text of its index. -/
def SameChild (j : Json) (s t : String) : Prop :=
  s = t ∨ isArray j = true ∧ index s ≠ none ∧ index s = index t

/-- No path leads to what the other one leads to, or into it. -/
inductive Apart : Json → List String → List String → Prop
  | here {j : Json} {s t : String} {p q : List String} (h : ¬ SameChild j s t) :
      Apart j (s :: p) (t :: q)
  | missing {j : Json} {s t : String} {p q : List String} (h : SameChild j s t)
      (hchild : child j s = none) : Apart j (s :: p) (t :: q)
  | inner {j c : Json} {s t : String} {p q : List String} (h : SameChild j s t)
      (hchild : child j s = some c) (hinner : Apart c p q) : Apart j (s :: p) (t :: q)

/-- The way of a path meets no array at a segment that is no index. -/
inductive Writable : Json → List String → Prop
  | here (j : Json) : Writable j []
  | missing {j : Json} {s : String} {p : List String} (h : child j s = none)
      (hindex : isArray j = true → index s ≠ none) : Writable j (s :: p)
  | inner {j c : Json} {s : String} {p : List String} (h : child j s = some c)
      (hinner : Writable c p) : Writable j (s :: p)

section

variable {j j' c v w : Json} {s t : String} {p q : List String}

theorem child_of_sameChild (h : SameChild j s t) : child j s = child j t := by
  rcases h with rfl | ⟨harray, -, hindex⟩
  · rfl
  · cases j with
    | arr items => rw [child, child, hindex]
    | _ => cases harray

theorem put_of_sameChild (h : SameChild j s t) : put j s w = put j t w := by
  rcases h with rfl | ⟨harray, hindex, heq⟩
  · rfl
  · cases j with
    | arr items =>
        rw [put_eq_putIn rfl, put_eq_putIn rfl, putIn, putIn, ← heq]
        cases hi : index s with
        | none => exact absurd hi hindex
        | some i => rfl
    | _ => cases harray

theorem sameChild_of_put (h : put j s v = some j') (hsame : SameChild j s t) :
    SameChild j' s t := by
  refine hsame.imp_right fun ⟨harray, hindex⟩ => ⟨?_, hindex⟩
  cases j with
  | arr items =>
      rw [put_eq_putIn rfl, putIn] at h
      split at h
      · cases h
        rfl
      · split at h
        · cases h
          rfl
        · cases h
  | _ => cases harray

/-- What is put under a name is found there. -/
theorem child_of_put (hs : s ≠ "-1") (h : put j s v = some j') : child j' s = some v := by
  have hin {d : Json} (hd : putIn d s v = some j') : child j' s = some v := by
    cases d with
    | obj ms =>
        cases hd
        rw [child, member_setMember, if_pos rfl]
    | arr items =>
        rw [putIn] at hd
        cases hi : index s with
        | none =>
            rw [hi] at hd
            simp only [if_neg hs] at hd
            cases hd
        | some i =>
            rw [hi] at hd
            cases hd
            rw [child, hi, Option.bind_some, setItem]
            split
            next hlt => rw [List.getElem?_set_self hlt]
            next hlt =>
              rw [List.getElem?_append_right (by simp; omega)]
              have hlength : (items ++ List.replicate (i - items.length) Json.null).length = i := by
                rw [List.length_append, List.length_replicate]
                omega
              rw [hlength, Nat.sub_self]
              rfl
    | _ => cases hd
  rw [put] at h
  exact hin h

/-- What is put under a name changes no other child. -/
theorem child_of_put_of_ne (h : put j s v = some j') (hne : ¬ SameChild j s t)
    (ht : child j t = some c) : child j' t = some c := by
  rw [put_eq_putIn (isContainer_of_child ht)] at h
  cases j with
  | obj ms =>
      cases h
      rw [child, member_setMember, if_neg fun heq => hne (Or.inl heq.symm)]
      exact ht
  | arr items =>
      rw [putIn] at h
      obtain ⟨n, ht', hlt, ht⟩ := child_arr_eq_some ht
      cases hi : index s with
      | none =>
          rw [hi] at h
          simp only at h
          split at h
          · cases h
            rw [child, ht', Option.bind_some, List.getElem?_append_left hlt, ht]
          · cases h
      | some i =>
          rw [hi] at h
          cases h
          rw [child, ht', Option.bind_some]
          refine getElem?_setItem_of_ne (fun heq => hne (Or.inr ⟨rfl, ?_, ?_⟩)) ht
          · rw [hi]
            exact Option.some_ne_none i
          · rw [hi, ht', heq]
  | _ => cases ht

/-- Writing at a path keeps what is apart from it. -/
theorem get_of_set_of_apart (hapart : Apart j p q) :
    ∀ {j' : Json}, set j p v = some j' → get j q = some c → get j' q = some c := by
  induction hapart with
  | here hne =>
      intro j' hset hget
      rw [get_cons, Option.bind_eq_some_iff] at hget
      obtain ⟨d, hd, hget⟩ := hget
      rw [JsonPath.set, Option.bind_eq_some_iff] at hset
      obtain ⟨w, -, hput⟩ := hset
      rw [get_cons, child_of_put_of_ne hput hne hd, Option.bind_some, hget]
  | missing hsame hchild =>
      intro j' hset hget
      rw [get_cons, ← child_of_sameChild hsame, hchild] at hget
      cases hget
  | inner hsame hchild _ ih =>
      intro j' hset hget
      rw [get_cons, ← child_of_sameChild hsame, hchild, Option.bind_some] at hget
      rw [set_cons_of_child hchild, Option.bind_eq_some_iff] at hset
      obtain ⟨w, hw, hput⟩ := hset
      have hd := child_put hchild hput
      rw [get_cons, ← child_of_sameChild (sameChild_of_put hput hsame), hd, Option.bind_some,
        ih hw hget]

/-- What is written is read. -/
theorem get_of_set (hp : ∀ s ∈ p, s ≠ "-1") (h : set j p v = some j') : get j' p = some v := by
  induction p generalizing j j' with
  | nil =>
      cases h
      rfl
  | cons s p ih =>
      obtain ⟨hs, hp⟩ := List.forall_mem_cons.1 hp
      rw [JsonPath.set, Option.bind_eq_some_iff] at h
      obtain ⟨w, hw, hput⟩ := h
      rw [get_cons, child_of_put hs hput, Option.bind_some, ih hp hw]

theorem isArray_blank {p : List String} (h : isArray (blank (s :: p)) = true) :
    index s ≠ none ∨ s = "-1" := by
  rw [blank, fresh] at h
  split at h
  next hnumeric =>
    rw [Bool.or_eq_true, decide_eq_true_eq] at hnumeric
    exact hnumeric.imp_left Option.isSome_iff_ne_none.1
  next => cases h

theorem put_isSome_iff : (∃ j', put j s v = some j') ↔
    (isArray j = true → index s ≠ none ∨ s = "-1") := by
  rw [put]
  cases j with
  | obj ms => exact iff_of_true ⟨_, rfl⟩ fun h => absurd h Bool.false_ne_true
  | arr items =>
      have hcontainer : isContainer (.arr items) = true := rfl
      rw [if_pos hcontainer, putIn]
      cases hi : index s with
      | some i => exact iff_of_true ⟨_, rfl⟩ fun _ => Or.inl (Option.some_ne_none i)
      | none =>
          by_cases hs : s = "-1"
          · simp [hs]
          · simp [hs, isArray]
  | _ =>
      simp only [isContainer, Bool.false_eq_true, if_false]
      refine iff_of_true ?_ fun h => absurd h Bool.false_ne_true
      cases hi : index s with
      | some i => exact ⟨_, by rw [Option.isSome_some, fresh, if_pos rfl, putIn, hi]⟩
      | none => exact ⟨_, rfl⟩

theorem child_blank (p : List String) (s : String) : child (blank p) s = none := by
  cases p with
  | nil => rfl
  | cons t p =>
      rw [blank, fresh]
      split
      · rw [child]
        cases index s <;> rfl
      · rfl

/-- Where there is nothing, everything can be written. -/
theorem set_blank (p : List String) (v : Json) : ∃ j', JsonPath.set (blank p) p v = some j' := by
  induction p with
  | nil => exact ⟨v, rfl⟩
  | cons s p ih =>
      obtain ⟨w, hw⟩ := ih
      rw [JsonPath.set, child_blank, Option.getD_none, hw, Option.bind_some, put_isSome_iff]
      exact isArray_blank

/-- A value can be written exactly if the way is free. -/
theorem set_isSome_iff (hp : ∀ s ∈ p, s ≠ "-1") :
    (∃ j', JsonPath.set j p v = some j') ↔ Writable j p := by
  induction p generalizing j with
  | nil => exact iff_of_true ⟨v, rfl⟩ (.here j)
  | cons s p ih =>
      obtain ⟨hs, hp⟩ := List.forall_mem_cons.1 hp
      cases hchild : child j s with
      | none =>
          obtain ⟨w, hw⟩ := set_blank p v
          rw [JsonPath.set, hchild, Option.getD_none, hw, Option.bind_some, put_isSome_iff]
          constructor
          · exact fun h => .missing hchild fun harray => (h harray).resolve_right hs
          · rintro (_ | ⟨-, hindex⟩ | ⟨h, -⟩)
            · exact fun harray => Or.inl (hindex harray)
            · rw [hchild] at h
              cases h
      | some c =>
          rw [set_cons_of_child hchild]
          constructor
          · rintro ⟨j', h⟩
            obtain ⟨w, hw, -⟩ := Option.bind_eq_some_iff.1 h
            exact .inner hchild ((ih hp).1 ⟨w, hw⟩)
          · rintro (_ | ⟨h, -⟩ | ⟨h, hinner⟩)
            · rw [hchild] at h
              cases h
            · rw [hchild] at h
              cases h
              obtain ⟨w, hw⟩ := (ih hp).2 hinner
              obtain ⟨j', hput, -⟩ := put_of_child hchild w
              exact ⟨j', by rw [hw, Option.bind_some, hput]⟩

end

/-! ## What a path leads into -/

/-- The second path leads to what the first one leads to, or into it. -/
inductive Contains : Json → List String → List String → Prop
  | here (j : Json) (q : List String) : Contains j [] q
  | inner {j c : Json} {s t : String} {p q : List String} (h : SameChild j s t)
      (hchild : child j s = some c) (hinner : Contains c p q) : Contains j (s :: p) (t :: q)

/-- The way of a path ends at a container, which is then extended, and needs no `-1` in an array. -/
inductive Free : Json → List String → Prop
  | here (j : Json) : Free j []
  | missing {j : Json} {s : String} {p : List String} (hj : isContainer j = true)
      (h : child j s = none) (hs : isArray j = true → s ≠ "-1") (hp : ∀ s ∈ p, s ≠ "-1") :
      Free j (s :: p)
  | inner {j c : Json} {s : String} {p : List String} (h : child j s = some c)
      (hinner : Free c p) : Free j (s :: p)

section

variable {j j' c v w x : Json} {s t : String} {p q : List String}

theorem SameChild.symm (h : SameChild j s t) : SameChild j t s := by
  rcases h with rfl | ⟨harray, hindex, heq⟩
  · exact Or.inl rfl
  · exact Or.inr ⟨harray, heq ▸ hindex, heq.symm⟩

theorem contains_cons_iff (h : SameChild j s t) (hchild : child j s = some c) :
    Contains j (s :: p) (t :: q) ↔ Contains c p q := by
  constructor
  · rintro (_ | ⟨-, hchild', hinner⟩)
    rw [hchild] at hchild'
    cases hchild'
    exact hinner
  · exact .inner h hchild

theorem not_contains_of_ne (h : ¬ SameChild j s t) : ¬ Contains j (s :: p) (t :: q) := by
  rintro (_ | ⟨hsame, -, -⟩)
  exact h hsame

theorem entries_ne_nil_of_child (h : child j s = some c) : entries j ≠ [] := by
  cases j with
  | obj ms =>
      rintro heq
      rw [entries] at heq
      subst heq
      cases h
  | arr items =>
      rintro heq
      rw [entries, List.map_eq_nil_iff, List.zipIdx_eq_nil_iff] at heq
      subst heq
      obtain ⟨i, -, hlt, -⟩ := child_arr_eq_some h
      exact absurd hlt (Nat.not_lt_zero i)
  | _ => cases h

/-- Of two paths that lead somewhere one leads into what the other one leads to, or they are
apart. -/
theorem contains_or_apart (hq : get j q = some x) :
    Contains j p q ∨ Apart j p q ∨ Contains j q p := by
  induction p generalizing j q with
  | nil => exact Or.inl (.here j q)
  | cons s p ih =>
      cases q with
      | nil => exact Or.inr (Or.inr (.here j _))
      | cons t q =>
          by_cases hsame : SameChild j s t
          · rw [get_cons, Option.bind_eq_some_iff] at hq
            obtain ⟨c, ht, hq⟩ := hq
            have hs : child j s = some c := (child_of_sameChild hsame).trans ht
            rcases ih hq with h | h | h
            · exact Or.inl (.inner hsame hs h)
            · exact Or.inr (Or.inl (.inner hsame hs h))
            · exact Or.inr (Or.inr (.inner hsame.symm ht h))
          · exact Or.inr (Or.inl (.here hsame))

/-- Nothing leads further from a value without entries. -/
theorem Contains.of_leaf (h : Contains j q p) (hq : get j q = some x) (hx : entries x = [])
    (hp : get j p = some v) : Contains j p q := by
  induction h with
  | here j p =>
      cases hq
      cases p with
      | nil => exact .here _ _
      | cons s p =>
          rw [get_cons, Option.bind_eq_some_iff] at hp
          obtain ⟨c, hc, -⟩ := hp
          exact absurd hx (entries_ne_nil_of_child hc)
  | inner hsame hchild _ ih =>
      have hchild' := (child_of_sameChild hsame).symm.trans hchild
      rw [get_cons, hchild, Option.bind_some] at hq
      rw [get_cons, hchild', Option.bind_some] at hp
      exact .inner hsame.symm hchild' (ih hq hp)

/-! ## Where a value is read that was written -/

theorem isContainer_of_put (h : put j s v = some j') : isContainer j' = true := by
  have hin {d : Json} (hd : putIn d s v = some j') : isContainer j' = true := by
    cases d with
    | obj ms =>
        cases hd
        rfl
    | arr items =>
        rw [putIn] at hd
        split at hd
        · cases hd
          rfl
        · split at hd
          · cases hd
            rfl
          · cases hd
    | _ => cases hd
  rw [put] at h
  exact hin h

theorem isArray_put (h : put j s v = some j') (hj : isContainer j = true) :
    isArray j' = isArray j := by
  rw [put_eq_putIn hj] at h
  cases j with
  | obj ms =>
      cases h
      rfl
  | arr items =>
      rw [putIn] at h
      split at h
      · cases h
        rfl
      · split at h
        · cases h
          rfl
        · cases h
  | _ => cases hj

theorem child_minus_one (h : isArray j = true) : child j "-1" = none := by
  cases j with
  | arr items => rfl
  | _ => cases h

/-- What is put into an object is found there under any name. -/
theorem child_of_put' (hj : isContainer j = true) (hs : isArray j = true → s ≠ "-1")
    (h : put j s v = some j') : child j' s = some v := by
  by_cases hminus : s = "-1"
  · rw [put_eq_putIn hj] at h
    cases j with
    | obj ms =>
        cases h
        rw [child, member_setMember, if_pos rfl]
    | arr items => exact absurd hminus (hs rfl)
    | _ => cases hj
  · exact child_of_put hminus h

theorem get_set_of_free (hfree : Free j p) (h : set j p v = some j') : get j' p = some v := by
  induction hfree generalizing j' with
  | here j =>
      cases h
      rfl
  | @missing j s p hj hchild hs hp =>
      rw [JsonPath.set, hchild, Option.getD_none, Option.bind_eq_some_iff] at h
      obtain ⟨w, hw, hput⟩ := h
      rw [get_cons, child_of_put' hj hs hput, Option.bind_some, get_of_set hp hw]
  | inner hchild _ ih =>
      rw [set_cons_of_child hchild, Option.bind_eq_some_iff] at h
      obtain ⟨w, hw, hput⟩ := h
      have hd := child_put hchild hput
      rw [get_cons, hd, Option.bind_some, ih hw]

theorem ne_minus_one_of_set_blank (h : set (blank p) p v = some j') (hget : get j' p ≠ none) :
    ∀ s ∈ p, s ≠ "-1" := by
  induction p generalizing j' with
  | nil => exact List.forall_mem_nil _
  | cons s p ih =>
      rw [JsonPath.set, child_blank, Option.getD_none, Option.bind_eq_some_iff] at h
      obtain ⟨w, hw, hput⟩ := h
      have hs : s ≠ "-1" := by
        rintro rfl
        have hblank : isContainer (blank ("-1" :: p)) = true ∧
            isArray (blank ("-1" :: p)) = true := by
          rw [blank, decide_eq_true rfl, Bool.or_true]
          exact ⟨rfl, rfl⟩
        refine hget ?_
        rw [get_cons, child_minus_one ((isArray_put hput hblank.1).trans hblank.2)]
        rfl
      rw [get_cons, child_of_put hs hput, Option.bind_some] at hget
      exact List.forall_mem_cons.2 ⟨hs, ih hw hget⟩

/-- A value that is read where it was written, and replaced no other one, had a free way. -/
theorem free_of_get_set (h : set j p v = some j') (hget : get j' p ≠ none)
    (hkeeps : ∀ q r x, p = q ++ r → r ≠ [] → get j q = some x → isContainer x = false →
      get j' q = some x) : Free j p := by
  induction p generalizing j j' with
  | nil => exact .here j
  | cons s p ih =>
      cases hchild : child j s with
      | some c =>
          rw [set_cons_of_child hchild, Option.bind_eq_some_iff] at h
          obtain ⟨w, hw, hput⟩ := h
          have hd := child_put hchild hput
          rw [get_cons, hd, Option.bind_some] at hget
          refine .inner hchild (ih hw hget fun q r x hp hr hq hx => ?_)
          have hkept := hkeeps (s :: q) r x (by rw [hp]; rfl) hr
            (by rw [get_cons, hchild, Option.bind_some, hq]) hx
          rwa [get_cons, hd, Option.bind_some] at hkept
      | none =>
          rw [JsonPath.set, hchild, Option.getD_none, Option.bind_eq_some_iff] at h
          obtain ⟨w, hw, hput⟩ := h
          have hj : isContainer j = true := by
            by_contra hj
            rw [Bool.not_eq_true] at hj
            have hkept := hkeeps [] (s :: p) j rfl (List.cons_ne_nil _ _) rfl hj
            cases hkept
            rw [isContainer_of_put hput] at hj
            cases hj
          have hs : isArray j = true → s ≠ "-1" := by
            rintro harray rfl
            rw [get_cons, child_minus_one ((isArray_put hput hj).trans harray)] at hget
            exact hget rfl
          rw [get_cons, child_of_put' hj hs hput, Option.bind_some] at hget
          exact .missing hj hchild hs (ne_minus_one_of_set_blank hw hget)

/-- On a free way no scalar is met. -/
theorem Free.contains (hfree : Free j p) (h : Contains j q p) (hq : get j q = some x)
    (hx : isContainer x = false) : Contains j p q := by
  induction h with
  | here j p =>
      cases hq
      cases hfree with
      | here => exact .here _ _
      | missing hj => rw [hj] at hx; cases hx
      | inner hchild => rw [isContainer_of_child hchild] at hx; cases hx
  | inner hsame hchild _ ih =>
      have hchild' := (child_of_sameChild hsame).symm.trans hchild
      rw [get_cons, hchild, Option.bind_some] at hq
      cases hfree with
      | missing _ hnone => rw [hnone] at hchild'; cases hchild'
      | inner hchild'' hinner =>
          rw [hchild'] at hchild''
          cases hchild''
          exact .inner hsame.symm hchild' (ih hinner hq)

end

end JsonWrite
