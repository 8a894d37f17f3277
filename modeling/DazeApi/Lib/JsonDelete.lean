import DazeApi.Lib.JsonWrite

/-!
# Deleting at dotted paths

When a deletion takes something away, that it is gone, and what is read as before.  Later elements
of an array move up, so that it must be the last one that is deleted.
-/

namespace JsonDelete

open JsonText JsonPath JsonWrite

/-- No element follows the one that the segment leads to. -/
def IsLast : Json → String → Prop
  | .arr items, s => index s = some (items.length - 1)
  | _, _ => True

/-- No element follows the one that the path leads to. -/
def Last : Json → List String → Prop
  | _, [] => True
  | j, s :: p => if p = [] then IsLast j s else ∀ c, child j s = some c → Last c p

/-- A deletion at the path takes something away. -/
inductive Deletes : Json → List String → Prop
  | last {j : Json} {s : String} (h : child j (lastItem j s) ≠ none) : Deletes j [s]
  | inner {j c : Json} {s : String} {p : List String} (h : child j (lastItem j s) = some c)
      (hinner : Deletes c p) : Deletes j (s :: p)

section

variable {j j' c v w x : Json} {s t : String} {p q : List String}

/-! ## Values without repeated names -/

theorem distinct_arr_iff {items : List Json} :
    Distinct (.arr items) ↔ ∀ item ∈ items, Distinct item := by
  constructor
  · intro h item hitem
    obtain ⟨i, hi⟩ := List.getElem?_of_mem hitem
    exact h.of_mem (e := (indexText i, item))
      (List.mem_map.2 ⟨(item, i), List.mk_mem_zipIdx_iff_getElem?.2 hi, rfl⟩)
  · intro h
    refine .mk (nodup_entries_arr items) fun e he => ?_
    obtain ⟨e', he', rfl⟩ := List.mem_map.1 he
    exact h _ (List.fst_mem_of_mem_zipIdx he')

theorem distinct_of_child (hj : Distinct j) (h : child j s = some c) : Distinct c := by
  cases j with
  | obj ms => exact hj.of_mem (mem_of_member h)
  | arr items =>
      obtain ⟨i, hi, -, h⟩ := child_arr_eq_some h
      exact hj.of_mem (e := (indexText i, c))
        (List.mem_map.2 ⟨(c, i), List.mk_mem_zipIdx_iff_getElem?.2 h, rfl⟩)
  | _ => cases h

theorem mem_setMember {ms : List (String × Json)} {m : String × Json}
    (h : m ∈ setMember ms s v) : m = (s, v) ∨ m ∈ ms := by
  induction ms with
  | nil => exact Or.inl (List.mem_singleton.1 h)
  | cons m' ms ih =>
      rw [setMember] at h
      split at h
      · exact (List.mem_cons.1 h).imp_right (.tail _)
      · rcases List.mem_cons.1 h with rfl | h
        · exact Or.inr (.head _)
        · exact (ih h).imp_right (.tail _)

theorem distinct_put (hj : Distinct j) (hv : Distinct v) (hc : child j s = some c)
    (h : put j s v = some j') : Distinct j' := by
  rw [put_eq_putIn (isContainer_of_child hc)] at h
  cases j with
  | obj ms =>
      cases h
      refine .mk ?_ fun m hm => ?_
      · rw [entries, map_fst_setMember hc]
        exact hj.nodup
      · rcases mem_setMember hm with rfl | hm
        · exact hv
        · exact hj.of_mem hm
  | arr items =>
      obtain ⟨i, hi, hlt, hc⟩ := child_arr_eq_some hc
      simp only [putIn, hi, setItem, if_pos hlt, Option.some.injEq] at h
      subst h
      rw [distinct_arr_iff] at hj ⊢
      intro item hitem
      rcases List.mem_or_eq_of_mem_set hitem with hitem | rfl
      · exact hj item hitem
      · exact hv
  | _ => cases hc

theorem distinct_erase (hj : Distinct j) (s : String) : Distinct (erase j s) := by
  cases j with
  | obj ms =>
      refine .mk (hj.nodup.sublist (List.eraseP_sublist.map _)) fun m hm => ?_
      exact hj.of_mem (List.mem_of_mem_eraseP hm)
  | arr items =>
      rw [erase]
      split
      next i hi =>
        rw [distinct_arr_iff] at hj ⊢
        exact fun item hitem => hj item (List.mem_of_mem_eraseIdx hitem)
      next => exact hj
  | _ => exact hj

theorem distinct_delete (hj : Distinct j) (p : List String) : Distinct (delete j p) := by
  induction p generalizing j with
  | nil => exact hj
  | cons s p ih =>
      rw [delete]
      cases hchild : child j (lastItem j s) with
      | none => exact hj
      | some c =>
          simp only
          split
          · exact distinct_erase hj _
          · obtain ⟨j', hput, -⟩ := put_of_child hchild (delete c p)
            rw [hput, Option.getD_some]
            exact distinct_put hj (ih (distinct_of_child hj hchild)) hchild hput

/-! ## What is gone, and what is kept -/

theorem last_singleton : Last j [s] ↔ IsLast j s := by
  rw [Last, if_pos rfl]

theorem last_cons (h : child j s = some c) (hp : p ≠ []) : Last j (s :: p) ↔ Last c p := by
  rw [Last, if_neg hp, h]
  simp

theorem delete_singleton_of_child (h : child j s = some c) : delete j [s] = erase j s := by
  rw [delete_singleton, lastItem_of_child h, if_neg]
  rw [h]
  exact Option.some_ne_none c

theorem child_erase_self (hj : ((entries j).map Prod.fst).Nodup) (h : child j s = some c) :
    child (erase j s) s = none ↔ IsLast j s := by
  cases j with
  | obj ms =>
      refine iff_of_true ?_ trivial
      have hdelete : delete (.obj ms) [s] = .obj (ms.filter (·.1 ≠ s)) :=
        delete_obj_singleton hj s
      rw [delete_singleton_of_child h] at hdelete
      rw [hdelete, child, member_eq_none_iff]
      simp
  | arr items =>
      obtain ⟨i, hi, hlt, h⟩ := child_arr_eq_some h
      simp only [erase, hi, child, IsLast, Option.bind_some, List.getElem?_eraseIdx,
        lt_irrefl, if_false, List.getElem?_eq_none_iff, Option.some.injEq]
      omega
  | _ => cases h

theorem child_erase_of_ne (hne : ¬ SameChild j s t) (h : child j s = some c)
    (hlast : IsLast j s) : child (erase j s) t = child j t := by
  cases j with
  | obj ms => exact member_eraseP_of_ne fun heq => hne (Or.inl heq)
  | arr items =>
      rw [IsLast] at hlast
      simp only [erase, hlast, child]
      cases ht : index t with
      | none => rfl
      | some n =>
          have hn : n ≠ items.length - 1 := by
            rintro rfl
            exact hne (Or.inr ⟨rfl, by rw [hlast]; exact Option.some_ne_none _, by rw [hlast, ht]⟩)
          rw [Option.bind_some, Option.bind_some, List.getElem?_eraseIdx]
          split
          next => rfl
          next hnlt =>
            rw [List.getElem?_eq_none (by omega), List.getElem?_eq_none (by omega)]
  | _ => cases h

/-- What replaces a child changes no other one. -/
theorem child_put_of_ne (hne : ¬ SameChild j s t) (h : child j s = some c)
    (hput : put j s v = some j') : child j' t = child j t := by
  rw [put_eq_putIn (isContainer_of_child h)] at hput
  cases j with
  | obj ms =>
      cases hput
      rw [child, member_setMember, if_neg fun heq => hne (Or.inl heq.symm)]
      rfl
  | arr items =>
      obtain ⟨i, hi, hlt, h⟩ := child_arr_eq_some h
      simp only [putIn, hi, setItem, if_pos hlt, Option.some.injEq] at hput
      subst hput
      rw [child, child]
      cases ht : index t with
      | none => rfl
      | some n =>
          refine List.getElem?_set_ne fun heq => hne (Or.inr ⟨rfl, ?_, ?_⟩)
          · rw [hi]
            exact Option.some_ne_none i
          · rw [hi, ht, heq]
  | _ => cases h

theorem delete_inner (h : child j s = some c) (hp : p ≠ []) :
    put j s (delete c p) = some (delete j (s :: p)) := by
  obtain ⟨d, hput, -⟩ := put_of_child h (delete c p)
  rw [delete_cons_of_child h hp, hput, Option.getD_some]

/-- A deletion of the last element keeps what is apart from it. -/
theorem get_delete_of_apart (hapart : Apart j p q) :
    get j p = some v → Last j p → get (delete j p) q = get j q := by
  induction hapart with
  | @here j s t p q hne =>
      intro hp hlast
      rw [get_cons, Option.bind_eq_some_iff] at hp
      obtain ⟨c, hc, -⟩ := hp
      rw [get_cons, get_cons]
      by_cases hnil : p = []
      · subst hnil
        rw [last_singleton] at hlast
        rw [delete_singleton_of_child hc, child_erase_of_ne hne hc hlast]
      · rw [child_put_of_ne hne hc (delete_inner hc hnil)]
  | missing hsame hchild =>
      intro hp
      rw [get_cons, hchild] at hp
      cases hp
  | @inner j c s t p q hsame hchild hinner ih =>
      intro hp hlast
      have hnil : p ≠ [] := by
        rintro rfl
        cases hinner
      rw [get_cons, hchild, Option.bind_some] at hp
      rw [last_cons hchild hnil] at hlast
      have hput := delete_inner hchild hnil
      have hd := child_put hchild hput
      rw [get_cons, get_cons, ← child_of_sameChild (sameChild_of_put hput hsame), hd,
        ← child_of_sameChild hsame, hchild, Option.bind_some, Option.bind_some,
        ih hp hlast]

/-- What is deleted is gone exactly if no element follows. -/
theorem get_delete_self (hj : ((entries j).map Prod.fst).Nodup) (hc : child j s = some c)
    (hdistinct : Distinct c) (hp : get c p = some v) :
    get (delete j (s :: p)) (s :: p) = none ↔ Last j (s :: p) := by
  induction p generalizing j s c with
  | nil =>
      rw [last_singleton, delete_singleton_of_child hc, ← child_erase_self hj hc, get_cons]
      cases child (erase j s) s <;> simp
  | cons t p ih =>
      have hput := delete_inner hc (List.cons_ne_nil t p)
      have hd := child_put hc hput
      rw [get_cons, Option.bind_eq_some_iff] at hp
      obtain ⟨c', hc', hp⟩ := hp
      rw [get_cons, hd, Option.bind_some,
        ih hdistinct.nodup hc' (distinct_of_child hdistinct hc') hp,
        last_cons hc (List.cons_ne_nil t p)]

/-! ## What a deletion takes away -/

theorem delete_of_not_deletes (h : ¬ Deletes j p) : delete j p = j := by
  induction p generalizing j with
  | nil => rfl
  | cons s p ih =>
      rw [delete]
      cases hchild : child j (lastItem j s) with
      | none => rfl
      | some c =>
          simp only
          split
          next hp =>
            subst hp
            exact absurd (Deletes.last (by rw [hchild]; exact Option.some_ne_none c)) h
          next =>
            rw [ih fun hc => h (.inner hchild hc), put_self hchild, Option.getD_some]

theorem deletes_of_get (hp : p ≠ []) (h : JsonPath.get j p ≠ none) : Deletes j p := by
  induction p generalizing j with
  | nil => exact absurd rfl hp
  | cons s p ih =>
      cases hchild : child j s with
      | none => rw [get_cons, hchild] at h; exact absurd rfl h
      | some c =>
          rw [get_cons, hchild, Option.bind_some] at h
          have hitem : child j (lastItem j s) = some c := by rw [lastItem_of_child hchild, hchild]
          cases p with
          | nil => exact .last (by rw [hitem]; exact Option.some_ne_none c)
          | cons t p => exact .inner hitem (ih (List.cons_ne_nil t p) h)

/-- Then there is a path that leads nowhere afterwards. -/
theorem exists_gone (h : Deletes j p) (hj : Distinct j) :
    ∃ q, JsonPath.get j q ≠ none ∧ JsonPath.get (delete j p) q = none := by
  induction h with
  | @last j s h =>
      obtain ⟨c, hc⟩ := Option.ne_none_iff_exists'.1 h
      rw [delete_singleton, if_neg h]
      cases j with
      | obj ms =>
          refine ⟨[lastItem (.obj ms) s], ?_, ?_⟩
          · rw [get_cons, hc]
            exact Option.some_ne_none c
          · rw [get_cons, (child_erase_self hj.nodup hc).2 trivial]
            rfl
      | arr items =>
          obtain ⟨i, hi, hlt, hc⟩ := child_arr_eq_some hc
          refine ⟨[indexText (items.length - 1)], ?_, ?_⟩
          · rw [get_cons, child, index_indexText, Option.bind_some,
              List.getElem?_eq_getElem (by omega)]
            exact Option.some_ne_none _
          · rw [erase, hi, get_cons, child, index_indexText, Option.bind_some,
              List.getElem?_eq_none]
            · rfl
            · rw [List.length_eraseIdx_of_lt hlt]
      | _ => cases hc
  | @inner j c s p hc hinner ih =>
      obtain ⟨q, hq, hgone⟩ := ih (distinct_of_child hj hc)
      have hp : p ≠ [] := by
        rintro rfl
        cases hinner
      obtain ⟨j', hput, hc', -⟩ := put_of_child hc (delete c p)
      refine ⟨lastItem j s :: q, ?_, ?_⟩
      · rwa [get_cons, hc]
      · rw [delete, hc]
        simp only [if_neg hp]
        rw [hput, Option.getD_some, get_cons, hc', Option.bind_some, hgone]

/-! ## Deletions after a value was put -/

theorem nodup_setMember {ms : List (String × Json)} (h : (ms.map Prod.fst).Nodup) :
    ((setMember ms s v).map Prod.fst).Nodup := by
  induction ms with
  | nil => exact List.nodup_singleton _
  | cons m ms ih =>
      rw [List.map_cons, List.nodup_cons] at h
      rw [setMember]
      split
      next hm =>
        rw [List.map_cons, List.nodup_cons]
        exact ⟨hm ▸ h.1, h.2⟩
      next hm =>
        rw [List.map_cons, List.nodup_cons]
        refine ⟨fun hmem => ?_, ih h.2⟩
        obtain ⟨m', hm', heq⟩ := List.mem_map.1 hmem
        rcases mem_setMember hm' with rfl | hm'
        · exact hm heq.symm
        · exact h.1 (heq ▸ List.mem_map_of_mem hm')

theorem nodup_put (hj : ((entries j).map Prod.fst).Nodup) (hc : isContainer j = true)
    (h : put j s v = some j') : ((entries j').map Prod.fst).Nodup := by
  have harray := isArray_put h hc
  rw [put_eq_putIn hc] at h
  cases j with
  | obj ms =>
      cases h
      exact nodup_setMember hj
  | arr items =>
      cases j' with
      | arr items' => exact nodup_entries_arr items'
      | _ => cases harray
  | _ => cases hc

/-- An element stays the last one unless the array is extended. -/
theorem isLast_put_iff (hne : ¬ SameChild j s t) (hs : child j s = some c)
    (h : put j t w = some j') :
    IsLast j' s ↔ IsLast j s ∧ (isArray j = true → child j t ≠ none) := by
  rw [put_eq_putIn (isContainer_of_child hs)] at h
  cases j with
  | obj ms =>
      cases h
      exact iff_of_true trivial ⟨trivial, fun harray => absurd harray Bool.false_ne_true⟩
  | arr items =>
      obtain ⟨i, hi, hlt, hs⟩ := child_arr_eq_some hs
      rw [putIn] at h
      cases hn : index t with
      | none =>
          rw [hn] at h
          simp only at h
          split at h
          · cases h
            rw [IsLast, IsLast, hi, child, hn]
            simp only [Option.some.injEq, List.length_append, List.length_singleton]
            refine iff_of_false (by omega) fun h => h.2 rfl rfl
          · cases h
      | some n =>
          have hin : n ≠ i := by
            rintro rfl
            exact hne (Or.inr ⟨rfl, by rw [hi]; exact Option.some_ne_none n, by rw [hi, hn]⟩)
          rw [hn] at h
          cases h
          rw [IsLast, IsLast, hi, child, hn, Option.bind_some, setItem, ne_eq,
            List.getElem?_eq_none_iff, not_le]
          simp only [Option.some.injEq]
          split
          next hle =>
            rw [List.length_set]
            exact ⟨fun h => ⟨h, fun _ => hle⟩, fun h => h.1⟩
          next hle =>
            simp only [List.length_append, List.length_replicate, List.length_singleton]
            exact iff_of_false (by omega) fun h => hle (h.2 rfl)
  | _ => cases hs

theorem last_put_iff (hne : ¬ SameChild j s t) (hs : child j s = some c)
    (h : put j t w = some j') :
    Last j' (s :: p) ↔
      Last j (s :: p) ∧ (p = [] → isArray j = true → child j t ≠ none) := by
  by_cases hp : p = []
  · subst hp
    rw [last_singleton, last_singleton, isLast_put_iff hne hs h]
    simp only [true_implies]
  · have hs' : child j' s = some c := child_of_put_of_ne h (fun hsame => hne hsame.symm) hs
    rw [last_cons hs hp, last_cons hs' hp]
    exact ⟨fun hlast => ⟨hlast, fun hnil => absurd hnil hp⟩, fun hlast => hlast.1⟩

theorem apart_put (hs : child j s = some c) (hs' : child j' s = some c)
    (harray : isArray j' = isArray j) (h : Apart j (s :: p) q) : Apart j' (s :: p) q := by
  have hiff (t : String) : SameChild j' s t ↔ SameChild j s t := by
    rw [SameChild, SameChild, harray]
  cases h with
  | here hne => exact .here fun hsame => hne ((hiff _).1 hsame)
  | missing hsame hnone => rw [hs] at hnone; cases hnone
  | inner hsame hchild hinner =>
      rw [hs] at hchild
      cases hchild
      exact .inner ((hiff _).2 hsame) hs' hinner

end

end JsonDelete
