import DazeApi.Lib.JsonDelete
import DazeApi.Overrides.Untouched
import DazeApi.Overrides.WildcardAgreement

/-!
# Values that are moved

A move (`moveValue`, `relay/common/override.go`) writes the value at its new place and then deletes
it at the old one.  Both paths are read in the request as it was: it relocates the value exactly if
the new place is free, no element follows the old one, and the deletion takes nothing of what
was written (`relocated_iff`).
-/

namespace DazeApi.Overrides.Relocation

open JsonText JsonPath JsonDecode JsonWrite JsonDelete ParamOverride Untouched
open Failing (bind_eq_ok)
open Relay (Context)
open Wildcard (getText setText Document pair)

/-! ## What a move is for -/

/-- A scalar, or an empty container that the other path does not extend. -/
def Leaf (doc : Json) (q t : List String) (x : Json) : Prop :=
  isContainer x = false ∨ entries x = [] ∧ ¬ Contains doc q t

/-- The value is at its new place, gone from the old one, and all else is as it was. -/
structure Relocated (canon : Numbers) (v doc doc' : Json) (p t : List String) : Prop where
  moved : SameValue canon (JsonPath.get doc' t) (some v)
  gone : ¬ Contains doc p t → JsonPath.get doc' p = none
  kept : ∀ q x, JsonPath.get doc q = some x → Leaf doc q t x → ¬ Contains doc p q →
    ¬ Contains doc t q → JsonPath.get doc' q = some x

/-- The places between which a value can be moved.  Either the old one lies in the new one, and the
value has nothing there; or they are apart. -/
inductive Movable (v : Json) : Json → List String → List String → Prop
  | over {j : Json} {p : List String} (hp : p ≠ []) (h : ¬ Deletes v p) : Movable v j p []
  | inner {j c : Json} {s t : String} {p q : List String} (h : SameChild j s t)
      (hchild : child j s = some c) (hinner : Movable v c p q) : Movable v j (s :: p) (t :: q)
  | apart {j : Json} {s t : String} {p q : List String} (h : ¬ SameChild j s t)
      (hlast : Last j (s :: p)) (hroom : p = [] → isArray j = true → child j t ≠ none)
      (hfree : Free j (t :: q)) : Movable v j (s :: p) (t :: q)

section

variable {nums canon : Numbers} {j j' c c' v w x doc doc' : Json} {s t : String}
  {p q : List String}

/-! ## What is decoded -/

theorem child_decode (hj : Distinct j) (s : String) :
    child (decode nums j) s = (child j s).map (decode nums) := by
  cases j with
  | obj ms => exact member_decoded nums hj.nodup s
  | arr items =>
      rw [decode, child, child, decodeItems_eq_map]
      cases index s with
      | none => rfl
      | some i => exact List.getElem?_map
  | _ => rfl

theorem get_decode (hj : Distinct j) (p : List String) :
    JsonPath.get (decode nums j) p = (JsonPath.get j p).map (decode nums) := by
  induction p generalizing j with
  | nil => rfl
  | cons s p ih =>
      rw [get_cons, get_cons, child_decode hj]
      cases hchild : child j s with
      | none => rfl
      | some c => exact ih (distinct_of_child hj hchild)

theorem distinct_of_canonical (h : Canonical nums j) : Distinct j := by
  induction h with
  | arr _ ih => exact distinct_arr_iff.2 ih
  | obj hkeys _ ih => exact .mk (hkeys.imp ne_of_lt) ih
  | _ => exact .mk List.nodup_nil (List.forall_mem_nil _)

theorem distinct_decode (nums : Numbers) (j : Json) : Distinct (decode nums j) :=
  distinct_of_canonical (canonical_decode j)

/-! ## What a deletion takes away -/

/-- A decoded value is no longer the same after a deletion. -/
theorem not_sameValue_delete (hv : Distinct v) (h : Deletes (decode nums v) p) :
    ¬ SameValue canon (some (delete (decode nums v) p)) (some v) := by
  intro hsame
  have hdistinct := distinct_decode nums v
  obtain ⟨q, hq, hgone⟩ := exists_gone h hdistinct
  have heq : decode canon (delete (decode nums v) p) = decode canon v := Option.some.inj hsame
  have hget := congrArg (JsonPath.get · q) heq
  simp only [get_decode (distinct_delete hdistinct p), get_decode hv, hgone] at hget
  rw [get_decode hv] at hq
  cases hnone : JsonPath.get v q with
  | none => rw [hnone] at hq; exact hq rfl
  | some c => rw [hnone] at hget; cases hget

/-- Every value has a place without entries. -/
theorem exists_leaf (j : Json) : ∃ q x, JsonPath.get j q = some x ∧ entries x = [] := by
  induction j using JsonDecode.induction with
  | scalar j hj =>
      refine ⟨[], j, rfl, ?_⟩
      cases j with
      | arr items => cases hj
      | obj ms => cases hj
      | _ => rfl
  | arr items ih =>
      cases items with
      | nil => exact ⟨[], _, rfl, rfl⟩
      | cons item items =>
          obtain ⟨q, x, hq, hx⟩ := ih item List.mem_cons_self
          refine ⟨indexText 0 :: q, x, ?_, hx⟩
          rw [get_cons, child, index_indexText]
          exact hq
  | obj ms ih =>
      cases ms with
      | nil => exact ⟨[], _, rfl, rfl⟩
      | cons m ms =>
          obtain ⟨q, x, hq, hx⟩ := ih m List.mem_cons_self
          refine ⟨m.1 :: q, x, ?_, hx⟩
          rw [get_cons, child, member_cons, if_pos rfl]
          exact hq

end

/-! ## One step of both paths -/

section

variable {canon : Numbers} {j j' c c' v w x : Json} {s t : String} {p q : List String}

theorem Leaf.child_ne_none (h : child j s = some c) : ¬ Leaf j [] q j := by
  rintro (hx | ⟨hx, -⟩)
  · rw [isContainer_of_child h] at hx
    cases hx
  · exact entries_ne_nil_of_child h hx

theorem leaf_cons_iff (hsame : SameChild j s t) (hs : child j s = some c) :
    Leaf j (s :: p) (t :: q) x ↔ Leaf c p q x := by
  rw [Leaf, Leaf, contains_cons_iff hsame hs]

/-- Where both paths lead into one child, what becomes of it decides. -/
theorem relocated_cons_iff (hsame : SameChild j s t) (hs : child j s = some c)
    (hput : put j s c' = some j') :
    Relocated canon v j j' (s :: p) (t :: q) ↔ Relocated canon v c c' p q := by
  have ht : child j t = some c := (child_of_sameChild hsame).symm.trans hs
  have hs' : child j' s = some c' := by
    have hd := child_put hs hput
    exact hd
  have hget {r : String} (hr : SameChild j s r) (q' : List String) :
      JsonPath.get j' (r :: q') = JsonPath.get c' q' := by
    rw [get_cons, ← child_of_sameChild (sameChild_of_put hput hr), hs', Option.bind_some]
  constructor
  · intro h
    refine ⟨?_, fun hnot => ?_, fun q' x hq' hx hp ht' => ?_⟩
    · rw [← hget hsame]
      exact h.moved
    · rw [← hget (Or.inl rfl)]
      exact h.gone fun hc => hnot ((contains_cons_iff hsame hs).1 hc)
    · rw [← hget (Or.inl rfl)]
      refine h.kept (s :: q') x ?_ ((leaf_cons_iff hsame hs).2 hx) ?_ ?_
      · rw [get_cons, hs, Option.bind_some, hq']
      · exact fun hc => hp ((contains_cons_iff (Or.inl rfl) hs).1 hc)
      · exact fun hc => ht' ((contains_cons_iff hsame.symm ht).1 hc)
  · intro h
    refine ⟨?_, fun hnot => ?_, fun q' x hq' hx hp ht' => ?_⟩
    · rw [hget hsame]
      exact h.moved
    · rw [hget (Or.inl rfl)]
      exact h.gone fun hc => hnot ((contains_cons_iff hsame hs).2 hc)
    · cases q' with
      | nil =>
          cases hq'
          exact absurd hx (Leaf.child_ne_none hs)
      | cons r q' =>
          by_cases hr : SameChild j s r
          · have hrc : child j r = some c := (child_of_sameChild hr).symm.trans hs
            have hrt : SameChild j r t := by
              rcases hr.symm with rfl | ⟨harray, hindex, heq⟩
              · exact hsame
              · rcases hsame with rfl | ⟨-, -, heq'⟩
                · exact Or.inr ⟨harray, hindex, heq⟩
                · exact Or.inr ⟨harray, hindex, heq.trans heq'⟩
            rw [hget hr]
            rw [get_cons, hrc, Option.bind_some] at hq'
            refine h.kept q' x hq' ((leaf_cons_iff hrt hrc).1 hx) ?_ ?_
            · exact fun hc => hp ((contains_cons_iff hr hs).2 hc)
            · exact fun hc => ht' ((contains_cons_iff hrt.symm ht).2 hc)
          · rw [get_cons, child_put_of_ne hr hs hput, ← get_cons, hq']

/-- What is written into the old place is deleted with it. -/
theorem not_relocated_into (hj : Distinct j) (hsame : SameChild j s t)
    (hs : child j s = some c) (hput : put j t w = some j') :
    ¬ Relocated canon v j (delete j' [s]) [s] (t :: q) := by
  intro h
  have ht : child j t = some c := (child_of_sameChild hsame).symm.trans hs
  have hd := child_put ht hput
  have hs' : child j' s = some w :=
    (child_of_sameChild (sameChild_of_put hput hsame.symm)).symm.trans hd
  have hmoved : child (delete j' [s]) t ≠ none := by
    intro hnone
    have hm := h.moved
    rw [get_cons, hnone] at hm
    cases hm
  rw [delete_singleton_of_child hs'] at h hmoved
  rw [put_eq_putIn (isContainer_of_child ht)] at hput
  cases j with
  | obj ms =>
      cases hput
      rcases hsame with rfl | ⟨harray, -⟩
      · refine hmoved ((child_erase_self ?_ hs').2 trivial)
        rw [entries, map_fst_setMember ht]
        exact hj.nodup
      · cases harray
  | arr items =>
      obtain ⟨i, hi, hlt, ht⟩ := child_arr_eq_some ht
      have his : index s = some i := by
        rcases hsame with rfl | ⟨-, -, heq⟩
        · exact hi
        · exact heq.trans hi
      simp only [putIn, hi, setItem, if_pos hlt, Option.some.injEq] at hput
      subst hput
      simp only [erase, his, child, hi, Option.bind_some, ne_eq, List.getElem?_eq_none_iff,
        List.length_eraseIdx, List.length_set, if_pos hlt, not_le] at hmoved
      have hlength : items.length - 1 < items.length := by omega
      obtain ⟨q', x, hq', hx⟩ := exists_leaf items[items.length - 1]
      have hne {r : String} (hr : index r = some i) :
          ¬ SameChild (.arr items) r (indexText (items.length - 1)) := by
        rintro (rfl | ⟨-, -, heq⟩)
        · rw [index_indexText] at hr
          cases hr
          omega
        · rw [hr, index_indexText] at heq
          cases heq
          omega
      have hkept := h.kept (indexText (items.length - 1) :: q') x ?_ (Or.inr ⟨hx, ?_⟩)
        (not_contains_of_ne (hne his)) (not_contains_of_ne (hne hi))
      · simp only [erase, his, get_cons, child, index_indexText, Option.bind_some] at hkept
        rw [List.getElem?_eq_none] at hkept
        · cases hkept
        · simp only [List.length_eraseIdx, List.length_set, if_pos hlt, le_refl]
      · rw [get_cons, child, index_indexText, Option.bind_some,
          List.getElem?_eq_getElem hlength]
        exact hq'
      · exact not_contains_of_ne fun hsame' => hne hi hsame'.symm
  | _ => cases ht

end

/-! ## Places that are apart -/

section

variable {nums canon : Numbers} {j j' c c' v w x : Json} {s t : String} {p q : List String}

theorem length_le_of_contains (h : Contains j p q) : p.length ≤ q.length := by
  induction h with
  | here => exact Nat.zero_le _
  | inner _ _ _ ih => exact Nat.succ_le_succ ih

theorem Leaf.entries_eq_nil (h : Leaf j p q x) : entries x = [] := by
  rcases h with hx | ⟨hx, -⟩
  · cases x with
    | arr items => cases hx
    | obj ms => cases hx
    | _ => rfl
  · exact hx

/-- On a free way all else stays as it was. -/
theorem get_set_of_leaf (hfree : Free j p) (hset : set j p w = some j')
    (hq : JsonPath.get j q = some x) (hx : Leaf j q p x) (hnot : ¬ Contains j p q) :
    JsonPath.get j' q = some x := by
  rcases contains_or_apart hq with h | h | h
  · exact absurd h hnot
  · exact get_of_set_of_apart h hset hq
  · rcases hx with hx | ⟨-, hx⟩
    · exact absurd (hfree.contains h hq hx) hnot
    · exact absurd h hx

theorem apart_of_leaf (hp : JsonPath.get j p = some v) (hq : JsonPath.get j q = some x)
    (hx : entries x = []) (hnot : ¬ Contains j p q) : Apart j p q := by
  rcases contains_or_apart hq with h | h | h
  · exact absurd h hnot
  · exact h
  · exact absurd (h.of_leaf hq hx hp) hnot

/-- Between places that are apart a value is moved exactly if the new one is free and no element
follows the old one. -/
theorem relocated_apart_iff (hj : Distinct j) (hne : ¬ SameChild j s t)
    (hs : child j s = some c) (hp : JsonPath.get c p = some v)
    (hset : set j (t :: q) w = some j') :
    Relocated canon v j (delete j' (s :: p)) (s :: p) (t :: q) ↔
      SameValue canon (some w) (some v) ∧ Last j (s :: p) ∧
        (p = [] → isArray j = true → child j t ≠ none) ∧ Free j (t :: q) := by
  have hfull := hset
  rw [JsonPath.set, Option.bind_eq_some_iff] at hset
  obtain ⟨u, -, hput⟩ := hset
  have hs' : child j' s = some c := child_of_put_of_ne hput (fun hsame => hne hsame.symm) hs
  have hcontainer := isContainer_of_child hs
  have harray := isArray_put hput hcontainer
  have hget : JsonPath.get j (s :: p) = some v := by rw [get_cons, hs, Option.bind_some, hp]
  have hget' : JsonPath.get j' (s :: p) = some v := by rw [get_cons, hs', Option.bind_some, hp]
  have hne' : ¬ SameChild j' s t := by rwa [SameChild, harray]
  have hgone : JsonPath.get (delete j' (s :: p)) (s :: p) = none ↔ Last j' (s :: p) :=
    get_delete_self (nodup_put hj.nodup hcontainer hput) hs' (distinct_of_child hj hs) hp
  have hbeside (hlast : Last j' (s :: p)) (q' : List String) :
      JsonPath.get (delete j' (s :: p)) (t :: q') = JsonPath.get j' (t :: q') :=
    get_delete_of_apart (.here hne') hget' hlast
  rw [last_put_iff hne hs hput] at hgone
  constructor
  · intro h
    have hlast := hgone.1 (h.gone (not_contains_of_ne hne))
    have hlast' := (last_put_iff hne hs hput).2 hlast
    have hmoved := h.moved
    rw [hbeside hlast'] at hmoved
    have hfree : Free j (t :: q) := by
      refine free_of_get_set hfull (fun hnone => ?_) fun q' r x heq hr hq' hx => ?_
      · rw [hnone] at hmoved
        cases hmoved
      · cases q' with
        | nil =>
            cases hq'
            rw [hcontainer] at hx
            cases hx
        | cons t' q' =>
            rw [List.cons_append, List.cons.injEq] at heq
            obtain ⟨rfl, rfl⟩ := heq
            rw [← hbeside hlast']
            refine h.kept _ x hq' (Or.inl hx) (not_contains_of_ne hne) fun hc => hr ?_
            have hlength := length_le_of_contains hc
            rw [List.length_cons, List.length_cons, List.length_append] at hlength
            exact List.length_eq_zero_iff.1 (by omega)
    rw [get_set_of_free hfree hfull] at hmoved
    exact ⟨hmoved, hlast.1, hlast.2, hfree⟩
  · rintro ⟨hmoved, hlast, hroom, hfree⟩
    have hlast' := (last_put_iff hne hs hput).2 ⟨hlast, hroom⟩
    refine ⟨?_, fun _ => hgone.2 ⟨hlast, hroom⟩, fun q' x hq' hx hnot hto => ?_⟩
    · rw [hbeside hlast', get_set_of_free hfree hfull]
      exact hmoved
    · have hapart := apart_put hs hs' harray (apart_of_leaf hget hq' hx.entries_eq_nil hnot)
      rw [get_delete_of_apart hapart hget' hlast', get_set_of_leaf hfree hfull hq' hx hto]

/-! ## Exactly when a value is moved -/

theorem not_movable_nil (v : Json) : ¬ Movable v j [] q := by
  rintro (⟨hp, -⟩ | _)
  exact hp rfl

theorem movable_cons_iff (hsame : SameChild j s t) (hs : child j s = some c) :
    Movable v j (s :: p) (t :: q) ↔ Movable v c p q := by
  constructor
  · rintro (_ | ⟨-, hchild, hinner⟩ | ⟨hne, -⟩)
    · rw [hs] at hchild
      cases hchild
      exact hinner
    · exact absurd hsame hne
  · exact .inner hsame hs

theorem movable_apart_iff (hne : ¬ SameChild j s t) :
    Movable v j (s :: p) (t :: q) ↔ Last j (s :: p) ∧
      (p = [] → isArray j = true → child j t ≠ none) ∧ Free j (t :: q) := by
  constructor
  · rintro (_ | ⟨hsame, -⟩ | ⟨-, hlast, hroom, hfree⟩)
    · exact absurd hsame hne
    · exact ⟨hlast, hroom, hfree⟩
  · rintro ⟨hlast, hroom, hfree⟩
    exact .apart hne hlast hroom hfree

theorem relocated_iff_movable (hj : Distinct j) (hp : p ≠ []) (hget : JsonPath.get j p = some v)
    (hv : Distinct v) (hset : set j q (decode nums v) = some j') :
    Relocated canon v j (delete j' p) p q ↔
      AllNumbers (Survives nums canon) v ∧ Movable (decode nums v) j p q := by
  have hsurvives : SameValue canon (some (decode nums v)) (some v) ↔
      AllNumbers (Survives nums canon) v := by
    rw [← decode_decode_iff v hv]
    exact Option.some_inj
  induction q generalizing j j' p with
  | nil =>
      cases hset
      constructor
      · intro h
        have hnot : ¬ Deletes (decode nums v) p := fun hd => not_sameValue_delete hv hd h.moved
        have hmoved := h.moved
        rw [delete_of_not_deletes hnot] at hmoved
        exact ⟨hsurvives.1 hmoved, .over hp hnot⟩
      · rintro ⟨hnumbers, ⟨-, hnot⟩⟩
        rw [delete_of_not_deletes hnot]
        refine ⟨hsurvives.2 hnumbers, fun _ => ?_, fun q' x _ _ _ ht => absurd (.here j q') ht⟩
        by_contra hsome
        exact hnot (deletes_of_get hp hsome)
  | cons t q ih =>
      cases p with
      | nil => exact absurd rfl hp
      | cons s p =>
          rw [get_cons, Option.bind_eq_some_iff] at hget
          obtain ⟨c, hs, hget⟩ := hget
          by_cases hsame : SameChild j s t
          · have ht : child j t = some c := (child_of_sameChild hsame).symm.trans hs
            rw [set_cons_of_child ht, Option.bind_eq_some_iff] at hset
            obtain ⟨u, hu, hput⟩ := hset
            rw [movable_cons_iff hsame hs]
            by_cases hnil : p = []
            · subst hnil
              exact iff_of_false (not_relocated_into hj hsame hs hput)
                fun h => not_movable_nil _ h.2
            · obtain ⟨d, hput', hd, hagain⟩ := put_of_child ht u
              rw [hput] at hput'
              cases hput'
              have hsame' := sameChild_of_put hput hsame.symm
              have hs' : child j' s = some u := (child_of_sameChild hsame').symm.trans hd
              have hdelete : put j s (delete u p) = some (delete j' (s :: p)) := by
                rw [← delete_inner hs' hnil, put_of_sameChild hsame, ← hagain,
                  put_of_sameChild hsame']
              rw [relocated_cons_iff hsame hs hdelete]
              exact ih (distinct_of_child hj hs) hnil hget hu
          · rw [relocated_apart_iff hj hsame hs hget hset, movable_apart_iff hsame, hsurvives]

end

/-- The segments of a path of an operation, with its negative indices resolved. -/
def place (doc : Json) (path : String) : List String :=
  segments (NegativeIndex.processNegativeIndex doc path)

section

variable {env : Env} {canon : Numbers} {doc doc' j v : Json} {op : ParamOperation}
  {ctx ctx' : Context} {p : List String}

theorem segments_ne_nil (path : String) : segments path ≠ [] := by
  obtain ⟨s, ps, heq, -⟩ := Text.splitAt_spec path '.'
  rw [segments, heq]
  exact List.cons_ne_nil s ps

theorem distinct_get (hj : Distinct j) (h : JsonPath.get j p = some v) : Distinct v := by
  induction p generalizing j with
  | nil =>
      cases h
      exact hj
  | cons s p ih =>
      rw [get_cons, Option.bind_eq_some_iff] at h
      obtain ⟨c, hc, h⟩ := h
      exact ih (distinct_of_child hj hc) h

/-- A move reads, writes and deletes. -/
theorem move_eq_ok (h : applyMode env op doc ctx .move = .ok (doc', ctx')) :
    ∃ v w, JsonPath.get doc (place doc op.source) = some v ∧
      set doc (place doc op.target) (decode env.nums v) = some w ∧
      doc' = delete w (place doc op.source) := by
  rw [applyMode, if_neg (by decide)] at h
  obtain ⟨d, hd, h⟩ := bind_eq_ok h
  cases h
  rw [moveValue] at hd
  cases hv : getText doc (NegativeIndex.processNegativeIndex doc op.source) with
  | none => rw [hv] at hd; cases hd
  | some v =>
      rw [hv] at hd
      cases hset : setText doc (NegativeIndex.processNegativeIndex doc op.target)
          (decode env.nums v) with
      | error message => simp only [hset] at hd; cases hd
      | ok w =>
          simp only [hset] at hd
          cases hd
          refine ⟨v, w, hv, ?_, rfl⟩
          rw [setText] at hset
          split at hset
          · cases hset
          · split at hset
            next heq =>
              cases hset
              exact heq
            next => cases hset

end

/-- A move without conditions. -/
def moveOperation (source target : String) : ParamOperation where
  path := ""
  mode := "move"
  value := .null
  keepOrigin := false
  source := source
  target := target
  conditions := []
  logic := ""

end DazeApi.Overrides.Relocation
