import DazeApi.Lib.Json
import DazeApi.Lib.Text
import Mathlib.Data.List.Nodup

/-!
# Dotted paths into JSON values

A path is the list of its segments: a segment names a member of an object, or an element of
an array by its decimal index.  Of equal names the first one counts.
-/

namespace JsonPath

open JsonText

/-! ## Paths as texts -/

/-- The segments of a dotted path. -/
def segments (path : String) : List String := Text.splitAt path '.'

/-- A segment as the index of an element. -/
def index (s : String) : Option ℕ := Decimal.parseNat s.toList

def indexText (n : ℕ) : String := String.ofList (Decimal.formatNat n)

@[simp] theorem index_indexText (n : ℕ) : index (indexText n) = some n := by
  rw [index, indexText, String.toList_ofList, Decimal.parseNat_formatNat]

theorem indexText_injective {m n : ℕ} (h : indexText m = indexText n) : m = n := by
  have hindex := congrArg index h
  rw [index_indexText, index_indexText] at hindex
  exact Option.some.inj hindex

theorem segments_join (hp : p ≠ []) (hplain : ∀ s ∈ p, '.' ∉ s.toList) :
    segments (Text.join p '.') = p := Text.splitAt_join p hp hplain

theorem not_dot_of_mem_segments (path : String) : ∀ s ∈ segments path, '.' ∉ s.toList := by
  obtain ⟨p, ps, heq, -, hdots⟩ := Text.splitAt_spec path '.'
  rw [segments, heq]
  exact hdots

/-! ## Reading -/

/-- The members of an object that have a name, of which the first counts. -/
def member (ms : List (String × Json)) (key : String) : Option Json :=
  (ms.find? (·.1 = key)).map Prod.snd

/-- What a segment leads to. -/
def child : Json → String → Option Json
  | .obj ms, s => member ms s
  | .arr items, s => (index s).bind (items[·]?)
  | _, _ => none

def get : Json → List String → Option Json
  | j, [] => some j
  | j, s :: p => (child j s).bind (get · p)

@[simp] theorem get_nil (j : Json) : get j [] = some j := rfl

theorem get_cons (j : Json) (s : String) (p : List String) :
    get j (s :: p) = (child j s).bind (get · p) := rfl

/-! ## Writing -/

/-- The first member of the name gets the value, or a member is added. -/
def setMember : List (String × Json) → String → Json → List (String × Json)
  | [], key, v => [(key, v)]
  | m :: ms, key, v => if m.1 = key then (key, v) :: ms else m :: setMember ms key v

/-- An element gets the value; an array that is too short is filled up. -/
def setItem (items : List Json) (i : ℕ) (v : Json) : List Json :=
  if i < items.length then items.set i v
  else items ++ List.replicate (i - items.length) .null ++ [v]

/-- What is missing or no container is replaced by an empty one. -/
def fresh (numeric : Bool) : Json := if numeric then .arr [] else .obj []

/-- A container with a value at a segment; `-1` is the place behind the last element. -/
def putIn : Json → String → Json → Option Json
  | .obj ms, s, v => some (.obj (setMember ms s v))
  | .arr items, s, v =>
      match index s with
      | some i => some (.arr (setItem items i v))
      | none => if s = "-1" then some (.arr (items ++ [v])) else none
  | _, _, _ => none

def isContainer : Json → Bool
  | .obj _ => true
  | .arr _ => true
  | _ => false

def put (j : Json) (s : String) (v : Json) : Option Json :=
  putIn (if isContainer j then j else fresh (index s).isSome) s v

/-- What a path is written into where there is nothing. -/
def blank : List String → Json
  | [] => .null
  | s :: _ => fresh ((index s).isSome || s = "-1")

def set : Json → List String → Json → Option Json
  | _, [], v => some v
  | j, s :: p, v => (set ((child j s).getD (blank p)) p v).bind (put j s)

/-! ## Deleting -/

/-- In a deletion `-1` is the last element. -/
def lastItem : Json → String → String
  | .arr items, s => if s = "-1" ∧ items ≠ [] then indexText (items.length - 1) else s
  | _, s => s

def erase : Json → String → Json
  | .obj ms, s => .obj (ms.eraseP (·.1 = s))
  | .arr items, s =>
      match index s with
      | some i => .arr (items.eraseIdx i)
      | none => .arr items
  | j, _ => j

/-- What is not there is not deleted; later elements of an array move up. -/
def delete : Json → List String → Json
  | j, [] => j
  | j, s :: p =>
      match child j (lastItem j s) with
      | none => j
      | some c =>
          if p = [] then erase j (lastItem j s)
          else (put j (lastItem j s) (delete c p)).getD j

/-! ## Members -/

section

variable {ms : List (String × Json)} {key key' : String} {v w c : Json}

@[simp] theorem member_nil (key : String) : member [] key = none := rfl

theorem member_cons (m : String × Json) (ms : List (String × Json)) (key : String) :
    member (m :: ms) key = if m.1 = key then some m.2 else member ms key := by
  rw [member, List.find?_cons]
  by_cases h : m.1 = key
  · simp [h]
  · simp [h, member]

theorem member_eq_none_iff : member ms key = none ↔ key ∉ ms.map Prod.fst := by
  induction ms with
  | nil => simp
  | cons m ms ih =>
      rw [member_cons, List.map_cons, List.mem_cons, not_or, ← ih]
      by_cases h : m.1 = key
      · simp [h]
      · simp [h, Ne.symm h]

theorem member_of_mem (hms : (ms.map Prod.fst).Nodup) (h : (key, v) ∈ ms) :
    member ms key = some v := by
  induction ms with
  | nil => cases h
  | cons m ms ih =>
      rw [List.map_cons, List.nodup_cons] at hms
      rw [member_cons]
      rcases List.mem_cons.1 h with rfl | h
      · rw [if_pos rfl]
      · rw [if_neg, ih hms.2 h]
        intro heq
        exact hms.1 (heq ▸ List.mem_map_of_mem h)

theorem mem_of_member (h : member ms key = some v) : (key, v) ∈ ms := by
  rw [member, Option.map_eq_some_iff] at h
  obtain ⟨m, hm, rfl⟩ := h
  have hkey := List.find?_some hm
  rw [decide_eq_true_eq] at hkey
  rw [← hkey]
  exact List.mem_of_find?_eq_some hm

theorem member_setMember : member (setMember ms key v) key' =
    if key' = key then some v else member ms key' := by
  induction ms with
  | nil =>
      rw [setMember, member_cons, member_nil]
      simp [eq_comm]
  | cons m ms ih =>
      rw [setMember]
      split
      next h =>
        rw [member_cons, member_cons]
        by_cases hk : key' = key
        · simp [hk]
        · simp [hk, h, Ne.symm hk]
      next h =>
        rw [member_cons, member_cons, ih]
        by_cases hk : key' = key
        · subst hk
          simp [h]
        · simp [hk]

/-- A member that is there is set in its place. -/
theorem map_fst_setMember (h : member ms key = some c) :
    (setMember ms key v).map Prod.fst = ms.map Prod.fst := by
  induction ms with
  | nil => cases h
  | cons m ms ih =>
      rw [member_cons] at h
      rw [setMember]
      split
      next hm => rw [List.map_cons, List.map_cons, hm]
      next hm =>
        rw [if_neg hm] at h
        rw [List.map_cons, List.map_cons, ih h]

theorem setMember_self (h : member ms key = some c) : setMember ms key c = ms := by
  induction ms with
  | nil => cases h
  | cons m ms ih =>
      rw [member_cons] at h
      rw [setMember]
      split
      next hm =>
        rw [if_pos hm] at h
        rw [← hm, ← Option.some.inj h]
      next hm =>
        rw [if_neg hm] at h
        rw [ih h]

theorem setMember_setMember : setMember (setMember ms key v) key w = setMember ms key w := by
  induction ms with
  | nil => simp only [setMember, if_true]
  | cons m ms ih =>
      rw [setMember, setMember]
      split
      next hm => rw [setMember, if_pos rfl]
      next hm => rw [setMember, if_neg hm, ih]

/-- With distinct names, setting a member changes that one. -/
theorem setMember_eq_map (hms : (ms.map Prod.fst).Nodup) (h : member ms key = some c) :
    setMember ms key v = ms.map fun m => if m.1 = key then (key, v) else m := by
  induction ms with
  | nil => cases h
  | cons m ms ih =>
      rw [List.map_cons, List.nodup_cons] at hms
      rw [member_cons] at h
      rw [setMember, List.map_cons]
      split
      next hm =>
        congr 1
        rw [List.map_congr_left, List.map_id]
        intro m' hm'
        rw [if_neg]
        · rfl
        · rintro rfl
          exact hms.1 (hm ▸ List.mem_map_of_mem hm')
      next hm =>
        rw [if_neg hm] at h
        rw [ih hms.2 h]

/-! ## Children -/

variable {j j' : Json} {s t : String} {p : List String}

theorem isContainer_of_child (h : child j s = some c) : isContainer j = true := by
  cases j with
  | obj ms => rfl
  | arr items => rfl
  | _ => cases h

theorem child_arr_eq_some {items : List Json} (h : child (.arr items) s = some c) :
    ∃ i, index s = some i ∧ i < items.length ∧ items[i]? = some c := by
  rw [child, Option.bind_eq_some_iff] at h
  obtain ⟨i, hi, hc⟩ := h
  exact ⟨i, hi, (List.getElem?_eq_some_iff.1 hc).1, hc⟩

theorem put_eq_putIn (h : isContainer j = true) : put j s v = putIn j s v := by
  rw [put, if_pos h]

/-- What is there can be set, and is then what is there. -/
theorem put_of_child (h : child j s = some c) (v : Json) : ∃ j', put j s v = some j' ∧
    child j' s = some v ∧ ∀ w, put j' s w = put j s w := by
  rw [put_eq_putIn (isContainer_of_child h)]
  cases j with
  | obj ms =>
      refine ⟨.obj (setMember ms s v), rfl, by rw [child, member_setMember, if_pos rfl], ?_⟩
      intro w
      rw [put_eq_putIn rfl, put_eq_putIn rfl, putIn, putIn, setMember_setMember]
  | arr items =>
      obtain ⟨i, hi, hlt, h⟩ := child_arr_eq_some h
      refine ⟨.arr (items.set i v), ?_, ?_, ?_⟩
      · simp only [putIn, hi, setItem, if_pos hlt]
      · rw [child, hi, Option.bind_some, List.getElem?_set_self hlt]
      · intro w
        rw [put_eq_putIn rfl, put_eq_putIn rfl]
        simp only [putIn, hi, setItem, List.length_set, if_pos hlt, List.set_set]
  | _ => cases h

theorem child_put (hc : child j s = some c) (h : put j s v = some j') : child j' s = some v := by
  obtain ⟨d, hput, hd, -⟩ := put_of_child hc v
  rw [h] at hput
  cases hput
  exact hd

theorem put_self (h : child j s = some c) : put j s c = some j := by
  rw [put_eq_putIn (isContainer_of_child h)]
  cases j with
  | obj ms => rw [putIn, setMember_self h]
  | arr items =>
      obtain ⟨i, hi, -, h⟩ := child_arr_eq_some h
      obtain ⟨hlt, rfl⟩ := List.getElem?_eq_some_iff.1 h
      simp only [putIn, hi, setItem, if_pos hlt, List.set_getElem_self]
  | _ => cases h

theorem set_cons_of_child (h : child j s = some c) (p : List String) (v : Json) :
    set j (s :: p) v = (set c p v).bind (put j s) := by
  rw [set, h, Option.getD_some]

/-- Writing what is there changes nothing. -/
theorem set_self (h : get j p = some c) : set j p c = some j := by
  induction p generalizing j with
  | nil => exact h.symm
  | cons s p ih =>
      rw [get_cons, Option.bind_eq_some_iff] at h
      obtain ⟨d, hd, hc⟩ := h
      rw [set_cons_of_child hd, ih hc, Option.bind_some, put_self hd]

theorem getElem?_setItem_of_ne {items : List Json} {i n : ℕ} (hn : n ≠ i)
    (hi : items[i]? = some c) : (setItem items n v)[i]? = some c := by
  rw [setItem]
  split
  next => rw [List.getElem?_set_ne hn, hi]
  next =>
    have hlt := (List.getElem?_eq_some_iff.1 hi).1
    rw [List.append_assoc, List.getElem?_append_left hlt, hi]

/-! ## Deletions -/

variable {d : Json} {k : String} {ps : List (List String)}

theorem member_eraseP_of_ne {ms : List (String × Json)} (h : k ≠ s) :
    member (ms.eraseP (·.1 = k)) s = member ms s := by
  induction ms with
  | nil => rfl
  | cons m ms ih =>
      by_cases hm : m.1 = k
      · rw [List.eraseP_cons_of_pos (by simpa using hm), member_cons, if_neg (by rwa [hm])]
      · rw [List.eraseP_cons_of_neg (by simpa using hm), member_cons, member_cons, ih]

theorem lastItem_of_child (h : child d k = some c) : lastItem d k = k := by
  cases d with
  | arr items =>
      rw [lastItem, if_neg]
      rintro ⟨rfl, -⟩
      cases h
  | _ => rfl

theorem delete_cons_of_child (h : child d k = some c) {p : List String} (hp : p ≠ []) :
    delete d (k :: p) = (put d k (delete c p)).getD d := by
  rw [delete, lastItem_of_child h, h]
  exact if_neg hp

theorem foldl_delete_cons (h : child d k = some c) (hps : ∀ p ∈ ps, p ≠ []) :
    (ps.map (k :: ·)).foldl delete d = (put d k (ps.foldl delete c)).getD d := by
  induction ps generalizing c d with
  | nil => exact (congrArg (Option.getD · d) (put_self h)).symm
  | cons p ps ih =>
      rw [List.forall_mem_cons] at hps
      obtain ⟨d', hd', hchild, hput⟩ := put_of_child h (delete c p)
      rw [List.map_cons, List.foldl_cons, List.foldl_cons, delete_cons_of_child h hps.1, hd',
        Option.getD_some, ih hchild hps.2, hput]
      obtain ⟨d'', hd'', -⟩ := put_of_child h (ps.foldl delete (delete c p))
      rw [hd'', Option.getD_some, Option.getD_some]

theorem delete_singleton (d : Json) (k : String) : delete d [k] =
    if child d (lastItem d k) = none then d else erase d (lastItem d k) := by
  rw [delete]
  cases child d (lastItem d k) with
  | none => rfl
  | some c => rfl

theorem delete_obj_singleton {ms : List (String × Json)} (hms : (ms.map Prod.fst).Nodup)
    (k : String) : delete (.obj ms) [k] = .obj (ms.filter (·.1 ≠ k)) := by
  rw [delete_singleton]
  change (if member ms k = none then Json.obj ms else .obj (ms.eraseP (·.1 = k))) = _
  induction ms with
  | nil => rfl
  | cons m ms ih =>
      rw [List.map_cons, List.nodup_cons] at hms
      rw [member_cons]
      by_cases hm : m.1 = k
      · have hrest : ms.filter (·.1 ≠ k) = ms := by
          rw [List.filter_eq_self]
          intro m' hm'
          rw [decide_eq_true_eq]
          rintro rfl
          exact hms.1 (hm ▸ List.mem_map_of_mem hm')
        simpa [hm] using hrest.symm
      · have hrest := ih hms.2
        by_cases hmember : member ms k = none
        · rw [if_pos hmember] at hrest
          rw [if_neg hm, if_pos hmember, List.filter_cons_of_pos (by simpa using hm),
            ← (Json.obj.inj hrest)]
        · rw [if_neg hmember] at hrest
          rw [if_neg hm, if_neg hmember, List.filter_cons_of_pos (by simpa using hm),
            List.eraseP_cons_of_neg (by simpa using hm), Json.obj.inj hrest]

theorem delete_arr_singleton (items : List Json) (i : ℕ) :
    delete (.arr items) [indexText i] = .arr (items.eraseIdx i) := by
  have hlast : lastItem (.arr items) (indexText i) = indexText i := by
    rw [lastItem, if_neg]
    rintro ⟨hminus, -⟩
    have hindex := congrArg index hminus
    rw [index_indexText] at hindex
    cases hindex
  rw [delete_singleton, hlast, erase, index_indexText, child, index_indexText, Option.bind_some]
  split
  next hnone => rw [List.eraseIdx_of_length_le (List.getElem?_eq_none_iff.1 hnone)]
  next => rfl

theorem foldl_delete_obj {ms : List (String × Json)} (hms : (ms.map Prod.fst).Nodup)
    (ks : List String) : (ks.map fun k => [k]).foldl delete (.obj ms) =
      .obj (ms.filter (·.1 ∉ ks)) := by
  induction ks generalizing ms with
  | nil => simp
  | cons k ks ih =>
      rw [List.map_cons, List.foldl_cons, delete_obj_singleton hms,
        ih (hms.sublist (List.filter_sublist.map _)), List.filter_filter]
      simp only [List.mem_cons, not_or, decide_not, Bool.decide_and, Bool.and_comm]

/-- Behind the first element deletions keep it. -/
theorem foldl_delete_arr (is : List ℕ) (his : ∀ i ∈ is, i ≠ 0) (x : Json) (items : List Json) :
    ∃ items', (is.map fun i => [indexText i]).foldl delete (.arr (x :: items)) =
      .arr (x :: items') := by
  induction is generalizing items with
  | nil => exact ⟨items, rfl⟩
  | cons i is ih =>
      rw [List.forall_mem_cons] at his
      obtain ⟨i, rfl⟩ := Nat.exists_eq_succ_of_ne_zero his.1
      rw [List.map_cons, List.foldl_cons, delete_arr_singleton, List.eraseIdx_cons_succ]
      exact ih his.2 _

/-- Of the elements of an array, deleted from the first one on, every other one stays. -/
theorem foldl_delete_all_arr (items : List Json) :
    ((List.range items.length).map fun i => [indexText i]).foldl delete (.arr items) = .arr [] ↔
      items.length ≤ 1 := by
  match items with
  | [] => exact iff_of_true rfl (Nat.zero_le _)
  | [x] =>
      refine iff_of_true ?_ (Nat.le_refl _)
      rw [List.length_singleton, List.range_one, List.map_singleton, List.foldl_cons,
        delete_arr_singleton]
      rfl
  | x :: y :: items =>
      refine iff_of_false ?_ (by simp)
      rw [List.length_cons, List.range_succ_eq_map, List.map_cons, List.foldl_cons,
        delete_arr_singleton, List.eraseIdx_cons_zero]
      obtain ⟨items', heq⟩ :=
        foldl_delete_arr ((List.range (y :: items).length).map Nat.succ) (by simp) y items
      rw [heq]
      exact fun h => List.cons_ne_nil _ _ (Json.arr.inj h)

/-! ## Entries -/

/-- The members of an object, or the elements of an array under their indices. -/
def entries : Json → List (String × Json)
  | .obj ms => ms
  | .arr items => items.zipIdx.map fun e => (indexText e.2, e.1)
  | _ => []

/-- The container with other entries of the same names. -/
def ofEntries : Json → List (String × Json) → Json
  | .obj _, es => .obj es
  | .arr _, es => .arr (es.map Prod.snd)
  | j, _ => j

theorem index_of_mem_entries {items : List Json} (h : s ∈ (entries (.arr items)).map Prod.fst) :
    ∃ i < items.length, s = indexText i := by
  simp only [entries, List.map_map, List.mem_map, Function.comp_apply] at h
  obtain ⟨e, he, rfl⟩ := h
  exact ⟨e.2, (List.snd_lt_of_mem_zipIdx he), rfl⟩

theorem nodup_entries_arr (items : List Json) :
    ((entries (.arr items)).map Prod.fst).Nodup := by
  have hmap : (entries (.arr items)).map Prod.fst =
      (List.range items.length).map indexText := by
    rw [entries, List.map_map, List.range_eq_range', ← List.zipIdx_map_snd 0 items, List.map_map]
    rfl
  rw [hmap]
  exact List.nodup_range.map fun _ _ => indexText_injective

theorem member_entries_arr (items : List Json) (i : ℕ) :
    member (entries (.arr items)) (indexText i) = items[i]? := by
  cases hi : items[i]? with
  | none =>
      rw [member_eq_none_iff]
      intro hmem
      obtain ⟨k, hk, heq⟩ := index_of_mem_entries hmem
      cases indexText_injective heq
      rw [List.getElem?_eq_none_iff] at hi
      omega
  | some c =>
      refine member_of_mem (nodup_entries_arr items) ?_
      rw [entries, List.mem_map]
      exact ⟨(c, i), List.mk_mem_zipIdx_iff_getElem?.2 hi, rfl⟩

/-- An entry is the child of its name. -/
theorem child_eq_member (h : s ∈ (entries j).map Prod.fst) : child j s = member (entries j) s := by
  cases j with
  | obj ms => rfl
  | arr items =>
      obtain ⟨i, -, rfl⟩ := index_of_mem_entries h
      rw [child, index_indexText, Option.bind_some, member_entries_arr]
  | _ => cases h

theorem ofEntries_entries (j : Json) : ofEntries j (entries j) = j := by
  cases j with
  | arr items =>
      rw [entries, ofEntries, List.map_map]
      congr 1
      exact List.zipIdx_map_fst 0 items
  | _ => rfl

/-- Entries of the same names are those of the container made of them. -/
theorem entries_ofEntries {es : List (String × Json)}
    (h : es.map Prod.fst = (entries j).map Prod.fst) : entries (ofEntries j es) = es := by
  cases j with
  | arr items =>
      have hlen : es.length = items.length := by
        have hlength := congrArg List.length h
        rwa [List.length_map, List.length_map, entries, List.length_map,
          List.length_zipIdx] at hlength
      rw [ofEntries, entries]
      refine List.ext_getElem (by simp) fun i hi hi' => ?_
      have hkey : es[i].1 = indexText i := by
        have hget := List.getElem_of_eq h (i := i) (by rw [List.length_map]; exact hi')
        simpa [entries] using hget
      simp only [List.getElem_map, List.getElem_zipIdx, Nat.zero_add]
      rw [← hkey]
  | obj ms => rfl
  | _ => exact (List.map_eq_nil_iff.1 h).symm

theorem put_entry (h : s ∈ (entries j).map Prod.fst) :
    put j s v = some (ofEntries j (setMember (entries j) s v)) := by
  cases j with
  | obj ms => rfl
  | arr items =>
      obtain ⟨i, hlt, rfl⟩ := index_of_mem_entries h
      have hmember : member (entries (.arr items)) (indexText i) = some items[i] := by
        rw [member_entries_arr, List.getElem?_eq_getElem hlt]
      rw [put_eq_putIn rfl]
      simp only [putIn, index_indexText, setItem, if_pos hlt]
      rw [setMember_eq_map (nodup_entries_arr items) hmember, ofEntries, entries, List.map_map,
        List.map_map]
      congr 2
      refine List.ext_getElem (by simp) fun k hk hk' => ?_
      simp only [List.getElem_map, List.getElem_zipIdx, Nat.zero_add, Function.comp_apply,
        List.getElem_set]
      by_cases hik : i = k
      · rw [if_pos hik, if_pos (by rw [hik])]
      · rw [if_neg hik, if_neg (fun heq => hik (indexText_injective heq).symm)]
  | _ => cases h

/-- An object that repeats no name, and so in its members. -/
inductive Distinct : Json → Prop
  | mk {j : Json} (hnodup : ((entries j).map Prod.fst).Nodup)
      (hentries : ∀ e ∈ entries j, Distinct e.2) : Distinct j

theorem Distinct.nodup (h : Distinct j) : ((entries j).map Prod.fst).Nodup := by
  cases h with
  | mk hnodup _ => exact hnodup

theorem Distinct.of_mem (h : Distinct j) {e : String × Json} (he : e ∈ entries j) :
    Distinct e.2 := by
  cases h with
  | mk _ hentries => exact hentries e he

/-! ## Walks over all entries -/

theorem ofEntries_ofEntries (j : Json) (es es' : List (String × Json)) :
    ofEntries (ofEntries j es) es' = ofEntries j es' := by
  cases j <;> rfl

theorem mapM_eq_self {α : Type} {f : α → Option α} {l : List α} (h : ∀ x ∈ l, f x = some x) :
    l.mapM f = some l := by
  induction l with
  | nil => rfl
  | cons x l ih =>
      rw [List.forall_mem_cons] at h
      rw [List.mapM_cons, h.1, ih h.2]
      rfl

theorem mapM_eq_none {α β : Type} {f : α → Option β} {l : List α} {x : α} (hx : x ∈ l)
    (h : f x = none) : l.mapM f = none := by
  induction l with
  | nil => cases hx
  | cons y l ih =>
      rw [List.mapM_cons]
      rcases List.mem_cons.1 hx with rfl | hx
      · rw [h]
        rfl
      · rw [ih hx]
        cases f y <;> rfl

theorem mapM_congr {α β γ : Type} {f : β → Option γ} {g : α → Option γ} {l : List α} {u : α → β}
    (h : ∀ x ∈ l, f (u x) = g x) : (l.map u).mapM f = l.mapM g := by
  induction l with
  | nil => rfl
  | cons x l ih =>
      rw [List.forall_mem_cons] at h
      rw [List.map_cons, List.mapM_cons, List.mapM_cons, h.1, ih h.2]

theorem mapM_ne_none {α β : Type} {f : α → Option β} {l : List α} (h : ∀ x ∈ l, f x ≠ none) :
    l.mapM f ≠ none := by
  induction l with
  | nil => exact Option.some_ne_none _
  | cons x l ih =>
      rw [List.forall_mem_cons] at h
      obtain ⟨y, hy⟩ := Option.ne_none_iff_exists'.1 h.1
      obtain ⟨ys, hys⟩ := Option.ne_none_iff_exists'.1 (ih h.2)
      rw [List.mapM_cons, hy, hys]
      exact Option.some_ne_none _

/-- All entries changed, unless one change fails. -/
theorem mapM_entries {G : Json → Option Json} {l es : List (String × Json)}
    (h : (l.mapM fun e => (G e.2).map (e.1, ·)) = some es) :
    es.map Prod.fst = l.map Prod.fst ∧ ∀ e ∈ l, ∃ c, G e.2 = some c ∧ (e.1, c) ∈ es := by
  induction l generalizing es with
  | nil =>
      cases h
      exact ⟨rfl, List.forall_mem_nil _⟩
  | cons e l ih =>
      rw [List.mapM_cons] at h
      cases hc : G e.2 with
      | none => rw [hc] at h; cases h
      | some c =>
          cases hes : l.mapM fun e => (G e.2).map (e.1, ·) with
          | none => rw [hc, hes] at h; cases h
          | some es' =>
              rw [hc, hes] at h
              cases h
              obtain ⟨hkeys, hmem⟩ := ih hes
              refine ⟨by rw [List.map_cons, List.map_cons, hkeys], List.forall_mem_cons.2 ⟨?_, ?_⟩⟩
              · exact ⟨c, hc, List.mem_cons_self⟩
              · intro e' he'
                obtain ⟨c', hc', hmem'⟩ := hmem e' he'
                exact ⟨c', hc', List.mem_cons_of_mem _ hmem'⟩

variable {ks : List String} {F : String → Json → Option Json} {G : Json → Option Json}

/-- Entries are changed one after another, each by what is there. -/
theorem foldlM_entries (hks : ks.Nodup) (es : List (String × Json))
    (hes : (es.map Prod.fst).Nodup) (hkeys : es.map Prod.fst = (entries j).map Prod.fst)
    (hmem : ∀ k ∈ ks, k ∈ es.map Prod.fst)
    (hF : ∀ k ∈ ks, ∀ d c, child d k = some c → member es k = some c →
      F k d = (G c).bind (put d k)) :
    ks.foldlM (fun d k => F k d) (ofEntries j es) =
      (es.mapM fun e => if e.1 ∈ ks then (G e.2).map (e.1, ·) else some e).map (ofEntries j) := by
  induction ks generalizing es with
  | nil =>
      rw [mapM_eq_self fun e _ => if_neg List.not_mem_nil]
      rfl
  | cons k ks ih =>
      rw [List.forall_mem_cons] at hmem hF
      obtain ⟨hk, hks⟩ := List.nodup_cons.1 hks
      have hentries := entries_ofEntries hkeys
      obtain ⟨c, hc⟩ : ∃ c, member es k = some c := by
        rw [← Option.ne_none_iff_exists', Ne, member_eq_none_iff, not_not]
        exact hmem.1
      have hchild : child (ofEntries j es) k = some c := by
        rw [child_eq_member (by rw [hentries]; exact hmem.1), hentries, hc]
      rw [List.foldlM_cons, hF.1 _ _ hchild hc]
      cases hG : G c with
      | none =>
          rw [mapM_eq_none (mem_of_member hc)]
          · rfl
          · rw [if_pos List.mem_cons_self, hG, Option.map_none]
      | some c' =>
          rw [Option.bind_some, put_entry (by rw [hentries]; exact hmem.1), hentries,
            ofEntries_ofEntries]
          have hkeys' := map_fst_setMember (v := c') hc
          have hrest := ih hks (setMember es k c') (by rw [hkeys']; exact hes)
            (hkeys'.trans hkeys) (by rw [hkeys']; exact hmem.2) (by
              intro k' hk' d c₀ hd hc₀
              rw [member_setMember, if_neg (by rintro rfl; exact hk hk')] at hc₀
              exact hF.2 k' hk' d c₀ hd hc₀)
          refine Eq.trans hrest (congrArg (Option.map (ofEntries j)) ?_)
          rw [setMember_eq_map hes hc]
          refine mapM_congr fun e he => ?_
          by_cases hek : e.1 = k
          · have hmember := member_of_mem hes (show (e.1, e.2) ∈ es from he)
            rw [hek, hc] at hmember
            rw [if_pos hek, if_neg hk, hek, if_pos List.mem_cons_self,
              ← Option.some.inj hmember, hG, Option.map_some]
          · rw [if_neg hek]
            simp only [List.mem_cons, hek, false_or]

theorem foldlM_all (hj : Distinct j) (hks : ks.Nodup)
    (hmem : ∀ k, k ∈ ks ↔ k ∈ (entries j).map Prod.fst)
    (hF : ∀ k ∈ ks, ∀ d c, child d k = some c → child j k = some c →
      F k d = (G c).bind (put d k)) :
    ks.foldlM (fun d k => F k d) j =
      ((entries j).mapM fun e => (G e.2).map (e.1, ·)).map (ofEntries j) := by
  have hwalk := foldlM_entries (j := j) hks (entries j) hj.nodup rfl (fun k hk => (hmem k).1 hk)
    (fun k hk d c hd hc => hF k hk d c hd (by rw [child_eq_member ((hmem k).1 hk), hc]))
  rw [ofEntries_entries] at hwalk
  rw [hwalk]
  congr 1
  have hcongr := mapM_congr (u := id) (l := entries j)
    (f := fun e => if e.1 ∈ ks then (G e.2).map (e.1, ·) else some e)
    (g := fun e => (G e.2).map (e.1, ·))
    (fun e he => if_pos ((hmem e.1).2 (List.mem_map_of_mem he)))
  rwa [List.map_id] at hcongr

end

end JsonPath
