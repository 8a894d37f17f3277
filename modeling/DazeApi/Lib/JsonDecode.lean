import DazeApi.Lib.JsonPath
import Mathlib.Data.Rat.Defs
import Mathlib.Data.String.Basic
import Mathlib.Order.Basic

/-!
# JSON values that are decoded and encoded

Decoding into maps and floating-point numbers keeps the last of the members of one name and rounds
the numbers; encoding writes the members in the order of their names.
-/

namespace JsonDecode

open JsonText JsonPath

/-- What a literal is as a `float64`: its value, its text in `encoding/json` and in `gjson`. -/
structure Numbers where
  value : String → ℚ
  literal : String → String
  literal_literal : ∀ s, literal (literal s) = literal s
  text : String → String

/-- An entry of a map; maps are encoded in the order of their keys. -/
def insertMember : List (String × Json) → String → Json → List (String × Json)
  | [], key, v => [(key, v)]
  | m :: ms, key, v =>
      if key < m.1 then (key, v) :: m :: ms
      else if m.1 = key then (key, v) :: ms
      else m :: insertMember ms key v

def mapOf (ms : List (String × Json)) : List (String × Json) :=
  ms.foldl (fun acc m => insertMember acc m.1 m.2) []

section

variable (nums : Numbers)

mutual

/-- What `json.Unmarshal` into an `interface{}` and `json.Marshal` make of a value. -/
def decode : Json → Json
  | .num literal => .num (nums.literal literal)
  | .arr items => .arr (decodeItems items)
  | .obj ms => .obj (mapOf (decodeMembers ms))
  | j => j
termination_by structural j => j

def decodeItems : List Json → List Json
  | [] => []
  | item :: items => decode item :: decodeItems items
termination_by structural items => items

def decodeMembers : List (String × Json) → List (String × Json)
  | [] => []
  | m :: ms => decodeMember m :: decodeMembers ms
termination_by structural ms => ms

def decodeMember : String × Json → String × Json
  | (key, v) => (key, decode v)
termination_by structural m => m

end

end

/-! ## Induction -/

theorem induction {P : Json → Prop} (scalar : ∀ j, isContainer j = false → P j)
    (arr : ∀ items, (∀ item ∈ items, P item) → P (.arr items))
    (obj : ∀ ms : List (String × Json), (∀ m ∈ ms, P m.2) → P (.obj ms)) : ∀ j, P j
  | .null => scalar _ rfl
  | .bool _ => scalar _ rfl
  | .num _ => scalar _ rfl
  | .str _ => scalar _ rfl
  | .arr items => arr items fun item hitem =>
      have : sizeOf item < 1 + sizeOf items :=
        Nat.lt_add_left 1 (List.sizeOf_lt_of_mem hitem)
      induction scalar arr obj item
  | .obj ms => obj ms fun m hm =>
      have : sizeOf m.2 < 1 + sizeOf ms := by
        have hlt := List.sizeOf_lt_of_mem hm
        have heq : sizeOf m = 1 + sizeOf m.1 + sizeOf m.2 := by
          cases m
          rfl
        omega
      induction scalar arr obj m.2

/-! ## What is decoded stays as it is -/

section

variable {nums : Numbers}

/-- A value as it is encoded. -/
inductive Canonical (nums : Numbers) : Json → Prop
  | null : Canonical nums .null
  | bool (b : Bool) : Canonical nums (.bool b)
  | num {literal : String} (h : nums.literal literal = literal) : Canonical nums (.num literal)
  | str (s : String) : Canonical nums (.str s)
  | arr {items : List Json} (h : ∀ item ∈ items, Canonical nums item) :
      Canonical nums (.arr items)
  | obj {ms : List (String × Json)} (hkeys : (ms.map Prod.fst).Pairwise (· < ·))
      (h : ∀ m ∈ ms, Canonical nums m.2) : Canonical nums (.obj ms)

theorem decodeItems_eq_map (items : List Json) :
    decodeItems nums items = items.map (decode nums) := by
  induction items with
  | nil => rfl
  | cons item items ih => rw [decodeItems, ih, List.map_cons]

theorem decodeMembers_eq_map (ms : List (String × Json)) :
    decodeMembers nums ms = ms.map fun m => (m.1, decode nums m.2) := by
  induction ms with
  | nil => rfl
  | cons m ms ih => rw [decodeMembers, decodeMember, ih, List.map_cons]

theorem mem_insertMember {ms : List (String × Json)} {key : String} {v : Json} {m : String × Json}
    (h : m ∈ insertMember ms key v) : m = (key, v) ∨ m ∈ ms := by
  induction ms with
  | nil => exact Or.inl (List.mem_singleton.1 h)
  | cons m' ms ih =>
      rw [insertMember] at h
      split at h
      · exact List.mem_cons.1 h
      · split at h
        · exact (List.mem_cons.1 h).imp_right (.tail _)
        · rcases List.mem_cons.1 h with rfl | h
          · exact Or.inr (.head _)
          · exact (ih h).imp_right (.tail _)

theorem pairwise_insertMember {ms : List (String × Json)} (key : String) (v : Json)
    (h : (ms.map Prod.fst).Pairwise (· < ·)) :
    ((insertMember ms key v).map Prod.fst).Pairwise (· < ·) := by
  induction ms with
  | nil => exact List.pairwise_singleton _ _
  | cons m ms ih =>
      rw [List.map_cons, List.pairwise_cons] at h
      obtain ⟨hhead, htail⟩ := h
      rw [insertMember]
      split
      next hlt =>
        rw [List.map_cons, List.map_cons, List.pairwise_cons, List.pairwise_cons]
        refine ⟨fun k hk => ?_, hhead, htail⟩
        rcases List.mem_cons.1 hk with rfl | hk
        · exact hlt
        · exact hlt.trans (hhead k hk)
      next hlt =>
        split
        next heq =>
          rw [List.map_cons, List.pairwise_cons]
          exact ⟨fun k hk => heq ▸ hhead k hk, htail⟩
        next hne =>
          rw [List.map_cons, List.pairwise_cons]
          refine ⟨fun k hk => ?_, ih htail⟩
          obtain ⟨m', hm', rfl⟩ := List.mem_map.1 hk
          rcases mem_insertMember hm' with rfl | hm'
          · exact lt_of_le_of_ne (not_lt.1 hlt) hne
          · exact hhead _ (List.mem_map_of_mem hm')

theorem insertMember_last {ms : List (String × Json)} {key : String} {v : Json}
    (h : ∀ m ∈ ms, m.1 < key) : insertMember ms key v = ms ++ [(key, v)] := by
  induction ms with
  | nil => rfl
  | cons m ms ih =>
      obtain ⟨hm, hms⟩ := List.forall_mem_cons.1 h
      rw [insertMember, if_neg (not_lt.2 hm.le), if_neg hm.ne, ih hms, List.cons_append]

theorem foldl_insertMember_of_pairwise (done : List (String × Json)) {ms : List (String × Json)}
    (h : ((done ++ ms).map Prod.fst).Pairwise (· < ·)) :
    ms.foldl (fun acc m => insertMember acc m.1 m.2) done = done ++ ms := by
  induction ms generalizing done with
  | nil => rw [List.append_nil]; rfl
  | cons m ms ih =>
      have hlast : ∀ m' ∈ done, m'.1 < m.1 := by
        intro m' hm'
        rw [List.map_append, List.map_cons, List.pairwise_append] at h
        exact h.2.2 _ (List.mem_map_of_mem hm') _ (.head _)
      rw [List.foldl_cons, insertMember_last hlast, ih, List.append_assoc]
      · rfl
      · rwa [List.append_assoc]

theorem mapOf_of_pairwise {ms : List (String × Json)}
    (h : (ms.map Prod.fst).Pairwise (· < ·)) : mapOf ms = ms :=
  foldl_insertMember_of_pairwise [] h

theorem foldl_insertMember (ms : List (String × Json)) (done : List (String × Json))
    (hdone : (done.map Prod.fst).Pairwise (· < ·)) :
    ((ms.foldl (fun acc m => insertMember acc m.1 m.2) done).map Prod.fst).Pairwise (· < ·) ∧
      ∀ m ∈ ms.foldl (fun acc m => insertMember acc m.1 m.2) done, m ∈ done ∨ m ∈ ms := by
  induction ms generalizing done with
  | nil => exact ⟨hdone, fun m hm => Or.inl hm⟩
  | cons m ms ih =>
      obtain ⟨hkeys, hmem⟩ := ih _ (pairwise_insertMember m.1 m.2 hdone)
      refine ⟨hkeys, fun m' hm' => ?_⟩
      rcases hmem m' hm' with h | h
      · rcases mem_insertMember h with rfl | h
        · exact Or.inr (.head _)
        · exact Or.inl h
      · exact Or.inr (.tail _ h)

theorem canonical_decode (j : Json) : Canonical nums (decode nums j) := by
  induction j using JsonDecode.induction with
  | scalar j hj =>
      cases j with
      | null => exact .null
      | bool b => exact .bool b
      | num literal => exact .num (nums.literal_literal literal)
      | str s => exact .str s
      | arr items => cases hj
      | obj ms => cases hj
  | arr items ih =>
      rw [decode, decodeItems_eq_map]
      refine .arr fun item hitem => ?_
      obtain ⟨item', hitem', rfl⟩ := List.mem_map.1 hitem
      exact ih item' hitem'
  | obj ms ih =>
      rw [decode, decodeMembers_eq_map]
      obtain ⟨hkeys, hmem⟩ := foldl_insertMember
        (ms.map fun m => (m.1, decode nums m.2)) [] List.Pairwise.nil
      refine .obj hkeys fun m hm => ?_
      obtain ⟨m', hm', rfl⟩ := List.mem_map.1 ((hmem m hm).resolve_left List.not_mem_nil)
      exact ih m' hm'

theorem decode_of_canonical {j : Json} (h : Canonical nums j) : decode nums j = j := by
  induction h with
  | num h => rw [decode, h]
  | @arr items _ ih =>
      rw [decode, decodeItems_eq_map, List.map_congr_left ih, List.map_id']
  | @obj ms hkeys _ ih =>
      have hms : (ms.map fun m => (m.1, decode nums m.2)) = ms :=
        (List.map_congr_left fun m hm => by rw [ih m hm]; rfl).trans (List.map_id ms)
      rw [decode, decodeMembers_eq_map, hms, mapOf_of_pairwise hkeys]
  | _ => rfl

end

/-! ## Members of maps -/

section

variable {key : String} {v : Json}

theorem member_insertMember (ms : List (String × Json)) (name : String) :
    member (insertMember ms name v) key = if key = name then some v else member ms key := by
  induction ms with
  | nil =>
      rw [insertMember, member_cons, member_nil]
      simp [eq_comm]
  | cons m ms ih =>
      rw [insertMember]
      split
      next => rw [member_cons]; simp [eq_comm]
      next =>
        split
        next hname =>
          rw [member_cons, member_cons, hname]
          by_cases hkey : key = name
          · simp [hkey]
          · simp [hkey, Ne.symm hkey]
        next hname =>
          rw [member_cons, member_cons, ih]
          by_cases hkey : key = name
          · subst hkey
            simp [hname]
          · simp [hkey]

/-- Distinct entries that are assigned to a map. -/
theorem member_foldl_insertMember (f : Json → Json) {entries : List (String × Json)}
    (hentries : (entries.map Prod.fst).Nodup) (acc : List (String × Json)) :
    member (entries.foldl (fun acc e => insertMember acc e.1 (f e.2)) acc) key =
      ((member entries key).map f).or (member acc key) := by
  induction entries generalizing acc with
  | nil => rfl
  | cons e entries ih =>
      rw [List.map_cons, List.nodup_cons] at hentries
      rw [List.foldl_cons, ih hentries.2, member_insertMember, member_cons]
      by_cases hkey : e.1 = key
      · rw [member_eq_none_iff.2 (hkey ▸ hentries.1), if_pos hkey.symm, if_pos hkey]
        rfl
      · rw [if_neg (Ne.symm hkey), if_neg hkey]

end

/-! ## Numbers of a value -/

/-- All numbers of a value are as said. -/
inductive AllNumbers (p : String → Prop) : Json → Prop
  | null : AllNumbers p .null
  | bool (b : Bool) : AllNumbers p (.bool b)
  | num {literal : String} (h : p literal) : AllNumbers p (.num literal)
  | str (s : String) : AllNumbers p (.str s)
  | arr {items : List Json} (h : ∀ item ∈ items, AllNumbers p item) : AllNumbers p (.arr items)
  | obj {ms : List (String × Json)} (h : ∀ m ∈ ms, AllNumbers p m.2) : AllNumbers p (.obj ms)

/-- A literal denotes the same number as a `float64`; `canon` writes a number in one way. -/
def Survives (nums canon : Numbers) (literal : String) : Prop :=
  canon.literal (nums.literal literal) = canon.literal literal

section

variable {nums canon : Numbers} {ms : List (String × Json)} {j : Json}

theorem insertMember_map (g : Json → Json) (ms : List (String × Json)) (key : String) (v : Json) :
    insertMember (ms.map fun m => (m.1, g m.2)) key (g v) =
      (insertMember ms key v).map fun m => (m.1, g m.2) := by
  induction ms with
  | nil => rfl
  | cons m ms ih =>
      rw [List.map_cons, insertMember, insertMember, ih]
      split
      · rfl
      · split <;> rfl

theorem foldl_insertMember_map (g : Json → Json) (ms acc : List (String × Json)) :
    (ms.map fun m => (m.1, g m.2)).foldl (fun acc m => insertMember acc m.1 m.2)
        (acc.map fun m => (m.1, g m.2)) =
      (ms.foldl (fun acc m => insertMember acc m.1 m.2) acc).map fun m => (m.1, g m.2) := by
  induction ms generalizing acc with
  | nil => rfl
  | cons m ms ih => rw [List.map_cons, List.foldl_cons, List.foldl_cons, insertMember_map, ih]

theorem mapOf_map (g : Json → Json) (ms : List (String × Json)) :
    mapOf (ms.map fun m => (m.1, g m.2)) = (mapOf ms).map fun m => (m.1, g m.2) :=
  foldl_insertMember_map g ms []

theorem pairwise_mapOf (ms : List (String × Json)) :
    ((mapOf ms).map Prod.fst).Pairwise (· < ·) :=
  (foldl_insertMember ms [] List.Pairwise.nil).1

theorem mapOf_mapOf (ms : List (String × Json)) : mapOf (mapOf ms) = mapOf ms :=
  mapOf_of_pairwise (pairwise_mapOf ms)

theorem member_mapOf (hms : (ms.map Prod.fst).Nodup) (key : String) :
    member (mapOf ms) key = member ms key := by
  rw [mapOf, member_foldl_insertMember (fun v => v) hms, member_nil, Option.or_none,
    Option.map_id']

theorem mem_mapOf (hms : (ms.map Prod.fst).Nodup) {m : String × Json} :
    m ∈ mapOf ms ↔ m ∈ ms := by
  have hsorted : ((mapOf ms).map Prod.fst).Nodup := (pairwise_mapOf ms).imp ne_of_lt
  constructor
  · intro h
    exact mem_of_member ((member_mapOf hms m.1).symm.trans (member_of_mem hsorted h))
  · intro h
    exact mem_of_member ((member_mapOf hms m.1).trans (member_of_mem hms h))

/-- A value keeps its numbers exactly if each of them survives. -/
theorem decode_decode_iff (j : Json) (hj : Distinct j) :
    decode canon (decode nums j) = decode canon j ↔ AllNumbers (Survives nums canon) j := by
  induction j using JsonDecode.induction with
  | scalar j hscalar =>
      cases j with
      | null => exact iff_of_true rfl .null
      | bool b => exact iff_of_true rfl (.bool b)
      | str s => exact iff_of_true rfl (.str s)
      | num literal =>
          rw [decode, decode, decode, Json.num.injEq]
          refine ⟨fun h => .num h, fun h => ?_⟩
          cases h with
          | num h => exact h
      | arr items => cases hscalar
      | obj ms => cases hscalar
  | arr items ih =>
      have hitem : ∀ item ∈ items, Distinct item := by
        intro item hitem
        obtain ⟨i, hi⟩ := List.getElem?_of_mem hitem
        exact hj.of_mem (e := (indexText i, item))
          (List.mem_map.2 ⟨(item, i), List.mk_mem_zipIdx_iff_getElem?.2 hi, rfl⟩)
      rw [decode, decode, decode, decodeItems_eq_map, decodeItems_eq_map, decodeItems_eq_map,
        Json.arr.injEq, List.map_map, List.map_inj_left]
      constructor
      · exact fun h => .arr fun item hmem => (ih item hmem (hitem item hmem)).1 (h item hmem)
      · intro h item hmem
        cases h with
        | arr h => exact (ih item hmem (hitem item hmem)).2 (h item hmem)
  | obj ms ih =>
      have hms : (ms.map Prod.fst).Nodup := hj.nodup
      rw [decode, decode, decode, decodeMembers_eq_map, decodeMembers_eq_map,
        decodeMembers_eq_map, mapOf_map (decode nums) ms, mapOf_map (decode canon),
        mapOf_map (decode nums), mapOf_mapOf, mapOf_map (decode canon) ms, Json.obj.injEq,
        List.map_map, List.map_inj_left]
      constructor
      · intro h
        refine .obj fun m hm => (ih m hm (hj.of_mem hm)).1 ?_
        exact (Prod.mk.inj (h m ((mem_mapOf hms).2 hm))).2
      · intro h m hm
        rw [mem_mapOf hms] at hm
        cases h with
        | obj h =>
            exact congrArg (Prod.mk m.1) ((ih m hm (hj.of_mem hm)).2 (h m hm))

end

end JsonDecode
