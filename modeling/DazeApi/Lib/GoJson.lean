import Std.Data.ExtTreeMap.Lemmas
import Mathlib.Data.String.Basic
import Mathlib.Tactic.Positivity
import Mathlib.Tactic.Ring
import DazeApi.Lib.Json

/-!
# Typed values and their JSON

Types of structs, maps, slices and pointers over strings, booleans and integers, their
values, and the encoder and the decoder of such values.  The decoder writes into a value
that is there: it adds to a map, goes into the fields of a struct, into what a pointer
points to and into the elements of a slice, and goes on after an item that does not fit
its place.  `unmarshal_marshal_iff` says when it gives back what was encoded.
-/

namespace GoJson

open JsonText

/-! ## Types and values -/

/-- A kind of integers. -/
structure IntKind where
  signed : Bool
  bits : ℕ
  pos : 0 < bits
  le : bits ≤ 64

namespace IntKind

variable (k : IntKind)

def lo : ℤ := if k.signed then -2 ^ (k.bits - 1) else 0

/-- The first integer that is too large. -/
def hi : ℤ := if k.signed then 2 ^ (k.bits - 1) else 2 ^ k.bits

def InRange (n : ℤ) : Prop := k.lo ≤ n ∧ n < k.hi

instance (n : ℤ) : Decidable (k.InRange n) := inferInstanceAs (Decidable (_ ∧ _))

def Value : Type := {n : ℤ // k.InRange n}

instance : DecidableEq k.Value := inferInstanceAs (DecidableEq {n : ℤ // k.InRange n})

theorem inRange_zero : k.InRange 0 := by
  have hpow : (0 : ℤ) < 2 ^ (k.bits - 1) := by positivity
  have hpow' : (0 : ℤ) < 2 ^ k.bits := by positivity
  unfold InRange lo hi
  split <;> omega

theorem hi_eq : k.hi = k.lo + 2 ^ k.bits := by
  have hbits : k.bits = k.bits - 1 + 1 := (Nat.sub_add_cancel k.pos).symm
  unfold hi lo
  split
  next => rw [hbits, pow_succ, Nat.add_sub_cancel]; ring
  next => rw [zero_add]

/-- An integer is in range once it is reduced to the number of the bits. -/
theorem inRange_wrap (n : ℤ) : k.InRange ((n - k.lo) % 2 ^ k.bits + k.lo) := by
  have hpow : (0 : ℤ) < 2 ^ k.bits := by positivity
  have hnonneg := Int.emod_nonneg (n - k.lo) hpow.ne'
  have hlt := Int.emod_lt_of_pos (n - k.lo) hpow
  rw [InRange, hi_eq]
  omega

theorem wrap_of_inRange {n : ℤ} (h : k.InRange n) : (n - k.lo) % 2 ^ k.bits + k.lo = n := by
  rw [InRange, hi_eq] at h
  rw [Int.emod_eq_of_lt (by omega) (by omega)]
  omega

/-- An integer of a kind is one of the word of its sign. -/
theorem inRange_word {n : ℤ} (h : k.InRange n) :
    (k.signed = true → -2 ^ 63 ≤ n ∧ n < 2 ^ 63) ∧ (k.signed = false → 0 ≤ n ∧ n < 2 ^ 64) := by
  have hle := k.le
  have hhalf : (2 : ℤ) ^ (k.bits - 1) ≤ 2 ^ 63 := pow_le_pow_right₀ (by norm_num) (by omega)
  have hword : (2 : ℤ) ^ k.bits ≤ 2 ^ 64 := pow_le_pow_right₀ (by norm_num) hle
  unfold InRange lo hi at h
  constructor
  · intro hsigned
    rw [if_pos hsigned, if_pos hsigned] at h
    omega
  · intro hsigned
    rw [if_neg (by simp [hsigned]), if_neg (by simp [hsigned])] at h
    omega

end IntKind

mutual

inductive Ty where
  | string
  | bool
  | int (k : IntKind)
  | ptr (t : Ty)
  | map (t : Ty)
  | slice (t : Ty)
  | struct (fs : Fields)

/-- The fields of a struct: the name in JSON, `omitempty`, and the type. -/
inductive Fields where
  | nil
  | cons (name : String) (omitEmpty : Bool) (t : Ty) (fs : Fields)

end

/-- A map with its keys in order. -/
abbrev Map (α : Type) := Std.ExtTreeMap String α compare

mutual

def Val : Ty → Type
  | .string => String
  | .bool => Bool
  | .int k => k.Value
  | .ptr t => Option (Val t)
  | .map t => Option (Map (Val t))
  | .slice t => Option (List (Val t))
  | .struct fs => Vals fs

def Vals : Fields → Type
  | .nil => Unit
  | .cons _ _ t fs => Val t × Vals fs

end

mutual

def zero : (t : Ty) → Val t
  | .string => ""
  | .bool => false
  | .int k => ⟨0, k.inRange_zero⟩
  | .ptr _ => none
  | .map _ => none
  | .slice _ => none
  | .struct fs => zeros fs

def zeros : (fs : Fields) → Vals fs
  | .nil => ()
  | .cons _ _ t fs => (zero t, zeros fs)

end

def Fields.names : Fields → List String
  | .nil => []
  | .cons name _ _ fs => name :: fs.names

mutual

/-- The structs have fields of different names. -/
def Ty.Distinct : Ty → Prop
  | .ptr t => t.Distinct
  | .map t => t.Distinct
  | .slice t => t.Distinct
  | .struct fs => fs.names.Nodup ∧ fs.Distinct
  | _ => True

def Fields.Distinct : Fields → Prop
  | .nil => True
  | .cons _ _ t fs => t.Distinct ∧ fs.Distinct

end

/-! ## Encoding -/

/-- What `omitempty` leaves out. -/
def isEmpty : (t : Ty) → Val t → Bool
  | .string, s => String.isEmpty s
  | .bool, b => Bool.not b
  | .int _, n => n.1 == 0
  | .ptr _, p => Option.isNone p
  | .map _, m => Option.all Std.ExtTreeMap.isEmpty m
  | .slice _, vs => Option.all List.isEmpty vs
  | .struct _, _ => false

mutual

def marshal : (t : Ty) → Val t → Json
  | .string, s => .str s
  | .bool, b => .bool b
  | .int _, n => .num (String.ofList (Decimal.formatInt n.1))
  | .ptr _, none => .null
  | .ptr t, some v => marshal t v
  | .map _, none => .null
  | .map t, some m => .obj (m.toList.map fun p => (p.1, marshal t p.2))
  | .slice _, none => .null
  | .slice t, some vs => .arr (vs.map (marshal t))
  | .struct fs, vs => .obj (marshalFields fs vs)

def marshalFields : (fs : Fields) → Vals fs → List (String × Json)
  | .nil, _ => []
  | .cons name omitEmpty t fs, (v, vs) =>
      if omitEmpty && isEmpty t v then marshalFields fs vs
      else (name, marshal t v) :: marshalFields fs vs

end

/-! ## Decoding -/

/-- An integer of the kind. -/
def IntKind.parse (k : IntKind) (literal : String) : Option k.Value :=
  let n? := if k.signed then Decimal.parseInt literal.toList
    else (Decimal.parseNat literal.toList).map Int.ofNat
  n?.bind fun n => if h : k.InRange n then some ⟨n, h⟩ else none

section

variable (fold : String → String)

/-- The field that a key means: the one of this name, or else the first whose name is the
same up to the case. -/
def Fields.target (fs : Fields) (key : String) : Option String :=
  if key ∈ fs.names then some key else fs.names.find? fun name => fold name = fold key

mutual

/-- The value after decoding, and whether every item did fit its place. -/
def unmarshal : (t : Ty) → Val t → Json → Val t × Bool
  | .string, old, j =>
      match j with
      | .str s => (s, true)
      | .null => (old, true)
      | _ => (old, false)
  | .bool, old, j =>
      match j with
      | .bool b => (b, true)
      | .null => (old, true)
      | _ => (old, false)
  | .int k, old, j =>
      match j with
      | .num literal => ((k.parse literal).getD old, (k.parse literal).isSome)
      | .null => (old, true)
      | _ => (old, false)
  | .ptr t, old, j =>
      match j with
      | .null => (none, true)
      | j =>
          let r := unmarshal t (old.getD (zero t)) j
          (some r.1, r.2)
  | .map t, old, j =>
      match j with
      | .null => (none, true)
      | .obj members =>
          (some ((old.getD ∅).insertMany
              (members.map fun m => (m.1, (unmarshal t (zero t) m.2).1))),
            members.all fun m => (unmarshal t (zero t) m.2).2)
      | _ => (old, false)
  | .slice t, old, j =>
      match j with
      | .null => (none, true)
      | .arr items =>
          let rs := items.zipIdx.map fun p =>
            unmarshal t ((old.getD [])[p.2]?.getD (zero t)) p.1
          (some (rs.map Prod.fst), rs.all Prod.snd)
      | _ => (old, false)
  | .struct fs, old, j =>
      match j with
      | .null => (old, true)
      | .obj members =>
          members.foldl (fun (r : Vals fs × Bool) m =>
            match fs.target fold m.1 with
            | none => r
            | some name =>
                let r' := setField fs r.1 name m.2
                (r'.1, r.2 && r'.2)) (old, true)
      | _ => (old, false)

/-- Decoding into the field of the name. -/
def setField : (fs : Fields) → Vals fs → String → Json → Vals fs × Bool
  | .nil, vs, _, _ => (vs, true)
  | .cons name _ t fs, (v, vs), key, j =>
      if name = key then
        let r := unmarshal t v j
        ((r.1, vs), r.2)
      else
        let r := setField fs vs key j
        ((v, r.1), r.2)

end

end

/-! ## Integers -/

theorem IntKind.parse_formatInt (k : IntKind) (n : k.Value) :
    k.parse (String.ofList (Decimal.formatInt n.1)) = some n := by
  have hread : (if k.signed then Decimal.parseInt (Decimal.formatInt n.1)
      else (Decimal.parseNat (Decimal.formatInt n.1)).map Int.ofNat) = some n.1 := by
    split
    next => exact Decimal.parseInt_formatInt n.1
    next hsigned =>
      have hlo : 0 ≤ n.1 := by simpa [IntKind.lo, hsigned] using n.2.1
      rw [Decimal.parseNat_formatInt hlo]
      simp [Int.toNat_of_nonneg hlo]
  rw [IntKind.parse, String.toList_ofList, hread]
  exact dif_pos n.2

/-! ## The text of a value -/

mutual

theorem valid_marshal : ∀ (t : Ty) (v : Val t), Valid (marshal t v)
  | .string, _ => trivial
  | .bool, _ => trivial
  | .int _, n => valid_num n.1
  | .ptr _, none => trivial
  | .ptr t, some v => valid_marshal t v
  | .map _, none => trivial
  | .map t, some m => by
      rw [marshal, Valid, validMembers_iff]
      intro p hp
      obtain ⟨q, -, rfl⟩ := List.mem_map.1 hp
      exact valid_marshal t q.2
  | .slice _, none => trivial
  | .slice t, some vs => by
      rw [marshal, Valid, validItems_iff]
      intro j hj
      obtain ⟨v, -, rfl⟩ := List.mem_map.1 hj
      exact valid_marshal t v
  | .struct fs, vs => by
      rw [marshal, Valid, validMembers_iff]
      exact valid_marshalFields fs vs

theorem valid_marshalFields : ∀ (fs : Fields) (vs : Vals fs), ∀ m ∈ marshalFields fs vs, Valid m.2
  | .nil, _, m, hm => by simp [marshalFields] at hm
  | .cons name omitEmpty t fs, (v, vs), m, hm => by
      rw [marshalFields] at hm
      split at hm
      next => exact valid_marshalFields fs vs m hm
      next =>
        rcases List.mem_cons.1 hm with rfl | hm
        · exact valid_marshal t v
        · exact valid_marshalFields fs vs m hm

end

theorem mem_names_of_mem_marshalFields : ∀ (fs : Fields) (vs : Vals fs),
    ∀ m ∈ marshalFields fs vs, m.1 ∈ fs.names
  | .nil, _, m, hm => by simp [marshalFields] at hm
  | .cons name omitEmpty t fs, (v, vs), m, hm => by
      rw [marshalFields] at hm
      rw [Fields.names]
      split at hm
      next => exact List.mem_cons_of_mem _ (mem_names_of_mem_marshalFields fs vs m hm)
      next =>
        rcases List.mem_cons.1 hm with rfl | hm
        · exact List.mem_cons_self
        · exact List.mem_cons_of_mem _ (mem_names_of_mem_marshalFields fs vs m hm)

/-! ## Maps and slices -/

/-- Entries of a map that are written over another one give the map back when the other
one has no key of its own. -/
theorem insertMany_toList_eq_iff {α : Type} (f : α → α) (old m : Map α) :
    old.insertMany (m.toList.map fun p => (p.1, f p.2)) = m ↔
      (∀ k ∈ old, k ∈ m) ∧ ∀ (k : String) (v : α), m[k]? = some v → f v = v := by
  have hdistinct : (m.toList.map fun p => (p.1, f p.2)).Pairwise
      (fun a b => ¬ compare a.1 b.1 = .eq) := by
    rw [List.pairwise_map]
    exact Std.ExtTreeMap.distinct_keys_toList
  have hsome : ∀ (k : String) (v : α), m[k]? = some v →
      (old.insertMany (m.toList.map fun p => (p.1, f p.2)))[k]? = some (f v) := by
    intro k v hkv
    refine Std.ExtTreeMap.getElem?_insertMany_list_of_mem (k := k) (by simp) hdistinct ?_
    exact List.mem_map.2 ⟨(k, v), Std.ExtTreeMap.mem_toList_iff_getElem?_eq_some.2 hkv, rfl⟩
  have hnone : ∀ k : String, m[k]? = none →
      (old.insertMany (m.toList.map fun p => (p.1, f p.2)))[k]? = old[k]? := by
    intro k hk
    refine Std.ExtTreeMap.getElem?_insertMany_list_of_contains_eq_false ?_
    rw [List.map_map, ← Bool.not_eq_true, List.contains_iff_mem]
    intro hmem
    obtain ⟨p, hp, rfl⟩ := List.mem_map.1 hmem
    have hget := Std.ExtTreeMap.mem_toList_iff_getElem?_eq_some.1 hp
    simp only [Function.comp] at hk
    rw [hk] at hget
    cases hget
  constructor
  · intro heq
    constructor
    · intro k hk
      by_contra hkm
      have hkm : m[k]? = none := Std.ExtTreeMap.getElem?_eq_none hkm
      have hold := hnone k hkm
      rw [heq, hkm] at hold
      exact absurd hold.symm (by simpa using hk)
    · intro k v hkv
      have hget := hsome k v hkv
      rw [heq, hkv] at hget
      exact (Option.some.inj hget).symm
  · rintro ⟨hkeys, hvalues⟩
    refine Std.ExtTreeMap.ext_getElem? fun k => ?_
    cases hkv : m[k]? with
    | some v => rw [hsome k v hkv, hvalues k v hkv]
    | none =>
        rw [hnone k hkv]
        refine Std.ExtTreeMap.getElem?_eq_none fun hk => ?_
        have hkm := hkeys k hk
        rw [← Std.ExtTreeMap.isSome_getElem?_iff_mem, hkv] at hkm
        cases hkm

/-- The items of a list come back when each comes back at its place. -/
theorem map_zipIdx_eq_iff {α β : Type} (g : α → β) (h : β × ℕ → α) (vs : List α) :
    ((vs.map g).zipIdx.map h) = vs ↔ ∀ (i : ℕ) (v : α), vs[i]? = some v → h (g v, i) = v := by
  have hget : ∀ i : ℕ, ((vs.map g).zipIdx.map h)[i]? = vs[i]?.map fun v => h (g v, i) := by
    intro i
    simp only [List.getElem?_map, List.getElem?_zipIdx, Option.map_map, Nat.zero_add]
    rfl
  constructor
  · intro heq i v hv
    have := hget i
    rw [heq, hv] at this
    exact (Option.some.inj this).symm
  · intro hall
    refine List.ext_getElem? fun i => ?_
    rw [hget]
    cases hv : vs[i]? with
    | none => rfl
    | some v => rw [Option.map_some, hall i v hv]

/-! ## When decoding gives back what was encoded -/

mutual

/-- Decoding over `old` gives back the encoded value: a map of `old` has no key of its own,
no pointer points to what is encoded as null, and a field that is left out was the same
before. -/
def Fits : (t : Ty) → Val t → Val t → Prop
  | .string, _, _ => True
  | .bool, _, _ => True
  | .int _, _, _ => True
  | .ptr _, none, _ => True
  | .ptr t, some v, old => marshal t v ≠ .null ∧ Fits t v (Option.getD old (zero t))
  | .map _, none, _ => True
  | .map t, some m, old =>
      (∀ k ∈ Option.getD old (∅ : Map (Val t)), k ∈ m) ∧
        ∀ (k : String) (v : Val t), m[k]? = some v → Fits t v (zero t)
  | .slice _, none, _ => True
  | .slice t, some vs, old =>
      ∀ (i : ℕ) (v : Val t), vs[i]? = some v →
        Fits t v ((Option.getD old ([] : List (Val t)))[i]?.getD (zero t))
  | .struct fs, vs, olds => FitsFields fs vs olds

def FitsFields : (fs : Fields) → Vals fs → Vals fs → Prop
  | .nil, _, _ => True
  | .cons _ omitEmpty t fs, (v, vs), (old, olds) =>
      (if omitEmpty && isEmpty t v then old = v else Fits t v old) ∧ FitsFields fs vs olds

end

section

variable (fold : String → String)

/-- What decoding makes of the fields. -/
def reload : (fs : Fields) → Vals fs → Vals fs → Vals fs
  | .nil, _, _ => ()
  | .cons _ omitEmpty t fs, (v, vs), (old, olds) =>
      (if omitEmpty && isEmpty t v then old else (unmarshal fold t old (marshal t v)).1,
        reload fs vs olds)

/-- A member of an object, decoded into the field that its key means. -/
def readMember (fs : Fields) (r : Vals fs × Bool) (m : String × Json) : Vals fs × Bool :=
  match fs.target fold m.1 with
  | none => r
  | some name =>
      let r' := setField fold fs r.1 name m.2
      (r'.1, r.2 && r'.2)

theorem unmarshal_ptr {t : Ty} (old : Option (Val t)) {j : Json} (h : j ≠ .null) :
    unmarshal fold (.ptr t) old j =
      (some (unmarshal fold t (old.getD (zero t)) j).1,
        (unmarshal fold t (old.getD (zero t)) j).2) := by
  cases j with
  | null => exact absurd rfl h
  | _ => rfl

theorem readMember_of_mem (fs : Fields) (r : Vals fs × Bool) {m : String × Json}
    (h : m.1 ∈ fs.names) :
    readMember fold fs r m =
      ((setField fold fs r.1 m.1 m.2).1, r.2 && (setField fold fs r.1 m.1 m.2).2) := by
  rw [readMember, Fields.target, if_pos h]

/-- Members of the other fields leave the first field alone. -/
theorem foldl_readMember_cons {name : String} {omitEmpty : Bool} {t : Ty} {fs : Fields}
    (hname : name ∉ fs.names) (v : Val t) (members : List (String × Json))
    (h : ∀ m ∈ members, m.1 ∈ fs.names) (vs : Vals fs) (ok : Bool) :
    members.foldl (readMember fold (.cons name omitEmpty t fs)) ((v, vs), ok) =
      ((v, (members.foldl (readMember fold fs) (vs, ok)).1),
        (members.foldl (readMember fold fs) (vs, ok)).2) := by
  induction members generalizing vs ok with
  | nil => rfl
  | cons m members ih =>
      rw [List.forall_mem_cons] at h
      have hne : name ≠ m.1 := fun heq => hname (heq ▸ h.1)
      rw [List.foldl_cons, List.foldl_cons, readMember_of_mem fold fs (vs, ok) h.1,
        readMember_of_mem fold (.cons name omitEmpty t fs) ((v, vs), ok)
          (List.mem_cons_of_mem _ h.1), setField, if_neg hne]
      exact ih h.2 _ _

theorem foldl_marshalFields : ∀ (fs : Fields), fs.names.Nodup → ∀ (vs olds : Vals fs) (ok : Bool),
    ((marshalFields fs vs).foldl (readMember fold fs) (olds, ok)).1 = reload fold fs vs olds
  | .nil, _, _, _, _ => rfl
  | .cons name omitEmpty t fs, hnodup, (v, vs), (old, olds), ok => by
      rw [Fields.names, List.nodup_cons] at hnodup
      rw [marshalFields, reload]
      split
      next =>
        rw [foldl_readMember_cons fold hnodup.1 old _ (mem_names_of_mem_marshalFields fs vs),
          foldl_marshalFields fs hnodup.2]
      next =>
        rw [List.foldl_cons, readMember_of_mem fold (.cons name omitEmpty t fs)
          ((old, olds), ok) List.mem_cons_self, setField, if_pos rfl,
          foldl_readMember_cons fold hnodup.1 _ _ (mem_names_of_mem_marshalFields fs vs),
          foldl_marshalFields fs hnodup.2]

mutual

/-- Decoding what was encoded for a value gives back the value exactly when it fits. -/
theorem unmarshal_marshal_iff : ∀ (t : Ty), t.Distinct → ∀ src old : Val t,
    (unmarshal fold t old (marshal t src)).1 = src ↔ Fits t src old
  | .string, _, _, _ => iff_of_true rfl trivial
  | .bool, _, _, _ => iff_of_true rfl trivial
  | .int k, _, n, old => by
      refine iff_of_true ?_ trivial
      show (k.parse (String.ofList (Decimal.formatInt n.1))).getD old = n
      exact congrArg (fun parsed => parsed.getD old) (k.parse_formatInt n)
  | .ptr _, _, none, _ => iff_of_true rfl trivial
  | .ptr t, ht, some v, old => by
      have ih := unmarshal_marshal_iff t ht v (Option.getD old (zero t))
      rw [marshal, Fits]
      by_cases hnull : marshal t v = .null
      · rw [hnull]
        exact iff_of_false (fun h => by cases h) (fun h => h.1 rfl)
      · have hread := congrArg Prod.fst (unmarshal_ptr fold (t := t) old hnull)
        exact (iff_of_eq (congrArg (· = some v) hread)).trans
          ((Option.some_inj.trans ih).trans (and_iff_right hnull).symm)
  | .map _, _, none, _ => iff_of_true rfl trivial
  | .map t, ht, some m, old => by
      have ih := fun v => unmarshal_marshal_iff t ht v (zero t)
      rw [marshal, Fits]
      show some ((Option.getD old (∅ : Map (Val t))).insertMany
        ((m.toList.map fun p => (p.1, marshal t p.2)).map
          fun m => (m.1, (unmarshal fold t (zero t) m.2).1))) = some m ↔ _
      rw [List.map_map, Option.some.injEq]
      refine (insertMany_toList_eq_iff (fun v => (unmarshal fold t (zero t) (marshal t v)).1) _ m).trans
        (and_congr_right fun _ => ?_)
      exact forall_congr' fun k => forall_congr' fun v => imp_congr_right fun _ => ih v
  | .slice _, _, none, _ => iff_of_true rfl trivial
  | .slice t, ht, some vs, old => by
      have ih := fun v old => unmarshal_marshal_iff t ht v old
      rw [marshal, Fits]
      show some ((((vs.map (marshal t)).zipIdx.map fun p =>
        unmarshal fold t ((Option.getD old ([] : List (Val t)))[p.2]?.getD (zero t)) p.1)).map
          Prod.fst) = some vs ↔ _
      rw [List.map_map, Option.some.injEq, map_zipIdx_eq_iff]
      exact forall_congr' fun i => forall_congr' fun v => imp_congr_right fun _ => ih v _
  | .struct fs, ht, vs, olds => by
      have hread := foldl_marshalFields fold fs ht.1 vs olds true
      exact (iff_of_eq (congrArg (· = vs) hread)).trans (reload_iff fs ht.2 vs olds)

theorem reload_iff : ∀ (fs : Fields), fs.Distinct → ∀ vs olds : Vals fs,
    reload fold fs vs olds = vs ↔ FitsFields fs vs olds
  | .nil, _, _, _ => iff_of_true rfl trivial
  | .cons name omitEmpty t fs, hfs, (v, vs), (old, olds) => by
      have ih := unmarshal_marshal_iff t hfs.1 v old
      have ihs := reload_iff fs hfs.2 vs olds
      rw [reload, FitsFields, ← ihs]
      refine Prod.mk.injEq _ _ _ _ ▸ and_congr_left fun _ => ?_
      split
      next => exact Iff.rfl
      next => exact ih

end

end

end GoJson
