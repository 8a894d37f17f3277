import DazeApi.Lib.GoJson

/-!
# Saving and loading a configuration

`configToMap` and `updateConfigFromMap` (`setting/config/config.go`), over the structs with
fields of the kinds that both handle: strings, booleans and integers with a text of their
own, and pointers, maps, slices and structs as JSON.  Loading decodes into the value that
is there, so what that value held can stay in it.
-/

namespace DazeApi.Config

open JsonText GoJson

/-! ## The texts of the scalars -/

/-- `strconv.FormatBool`. -/
def formatBool (b : Bool) : String := if b then "true" else "false"

/-- `strconv.ParseBool`. -/
def parseBool : String → Option Bool
  | "1" | "t" | "T" | "TRUE" | "true" | "True" => some true
  | "0" | "f" | "F" | "FALSE" | "false" | "False" => some false
  | _ => none

/-- `strconv.ParseInt` with base 10 and 64 bits. -/
def parseInt (s : String) : Option ℤ :=
  (Decimal.parseInt s.toList).filter fun n => -2 ^ 63 ≤ n && n < 2 ^ 63

/-- `strconv.ParseUint` with base 10 and 64 bits. -/
def parseUint (s : String) : Option ℤ :=
  ((Decimal.parseNat s.toList).filter fun n => n < 2 ^ 64).map Int.ofNat

/-- Keys up to their case, and the integer that `strconv.ParseFloat` and the conversion to
`int64` or `uint64` make of a text; a negative number is no `uint64`. -/
structure Env where
  fold : String → String
  floatToInt : String → Option ℤ
  floatToUint : String → Option ℤ

/-- The integer of a text, which may also be written as a float. -/
def parseIntField (env : Env) (k : IntKind) (s : String) : Option ℤ :=
  if k.signed then (parseInt s).or (env.floatToInt s) else (parseUint s).or (env.floatToUint s)

/-- `SetInt` and `SetUint` keep the low bits. -/
def wrap (k : IntKind) (n : ℤ) : k.Value :=
  ⟨(n - k.lo) % 2 ^ k.bits + k.lo, k.inRange_wrap n⟩

/-! ## The two walks -/

/-- The text of a field. -/
def fieldText : (t : Ty) → Val t → String
  | .string, s => s
  | .bool, b => formatBool b
  | .int _, n => String.ofList (Decimal.formatInt n.1)
  | .ptr t, p =>
      match (p : Option (Val t)) with
      | some v => String.ofList (print (marshal t v))
      | none => "null"
  | .map t, m => String.ofList (print (marshal (.map t) m))
  | .slice t, vs => String.ofList (print (marshal (.slice t) vs))
  | .struct fs, vs => String.ofList (print (marshal (.struct fs) vs))

/-- `configToMap`, from the fields that are left. -/
def configToMap : (fs : Fields) → Vals fs → Map String → Map String
  | .nil, _, result => result
  | .cons key _ t fs, (v, vs), result => configToMap fs vs (result.insert key (fieldText t v))

variable (env : Env)

/-- `json.Unmarshal` into a value: a text that is no JSON leaves it alone. -/
def unmarshalText (t : Ty) (old : Val t) (text : String) : Val t × Bool :=
  match parse text with
  | none => (old, false)
  | some j => unmarshal env.fold t old j

/-- What the text of a field makes of it, and whether it could be parsed.  A pointer that is
nil gets something to point to before the text is read. -/
def readField : (t : Ty) → Val t → String → Val t × Bool
  | .string, _, text => (text, true)
  | .bool, old, text =>
      match parseBool text with
      | none => (old, false)
      | some b => (b, true)
  | .int k, old, text =>
      match parseIntField env k text with
      | none => (old, false)
      | some n => (wrap k n, true)
  | .ptr t, old, text =>
      if text = "null" then (none, true)
      else
        let r := unmarshalText env t (Option.getD old (zero t)) text
        (some r.1, r.2)
  | .map t, old, text => unmarshalText env (.map t) old text
  | .slice t, old, text => unmarshalText env (.slice t) old text
  | .struct fs, old, text => unmarshalText env (.struct fs) old text

/-- `updateConfigFromMap`. -/
def updateConfigFromMap : (fs : Fields) → Vals fs → Map String → Vals fs
  | .nil, _, _ => ()
  | .cons key _ t fs, (old, olds), configMap =>
      (match configMap[key]? with
        | none => old
        | some text => (readField env t old text).1,
        updateConfigFromMap fs olds configMap)

/-! ## A field that was saved -/

theorem parseInt_formatInt {n : ℤ} (hlo : -2 ^ 63 ≤ n) (hhi : n < 2 ^ 63) :
    parseInt (String.ofList (Decimal.formatInt n)) = some n := by
  rw [parseInt, String.toList_ofList, Decimal.parseInt_formatInt]
  simp only [Option.filter, Bool.and_eq_true, decide_eq_true_eq, hlo, hhi, and_self, if_true]

theorem parseUint_formatInt {n : ℤ} (hlo : 0 ≤ n) (hhi : n < 2 ^ 64) :
    parseUint (String.ofList (Decimal.formatInt n)) = some n := by
  rw [parseUint, String.toList_ofList, Decimal.parseNat_formatInt hlo]
  have hlt : n.toNat < 2 ^ 64 := by omega
  simp only [Option.filter, decide_eq_true_eq, hlt, if_true, Option.map_some]
  exact congrArg some (Int.toNat_of_nonneg hlo)

theorem parseIntField_formatInt (k : IntKind) (n : k.Value) :
    parseIntField env k (String.ofList (Decimal.formatInt n.1)) = some n.1 := by
  have hrange := k.inRange_word n.2
  rw [parseIntField]
  split
  next hsigned =>
    rw [parseInt_formatInt (hrange.1 hsigned).1 (hrange.1 hsigned).2]
    rfl
  next hsigned =>
    have hword := hrange.2 (Bool.eq_false_iff.2 hsigned)
    rw [parseUint_formatInt hword.1 hword.2]
    rfl

theorem wrap_val (k : IntKind) (n : k.Value) : wrap k n.1 = n :=
  Subtype.ext (k.wrap_of_inRange n.2)

theorem unmarshalText_print {t : Ty} (v old : Val t) :
    unmarshalText env t old (String.ofList (print (marshal t v))) =
      unmarshal env.fold t old (marshal t v) := by
  rw [unmarshalText, parse_print (valid_marshal t v)]

/-- The text of what a pointer points to is that of nil only for null. -/
theorem print_marshal_eq_null_iff {t : Ty} (v : Val t) :
    String.ofList (print (marshal t v)) = "null" ↔ marshal t v = .null := by
  constructor
  · intro h
    have hnull : print (marshal t v) = print .null := by
      rw [← String.toList_ofList (l := print (marshal t v)), h]
      rfl
    exact print_inj (valid_marshal t v) trivial hnull
  · intro h
    rw [h]
    rfl

/-- A field comes back from its text exactly when what it held before fits. -/
theorem readField_fieldText_iff {t : Ty} (ht : t.Distinct) (v old : Val t) :
    (readField env t old (fieldText t v)).1 = v ↔ Fits t v old := by
  cases t with
  | string => exact iff_of_true rfl trivial
  | bool =>
      have hread : ∀ b : Bool, (readField env .bool old (fieldText .bool b)).1 = b := by
        intro b
        cases b <;> rfl
      exact iff_of_true (hread v) trivial
  | int k =>
      refine iff_of_true ?_ trivial
      simp only [readField, fieldText, parseIntField_formatInt env k v]
      exact wrap_val k v
  | ptr t =>
      cases v with
      | none => exact iff_of_true rfl trivial
      | some v =>
          have ih := unmarshal_marshal_iff env.fold t ht v (Option.getD old (zero t))
          have htext := unmarshalText_print env v (Option.getD old (zero t))
          by_cases hnull : marshal t v = .null
          · have hread : (readField env (.ptr t) old (String.ofList (print (marshal t v)))).1 =
                (none : Option (Val t)) := by
              simp only [readField, (print_marshal_eq_null_iff v).2 hnull, if_true]
              rfl
            refine iff_of_false (fun h => ?_) (fun h => h.1 hnull)
            have hnone : (none : Option (Val t)) = some v := hread.symm.trans h
            cases hnone
          · have hread : (readField env (.ptr t) old (String.ofList (print (marshal t v)))).1 =
                some (unmarshal env.fold t (Option.getD old (zero t)) (marshal t v)).1 := by
              simp only [readField, if_neg (mt (print_marshal_eq_null_iff v).1 hnull), htext]
              rfl
            exact (iff_of_eq (congrArg (· = some v) hread)).trans
              ((Option.some_inj.trans ih).trans (and_iff_right hnull).symm)
  | map t =>
      refine Iff.trans ?_ (unmarshal_marshal_iff env.fold (.map t) ht v old)
      exact iff_of_eq (congrArg (fun r => Prod.fst r = v) (unmarshalText_print env v old))
  | slice t =>
      refine Iff.trans ?_ (unmarshal_marshal_iff env.fold (.slice t) ht v old)
      exact iff_of_eq (congrArg (fun r => Prod.fst r = v) (unmarshalText_print env v old))
  | struct fs =>
      refine Iff.trans ?_ (unmarshal_marshal_iff env.fold (.struct fs) ht v old)
      exact iff_of_eq (congrArg (fun r => Prod.fst r = v) (unmarshalText_print env v old))

/-! ## The whole configuration -/

/-- Every field of `dst` fits what was saved of `src`. -/
def FitsConfig : (fs : Fields) → Vals fs → Vals fs → Prop
  | .nil, _, _ => True
  | .cons _ _ t fs, (v, vs), (old, olds) => Fits t v old ∧ FitsConfig fs vs olds

/-- Saving the other fields keeps a key. -/
theorem getElem?_configToMap : ∀ (fs : Fields) (vs : Vals fs) (result : Map String) {key : String},
    key ∉ fs.names → (configToMap fs vs result)[key]? = result[key]?
  | .nil, _, _, _, _ => rfl
  | .cons name _ t fs, (v, vs), result, key, hkey => by
      rw [Fields.names, List.mem_cons, not_or] at hkey
      rw [configToMap, getElem?_configToMap fs vs _ hkey.2, Std.ExtTreeMap.getElem?_insert,
        if_neg (fun h => hkey.1 (Std.LawfulEqCmp.eq_of_compare h).symm)]

/-- What was saved is loaded again exactly when every field fits. -/
theorem updateConfigFromMap_configToMap_iff : ∀ (fs : Fields), fs.names.Nodup → fs.Distinct →
    ∀ (src dst : Vals fs) (result : Map String),
      updateConfigFromMap env fs dst (configToMap fs src result) = src ↔ FitsConfig fs src dst
  | .nil, _, _, _, _, _ => iff_of_true rfl trivial
  | .cons key _ t fs, hnodup, hdistinct, (v, vs), (old, olds), result => by
      rw [Fields.names, List.nodup_cons] at hnodup
      have ih := updateConfigFromMap_configToMap_iff fs hnodup.2 hdistinct.2 vs olds
        (result.insert key (fieldText t v))
      have hget : (configToMap fs vs (result.insert key (fieldText t v)))[key]? =
          some (fieldText t v) := by
        rw [getElem?_configToMap fs vs _ hnodup.1, Std.ExtTreeMap.getElem?_insert_self]
      rw [configToMap, updateConfigFromMap, hget, FitsConfig, ← ih,
        ← readField_fieldText_iff env hdistinct.1]
      exact Prod.mk.injEq _ _ _ _ ▸ Iff.rfl

/-! ## Texts that cannot be parsed -/

/-- The configuration with every text applied that can be parsed. -/
def applied : (fs : Fields) → Vals fs → Map String → Vals fs
  | .nil, _, _ => ()
  | .cons key _ t fs, (old, olds), configMap =>
      (match configMap[key]? with
        | none => old
        | some text => if (readField env t old text).2 then (readField env t old text).1 else old,
        applied fs olds configMap)

/-- A text of JSON that cannot be decoded into the value leaves it as it was. -/
def Steady (t : Ty) (old : Val t) (text : String) : Prop :=
  ∀ j, parse text = some j → (unmarshal env.fold t old j).2 = false →
    (unmarshal env.fold t old j).1 = old

/-- A text that cannot be parsed leaves the field as it was: one of a pointer finds something
that it points to, and what it decodes of the text was there. -/
def SteadyField : (t : Ty) → Val t → String → Prop
  | .ptr t, old, text =>
      text = "null" ∨ (unmarshalText env t (Option.getD old (zero t)) text).2 = true ∨
        ∃ v : Val t, old = some v ∧ Steady env t v text
  | .map t, old, text => Steady env (.map t) old text
  | .slice t, old, text => Steady env (.slice t) old text
  | .struct fs, old, text => Steady env (.struct fs) old text
  | _, _, _ => True

/-- Every field is steady under its text. -/
def SteadyConfig : (fs : Fields) → Vals fs → Map String → Prop
  | .nil, _, _ => True
  | .cons key _ t fs, (old, olds), configMap =>
      (∀ text, configMap[key]? = some text → SteadyField env t old text) ∧
        SteadyConfig fs olds configMap

theorem unmarshalText_eq_iff {t : Ty} (old : Val t) (text : String) :
    ((unmarshalText env t old text).2 = false → (unmarshalText env t old text).1 = old) ↔
      Steady env t old text := by
  rw [unmarshalText, Steady]
  cases parse text with
  | none => exact iff_of_true (fun _ => rfl) (fun j hj => by cases hj)
  | some j =>
      exact ⟨fun h j' hj' => Option.some.inj hj' ▸ h, fun h => h j rfl⟩

/-- A field keeps its value under a text that cannot be parsed exactly when it is steady. -/
theorem readField_eq_iff (t : Ty) (old : Val t) (text : String) :
    ((readField env t old text).2 = false → (readField env t old text).1 = old) ↔
      SteadyField env t old text := by
  cases t with
  | string => exact iff_of_true (fun h => by cases h) trivial
  | bool =>
      refine iff_of_true ?_ trivial
      simp only [readField]
      cases parseBool text with
      | none => exact fun _ => rfl
      | some b => exact fun h => by cases h
  | int k =>
      refine iff_of_true ?_ trivial
      simp only [readField]
      cases parseIntField env k text with
      | none => exact fun _ => rfl
      | some n => exact fun h => by cases h
  | map t => exact unmarshalText_eq_iff env old text
  | slice t => exact unmarshalText_eq_iff env old text
  | struct fs => exact unmarshalText_eq_iff env old text
  | ptr t =>
      by_cases hnull : text = "null"
      · exact iff_of_true (fun h => by simp [readField, hnull] at h) (Or.inl hnull)
      · have hread : readField env (.ptr t) old text =
            (some (unmarshalText env t (Option.getD old (zero t)) text).1,
              (unmarshalText env t (Option.getD old (zero t)) text).2) := by
          simp only [readField, if_neg hnull]
          rfl
        rw [hread]
        cases hok : (unmarshalText env t (Option.getD old (zero t)) text).2 with
        | true => exact iff_of_true (fun h => by cases h) (Or.inr (Or.inl hok))
        | false =>
            cases old with
            | none =>
                refine iff_of_false (fun h => ?_) ?_
                · have hsome : some _ = (none : Option (Val t)) := h rfl
                  cases hsome
                · rintro (h | h | ⟨v, h, -⟩)
                  · exact hnull h
                  · exact absurd (hok.symm.trans h) (by decide)
                  · cases h
            | some v =>
                have hsteady := unmarshalText_eq_iff env v text
                constructor
                · intro h
                  have hkept : some _ = some v := h rfl
                  exact Or.inr (Or.inr ⟨v, rfl, hsteady.1 fun _ => Option.some.inj hkept⟩)
                · rintro (h | h | ⟨w, h, hw⟩) _
                  · exact absurd h hnull
                  · exact absurd (hok.symm.trans h) (by decide)
                  · obtain rfl := Option.some.inj h
                    exact congrArg some (hsteady.2 hw hok)

/-- Loading applies what can be parsed and keeps the rest exactly when every field is
steady. -/
theorem updateConfigFromMap_eq_applied_iff : ∀ (fs : Fields) (dst : Vals fs)
    (configMap : Map String),
    updateConfigFromMap env fs dst configMap = applied env fs dst configMap ↔
      SteadyConfig env fs dst configMap
  | .nil, _, _ => iff_of_true rfl trivial
  | .cons key _ t fs, (old, olds), configMap => by
      have ih := updateConfigFromMap_eq_applied_iff fs olds configMap
      rw [updateConfigFromMap, applied, SteadyConfig, ← ih]
      refine Prod.mk.injEq _ _ _ _ ▸ and_congr_left fun _ => ?_
      cases configMap[key]? with
      | none => exact iff_of_true rfl fun text h => by cases h
      | some text =>
          have hfield := readField_eq_iff env t old text
          have hall : (∀ text', some text = some text' → SteadyField env t old text') ↔
              SteadyField env t old text :=
            ⟨fun h => h text rfl, fun h text' heq => Option.some.inj heq ▸ h⟩
          rw [hall, ← hfield]
          show (readField env t old text).1 =
            (if (readField env t old text).2 then (readField env t old text).1 else old) ↔ _
          cases (readField env t old text).2 with
          | true => exact iff_of_true (if_pos rfl).symm fun h => by cases h
          | false =>
              rw [if_neg Bool.false_ne_true]
              exact ⟨fun h _ => h, fun h => h rfl⟩

/-! ## Saving and loading -/

/-- The configuration `src` comes back over `dst`, and loading a map into `dst` applies every
text that can be parsed and keeps the fields of the others. -/
def SavesAndLoads (fs : Fields) (src dst : Vals fs) (configMap : Map String) : Prop :=
  updateConfigFromMap env fs dst (configToMap fs src ∅) = src ∧
    updateConfigFromMap env fs dst configMap = applied env fs dst configMap

/-- The kind of `int`. -/
def goInt : IntKind := ⟨true, 64, by decide, by decide⟩

/-- A switch and a table of numbers. -/
def limitFields : Fields := .cons "enabled" false .bool (.cons "limits" false (.map (.int goInt)) .nil)

/-- A configuration with one limit. -/
def limitOf (group : String) (n : goInt.Value) : Vals limitFields :=
  (true, some ((∅ : Map goInt.Value).insert group n), ())

theorem limitFields_distinct : (Ty.struct limitFields).Distinct :=
  ⟨by decide, trivial, trivial, trivial⟩

/-- Keys are the same up to the case of letters; no text is a float. -/
def plainEnv : Env := ⟨fun key => key.map Char.toLower, fun _ => none, fun _ => none⟩

end DazeApi.Config
