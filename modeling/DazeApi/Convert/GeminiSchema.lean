import DazeApi.Lib.JsonPath
import DazeApi.Lib.Text

/-!
# Schemas for Gemini

`cleanFunctionParameters` of `relay/channel/gemini/relay-gemini.go`.  A schema keeps the fields that
Gemini knows, its type becomes one of Gemini's names, and the schemas in `properties`, `items` and
`anyOf` are cleaned likewise, down to a depth limit at which they are dropped.
`cleanFunctionParameters_spec` says for which input the result is clean and stays as it is.
-/

namespace DazeApi.Gemini.Schema

open JsonText JsonPath

abbrev Fields := List (String × Json)

def geminiOpenAPISchemaAllowedFields : List String :=
  ["anyOf", "default", "description", "enum", "example", "format", "items", "maxItems",
    "maxLength", "maxProperties", "maximum", "minItems", "minLength", "minProperties", "minimum",
    "nullable", "pattern", "properties", "propertyOrdering", "required", "title", "type"]

def geminiFunctionSchemaMaxDepth : Nat := 64

/-- `unicode.ToLower`, as far as it leads to an ASCII letter. -/
def toLower (c : Char) : Char :=
  if c = Char.ofNat 0x130 then 'i' else if c = Char.ofNat 0x212A then 'k' else c.toLower

/-- The Gemini name of a type. -/
def geminiType (lower : String) : Option String :=
  if lower = "object" then some "OBJECT"
  else if lower = "array" then some "ARRAY"
  else if lower = "string" then some "STRING"
  else if lower = "integer" then some "INTEGER"
  else if lower = "number" then some "NUMBER"
  else if lower = "boolean" then some "BOOLEAN"
  else none

/-- `strings.ToLower(strings.TrimSpace(t))`. -/
def fold (t : String) : String := String.ofList ((Text.trimSpace t).toList.map toLower)

/-- The closure `normalize`: the type, and whether it is null. -/
def normalize (t : String) : String × Bool :=
  match geminiType (fold t) with
  | some name => (name, false)
  | none => if fold t = "null" then ("", true) else (t, false)

/-- The loop over a list of types: the chosen one, if any, and whether one is null. -/
def chooseFrom : List Json → String → Bool → String × Bool
  | [], chosen, nullable => (chosen, nullable)
  | .str s :: items, chosen, nullable =>
      if (normalize s).2 then chooseFrom items chosen true
      else chooseFrom items (if chosen = "" then (normalize s).1 else chosen) nullable
  | _ :: items, chosen, nullable => chooseFrom items chosen nullable

def deleteMember (schema : Fields) (key : String) : Fields := schema.filter (·.1 ≠ key)

def normalizeGeminiSchemaTypeAndNullable (schema : Fields) : Fields :=
  match member schema "type" with
  | some (.str t) =>
      if (normalize t).2 then deleteMember (setMember schema "nullable" (.bool true)) "type"
      else setMember schema "type" (.str (normalize t).1)
  | some (.arr items) =>
      let (chosen, nullable) := chooseFrom items "" false
      let schema := if nullable then setMember schema "nullable" (.bool true) else schema
      if chosen ≠ "" then setMember schema "type" (.str chosen) else deleteMember schema "type"
  | _ => schema

def keepAllowed (schema : Fields) : Fields :=
  schema.filter (·.1 ∈ geminiOpenAPISchemaAllowedFields)

def shallowMap (schema : Fields) : Fields :=
  deleteMember
    (deleteMember (deleteMember (normalizeGeminiSchemaTypeAndNullable (keepAllowed schema))
      "properties") "items") "anyOf"

def cleanFunctionParametersShallow : Json → Json
  | .obj ms => .obj (shallowMap ms)
  | .arr _ => .arr []
  | j => j

/-- A member that is there is changed. -/
def update (schema : Fields) (key : String) (f : Json → Json) : Fields :=
  match member schema key with
  | some v => setMember schema key (f v)
  | none => schema

section

variable (clean : Json → Json)

def cleanProperties : Json → Json
  | .obj ps => .obj (ps.map fun p => (p.1, clean p.2))
  | j => j

/-- Of a tuple the first element is kept. -/
def cleanItems : Json → Json
  | .obj ms => clean (.obj ms)
  | .arr (item :: _) => clean item
  | j => j

def cleanAnyOf : Json → Json
  | .arr nested => .arr (nested.map clean)
  | j => j

def cleanMap (schema : Fields) : Fields :=
  update (update (update (normalizeGeminiSchemaTypeAndNullable (keepAllowed schema))
    "properties" (cleanProperties clean)) "items" (cleanItems clean)) "anyOf" (cleanAnyOf clean)

end

/-- `cleanFunctionParametersWithDepth`, by the depth that is left. -/
def cleanFunctionParametersWithDepth : Nat → Json → Json
  | 0, j => cleanFunctionParametersShallow j
  | left + 1, .obj ms => .obj (cleanMap (cleanFunctionParametersWithDepth left) ms)
  | left + 1, .arr items => .arr (items.map (cleanFunctionParametersWithDepth left))
  | _ + 1, j => j

def cleanFunctionParameters (params : Json) : Json :=
  cleanFunctionParametersWithDepth geminiFunctionSchemaMaxDepth params

/-! ## Schemas in schemas -/

inductive Step where
  | property (name : String)
  | items
  | anyOf (i : Nat)
deriving DecidableEq, Repr

def fields : Json → Option Fields
  | .obj ms => some ms
  | _ => none

def elements : Json → Option (List Json)
  | .arr items => some items
  | _ => none

/-- The schema that is reached by a step. -/
def inner (schema : Fields) : Step → Option Fields
  | .property name =>
      (((member schema "properties").bind fields).bind (member · name)).bind fields
  | .items => (member schema "items").bind fields
  | .anyOf i => (((member schema "anyOf").bind elements).bind (·[i]?)).bind fields

/-- The schema that is cleaned for a step: of a tuple, the first one. -/
def origin (schema : Fields) : Step → Option Fields
  | .items =>
      (member schema "items").bind fun
        | .obj ms => some ms
        | .arr (item :: _) => fields item
        | _ => none
  | step => inner schema step

/-- The schema at the end of a path. -/
def along (next : Fields → Step → Option Fields) (schema : Fields) (path : List Step) :
    Option Fields :=
  path.foldlM next schema

/-! ## What is asked of the result -/

def geminiTypes : List String := ["OBJECT", "ARRAY", "STRING", "INTEGER", "NUMBER", "BOOLEAN"]

/-- The text names a type that Gemini has. -/
def Known (t : String) : Prop := (geminiType (fold t)).isSome = true

instance (t : String) : Decidable (Known t) := inferInstanceAs (Decidable (_ = _))

/-- A known type, or a list that contains one. -/
def HasKnown : Json → Prop
  | .str t => Known t
  | .arr items => ∃ t, .str t ∈ items ∧ Known t
  | _ => False

/-- A schema of the result against the one that it was made of. -/
structure Clean (depth : Nat) (schema result : Fields) : Prop where
  allowed : ∀ m ∈ result, m.1 ∈ geminiOpenAPISchemaAllowedFields
  type : ∀ v, member schema "type" = some v → HasKnown v →
    ∃ t ∈ geminiTypes, member result "type" = some (.str t)
  items : ∀ items, member result "items" ≠ some (.arr items)
  depth_le : depth ≤ geminiFunctionSchemaMaxDepth
  properties : depth < geminiFunctionSchemaMaxDepth → ∀ ps,
    member schema "properties" = some (.obj ps) →
      ∃ ps', member result "properties" = some (.obj ps') ∧ ps'.map Prod.fst = ps.map Prod.fst

/-- Every schema of the result is clean, and cleaning the result changes nothing. -/
structure Cleaned (params : Json) : Prop where
  clean : ∀ ms, params = .obj ms → ∃ rs, cleanFunctionParameters params = .obj rs ∧
    ∀ path result, along inner rs path = some result →
      ∃ schema, along origin ms path = some schema ∧ Clean path.length schema result
  stable : cleanFunctionParameters (cleanFunctionParameters params) = cleanFunctionParameters params

/-! ## When the result is as asked -/

/-- The first of a list of types that is neither empty nor null. -/
def firstType : List Json → Option String
  | [] => none
  | .str t :: items => if t = "" ∨ fold t = "null" then firstType items else some t
  | _ :: items => firstType items

/-- In a list of types no unknown one precedes the known ones. -/
def TypeFits (schema : Fields) : Prop :=
  ∀ items, member schema "type" = some (.arr items) → HasKnown (.arr items) →
    ∃ t, firstType items = some t ∧ Known t

/-- The items are no empty tuple and no tuple that begins with an array. -/
def ItemsFit (schema : Fields) : Prop :=
  ∀ items, member schema "items" = some (.arr items) →
    ∃ item rest, items = item :: rest ∧ elements item = none

/-- Where it is cleaned, a tuple in `items` does not begin with an array that has elements. -/
def Settled : Nat → Json → Prop
  | 0, _ => True
  | left + 1, .obj ms =>
      (∀ ps, member ms "properties" = some (.obj ps) → ∀ p ∈ ps, Settled left p.2) ∧
      (∀ is, member ms "items" = some (.obj is) → Settled left (.obj is)) ∧
      (∀ item rest, member ms "items" = some (.arr (item :: rest)) →
        Settled left item ∧ (left = 0 ∨ ∀ nested, elements item = some nested → nested = [])) ∧
      ∀ nested, member ms "anyOf" = some (.arr nested) → ∀ item ∈ nested, Settled left item
  | left + 1, .arr items => ∀ item ∈ items, Settled left item
  | _ + 1, _ => True

/-- What the input must be. -/
structure Fits (params : Json) : Prop where
  types : ∀ ms, params = .obj ms → ∀ path schema, along origin ms path = some schema →
    path.length ≤ geminiFunctionSchemaMaxDepth → TypeFits schema
  items : ∀ ms, params = .obj ms → ∀ path schema, along origin ms path = some schema →
    path.length < geminiFunctionSchemaMaxDepth → ItemsFit schema
  settled : Settled geminiFunctionSchemaMaxDepth params

section

variable {t name : String} {items : List Json} {ms rs schema : Fields} {key key' : String}
  {v : Json} {f : Json → Json} {n : Nat}

/-! ## Types -/

theorem mem_of_geminiType {lower : String} (h : geminiType lower = some name) :
    name ∈ geminiTypes := by
  rw [geminiType] at h
  repeat' split at h
  all_goals
    cases h
    try decide

/-- Gemini's names are known, and stand for themselves. -/
theorem geminiType_fold_of_mem : ∀ t ∈ geminiTypes, geminiType (fold t) = some t := by decide

theorem normalize_of_known (h : Known t) :
    (normalize t).2 = false ∧ (normalize t).1 ∈ geminiTypes := by
  obtain ⟨name, hname⟩ := Option.isSome_iff_exists.1 h
  rw [normalize, hname]
  exact ⟨rfl, mem_of_geminiType hname⟩

theorem normalize_of_unknown (h : ¬ Known t) (hnull : fold t ≠ "null") :
    normalize t = (t, false) := by
  rw [Known, Option.not_isSome_iff_eq_none] at h
  rw [normalize, h]
  exact if_neg hnull

theorem normalize_of_null (h : fold t = "null") : normalize t = ("", true) := by
  have hnone : geminiType "null" = none := by decide
  rw [normalize, h, hnone]
  exact if_pos rfl

/-- What is not null is normalized once. -/
theorem normalize_normalize (h : fold t ≠ "null") :
    normalize (normalize t).1 = ((normalize t).1, false) := by
  by_cases hknown : Known t
  · have hmem := (normalize_of_known hknown).2
    rw [normalize, geminiType_fold_of_mem _ hmem]
  · rw [normalize_of_unknown hknown h, normalize_of_unknown hknown h]

theorem known_iff (h : fold t ≠ "null") : Known t ↔ (normalize t).1 ∈ geminiTypes := by
  constructor
  · exact fun hknown => (normalize_of_known hknown).2
  · intro hmem
    by_contra hknown
    rw [normalize_of_unknown hknown h] at hmem
    rw [Known, geminiType_fold_of_mem t hmem] at hknown
    exact hknown rfl

theorem firstType_spec (h : firstType items = some t) : t ≠ "" ∧ fold t ≠ "null" := by
  induction items with
  | nil => cases h
  | cons item items ih =>
      rw [firstType.eq_def] at h
      split at h
      next => cases h
      next heq =>
        cases heq
        split at h
        next => exact ih h
        next hnot =>
          cases h
          exact not_or.1 hnot
      next heq =>
        cases heq
        exact ih h

theorem normalize_ne_empty (h : t ≠ "") (hnull : fold t ≠ "null") : (normalize t).1 ≠ "" := by
  by_cases hknown : Known t
  · intro hempty
    have hmem := (normalize_of_known hknown).2
    rw [hempty] at hmem
    exact absurd hmem (by decide)
  · rw [normalize_of_unknown hknown hnull]
    exact h

theorem normalize_empty : normalize "" = ("", false) := by decide

/-- The first type that is neither empty nor null is chosen. -/
theorem chooseFrom_fst (items : List Json) (chosen : String) (nullable : Bool) :
    (chooseFrom items chosen nullable).1 =
      if chosen = "" then ((firstType items).map fun t => (normalize t).1).getD "" else chosen := by
  induction items generalizing chosen nullable with
  | nil =>
      rw [chooseFrom, firstType]
      split
      next h => exact h
      next => rfl
  | cons item items ih =>
      cases item with
      | str s =>
          rw [chooseFrom, firstType]
          by_cases hnull : fold s = "null"
          · rw [normalize_of_null hnull, if_pos rfl, ih, if_pos (Or.inr hnull)]
          · have hfalse : (normalize s).2 = false := by
              by_cases hknown : Known s
              · exact (normalize_of_known hknown).1
              · rw [normalize_of_unknown hknown hnull]
            rw [hfalse, if_neg Bool.false_ne_true, ih]
            by_cases hchosen : chosen = ""
            · rw [if_pos hchosen, if_pos hchosen]
              by_cases hempty : s = ""
              · rw [if_pos (Or.inl hempty), hempty, normalize_empty, if_pos rfl]
              · rw [if_neg (normalize_ne_empty hempty hnull), if_neg (not_or.2 ⟨hempty, hnull⟩)]
                rfl
            · rw [if_neg hchosen, if_neg hchosen, if_neg hchosen]
      | _ => exact ih chosen nullable

/-! ## Members -/

theorem member_filter (p : String → Bool) (ms : Fields) (key : String) :
    member (ms.filter fun m => p m.1) key = if p key then member ms key else none := by
  induction ms with
  | nil =>
      rw [List.filter_nil, member_nil, ite_self]
  | cons m ms ih =>
      rw [List.filter_cons, member_cons]
      by_cases hkey : m.1 = key
      · subst hkey
        by_cases hp : p m.1 = true
        · rw [if_pos hp, if_pos hp, member_cons, if_pos rfl, if_pos rfl]
        · rw [if_neg hp, ih, if_neg hp, if_neg hp]
      · rw [if_neg hkey]
        split
        next => rw [member_cons, if_neg hkey, ih]
        next => exact ih

theorem member_deleteMember (ms : Fields) (key key' : String) :
    member (deleteMember ms key) key' = if key' = key then none else member ms key' := by
  rw [deleteMember, member_filter (fun k => decide (k ≠ key))]
  by_cases h : key' = key
  · simp [h]
  · simp [h]

theorem member_keepAllowed (ms : Fields) (h : key ∈ geminiOpenAPISchemaAllowedFields) :
    member (keepAllowed ms) key = member ms key := by
  rw [keepAllowed, member_filter (fun k => decide (k ∈ geminiOpenAPISchemaAllowedFields)),
    if_pos (decide_eq_true h)]

theorem member_update : member (update ms key f) key' =
    if key' = key then (member ms key).map f else member ms key' := by
  rw [update]
  split
  next v h =>
    rw [member_setMember]
    split
    next => rw [h]; rfl
    next => rfl
  next h =>
    split
    next heq => rw [heq, h]; rfl
    next => rfl

theorem map_fst_update (ms : Fields) (key : String) (f : Json → Json) :
    (update ms key f).map Prod.fst = ms.map Prod.fst := by
  rw [update]
  split
  next v h => exact map_fst_setMember h
  next => rfl

theorem update_eq_self (h : ∀ v, member ms key = some v → f v = v) : update ms key f = ms := by
  rw [update]
  split
  next v hv => exact setMember_self (by rw [hv, h v hv])
  next => rfl

/-- The type after the normalization. -/
def typeAfter : Option Json → Option Json
  | some (.str t) => if (normalize t).2 then none else some (.str (normalize t).1)
  | some (.arr items) =>
      if (chooseFrom items "" false).1 ≠ "" then some (.str (chooseFrom items "" false).1) else none
  | v => v

theorem member_type_normalize (schema : Fields) :
    member (normalizeGeminiSchemaTypeAndNullable schema) "type" =
      typeAfter (member schema "type") := by
  rw [normalizeGeminiSchemaTypeAndNullable, typeAfter.eq_def]
  split
  next t _ =>
    split
    · rw [member_deleteMember, if_pos rfl]
    · rw [member_setMember, if_pos rfl]
  next items _ =>
    simp only
    split
    · rw [member_setMember, if_pos rfl]
    · rw [member_deleteMember, if_pos rfl]
  next => rfl

/-- The other members stay. -/
theorem member_normalize (schema : Fields) (htype : key ≠ "type") (hnull : key ≠ "nullable") :
    member (normalizeGeminiSchemaTypeAndNullable schema) key = member schema key := by
  rw [normalizeGeminiSchemaTypeAndNullable]
  split
  · split
    · rw [member_deleteMember, if_neg htype, member_setMember, if_neg hnull]
    · rw [member_setMember, if_neg htype]
  next items _ =>
    have hset : member (if (chooseFrom items "" false).2 then
        setMember schema "nullable" (.bool true) else schema) key = member schema key := by
      split
      · rw [member_setMember, if_neg hnull]
      · rfl
    simp only
    split
    · rw [member_setMember, if_neg htype, hset]
    · rw [member_deleteMember, if_neg htype, hset]
  next => rfl

theorem mem_fst_setMember {k : String} (h : k ∈ (setMember ms key v).map Prod.fst) :
    k = key ∨ k ∈ ms.map Prod.fst := by
  induction ms with
  | nil =>
      rw [setMember, List.map_cons] at h
      exact (List.mem_cons.1 h)
  | cons m ms ih =>
      rw [setMember] at h
      split at h
      · rcases List.mem_cons.1 h with h | h
        · exact Or.inl h
        · exact Or.inr (.tail _ h)
      · rcases List.mem_cons.1 h with h | h
        · exact Or.inr (h ▸ .head _)
        · exact (ih h).imp_right (.tail _)

theorem mem_fst_deleteMember {k : String} (h : k ∈ (deleteMember ms key).map Prod.fst) :
    k ∈ ms.map Prod.fst := by
  obtain ⟨m, hm, rfl⟩ := List.mem_map.1 h
  exact List.mem_map_of_mem (List.mem_of_mem_filter hm)

/-- The normalization adds no key but `nullable`. -/
theorem mem_fst_normalize {k : String}
    (h : k ∈ (normalizeGeminiSchemaTypeAndNullable schema).map Prod.fst) :
    k = "nullable" ∨ k = "type" ∨ k ∈ schema.map Prod.fst := by
  rw [normalizeGeminiSchemaTypeAndNullable] at h
  split at h
  · split at h
    · exact (mem_fst_setMember (mem_fst_deleteMember h)).imp_right Or.inr
    · exact Or.inr (mem_fst_setMember h)
  next items _ =>
    have hset : ∀ {k}, k ∈ (if (chooseFrom items "" false).2 then
        setMember schema "nullable" (.bool true) else schema).map Prod.fst →
          k = "nullable" ∨ k ∈ schema.map Prod.fst := by
      intro k hk
      split at hk
      · exact mem_fst_setMember hk
      · exact Or.inr hk
    simp only at h
    split at h
    · rcases mem_fst_setMember h with h | h
      · exact Or.inr (Or.inl h)
      · exact (hset h).imp_right Or.inr
    · exact (hset (mem_fst_deleteMember h)).imp_right Or.inr
  next => exact Or.inr (Or.inr h)

theorem allowed_normalize (ms : Fields) :
    ∀ k ∈ (normalizeGeminiSchemaTypeAndNullable (keepAllowed ms)).map Prod.fst,
      k ∈ geminiOpenAPISchemaAllowedFields := by
  intro k hk
  rcases mem_fst_normalize hk with rfl | rfl | hk
  · decide
  · decide
  · obtain ⟨m, hm, rfl⟩ := List.mem_map.1 hk
    exact of_decide_eq_true (List.mem_filter.1 hm).2

/-- A type that the normalization leaves. -/
theorem normalize_eq_self (h : ∀ t, member schema "type" = some (.str t) → normalize t = (t, false))
    (harr : ∀ items, member schema "type" ≠ some (.arr items)) :
    normalizeGeminiSchemaTypeAndNullable schema = schema := by
  rw [normalizeGeminiSchemaTypeAndNullable]
  split
  next t ht =>
    rw [h t ht, if_neg Bool.false_ne_true]
    exact setMember_self ht
  next items hitems => exact absurd hitems (harr items)
  next => rfl

theorem normalize_of_typeAfter {o : Option Json} (h : typeAfter o = some (.str t)) :
    normalize t = (t, false) := by
  rw [typeAfter.eq_def] at h
  split at h
  next s =>
    split at h
    next => cases h
    next hnot =>
      rw [Option.some.injEq, Json.str.injEq] at h
      rw [← h]
      refine normalize_normalize fun hnull => hnot ?_
      rw [normalize_of_null hnull]
  next items =>
    split at h
    next hne =>
      rw [Option.some.injEq, Json.str.injEq] at h
      rw [← h]
      rw [chooseFrom_fst, if_pos rfl] at hne ⊢
      cases hfirst : firstType items with
      | none =>
          rw [hfirst] at hne
          exact absurd rfl hne
      | some t => exact normalize_normalize (firstType_spec hfirst).2
    next => cases h
  next hstr _ => exact absurd h (hstr t)

theorem typeAfter_ne_arr {o : Option Json} (items : List Json) :
    typeAfter o ≠ some (.arr items) := by
  intro h
  rw [typeAfter.eq_def] at h
  split at h
  next =>
    split at h
    next => cases h
    next => rw [Option.some.injEq] at h; cases h
  next =>
    split at h
    next => rw [Option.some.injEq] at h; cases h
    next => cases h
  next _ harr => exact harr items h

/-! ## What cleaning leaves -/

/-- The cleaning of a schema. -/
def cleanFields : Nat → Fields → Fields
  | 0 => shallowMap
  | left + 1 => cleanMap (cleanFunctionParametersWithDepth left)

theorem eq_obj_of_fields {j : Json} {ms : Fields} (h : fields j = some ms) : j = .obj ms := by
  cases j with
  | obj ms' => exact congrArg Json.obj (Option.some.inj h)
  | _ => cases h

theorem eq_arr_of_elements {j : Json} {items : List Json} (h : elements j = some items) :
    j = .arr items := by
  cases j with
  | arr items' => exact congrArg Json.arr (Option.some.inj h)
  | _ => cases h

theorem cleanProperties_of_fields (f : Json → Json) {j : Json} (h : fields j = none) :
    cleanProperties f j = j := by
  cases j with
  | obj ms => cases h
  | _ => rfl

theorem cleanAnyOf_of_elements (f : Json → Json) {j : Json} (h : elements j = none) :
    cleanAnyOf f j = j := by
  cases j with
  | arr items => cases h
  | _ => rfl

theorem cleanItems_of_scalar (f : Json → Json) {j : Json} (hfields : fields j = none)
    (helements : elements j = none) : cleanItems f j = j := by
  cases j with
  | obj ms => cases hfields
  | arr items => cases helements
  | _ => rfl

/-- What is neither a map nor an array is not cleaned. -/
theorem clean_of_scalar (n : Nat) {j : Json} (hfields : fields j = none)
    (helements : elements j = none) : cleanFunctionParametersWithDepth n j = j := by
  cases j with
  | obj ms => cases hfields
  | arr items => cases helements
  | _ =>
      cases n with
      | zero => rfl
      | succ n => rfl

theorem clean_obj (n : Nat) (ms : Fields) :
    cleanFunctionParametersWithDepth n (.obj ms) = .obj (cleanFields n ms) := by
  cases n with
  | zero => rfl
  | succ n => rfl

theorem fields_clean (n : Nat) (j : Json) :
    fields (cleanFunctionParametersWithDepth n j) = (fields j).map (cleanFields n) := by
  cases n with
  | zero => cases j <;> rfl
  | succ n => cases j <;> rfl

theorem elements_clean (n : Nat) {j : Json} (h : elements j = none) :
    elements (cleanFunctionParametersWithDepth n j) = none := by
  cases hfields : fields j with
  | none => rwa [clean_of_scalar n hfields h]
  | some ms =>
      rw [eq_obj_of_fields hfields, clean_obj]
      rfl

theorem member_cleanMap_properties (f : Json → Json) (ms : Fields) :
    member (cleanMap f ms) "properties" = (member ms "properties").map (cleanProperties f) := by
  rw [cleanMap, member_update, if_neg (by decide), member_update, if_neg (by decide),
    member_update, if_pos rfl, member_normalize _ (by decide) (by decide),
    member_keepAllowed _ (by decide)]

theorem member_cleanMap_items (f : Json → Json) (ms : Fields) :
    member (cleanMap f ms) "items" = (member ms "items").map (cleanItems f) := by
  rw [cleanMap, member_update, if_neg (by decide), member_update, if_pos rfl, member_update,
    if_neg (by decide), member_normalize _ (by decide) (by decide),
    member_keepAllowed _ (by decide)]

theorem member_cleanMap_anyOf (f : Json → Json) (ms : Fields) :
    member (cleanMap f ms) "anyOf" = (member ms "anyOf").map (cleanAnyOf f) := by
  rw [cleanMap, member_update, if_pos rfl, member_update, if_neg (by decide), member_update,
    if_neg (by decide), member_normalize _ (by decide) (by decide),
    member_keepAllowed _ (by decide)]

theorem member_shallowMap (ms : Fields) (key : String) :
    member (shallowMap ms) key =
      if key = "properties" ∨ key = "items" ∨ key = "anyOf" then none
      else member (normalizeGeminiSchemaTypeAndNullable (keepAllowed ms)) key := by
  rw [shallowMap, member_deleteMember, member_deleteMember, member_deleteMember]
  by_cases hproperties : key = "properties"
  · simp [hproperties]
  · by_cases hitems : key = "items"
    · simp [hitems]
    · by_cases hanyOf : key = "anyOf"
      · simp [hanyOf]
      · simp [hproperties, hitems, hanyOf]

theorem member_type_cleanFields (n : Nat) (ms : Fields) :
    member (cleanFields n ms) "type" = typeAfter (member ms "type") := by
  cases n with
  | zero =>
      rw [cleanFields, member_shallowMap, if_neg (by decide), member_type_normalize,
        member_keepAllowed _ (by decide)]
  | succ n =>
      rw [cleanFields, cleanMap, member_update, if_neg (by decide), member_update,
        if_neg (by decide), member_update, if_neg (by decide), member_type_normalize,
        member_keepAllowed _ (by decide)]

theorem allowed_cleanFields (n : Nat) (ms : Fields) :
    ∀ k ∈ (cleanFields n ms).map Prod.fst, k ∈ geminiOpenAPISchemaAllowedFields := by
  intro k hk
  apply allowed_normalize ms
  cases n with
  | zero => exact mem_fst_deleteMember (mem_fst_deleteMember (mem_fst_deleteMember hk))
  | succ n =>
      rw [cleanFields, cleanMap, map_fst_update, map_fst_update, map_fst_update] at hk
      exact hk

/-- A cleaned schema keeps its keys and its type. -/
theorem normalize_cleanFields (n : Nat) (ms : Fields) :
    normalizeGeminiSchemaTypeAndNullable (keepAllowed (cleanFields n ms)) = cleanFields n ms := by
  have hkeep : keepAllowed (cleanFields n ms) = cleanFields n ms := by
    rw [keepAllowed, List.filter_eq_self]
    intro m hm
    exact decide_eq_true (allowed_cleanFields n ms _ (List.mem_map_of_mem hm))
  rw [hkeep]
  refine normalize_eq_self ?_ ?_
  · intro t ht
    rw [member_type_cleanFields] at ht
    exact normalize_of_typeAfter ht
  · intro items hitems
    rw [member_type_cleanFields] at hitems
    exact typeAfter_ne_arr items hitems

theorem deleteMember_eq_self (h : member ms key = none) : deleteMember ms key = ms := by
  rw [deleteMember, List.filter_eq_self]
  intro m hm
  rw [member_eq_none_iff] at h
  refine decide_eq_true fun heq => h ?_
  rw [← heq]
  exact List.mem_map_of_mem hm

theorem shallowMap_shallowMap (ms : Fields) : shallowMap (shallowMap ms) = shallowMap ms := by
  have hnone : ∀ {key}, key = "properties" ∨ key = "items" ∨ key = "anyOf" →
      member (shallowMap ms) key = none := by
    intro key hkey
    rw [member_shallowMap, if_pos hkey]
  have hnormal := normalize_cleanFields 0 ms
  rw [cleanFields] at hnormal
  conv_lhs => rw [shallowMap, hnormal]
  rw [deleteMember_eq_self (hnone (by decide)), deleteMember_eq_self (hnone (by decide)),
    deleteMember_eq_self (hnone (by decide))]

/-! ## Cleaning twice -/

mutual

/-- How many arrays begin one with the other. -/
def lead : Json → Nat
  | .arr items => leadItems items + 1
  | _ => 0
termination_by structural j => j

def leadItems : List Json → Nat
  | [] => 0
  | item :: _ => lead item
termination_by structural items => items

end

theorem lead_clean (n : Nat) (j : Json) : lead (cleanFunctionParametersWithDepth n j) ≤ lead j := by
  induction n generalizing j with
  | zero =>
      cases j with
      | arr items => exact Nat.succ_le_succ (Nat.zero_le _)
      | _ => exact Nat.le_refl _
  | succ n ih =>
      cases j with
      | arr items =>
          cases items with
          | nil => exact Nat.le_refl _
          | cons item items => exact Nat.succ_le_succ (ih item)
      | _ => exact Nat.le_refl _

theorem cleanItems_of_not_array (n : Nat) {j : Json} (h : elements j = none) :
    cleanItems (cleanFunctionParametersWithDepth n) j = cleanFunctionParametersWithDepth n j := by
  cases hfields : fields j with
  | none => rw [cleanItems_of_scalar _ hfields h, clean_of_scalar n hfields h]
  | some ms =>
      rw [eq_obj_of_fields hfields]
      rfl

section

variable (ih : ∀ j, cleanFunctionParametersWithDepth n (cleanFunctionParametersWithDepth n j) =
  cleanFunctionParametersWithDepth n j ↔ Settled n j)

include ih

theorem cleanProperties_twice_iff (v : Json) :
    cleanProperties (cleanFunctionParametersWithDepth n)
        (cleanProperties (cleanFunctionParametersWithDepth n) v) =
      cleanProperties (cleanFunctionParametersWithDepth n) v ↔
        ∀ ps, v = .obj ps → ∀ p ∈ ps, Settled n p.2 := by
  cases hfields : fields v with
  | some ps =>
      obtain rfl := eq_obj_of_fields hfields
      rw [cleanProperties, cleanProperties, List.map_map, Json.obj.injEq, List.map_inj_left]
      constructor
      · intro h ps' hps' p hp
        cases hps'
        exact (ih p.2).1 (Prod.mk.inj (h p hp)).2
      · intro h p hp
        exact congrArg (Prod.mk p.1) ((ih p.2).2 (h ps rfl p hp))
  | none =>
      have hsame := cleanProperties_of_fields (cleanFunctionParametersWithDepth n) hfields
      refine iff_of_true (congrArg _ hsame) ?_
      rintro ps rfl
      cases hfields

theorem cleanAnyOf_twice_iff (v : Json) :
    cleanAnyOf (cleanFunctionParametersWithDepth n)
        (cleanAnyOf (cleanFunctionParametersWithDepth n) v) =
      cleanAnyOf (cleanFunctionParametersWithDepth n) v ↔
        ∀ nested, v = .arr nested → ∀ item ∈ nested, Settled n item := by
  cases helements : elements v with
  | some nested =>
      obtain rfl := eq_arr_of_elements helements
      rw [cleanAnyOf, cleanAnyOf, List.map_map, Json.arr.injEq, List.map_inj_left]
      constructor
      · intro h nested' hnested item hitem
        cases hnested
        exact (ih item).1 (h item hitem)
      · intro h item hitem
        exact (ih item).2 (h nested rfl item hitem)
  | none =>
      have hsame := cleanAnyOf_of_elements (cleanFunctionParametersWithDepth n) helements
      refine iff_of_true (congrArg _ hsame) ?_
      rintro nested rfl
      cases helements

/-- A tuple in place of items settles unless it begins with an array that has elements. -/
theorem cleanItems_tuple_twice_iff (item : Json) :
    cleanItems (cleanFunctionParametersWithDepth n) (cleanFunctionParametersWithDepth n item) =
      cleanFunctionParametersWithDepth n item ↔
        Settled n item ∧ (n = 0 ∨ ∀ nested, elements item = some nested → nested = []) := by
  cases helements : elements item with
  | none =>
      rw [cleanItems_of_not_array n (elements_clean n helements), ih]
      constructor
      · exact fun h => ⟨h, Or.inr fun nested h => by cases h⟩
      · exact fun h => h.1
  | some nested =>
      obtain rfl := eq_arr_of_elements helements
      cases n with
      | zero => exact iff_of_true rfl ⟨trivial, Or.inl rfl⟩
      | succ n =>
          cases nested with
          | nil =>
              refine iff_of_true rfl ⟨?_, Or.inr fun nested h => ?_⟩
              · intro item hitem
                cases hitem
              · cases h
                rfl
          | cons z zs =>
              refine iff_of_false ?_ ?_
              · intro h
                have hle := lead_clean (n + 1) (cleanFunctionParametersWithDepth n z)
                have hlead := congrArg lead h
                have hnext : lead (cleanFunctionParametersWithDepth (n + 1) (.arr (z :: zs))) =
                    lead (cleanFunctionParametersWithDepth n z) + 1 := rfl
                rw [hnext] at hlead
                have hfirst : cleanItems (cleanFunctionParametersWithDepth (n + 1))
                    (cleanFunctionParametersWithDepth (n + 1) (.arr (z :: zs))) =
                  cleanFunctionParametersWithDepth (n + 1)
                    (cleanFunctionParametersWithDepth n z) := rfl
                rw [hfirst] at hlead
                omega
              · rintro ⟨-, h | h⟩
                · exact Nat.succ_ne_zero n h
                · cases h _ rfl

theorem cleanItems_twice_iff (v : Json) :
    cleanItems (cleanFunctionParametersWithDepth n)
        (cleanItems (cleanFunctionParametersWithDepth n) v) =
      cleanItems (cleanFunctionParametersWithDepth n) v ↔
        (∀ is, v = .obj is → Settled n (.obj is)) ∧
        ∀ item rest, v = .arr (item :: rest) →
          Settled n item ∧ (n = 0 ∨ ∀ nested, elements item = some nested → nested = []) := by
  cases v with
  | obj is =>
      have htwice : cleanItems (cleanFunctionParametersWithDepth n)
          (cleanItems (cleanFunctionParametersWithDepth n) (.obj is)) =
        cleanFunctionParametersWithDepth n (cleanFunctionParametersWithDepth n (.obj is)) := by
        rw [cleanItems, clean_obj, cleanItems]
      rw [htwice, cleanItems, ih]
      constructor
      · intro h
        refine ⟨fun is' his => ?_, fun item rest h => by cases h⟩
        cases his
        exact h
      · exact fun h => h.1 is rfl
  | arr items =>
      cases items with
      | nil =>
          refine iff_of_true rfl ⟨fun is h => Json.noConfusion h, fun item rest h => ?_⟩
          cases h
      | cons item rest =>
          rw [cleanItems, cleanItems_tuple_twice_iff ih]
          constructor
          · intro h
            refine ⟨fun is h => Json.noConfusion h, fun item' rest' heq => ?_⟩
            cases heq
            exact h
          · exact fun h => h.2 item rest rfl
  | _ =>
      exact iff_of_true rfl ⟨fun is h => Json.noConfusion h, fun item rest h => Json.noConfusion h⟩

end

/-- Three members are changed twice as once exactly if each of them is. -/
theorem cleanMap_twice_iff (n : Nat) (ms : Fields) :
    cleanFields (n + 1) (cleanFields (n + 1) ms) = cleanFields (n + 1) ms ↔
      (∀ v, member ms "properties" = some v →
        cleanProperties (cleanFunctionParametersWithDepth n)
          (cleanProperties (cleanFunctionParametersWithDepth n) v) =
            cleanProperties (cleanFunctionParametersWithDepth n) v) ∧
      (∀ v, member ms "items" = some v →
        cleanItems (cleanFunctionParametersWithDepth n)
          (cleanItems (cleanFunctionParametersWithDepth n) v) =
            cleanItems (cleanFunctionParametersWithDepth n) v) ∧
      ∀ v, member ms "anyOf" = some v →
        cleanAnyOf (cleanFunctionParametersWithDepth n)
          (cleanAnyOf (cleanFunctionParametersWithDepth n) v) =
            cleanAnyOf (cleanFunctionParametersWithDepth n) v := by
  constructor
  · intro h
    refine ⟨fun v hv => ?_, fun v hv => ?_, fun v hv => ?_⟩
    · have hmember := congrArg (member · "properties") h
      rw [cleanFields] at hmember
      simp only [member_cleanMap_properties, hv, Option.map_some, Option.some.injEq] at hmember
      exact hmember
    · have hmember := congrArg (member · "items") h
      rw [cleanFields] at hmember
      simp only [member_cleanMap_items, hv, Option.map_some, Option.some.injEq] at hmember
      exact hmember
    · have hmember := congrArg (member · "anyOf") h
      rw [cleanFields] at hmember
      simp only [member_cleanMap_anyOf, hv, Option.map_some, Option.some.injEq] at hmember
      exact hmember
  · rintro ⟨hproperties, hitems, hanyOf⟩
    have hnormal := normalize_cleanFields (n + 1) ms
    rw [cleanFields] at hnormal ⊢
    rw [cleanMap, hnormal]
    rw [update_eq_self, update_eq_self, update_eq_self]
    · intro w hw
      rw [member_cleanMap_properties, Option.map_eq_some_iff] at hw
      obtain ⟨v, hv, rfl⟩ := hw
      exact hproperties v hv
    · intro w hw
      rw [update_eq_self, member_cleanMap_items, Option.map_eq_some_iff] at hw
      · obtain ⟨v, hv, rfl⟩ := hw
        exact hitems v hv
      · intro w hw
        rw [member_cleanMap_properties, Option.map_eq_some_iff] at hw
        obtain ⟨v, hv, rfl⟩ := hw
        exact hproperties v hv
    · intro w hw
      rw [member_update, if_neg (by decide), member_update, if_neg (by decide),
        member_cleanMap_anyOf, Option.map_eq_some_iff] at hw
      obtain ⟨v, hv, rfl⟩ := hw
      exact hanyOf v hv

/-- Cleaning twice is cleaning once exactly if no tuple that is cleaned begins with an array that
has elements. -/
theorem stable_iff (n : Nat) (j : Json) :
    cleanFunctionParametersWithDepth n (cleanFunctionParametersWithDepth n j) =
      cleanFunctionParametersWithDepth n j ↔ Settled n j := by
  induction n generalizing j with
  | zero =>
      refine iff_of_true ?_ trivial
      cases j with
      | obj ms => exact congrArg Json.obj (shallowMap_shallowMap ms)
      | _ => rfl
  | succ n ih =>
      cases j with
      | obj ms =>
          rw [clean_obj, clean_obj, Json.obj.injEq, cleanMap_twice_iff, Settled]
          simp only [cleanProperties_twice_iff ih, cleanItems_twice_iff ih, cleanAnyOf_twice_iff ih]
          constructor
          · rintro ⟨hproperties, hitems, hanyOf⟩
            exact ⟨fun ps hps => hproperties _ hps ps rfl, fun is his => (hitems _ his).1 is rfl,
              fun item rest h => (hitems _ h).2 item rest rfl,
              fun nested hnested => hanyOf _ hnested nested rfl⟩
          · rintro ⟨hproperties, hitems, htuple, hanyOf⟩
            refine ⟨fun v hv ps hps => hproperties ps (hps ▸ hv), fun v hv => ?_,
              fun v hv nested hnested => hanyOf nested (hnested ▸ hv)⟩
            exact ⟨fun is his => hitems is (his ▸ hv), fun item rest h => htuple item rest (h ▸ hv)⟩
      | arr items =>
          have harr : ∀ l, cleanFunctionParametersWithDepth (n + 1) (.arr l) =
              .arr (l.map (cleanFunctionParametersWithDepth n)) := fun _ => rfl
          rw [harr, harr, Json.arr.injEq, List.map_map, List.map_inj_left, Settled]
          exact forall₂_congr fun item _ => ih item
      | _ => exact iff_of_true rfl trivial

/-! ## Schemas along a path -/

theorem member_map_clean (n : Nat) (ps : Fields) (name : String) :
    member (ps.map fun p => (p.1, cleanFunctionParametersWithDepth n p.2)) name =
      (member ps name).map (cleanFunctionParametersWithDepth n) := by
  induction ps with
  | nil => rfl
  | cons p ps ih =>
      rw [List.map_cons, member_cons, member_cons, ih]
      split
      · rfl
      · rfl

/-- An inner schema of the result is the cleaned one of the input. -/
theorem inner_cleanFields (n : Nat) (ms : Fields) (step : Step) :
    inner (cleanFields (n + 1) ms) step = (origin ms step).map (cleanFields n) := by
  rw [cleanFields]
  cases step with
  | property name =>
      rw [inner, origin, inner, member_cleanMap_properties]
      · cases member ms "properties" with
        | none => rfl
        | some v =>
            cases v with
            | obj ps =>
                rw [Option.map_some, cleanProperties, Option.bind_some, Option.bind_some, fields,
                  fields, Option.bind_some, Option.bind_some, member_map_clean]
                cases member ps name with
                | none => rfl
                | some w => exact fields_clean n w
            | _ => rfl
      · intro h
        cases h
  | items =>
      rw [inner, origin, member_cleanMap_items]
      cases member ms "items" with
      | none => rfl
      | some v =>
          cases v with
          | obj is => exact fields_clean n (.obj is)
          | arr items =>
              cases items with
              | nil => rfl
              | cons item rest => exact fields_clean n item
          | _ => rfl
  | anyOf i =>
      rw [inner, origin, inner, member_cleanMap_anyOf]
      · cases member ms "anyOf" with
        | none => rfl
        | some v =>
            cases v with
            | arr nested =>
                rw [Option.map_some, cleanAnyOf, Option.bind_some, Option.bind_some, elements,
                  elements, Option.bind_some, Option.bind_some, List.getElem?_map]
                cases nested[i]? with
                | none => rfl
                | some w => exact fields_clean n w
            | _ => rfl
      · intro h
        cases h

/-- At the depth limit there is no inner schema. -/
theorem inner_shallowMap (ms : Fields) (step : Step) : inner (shallowMap ms) step = none := by
  cases step with
  | property name => rw [inner, member_shallowMap, if_pos (by decide)]; rfl
  | items => rw [inner, member_shallowMap, if_pos (by decide)]; rfl
  | anyOf i => rw [inner, member_shallowMap, if_pos (by decide)]; rfl

theorem along_cons (next : Fields → Step → Option Fields) (schema : Fields) (step : Step)
    (path : List Step) :
    along next schema (step :: path) = (next schema step).bind fun s => along next s path := rfl

/-- The schema at the end of a path of the result is the cleaned one at the end of the path of the
input. -/
theorem along_cleanFields (n : Nat) (ms : Fields) (path : List Step) :
    along inner (cleanFields n ms) path =
      if path.length ≤ n then (along origin ms path).map (cleanFields (n - path.length))
      else none := by
  induction path generalizing n ms with
  | nil => rfl
  | cons step path ih =>
      rw [along_cons, along_cons]
      cases n with
      | zero =>
          rw [cleanFields, inner_shallowMap]
          rfl
      | succ n =>
          rw [inner_cleanFields, List.length_cons]
          simp only [Nat.add_le_add_iff_right, Nat.add_sub_add_right]
          cases origin ms step with
          | none =>
              split
              · rfl
              · rfl
          | some inside => exact ih n inside

/-! ## What the cleaned schema is like -/

/-- The type becomes one of Gemini's exactly if no unknown type precedes the known ones. -/
theorem type_iff (ms : Fields) :
    (∀ v, member ms "type" = some v → HasKnown v →
      ∃ t ∈ geminiTypes, typeAfter (some v) = some (.str t)) ↔ TypeFits ms := by
  constructor
  · intro h items hitems hknown
    obtain ⟨t, ht, hafter⟩ := h _ hitems hknown
    rw [typeAfter] at hafter
    split at hafter
    next hne =>
      rw [Option.some.injEq, Json.str.injEq, chooseFrom_fst, if_pos rfl] at hafter
      cases hfirst : firstType items with
      | none =>
          rw [chooseFrom_fst, if_pos rfl, hfirst] at hne
          exact absurd rfl hne
      | some s =>
          rw [hfirst, Option.map_some, Option.getD_some] at hafter
          refine ⟨s, rfl, (known_iff (firstType_spec hfirst).2).2 ?_⟩
          rw [hafter]
          exact ht
    next => cases hafter
  · intro h v hv hknown
    cases v with
    | str t =>
        obtain ⟨hfalse, hmem⟩ := normalize_of_known hknown
        refine ⟨_, hmem, ?_⟩
        rw [typeAfter, hfalse]
        rfl
    | arr items =>
        obtain ⟨s, hfirst, hs⟩ := h items hv hknown
        have hmem := (normalize_of_known hs).2
        have hchosen : (chooseFrom items "" false).1 = (normalize s).1 := by
          rw [chooseFrom_fst, if_pos rfl, hfirst]
          rfl
        refine ⟨_, hmem, ?_⟩
        rw [typeAfter, hchosen, if_pos]
        intro hempty
        rw [hempty] at hmem
        exact absurd hmem (by decide)
    | _ => cases hknown

/-- Items are no array afterwards exactly if they were no empty tuple and none that begins with an
array. -/
theorem items_iff (n : Nat) (ms : Fields) :
    (∀ items, member (cleanFields (n + 1) ms) "items" ≠ some (.arr items)) ↔ ItemsFit ms := by
  rw [cleanFields, member_cleanMap_items, ItemsFit]
  cases hmember : member ms "items" with
  | none => exact iff_of_true (fun items h => by cases h) fun items h => by cases h
  | some v =>
      cases v with
      | arr items =>
          cases items with
          | nil =>
              refine iff_of_false (fun h => h [] rfl) fun h => ?_
              obtain ⟨item, rest, hcons, -⟩ := h [] rfl
              cases hcons
          | cons item rest =>
              have helements := elements_clean n (j := item)
              constructor
              · intro h items hitems
                cases hitems
                refine ⟨item, rest, rfl, ?_⟩
                cases item with
                | arr nested =>
                    exfalso
                    cases n with
                    | zero => exact h [] rfl
                    | succ n => exact h _ rfl
                | _ => rfl
              · intro h items hitems
                obtain ⟨item', rest', hcons, hnone⟩ := h _ rfl
                cases hcons
                rw [Option.map_some, cleanItems, Option.some.injEq] at hitems
                have := helements hnone
                rw [hitems] at this
                cases this
      | obj is =>
          refine iff_of_true (fun items h => ?_) fun items h => by cases h
          rw [Option.map_some, cleanItems, clean_obj] at h
          cases h
      | _ => exact iff_of_true (fun items h => by cases h) fun items h => by cases h

/-- A cleaned schema is clean exactly if its type and its items fit. -/
theorem clean_cleanFields_iff {depth : Nat} (hdepth : depth ≤ geminiFunctionSchemaMaxDepth)
    (ms : Fields) :
    Clean depth ms (cleanFields (geminiFunctionSchemaMaxDepth - depth) ms) ↔
      TypeFits ms ∧ (depth < geminiFunctionSchemaMaxDepth → ItemsFit ms) := by
  constructor
  · intro h
    refine ⟨(type_iff ms).1 fun v hv hknown => ?_, fun hlt => ?_⟩
    · have htype := h.type v hv hknown
      rw [member_type_cleanFields, hv] at htype
      exact htype
    · have hitems := h.items
      obtain ⟨n, hn⟩ := Nat.exists_eq_succ_of_ne_zero (Nat.sub_ne_zero_of_lt hlt)
      rw [hn] at hitems
      exact (items_iff n ms).1 hitems
  · rintro ⟨htype, hitems⟩
    refine ⟨?_, ?_, ?_, hdepth, ?_⟩
    · intro m hm
      exact allowed_cleanFields _ ms _ (List.mem_map_of_mem hm)
    · intro v hv hknown
      rw [member_type_cleanFields, hv]
      exact (type_iff ms).2 htype v hv hknown
    · intro items hmember
      rcases Nat.lt_or_ge depth geminiFunctionSchemaMaxDepth with hlt | hge
      · obtain ⟨n, hn⟩ := Nat.exists_eq_succ_of_ne_zero (Nat.sub_ne_zero_of_lt hlt)
        rw [hn] at hmember
        exact (items_iff n ms).2 (hitems hlt) items hmember
      · rw [Nat.sub_eq_zero_of_le hge, cleanFields, member_shallowMap, if_pos (by decide)] at hmember
        cases hmember
    · intro hlt ps hps
      obtain ⟨n, hn⟩ := Nat.exists_eq_succ_of_ne_zero (Nat.sub_ne_zero_of_lt hlt)
      rw [hn, cleanFields, member_cleanMap_properties, hps]
      refine ⟨_, rfl, ?_⟩
      rw [List.map_map]
      rfl

end

/-- Every schema of the result is clean and cleaning again changes nothing, exactly if in the input
no list of types has an unknown one before a known one, and `items` is no empty tuple and no tuple
that begins with an array. -/
theorem cleanFunctionParameters_spec (params : Json) : Cleaned params ↔ Fits params := by
  have hroot : ∀ ms, cleanFunctionParameters (.obj ms) =
      .obj (cleanFields geminiFunctionSchemaMaxDepth ms) := fun ms => clean_obj _ ms
  constructor
  · intro h
    have hnode : ∀ ms, params = .obj ms → ∀ path schema, along origin ms path = some schema →
        path.length ≤ geminiFunctionSchemaMaxDepth →
          TypeFits schema ∧ (path.length < geminiFunctionSchemaMaxDepth → ItemsFit schema) := by
      rintro ms rfl path schema hpath hle
      obtain ⟨rs, hrs, hclean⟩ := h.clean ms rfl
      rw [hroot, Json.obj.injEq] at hrs
      have hresult := along_cleanFields geminiFunctionSchemaMaxDepth ms path
      rw [if_pos hle, hpath, Option.map_some, hrs] at hresult
      obtain ⟨schema', hschema', hok⟩ := hclean path _ hresult
      cases hpath.symm.trans hschema'
      exact (clean_cleanFields_iff hle schema).1 hok
    refine ⟨?_, ?_, (stable_iff _ params).1 h.stable⟩
    · exact fun ms hms path schema hpath hle => (hnode ms hms path schema hpath hle).1
    · exact fun ms hms path schema hpath hlt =>
        (hnode ms hms path schema hpath (Nat.le_of_lt hlt)).2 hlt
  · intro h
    refine ⟨?_, (stable_iff _ params).2 h.settled⟩
    rintro ms rfl
    refine ⟨_, hroot ms, fun path result hresult => ?_⟩
    rw [along_cleanFields] at hresult
    split at hresult
    next hle =>
      obtain ⟨schema, hpath, rfl⟩ := Option.map_eq_some_iff.1 hresult
      exact ⟨schema, hpath, (clean_cleanFields_iff hle schema).2
        ⟨h.types ms rfl path schema hpath hle, h.items ms rfl path schema hpath⟩⟩
    next => cases hresult

/-- An empty tuple stays in place of items. -/
theorem empty_items_not_cleaned : ¬ ∀ params, Cleaned params := by
  intro h
  obtain ⟨rs, hrs, hclean⟩ := (h (.obj [("items", .arr [])])).clean _ rfl
  have hresult : rs = [("items", .arr [])] := by
    have heq : cleanFunctionParameters (.obj [("items", .arr [])]) = .obj [("items", .arr [])] := rfl
    rw [heq, Json.obj.injEq] at hrs
    exact hrs.symm
  subst hresult
  obtain ⟨schema, -, hok⟩ := hclean [] _ rfl
  exact hok.items [] rfl

end DazeApi.Gemini.Schema
