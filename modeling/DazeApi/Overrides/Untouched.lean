import DazeApi.Overrides.Instructions

/-!
# Fields that are not addressed

Operations change the text of the request in place; the other fields of an override, and
`RemoveDisabledFields` (`relay/common/relay_info.go`), decode all of it and encode it again, with
numbers as `float64`.  A field that is not addressed keeps its value then only if its numbers do
(`untouched_iff`).
-/

namespace DazeApi.Overrides.Untouched

open JsonText JsonPath JsonDecode PruneObjects ParamOverride Instructions

/-! ## Overrides -/

/-- Two values are the same up to the order of the fields and the way numbers are written. -/
def SameValue (canon : Numbers) (v w : Option Json) : Prop :=
  v.map (decode canon) = w.map (decode canon)

/-- The fields of a request, in which no object repeats a name. -/
structure Request where
  fields : List (String × Json)
  distinct : Distinct (.obj fields)

/-- The fields of an override that are assigned. -/
def legacyFields (paramOverride : Fields) : List (String × Json) :=
  match tryParseOperations paramOverride.entries with
  | some _ => buildLegacyParamOverride paramOverride.entries
  | none => paramOverride.entries

/-- A field is assigned, or an operation addresses it. -/
def AddressedBy (paramOverride : Fields) (key : String) : Prop :=
  member (legacyFields paramOverride) key ≠ none ∨
    ∃ ops, tryParseOperations paramOverride.entries = some ops ∧ ∃ op ∈ ops, Addresses op key

section

variable {env : Env} {canon : Numbers} {request : Request} {paramOverride : Fields}
  {ctx : Relay.Context} {ms : List (String × Json)} {key : String}

theorem distinct_legacyFields (paramOverride : Fields) :
    ((legacyFields paramOverride).map Prod.fst).Nodup := by
  rw [legacyFields]
  split
  · exact distinct_legacy paramOverride
  · exact paramOverride.distinct

/-- What a field becomes that is not addressed. -/
theorem member_of_applyParamOverride
    (h : applyParamOverride env (.obj request.fields) paramOverride.entries ctx = .ok (.obj ms))
    (hkey : ¬ AddressedBy paramOverride key) :
    member ms key = if legacyFields paramOverride = [] then member request.fields key
      else (member request.fields key).map (decode env.nums) := by
  rw [AddressedBy, not_or, not_not] at hkey
  obtain ⟨hlegacy, hops⟩ := hkey
  have hrequest : (request.fields.map Prod.fst).Nodup := request.distinct.nodup
  obtain ⟨ms', hms', hmember⟩ := member_applyOperationsLegacy env
    (distinct_legacyFields paramOverride) hrequest
  have hassigned : member ms' key = (member request.fields key).map (decode env.nums) := by
    rw [hmember, hlegacy]
    rfl
  rw [applyParamOverride] at h
  split at h
  next hnil =>
    cases h
    have hnone : legacyFields paramOverride = [] := by
      rw [legacyFields, hnil]
      rfl
    rw [if_pos hnone]
  next =>
    cases hparse : tryParseOperations paramOverride.entries with
    | none =>
        rw [hparse] at h
        have hfields : legacyFields paramOverride = paramOverride.entries := by
          rw [legacyFields, hparse]
        rw [hfields] at hms' ⊢
        simp only [hms'] at h
        cases h
        rw [if_neg ‹_›, hassigned]
    | some ops =>
        rw [hparse] at h
        have hfields : legacyFields paramOverride =
            buildLegacyParamOverride paramOverride.entries := by
          rw [legacyFields, hparse]
        have hkeep : ∀ op ∈ ops, ¬ Addresses op key := fun op hop haddressed =>
          hops ⟨ops, hparse, op, hop, haddressed⟩
        rw [hfields] at hms' ⊢
        simp only at h
        split at h
        next hnil =>
          obtain ⟨ms'', heq, hsame⟩ := applyOperations_keeps h hkeep request.fields rfl
          cases heq
          rw [if_pos hnil, hsame]
        next hne =>
          rw [hms'] at h
          obtain ⟨ms'', heq, hsame⟩ := applyOperations_keeps h hkeep ms' rfl
          cases heq
          rw [if_neg hne, hsame, hassigned]

end

/-! ## Disabled fields -/

structure ChannelOtherSettings where
  allowServiceTier : Bool
  allowInferenceGeo : Bool
  disableStore : Bool
  allowSafetyIdentifier : Bool
  allowIncludeObfuscation : Bool

/-- `delete`, on a map. -/
def deleteField (data : List (String × Json)) (key : String) : List (String × Json) :=
  data.filter fun m => m.1 ≠ key

/-- The fields that are removed as a whole. -/
def disabledFields (settings : ChannelOtherSettings) : List String :=
  (if settings.allowServiceTier then [] else ["service_tier"]) ++
    (if settings.allowInferenceGeo then [] else ["inference_geo"]) ++
    (if settings.disableStore then ["store"] else []) ++
    if settings.allowSafetyIdentifier then [] else ["safety_identifier"]

def removeObfuscation (data : List (String × Json)) : List (String × Json) :=
  match member data "stream_options" with
  | some (.obj streamOptions) =>
      let streamOptions := deleteField streamOptions "include_obfuscation"
      if streamOptions = [] then deleteField data "stream_options"
      else insertMember data "stream_options" (.obj streamOptions)
  | _ => data

def removeDisabledFields (nums : Numbers) (doc : Json) (settings : ChannelOtherSettings)
    (channelPassThroughEnabled : Bool) : Json :=
  if channelPassThroughEnabled then doc
  else
    match doc with
    | .obj ms =>
        let data := (disabledFields settings).foldl deleteField (mapOf (decodeMembers nums ms))
        .obj (if settings.allowIncludeObfuscation then data else removeObfuscation data)
    | doc => doc

/-- `stream_options` that are empty are removed. -/
def isEmptyObject : Option Json → Bool
  | some (.obj []) => true
  | _ => false

/-- The fields that it is asked to remove, or to change. -/
def Removes (request : Request) (settings : ChannelOtherSettings) (key : String) : Prop :=
  key ∈ disabledFields settings ∨
    key = "stream_options" ∧ settings.allowIncludeObfuscation = false ∧
      ∃ streamOptions, member request.fields key = some (.obj streamOptions) ∧
        member streamOptions "include_obfuscation" ≠ none

section

variable {nums canon : Numbers} {request : Request} {settings : ChannelOtherSettings}
  {data : List (String × Json)} {key name : String}

theorem member_deleteField (hkey : key ≠ name) : member (deleteField data name) key =
    member data key := by
  induction data with
  | nil => rfl
  | cons m data ih =>
      rw [deleteField, List.filter_cons, member_cons]
      split
      next => rw [member_cons]; split <;> [rfl; exact ih]
      next hm =>
        have hm' : m.1 = name := by simpa using hm
        rw [if_neg fun h => hkey (h.symm.trans hm')]
        exact ih

theorem member_foldl_deleteField {names : List String} (hkey : key ∉ names) :
    member (names.foldl deleteField data) key = member data key := by
  induction names generalizing data with
  | nil => rfl
  | cons name names ih =>
      rw [List.mem_cons, not_or] at hkey
      rw [List.foldl_cons, ih hkey.2, member_deleteField hkey.1]

theorem member_removeObfuscation (hkey : key ≠ "stream_options") :
    member (removeObfuscation data) key = member data key := by
  rw [removeObfuscation]
  split
  next streamOptions _ =>
    simp only
    split
    · exact member_deleteField hkey
    · rw [member_insertMember, if_neg hkey]
  next => rfl

theorem not_mem_disabledFields : "stream_options" ∉ disabledFields settings := by
  obtain ⟨a, b, c, d, e⟩ := settings
  cases a <;> cases b <;> cases c <;> cases d <;> exact of_decide_eq_true rfl

theorem member_decoded (nums : Numbers) (hms : (data.map Prod.fst).Nodup) (key : String) :
    member (mapOf (decodeMembers nums data)) key = (member data key).map (decode nums) := by
  rw [mapOf, decodeMembers_eq_map, List.foldl_map, member_foldl_insertMember (decode nums) hms,
    member_nil, Option.or_none]

theorem deleteField_eq_self (h : member data key = none) : deleteField data key = data := by
  rw [member_eq_none_iff] at h
  refine List.filter_eq_self.2 fun m hm => decide_eq_true ?_
  rintro rfl
  exact h (List.mem_map_of_mem hm)

/-- What is left of `stream_options` that has nothing to be removed. -/
theorem member_stream_options {v : Option Json} (hv : ∀ j, v = some j → Distinct j)
    (hdata : member data "stream_options" = v.map (decode nums))
    (hnone : ∀ streamOptions, v = some (.obj streamOptions) →
      member streamOptions "include_obfuscation" = none) :
    member (removeObfuscation data) "stream_options" =
      if isEmptyObject v then none else v.map (decode nums) := by
  cases v with
  | none =>
      rw [removeObfuscation, hdata]
      exact hdata
  | some j =>
      cases j with
      | obj streamOptions =>
          have hnodup : (streamOptions.map Prod.fst).Nodup := (hv _ rfl).nodup
          have hkept : deleteField (mapOf (decodeMembers nums streamOptions))
              "include_obfuscation" = mapOf (decodeMembers nums streamOptions) :=
            deleteField_eq_self (by rw [member_decoded nums hnodup, hnone _ rfl]; rfl)
          rw [Option.map_some, decode] at hdata
          rw [removeObfuscation, hdata]
          simp only [hkept]
          cases streamOptions with
          | nil =>
              have hempty : mapOf (decodeMembers nums []) = [] := rfl
              have hdropped : isEmptyObject (some (.obj [])) = true := rfl
              rw [if_pos hempty, if_pos hdropped, member_eq_none_iff]
              intro hmem
              obtain ⟨m, hm, hname⟩ := List.mem_map.1 hmem
              simpa [hname] using (List.mem_filter.1 hm).2
          | cons m rest =>
              have hne : mapOf (decodeMembers nums (m :: rest)) ≠ [] := by
                intro hempty
                have hmember := member_decoded nums hnodup m.1
                rw [hempty, member_cons, if_pos rfl] at hmember
                cases hmember
              have hkept : ¬ isEmptyObject (some (.obj (m :: rest))) = true := Bool.false_ne_true
              rw [if_neg hne, member_insertMember, if_pos rfl, if_neg hkept, Option.map_some,
                decode]
      | _ =>
          rw [removeObfuscation, hdata]
          exact hdata

theorem member_removeDisabledFields (nums : Numbers) (hkey : ¬ Removes request settings key) :
    ∃ ms, removeDisabledFields nums (.obj request.fields) settings false = .obj ms ∧
      member ms key =
        if key = "stream_options" ∧ settings.allowIncludeObfuscation = false ∧
          isEmptyObject (member request.fields key) then none
        else (member request.fields key).map (decode nums) := by
  refine ⟨_, rfl, ?_⟩
  rw [Removes, not_or] at hkey
  have hrequest : (request.fields.map Prod.fst).Nodup := request.distinct.nodup
  have hdata : member ((disabledFields settings).foldl deleteField
      (mapOf (decodeMembers nums request.fields))) key =
        (member request.fields key).map (decode nums) := by
    rw [member_foldl_deleteField hkey.1, member_decoded nums hrequest]
  cases hallow : settings.allowIncludeObfuscation with
  | true =>
      rw [if_pos rfl, hdata, if_neg]
      rintro ⟨-, h, -⟩
      cases h
  | false =>
      rw [if_neg (by decide)]
      by_cases hname : key = "stream_options"
      · subst hname
        rw [member_stream_options (fun j hj => request.distinct.of_mem (mem_of_member hj)) hdata]
        · simp only [true_and]
          rfl
        · intro streamOptions hsome
          by_contra hne
          exact hkey.2 ⟨rfl, hallow, streamOptions, hsome, hne⟩
      · rw [member_removeObfuscation hname, hdata, if_neg fun h => hname h.1]

theorem sameValue_decode_iff {v : Option Json} (hv : ∀ j, v = some j → Distinct j) :
    SameValue canon (v.map (decode nums)) v ↔
      ∀ j, v = some j → AllNumbers (Survives nums canon) j := by
  cases v with
  | none => exact iff_of_true rfl fun j h => absurd h (Option.some_ne_none j).symm
  | some j =>
      rw [SameValue, Option.map_some, Option.map_some, Option.map_some, Option.some.injEq,
        decode_decode_iff j (hv j rfl)]
      exact ⟨fun h j' heq => Option.some.inj heq ▸ h, fun h => h j rfl⟩

theorem removed_iff (nums canon : Numbers) (request : Request) (settings : ChannelOtherSettings) :
    (∃ ms, removeDisabledFields nums (.obj request.fields) settings false = .obj ms ∧
      ∀ key, ¬ Removes request settings key →
        SameValue canon (member ms key) (member request.fields key)) ↔
    ¬ (settings.allowIncludeObfuscation = false ∧
        isEmptyObject (member request.fields "stream_options") = true) ∧
      ∀ key, ¬ Removes request settings key → ∀ j, member request.fields key = some j →
        AllNumbers (Survives nums canon) j := by
  have hdistinct (key : String) : ∀ j, member request.fields key = some j → Distinct j :=
    fun j hj => request.distinct.of_mem (mem_of_member hj)
  constructor
  · rintro ⟨ms, hms, hsame⟩
    have hout {key : String} (hkey : ¬ Removes request settings key) :
        member ms key = if key = "stream_options" ∧ settings.allowIncludeObfuscation = false ∧
            isEmptyObject (member request.fields key) then none
          else (member request.fields key).map (decode nums) := by
      obtain ⟨ms', hms', hmember⟩ := member_removeDisabledFields nums hkey
      rw [hms] at hms'
      cases hms'
      exact hmember
    have hoptions : ¬ (settings.allowIncludeObfuscation = false ∧
        isEmptyObject (member request.fields "stream_options") = true) := by
      rintro ⟨hallow, hempty⟩
      have hvalue : member request.fields "stream_options" = some (.obj []) := by
        cases hv : member request.fields "stream_options" with
        | none => rw [hv] at hempty; cases hempty
        | some j =>
            rw [hv] at hempty
            cases j with
            | obj ms =>
                cases ms with
                | nil => rfl
                | cons m ms => cases hempty
            | _ => cases hempty
      have hkey : ¬ Removes request settings "stream_options" := by
        rintro (h | ⟨-, -, streamOptions, h, hne⟩)
        · exact not_mem_disabledFields h
        · rw [hvalue] at h
          cases h
          exact hne rfl
      have hnone := hsame "stream_options" hkey
      rw [hout hkey, if_pos ⟨rfl, hallow, hempty⟩, hvalue] at hnone
      cases hnone
    refine ⟨hoptions, fun key hkey => (sameValue_decode_iff (hdistinct key)).1 ?_⟩
    have h := hsame key hkey
    rw [hout hkey, if_neg] at h
    · exact h
    · rintro ⟨rfl, h⟩
      exact hoptions h
  · rintro ⟨hoptions, hnumbers⟩
    refine ⟨_, rfl, fun key hkey => ?_⟩
    obtain ⟨ms, hms, hmember⟩ := member_removeDisabledFields nums hkey
    cases hms
    rw [hmember, if_neg]
    · exact (sameValue_decode_iff (hdistinct key)).2 (hnumbers key hkey)
    · rintro ⟨rfl, h⟩
      exact hoptions h

theorem applied_iff {env : Env} {paramOverride : Fields} {ctx : Relay.Context}
    {ms : List (String × Json)}
    (h : applyParamOverride env (.obj request.fields) paramOverride.entries ctx = .ok (.obj ms)) :
    (∀ key, ¬ AddressedBy paramOverride key →
      SameValue canon (member ms key) (member request.fields key)) ↔
    (legacyFields paramOverride = [] ∨ ∀ key, ¬ AddressedBy paramOverride key →
      ∀ j, member request.fields key = some j → AllNumbers (Survives env.nums canon) j) := by
  have hdistinct (key : String) : ∀ j, member request.fields key = some j → Distinct j :=
    fun j hj => request.distinct.of_mem (mem_of_member hj)
  by_cases hlegacy : legacyFields paramOverride = []
  · refine iff_of_true (fun key hkey => ?_) (Or.inl hlegacy)
    rw [member_of_applyParamOverride h hkey, if_pos hlegacy]
    rfl
  · rw [or_iff_right hlegacy]
    refine forall₂_congr fun key hkey => ?_
    rw [member_of_applyParamOverride h hkey, if_neg hlegacy,
      sameValue_decode_iff (hdistinct key)]

end

/-- The integer 2 ^ 53 + 1 is no `float64`. -/
def roundedNumbers : Numbers where
  value s := ((Decimal.parseNat s.toList).getD 0 : ℕ)
  literal s := if s = "9007199254740993" then "9007199254740992" else s
  literal_literal s := by
    by_cases h : s = "9007199254740993"
    · rw [if_pos h]
      rfl
    · rw [if_neg h, if_neg h]
  text s := s

def roundedEnv : Env := { plainEnv with nums := roundedNumbers }

def seedRequest : Request where
  fields := [("model", .str "gpt"), ("seed", .num "9007199254740993")]
  distinct := by
    refine .mk (by decide) fun e he => ?_
    rcases List.mem_cons.1 he with rfl | he
    · exact .mk List.nodup_nil fun _ h => absurd h List.not_mem_nil
    · rw [List.mem_singleton.1 he]
      exact .mk List.nodup_nil fun _ h => absurd h List.not_mem_nil

def temperatureOverride : Fields where
  entries := [("temperature", .num "1")]
  distinct := List.nodup_singleton _

/-- What becomes of the request. -/
def temperatureFields : List (String × Json) :=
  [("model", .str "gpt"), ("seed", .num "9007199254740992"), ("temperature", .num "1")]

end DazeApi.Overrides.Untouched
