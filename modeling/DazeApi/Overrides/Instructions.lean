import DazeApi.Overrides.ParamOverride

/-!
# Operations that are sent as a field

The operations of a parameter override are recognized by the exact key, parsed as a whole, and
removed from the fields up to case and spaces (`relay/common/override.go`).  Where these differ,
the operations become a field of the request (`contained_of_recognized`).
-/

namespace DazeApi.Overrides.Instructions

open JsonText JsonPath ParamOverride

/-- A map from names to values. -/
structure Fields where
  entries : List (String × Json)
  distinct : (entries.map Prod.fst).Nodup

/-- Under the name of the operations stands something else. -/
def Malformed (paramOverride : Fields) : Prop :=
  ∃ e ∈ paramOverride.entries, isOperationsKey e.1 = true ∧ parseOperations e.2 = none

/-- No field of the request is named like the operations unless the client sent it, and a
malformed list of operations is an error. -/
structure Contained (env : Env) (request paramOverride : Fields) (ctx : Relay.Context) : Prop where
  absent : ∀ ms, applyParamOverride env (.obj request.entries) paramOverride.entries ctx =
      .ok (.obj ms) → ∀ key, isOperationsKey key = true → member ms key ≠ none →
        member request.entries key ≠ none
  rejected : Malformed paramOverride → ∃ err,
    applyParamOverride env (.obj request.entries) paramOverride.entries ctx = .error err

/-- The operations are parsed, and they address no field of that name; or there are none to
parse, and every entry of that name is a well-formed list for a field of the client. -/
def Recognized (request paramOverride : Fields) : Prop :=
  ¬ Malformed paramOverride ∧
    match tryParseOperations paramOverride.entries with
    | some ops => ∀ op ∈ ops, ∀ key, isOperationsKey key = true → ¬ Addresses op key
    | none => ∀ e ∈ paramOverride.entries, isOperationsKey e.1 = true →
        member request.entries e.1 ≠ none

section

variable {env : Env} {request paramOverride : Fields} {ctx : Relay.Context}
  {ops : List ParamOperation}

theorem distinct_legacy (paramOverride : Fields) :
    ((buildLegacyParamOverride paramOverride.entries).map Prod.fst).Nodup :=
  paramOverride.distinct.sublist (List.filter_sublist.map _)

theorem member_legacy {key : String} (hkey : isOperationsKey key = true) :
    member (buildLegacyParamOverride paramOverride.entries) key = none := by
  rw [member_eq_none_iff]
  intro hmem
  obtain ⟨e, he, rfl⟩ := List.mem_map.1 hmem
  simpa [hkey] using (List.mem_filter.1 he).2

/-- What the operations are applied to has no new field of their name. -/
theorem applyParamOverride_parsed (env : Env) (request : Fields) (ctx : Relay.Context)
    (hops : tryParseOperations paramOverride.entries = some ops) :
    ∃ ms, applyParamOverride env (.obj request.entries) paramOverride.entries ctx =
        applyOperations env ops (.obj ms) ctx ∧
      ∀ key, isOperationsKey key = true →
        (member ms key ≠ none → member request.entries key ≠ none) := by
  have hne : paramOverride.entries ≠ [] := by
    rintro hnil
    rw [hnil] at hops
    cases hops
  rw [applyParamOverride, if_neg hne, hops]
  simp only
  split
  · exact ⟨request.entries, rfl, fun _ _ h => h⟩
  · obtain ⟨ms, hms, hmember⟩ := member_applyOperationsLegacy env
      (distinct_legacy paramOverride) request.distinct
    refine ⟨ms, by rw [hms]; rfl, fun key hkey h => ?_⟩
    rw [hmember, member_legacy hkey] at h
    exact fun hnone => h (by rw [hnone]; rfl)

/-- Without parsed operations, all entries are fields. -/
theorem applyParamOverride_unparsed (env : Env) (request : Fields) (ctx : Relay.Context)
    (hops : tryParseOperations paramOverride.entries = none) :
    ∃ ms, applyParamOverride env (.obj request.entries) paramOverride.entries ctx =
        .ok (.obj ms) ∧
      ∀ key, member ms key ≠ none ↔
        member paramOverride.entries key ≠ none ∨ member request.entries key ≠ none := by
  rw [applyParamOverride]
  split
  next hnil =>
    refine ⟨request.entries, rfl, fun key => ?_⟩
    rw [hnil]
    exact (or_iff_right fun h => h rfl).symm
  next =>
    rw [hops]
    obtain ⟨ms, hms, hmember⟩ := member_applyOperationsLegacy env
      paramOverride.distinct request.distinct
    refine ⟨ms, hms, fun key => ?_⟩
    rw [hmember]
    cases member paramOverride.entries key <;> cases member request.entries key <;> simp

theorem contained_of_recognized (h : Recognized request paramOverride) :
    Contained env request paramOverride ctx := by
  refine ⟨fun ms' hms' key hkey hmember => ?_, fun hmalformed => absurd hmalformed h.1⟩
  have hrecognized := h.2
  cases hops : tryParseOperations paramOverride.entries with
  | some ops =>
      rw [hops] at hrecognized
      obtain ⟨ms, happly, hms⟩ :=
        applyParamOverride_parsed env request ctx hops
      rw [happly] at hms'
      obtain ⟨ms'', heq, hsame⟩ :=
        applyOperations_keeps hms' (fun op hop => hrecognized op hop key hkey) ms rfl
      cases heq
      exact hms key hkey (hsame ▸ hmember)
  | none =>
      rw [hops] at hrecognized
      obtain ⟨ms, happly, hms⟩ :=
        applyParamOverride_unparsed env request ctx hops
      rw [happly] at hms'
      cases hms'
      rcases (hms key).1 hmember with hentry | hrequest
      · obtain ⟨v, hv⟩ := Option.ne_none_iff_exists'.1 hentry
        exact hrecognized (key, v) (mem_of_member hv) hkey
      · exact hrequest

theorem recognized_of_contained (h : Contained env request paramOverride ctx)
    (hops : tryParseOperations paramOverride.entries = none) :
    Recognized request paramOverride := by
  obtain ⟨ms, happly, hms⟩ :=
    applyParamOverride_unparsed env request ctx hops
  constructor
  · intro hmalformed
    obtain ⟨err, herr⟩ := h.rejected hmalformed
    rw [happly] at herr
    cases herr
  · rw [hops]
    intro e he hkey
    refine h.absent ms happly e.1 hkey ((hms e.1).2 (Or.inl ?_))
    rw [member_of_mem paramOverride.distinct he]
    exact Option.some_ne_none _

end

/-- Literals and texts as they are, without regular expressions. -/
def plainEnv : Env where
  nums := PruneObjects.naturalNumbers
  regex := { compile := fun _ => .error "no regular expressions" }
  text j := PruneObjects.text PruneObjects.naturalNumbers j
  headerValue j := .text (PruneObjects.text PruneObjects.naturalNumbers j)
  passThroughNames _ := .error "no names"
  contextJSON _ := none

def emptyContext : Relay.Context where
  model := ""
  upstreamModel := ""
  originalModel := ""
  requestPath := ""
  requestHeaders := ∅
  headerOverride := ∅
  retryIndex := 0
  lastError := none
  isChannelTest := false

/-- An element that is no object. -/
def textOperation : Fields where
  entries := [("operations", .arr [.str "delete user"])]
  distinct := List.nodup_singleton _

end DazeApi.Overrides.Instructions
