import DazeApi.Lib.Chain
import DazeApi.Lib.Text
import Mathlib.Data.List.AList

/-!
# The model of an attempt

`ModelMappedHelper` (`relay/helper/model_mapped.go`) follows the mapping of the channel
from the client's model and sets the upstream model to the last one.  Every attempt of a
request begins with `InitChannelMeta` (`relay/common/relay_info.go`), which makes the
channel's part of the `RelayInfo` anew; `OriginModelName` is left from the attempt before.
`SetupContextForSelectedChannel` (`middleware/distributor.go`) gives the context this name
as the original model of the next attempt.

A channel's mapping is a JSON text.  A map that is decoded from it has the image of a model
once.
-/

namespace DazeApi.Relay.ModelMapping

/-- `map[string]string`. -/
abbrev ModelMap := AList fun _ : String => String

structure Env where
  unmarshal : String → Option ModelMap
  /-- `pricing.IsModelConfigured`. -/
  isModelConfigured : String → Bool

/-- The handlers, as far as they treat the model's name differently. -/
inductive Handler where
  /-- `ResponsesHelper` in the mode `RelayModeResponsesCompact`. -/
  | responsesCompact
  /-- `GeminiHelper`.  With the thinking adapter a request can be one without thinking. -/
  | gemini (isNoThinkingRequest : Bool)
  /-- `RelayTaskSubmit`, with the name that stands for the action. -/
  | task (actionModelName : String)
  | other
deriving DecidableEq, Repr

def Handler.isResponsesCompact : Handler → Bool
  | .responsesCompact => true
  | _ => false

/-- `RelayInfo`. -/
structure RelayInfo where
  originModelName : String
  upstreamModelName : String
  isModelMapped : Bool
  /-- The model of the request, if the handler has one. -/
  request : Option String
deriving DecidableEq, Repr

def compactModelSuffix : String := "-openai-compact"

/-- `WithCompactModelSuffix`. -/
def withCompactModelSuffix (modelName : String) : String :=
  if Text.hasSuffix modelName compactModelSuffix then modelName
  else modelName ++ compactModelSuffix

/-! ## `ModelMappedHelper` -/

/-- The name that the chain begins with. -/
def mappingModelName (compact : Bool) (originModelName : String) : String :=
  if compact then Text.trimSuffix originModelName compactModelSuffix else originModelName

/-- `modelMap[currentModel]`, if it is there and not empty. -/
def image (modelMap : ModelMap) (currentModel : String) : Option String :=
  (modelMap.lookup currentModel).filter (· ≠ "")

/-- What the loop ends with. -/
inductive Walk where
  /-- `model_mapping_contains_cycle`. -/
  | cycle (isModelMapped : Bool)
  /-- The client's model is mapped to itself, and the function returns. -/
  | unmapped
  | ends (currentModel : String) (isModelMapped : Bool)
deriving DecidableEq, Repr

/-- The loop. -/
def walk (modelMap : ModelMap) (originModelName : String) :
    Nat → List String → String → Bool → Option Walk
  | 0, _, _, _ => none
  | n + 1, visitedModels, currentModel, isModelMapped =>
      match image modelMap currentModel with
      | some mappedModel =>
          if mappedModel ∈ visitedModels then
            if mappedModel = currentModel then
              if currentModel = originModelName then some .unmapped
              else some (.ends currentModel true)
            else some (.cycle isModelMapped)
          else walk modelMap originModelName n (mappedModel :: visitedModels) mappedModel true
      | none => some (.ends currentModel isModelMapped)

def RelayInfo.setModelName (info : RelayInfo) : RelayInfo :=
  { info with request := info.request.map fun _ => info.upstreamModelName }

/-- What follows the loop. -/
def finish (compact : Bool) (mappingModelName : String) (info : RelayInfo) : RelayInfo :=
  if compact then
    let finalUpstreamModelName :=
      if info.isModelMapped && info.upstreamModelName ≠ "" then info.upstreamModelName
      else mappingModelName
    RelayInfo.setModelName { info with
      upstreamModelName := finalUpstreamModelName
      originModelName := withCompactModelSuffix finalUpstreamModelName }
  else info.setModelName

/-- The mapping that a text stands for. -/
def mapping (env : Env) (modelMapping : String) : Option ModelMap :=
  if modelMapping = "" ∨ modelMapping = "\x7b\x7d" then some ∅ else env.unmarshal modelMapping

/-- `ModelMappedHelper`, with the error that it returns.  The loop gets as many steps as the
map has keys, and one. -/
def modelMappedHelper (env : Env) (compact : Bool) (info : RelayInfo) (modelMapping : String) :
    Option (RelayInfo × Option String) :=
  let name := mappingModelName compact info.originModelName
  if modelMapping = "" ∨ modelMapping = "\x7b\x7d" then some (finish compact name info, none)
  else
    match env.unmarshal modelMapping with
    | none => some (info, some "unmarshal_model_mapping_failed")
    | some modelMap =>
        match walk modelMap info.originModelName (modelMap.keys.length + 1) [name] name
            info.isModelMapped with
        | none => none
        | some (.cycle isModelMapped) =>
            some ({ info with isModelMapped := isModelMapped },
              some "model_mapping_contains_cycle")
        | some .unmapped => some ({ info with isModelMapped := false }, none)
        | some (.ends currentModel isModelMapped) =>
            let info := { info with isModelMapped := isModelMapped }
            if isModelMapped then
              some (finish compact name { info with upstreamModelName := currentModel }, none)
            else some (finish compact name info, none)

/-! ## Attempts -/

/-- `InitChannelMeta`, with the context that the attempt has set up. -/
def initChannelMeta (info : RelayInfo) : RelayInfo :=
  { info with
    upstreamModelName := info.originModelName
    isModelMapped := false
    request := info.request.map fun _ => info.originModelName }

/-- What the handlers of the tasks do before the mapping, to which they give no request. -/
def coverTaskAction (h : Handler) (info : RelayInfo) : RelayInfo :=
  match h with
  | .task actionModelName =>
      let modelName := if info.originModelName = "" then actionModelName else info.originModelName
      { info with originModelName := modelName, upstreamModelName := modelName, request := none }
  | _ => info

/-- An attempt up to the model's name. -/
def attempt (env : Env) (h : Handler) (info : RelayInfo) (modelMapping : String) :
    Option (RelayInfo × Option String) :=
  modelMappedHelper env h.isResponsesCompact (coverTaskAction h (initChannelMeta info)) modelMapping

/-- The names without thinking in `GeminiHelper`. -/
def noThinking (env : Env) (h : Handler) (info : RelayInfo) : RelayInfo :=
  let noThinkingModelName := info.originModelName ++ "-nothinking"
  if h = .gemini true ∧ ¬ Text.contains info.originModelName "-nothinking" ∧
      env.isModelConfigured noThinkingModelName then
    { info with originModelName := noThinkingModelName, upstreamModelName := noThinkingModelName }
  else info

/-- Attempts one after the other.  An error of the mapping is retried as well. -/
def attempts (env : Env) (h : Handler) (info : RelayInfo) : List String → Option RelayInfo
  | [] => some info
  | modelMapping :: rest =>
      match attempt env h info modelMapping with
      | some (info', none) => attempts env h (noThinking env h info') rest
      | some (info', some _) => attempts env h info' rest
      | none => none

/-! ## The end of the chain -/

section

variable {env : Env} {h : Handler} {compact : Bool} {info : RelayInfo} {modelMap : ModelMap}
  {origin name text y : String} {visited : List String} {n : Nat} {mapped b : Bool}

theorem mem_keys_of_image (modelMap : ModelMap) (x : String) (hx : image modelMap x ≠ none) :
    x ∈ modelMap.keys := by
  rw [← AList.mem_keys, ← AList.lookup_isSome]
  rw [image] at hx
  cases hl : modelMap.lookup x with
  | none => simp [hl] at hx
  | some v => rfl

theorem ne_empty_of_image (hx : image modelMap name = some y) : y ≠ "" := by
  obtain ⟨-, hne⟩ := Option.filter_eq_some_iff.1 hx
  simpa using hne

/-- Where the chain ends, according to the loop. -/
def Walk.chainEnd (origin : String) : Walk → Option String
  | .cycle _ => none
  | .unmapped => some origin
  | .ends currentModel _ => some currentModel

/-- The loop is the walk of a chain. -/
theorem map_walk (origin : String) (mapped : Bool) : (walk modelMap origin n visited name mapped).map (Walk.chainEnd origin) =
    Chain.follow (image modelMap) n visited name := by
  induction n generalizing visited name mapped with
  | zero => rfl
  | succ n ih =>
      rw [walk, Chain.follow]
      cases image modelMap name with
      | none => rfl
      | some y =>
          show Option.map _ (if y ∈ visited then _ else _) = if y ∈ visited then _ else _
          split
          next =>
            split
            next =>
              split
              next horigin => rw [horigin, Option.map_some, Walk.chainEnd]
              next => rfl
            next => rfl
          next => exact ih true

/-- A mapped model has a name, and a model that is not mapped is the first one. -/
theorem walk_ends (hmapped : mapped = true → name ≠ "")
    (hwalk : walk modelMap origin n visited name mapped = some (.ends y b)) :
    (b = true → y ≠ "") ∧ (b = false → mapped = false ∧ y = name) := by
  induction n generalizing visited name mapped with
  | zero => cases hwalk
  | succ n ih =>
      rw [walk] at hwalk
      split at hwalk
      next x hx =>
        split at hwalk
        next =>
          split at hwalk
          next heq =>
            split at hwalk
            next => cases hwalk
            next =>
              cases hwalk
              exact ⟨fun _ => heq ▸ ne_empty_of_image hx, nofun⟩
          next => cases hwalk
        next =>
          obtain ⟨htrue, hfalse⟩ := ih (fun _ => ne_empty_of_image hx) hwalk
          exact ⟨htrue, fun hb => absurd (hfalse hb).1 (by simp)⟩
      next =>
        cases hwalk
        exact ⟨hmapped, fun hb => ⟨hb, rfl⟩⟩

theorem cyclic_iff_walk (origin : String) (mapped : Bool) :
    (∃ b, walk modelMap origin (modelMap.keys.length + 1) [name] name mapped =
      some (.cycle b)) ↔ Chain.Cyclic (image modelMap) name := by
  rw [← (Chain.follow_iff (mem_keys_of_image modelMap) name).1,
    ← map_walk origin mapped]
  cases walk modelMap origin (modelMap.keys.length + 1) [name] name mapped with
  | none => simp
  | some w => cases w <;> simp [Walk.chainEnd]

theorem ends_iff_walk (origin : String) (mapped : Bool) : Chain.Ends (image modelMap) name y ↔
    (walk modelMap origin (modelMap.keys.length + 1) [name] name mapped = some .unmapped ∧
      y = origin) ∨
    ∃ b, walk modelMap origin (modelMap.keys.length + 1) [name] name mapped =
      some (.ends y b) := by
  rw [← (Chain.follow_iff (mem_keys_of_image modelMap) name).2,
    ← map_walk origin mapped]
  cases walk modelMap origin (modelMap.keys.length + 1) [name] name mapped with
  | none => simp
  | some w => cases w <;> simp [Walk.chainEnd, eq_comm]

/-! ## What the function does -/

/-- The info of an attempt before the mapping. -/
structure Fresh (info : RelayInfo) : Prop where
  upstream : info.upstreamModelName = info.originModelName
  mapped : info.isModelMapped = false
  request : ∀ r ∈ info.request, r = info.originModelName

theorem trimSuffix_withCompactModelSuffix (name : String) :
    Text.trimSuffix (withCompactModelSuffix name) compactModelSuffix =
      Text.trimSuffix name compactModelSuffix := by
  rw [withCompactModelSuffix]
  split
  next => rfl
  next hsuffix => rw [Text.trimSuffix_append, Text.trimSuffix, if_neg hsuffix]

/-- The names that are left when the mapping is done. -/
structure Mapped (compact : Bool) (origin y : String) (info : RelayInfo) : Prop where
  upstream : info.upstreamModelName = y
  request : ∀ r ∈ info.request, r = y
  /-- The next attempt begins with what the compact suffix is added to. -/
  origin : mappingModelName compact info.originModelName =
    if compact then Text.trimSuffix y compactModelSuffix else origin

theorem mapped_finish (hupstream : info.upstreamModelName = if info.isModelMapped then y
      else info.originModelName)
    (hy : if info.isModelMapped then y ≠ "" else y = mappingModelName compact info.originModelName) :
    Mapped compact info.originModelName y
      (finish compact (mappingModelName compact info.originModelName) info) := by
  cases compact with
  | false =>
      have heq : info.upstreamModelName = y := by
        rw [hupstream]
        split
        next => rfl
        next hm => rw [if_neg hm] at hy; exact hy.symm
      refine ⟨heq, ?_, rfl⟩
      intro r hr
      obtain ⟨q, -, rfl⟩ := Option.map_eq_some_iff.1 hr
      exact heq
  | true =>
      have heq : (if info.isModelMapped && info.upstreamModelName ≠ "" then info.upstreamModelName
          else mappingModelName true info.originModelName) = y := by
        cases hm : info.isModelMapped with
        | true =>
            simp only [hm, if_true] at hupstream hy
            simp [hupstream, hy]
        | false =>
            simp only [hm, Bool.false_eq_true, if_false] at hy
            simp [hy]
      rw [finish, if_pos rfl, heq]
      refine ⟨rfl, ?_, ?_⟩
      · intro r hr
        obtain ⟨q, -, rfl⟩ := Option.map_eq_some_iff.1 hr
        rfl
      · exact trimSuffix_withCompactModelSuffix y

/-- Without a mapping there is an error, and the names stay. -/
theorem helper_of_none (htext : mapping env text = none) :
    modelMappedHelper env compact info text = some (info, some "unmarshal_model_mapping_failed") := by
  rw [mapping] at htext
  split at htext
  next => cases htext
  next hne =>
    rw [modelMappedHelper]
    simp only [if_neg hne, htext]

theorem helper_of_cyclic (htext : mapping env text = some modelMap)
    (hcyclic : Chain.Cyclic (image modelMap) (mappingModelName compact info.originModelName)) :
    ∃ b, modelMappedHelper env compact info text =
      some ({ info with isModelMapped := b }, some "model_mapping_contains_cycle") := by
  rw [mapping] at htext
  split at htext
  next =>
    cases htext
    obtain ⟨u, v, -, hstep, -⟩ := hcyclic
    cases hstep
  next hne =>
    obtain ⟨b, hb⟩ := (cyclic_iff_walk info.originModelName info.isModelMapped).2 hcyclic
    rw [modelMappedHelper]
    simp only [if_neg hne, htext, hb]
    exact ⟨b, rfl⟩

theorem helper_of_ends (hfresh : Fresh info) (htext : mapping env text = some modelMap)
    (hends : Chain.Ends (image modelMap) (mappingModelName compact info.originModelName) y) :
    ∃ info', modelMappedHelper env compact info text = some (info', none) ∧
      Mapped compact info.originModelName y info' := by
  rw [mapping] at htext
  split at htext
  next hempty =>
    cases htext
    have hself : y = mappingModelName compact info.originModelName :=
      hends.unique ⟨.refl, .inl rfl⟩
    rw [modelMappedHelper]
    simp only [if_pos hempty]
    refine ⟨_, rfl, mapped_finish ?_ ?_⟩
    · rw [hfresh.mapped, hfresh.upstream]; rfl
    · rw [hfresh.mapped]; exact hself
  next hne =>
    rw [modelMappedHelper]
    simp only [if_neg hne, htext]
    rcases (ends_iff_walk info.originModelName info.isModelMapped).1 hends with
      ⟨hwalk, rfl⟩ | ⟨b, hwalk⟩
    · simp only [hwalk]
      refine ⟨_, rfl, hfresh.upstream, hfresh.request, ?_⟩
      cases compact <;> rfl
    · obtain ⟨htrue, hfalse⟩ := walk_ends (by simp [hfresh.mapped]) hwalk
      simp only [hwalk]
      cases b with
      | true =>
          refine ⟨_, rfl, ?_⟩
          show Mapped compact { info with isModelMapped := true, upstreamModelName := y }.originModelName
            y _
          exact mapped_finish rfl (htrue rfl)
      | false =>
          refine ⟨_, rfl, ?_⟩
          show Mapped compact { info with isModelMapped := false }.originModelName y _
          exact mapped_finish hfresh.upstream (hfalse rfl).2

end

/-! ## Attempts on several channels -/

/-- The name that the chain of a client's model begins with. -/
def clientModel (h : Handler) (origin : String) : String :=
  mappingModelName h.isResponsesCompact
    (match h with
      | .task actionModelName => if origin = "" then actionModelName else origin
      | _ => origin)

/-- The name that the next chain begins with, after one that went from `name` to `y`. -/
def carried (env : Env) (h : Handler) (name y : String) : String :=
  if h.isResponsesCompact then Text.trimSuffix y compactModelSuffix
  else if h = .gemini true ∧ ¬ Text.contains name "-nothinking" ∧
      env.isModelConfigured (name ++ "-nothinking") then name ++ "-nothinking"
  else name

/-- The chains of the earlier attempts lead from a name to another one. -/
inductive Leads (env : Env) (h : Handler) : String → List String → String → Prop where
  | nil {name : String} : Leads env h name [] name
  | invalid {name text y : String} {rest : List String} : mapping env text = none →
      Leads env h name rest y → Leads env h name (text :: rest) y
  | cyclic {name text y : String} {rest : List String} {modelMap : ModelMap} :
      mapping env text = some modelMap → Chain.Cyclic (image modelMap) name →
      Leads env h name rest y → Leads env h name (text :: rest) y
  | ends {name text x y : String} {rest : List String} {modelMap : ModelMap} :
      mapping env text = some modelMap → Chain.Ends (image modelMap) name x →
      Leads env h (carried env h name x) rest y → Leads env h name (text :: rest) y

section

variable {env : Env} {h : Handler} {info : RelayInfo} {name y z : String} {rest : List String}

theorem Leads.unique (hy : Leads env h name rest y) (hz : Leads env h name rest z) : y = z := by
  induction hy with
  | nil =>
      cases hz
      rfl
  | invalid htext _ ih =>
      cases hz with
      | invalid _ hrest => exact ih hrest
      | cyclic htext' _ _ => cases htext.symm.trans htext'
      | ends htext' _ _ => cases htext.symm.trans htext'
  | cyclic htext hcyclic _ ih =>
      cases hz with
      | invalid htext' _ => cases htext.symm.trans htext'
      | cyclic _ _ hrest => exact ih hrest
      | ends htext' hends _ =>
          cases htext.symm.trans htext'
          exact absurd hcyclic hends.not_cyclic
  | ends htext hends _ ih =>
      cases hz with
      | invalid htext' _ => cases htext.symm.trans htext'
      | cyclic htext' hcyclic _ =>
          cases htext.symm.trans htext'
          exact absurd hcyclic hends.not_cyclic
      | ends htext' hends' hrest =>
          cases htext.symm.trans htext'
          cases hends.unique hends'
          exact ih hrest

theorem fresh_attempt (h : Handler) (info : RelayInfo) :
    Fresh (coverTaskAction h (initChannelMeta info)) := by
  have hrequest : ∀ r ∈ (initChannelMeta info).request, r = info.originModelName := by
    intro r hr
    obtain ⟨q, -, rfl⟩ := Option.map_eq_some_iff.1 hr
    rfl
  cases h with
  | task a => exact ⟨rfl, rfl, nofun⟩
  | _ => exact ⟨rfl, rfl, hrequest⟩

theorem mappingModelName_attempt (h : Handler) (info : RelayInfo) :
    mappingModelName h.isResponsesCompact (coverTaskAction h (initChannelMeta info)).originModelName =
      clientModel h info.originModelName := by
  cases h <;> rfl

/-- The name that stands for an action is found again. -/
theorem clientModel_coverTaskAction (h : Handler) (info : RelayInfo) :
    clientModel h (coverTaskAction h (initChannelMeta info)).originModelName =
      clientModel h info.originModelName := by
  cases h with
  | task a =>
      show (if (if info.originModelName = "" then a else info.originModelName) = "" then a
          else if info.originModelName = "" then a else info.originModelName) =
        if info.originModelName = "" then a else info.originModelName
      by_cases hempty : info.originModelName = ""
      · simp only [hempty, if_true, ite_self]
      · simp only [hempty, if_false]
  | _ => rfl

theorem clientModel_noThinking {info' : RelayInfo}
    (hmapped : Mapped h.isResponsesCompact
      (coverTaskAction h (initChannelMeta info)).originModelName y info') :
    clientModel h (noThinking env h info').originModelName =
      carried env h (clientModel h info.originModelName) y := by
  have horigin := hmapped.origin
  cases h with
  | responsesCompact => exact horigin
  | gemini b =>
      have heq : info'.originModelName = info.originModelName := horigin
      show (noThinking env (.gemini b) info').originModelName =
        carried env (.gemini b) info.originModelName y
      rw [noThinking, carried, heq]
      simp only [Handler.isResponsesCompact, Bool.false_eq_true, if_false]
      split
      next => rfl
      next => exact heq
  | task a =>
      have heq : info'.originModelName =
        (coverTaskAction (.task a) (initChannelMeta info)).originModelName := horigin
      show clientModel (.task a) info'.originModelName = clientModel (.task a) info.originModelName
      rw [heq, clientModel_coverTaskAction]
  | other => exact horigin

theorem exists_chain (modelMap : ModelMap) (name : String) :
    Chain.Cyclic (image modelMap) name ∨ ∃ y, Chain.Ends (image modelMap) name y := by
  obtain ⟨r, hr⟩ := Chain.exists_follow_start (mem_keys_of_image modelMap) name
  cases r with
  | none => exact Or.inl ((Chain.follow_iff (mem_keys_of_image modelMap) name).1.1 hr)
  | some y => exact Or.inr ⟨y, ((Chain.follow_iff (mem_keys_of_image modelMap) name).2 y).1 hr⟩

/-- A sequence of attempts leaves the name that their chains lead to. -/
theorem leads_attempts (env : Env) (h : Handler) (texts : List String) (info : RelayInfo) :
    ∃ info', attempts env h info texts = some info' ∧
      Leads env h (clientModel h info.originModelName) texts (clientModel h info'.originModelName) := by
  induction texts generalizing info with
  | nil => exact ⟨info, rfl, .nil⟩
  | cons text rest ih =>
      have hname := mappingModelName_attempt h info
      rw [attempts, attempt]
      cases htext : mapping env text with
      | none =>
          rw [helper_of_none htext]
          obtain ⟨info', hrun, hleads⟩ := ih (coverTaskAction h (initChannelMeta info))
          rw [clientModel_coverTaskAction] at hleads
          exact ⟨info', hrun, .invalid htext hleads⟩
      | some modelMap =>
          rcases exists_chain modelMap (clientModel h info.originModelName) with hcyclic | ⟨y, hends⟩
          · rw [← hname] at hcyclic
            obtain ⟨b, hhelper⟩ := helper_of_cyclic htext hcyclic
            obtain ⟨final, hrun, hleads⟩ :=
              ih { coverTaskAction h (initChannelMeta info) with isModelMapped := b }
            rw [clientModel_coverTaskAction] at hleads
            rw [hname] at hcyclic
            rw [hhelper]
            exact ⟨final, hrun, .cyclic htext hcyclic hleads⟩
          · rw [← hname] at hends
            obtain ⟨info', hhelper, hmapped⟩ := helper_of_ends (fresh_attempt h info) htext hends
            obtain ⟨final, hrun, hleads⟩ := ih (noThinking env h info')
            rw [clientModel_noThinking hmapped] at hleads
            rw [hname] at hends
            rw [hhelper]
            exact ⟨final, hrun, .ends htext hends hleads⟩

/-- The attempt follows the chain of a name: it fails if the chain is cyclic, and otherwise
the last model is the upstream model and that of the request. -/
structure Follows (env : Env) (h : Handler) (info : RelayInfo) (name text : String)
    (modelMap : ModelMap) : Prop where
  error_iff : (∃ info' e, attempt env h info text = some (info', some e)) ↔
    Chain.Cyclic (image modelMap) name
  ends : ∀ y, Chain.Ends (image modelMap) name y → ∃ info',
    attempt env h info text = some (info', none) ∧ info'.upstreamModelName = y ∧
      ∀ r ∈ info'.request, r = y

theorem follows_attempt {text : String} {modelMap : ModelMap}
    (htext : mapping env text = some modelMap) :
    Follows env h info (clientModel h info.originModelName) text modelMap := by
  have hends {y : String} (hy : Chain.Ends (image modelMap) (clientModel h info.originModelName) y) :
      ∃ info', attempt env h info text = some (info', none) ∧ info'.upstreamModelName = y ∧
        ∀ r ∈ info'.request, r = y := by
    rw [← mappingModelName_attempt] at hy
    obtain ⟨info', hhelper, hmapped⟩ := helper_of_ends (fresh_attempt h info) htext hy
    exact ⟨info', hhelper, hmapped.upstream, hmapped.request⟩
  refine ⟨⟨?_, fun hcyclic => ?_⟩, fun y => hends⟩
  · rintro ⟨info', e, he⟩
    rcases exists_chain modelMap (clientModel h info.originModelName) with hcyclic | ⟨y, hy⟩
    · exact hcyclic
    · obtain ⟨final, hok, -⟩ := hends hy
      rw [hok] at he
      cases he
  · rw [← mappingModelName_attempt] at hcyclic
    obtain ⟨b, hhelper⟩ := helper_of_cyclic htext hcyclic
    exact ⟨_, _, hhelper⟩

/-- A request for a model, before its first attempt. -/
def start (origin : String) : RelayInfo := ⟨origin, "", false, some origin⟩

/-- After some attempts, the next one follows the chain of the client's model for every
mapping exactly if the chains of the attempts lead back to it. -/
theorem follows_client_iff (env : Env) (h : Handler) (origin : String) (earlier : List String) :
    ∃ info, attempts env h (start origin) earlier = some info ∧
      ((∀ text modelMap, mapping env text = some modelMap →
          Follows env h info (clientModel h origin) text modelMap) ↔
        Leads env h (clientModel h origin) earlier (clientModel h origin)) := by
  obtain ⟨info, hrun, hleads⟩ := leads_attempts env h earlier (start origin)
  refine ⟨info, hrun, fun hall => ?_, fun hback text modelMap htext => ?_⟩
  · -- Without a mapping the upstream model is the name itself.
    have hempty : mapping env "" = some ∅ := if_pos (Or.inl rfl)
    have hend {name : String} : Chain.Ends (image ∅) name name := ⟨.refl, .inl rfl⟩
    obtain ⟨i, hi, hclient, -⟩ := (hall "" ∅ hempty).ends _ hend
    obtain ⟨j, hj, hname, -⟩ := (follows_attempt hempty).ends _ hend
    rw [hi] at hj
    cases hj
    rw [hclient] at hname
    rwa [← hname] at hleads
  · have hname := hleads.unique hback
    rw [← show clientModel h info.originModelName = clientModel h origin from hname]
    exact follows_attempt htext

/-- Where a successful attempt leaves the name, the attempts lead back to it. -/
theorem leads_self (hname : ∀ y, carried env h name y = name) (earlier : List String) :
    Leads env h name earlier name := by
  induction earlier with
  | nil => exact .nil
  | cons text rest ih =>
      cases htext : mapping env text with
      | none => exact .invalid htext ih
      | some modelMap =>
          rcases exists_chain modelMap name with hcyclic | ⟨y, hends⟩
          · exact .cyclic htext hcyclic ih
          · exact .ends htext hends ((hname y).symm ▸ ih)

end

def toGpt41 : String := "\x7b\"gpt-4o\":\"gpt-4.1\"\x7d"

def toO3 : String := "\x7b\"gpt-4o\":\"o3\"\x7d"

def channelMaps : Env where
  unmarshal text :=
    if text = toGpt41 then some (AList.singleton "gpt-4o" "gpt-4.1")
    else if text = toO3 then some (AList.singleton "gpt-4o" "o3")
    else none
  isModelConfigured _ := false

/-- The first attempt maps the model to one, and the second channel's mapping does not apply
to it any more. -/
theorem compact_keeps_mapped_model :
    (attempt channelMaps .responsesCompact (start "gpt-4o-openai-compact") toO3).map
        (·.1.upstreamModelName) = some "o3" ∧
      ((attempts channelMaps .responsesCompact (start "gpt-4o-openai-compact") [toGpt41]).bind
        (attempt channelMaps .responsesCompact · toO3)).map (·.1.upstreamModelName) =
          some "gpt-4.1" := by
  decide

end DazeApi.Relay.ModelMapping
