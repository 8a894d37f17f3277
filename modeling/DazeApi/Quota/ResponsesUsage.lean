import DazeApi.Quota.Classes

/-!
# Usage in two spellings

An upstream gives its usage in the fields of the chat completions, in those of the
Responses API, or in both.  Three handlers read it: `applyOpenAIResponsesUsage`
(`relay/channel/openai/relay_responses.go`), `OaiResponsesToChatStreamHandler`
(`chat_via_responses.go`) and `OpenaiHandlerWithUsage` (`relay-openai.go`).  The first two
take one of the fields, the third adds them.
-/

namespace DazeApi.Quota

/-- `dto.Usage`, with the fields that these handlers read or write beside those of
`Usage`. -/
structure UpstreamUsage extends Usage where
  outputTokens : Int
  promptCacheHitTokens : Int
  reasoningTokens : Int

instance : Zero UpstreamUsage := ⟨⟨0, 0, 0, 0⟩⟩

/-- `NormalizeInputTokenDetails`. -/
def UpstreamUsage.normalizeInputTokenDetails (u : UpstreamUsage) : UpstreamUsage :=
  { u with toUsage := u.toUsage.normalizeInputTokenDetails }

/-- `applyOpenAIResponsesUsage`. -/
def applyOpenAIResponsesUsage (dst src : UpstreamUsage) : UpstreamUsage :=
  let dst :=
    if src.inputTokens ≠ 0 then { dst with promptTokens := src.inputTokens }
    else if src.promptTokens ≠ 0 then { dst with promptTokens := src.promptTokens }
    else dst
  let dst :=
    if src.outputTokens ≠ 0 then { dst with completionTokens := src.outputTokens }
    else if src.completionTokens ≠ 0 then { dst with completionTokens := src.completionTokens }
    else dst
  let dst := if src.totalTokens ≠ 0 then { dst with totalTokens := src.totalTokens } else dst
  let dst :=
    if src.inputTokensDetails ≠ none then { dst with inputTokensDetails := src.inputTokensDetails }
    else dst
  let dst := { dst with promptTokensDetails := src.promptTokensDetails }
  dst.normalizeInputTokenDetails

/-- What `OaiResponsesToChatStreamHandler` does with the usage of `response.completed`. -/
def oaiResponsesToChatStreamUsage (usage src : UpstreamUsage) : UpstreamUsage :=
  let usage :=
    if src.inputTokens ≠ 0 then
      { usage with promptTokens := src.inputTokens, inputTokens := src.inputTokens }
    else if src.promptTokens ≠ 0 then
      { usage with promptTokens := src.promptTokens, inputTokens := src.promptTokens }
    else usage
  let usage :=
    if src.outputTokens ≠ 0 then
      { usage with completionTokens := src.outputTokens, outputTokens := src.outputTokens }
    else if src.completionTokens ≠ 0 then
      { usage with completionTokens := src.completionTokens, outputTokens := src.completionTokens }
    else usage
  let usage :=
    if src.totalTokens ≠ 0 then { usage with totalTokens := src.totalTokens }
    else { usage with totalTokens := usage.promptTokens + usage.completionTokens }
  let usage :=
    if src.inputTokensDetails ≠ none then
      { usage with inputTokensDetails := src.inputTokensDetails }
    else usage
  let usage := { usage with promptTokensDetails := src.promptTokensDetails }
  let usage := usage.normalizeInputTokenDetails
  if src.reasoningTokens ≠ 0 then { usage with reasoningTokens := src.reasoningTokens } else usage

/-- What `extractCachedTokensFromBody` and `extractLlamaCachedTokensFromBody` find in a
response body. -/
structure ResponseBody where
  promptDetailsCachedTokens : Option Int
  cachedTokens : Option Int
  promptCacheHitTokens : Option Int
  timingsCacheN : Option Int

/-- `extractCachedTokensFromBody`. -/
def ResponseBody.extractCachedTokens (body : ResponseBody) : Option Int :=
  match body.promptDetailsCachedTokens, body.cachedTokens with
  | some n, _ => some n
  | none, some n => some n
  | none, none => body.promptCacheHitTokens

/-- `extractLlamaCachedTokensFromBody`. -/
def ResponseBody.extractLlamaCachedTokens (body : ResponseBody) : Option Int :=
  body.timingsCacheN

/-- The channel types that the post-processing knows. -/
def channelTypeOpenAI : Int := 1

def channelTypeZhipuV4 : Int := 26

def channelTypeDeepSeek : Int := 43

/-- A usage with this count of cached tokens. -/
def UpstreamUsage.withCachedTokens (u : UpstreamUsage) (cachedTokens : Int) : UpstreamUsage :=
  { u with promptTokensDetails := { u.promptTokensDetails with cachedTokens := cachedTokens } }

/-- `applyUsagePostProcessing`. -/
def applyUsagePostProcessing (channelType : Int) (body : ResponseBody) (usage : UpstreamUsage) :
    UpstreamUsage :=
  let usage := usage.normalizeInputTokenDetails
  if usage.promptTokensDetails.cachedTokens = 0 then
    if channelType = channelTypeDeepSeek then
      if usage.promptCacheHitTokens ≠ 0 then usage.withCachedTokens usage.promptCacheHitTokens
      else usage
    else if channelType = channelTypeZhipuV4 then
      let fromInput := (usage.inputTokensDetails.map InputTokenDetails.cachedTokens).getD 0
      if fromInput > 0 then usage.withCachedTokens fromInput
      else
        match body.extractCachedTokens with
        | some cachedTokens => usage.withCachedTokens cachedTokens
        | none =>
            if usage.promptCacheHitTokens > 0 then
              usage.withCachedTokens usage.promptCacheHitTokens
            else usage
    else if channelType = channelTypeOpenAI then
      match body.extractLlamaCachedTokens with
      | some cachedTokens => usage.withCachedTokens cachedTokens
      | none => usage
    else usage
  else usage

/-- What `OpenaiHandlerWithUsage` makes of the usage of a response. -/
def openaiHandlerWithUsage (channelType : Int) (body : ResponseBody) (usageResp : UpstreamUsage) :
    UpstreamUsage :=
  let usageResp :=
    if usageResp.inputTokens > 0 then
      { usageResp with promptTokens := usageResp.promptTokens + usageResp.inputTokens }
    else usageResp
  let usageResp :=
    if usageResp.outputTokens > 0 then
      { usageResp with completionTokens := usageResp.completionTokens + usageResp.outputTokens }
    else usageResp
  let usageResp :=
    match usageResp.inputTokensDetails with
    | some input =>
        { usageResp with
          promptTokensDetails :=
            { usageResp.promptTokensDetails with
              imageTokens := usageResp.promptTokensDetails.imageTokens + input.imageTokens
              textTokens := usageResp.promptTokensDetails.textTokens + input.textTokens } }
    | none => usageResp
  applyUsagePostProcessing channelType body usageResp

/-! ## Normalising twice -/

namespace InputTokenDetails

@[simp] theorem normalizeCacheWrite_idem (d : InputTokenDetails) :
    d.normalizeCacheWrite.normalizeCacheWrite = d.normalizeCacheWrite := by
  unfold normalizeCacheWrite
  grind

/-- Each of the two names of a cache write gets the count of the other that it lacks. -/
theorem normalizeCacheWrite_eq (d : InputTokenDetails) :
    d.normalizeCacheWrite =
      { d with
        cachedCreationTokens :=
          if d.cachedCreationTokens = 0 ∧ d.cacheWriteTokens > 0 then d.cacheWriteTokens
          else d.cachedCreationTokens
        cacheWriteTokens :=
          if d.cacheWriteTokens = 0 ∧ d.cachedCreationTokens > 0 then d.cachedCreationTokens
          else d.cacheWriteTokens } := by
  obtain ⟨cached, creation, write, text, audio, image⟩ := d
  unfold normalizeCacheWrite
  by_cases hwrite : creation = 0 ∧ write > 0
  · have hne : write ≠ 0 := by omega
    simp [hwrite, hne]
  · simp only [hwrite, if_false]
    split <;> rfl

theorem normalizeCacheWrite_cachedTokens (d : InputTokenDetails) (cachedTokens : Int) :
    normalizeCacheWrite { d with cachedTokens := cachedTokens } =
      { d.normalizeCacheWrite with cachedTokens := cachedTokens } := by
  rw [normalizeCacheWrite_eq, normalizeCacheWrite_eq]

theorem orElse_self (d : InputTokenDetails) : d.orElse d = d := by
  simp [orElse]

theorem zero_orElse (d : InputTokenDetails) : (0 : InputTokenDetails).orElse d = d := by
  have hzero : (0 : InputTokenDetails) = ⟨0, 0, 0, 0, 0, 0⟩ := rfl
  simp [orElse, hzero]

theorem normalizeCacheWrite_zero : (0 : InputTokenDetails).normalizeCacheWrite = 0 := by
  decide

/-- Every count that `d` lacks `src` lacks too. -/
structure Covers (d src : InputTokenDetails) : Prop where
  cached : d.cachedTokens = 0 → src.cachedTokens = 0
  creation : d.cachedCreationTokens = 0 → src.cachedCreationTokens = 0
  write : d.cacheWriteTokens = 0 → src.cacheWriteTokens = 0
  text : d.textTokens = 0 → src.textTokens = 0
  audio : d.audioTokens = 0 → src.audioTokens = 0
  image : d.imageTokens = 0 → src.imageTokens = 0

variable {d src : InputTokenDetails}

theorem ite_zero_eq {a b : Int} (h : a = 0 → b = 0) : (if a = 0 then b else a) = a := by
  split <;> simp_all

theorem Covers.orElse_eq (h : d.Covers src) : d.orElse src = d := by
  unfold orElse
  rw [ite_zero_eq h.cached, ite_zero_eq h.creation, ite_zero_eq h.write, ite_zero_eq h.text,
    ite_zero_eq h.audio, ite_zero_eq h.image]

theorem orElse_zero (d : InputTokenDetails) : d.orElse 0 = d :=
  Covers.orElse_eq
    ⟨fun _ => rfl, fun _ => rfl, fun _ => rfl, fun _ => rfl, fun _ => rfl, fun _ => rfl⟩

/-- Normalising gives counts and takes none back. -/
theorem covers_normalizeCacheWrite_orElse : (d.orElse src).normalizeCacheWrite.Covers src := by
  constructor <;> (unfold orElse normalizeCacheWrite; grind)

/-- At most one of the two names of a cache write is given. -/
def OneWrite (d : InputTokenDetails) : Prop :=
  d.cachedCreationTokens = 0 ∨ d.cacheWriteTokens = 0

/-- Both names of a cache write hold the same count. -/
def SameWrite (d : InputTokenDetails) : Prop := d.cachedCreationTokens = d.cacheWriteTokens

/-- The one that is given is not negative. -/
def NonnegWrite (d : InputTokenDetails) : Prop := 0 ≤ d.cachedCreationTokens + d.cacheWriteTokens

instance (d : InputTokenDetails) : Decidable d.OneWrite :=
  inferInstanceAs (Decidable (_ ∨ _))

instance (d : InputTokenDetails) : Decidable d.SameWrite :=
  inferInstanceAs (Decidable (_ = _))

instance (d : InputTokenDetails) : Decidable d.NonnegWrite :=
  inferInstanceAs (Decidable (_ ≤ _))

theorem sameWrite_normalizeCacheWrite_iff (hone : d.OneWrite) :
    d.normalizeCacheWrite.SameWrite ↔ d.NonnegWrite := by
  unfold SameWrite NonnegWrite normalizeCacheWrite
  unfold OneWrite at hone
  grind

theorem SameWrite.orElse (hd : d.SameWrite) (hsrc : src.SameWrite) : (d.orElse src).SameWrite := by
  unfold SameWrite InputTokenDetails.orElse at *
  grind

theorem SameWrite.normalizeCacheWrite (hd : d.SameWrite) : d.normalizeCacheWrite.SameWrite := by
  unfold SameWrite InputTokenDetails.normalizeCacheWrite at *
  grind

/-- A negative count is not made good by details whose two names agree. -/
theorem not_sameWrite_of_neg (hone : d.OneWrite) (hneg : ¬ d.NonnegWrite) (hsrc : src.SameWrite)
    (hsrcNonneg : 0 ≤ src.cacheWriteTokens) :
    ¬ (d.normalizeCacheWrite.orElse src).normalizeCacheWrite.SameWrite := by
  unfold SameWrite InputTokenDetails.orElse InputTokenDetails.normalizeCacheWrite at *
  unfold OneWrite at hone
  unfold NonnegWrite at hneg
  grind

end InputTokenDetails

open InputTokenDetails

namespace Usage

theorem normalizeInputTokenDetails_idem (u : Usage) :
    u.normalizeInputTokenDetails.normalizeInputTokenDetails = u.normalizeInputTokenDetails := by
  cases hinput : u.inputTokensDetails with
  | none => simp [normalizeInputTokenDetails, hinput]
  | some src =>
      simp [normalizeInputTokenDetails, hinput, covers_normalizeCacheWrite_orElse.orElse_eq]

/-- What normalising makes of the prompt's details. -/
theorem normalizeInputTokenDetails_promptTokensDetails (u : Usage) :
    u.normalizeInputTokenDetails.promptTokensDetails =
      match u.inputTokensDetails with
      | none => u.promptTokensDetails.normalizeCacheWrite
      | some src =>
          (u.promptTokensDetails.normalizeCacheWrite.orElse
            src.normalizeCacheWrite).normalizeCacheWrite := by
  cases hinput : u.inputTokensDetails <;> simp [normalizeInputTokenDetails, hinput]

theorem normalizeInputTokenDetails_inputTokensDetails (u : Usage) :
    u.normalizeInputTokenDetails.inputTokensDetails =
      u.inputTokensDetails.map InputTokenDetails.normalizeCacheWrite := by
  cases hinput : u.inputTokensDetails <;> simp [normalizeInputTokenDetails, hinput]

/-- At most one name of the cache write is given in each record of details. -/
def OneWrite (u : Usage) : Prop :=
  u.promptTokensDetails.OneWrite ∧ ∀ d ∈ u.inputTokensDetails, d.OneWrite

/-- Both names hold the same count in each record of details. -/
def SameWrite (u : Usage) : Prop :=
  u.promptTokensDetails.SameWrite ∧ ∀ d ∈ u.inputTokensDetails, d.SameWrite

/-- No record of details gives a negative cache write. -/
def NonnegWrite (u : Usage) : Prop :=
  u.promptTokensDetails.NonnegWrite ∧ ∀ d ∈ u.inputTokensDetails, d.NonnegWrite

instance (u : Usage) : Decidable u.OneWrite := inferInstanceAs (Decidable (_ ∧ _))

instance (u : Usage) : Decidable u.SameWrite := inferInstanceAs (Decidable (_ ∧ _))

instance (u : Usage) : Decidable u.NonnegWrite := inferInstanceAs (Decidable (_ ∧ _))

/-- A cache write that is given under one name gets the other, unless it is negative. -/
theorem sameWrite_normalize_iff {u : Usage} (hone : u.OneWrite) :
    u.normalizeInputTokenDetails.SameWrite ↔ u.NonnegWrite := by
  obtain ⟨hprompt, hinput⟩ := hone
  unfold SameWrite NonnegWrite
  rw [normalizeInputTokenDetails_promptTokensDetails,
    normalizeInputTokenDetails_inputTokensDetails]
  cases hdetails : u.inputTokensDetails with
  | none => simp [sameWrite_normalizeCacheWrite_iff hprompt]
  | some src =>
      have hsrc : src.OneWrite := hinput src hdetails
      have hsame := sameWrite_normalizeCacheWrite_iff hsrc
      simp only [Option.map_some, Option.mem_def, Option.some.injEq, forall_eq', hsame]
      refine and_congr_left fun hnonneg => ?_
      have hsrcSame : src.normalizeCacheWrite.SameWrite := hsame.2 hnonneg
      constructor
      · intro hkeeps
        by_contra hneg
        refine not_sameWrite_of_neg hprompt hneg hsrcSame ?_ hkeeps
        unfold InputTokenDetails.normalizeCacheWrite
        unfold InputTokenDetails.OneWrite at hsrc
        unfold InputTokenDetails.NonnegWrite at hnonneg
        grind
      · intro hpos
        exact (((sameWrite_normalizeCacheWrite_iff hprompt).2 hpos).orElse
          hsrcSame).normalizeCacheWrite

end Usage

/-! ## The counts that are billed -/

/-- The counts of a usage that `calculateTextQuotaSummary` bills. -/
structure BilledCounts where
  prompt : Int
  completion : Int
  cached : Int
  cacheWrite : Int
  image : Int
  audio : Int
deriving DecidableEq

/-- The counts that this prompt, this completion and these details hold. -/
def BilledCounts.of (prompt completion : Int) (d : InputTokenDetails) : BilledCounts :=
  ⟨prompt, completion, d.cachedTokens, d.cachedCreationTokens, d.imageTokens, d.audioTokens⟩

/-- The counts as they reach `calculateTextQuotaSummary`, which normalises the usage. -/
def UpstreamUsage.billedCounts (u : UpstreamUsage) : BilledCounts :=
  let n := u.normalizeInputTokenDetails
  .of n.promptTokens n.completionTokens n.promptTokensDetails

/-- A count is given under its name in the chat completions, under its name in the
Responses API, or under both with one value. -/
def OneValue (chat responses : Int) : Prop := responses = 0 ∨ chat = 0 ∨ chat = responses

instance (chat responses : Int) : Decidable (OneValue chat responses) :=
  inferInstanceAs (Decidable (_ ∨ _))

/-- The count that is given. -/
def givenValue (chat responses : Int) : Int := if responses ≠ 0 then responses else chat

namespace UpstreamUsage

/-- The details are given under one name or under both with equal values. -/
def OneDetails (u : UpstreamUsage) : Prop :=
  ∀ d ∈ u.inputTokensDetails,
    d = 0 ∨ u.promptTokensDetails = 0 ∨ u.promptTokensDetails = d

instance (u : UpstreamUsage) : Decidable u.OneDetails :=
  inferInstanceAs (Decidable (∀ d ∈ u.inputTokensDetails, _))

/-- The details that are given. -/
def givenDetails (u : UpstreamUsage) : InputTokenDetails :=
  match u.inputTokensDetails with
  | some d => if d = 0 then u.promptTokensDetails else d
  | none => u.promptTokensDetails

/-- The usage is given in the fields of the chat completions, in those of the Responses API,
or in both with equal values. -/
structure OneUsage (u : UpstreamUsage) : Prop where
  prompt : OneValue u.promptTokens u.inputTokens
  completion : OneValue u.completionTokens u.outputTokens
  details : u.OneDetails

/-- The counts of the usage that is given. -/
def givenCounts (u : UpstreamUsage) : BilledCounts :=
  .of (givenValue u.promptTokens u.inputTokens) (givenValue u.completionTokens u.outputTokens)
    u.givenDetails.normalizeCacheWrite

end UpstreamUsage

/-- Each of the three handlers bills the counts that are given; and normalising is
idempotent and gives a cache write both names. -/
def BilledAlike (channelType : Int) (body : ResponseBody) (u : UpstreamUsage) : Prop :=
  (u.OneUsage →
    (applyOpenAIResponsesUsage 0 u).billedCounts = u.givenCounts ∧
      (oaiResponsesToChatStreamUsage 0 u).billedCounts = u.givenCounts ∧
      (openaiHandlerWithUsage channelType body u).billedCounts = u.givenCounts) ∧
  u.normalizeInputTokenDetails.normalizeInputTokenDetails = u.normalizeInputTokenDetails ∧
  (u.OneWrite → u.normalizeInputTokenDetails.SameWrite)

/-- Adding the count of the Responses API, if it is positive, gives the count once. -/
def AddedOnce (chat responses : Int) : Prop := responses = 0 ∨ (0 < responses ↔ chat = 0)

instance (chat responses : Int) : Decidable (AddedOnce chat responses) :=
  inferInstanceAs (Decidable (_ ∨ _))

/-- The cached tokens that the post-processing takes from elsewhere. -/
def cachedElsewhere (channelType : Int) (body : ResponseBody) (u : UpstreamUsage) : Int :=
  if channelType = channelTypeDeepSeek then u.promptCacheHitTokens
  else if channelType = channelTypeZhipuV4 then
    body.extractCachedTokens.getD (max 0 u.promptCacheHitTokens)
  else if channelType = channelTypeOpenAI then body.extractLlamaCachedTokens.getD 0
  else 0

/-- What `openaiHandlerWithUsage` adds up it adds once, and it has no cached tokens from
elsewhere. -/
structure ReadOnce (channelType : Int) (body : ResponseBody) (u : UpstreamUsage) : Prop where
  prompt : AddedOnce u.promptTokens u.inputTokens
  completion : AddedOnce u.completionTokens u.outputTokens
  image : ∀ d ∈ u.inputTokensDetails, d.imageTokens = 0 ∨ u.promptTokensDetails.imageTokens = 0
  cached : u.givenDetails.cachedTokens = 0 → cachedElsewhere channelType body u = 0

namespace UpstreamUsage

variable {u : UpstreamUsage}

theorem normalizeInputTokenDetails_idem (u : UpstreamUsage) :
    u.normalizeInputTokenDetails.normalizeInputTokenDetails = u.normalizeInputTokenDetails := by
  unfold normalizeInputTokenDetails
  simp [Usage.normalizeInputTokenDetails_idem]

@[simp] theorem normalize_promptTokens (u : UpstreamUsage) :
    u.normalizeInputTokenDetails.promptTokens = u.promptTokens :=
  Quota.normalize_promptTokens u.toUsage

@[simp] theorem normalize_completionTokens (u : UpstreamUsage) :
    u.normalizeInputTokenDetails.completionTokens = u.completionTokens :=
  Quota.normalize_completionTokens u.toUsage

/-- Normalising leaves the details that are given, with both names of the cache write. -/
theorem OneDetails.normalize (h : u.OneDetails) :
    u.normalizeInputTokenDetails.promptTokensDetails = u.givenDetails.normalizeCacheWrite := by
  have hfold := u.toUsage.normalizeInputTokenDetails_promptTokensDetails
  unfold givenDetails
  show u.toUsage.normalizeInputTokenDetails.promptTokensDetails = _
  rw [hfold]
  cases hinput : u.inputTokensDetails with
  | none => rfl
  | some d =>
      dsimp only
      rcases h d hinput with hd | hd | hd
      · rw [hd, if_pos rfl, normalizeCacheWrite_zero, orElse_zero, normalizeCacheWrite_idem]
      · rw [hd, normalizeCacheWrite_zero, zero_orElse, normalizeCacheWrite_idem]
        split
        next hzero => rw [hzero]
        next => rfl
      · rw [hd, orElse_self, normalizeCacheWrite_idem, ite_self]

theorem billedCounts_normalize (u : UpstreamUsage) :
    u.normalizeInputTokenDetails.billedCounts = u.billedCounts := by
  unfold billedCounts
  rw [normalizeInputTokenDetails_idem]

/-- The first two handlers take the counts that are given. -/
theorem billedCounts_of_details {v : UpstreamUsage} (hu : u.OneUsage)
    (hprompt : v.promptTokens = givenValue u.promptTokens u.inputTokens)
    (hcompletion : v.completionTokens = givenValue u.completionTokens u.outputTokens)
    (hdetails : v.promptTokensDetails = u.promptTokensDetails)
    (hinput : v.inputTokensDetails = u.inputTokensDetails) :
    v.billedCounts = u.givenCounts := by
  have hv : v.OneDetails := by
    intro d hd
    rw [hdetails]
    exact hu.details d (hinput ▸ hd)
  have hgiven : v.givenDetails = u.givenDetails := by
    unfold givenDetails
    rw [hdetails, hinput]
  unfold billedCounts givenCounts
  dsimp only
  rw [hv.normalize, hgiven, normalize_promptTokens, normalize_completionTokens, hprompt,
    hcompletion]

theorem applyOpenAIResponsesUsage_billedCounts (h : u.OneUsage) :
    (applyOpenAIResponsesUsage 0 u).billedCounts = u.givenCounts := by
  have hprompt : (0 : UpstreamUsage).promptTokens = 0 := rfl
  have hcompletion : (0 : UpstreamUsage).completionTokens = 0 := rfl
  have hinput : (0 : UpstreamUsage).inputTokensDetails = none := rfl
  unfold applyOpenAIResponsesUsage
  dsimp only
  rw [billedCounts_normalize]
  apply billedCounts_of_details h
  · unfold givenValue
    grind
  · unfold givenValue
    grind
  · grind
  · grind

theorem oaiResponsesToChatStreamUsage_billedCounts (h : u.OneUsage) :
    (oaiResponsesToChatStreamUsage 0 u).billedCounts = u.givenCounts := by
  have hprompt : (0 : UpstreamUsage).promptTokens = 0 := rfl
  have hcompletion : (0 : UpstreamUsage).completionTokens = 0 := rfl
  have hinput : (0 : UpstreamUsage).inputTokensDetails = none := rfl
  unfold oaiResponsesToChatStreamUsage
  extract_lets withPrompt withCompletion withTotal withInput withDetails normalized
  have hcounts : normalized.billedCounts = u.givenCounts := by
    rw [billedCounts_normalize]
    apply billedCounts_of_details h
    · unfold givenValue
      grind
    · unfold givenValue
      grind
    · rfl
    · grind
  split
  · exact hcounts
  · exact hcounts

/-- Normalising covers the details of the Responses API. -/
theorem normalize_covers (u : UpstreamUsage) :
    ∀ src ∈ u.normalizeInputTokenDetails.inputTokensDetails,
      u.normalizeInputTokenDetails.promptTokensDetails.Covers src := by
  intro src hsrc
  have hinput : u.normalizeInputTokenDetails.inputTokensDetails =
      u.inputTokensDetails.map InputTokenDetails.normalizeCacheWrite :=
    u.toUsage.normalizeInputTokenDetails_inputTokensDetails
  have hprompt := u.toUsage.normalizeInputTokenDetails_promptTokensDetails
  rw [hinput, Option.mem_def, Option.map_eq_some_iff] at hsrc
  obtain ⟨d, hd, rfl⟩ := hsrc
  show (u.toUsage.normalizeInputTokenDetails.promptTokensDetails).Covers _
  rw [hprompt, hd]
  exact covers_normalizeCacheWrite_orElse

/-- Other details are billed as they stand once they are normalised and cover those of the
Responses API. -/
theorem billedCounts_of_covers {v : UpstreamUsage}
    (hnormal : v.promptTokensDetails.normalizeCacheWrite = v.promptTokensDetails)
    (hcovers : ∀ src ∈ v.inputTokensDetails,
      src.normalizeCacheWrite = src ∧ v.promptTokensDetails.Covers src) :
    v.billedCounts = .of v.promptTokens v.completionTokens v.promptTokensDetails := by
  have hdetails : v.normalizeInputTokenDetails.promptTokensDetails = v.promptTokensDetails := by
    show v.toUsage.normalizeInputTokenDetails.promptTokensDetails = _
    rw [Usage.normalizeInputTokenDetails_promptTokensDetails]
    cases hinput : v.inputTokensDetails with
    | none => exact hnormal
    | some src =>
        obtain ⟨hsrc, hcov⟩ := hcovers src hinput
        dsimp only
        rw [hnormal, hsrc, hcov.orElse_eq, hnormal]
  unfold billedCounts
  dsimp only
  rw [hdetails, normalize_promptTokens, normalize_completionTokens]

theorem withCachedTokens_self (h : u.promptTokensDetails.cachedTokens = 0) :
    u.withCachedTokens 0 = u := by
  unfold withCachedTokens
  rw [← h]

/-- Only the cached tokens are taken from elsewhere, and only when there are none. -/
theorem applyUsagePostProcessing_eq (channelType : Int) (body : ResponseBody)
    (v : UpstreamUsage) :
    applyUsagePostProcessing channelType body v =
      if v.normalizeInputTokenDetails.promptTokensDetails.cachedTokens = 0 then
        v.normalizeInputTokenDetails.withCachedTokens (cachedElsewhere channelType body v)
      else v.normalizeInputTokenDetails := by
  unfold applyUsagePostProcessing
  extract_lets usage fromInput
  have hhit : usage.promptCacheHitTokens = v.promptCacheHitTokens := rfl
  show (if usage.promptTokensDetails.cachedTokens = 0 then _ else usage) =
    if usage.promptTokensDetails.cachedTokens = 0 then _ else usage
  by_cases hnone : usage.promptTokensDetails.cachedTokens = 0
  · have hself := withCachedTokens_self hnone
    -- the details of the Responses API are covered, so they have no cached tokens either
    have hinput : fromInput = 0 := by
      show (usage.inputTokensDetails.map InputTokenDetails.cachedTokens).getD 0 = 0
      cases hsrc : usage.inputTokensDetails with
      | none => rfl
      | some src => exact (v.normalize_covers src hsrc).cached hnone
    rw [if_pos hnone, if_pos hnone, hhit]
    unfold cachedElsewhere
    split
    · split
      · rfl
      next hhit => rw [not_not.1 hhit, hself]
    · split
      · rw [if_neg (by omega)]
        cases body.extractCachedTokens with
        | some cachedTokens => rfl
        | none =>
            dsimp only [Option.getD]
            split
            next hpos => rw [max_eq_right hpos.le]
            next hpos => rw [max_eq_left (not_lt.1 hpos), hself]
      · split
        · cases body.extractLlamaCachedTokens with
          | some cachedTokens => rfl
          | none => exact hself.symm
        · exact hself.symm
  · rw [if_neg hnone, if_neg hnone]

theorem normalize_promptTokensDetails_idem (u : UpstreamUsage) :
    u.normalizeInputTokenDetails.promptTokensDetails.normalizeCacheWrite =
      u.normalizeInputTokenDetails.promptTokensDetails := by
  have hdetails := u.toUsage.normalizeInputTokenDetails_promptTokensDetails
  show u.toUsage.normalizeInputTokenDetails.promptTokensDetails.normalizeCacheWrite =
    u.toUsage.normalizeInputTokenDetails.promptTokensDetails
  rw [hdetails]
  split <;> exact normalizeCacheWrite_idem _

theorem normalize_inputTokensDetails_idem (u : UpstreamUsage) :
    ∀ src ∈ u.normalizeInputTokenDetails.inputTokensDetails, src.normalizeCacheWrite = src := by
  intro src hsrc
  have hinput : u.normalizeInputTokenDetails.inputTokensDetails =
      u.inputTokensDetails.map InputTokenDetails.normalizeCacheWrite :=
    u.toUsage.normalizeInputTokenDetails_inputTokensDetails
  rw [hinput, Option.mem_def, Option.map_eq_some_iff] at hsrc
  obtain ⟨d, _, rfl⟩ := hsrc
  exact normalizeCacheWrite_idem d

theorem applyUsagePostProcessing_billedCounts (channelType : Int) (body : ResponseBody)
    (v : UpstreamUsage) :
    (applyUsagePostProcessing channelType body v).billedCounts =
      { v.billedCounts with
        cached := if v.billedCounts.cached = 0 then cachedElsewhere channelType body v
          else v.billedCounts.cached } := by
  have hcached : v.billedCounts.cached =
      v.normalizeInputTokenDetails.promptTokensDetails.cachedTokens := rfl
  rw [applyUsagePostProcessing_eq, hcached]
  by_cases hnone : v.normalizeInputTokenDetails.promptTokensDetails.cachedTokens = 0
  · rw [if_pos hnone, if_pos hnone]
    have hnormal := v.normalize_promptTokensDetails_idem
    refine billedCounts_of_covers ?_ ?_
    · unfold withCachedTokens
      dsimp only
      rw [normalizeCacheWrite_cachedTokens, hnormal]
    · intro src hsrc
      have hcov := v.normalize_covers src hsrc
      exact ⟨v.normalize_inputTokensDetails_idem src hsrc,
        ⟨fun _ => hcov.cached hnone, hcov.creation, hcov.write, hcov.text, hcov.audio, hcov.image⟩⟩
  · rw [if_neg hnone, if_neg hnone, billedCounts_normalize, ← hcached]

/-- The details of the prompt once the tokens of images and of text of the Responses API are
added. -/
def addedDetails (u : UpstreamUsage) : InputTokenDetails :=
  match u.inputTokensDetails with
  | some input =>
      { u.promptTokensDetails with
        imageTokens := u.promptTokensDetails.imageTokens + input.imageTokens
        textTokens := u.promptTokensDetails.textTokens + input.textTokens }
  | none => u.promptTokensDetails

/-- The tokens of images that normalising leaves of those added. -/
def addedImage (u : UpstreamUsage) : Int :=
  match u.inputTokensDetails with
  | some input =>
      let added := u.promptTokensDetails.imageTokens + input.imageTokens
      if added = 0 then input.imageTokens else added
  | none => u.promptTokensDetails.imageTokens

/-- Adding tokens of images and of text changes no other detail. -/
theorem normalize_addDetails (d src : InputTokenDetails) (image text : Int) :
    ((normalizeCacheWrite { d with imageTokens := image, textTokens := text }).orElse
        src.normalizeCacheWrite).normalizeCacheWrite =
      { (d.normalizeCacheWrite.orElse src.normalizeCacheWrite).normalizeCacheWrite with
        imageTokens := if image = 0 then src.imageTokens else image
        textTokens := if text = 0 then src.textTokens else text } := by
  simp only [normalizeCacheWrite_eq, InputTokenDetails.orElse]

/-- What is billed of a usage with added details. -/
theorem billedCounts_of_addedDetails {v : UpstreamUsage} (h : u.OneDetails)
    (hdetails : v.promptTokensDetails = u.addedDetails)
    (hinput : v.inputTokensDetails = u.inputTokensDetails) :
    v.billedCounts =
      { BilledCounts.of v.promptTokens v.completionTokens u.givenDetails.normalizeCacheWrite with
        image := u.addedImage } := by
  have hu := h.normalize
  change u.toUsage.normalizeInputTokenDetails.promptTokensDetails = _ at hu
  have hv : v.normalizeInputTokenDetails.promptTokensDetails =
      v.toUsage.normalizeInputTokenDetails.promptTokensDetails := rfl
  rw [Usage.normalizeInputTokenDetails_promptTokensDetails] at hu hv
  unfold billedCounts addedImage
  dsimp only
  rw [normalize_promptTokens, normalize_completionTokens, hv, hinput, hdetails, ← hu]
  unfold addedDetails
  cases u.inputTokensDetails with
  | none => simp [BilledCounts.of, normalizeCacheWrite_eq]
  | some input =>
      dsimp only
      rw [normalize_addDetails]
      rfl

theorem openaiHandlerWithUsage_billedCounts (channelType : Int) (body : ResponseBody)
    (h : u.OneDetails) :
    (openaiHandlerWithUsage channelType body u).billedCounts =
      { BilledCounts.of
          (if u.inputTokens > 0 then u.promptTokens + u.inputTokens else u.promptTokens)
          (if u.outputTokens > 0 then u.completionTokens + u.outputTokens
            else u.completionTokens)
          u.givenDetails.normalizeCacheWrite with
        image := u.addedImage
        cached :=
          if u.givenDetails.cachedTokens = 0 then cachedElsewhere channelType body u
          else u.givenDetails.cachedTokens } := by
  unfold openaiHandlerWithUsage
  extract_lets withPrompt withCompletion details added
  have hprompt : added.promptTokens =
      if u.inputTokens > 0 then u.promptTokens + u.inputTokens else u.promptTokens := by
    grind
  have hcompletion : added.completionTokens =
      if u.outputTokens > 0 then u.completionTokens + u.outputTokens
      else u.completionTokens := by
    grind
  have hdetails : added.promptTokensDetails = u.addedDetails := by
    grind [addedDetails]
  have hinput : added.inputTokensDetails = u.inputTokensDetails := by
    grind
  have helsewhere : cachedElsewhere channelType body added =
      cachedElsewhere channelType body u := by
    have hhit : added.promptCacheHitTokens = u.promptCacheHitTokens := by grind
    unfold cachedElsewhere
    rw [hhit]
  have hcached : u.givenDetails.normalizeCacheWrite.cachedTokens =
      u.givenDetails.cachedTokens := by
    rw [normalizeCacheWrite_eq]
  rw [applyUsagePostProcessing_billedCounts, billedCounts_of_addedDetails h hdetails hinput,
    helsewhere, hprompt, hcompletion]
  simp only [BilledCounts.of, hcached]
  rfl

end UpstreamUsage

/-! ## Which usages are billed alike -/

theorem addedOnce_iff {chat responses : Int} (h : OneValue chat responses) :
    (if responses > 0 then chat + responses else chat) = givenValue chat responses ↔
      AddedOnce chat responses := by
  unfold AddedOnce givenValue
  unfold OneValue at h
  grind

section

variable {u : UpstreamUsage}

theorem addedImage_eq_iff (h : u.OneDetails) :
    u.addedImage = u.givenDetails.imageTokens ↔
      ∀ d ∈ u.inputTokensDetails, d.imageTokens = 0 ∨ u.promptTokensDetails.imageTokens = 0 := by
  have hzero : (0 : InputTokenDetails).imageTokens = 0 := rfl
  unfold UpstreamUsage.addedImage UpstreamUsage.givenDetails
  unfold UpstreamUsage.OneDetails at h
  cases hinput : u.inputTokensDetails with
  | none => simp
  | some d =>
      have hd := h d hinput
      simp only [Option.mem_def, Option.some.injEq, forall_eq']
      grind

theorem openaiHandlerWithUsage_eq_iff (channelType : Int) (body : ResponseBody)
    (h : u.OneUsage) :
    (openaiHandlerWithUsage channelType body u).billedCounts = u.givenCounts ↔
      ReadOnce channelType body u := by
  have hcached : u.givenDetails.normalizeCacheWrite.cachedTokens =
      u.givenDetails.cachedTokens := by
    rw [normalizeCacheWrite_eq]
  have himage : u.givenDetails.normalizeCacheWrite.imageTokens =
      u.givenDetails.imageTokens := by
    rw [normalizeCacheWrite_eq]
  rw [UpstreamUsage.openaiHandlerWithUsage_billedCounts channelType body h.details]
  unfold UpstreamUsage.givenCounts BilledCounts.of
  rw [BilledCounts.mk.injEq, hcached, himage, addedOnce_iff h.prompt, addedOnce_iff h.completion,
    addedImage_eq_iff h.details]
  constructor
  · rintro ⟨hprompt, hcompletion, helsewhere, -, himages, -⟩
    exact ⟨hprompt, hcompletion, himages, by grind⟩
  · rintro ⟨hprompt, hcompletion, himages, helsewhere⟩
    exact ⟨hprompt, hcompletion, by grind, rfl, himages, rfl⟩

/-- Usages are billed alike when the third handler reads each count once; and a cache write
that is given under one name gets the other when it is not negative. -/
theorem billedAlike_iff (channelType : Int) (body : ResponseBody) (u : UpstreamUsage) :
    BilledAlike channelType body u ↔
      (u.OneUsage → ReadOnce channelType body u) ∧ (u.OneWrite → u.NonnegWrite) := by
  constructor
  · rintro ⟨hcounts, -, hwrite⟩
    refine ⟨fun h => ?_, fun hone => (Usage.sameWrite_normalize_iff hone).1 (hwrite hone)⟩
    exact (openaiHandlerWithUsage_eq_iff channelType body h).1 (hcounts h).2.2
  · rintro ⟨honce, hwrite⟩
    refine ⟨fun h => ?_, u.normalizeInputTokenDetails_idem, fun hone =>
      (Usage.sameWrite_normalize_iff hone).2 (hwrite hone)⟩
    exact ⟨UpstreamUsage.applyOpenAIResponsesUsage_billedCounts h,
      UpstreamUsage.oaiResponsesToChatStreamUsage_billedCounts h,
      (openaiHandlerWithUsage_eq_iff channelType body h).2 (honce h)⟩

end

/-- A response whose body holds nothing else. -/
def noBody : ResponseBody := ⟨none, none, none, none⟩

/-- A usage of `prompt` tokens under one name and `input` tokens under the other. -/
def twoSpellings (prompt input : Int) : UpstreamUsage :=
  { (0 : UpstreamUsage) with promptTokens := prompt, inputTokens := input }

/-- A hundred tokens that are given under both names count twice. -/
theorem not_billedAlike_twoSpellings :
    (twoSpellings 100 100).OneUsage ∧
      (openaiHandlerWithUsage channelTypeOpenAI noBody (twoSpellings 100 100)).billedCounts.prompt =
        200 ∧
      ¬ BilledAlike channelTypeOpenAI noBody (twoSpellings 100 100) := by
  have hone : (twoSpellings 100 100).OneUsage := ⟨by decide, by decide, by decide⟩
  refine ⟨hone, by decide, ?_⟩
  rintro ⟨hcounts, -, -⟩
  exact absurd (hcounts hone).2.2 (by decide)

end DazeApi.Quota
