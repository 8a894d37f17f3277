import Mathlib.Algebra.Order.BigOperators.Group.List
import DazeApi.Quota.Classes

/-!
# The usage that Gemini reports

`buildUsageFromGeminiMetadata` (`relay/channel/gemini/relay-gemini.go`).  Where the prompt
or the completion is missing, it is what the other leaves of the total.  The prompt is taken
so only from a larger total; the completion from any.
-/

namespace DazeApi.Quota

/-- `dto.GeminiPromptTokensDetails`. -/
structure GeminiPromptTokensDetails where
  modality : String
  tokenCount : Int

/-- `dto.GeminiUsageMetadata`. -/
structure GeminiUsageMetadata where
  promptTokenCount : Int
  toolUsePromptTokenCount : Int
  candidatesTokenCount : Int
  totalTokenCount : Int
  thoughtsTokenCount : Int
  cachedContentTokenCount : Int
  promptTokensDetails : List GeminiPromptTokensDetails
  toolUsePromptTokensDetails : List GeminiPromptTokensDetails

/-- `dto.Usage` with the reasoning tokens of its completion details. -/
structure GeminiUsage extends Usage where
  reasoningTokens : Int

/-- The loop over the details of the prompt tokens. -/
def addDetails (d : InputTokenDetails) : List GeminiPromptTokensDetails → InputTokenDetails
  | [] => d
  | detail :: details =>
      if detail.modality = "AUDIO" then
        addDetails { d with audioTokens := d.audioTokens + detail.tokenCount } details
      else if detail.modality = "TEXT" then
        addDetails { d with textTokens := d.textTokens + detail.tokenCount } details
      else addDetails d details

/-- `buildUsageFromGeminiMetadata`. -/
def buildUsageFromGeminiMetadata (metadata : GeminiUsageMetadata) : GeminiUsage :=
  let promptTokens := metadata.promptTokenCount + metadata.toolUsePromptTokenCount
  let completion := metadata.candidatesTokenCount + metadata.thoughtsTokenCount
  let promptTokens :=
    if promptTokens ≤ 0 ∧ metadata.totalTokenCount > completion then
      metadata.totalTokenCount - completion
    else promptTokens
  let details : InputTokenDetails :=
    { (0 : InputTokenDetails) with cachedTokens := metadata.cachedContentTokenCount }
  let details := addDetails details metadata.promptTokensDetails
  let details := addDetails details metadata.toolUsePromptTokensDetails
  let completionTokens :=
    if metadata.totalTokenCount > 0 ∧ completion ≤ 0 then metadata.totalTokenCount - promptTokens
    else completion
  let details :=
    if promptTokens > 0 ∧ details.textTokens = 0 ∧ details.audioTokens = 0 then
      { details with textTokens := promptTokens }
    else details
  { (0 : Usage) with
    promptTokens := promptTokens
    completionTokens := completionTokens
    totalTokens := metadata.totalTokenCount
    promptTokensDetails := details
    reasoningTokens := metadata.thoughtsTokenCount }

/-! ## The details -/

/-- The tokens of a modality. -/
def modalityTokens (modality : String) (details : List GeminiPromptTokensDetails) : Int :=
  (details.map fun detail => if detail.modality = modality then detail.tokenCount else 0).sum

theorem addDetails_eq (details : List GeminiPromptTokensDetails) :
    ∀ d, addDetails d details =
      { d with
        audioTokens := d.audioTokens + modalityTokens "AUDIO" details
        textTokens := d.textTokens + modalityTokens "TEXT" details } := by
  induction details with
  | nil =>
      intro d
      simp [addDetails, modalityTokens]
  | cons detail details ih =>
      intro d
      unfold addDetails
      by_cases haudio : detail.modality = "AUDIO"
      · simp [haudio, ih, modalityTokens, add_assoc]
      · by_cases htext : detail.modality = "TEXT"
        · simp [htext, ih, modalityTokens, add_assoc]
        · simp [haudio, htext, ih, modalityTokens]

theorem modalityTokens_nonneg (modality : String) {details : List GeminiPromptTokensDetails}
    (h : ∀ detail ∈ details, 0 ≤ detail.tokenCount) : 0 ≤ modalityTokens modality details := by
  refine List.sum_nonneg ?_
  intro n hn
  obtain ⟨detail, hdetail, rfl⟩ := List.mem_map.1 hn
  split
  · exact h detail hdetail
  · exact le_rfl

/-! ## The counts -/

/-- Metadata without a negative count. -/
structure GeminiUsageMetadata.Nonneg (m : GeminiUsageMetadata) : Prop where
  prompt : 0 ≤ m.promptTokenCount
  toolUse : 0 ≤ m.toolUsePromptTokenCount
  candidates : 0 ≤ m.candidatesTokenCount
  total : 0 ≤ m.totalTokenCount
  thoughts : 0 ≤ m.thoughtsTokenCount
  cached : 0 ≤ m.cachedContentTokenCount
  details : ∀ d ∈ m.promptTokensDetails, 0 ≤ d.tokenCount
  toolUseDetails : ∀ d ∈ m.toolUsePromptTokensDetails, 0 ≤ d.tokenCount

namespace GeminiUsageMetadata

/-- The prompt with what the tools used. -/
def prompts (m : GeminiUsageMetadata) : Int := m.promptTokenCount + m.toolUsePromptTokenCount

/-- The completion with the thoughts. -/
def completions (m : GeminiUsageMetadata) : Int := m.candidatesTokenCount + m.thoughtsTokenCount

/-- The text and audio tokens of the prompt, by its details. -/
def detailed (m : GeminiUsageMetadata) : Int :=
  modalityTokens "TEXT" m.promptTokensDetails + modalityTokens "TEXT" m.toolUsePromptTokensDetails +
    (modalityTokens "AUDIO" m.promptTokensDetails +
      modalityTokens "AUDIO" m.toolUsePromptTokensDetails)

/-- One of the two sides is missing, and the total is at least the other. -/
def OneSide (m : GeminiUsageMetadata) : Prop :=
  0 < m.totalTokenCount ∧
    ((m.prompts = 0 ∧ m.completions ≠ 0 ∧ m.completions ≤ m.totalTokenCount) ∨
      (m.completions = 0 ∧ m.prompts ≠ 0 ∧ m.prompts ≤ m.totalTokenCount))

end GeminiUsageMetadata

/-- No count is negative, a missing side is completed to the total, and the text and audio
details stay within the prompt where those of the metadata do. -/
def ConsistentUsage (m : GeminiUsageMetadata) : Prop :=
  let u := buildUsageFromGeminiMetadata m
  (u.toUsage.Nonneg ∧ 0 ≤ u.reasoningTokens) ∧
    (m.OneSide → u.promptTokens + u.completionTokens = m.totalTokenCount) ∧
    (m.detailed ≤ u.promptTokens →
      u.promptTokensDetails.textTokens + u.promptTokensDetails.audioTokens ≤ u.promptTokens)

section

variable (m : GeminiUsageMetadata)

theorem buildUsage_promptTokens :
    (buildUsageFromGeminiMetadata m).promptTokens =
      if m.prompts ≤ 0 ∧ m.totalTokenCount > m.completions then
        m.totalTokenCount - m.completions
      else m.prompts := rfl

theorem buildUsage_completionTokens :
    (buildUsageFromGeminiMetadata m).completionTokens =
      if m.totalTokenCount > 0 ∧ m.completions ≤ 0 then
        m.totalTokenCount - (buildUsageFromGeminiMetadata m).promptTokens
      else m.completions := rfl

/-- The details of the usage: without any text or audio, the prompt counts as text. -/
theorem buildUsage_promptTokensDetails :
    (buildUsageFromGeminiMetadata m).promptTokensDetails =
      let text := modalityTokens "TEXT" m.promptTokensDetails +
        modalityTokens "TEXT" m.toolUsePromptTokensDetails
      let audio := modalityTokens "AUDIO" m.promptTokensDetails +
        modalityTokens "AUDIO" m.toolUsePromptTokensDetails
      let prompt := (buildUsageFromGeminiMetadata m).promptTokens
      { (0 : InputTokenDetails) with
        cachedTokens := m.cachedContentTokenCount
        textTokens := if prompt > 0 ∧ text = 0 ∧ audio = 0 then prompt else text
        audioTokens := audio } := by
  have hunfold : (buildUsageFromGeminiMetadata m).promptTokensDetails =
      let details := addDetails
        (addDetails { (0 : InputTokenDetails) with cachedTokens := m.cachedContentTokenCount }
          m.promptTokensDetails)
        m.toolUsePromptTokensDetails
      let prompt := (buildUsageFromGeminiMetadata m).promptTokens
      if prompt > 0 ∧ details.textTokens = 0 ∧ details.audioTokens = 0 then
        { details with textTokens := prompt }
      else details := rfl
  have htext : (0 : InputTokenDetails).textTokens = 0 := rfl
  have haudio : (0 : InputTokenDetails).audioTokens = 0 := rfl
  rw [hunfold]
  simp only [addDetails_eq, htext, haudio, zero_add]
  split <;> rfl

variable {m}

/-- With counts that are not negative only the completion can be. -/
theorem buildUsage_nonneg_iff (h : m.Nonneg) :
    (buildUsageFromGeminiMetadata m).toUsage.Nonneg ↔
      ¬ (m.completions = 0 ∧ 0 < m.totalTokenCount ∧ m.totalTokenCount < m.prompts) := by
  have hprompts : 0 ≤ m.prompts := add_nonneg h.prompt h.toolUse
  have hcompletions : 0 ≤ m.completions := add_nonneg h.candidates h.thoughts
  have hprompt : 0 ≤ (buildUsageFromGeminiMetadata m).promptTokens := by
    rw [buildUsage_promptTokens]
    split <;> omega
  have hcompletion : 0 ≤ (buildUsageFromGeminiMetadata m).completionTokens ↔
      ¬ (m.completions = 0 ∧ 0 < m.totalTokenCount ∧ m.totalTokenCount < m.prompts) := by
    rw [buildUsage_completionTokens, buildUsage_promptTokens]
    split
    · split <;> omega
    · omega
  constructor
  · intro hnonneg
    exact hcompletion.1 hnonneg.completion
  · intro hcond
    have hinput : ∀ d ∈ (buildUsageFromGeminiMetadata m).inputTokensDetails, d.Nonneg := by
      intro d hd
      cases hd
    refine ⟨hprompt, hcompletion.2 hcond, ?_, hinput, le_rfl, le_rfl⟩
    have htext := add_nonneg (modalityTokens_nonneg "TEXT" h.details)
      (modalityTokens_nonneg "TEXT" h.toolUseDetails)
    have haudio := add_nonneg (modalityTokens_nonneg "AUDIO" h.details)
      (modalityTokens_nonneg "AUDIO" h.toolUseDetails)
    rw [buildUsage_promptTokensDetails]
    refine ⟨h.cached, le_rfl, le_rfl, ?_, haudio, le_rfl⟩
    dsimp only
    split
    · exact hprompt
    · exact htext

/-- A side that is missing is what the other leaves of the total. -/
theorem buildUsage_total (h : m.Nonneg) (hside : m.OneSide) :
    (buildUsageFromGeminiMetadata m).promptTokens +
      (buildUsageFromGeminiMetadata m).completionTokens = m.totalTokenCount := by
  obtain ⟨htotal, ⟨hp, hc, hle⟩ | ⟨hc, hp, hle⟩⟩ := hside
  · have hcompletions : 0 ≤ m.completions := add_nonneg h.candidates h.thoughts
    rw [buildUsage_completionTokens, if_neg (by omega), buildUsage_promptTokens, hp]
    split <;> omega
  · have hzero : m.totalTokenCount > 0 ∧ m.completions ≤ 0 := ⟨htotal, hc.le⟩
    rw [buildUsage_completionTokens, if_pos hzero, add_sub_cancel]

/-- The details stay within the prompt. -/
theorem buildUsage_details (hle : m.detailed ≤ (buildUsageFromGeminiMetadata m).promptTokens) :
    (buildUsageFromGeminiMetadata m).promptTokensDetails.textTokens +
      (buildUsageFromGeminiMetadata m).promptTokensDetails.audioTokens ≤
      (buildUsageFromGeminiMetadata m).promptTokens := by
  rw [buildUsage_promptTokensDetails]
  dsimp only
  unfold GeminiUsageMetadata.detailed at hle
  split
  next hnone => rw [hnone.2.2, add_zero]
  next => exact hle

/-- The usage is consistent unless the completion is missing and the total, which is not,
is less than the prompt. -/
theorem consistentUsage_iff (h : m.Nonneg) :
    ConsistentUsage m ↔
      ¬ (m.completions = 0 ∧ 0 < m.totalTokenCount ∧ m.totalTokenCount < m.prompts) := by
  rw [← buildUsage_nonneg_iff h]
  constructor
  · rintro ⟨⟨hnonneg, _⟩, _⟩
    exact hnonneg
  · intro hnonneg
    exact ⟨⟨hnonneg, h.thoughts⟩, buildUsage_total h, buildUsage_details⟩

end

/-- A prompt of `prompt` tokens with this total, and no completion. -/
def promptOnly (prompt total : Int) : GeminiUsageMetadata := ⟨prompt, 0, 0, total, 0, 0, [], []⟩

theorem promptOnly_nonneg {prompt total : Int} (hp : 0 ≤ prompt) (ht : 0 ≤ total) :
    (promptOnly prompt total).Nonneg where
  prompt := hp
  toolUse := le_rfl
  candidates := le_rfl
  total := ht
  thoughts := le_rfl
  cached := le_rfl
  details _ hd := nomatch hd
  toolUseDetails _ hd := nomatch hd

/-- A completion of ten tokens is restored from the total. -/
theorem consistentUsage_promptOnly : ConsistentUsage (promptOnly 100 110) :=
  (consistentUsage_iff (promptOnly_nonneg (by decide) (by decide))).2 (by decide)

/-- A total that leaves the prompt out makes the completion negative. -/
theorem not_consistentUsage_promptOnly :
    (promptOnly 100 20).Nonneg ∧
      (buildUsageFromGeminiMetadata (promptOnly 100 20)).completionTokens = -80 ∧
      ¬ ConsistentUsage (promptOnly 100 20) := by
  refine ⟨promptOnly_nonneg (by decide) (by decide), by decide, ?_⟩
  rintro ⟨⟨hnonneg, _⟩, _⟩
  exact absurd hnonneg.completion (by decide)

end DazeApi.Quota
