import DazeApi.Lib.Failing
import DazeApi.Lib.JsonPath
import DazeApi.Convert.Claude2OpenAI
import DazeApi.Convert.ClaudeRequest
import DazeApi.Convert.Gemini2OpenAI
import DazeApi.Convert.OpenAI2ClaudeRequest

/-!
# Converters that panic

Four converters (`relay/channel/claude/relay-claude.go`, `service/convert.go`) on what the JSON
decoder accepts: type assertions without a check, pointers that may be nil, and a slice that may
go beyond its length.  Each returns exactly if none of these is reached (`returns_iff`).
-/

namespace DazeApi.Convert.Panics

open JsonText Failing
open OpenAI2ClaudeRequest (Failure)

variable {J R D F ω : Type}

/-- Neither a failed assertion, nor a nil dereference, nor a slice beyond the length. -/
def Returns {α : Type} (x : Except Failure α) : Prop := errorOf x ≠ some .panic

/-! ## OpenAI to Claude -/

structure Tool where
  name : String
  description : String
  parameters : Json

structure OpenAIRequest where
  model : String
  messages : List OpenAI2ClaudeRequest.Message
  tools : List Tool
  maxTokens : ℕ
  maxCompletionTokens : ℕ
  reasoningEffort : String
  reasoning : Option String
  stop : Option Json

structure ClaudeTool where
  name : String
  description : String
  inputSchema : List (String × Json)

inductive Thinking where
  | adaptive
  | enabled (budgetTokens : ℤ)

structure ClaudeRequest (J : Type) where
  tools : List ClaudeTool
  maxTokens : Option ℕ
  thinking : Option Thinking
  stopSequences : List String
  body : OpenAI2ClaudeRequest.ClaudeRequest J

/-- The settings for Claude, and the decoder of a reasoning parameter. -/
structure OpenAIEnv (J : Type) where
  messages : OpenAI2ClaudeRequest.Env J
  defaultMaxTokens : String → ℕ
  hasEffortSuffix : String → Bool
  thinkingAdapterEnabled : Bool
  budgetTokens : ℕ → ℤ
  unmarshalReasoning : String → Except String ℤ

/-- `params["type"].(string)`, if there is one. -/
def schemaType (params : List (String × Json)) : Except Failure (List (String × Json)) :=
  match params.lookup "type" with
  | none => .ok []
  | some .null => .ok []
  | some (.str type) => .ok [("type", .str type)]
  | some _ => .error .panic

def claudeTool (tool : Tool) : Except Failure (List ClaudeTool) :=
  match tool.parameters with
  | .obj params => do
      let type ← schemaType params
      let named := [("properties", (params.lookup "properties").getD .null),
        ("required", (params.lookup "required").getD .null)]
      let others := params.filter fun p =>
        p.1 ≠ "type" ∧ p.1 ≠ "properties" ∧ p.1 ≠ "required"
      return [⟨tool.name, tool.description, type ++ named ++ others⟩]
  | _ => .ok []

def OpenAIRequest.getMaxTokens (req : OpenAIRequest) : ℕ :=
  if req.maxCompletionTokens ≠ 0 then req.maxCompletionTokens else req.maxTokens

def claudeMaxTokens (env : OpenAIEnv J) (req : OpenAIRequest) : Option ℕ :=
  let maxTokens := if 0 < req.getMaxTokens then some req.getMaxTokens else none
  if maxTokens = none ∨ maxTokens = some 0 then some (env.defaultMaxTokens req.model)
  else maxTokens

/-- `*claudeRequest.MaxTokens`. -/
def deref (pointer : Option ℕ) : Except Failure ℕ :=
  match pointer with
  | some n => .ok n
  | none => .error .panic

/-- The thinking that the name of the model asks for. -/
def modelThinking (env : OpenAIEnv J) (req : OpenAIRequest) : Except Failure (Option Thinking) :=
  if env.hasEffortSuffix req.model then .ok (some .adaptive)
  else if env.thinkingAdapterEnabled ∧ Text.hasSuffix req.model "-thinking" then do
    let maxTokens := claudeMaxTokens env req
    let maxTokens := if maxTokens = none ∨ maxTokens.getD 0 < 1280 then some 1280 else maxTokens
    let n ← deref maxTokens
    return some (.enabled (env.budgetTokens n))
  else .ok none

def effortThinking (reasoningEffort : String) (thinking : Option Thinking) : Option Thinking :=
  match reasoningEffort with
  | "low" => some (.enabled 1280)
  | "medium" => some (.enabled 2048)
  | "high" => some (.enabled 4096)
  | _ => thinking

def reasoningThinking (env : OpenAIEnv J) (req : OpenAIRequest) (thinking : Option Thinking) :
    Except Failure (Option Thinking) :=
  match req.reasoning with
  | none => .ok thinking
  | some reasoning =>
      match env.unmarshalReasoning reasoning with
      | .error message => .error (.error message)
      | .ok budgetTokens =>
          .ok (if 0 < budgetTokens then some (.enabled budgetTokens) else thinking)

/-- `stop.(string)`. -/
def stopSequence (stop : Json) : Except Failure String :=
  match stop with
  | .str s => .ok s
  | _ => .error .panic

def stopSequences (stop : Option Json) : Except Failure (List String) :=
  match stop with
  | some (.str s) => .ok [s]
  | some (.arr stops) => stops.mapM stopSequence
  | _ => .ok []

/-- `RequestOpenAI2ClaudeMessage`. -/
def requestOpenAI2ClaudeMessage (env : OpenAIEnv J) (req : OpenAIRequest) :
    Except Failure (ClaudeRequest J) := do
  let tools ← req.tools.mapM claudeTool
  let thinking ← modelThinking env req
  let thinking ← reasoningThinking env req (effortThinking req.reasoningEffort thinking)
  let stop ← stopSequences req.stop
  let body ← OpenAI2ClaudeRequest.requestOpenAI2ClaudeMessage env.messages req.messages
  return ⟨tools.flatten, claudeMaxTokens env req, thinking, stop, body⟩

/-! ## Claude to OpenAI -/

/-- `dto.ClaudeMediaMessage`; the source may be missing, whatever the type says. -/
structure RawBlock (J R : Type) where
  type : String
  text : Option String
  source : Option ClaudeRequest.Source
  id : String
  name : String
  input : J
  toolUseId : String
  content : ClaudeRequest.ResultContent R

/-- A content is a string, blocks, or JSON that gives no blocks. -/
inductive RawContent (J R : Type) where
  | string (s : String)
  | blocks (bs : List (RawBlock J R))
  | undecodable (message : String)

structure RawMessage (J R : Type) where
  role : String
  content : RawContent J R

structure RawRequest (J R : Type) where
  messages : List (RawMessage J R)
  system : ClaudeRequest.ClaudeSystem

def RawBlock.withSource (b : RawBlock J R) (source : ClaudeRequest.Source) :
    ClaudeRequest.Block J R :=
  ⟨b.type, b.text, source, b.id, b.name, b.input, b.toolUseId, b.content⟩

/-- The block; only an image reads its source. -/
def RawBlock.decoded (b : RawBlock J R) : ClaudeRequest.Block J R :=
  b.withSource (b.source.getD ⟨"", ""⟩)

/-- The blocks that `SearchToolNameByToolCallId` goes through. -/
def RawRequest.searched (request : RawRequest J R) : ClaudeRequest.Request J R where
  messages := request.messages.map fun m =>
    match m.content with
    | .blocks bs => ⟨.user, .blocks (bs.map RawBlock.decoded)⟩
    | _ => ⟨.user, .blocks []⟩
  system := request.system

def addRawBlock (encode : ClaudeRequest.Encode J R) (request : RawRequest J R)
    (acc : ClaudeRequest.Blocks) (b : RawBlock J R) : Except Failure ClaudeRequest.Blocks :=
  if b.decoded.kind = .image ∧ b.source.isNone then .error .panic
  else .ok (ClaudeRequest.addBlock encode request.searched acc b.decoded)

def convertRawMessage (encode : ClaudeRequest.Encode J R) (request : RawRequest J R)
    (m : RawMessage J R) : Except Failure (List RequestMessage) :=
  match m.content with
  | .string s => .ok (RequestMessage.sent ⟨m.role, .string s, none, [], ""⟩)
  | .undecodable message => .error (.error message)
  | .blocks bs => do
      let acc ← bs.foldlM (addRawBlock encode request) ⟨[], [], []⟩
      return acc.tools ++ RequestMessage.sent { acc.message .user with role := m.role }

/-- `ClaudeToOpenAIRequest`. -/
def claudeToOpenAIRequest (encode : ClaudeRequest.Encode J R) (openRouterClaude : Bool)
    (request : RawRequest J R) : Except Failure (List RequestMessage) := do
  let messages ← request.messages.mapM (convertRawMessage encode request)
  return ClaudeRequest.systemMessages openRouterClaude request.system ++ messages.flatten

/-! ## Gemini to OpenAI -/

/-- `dto.GeminiChatRequest`, with its tools as raw JSON. -/
structure GeminiRequest (J : Type) where
  contents : List (Gemini2OpenAI.Content J)
  stopSequences : List String
  systemInstructions : Option (List (Gemini2OpenAI.Part J))
  tools : String

/-- The decoders of the tools, one or several, and of their declarations. -/
structure GeminiEnv (J D F : Type) where
  toJSONString : J → String
  unmarshalTools : String → Option (List (Option D))
  unmarshalTool : String → Option (Option D)
  functionDeclarations : D → Option (List F)

structure OpenAIResult (F : Type) where
  messages : List RequestMessage
  stop : List String
  tools : List F

/-- `values[:n]`. -/
def sliceTo (values : List String) (n : ℕ) : Except Failure (List String) :=
  if n ≤ values.length then .ok (values.take n) else .error .panic

/-- Gemini takes five stop sequences at most, OpenAI four. -/
def openaiStop (stopSequences : List String) : Except Failure (List String) :=
  if stopSequences ≠ [] then sliceTo stopSequences 4 else .ok []

/-- `GetTools`; an error is logged without a context. -/
def getTools (env : GeminiEnv J D F) (tools : String) : Except Failure (List (Option D)) :=
  if Text.hasPrefix tools "[" then
    match env.unmarshalTools tools with
    | some ts => .ok ts
    | none => .error .panic
  else if Text.hasPrefix tools "\x7b" then
    match env.unmarshalTool tools with
    | some t => .ok [t]
    | none => .error .panic
  else .ok []

/-- `GeminiToOpenAIRequest`. -/
def geminiToOpenAIRequest (env : GeminiEnv J D F) (request : GeminiRequest J) :
    Except Failure (OpenAIResult F) := do
  let messages := request.contents.flatMap (Gemini2OpenAI.convertContent env.toJSONString)
  let stop ← openaiStop request.stopSequences
  let tools ← getTools env request.tools
  let system := Gemini2OpenAI.systemMessages
    ⟨request.contents, ⟨request.stopSequences, []⟩, request.systemInstructions⟩
  return ⟨system ++ messages, stop,
    (tools.filterMap id).flatMap fun d => (env.functionDeclarations d).getD []⟩

/-! ## When they return -/

/-- The parts that are made blocks of. -/
def convertedParts (m : OpenAI2ClaudeRequest.Message) : List MediaContent :=
  if m.role = "system" ∨ m.role = "tool" then [] else m.content.parse

/-- An image that cannot be got. -/
def Unfetched (env : OpenAIEnv J) (c : MediaContent) : Prop :=
  ∃ url detail mimeType message, c = .imageUrl url detail mimeType ∧
    env.messages.getBase64Data url = .error message

/-- Types of schemas are strings; and either the reasoning gives an error, or stops are strings
and a part that is neither text nor image is behind an image that cannot be got. -/
structure SafeOpenAI (env : OpenAIEnv J) (req : OpenAIRequest) : Prop where
  tools : ∀ tool ∈ req.tools, ∀ params, tool.parameters = .obj params →
    ∀ type, params.lookup "type" = some type → type = .null ∨ ∃ s, type = .str s
  rest : (∃ reasoning message, req.reasoning = some reasoning ∧
      env.unmarshalReasoning reasoning = .error message) ∨
    (∀ stops, req.stop = some (.arr stops) → ∀ stop ∈ stops, ∃ s, stop = .str s) ∧
      ∀ before type after, req.messages.flatMap convertedParts = before ++ .other type :: after →
        ∃ c ∈ before, Unfetched env c

/-- A message with an image without a source is behind one whose content gives no blocks. -/
def SafeClaude (request : RawRequest J R) : Prop :=
  ∀ before m after, request.messages = before ++ m :: after →
    (∃ bs, m.content = .blocks bs ∧ ∃ b ∈ bs, b.type = "image" ∧ b.source = none) →
      ∃ n ∈ before, ∃ message, n.content = .undecodable message

/-- The stop sequences are none or four at least, and tools in brackets or braces are decoded. -/
structure SafeGemini (env : GeminiEnv J D F) (request : GeminiRequest J) : Prop where
  stops : request.stopSequences = [] ∨ 4 ≤ request.stopSequences.length
  tools : Text.hasPrefix request.tools "[" → (env.unmarshalTools request.tools).isSome
  tool : Text.hasPrefix request.tools "\x7b" → (env.unmarshalTool request.tools).isSome

/-- A fragment of the input of a call has its text. -/
def SafeEvent (event : Claude2OpenAI.ClaudeResponse ω) : Prop :=
  event.type = "content_block_delta" → ∀ d, event.delta = some d →
    d.type = "input_json_delta" → d.partialJson.isSome

/-! ## Steps that panic -/

section

variable {α : Type}

/-- A step that returns under a condition and panics otherwise. -/
def PanicsUnless (o : Option Failure) (p : Prop) : Prop :=
  o = none ∧ p ∨ o = some .panic ∧ ¬ p

theorem findSome?_panicsUnless {g : α → Option Failure} {p : α → Prop}
    (h : ∀ a, PanicsUnless (g a) (p a)) (l : List α) :
    PanicsUnless (l.findSome? g) (∀ a ∈ l, p a) := by
  induction l with
  | nil => exact Or.inl ⟨rfl, List.forall_mem_nil _⟩
  | cons a l ih =>
      rw [List.findSome?_cons, List.forall_mem_cons]
      rcases h a with ⟨hg, ha⟩ | ⟨hg, ha⟩
      · rw [hg]
        rcases ih with ⟨hl, hall⟩ | ⟨hl, hall⟩
        · exact Or.inl ⟨hl, ha, hall⟩
        · exact Or.inr ⟨hl, fun h => hall h.2⟩
      · rw [hg]
        exact Or.inr ⟨rfl, fun h => ha h.1⟩

theorem or_ne_panic_iff {o : Option Failure} {p : Prop} (h : PanicsUnless o p)
    (o' : Option Failure) : o.or o' ≠ some .panic ↔ p ∧ o' ≠ some .panic := by
  rcases h with ⟨rfl, hp⟩ | ⟨rfl, hp⟩
  · exact (and_iff_right hp).symm
  · exact iff_of_false (fun h => h rfl) fun h => hp h.1

end

/-! ## OpenAI to Claude -/

section

variable {env : OpenAIEnv J} {req : OpenAIRequest}

theorem errorOf_claudeTool (tool : Tool) :
    PanicsUnless (errorOf (claudeTool tool)) (∀ params, tool.parameters = .obj params →
      ∀ type, params.lookup "type" = some type → type = .null ∨ ∃ s, type = .str s) := by
  rw [claudeTool]
  cases hparameters : tool.parameters with
  | obj params =>
      simp only [Json.obj.injEq, forall_eq']
      have hfailure : errorOf (do
          let type ← schemaType params
          let named := [("properties", (params.lookup "properties").getD .null),
            ("required", (params.lookup "required").getD .null)]
          let others := params.filter fun p =>
            p.1 ≠ "type" ∧ p.1 ≠ "properties" ∧ p.1 ≠ "required"
          return [(⟨tool.name, tool.description, type ++ named ++ others⟩ : ClaudeTool)]) =
            errorOf (schemaType params) :=
        (errorOf_bind (g := none) fun _ _ => rfl).trans (Option.or_none)
      refine (congrArg (PanicsUnless · _) hfailure).mpr ?_
      rw [schemaType]
      cases hlookup : params.lookup "type" with
      | none => exact Or.inl ⟨rfl, fun _ h => nomatch h⟩
      | some type =>
          cases type with
          | null => exact Or.inl ⟨rfl, fun _ h => Or.inl (Option.some.inj h).symm⟩
          | str s => exact Or.inl ⟨rfl, fun _ h => Or.inr ⟨s, (Option.some.inj h).symm⟩⟩
          | _ =>
              refine Or.inr ⟨rfl, fun h => ?_⟩
              rcases h _ rfl with h | ⟨s, h⟩ <;> cases h
  | _ => exact Or.inl ⟨rfl, fun params h => nomatch h⟩

/-- The pointer to the tokens is never nil. -/
theorem errorOf_modelThinking (env : OpenAIEnv J) (req : OpenAIRequest) :
    errorOf (modelThinking env req) = none := by
  rw [modelThinking]
  split
  next => rfl
  next =>
    split
    next =>
      cases htokens : claudeMaxTokens env req with
      | none => rfl
      | some n =>
          by_cases hn : n < 1280 <;> simp [hn, deref] <;> rfl
    next => rfl

theorem errorOf_reasoningThinking (env : OpenAIEnv J) (req : OpenAIRequest)
    (thinking : Option Thinking) :
    (∃ message, errorOf (reasoningThinking env req thinking) = some (.error message) ∧
      ∃ reasoning message, req.reasoning = some reasoning ∧
        env.unmarshalReasoning reasoning = .error message) ∨
    errorOf (reasoningThinking env req thinking) = none ∧
      ¬ ∃ reasoning message, req.reasoning = some reasoning ∧
        env.unmarshalReasoning reasoning = .error message := by
  rw [reasoningThinking]
  cases hreasoning : req.reasoning with
  | none => exact Or.inr ⟨rfl, fun ⟨_, _, h, _⟩ => nomatch h⟩
  | some reasoning =>
      cases hdecoded : env.unmarshalReasoning reasoning with
      | error message =>
          refine Or.inl ⟨message, ?_, reasoning, message, rfl, hdecoded⟩
          simp only [hdecoded]
          rfl
      | ok budgetTokens =>
          refine Or.inr ⟨?_, ?_⟩
          · simp only [hdecoded]
            rfl
          · rintro ⟨_, _, h, h'⟩
            cases h
            rw [hdecoded] at h'
            cases h'

theorem errorOf_stopSequences (stop : Option Json) :
    PanicsUnless (errorOf (stopSequences stop))
      (∀ stops, stop = some (.arr stops) → ∀ j ∈ stops, ∃ s, j = .str s) := by
  have hstop (j : Json) : PanicsUnless (errorOf (stopSequence j)) (∃ s, j = .str s) := by
    cases j with
    | str s => exact Or.inl ⟨rfl, s, rfl⟩
    | _ => exact Or.inr ⟨rfl, fun ⟨_, h⟩ => nomatch h⟩
  cases stop with
  | none => exact Or.inl ⟨rfl, fun _ h => nomatch h⟩
  | some j =>
      cases j with
      | arr stops =>
          rw [stopSequences, errorOf_mapM]
          simpa using findSome?_panicsUnless hstop stops
      | _ => exact Or.inl ⟨rfl, fun _ h => nomatch h⟩

/-- How a part fails. -/
def partFailure (env : OpenAIEnv J) (c : MediaContent) : Option Failure :=
  errorOf (OpenAI2ClaudeRequest.mediaBlock env.messages c)

theorem partFailure_texts {cs : List MediaContent} (h : ∀ c ∈ cs, ∃ s, c = .text s) :
    cs.findSome? (partFailure env) = none := by
  rw [List.findSome?_eq_none_iff]
  intro c hc
  obtain ⟨s, rfl⟩ := h c hc
  rfl

theorem errorOf_convertMessage (env : OpenAIEnv J) (acc : OpenAI2ClaudeRequest.Converted J)
    (m : OpenAI2ClaudeRequest.Message) :
    errorOf (OpenAI2ClaudeRequest.convertMessage env.messages acc m) =
      (convertedParts m).findSome? (partFailure env) := by
  rw [OpenAI2ClaudeRequest.convertMessage, convertedParts]
  by_cases hsystem : m.role = "system"
  · rw [if_pos hsystem, if_pos (Or.inl hsystem)]
    rfl
  · rw [if_neg hsystem]
    by_cases htool : m.role = "tool"
    · simp only [if_pos htool, if_pos (Or.inr htool : m.role = "system" ∨ m.role = "tool")]
      rfl
    · rw [if_neg (not_or.2 ⟨hsystem, htool⟩)]
      simp only [if_neg htool]
      split
      next hplain =>
        cases hcontent : m.content with
        | string s => exact (partFailure_texts (by simp [RequestContent.parse])).symm
        | _ => rw [hcontent] at hplain; cases hplain.1
      next =>
        rw [errorOf_bind (g := none) fun _ _ => rfl, Option.or_none, errorOf_mapM]
        rfl

/-- Merging leaves the parts that may fail. -/
theorem findSome?_formatted (env : OpenAIEnv J) {messages : List OpenAI2ClaudeRequest.Message}
    {r : Runs.Run OpenAI2ClaudeRequest.Message}
    (hr : r ∈ Runs.runs OpenAI2ClaudeRequest.joins messages) :
    (convertedParts (OpenAI2ClaudeRequest.formatted r)).findSome? (partFailure env) =
      (r.elements.flatMap convertedParts).findSome? (partFailure env) := by
  have hchain := Runs.isChain_of_mem_runs hr
  have htexts {m : OpenAI2ClaudeRequest.Message} {s : String}
      (h : (OpenAI2ClaudeRequest.withContent m).content = .string s) :
      ∀ c ∈ convertedParts m, ∃ s, c = .text s := by
    rw [OpenAI2ClaudeRequest.withContent_content] at h
    rw [convertedParts]
    split
    next => exact List.forall_mem_nil _
    next =>
      cases hcontent : m.content with
      | media contents => rw [hcontent] at h; cases h
      | _ => simp [RequestContent.parse]
  by_cases hne : r.rest = []
  · have hformatted : OpenAI2ClaudeRequest.formatted r =
        OpenAI2ClaudeRequest.started r.first := by
      rw [OpenAI2ClaudeRequest.formatted, hne]
      rfl
    rw [hformatted, Runs.Run.elements, hne, List.flatMap_singleton]
    cases hcontent : r.first.content with
    | none =>
        rw [partFailure_texts, partFailure_texts]
        · exact htexts (s := "...") (by rw [OpenAI2ClaudeRequest.withContent_content, hcontent])
        · refine htexts (s := "...") ?_
          rw [OpenAI2ClaudeRequest.withContent_content, OpenAI2ClaudeRequest.started_content,
            OpenAI2ClaudeRequest.withContent_content, hcontent]
    | _ =>
        rw [convertedParts, convertedParts, OpenAI2ClaudeRequest.started_content,
          OpenAI2ClaudeRequest.withContent_content, hcontent, OpenAI2ClaudeRequest.started,
          OpenAI2ClaudeRequest.withContent_role]
        rfl
  · obtain ⟨s, ns, last, -, -, -, -, -, -, hformatted⟩ :=
      OpenAI2ClaudeRequest.formatted_of_rest hchain hne
    obtain ⟨hrest, hfirst⟩ := OpenAI2ClaudeRequest.rest_of_isChain hchain
    obtain ⟨-, t, ht⟩ := hfirst hne
    rw [partFailure_texts, partFailure_texts]
    · intro c hc
      obtain ⟨m, hm, hc⟩ := List.mem_flatMap.1 hc
      rcases List.mem_cons.1 hm with rfl | hm
      · exact htexts ht c hc
      · obtain ⟨-, u, hu⟩ := hrest m hm
        exact htexts (OpenAI2ClaudeRequest.withContent_of_string hu) c hc
    · rw [hformatted]
      exact htexts (s := OpenAI2ClaudeRequest.joinTrimmed s ns) rfl

theorem errorOf_body (env : OpenAIEnv J) (messages : List OpenAI2ClaudeRequest.Message) :
    errorOf (OpenAI2ClaudeRequest.requestOpenAI2ClaudeMessage env.messages messages) =
      (messages.flatMap convertedParts).findSome? (partFailure env) := by
  rw [OpenAI2ClaudeRequest.requestOpenAI2ClaudeMessage, errorOf_bind (g := none) fun _ _ => rfl,
    Option.or_none, errorOf_foldlM fun acc m _ => errorOf_convertMessage env acc m,
    OpenAI2ClaudeRequest.formatMessages_eq, List.findSome?_map]
  conv_rhs => rw [← Runs.flatMap_elements_runs OpenAI2ClaudeRequest.joins messages]
  rw [List.flatMap_assoc, findSome?_flatMap]
  exact findSome?_congr fun r hr => findSome?_formatted env hr

/-- Which parts fail, and how. -/
theorem partFailure_cases (env : OpenAIEnv J) (c : MediaContent) :
    (partFailure env c = some .panic ↔ ∃ type, c = .other type) ∧
      ((∃ e ≠ Failure.panic, partFailure env c = some e) ↔ Unfetched env c) := by
  cases c with
  | text s =>
      refine ⟨iff_of_false (fun h => nomatch h) (fun ⟨_, h⟩ => nomatch h), ?_⟩
      exact iff_of_false (fun ⟨_, _, h⟩ => nomatch h) fun ⟨_, _, _, _, h, _⟩ => nomatch h
  | imageUrl url detail mimeType =>
      rw [partFailure, OpenAI2ClaudeRequest.mediaBlock]
      cases hdata : env.messages.getBase64Data url with
      | ok data =>
          refine ⟨iff_of_false (fun h => nomatch h) (fun ⟨_, h⟩ => nomatch h), ?_⟩
          refine iff_of_false (fun ⟨_, _, h⟩ => nomatch h) ?_
          rintro ⟨_, _, _, message, h, h'⟩
          cases h
          rw [hdata] at h'
          cases h'
      | error message =>
          refine ⟨iff_of_false (fun h => nomatch h) (fun ⟨_, h⟩ => nomatch h), ?_⟩
          exact iff_of_true ⟨_, Failure.noConfusion, rfl⟩ ⟨url, detail, mimeType, message, rfl, hdata⟩
  | other type =>
      refine ⟨iff_of_true rfl ⟨type, rfl⟩, iff_of_false ?_ (fun ⟨_, _, _, _, h, _⟩ => nomatch h)⟩
      rintro ⟨e, hne, h⟩
      exact hne (Option.some.inj h).symm

theorem errorOf_reasoningThinking_eq (thinking : Option Thinking) :
    errorOf (reasoningThinking env req thinking) = errorOf (reasoningThinking env req none) := by
  rw [reasoningThinking, reasoningThinking]
  cases req.reasoning with
  | none => rfl
  | some reasoning =>
      cases h : env.unmarshalReasoning reasoning with
      | error message => simp only [h]
      | ok budgetTokens => simp only [h, errorOf]

/-- The steps fail one after another. -/
theorem errorOf_requestOpenAI2ClaudeMessage (env : OpenAIEnv J) (req : OpenAIRequest) :
    errorOf (requestOpenAI2ClaudeMessage env req) =
      (req.tools.findSome? fun tool => errorOf (claudeTool tool)).or
        ((errorOf (reasoningThinking env req none)).or
          ((errorOf (stopSequences req.stop)).or
            ((req.messages.flatMap convertedParts).findSome? (partFailure env)))) := by
  have hbody {α : Type} (f : OpenAI2ClaudeRequest.ClaudeRequest J → α) :
      errorOf (do
        let body ← OpenAI2ClaudeRequest.requestOpenAI2ClaudeMessage env.messages req.messages
        return f body) = (req.messages.flatMap convertedParts).findSome? (partFailure env) := by
    rw [errorOf_bind (g := none) fun _ _ => rfl, Option.or_none, errorOf_body]
  rw [requestOpenAI2ClaudeMessage, ← errorOf_mapM]
  refine errorOf_bind fun tools _ => ?_
  refine (errorOf_bind fun thinking _ => ?_).trans
    (by rw [errorOf_modelThinking, Option.none_or])
  rw [← errorOf_reasoningThinking_eq (effortThinking req.reasoningEffort thinking)]
  exact errorOf_bind fun thinking' _ => errorOf_bind fun stop _ => hbody _

theorem returns_openAI_iff (env : OpenAIEnv J) (req : OpenAIRequest) :
    Returns (requestOpenAI2ClaudeMessage env req) ↔ SafeOpenAI env req := by
  have hparts : (req.messages.flatMap convertedParts).findSome? (partFailure env) ≠
        some .panic ↔
      ∀ before type after, req.messages.flatMap convertedParts = before ++ .other type :: after →
        ∃ c ∈ before, Unfetched env c := by
    rw [findSome?_ne_some_iff]
    constructor
    · intro h before type after hsplit
      obtain ⟨c, hc, hfailed⟩ := h before _ after hsplit ((partFailure_cases env _).1.2 ⟨_, rfl⟩)
      exact ⟨c, hc, (partFailure_cases env c).2.1 hfailed⟩
    · intro h before c after hsplit hc
      obtain ⟨type, rfl⟩ := (partFailure_cases env c).1.1 hc
      obtain ⟨d, hd, hunfetched⟩ := h before type after hsplit
      exact ⟨d, hd, (partFailure_cases env d).2.2 hunfetched⟩
  have hrest := or_ne_panic_iff (errorOf_stopSequences req.stop)
    ((req.messages.flatMap convertedParts).findSome? (partFailure env))
  rw [Returns, errorOf_requestOpenAI2ClaudeMessage,
    or_ne_panic_iff (findSome?_panicsUnless errorOf_claudeTool req.tools)]
  rcases errorOf_reasoningThinking env req none with ⟨message, hfailed, herror⟩ | ⟨hnone, hok⟩
  · rw [hfailed, Option.some_or]
    exact ⟨fun h => ⟨h.1, Or.inl herror⟩, fun h => ⟨h.tools, fun h => nomatch h⟩⟩
  · rw [hnone, Option.none_or, hrest, hparts]
    exact ⟨fun h => ⟨h.1, Or.inr h.2⟩, fun h => ⟨h.tools, h.rest.resolve_left hok⟩⟩

end

/-! ## Claude to OpenAI -/

section

variable {encode : ClaudeRequest.Encode J R} {request : RawRequest J R}

theorem kind_decoded_iff (b : RawBlock J R) :
    b.decoded.kind = .image ↔ b.type = "image" := by
  rw [ClaudeRequest.Block.kind]
  have htype : b.decoded.type = b.type := rfl
  rw [htype]
  split
  next h => rcases h with h | h <;> simp [h]
  next =>
    split
    next h => exact iff_of_true rfl h
    next h =>
      refine iff_of_false (fun hkind => ?_) h
      split at hkind
      · cases hkind
      · split at hkind <;> cases hkind

/-- An image without a source panics. -/
def blockFailure (b : RawBlock J R) : Option Failure :=
  if b.type = "image" ∧ b.source = none then some .panic else none

theorem errorOf_addRawBlock (acc : ClaudeRequest.Blocks) (b : RawBlock J R) :
    errorOf (addRawBlock encode request acc b) = blockFailure b := by
  have hiff : b.decoded.kind = .image ∧ b.source.isNone ↔ b.type = "image" ∧ b.source = none := by
    rw [kind_decoded_iff, Option.isNone_iff_eq_none]
  rw [addRawBlock, blockFailure]
  split
  next h => rw [if_pos (hiff.1 h)]; rfl
  next h => rw [if_neg fun h' => h (hiff.2 h')]; rfl

theorem blockFailure_panicsUnless (b : RawBlock J R) :
    PanicsUnless (blockFailure b) ¬(b.type = "image" ∧ b.source = none) := by
  rw [blockFailure]
  split
  next h => exact Or.inr ⟨rfl, not_not.2 h⟩
  next h => exact Or.inl ⟨rfl, h⟩

theorem errorOf_convertRawMessage (encode : ClaudeRequest.Encode J R) (request : RawRequest J R)
    (m : RawMessage J R) :
    (errorOf (convertRawMessage encode request m) = some .panic ↔
        ∃ bs, m.content = .blocks bs ∧ ∃ b ∈ bs, b.type = "image" ∧ b.source = none) ∧
      ((∃ e ≠ Failure.panic, errorOf (convertRawMessage encode request m) = some e) ↔
        ∃ message, m.content = .undecodable message) := by
  rw [convertRawMessage]
  cases hcontent : m.content with
  | string s =>
      refine ⟨iff_of_false (fun h => nomatch h) (fun ⟨_, h, _⟩ => nomatch h), ?_⟩
      exact iff_of_false (fun ⟨_, _, h⟩ => nomatch h) fun ⟨_, h⟩ => nomatch h
  | undecodable message =>
      refine ⟨iff_of_false (fun h => nomatch h) (fun ⟨_, h, _⟩ => nomatch h), ?_⟩
      exact iff_of_true ⟨_, Failure.noConfusion, rfl⟩ ⟨message, rfl⟩
  | blocks bs =>
      have hfailure : errorOf (do
          let acc ← bs.foldlM (addRawBlock encode request) ⟨[], [], []⟩
          return acc.tools ++ RequestMessage.sent { acc.message .user with role := m.role }) =
            bs.findSome? blockFailure := by
        rw [errorOf_bind (g := none) fun _ _ => rfl, Option.or_none,
          errorOf_foldlM fun acc b _ => errorOf_addRawBlock acc b]
      simp only [hfailure]
      rcases findSome?_panicsUnless blockFailure_panicsUnless bs with ⟨hnone, hall⟩ | ⟨hsome, hall⟩
      · rw [hnone]
        refine ⟨iff_of_false (fun h => nomatch h) ?_, iff_of_false (fun ⟨_, _, h⟩ => nomatch h)
          fun ⟨_, h⟩ => nomatch h⟩
        rintro ⟨_, h, b, hb, himage⟩
        cases h
        exact hall b hb himage
      · rw [hsome]
        refine ⟨iff_of_true rfl ⟨bs, rfl, ?_⟩, iff_of_false ?_ fun ⟨_, h⟩ => nomatch h⟩
        · by_contra hnone
          exact hall fun b hb himage => hnone ⟨b, hb, himage⟩
        · rintro ⟨e, hne, h⟩
          exact hne (Option.some.inj h).symm

theorem returns_claude_iff (encode : ClaudeRequest.Encode J R) (openRouterClaude : Bool)
    (request : RawRequest J R) :
    Returns (claudeToOpenAIRequest encode openRouterClaude request) ↔ SafeClaude request := by
  rw [Returns, claudeToOpenAIRequest, errorOf_bind (g := none) fun _ _ => rfl, Option.or_none,
    errorOf_mapM, findSome?_ne_some_iff, SafeClaude]
  refine forall₄_congr fun before m after _ => ?_
  rw [(errorOf_convertRawMessage encode request m).1]
  simp only [(errorOf_convertRawMessage encode request _).2]

end

/-! ## Gemini to OpenAI, and events of Claude -/

theorem errorOf_getTools (env : GeminiEnv J D F) (tools : String) :
    PanicsUnless (errorOf (getTools env tools))
      ((Text.hasPrefix tools "[" → (env.unmarshalTools tools).isSome) ∧
        (Text.hasPrefix tools "\x7b" → (env.unmarshalTool tools).isSome)) := by
  have hexclusive : Text.hasPrefix tools "[" = true → ¬ Text.hasPrefix tools "\x7b" = true := by
    intro h h'
    rw [Text.hasPrefix_iff] at h h'
    obtain ⟨t, ht⟩ := h
    obtain ⟨t', ht'⟩ := h'
    have hhead := congrArg List.head? (ht.trans ht'.symm)
    exact absurd hhead (by simp)
  rw [getTools]
  split
  next harray =>
    cases hdecoded : env.unmarshalTools tools with
    | some ts => exact Or.inl ⟨rfl, fun _ => rfl, fun h => absurd h (hexclusive harray)⟩
    | none => exact Or.inr ⟨rfl, fun h => nomatch h.1 harray⟩
  next harray =>
    split
    next hobject =>
      cases hdecoded : env.unmarshalTool tools with
      | some t => exact Or.inl ⟨rfl, fun h => absurd h harray, fun _ => rfl⟩
      | none => exact Or.inr ⟨rfl, fun h => nomatch h.2 hobject⟩
    next hobject => exact Or.inl ⟨rfl, fun h => absurd h harray, fun h => absurd h hobject⟩

theorem errorOf_openaiStop (values : List String) :
    PanicsUnless (errorOf (openaiStop values)) (values = [] ∨ 4 ≤ values.length) := by
  rw [openaiStop]
  split
  next hne =>
    rw [sliceTo, or_iff_right hne]
    split
    next h => exact Or.inl ⟨rfl, h⟩
    next h => exact Or.inr ⟨rfl, h⟩
  next hnil => exact Or.inl ⟨rfl, Or.inl (not_not.1 hnil)⟩

theorem returns_gemini_iff (env : GeminiEnv J D F) (request : GeminiRequest J) :
    Returns (geminiToOpenAIRequest env request) ↔ SafeGemini env request := by
  have hfailure : errorOf (geminiToOpenAIRequest env request) =
      (errorOf (openaiStop request.stopSequences)).or (errorOf (getTools env request.tools)) := by
    refine errorOf_bind fun stop _ => ?_
    exact (errorOf_bind (g := none) fun _ _ => rfl).trans Option.or_none
  have htools := or_ne_panic_iff (errorOf_getTools env request.tools) none
  rw [Option.or_none] at htools
  rw [Returns, hfailure, or_ne_panic_iff (errorOf_openaiStop request.stopSequences), htools]
  exact ⟨fun h => ⟨h.1, h.2.1.1, h.2.1.2⟩,
    fun h => ⟨h.stops, ⟨h.tools, h.tool⟩, fun h => nomatch h⟩⟩

theorem returns_event_iff (event : Claude2OpenAI.ClaudeResponse ω) :
    Claude2OpenAI.streamResponseClaude2OpenAI event ≠ none ↔ SafeEvent event := by
  have hother (htype : event.type ≠ "content_block_delta") : SafeEvent event :=
    fun h => absurd h htype
  rw [Claude2OpenAI.streamResponseClaude2OpenAI]
  split
  next h => exact iff_of_true (Option.some_ne_none _) (hother (by rw [h]; decide))
  next h =>
    refine iff_of_true ?_ (hother (by rw [h]; decide))
    split <;> exact Option.some_ne_none _
  next h =>
    rw [SafeEvent, forall_prop_of_true h]
    cases hdelta : event.delta with
    | none => exact iff_of_true (Option.some_ne_none _) fun _ h => nomatch h
    | some d =>
        simp only [Option.some.injEq, forall_eq']
        split
        next htype =>
          rw [forall_prop_of_true htype]
          cases d.partialJson with
          | none => exact iff_of_false (fun h => h rfl) Bool.false_ne_true
          | some s => exact iff_of_true (Option.some_ne_none _) rfl
        next htype =>
          exact iff_of_true (Option.some_ne_none _) fun h => absurd (htype.symm.trans h) (by decide)
        next htype =>
          exact iff_of_true (Option.some_ne_none _) fun h => absurd (htype.symm.trans h) (by decide)
        next htype _ _ => exact iff_of_true (Option.some_ne_none _) fun h => absurd h htype
  next h => exact iff_of_true (Option.some_ne_none _) (hother (by rw [h]; decide))
  next h _ => exact iff_of_true (Option.some_ne_none _) (hother h)

/-- Each converter returns exactly if no assertion, dereference or slice of it goes wrong. -/
theorem returns_iff (env : OpenAIEnv J) (openAI : OpenAIRequest)
    (encode : ClaudeRequest.Encode J R) (openRouterClaude : Bool) (claude : RawRequest J R)
    (geminiEnv : GeminiEnv J D F) (gemini : GeminiRequest J)
    (event : Claude2OpenAI.ClaudeResponse ω) :
    (Returns (requestOpenAI2ClaudeMessage env openAI) ↔ SafeOpenAI env openAI) ∧
      (Returns (claudeToOpenAIRequest encode openRouterClaude claude) ↔ SafeClaude claude) ∧
      (Returns (geminiToOpenAIRequest geminiEnv gemini) ↔ SafeGemini geminiEnv gemini) ∧
      (Claude2OpenAI.streamResponseClaude2OpenAI event ≠ none ↔ SafeEvent event) :=
  ⟨returns_openAI_iff env openAI, returns_claude_iff encode openRouterClaude claude,
    returns_gemini_iff geminiEnv gemini, returns_event_iff event⟩

/-- A fragment of an input that is not there. -/
def fragment : Claude2OpenAI.ClaudeResponse Unit where
  id := ""
  type := "content_block_delta"
  model := ""
  content := []
  stopReason := ""
  index := some 1
  contentBlock := none
  delta := some ⟨"input_json_delta", none, none, none, none, "", "", "", none⟩
  message := none

/-- An image without a source. -/
def bareImage : RawRequest Unit Unit where
  messages := [⟨"user", .blocks [⟨"image", none, none, "", "", (), "", .string ""⟩]⟩]
  system := .none

/-- One stop sequence. -/
def oneStop : GeminiRequest Unit where
  contents := []
  stopSequences := ["END"]
  systemInstructions := none
  tools := ""

/-- A stop that is a number. -/
def numberStop : OpenAIRequest where
  model := "claude"
  messages := []
  tools := []
  maxTokens := 0
  maxCompletionTokens := 0
  reasoningEffort := ""
  reasoning := none
  stop := some (.arr [.num "1"])

/-- None of the converters returns. -/
theorem not_returns : ¬ ∀ (env : OpenAIEnv Unit) (openAI : OpenAIRequest)
    (encode : ClaudeRequest.Encode Unit Unit) (openRouterClaude : Bool)
    (claude : RawRequest Unit Unit) (geminiEnv : GeminiEnv Unit Unit Unit)
    (gemini : GeminiRequest Unit) (event : Claude2OpenAI.ClaudeResponse Unit),
    Returns (requestOpenAI2ClaudeMessage env openAI) ∨
      Returns (claudeToOpenAIRequest encode openRouterClaude claude) ∨
      Returns (geminiToOpenAIRequest geminiEnv gemini) ∨
      Claude2OpenAI.streamResponseClaude2OpenAI event ≠ none := by
  intro h
  rcases h ⟨⟨fun _ => none, fun _ => .error ""⟩, fun _ => 4096, fun _ => false, false, fun _ => 0,
    fun _ => .ok 0⟩ numberStop ⟨fun _ => "", fun _ => ""⟩ false bareImage
    ⟨fun _ => "", fun _ => none, fun _ => none, fun _ => none⟩ oneStop fragment with h | h | h | h
  · exact h rfl
  · exact h rfl
  · exact h rfl
  · exact h rfl

end DazeApi.Convert.Panics
