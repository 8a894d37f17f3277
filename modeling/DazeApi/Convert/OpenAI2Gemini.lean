import DazeApi.Convert.Transcript
import DazeApi.Relay.Scanner

/-!
# Chat completions for a client of Gemini

`ResponseOpenAI2Gemini` and `StreamResponseOpenAI2Gemini` (`service/convert.go`), and the stream
that `OaiStreamHandler` makes with them for such a client: it runs one chunk behind
(`handleGeminiFormat`), and the last chunk is converted after the stream (`HandleFinalResponse`,
`relay/channel/openai/helper.go`).  The role of a content and the empty safety ratings are left out,
which are the same in every candidate.
-/

namespace DazeApi.Convert.OpenAI2Gemini

/-- What `json.Unmarshal` makes of arguments, the map without entries, and the map that has a text
which is none under `arguments`. -/
structure Env (μ : Type) where
  unmarshal : String → Option μ
  empty : μ
  wrapped : String → μ

/-- `dto.GeminiPart`, of the two kinds that are made. -/
inductive GeminiPart (μ : Type)
  | text (s : String)
  | functionCall (functionName : String) (arguments : μ)

/-- `dto.GeminiChatCandidate`. -/
structure GeminiChatCandidate (μ : Type) where
  index : Int
  parts : List (GeminiPart μ)
  finishReason : Option String

/-- `dto.GeminiUsageMetadata`. -/
structure GeminiUsageMetadata where
  promptTokenCount : Int
  candidatesTokenCount : Int
  totalTokenCount : Int

/-- `dto.GeminiChatResponse`. -/
structure GeminiChatResponse (μ : Type) where
  candidates : List (GeminiChatCandidate μ)
  usageMetadata : GeminiUsageMetadata

/-- The switch on the finish reason. -/
def geminiFinishReason (reason : String) : String :=
  if reason = "stop" then "STOP"
  else if reason = "length" then "MAX_TOKENS"
  else if reason = "content_filter" then "SAFETY"
  else if reason = "tool_calls" then "STOP"
  else "STOP"

section

variable {μ : Type} (env : Env μ)

def args (arguments : String) : μ :=
  if arguments ≠ "" then (env.unmarshal arguments).getD (env.wrapped arguments) else env.empty

def callPart (toolCall : ToolCallResponse) : GeminiPart μ :=
  .functionCall toolCall.name (args env toolCall.arguments)

def textParts (textContent : String) : List (GeminiPart μ) :=
  if textContent ≠ "" then [.text textContent] else []

/-! ## Without a stream -/

/-- The body of the loop over the choices. -/
def candidateOf (choice : TextChoice) : GeminiChatCandidate μ where
  index := choice.index
  finishReason := some (geminiFinishReason choice.finishReason)
  parts :=
    if choice.message.toolCalls ≠ [] then choice.message.toolCalls.map (callPart env)
    else textParts choice.message.content.stringContent

def responseOpenAI2Gemini (r : TextResponse) : GeminiChatResponse μ where
  candidates := r.choices.map (candidateOf env)
  usageMetadata :=
    ⟨r.usage.promptTokens, r.usage.completionTokens, r.usage.promptTokens + r.usage.completionTokens⟩

/-! ## A chunk of a stream -/

/-- A choice of a chunk; `tool_calls` may be there and have no elements. -/
structure StreamChoice extends Choice where
  emptyToolCalls : Bool

/-- `choice.Delta.ToolCalls != nil`. -/
def StreamChoice.givesCalls (choice : StreamChoice) : Bool :=
  choice.delta.toolCalls ≠ [] || choice.emptyToolCalls

/-- The counts of `dto.Usage` that are read. -/
structure StreamUsage where
  promptTokens : Int
  completionTokens : Int
  totalTokens : Int

/-- `dto.ChatCompletionsStreamResponse`. -/
structure StreamResponse where
  id : String
  model : String
  choices : List StreamChoice
  usage : Option StreamUsage

/-- The body of the loop over the choices. -/
def streamCandidate (choice : StreamChoice) : GeminiChatCandidate μ where
  index := choice.index
  finishReason := choice.finishReason.map geminiFinishReason
  parts :=
    if choice.givesCalls then choice.delta.toolCalls.map (callPart env)
    else textParts choice.delta.getContentString

def hasContent (r : StreamResponse) : Bool :=
  r.choices.any fun choice => choice.delta.getContentString ≠ "" || choice.delta.toolCalls ≠ []

def hasFinishReason (r : StreamResponse) : Bool :=
  r.choices.any fun choice => choice.finishReason.isSome

/-- `StreamResponseOpenAI2Gemini`, with what `GetEstimatePromptTokens` gives. -/
def streamResponseOpenAI2Gemini (estimate : Int) (r : StreamResponse) :
    Option (GeminiChatResponse μ) :=
  if !hasContent r && !hasFinishReason r then none
  else
    some {
      candidates := r.choices.map (streamCandidate env)
      usageMetadata :=
        match r.usage with
        | none => ⟨estimate, 0, estimate⟩
        | some usage => ⟨usage.promptTokens, usage.completionTokens, usage.totalTokens⟩ }

/-! ## The stream -/

/-- What `common.Unmarshal` reads out of a payload. -/
structure Codec where
  unmarshal : String → Option StreamResponse
  unmarshal_empty : unmarshal "" = none

/-- The variable of the data handler, and what is written. -/
structure Handler (μ : Type) where
  lastStreamData : String
  written : List (GeminiChatResponse μ)

variable (codec : Codec) (estimate : Int)

/-- `handleGeminiFormat`; `HandleFinalResponse` does the same with the last chunk. -/
def Handler.handleGeminiFormat (s : Handler μ) (data : String) : Handler μ :=
  match codec.unmarshal data with
  | none => s
  | some r => { s with written := s.written ++ (streamResponseOpenAI2Gemini env estimate r).toList }

/-- The data handler. -/
def Handler.handleData (s : Handler μ) (data : String) : Handler μ :=
  let s := if s.lastStreamData ≠ "" then s.handleGeminiFormat env codec estimate s.lastStreamData else s
  if data ≠ "" then { s with lastStreamData := data } else s

/-- `OaiStreamHandler`, for the payloads of the scanner. -/
def oaiStreamHandler (payloads : List String) : List (GeminiChatResponse μ) :=
  let s := payloads.foldl (Handler.handleData env codec estimate) ⟨"", []⟩
  (s.handleGeminiFormat env codec estimate s.lastStreamData).written

end

/-! ## What a client reads -/

/-- A candidate put together: its text, its calls with their arguments, and how it ends. -/
structure Reading (μ : Type) where
  text : String
  calls : List (String × μ)
  finishReason : Option String

def GeminiPart.text? {μ : Type} : GeminiPart μ → Option String
  | .text s => some s
  | .functionCall _ _ => none

def GeminiPart.call? {μ : Type} : GeminiPart μ → Option (String × μ)
  | .text _ => none
  | .functionCall name arguments => some (name, arguments)

/-- The candidates of an index. -/
def candidatesAt {μ : Type} (k : Int) (responses : List (GeminiChatResponse μ)) :
    List (GeminiChatCandidate μ) :=
  (responses.flatMap (·.candidates)).filter (·.index = k)

def join (texts : List String) : String := texts.foldl (· ++ ·) ""

/-- The candidate of an index, put together from what was received. -/
def read {μ : Type} (k : Int) (responses : List (GeminiChatResponse μ)) : Reading μ where
  text := join (((candidatesAt k responses).flatMap (·.parts)).filterMap (·.text?))
  calls := ((candidatesAt k responses).flatMap (·.parts)).filterMap (·.call?)
  finishReason := ((candidatesAt k responses).filterMap (·.finishReason)).getLast?

/-- The chunk that any client of the stream reads. -/
def StreamResponse.chunk (r : StreamResponse) : Chunk :=
  ⟨r.id, r.model, r.choices.map (·.toChoice), none⟩

/-- The choices of an index. -/
def choicesAt (k : Int) (chunks : List StreamResponse) : List StreamChoice :=
  (chunks.flatMap (·.choices)).filter (·.index = k)

/-- The fragments of its calls. -/
def fragmentsAt (k : Int) (chunks : List StreamResponse) : List ToolCallResponse :=
  (choicesAt k chunks).flatMap (·.delta.toolCalls)

/-- The chunks say what the choice of a whole answer says: put together, they have its text, its
calls and its end. -/
structure Tells (chunks : List StreamResponse) (c : TextChoice) : Prop where
  content : (transcript c.index (chunks.map (·.chunk))).content = c.message.content.stringContent
  calls : (transcript c.index (chunks.map (·.chunk))).calls.map
      (fun call => (call.2.name, call.2.arguments)) =
    c.message.toolCalls.map fun call => (call.name, call.arguments)
  finish : (transcript c.index (chunks.map (·.chunk))).finishReasons.getLast? = some c.finishReason

/-- Every call is sent in one fragment, and a text beside `tool_calls` exactly where there are
calls. -/
structure SentWhole (chunks : List StreamResponse) (c : TextChoice) : Prop where
  onePiece : ((fragmentsAt c.index chunks).map fun t => t.index.getD 0).Nodup
  texts : ∀ choice ∈ choicesAt c.index chunks, choice.delta.getContentString ≠ "" →
    (choice.givesCalls = true ↔ c.message.toolCalls ≠ [])

end DazeApi.Convert.OpenAI2Gemini
