import DazeApi.Convert.Chat

/-!
# From Claude messages to chat completions

`StreamResponseClaude2OpenAI` and `ResponseClaude2OpenAI`
(`relay/channel/claude/relay-claude.go`).  The input of a tool call is a decoded JSON
value, of a type `ω`, that `json.Marshal` writes as a text.
-/

namespace DazeApi.Convert.Claude2OpenAI

/-- `dto.ClaudeMediaMessage`. -/
structure ClaudeMediaMessage (ω : Type) where
  type : String
  text : Option String
  thinking : Option String
  partialJson : Option String
  stopReason : Option String
  id : String
  model : String
  name : String
  input : Option ω
deriving DecidableEq, Repr

/-- `dto.ClaudeResponse`: an event of a stream, or a message. -/
structure ClaudeResponse (ω : Type) where
  id : String
  type : String
  model : String
  content : List (ClaudeMediaMessage ω)
  stopReason : String
  index : Option Int
  contentBlock : Option (ClaudeMediaMessage ω)
  delta : Option (ClaudeMediaMessage ω)
  message : Option (ClaudeMediaMessage ω)
deriving DecidableEq, Repr

/-- `ClaudeStopReasonToOpenAIFinishReason`. -/
def stopReasonClaude2OpenAI (stopReason : String) : String :=
  match Text.toLower stopReason with
  | "stop_sequence" | "end_turn" => "stop"
  | "max_tokens" => "length"
  | "tool_use" => "tool_calls"
  | "refusal" => "content_filter"
  | _ => stopReason

section

variable {ω : Type}

/-- The index of a tool call: the blocks are taken to begin with one that is none. -/
def ClaudeResponse.fcIdx (r : ClaudeResponse ω) : Int :=
  match r.index with
  | some i => if i - 1 < 0 then 0 else i - 1
  | none => 0

/-- The chunk with one choice; beside tool calls it has no content. -/
def chunkOf (id model role : String) (content reasoningContent : Option String)
    (tools : List ToolCallResponse) (finishReason : Option String) : Chunk where
  id := id
  model := model
  choices :=
    [{ index := 0
       delta :=
        { role := role
          content := if tools ≠ [] then none else content
          reasoningContent := reasoningContent
          reasoning := none
          toolCalls := tools }
       finishReason := finishReason }]
  usage := none

/-- `StreamResponseClaude2OpenAI`.  The outer `none` is the panic of an
`input_json_delta` without `partial_json`, the inner one an event that gives no chunk. -/
def streamResponseClaude2OpenAI (r : ClaudeResponse ω) : Option (Option Chunk) :=
  match r.type with
  | "message_start" =>
      let (id, model) :=
        match r.message with
        | some m => (m.id, m.model)
        | none => ("", r.model)
      some (some (chunkOf id model "assistant" (some "") none [] none))
  | "content_block_start" =>
      match r.contentBlock with
      | some b =>
          let tools :=
            if b.type = "tool_use" then [⟨some r.fcIdx, b.id, b.name, ""⟩] else []
          some (some (chunkOf "" r.model "" (if b.type = "text" then b.text else none) none tools
            none))
      | none => some none
  | "content_block_delta" =>
      match r.delta with
      | some d =>
          match d.type with
          | "input_json_delta" =>
              d.partialJson.map fun arguments =>
                some (chunkOf "" r.model "" d.text none [⟨some r.fcIdx, "", "", arguments⟩] none)
          | "signature_delta" => some (some (chunkOf "" r.model "" d.text (some "\n") [] none))
          | "thinking_delta" => some (some (chunkOf "" r.model "" d.text d.thinking [] none))
          | _ => some (some (chunkOf "" r.model "" d.text none [] none))
      | none => some (some (chunkOf "" r.model "" none none [] none))
  | "message_delta" =>
      let finishReason :=
        ((r.delta.bind (·.stopReason)).map stopReasonClaude2OpenAI).filter (· ≠ "null")
      some (some (chunkOf "" r.model "" none none [] finishReason))
  | _ => some none

/-- The chunks of a stream. -/
def streamChunks (events : List (ClaudeResponse ω)) : Option (List Chunk) :=
  (events.mapM streamResponseClaude2OpenAI).map fun chunks => chunks.filterMap id

/-- The texts and tools of a message, block by block. -/
structure Collected where
  responseText : String
  thinkingContent : String
  tools : List ToolCallResponse
deriving DecidableEq, Repr

variable (marshal : Option ω → String)

def Collected.add (acc : Collected) (m : ClaudeMediaMessage ω) : Collected :=
  match m.type with
  | "tool_use" =>
      { acc with tools := acc.tools ++ [⟨none, m.id, m.name, marshal m.input⟩] }
  | "thinking" =>
      match m.thinking with
      | some s => { acc with thinkingContent := s }
      | none => acc
  | "text" => { acc with responseText := m.text.getD "" }
  | _ => acc

/-- `ResponseClaude2OpenAI`. -/
def responseClaude2OpenAI (r : ClaudeResponse ω) : TextResponse :=
  let responseText :=
    match r.content with
    | m :: _ => m.text.getD ""
    | [] => ""
  let all := r.content.foldl (Collected.add marshal) ⟨responseText, "", []⟩
  { id := r.id
    model := r.model
    choices :=
      [{ index := 0
         message :=
          { content := .text all.responseText
            reasoningContent := all.thinkingContent
            toolCalls := all.tools }
         finishReason := stopReasonClaude2OpenAI r.stopReason }]
    usage := ⟨0, 0, 0, 0, 0, 0⟩ }

end

end DazeApi.Convert.Claude2OpenAI
