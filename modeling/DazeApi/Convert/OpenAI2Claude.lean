import DazeApi.Convert.Chat

/-!
# From chat completions to Claude messages

`StreamResponseOpenAI2Claude` and `ResponseOpenAI2Claude` (`service/convert.go`).  The
stream converter is called on one chunk after the other, and keeps in `ClaudeConvertInfo`
which content blocks it has open: none, one of text or thinking, or the tool blocks from
`toolCallBaseIndex` on.  The first chunk has a branch of its own, which reads one tool
call and starts blocks itself.
-/

namespace DazeApi.Convert.OpenAI2Claude

/-- `dto.ClaudeUsage`. -/
structure ClaudeUsage where
  inputTokens : Int
  outputTokens : Int
  cacheCreationInputTokens : Int
  cacheReadInputTokens : Int
  cacheCreation : Option (Int × Int)
deriving DecidableEq, Repr

/-- `buildClaudeUsageFromOpenAIUsage`. -/
def buildClaudeUsageFromOpenAIUsage (u : Usage) : ClaudeUsage where
  inputTokens := u.promptTokens
  outputTokens := u.completionTokens
  cacheCreationInputTokens := u.cachedCreationTokens
  cacheReadInputTokens := u.cachedTokens
  cacheCreation :=
    if 0 < u.claudeCacheCreation5mTokens ∨ 0 < u.claudeCacheCreation1hTokens then
      some (u.claudeCacheCreation5mTokens, u.claudeCacheCreation1hTokens)
    else none

/-- The content block of a `content_block_start`; its text, thinking or input is empty. -/
inductive Block where
  | text
  | thinking
  | toolUse (id name : String)
deriving DecidableEq, Repr

/-- The delta of a `content_block_delta`. -/
inductive BlockDelta where
  | text (s : String)
  | thinking (s : String)
  | inputJson (s : String)
deriving DecidableEq, Repr

/-- `dto.ClaudeResponse`, in the forms of a stream. -/
inductive Event where
  | messageStart (id model : String) (inputTokens : Int)
  | contentBlockStart (index : Int) (block : Block)
  | contentBlockDelta (index : Int) (delta : BlockDelta)
  | contentBlockStop (index : Int)
  | messageDelta (usage : ClaudeUsage) (stopReason : String)
  | messageStop
deriving DecidableEq, Repr

/-- `OpenAIFinishReasonToClaudeStopReason`. -/
def stopReasonOpenAI2Claude (finishReason : String) : String :=
  match Text.toLower finishReason with
  | "stop" => "end_turn"
  | "stop_sequence" => "stop_sequence"
  | "length" | "max_tokens" => "max_tokens"
  | "content_filter" => "refusal"
  | "tool_calls" => "tool_use"
  | _ => finishReason

/-- `LastMessagesType`. -/
inductive LastMessage where
  | none
  | text
  | tools
  | thinking
deriving DecidableEq, Repr

/-- `RelayInfo` with its `ClaudeConvertInfo`.  `events` is what the calls so far have
returned, one after the other. -/
structure State where
  lastMessagesType : LastMessage
  index : Int
  usage : Option Usage
  finishReason : String
  done : Bool
  toolCallBaseIndex : Int
  toolCallMaxIndexOffset : Int
  sendResponseCount : Nat
  estimatePromptTokens : Int
  events : List Event
deriving DecidableEq, Repr

/-- The info of a request before its first chunk. -/
def initial (estimatePromptTokens : Int) (usage : Option Usage) : State where
  lastMessagesType := .none
  index := 0
  usage := usage
  finishReason := ""
  done := false
  toolCallBaseIndex := 0
  toolCallMaxIndexOffset := 0
  sendResponseCount := 0
  estimatePromptTokens := estimatePromptTokens
  events := []

namespace State

variable (s : State)

def emit (es : List Event) : State := { s with events := s.events ++ es }

/-- The stops of the blocks that are open. -/
def openStops : List Event :=
  match s.lastMessagesType with
  | .text | .thinking => [.contentBlockStop s.index]
  | .tools =>
      (List.range (s.toolCallMaxIndexOffset + 1).toNat).map fun (offset : Nat) =>
        .contentBlockStop (s.toolCallBaseIndex + offset)
  | .none => []

/-- `stopOpenBlocks`. -/
def stopOpenBlocks : State := s.emit s.openStops

/-- `stopOpenBlocksAndAdvance`. -/
def stopOpenBlocksAndAdvance : State :=
  match s.lastMessagesType with
  | .none => s
  | .tools =>
      { s.stopOpenBlocks with
        index := s.toolCallBaseIndex + s.toolCallMaxIndexOffset + 1
        toolCallBaseIndex := 0
        toolCallMaxIndexOffset := 0
        lastMessagesType := .none }
  | _ => { s.stopOpenBlocks with index := s.index + 1, lastMessagesType := .none }

/-- The end of the message, with the usage of the last chunk. -/
def finish (usage : Option Usage) : State :=
  let s := s.stopOpenBlocks
  let s :=
    match usage.or s.usage with
    | some u =>
        s.emit [.messageDelta (buildClaudeUsageFromOpenAIUsage u)
          (stopReasonOpenAI2Claude s.finishReason)]
    | none => s
  { s.emit [.messageStop] with done := true }

/-- The end of a call: the message ends if the choice has a finish reason. -/
def finishIf (choice : Choice) (usage : Option Usage) : State :=
  match choice.finish with
  | some reason => { s with finishReason := reason }.finish usage
  | none => s

/-! ## The first chunk -/

/-- The only tool call of the first chunk that is looked at. -/
def firstToolCall (t : ToolCallResponse) : State :=
  { s with
    lastMessagesType := .tools
    toolCallBaseIndex := 0
    toolCallMaxIndexOffset := 0 }.emit
    (.contentBlockStart 0 (.toolUse t.id t.name) ::
      if t.arguments ≠ "" then [.contentBlockDelta 0 (.inputJson t.arguments)] else [])

/-- A block of text or thinking that the first chunk starts. -/
def firstBlock (last : LastMessage) (block : Block) (delta : BlockDelta) : State :=
  let s := if s.lastMessagesType ≠ last then s.stopOpenBlocksAndAdvance else s
  { s with lastMessagesType := last }.emit
    [.contentBlockStart s.index block, .contentBlockDelta s.index delta]

/-- The reasoning or the content of the first chunk. -/
def firstText (d : Delta) : State :=
  if d.getReasoningContent ≠ "" then
    s.firstBlock .thinking .thinking (.thinking d.getReasoningContent)
  else if d.getContentString ≠ "" then s.firstBlock .text .text (.text d.getContentString)
  else s

/-- The first chunk of a stream. -/
def firstChunk (c : Chunk) : State :=
  let s := s.emit [.messageStart c.id c.model s.estimatePromptTokens]
  match c.choices with
  | [] => s
  | choice :: _ =>
      let s :=
        match choice.delta.toolCalls with
        | [] => s
        | t :: _ => s.firstToolCall t
      (s.firstText choice.delta).finishIf choice c.usage

/-! ## The other chunks -/

/-- The offset of a tool call at a position of its chunk. -/
def offsetOf (t : ToolCallResponse) (i : Nat) : Int := t.index.getD i

/-- The tool calls of a chunk with their offsets. -/
def offsets (ts : List ToolCallResponse) : List (Int × ToolCallResponse) :=
  ts.zipIdx.map fun p => (offsetOf p.1 p.2, p.1)

/-- The events of a tool call: a start where it has a name, and its arguments. -/
def toolEvents (base : Int) (p : Int × ToolCallResponse) : List Event :=
  (if p.2.name ≠ "" then [.contentBlockStart (base + p.1) (.toolUse p.2.id p.2.name)] else []) ++
    if p.2.arguments ≠ "" then [.contentBlockDelta (base + p.1) (.inputJson p.2.arguments)] else []

/-- The tool blocks begin, unless they are open. -/
def enterTools : State :=
  if s.lastMessagesType ≠ .tools then
    let s := s.stopOpenBlocksAndAdvance
    { s with
      toolCallBaseIndex := s.index
      toolCallMaxIndexOffset := 0
      lastMessagesType := .tools }
  else s

/-- The tool calls of a chunk, the tool blocks being open. -/
def sendToolCalls (ts : List ToolCallResponse) : State :=
  let maxOffset :=
    (offsets ts).foldl (fun m p => if m < p.1 then p.1 else m) s.toolCallMaxIndexOffset
  { s.emit ((offsets ts).flatMap (toolEvents s.toolCallBaseIndex)) with
    toolCallMaxIndexOffset := maxOffset
    index := s.toolCallBaseIndex + maxOffset }

/-- A block of text or thinking begins, unless it is open. -/
def enterBlock (last : LastMessage) (block : Block) : State :=
  if s.lastMessagesType ≠ last then
    let s := s.stopOpenBlocksAndAdvance
    { s with lastMessagesType := last }.emit [.contentBlockStart s.index block]
  else s

def sendDelta (delta : BlockDelta) : State := s.emit [.contentBlockDelta s.index delta]

/-- The reasoning or the content of a chunk without tool calls. -/
def sendText (d : Delta) : State :=
  if d.getReasoningContent ≠ "" then
    (s.enterBlock .thinking .thinking).sendDelta (.thinking d.getReasoningContent)
  else if d.getContentString ≠ "" then
    (s.enterBlock .text .text).sendDelta (.text d.getContentString)
  else s

/-- A chunk after the first.  The source tests `Done` here again, but a call that finds
it set has returned. -/
def nextChunk (c : Chunk) : State :=
  match c.choices with
  | [] => s
  | choice :: _ =>
      let s :=
        match choice.delta.toolCalls with
        | [] => s.sendText choice.delta
        | ts => s.enterTools.sendToolCalls ts
      s.finishIf choice c.usage

/-- `StreamResponseOpenAI2Claude`, after `SendResponseCount` was increased. -/
def streamResponseOpenAI2Claude (c : Chunk) : State :=
  let s := { s with sendResponseCount := s.sendResponseCount + 1 }
  if s.done then s
  else if s.sendResponseCount = 1 then s.firstChunk c
  else s.nextChunk c

end State

/-- The chunks of a stream, fed one by one. -/
def convert (s : State) (chunks : List Chunk) : State :=
  chunks.foldl State.streamResponseOpenAI2Claude s

/-! ## Without a stream -/

/-- The input of a `tool_use` block: an object, or the text that is none. -/
inductive Input (ω : Type) where
  | object (m : ω)
  | text (s : String)
deriving DecidableEq, Repr

/-- The content of a message. -/
inductive Content (ω : Type) where
  | text (s : String)
  | toolUse (id name : String) (input : Input ω)
deriving DecidableEq, Repr

/-- `dto.ClaudeResponse`, in the form of a message. -/
structure ClaudeMessage (ω : Type) where
  id : String
  model : String
  content : List (Content ω)
  stopReason : String
  usage : ClaudeUsage
deriving DecidableEq, Repr

section

variable {ω : Type} (unmarshal : String → Option ω)

/-- The input that a text of arguments is decoded to. -/
def inputOf (arguments : String) : Input ω :=
  match unmarshal arguments with
  | some m => .object m
  | none => .text arguments

/-- The content that one choice gives. -/
def choiceContent (choice : TextChoice) : List (Content ω) :=
  if choice.finishReason = "tool_calls" then
    choice.message.toolCalls.map fun t => .toolUse t.id t.name (inputOf unmarshal t.arguments)
  else [.text choice.message.content.stringContent]

/-- `ResponseOpenAI2Claude`. -/
def responseOpenAI2Claude (r : TextResponse) : ClaudeMessage ω where
  id := r.id
  model := r.model
  content := r.choices.flatMap (choiceContent unmarshal)
  stopReason :=
    r.choices.foldl (fun _ choice => stopReasonOpenAI2Claude choice.finishReason) ""
  usage := buildClaudeUsageFromOpenAIUsage r.usage

end

end DazeApi.Convert.OpenAI2Claude
