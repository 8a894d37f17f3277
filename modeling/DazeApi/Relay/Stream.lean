import DazeApi.Types.Error
import Mathlib.Data.List.AList

/-!
# Stream handlers

Two handlers that convert the event stream of an upstream while they forward it
to the client: `ClaudeStreamHandler` (`relay/channel/claude/relay-claude.go`) and
`OaiResponsesToChatStreamHandler` (`relay/channel/openai/chat_via_responses.go`).
A handler is given what the scanner hands to its callback, in order: the payloads
of the stream, and the pings that are sent to the client between them.  It
produces what was written to the client and the error it returns, if any.

Decoding a payload and rendering an outgoing event are parameters.  Usage
accounting is left out.
-/

namespace DazeApi.Relay

open DazeApi.Types

/-- One write to the client. -/
inductive Write where
  | ping
  | data (text : String)
deriving DecidableEq, Repr

def Write.isData : Write → Bool
  | .ping => false
  | .data _ => true

/-- What one attempt wrote to the client, and the error it ended with. -/
structure Delivery where
  writes : List Write
  err : Option NewAPIError
deriving DecidableEq, Repr

/-- The attempt wrote something of a response. -/
def Delivery.hasData (d : Delivery) : Bool := d.writes.any Write.isData

/-- `types.RelayFormat`, as far as the handlers distinguish it. -/
inductive RelayFormat where
  | openAI
  | claude
  | gemini
  | other
deriving DecidableEq, Repr

/-- What the scanner of a stream does next. -/
inductive StreamItem where
  | ping
  | data (payload : String)
deriving DecidableEq, Repr

/-! ## Status code mapping -/

/-- A value of the status code mapping of a channel, with `strconv.Atoi` of a text
and the conversion of an integral number done. -/
inductive MappingValue where
  | code (n : Int)
  | invalid
deriving DecidableEq, Repr

/-- `service.ResetStatusCode`, with the mapping decoded. -/
def resetStatusCode (mapping : List (String × MappingValue)) (e : NewAPIError) : NewAPIError :=
  if e.statusCode = 200 then e
  else
    match mapping.lookup (toString e.statusCode) with
    | some (.code n) => { e with statusCode := n }
    | _ => e

/-- What the helpers do with the error of a stream handler. -/
def Delivery.resetStatusCode (d : Delivery) (mapping : List (String × MappingValue)) : Delivery :=
  { d with err := d.err.map (Relay.resetStatusCode mapping) }

/-! ## Claude -/

/-- `types.ClaudeError`. -/
structure ClaudeError where
  type : String
  message : String
deriving DecidableEq, Repr

/-- `types.WithClaudeError`. -/
def withClaudeError (ce : ClaudeError) (statusCode : Int) : NewAPIError :=
  { err := ce.message, skipRetry := false, recordErrorLog := none,
    errorCode := if ce.type = "" then "upstream_error" else ce.type, statusCode := statusCode }

/-- `dto.ClaudeResponse`: the type of the event and `GetClaudeError`. -/
structure ClaudeResponse where
  type : String
  claudeError : Option ClaudeError
deriving DecidableEq, Repr

/-- Decoding and rendering.  The converter and the usage patch read what earlier
events left in `ClaudeResponseInfo`, so they are given the payloads so far. -/
structure ClaudeCodec where
  unmarshal : String → Except String ClaudeResponse
  patchUsage : List String → String → String
  toOpenAI : List String → String → String
  finalUsage : List String → String

/-- `FormatClaudeResponseInfo`, its result. -/
def formatClaudeResponseInfo (resp : ClaudeResponse) : Bool :=
  resp.type ∈ ["message_start", "content_block_delta", "message_delta", "content_block_start"]

/-- `helper.ClaudeChunkData`. -/
def claudeChunkData (resp : ClaudeResponse) (data : String) : List Write :=
  [.data ("event: " ++ resp.type ++ "\n"), .data ("data: " ++ data ++ "\n")]

section

variable (io : ClaudeCodec) (format : RelayFormat)

/-- `HandleStreamResponseData`: the writes for one payload, or the error. -/
def handleStreamResponseData (seen : List String) (data : String) :
    Except NewAPIError (List Write) :=
  match io.unmarshal data with
  | .error err => .error (newError err "bad_response_body" [])
  | .ok resp =>
      match resp.claudeError.filter (·.type ≠ "") with
      | some ce => .error (withClaudeError ce 500)
      | none =>
          match format with
          | .claude =>
              .ok (claudeChunkData resp
                (if resp.type = "message_delta" then io.patchUsage seen data else data))
          | .openAI =>
              if formatClaudeResponseInfo resp then .ok [.data ("data: " ++ io.toOpenAI seen data)]
              else .ok []
          | _ => .ok []

/-- `HandleStreamFinalResponse`. -/
def handleStreamFinalResponse (shouldIncludeUsage : Bool) (seen : List String) : List Write :=
  match format with
  | .openAI =>
      (if shouldIncludeUsage then [.data ("data: " ++ io.finalUsage seen)] else []) ++
        [.data "data: [DONE]"]
  | _ => []

/-- `ClaudeStreamHandler` after the payloads `seen`. -/
def claudeStreamFrom (shouldIncludeUsage : Bool) : List String → List StreamItem → Delivery
  | seen, [] => ⟨handleStreamFinalResponse io format shouldIncludeUsage seen, none⟩
  | seen, .ping :: items =>
      let d := claudeStreamFrom shouldIncludeUsage seen items
      ⟨.ping :: d.writes, d.err⟩
  | seen, .data payload :: items =>
      match handleStreamResponseData io format seen payload with
      | .error e => ⟨[], some e⟩
      | .ok ws =>
          let d := claudeStreamFrom shouldIncludeUsage (seen ++ [payload]) items
          ⟨ws ++ d.writes, d.err⟩

/-- `ClaudeStreamHandler`. -/
def claudeStreamHandler (shouldIncludeUsage : Bool) (items : List StreamItem) : Delivery :=
  claudeStreamFrom io format shouldIncludeUsage [] items

end

/-! ## Responses to chat -/

/-- `types.OpenAIError`, with `Code` as `WithOpenAIError` renders it: `none` for a
missing code, the text of any other. -/
structure OpenAIError where
  message : String
  type : String
  code : Option String
deriving DecidableEq, Repr

/-- `types.WithOpenAIError`. -/
def withOpenAIError (oe : OpenAIError) (statusCode : Int) : NewAPIError :=
  { err := oe.message, skipRetry := false, recordErrorLog := none,
    errorCode := oe.code.getD "unknown_error", statusCode := statusCode }

/-- `types.NewOpenAIError` of an error that is not itself a `NewAPIError`. -/
def newOpenAIError (err errorCode : String) (statusCode : Int) : NewAPIError :=
  withOpenAIError ⟨err, errorCode, some errorCode⟩ statusCode

/-- The item of an output event. -/
structure OutputItem where
  type : String
  id : String
  callId : String
  name : String
  arguments : String
deriving DecidableEq, Repr

/-- The response of an event: `Model`, `CreatedAt` and `GetOpenAIError`. -/
structure ResponseMeta where
  model : String
  createdAt : Int
  error : Option OpenAIError
deriving DecidableEq, Repr

/-- `dto.ResponsesStreamResponse`. -/
structure ResponsesEvent where
  type : String
  response : Option ResponseMeta
  delta : String
  item : Option OutputItem
  itemId : String
deriving DecidableEq, Repr

/-- The delta of a chat chunk, in the forms this handler builds. -/
inductive ChunkDelta where
  | start
  | content (text : String)
  | reasoning (text : String)
  | toolCall (index : Nat) (id name arguments : String)
  | stop (finishReason : String)
deriving DecidableEq, Repr

/-- `dto.ChatCompletionsStreamResponse`. -/
structure ChatChunk where
  id : String
  created : Int
  model : String
  delta : ChunkDelta
deriving DecidableEq, Repr

/-- Decoding, and writing a chunk in the format of the client.  A converter for
another format keeps state of its own between chunks, so `emit` is given the
chunks before; it fails when the client is gone. -/
structure ChatCodec where
  unmarshal : String → Option ResponsesEvent
  emit : List ChatChunk → ChatChunk → Except String (List String)
  finalUsage : List ChatChunk → Except String String

/-- The variables of `OaiResponsesToChatStreamHandler`, with the chunks that were
sent and what was written to the client. -/
structure ToChat where
  responseId : String
  createAt : Int
  model : String
  outputText : String
  sentStart : Bool
  sentStop : Bool
  sawToolCall : Bool
  streamErr : Option NewAPIError
  toolCallIndexByID : AList fun _ : String => Nat
  toolCallNameByID : AList fun _ : String => String
  toolCallArgsByID : AList fun _ : String => String
  toolCallNameSent : List String
  toolCallCanonicalIDByItemID : AList fun _ : String => String
  hasSentReasoningSummary : Bool
  needsReasoningSummarySeparator : Bool
  sent : List ChatChunk
  written : List Write

/-- The variables at the beginning. -/
def ToChat.start (responseId model : String) (createAt : Int) : ToChat where
  responseId := responseId
  createAt := createAt
  model := model
  outputText := ""
  sentStart := false
  sentStop := false
  sawToolCall := false
  streamErr := none
  toolCallIndexByID := ∅
  toolCallNameByID := ∅
  toolCallArgsByID := ∅
  toolCallNameSent := []
  toolCallCanonicalIDByItemID := ∅
  hasSentReasoningSummary := false
  needsReasoningSummarySeparator := false
  sent := []
  written := []

/-- The rest of a callback, which is not reached once a chunk could not be sent. -/
def ToChat.andThen (s : ToChat) (f : ToChat → ToChat) : ToChat :=
  if s.streamErr.isSome then s else f s

namespace ToChat

variable (io : ChatCodec)

/-- `sendChatChunk`, of a chunk with the current head. -/
def sendChatChunk (s : ToChat) (delta : ChunkDelta) : ToChat :=
  let chunk : ChatChunk := ⟨s.responseId, s.createAt, s.model, delta⟩
  match io.emit s.sent chunk with
  | .error err => { s with streamErr := some (newOpenAIError err "bad_response" 500) }
  | .ok texts =>
      { s with sent := s.sent ++ [chunk], written := s.written ++ texts.map Write.data }

/-- `sendStartIfNeeded`. -/
def sendStartIfNeeded (s : ToChat) : ToChat :=
  if s.sentStart then s
  else (s.sendChatChunk io .start).andThen fun s => { s with sentStart := true }

/-- The separator that `sendReasoningSummaryDelta` puts between two summaries. -/
def separate (s : ToChat) (delta : String) : String :=
  if !s.needsReasoningSummarySeparator then delta
  else if Text.hasPrefix delta "\n\n" then delta
  else if Text.hasPrefix delta "\n" then "\n" ++ delta
  else "\n\n" ++ delta

/-- `sendReasoningSummaryDelta`. -/
def sendReasoningSummaryDelta (s : ToChat) (delta : String) : ToChat :=
  if delta = "" then s
  else
    let delta := s.separate delta
    let s := { s with needsReasoningSummarySeparator := false }
    (s.sendStartIfNeeded io).andThen fun s =>
      (s.sendChatChunk io (.reasoning delta)).andThen fun s =>
        { s with hasSentReasoningSummary := true }

/-- `sendToolCallDelta`. -/
def sendToolCallDelta (s : ToChat) (callID name argsDelta : String) : ToChat :=
  if callID = "" then s
  else if s.outputText ≠ "" then s
  else
    (s.sendStartIfNeeded io).andThen fun s =>
      let idx := (s.toolCallIndexByID.lookup callID).getD s.toolCallIndexByID.keys.length
      let names := if name ≠ "" then s.toolCallNameByID.insert callID name else s.toolCallNameByID
      let known := (names.lookup callID).getD ""
      let name := if known ≠ "" then known else name
      let sendName : Bool := name ≠ "" ∧ callID ∉ s.toolCallNameSent
      let s :=
        { s with
          toolCallIndexByID := s.toolCallIndexByID.insert callID idx
          toolCallNameByID := names
          toolCallNameSent :=
            if sendName then callID :: s.toolCallNameSent else s.toolCallNameSent }
      (s.sendChatChunk io
          (.toolCall idx callID (if sendName then name else "") argsDelta)).andThen fun s =>
        { s with sawToolCall := true }

/-- The stop chunk, once. -/
def sendStopIfNeeded (s : ToChat) : ToChat :=
  if s.sentStop then s
  else
    let finishReason := if s.sawToolCall ∧ s.outputText = "" then "tool_calls" else "stop"
    (s.sendChatChunk io (.stop finishReason)).andThen fun s => { s with sentStop := true }

/-- The head of the chunks after `response.created` and `response.completed`. -/
def setHead (s : ToChat) : Option ResponseMeta → ToChat
  | none => s
  | some r =>
      { s with
        model := if r.model ≠ "" then r.model else s.model
        createAt := if r.createdAt ≠ 0 then r.createdAt else s.createAt }

/-- `response.output_item.added` and `response.output_item.done`. -/
def onOutputItem (s : ToChat) (item : OutputItem) : ToChat :=
  if item.type ≠ "function_call" then s
  else
    let itemID := Text.trimSpace item.id
    let callID :=
      if Text.trimSpace item.callId = "" then itemID else Text.trimSpace item.callId
    let name := Text.trimSpace item.name
    let prevArgs := (s.toolCallArgsByID.lookup callID).getD ""
    let argsDelta :=
      if Text.hasPrefix item.arguments prevArgs then Text.dropPrefix item.arguments prevArgs
      else item.arguments
    let s :=
      { s with
        toolCallCanonicalIDByItemID :=
          if itemID ≠ "" ∧ callID ≠ "" then s.toolCallCanonicalIDByItemID.insert itemID callID
          else s.toolCallCanonicalIDByItemID
        toolCallNameByID :=
          if name ≠ "" then s.toolCallNameByID.insert callID name else s.toolCallNameByID
        toolCallArgsByID :=
          if item.arguments ≠ "" then s.toolCallArgsByID.insert callID item.arguments
          else s.toolCallArgsByID }
    s.sendToolCallDelta io callID name (if item.arguments ≠ "" then argsDelta else "")

/-- The call that an item belongs to. -/
def canonicalID (s : ToChat) (itemID : String) : String :=
  let callID := (s.toolCallCanonicalIDByItemID.lookup itemID).getD ""
  if callID = "" then itemID else callID

/-- `response.function_call_arguments.delta`. -/
def onArgumentsDelta (s : ToChat) (itemId delta : String) : ToChat :=
  let callID := s.canonicalID (Text.trimSpace itemId)
  if callID = "" then s
  else
    let args := (s.toolCallArgsByID.lookup callID).getD "" ++ delta
    { s with toolCallArgsByID := s.toolCallArgsByID.insert callID args }.sendToolCallDelta io
      callID "" delta

/-- The error of `response.error` and `response.failed`. -/
def eventError (ev : ResponsesEvent) : NewAPIError :=
  match (ev.response.bind (·.error)).filter (·.type ≠ "") with
  | some oe => withOpenAIError oe 500
  | none => newOpenAIError ("responses stream error: " ++ ev.type) "bad_response" 500

/-- The callback on one decoded event. -/
def onEvent (s : ToChat) (ev : ResponsesEvent) : ToChat :=
  match ev.type with
  | "response.created" => s.setHead ev.response
  | "response.reasoning_summary_text.delta" => s.sendReasoningSummaryDelta io ev.delta
  | "response.reasoning_summary_text.done" =>
      if s.hasSentReasoningSummary then { s with needsReasoningSummarySeparator := true } else s
  | "response.output_text.delta" =>
      (s.sendStartIfNeeded io).andThen fun s =>
        if ev.delta ≠ "" then
          { s with outputText := s.outputText ++ ev.delta }.sendChatChunk io (.content ev.delta)
        else s
  | "response.output_item.added" | "response.output_item.done" =>
      match ev.item with
      | none => s
      | some item => s.onOutputItem io item
  | "response.function_call_arguments.delta" => s.onArgumentsDelta io ev.itemId ev.delta
  | "response.completed" =>
      ((s.setHead ev.response).sendStartIfNeeded io).andThen fun s => s.sendStopIfNeeded io
  | "response.error" | "response.failed" => { s with streamErr := some (eventError ev) }
  | _ => s

/-- The scan: a payload that does not decode is skipped, and nothing is read after
an error. -/
def scan : ToChat → List StreamItem → ToChat
  | s, [] => s
  | s, .ping :: items => scan { s with written := s.written ++ [.ping] } items
  | s, .data payload :: items =>
      match io.unmarshal payload with
      | none => scan s items
      | some ev =>
          let s' := s.onEvent io ev
          if s'.streamErr.isSome then s' else scan s' items

/-- What is sent after the stream has ended. -/
def finish (format : RelayFormat) (shouldIncludeUsage : Bool) (s : ToChat) : ToChat :=
  (if s.sentStart then s else s.sendChatChunk io .start).andThen fun s =>
    (s.sendStopIfNeeded io).andThen fun s =>
      if format = .openAI then
        if shouldIncludeUsage then
          match io.finalUsage s.sent with
          | .error err => { s with streamErr := some (newOpenAIError err "bad_response" 500) }
          | .ok text => { s with written := s.written ++ [.data text, .data "data: [DONE]"] }
        else { s with written := s.written ++ [.data "data: [DONE]"] }
      else s

end ToChat

/-- `OaiResponsesToChatStreamHandler`. -/
def oaiResponsesToChatStreamHandler (io : ChatCodec) (format : RelayFormat)
    (shouldIncludeUsage : Bool) (s : ToChat) (items : List StreamItem) : Delivery :=
  let s' := (s.scan io items).andThen fun s => s.finish io format shouldIncludeUsage
  ⟨s'.written, s'.streamErr⟩

end DazeApi.Relay
