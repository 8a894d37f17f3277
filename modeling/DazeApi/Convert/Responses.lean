import DazeApi.Convert.Transcript
import DazeApi.Relay.Stream

/-!
# From Responses to chat

`ResponsesResponseToChatCompletionsResponse` (`service/openaicompat/responses_to_chat.go`)
converts a whole response, and the stream handler of `DazeApi.Relay.Stream` the events that
describe one.  The events of an output item come one after the other: the item is added,
with some of its arguments perhaps, more of them follow as deltas or its text does, and the
item is done.  The events of several items may be mixed in any way.

Usage is left out, and so are the id, the model and the time of the response, which both
sides take over.
-/

namespace DazeApi.Convert.Responses

open DazeApi.Relay

/-! ## The response -/

/-- `dto.ResponsesOutputContent`. -/
structure ResponsesOutputContent where
  type : String
  text : String
deriving DecidableEq, Repr

/-- `dto.ResponsesOutput`. -/
structure ResponsesOutput extends OutputItem where
  role : String
  content : List ResponsesOutputContent
deriving DecidableEq, Repr

/-- `dto.OpenAIResponsesResponse`. -/
structure OpenAIResponsesResponse where
  output : List ResponsesOutput
deriving DecidableEq, Repr

/-- The texts that the first loop of `ExtractOutputTextFromResponses` writes for an item. -/
def assistantText (out : ResponsesOutput) : String :=
  if out.type ≠ "message" then ""
  else if out.role ≠ "" ∧ out.role ≠ "assistant" then ""
  else Text.concat ((out.content.filter (·.type = "output_text")).map (·.text))

/-- The texts that the second loop writes. -/
def anyText (out : ResponsesOutput) : String := Text.concat (out.content.map (·.text))

/-- `ExtractOutputTextFromResponses`. -/
def extractOutputText (resp : OpenAIResponsesResponse) : String :=
  let text := Text.concat (resp.output.map assistantText)
  if text ≠ "" then text else Text.concat (resp.output.map anyText)

/-- The id of the call of an item. -/
def callId (out : OutputItem) : String :=
  if Text.trimSpace out.callId = "" then Text.trimSpace out.id else Text.trimSpace out.callId

/-- The name of the call of an item. -/
def callName (out : OutputItem) : String := Text.trimSpace out.name

/-- `out.Type == "function_call"`. -/
def isCall (out : OutputItem) : Bool := out.type = "function_call"

/-- The tool calls of a response without text. -/
def toolCalls (resp : OpenAIResponsesResponse) : List ToolCallResponse :=
  (resp.output.filter fun out => isCall out.toOutputItem && callName out.toOutputItem ≠ "").map
    fun out => ⟨none, callId out.toOutputItem, callName out.toOutputItem, out.arguments⟩

/-- The choice of `ResponsesResponseToChatCompletionsResponse`. -/
def responsesResponseToChatCompletionsResponse (resp : OpenAIResponsesResponse) : TextChoice :=
  let text := extractOutputText resp
  let calls := if text = "" then toolCalls resp else []
  { index := 0
    message := ⟨.text (if calls = [] then text else ""), "", calls⟩
    finishReason := if calls = [] then "stop" else "tool_calls" }

/-! ## The events of a response -/

/-- What an event says of an item. -/
inductive Piece where
  | added (arguments : String)
  | arguments (delta : String)
  | text (delta : String)
  | done
deriving DecidableEq, Repr

/-- A piece with its item and the place of the item in the response. -/
structure Step where
  pos : Nat
  item : ResponsesOutput
  piece : Piece
deriving DecidableEq, Repr

/-- The event of a step. -/
def Step.event (st : Step) : ResponsesEvent :=
  match st.piece with
  | .added args =>
      ⟨"response.output_item.added", none, "",
        some { st.item.toOutputItem with arguments := args }, ""⟩
  | .arguments delta =>
      ⟨"response.function_call_arguments.delta", none, delta, none, st.item.id⟩
  | .text delta => ⟨"response.output_text.delta", none, delta, none, st.item.id⟩
  | .done => ⟨"response.output_item.done", none, "", some st.item.toOutputItem, ""⟩

/-- `response.completed`. -/
def completed (resp : Option ResponseMeta) : ResponsesEvent :=
  ⟨"response.completed", resp, "", none, ""⟩

/-- The text of a message that is streamed. -/
def outputText (out : ResponsesOutput) : String :=
  if out.type = "message" then
    Text.concat ((out.content.filter (·.type = "output_text")).map (·.text))
  else ""

/-- The pieces of an item: the arguments of a call are split into what the item begins
with, the deltas and what only its end has, and the text of a message into deltas. -/
def Track (out : ResponsesOutput) (ps : List Piece) : Prop :=
  if isCall out.toOutputItem then
    ∃ args deltas, ps = .added args :: (deltas.map .arguments ++ [.done]) ∧
      Text.hasPrefix out.arguments (args ++ Text.concat deltas) = true
  else if out.type = "message" then
    ∃ args deltas, ps = .added args :: (deltas.map .text ++ [.done]) ∧
      Text.concat deltas = outputText out
  else ∃ args, ps = [.added args, .done]

/-- The pieces of the item at a place. -/
def piecesAt (pos : Nat) (steps : List Step) : List Piece :=
  (steps.filter (·.pos = pos)).map (·.piece)

/-- The steps describe the response, in which neither two calls nor the items of two calls
share an id. -/
structure Describes (resp : OpenAIResponsesResponse) (steps : List Step) : Prop where
  listed : ∀ st ∈ steps, resp.output[st.pos]? = some st.item
  track : ∀ pos out, resp.output[pos]? = some out → Track out (piecesAt pos steps)
  calls : ∀ (i j : Nat) (x y : ResponsesOutput), resp.output[i]? = some x →
    resp.output[j]? = some y → isCall x.toOutputItem = true → isCall y.toOutputItem = true →
      callId x.toOutputItem = callId y.toOutputItem → callId x.toOutputItem ≠ "" → i = j
  ids : ∀ (i j : Nat) (x y : ResponsesOutput), resp.output[i]? = some x →
    resp.output[j]? = some y → isCall x.toOutputItem = true → isCall y.toOutputItem = true →
      Text.trimSpace x.id = Text.trimSpace y.id → Text.trimSpace x.id ≠ "" → i = j

/-- The events that describe a response or end its stream. -/
def carries (ev : ResponsesEvent) : Bool :=
  ev.type ∈ ["response.output_text.delta", "response.output_item.added",
    "response.output_item.done", "response.function_call_arguments.delta", "response.completed",
    "response.error", "response.failed"]

/-- The events of what the scanner gives to the handler. -/
def decoded (io : ChatCodec) (items : List StreamItem) : List ResponsesEvent :=
  items.filterMap fun
    | .ping => none
    | .data payload => io.unmarshal payload

/-- The stream has the events of the steps and ends with `response.completed`.  Between them
there may be events of other kinds. -/
def Streams (io : ChatCodec) (steps : List Step) (items : List StreamItem) : Prop :=
  ∃ resp, (decoded io items).filter carries = steps.map Step.event ++ [completed resp]

/-! ## The chat stream -/

/-- The chunk as a client reads it. -/
def toChunk (c : ChatChunk) : Chunk :=
  let choice : Choice :=
    match c.delta with
    | .start => ⟨0, ⟨"assistant", some "", none, none, []⟩, none⟩
    | .content text => ⟨0, ⟨"", some text, none, none, []⟩, none⟩
    | .reasoning text => ⟨0, ⟨"", none, some text, none, []⟩, none⟩
    | .toolCall index id name args =>
        ⟨0, ⟨"", none, none, none, [⟨some index, id, name, args⟩]⟩, none⟩
    | .stop reason => ⟨0, ⟨"", none, none, none, []⟩, some reason⟩
  ⟨c.id, c.model, [choice], none⟩

/-- The chunks that `OaiResponsesToChatStreamHandler` has sent, put together. -/
def streamed (io : ChatCodec) (format : RelayFormat) (shouldIncludeUsage : Bool) (s : ToChat)
    (items : List StreamItem) : Transcript :=
  let s' := (s.scan io items).andThen fun s => s.finish io format shouldIncludeUsage
  transcript 0 (s'.sent.map toChunk)

/-- The stream has the text, the tool calls and the finish reason of the response, and every
call in it has the full arguments of its item. -/
structure Agrees (resp : OpenAIResponsesResponse) (tr : Transcript) (choice : TextChoice) :
    Prop where
  content : tr.content = choice.message.content.stringContent
  calls : tr.calls.map Prod.snd = choice.message.toolCalls.map fun t => ⟨t.id, t.name, t.arguments⟩
  finishReasons : tr.finishReasons = [choice.finishReason]
  arguments : ∀ call ∈ tr.calls, ∃ out ∈ resp.output, isCall out.toOutputItem = true ∧
    callId out.toOutputItem = call.2.id ∧ call.2.arguments = out.arguments

end DazeApi.Convert.Responses
