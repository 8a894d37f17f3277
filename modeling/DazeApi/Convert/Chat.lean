import DazeApi.Lib.Text

/-!
# Chat completions

`dto.ChatCompletionsStreamResponse` and `dto.OpenAITextResponse`
(`dto/openai_response.go`, `dto/openai_request.go`), as the converters between the
formats of the providers read and build them.  The object names, the fingerprint and the
log probabilities are left out, since no converter reads them.
-/

namespace DazeApi.Convert

/-- `dto.Usage`, the counts that are converted. -/
structure Usage where
  promptTokens : Int
  completionTokens : Int
  cachedTokens : Int
  cachedCreationTokens : Int
  claudeCacheCreation5mTokens : Int
  claudeCacheCreation1hTokens : Int
deriving DecidableEq, Repr

/-- `dto.ToolCallResponse`, with its function.  In a stream it is a fragment of a tool
call. -/
structure ToolCallResponse where
  index : Option Int
  id : String
  name : String
  arguments : String
deriving DecidableEq, Repr

/-- `dto.ChatCompletionsStreamResponseChoiceDelta`. -/
structure Delta where
  role : String
  content : Option String
  reasoningContent : Option String
  reasoning : Option String
  toolCalls : List ToolCallResponse
deriving DecidableEq, Repr

/-- `GetContentString`. -/
def Delta.getContentString (d : Delta) : String := d.content.getD ""

/-- `GetReasoningContent`. -/
def Delta.getReasoningContent (d : Delta) : String := (d.reasoningContent.or d.reasoning).getD ""

/-- `dto.ChatCompletionsStreamResponseChoice`. -/
structure Choice where
  index : Int
  delta : Delta
  finishReason : Option String
deriving DecidableEq, Repr

/-- The reason of a choice with which the stream ends; an empty text is none. -/
def Choice.finish (c : Choice) : Option String := c.finishReason.filter (· ≠ "")

/-- `dto.ChatCompletionsStreamResponse`. -/
structure Chunk where
  id : String
  model : String
  choices : List Choice
  usage : Option Usage
deriving DecidableEq, Repr

/-- The content of a message: a text, a list of media with their types and texts, or
none. -/
inductive MessageContent where
  | text (s : String)
  | media (parts : List (String × Option String))
  | null
deriving DecidableEq, Repr

/-- `StringContent`. -/
def MessageContent.stringContent : MessageContent → String
  | .text s => s
  | .media parts =>
      parts.foldl (fun acc part => if part.1 = "text" then acc ++ part.2.getD "" else acc) ""
  | .null => ""

/-- `dto.Message`, with its tool calls decoded. -/
structure Message where
  content : MessageContent
  reasoningContent : String
  toolCalls : List ToolCallResponse
deriving DecidableEq, Repr

/-- `dto.OpenAITextResponseChoice`. -/
structure TextChoice where
  index : Int
  message : Message
  finishReason : String
deriving DecidableEq, Repr

/-- `dto.OpenAITextResponse`. -/
structure TextResponse where
  id : String
  model : String
  choices : List TextChoice
  usage : Usage
deriving DecidableEq, Repr

end DazeApi.Convert
