import DazeApi.Lib.Text

/-!
# Messages of a chat request

`dto.Message` (`dto/openai_request.go`), as the converters between the formats of requests read
and build it.  A content that is neither a string nor a list is none, and a list is what
`ParseContent` makes of it.
-/

namespace DazeApi.Convert

/-- `dto.MediaContent`; of other media only the type is read. -/
inductive MediaContent where
  | text (text : String)
  | imageUrl (url detail mimeType : String)
  | other (type : String)
deriving DecidableEq

/-- `dto.ToolCallRequest`, with its function. -/
structure ToolCallRequest where
  id : String
  type : String
  name : String
  arguments : String
deriving DecidableEq

inductive RequestContent where
  | none
  | string (s : String)
  | media (contents : List MediaContent)
deriving DecidableEq

/-- `ParseContent`. -/
def RequestContent.parse : RequestContent → List MediaContent
  | .none => []
  | .string s => [.text s]
  | .media contents => contents

def RequestContent.isString : RequestContent → Bool
  | .string _ => true
  | _ => false

def MediaContent.texts : MediaContent → List String
  | .text s => [s]
  | _ => []

/-- `StringContent`. -/
def RequestContent.stringContent : RequestContent → String
  | .none => ""
  | .string s => s
  | .media contents => Text.concat (contents.flatMap MediaContent.texts)

/-- `dto.Message`, with its tool calls decoded. -/
structure RequestMessage where
  role : String
  content : RequestContent
  name : Option String
  toolCalls : List ToolCallRequest
  toolCallId : String
deriving DecidableEq

/-- A message with neither content nor tool calls is left out. -/
def RequestMessage.sent (m : RequestMessage) : List RequestMessage :=
  if m.content.parse ≠ [] ∨ m.toolCalls ≠ [] then [m] else []

/-- The texts of a message. -/
def RequestMessage.texts (m : RequestMessage) : List String :=
  m.content.parse.flatMap MediaContent.texts

end DazeApi.Convert
