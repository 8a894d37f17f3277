import DazeApi.Convert.Chat

/-!
# Chat completions from Gemini

`relay/channel/gemini/relay-gemini.go`: `responseGeminiChat2OpenAI` turns a whole answer of
Gemini into a chat completion, and `GeminiChatStreamHandler` with
`streamResponseGeminiChat2OpenAI` turns it into chunks, one event at a time.

A text is kept with the part that it is the text of, and a text that is joined from several
as the list that is joined.  `json.Marshal` of the arguments of a function call and the UUID
that is drawn for the call stand with the call.  The head of a chunk and the usage are left
out, and the usage chunk at the end has no choice.
-/

namespace DazeApi.Convert.Gemini

/-! ## Answers of Gemini -/

/-- `dto.GeminiInlineData`. -/
structure InlineData where
  mimeType : String
  data : String
deriving DecidableEq, Repr

/-- `dto.FunctionCall`.  `arguments` is the JSON of the arguments, if they have one, and
`uuid` is what `GetUUID` gives when the call is converted. -/
structure FunctionCall where
  functionName : String
  arguments : Option String
  uuid : String
deriving DecidableEq, Repr

/-- `dto.GeminiPartExecutableCode`. -/
structure ExecutableCode where
  language : String
  code : String
deriving DecidableEq, Repr

/-- `dto.GeminiPartCodeExecutionResult`. -/
structure CodeExecutionResult where
  output : String
deriving DecidableEq, Repr

/-- `dto.GeminiPart`. -/
structure Part where
  text : String
  thought : Bool
  inlineData : Option InlineData
  functionCall : Option FunctionCall
  executableCode : Option ExecutableCode
  codeExecutionResult : Option CodeExecutionResult
deriving DecidableEq, Repr

/-- `dto.GeminiChatCandidate`. -/
structure Candidate where
  parts : List Part
  finishReason : Option String
  index : Int
deriving DecidableEq, Repr

/-- The candidate has a function call. -/
def Candidate.HasCall (c : Candidate) : Prop := ∃ part ∈ c.parts, part.functionCall.isSome = true

instance (c : Candidate) : Decidable c.HasCall :=
  inferInstanceAs (Decidable (∃ part ∈ c.parts, part.functionCall.isSome = true))

/-! ## Texts -/

/-- A text with the part it is the text of. -/
structure Shown where
  part : Part
  text : String
deriving DecidableEq, Repr

/-- `strings.Join(texts, "\n")`. -/
def joined (texts : List Shown) : String := "\n".intercalate (texts.map (·.text))

def InlineData.image (media : InlineData) : String :=
  "![image](data:" ++ media.mimeType ++ ";base64," ++ media.data ++ ")"

def InlineData.link (media : InlineData) : String :=
  "[media](data:" ++ media.mimeType ++ ";base64," ++ media.data ++ ")"

def ExecutableCode.block (code : ExecutableCode) : String :=
  "```" ++ code.language ++ "\n" ++ code.code ++ "\n```"

def CodeExecutionResult.block (result : CodeExecutionResult) : String :=
  "```output\n" ++ result.output ++ "\n```"

/-! ## Function calls and finish reasons -/

/-- The id of a tool call. -/
def callId (call : FunctionCall) : String := "call_" ++ call.uuid

/-- `getResponseToolCall`. -/
def getResponseToolCall (call : FunctionCall) : Option ToolCallResponse :=
  call.arguments.map fun args => ⟨none, callId call, call.functionName, args⟩

def finishReasonStop : String := "stop"

def finishReasonToolCalls : String := "tool_calls"

def finishReasonLength : String := "length"

def finishReasonContentFilter : String := "content_filter"

/-- The switch on the reason of a candidate: the safety reasons and those that are not known
are one. -/
def mapFinishReason (reason : String) : String :=
  if reason = "STOP" then finishReasonStop
  else if reason = "MAX_TOKENS" then finishReasonLength
  else finishReasonContentFilter

/-! ## Without a stream -/

/-- `dto.OpenAITextResponseChoice` with its message.  The reasoning is the text of one part,
or empty. -/
structure TextChoice where
  index : Int
  reasoningContent : List Shown
  content : List Shown
  toolCalls : List ToolCallResponse
  finishReason : String
deriving DecidableEq, Repr

def TextChoice.append (choice : TextChoice) (part : Part) (text : String) : TextChoice :=
  { choice with content := choice.content ++ [⟨part, text⟩] }

/-- The body of the loop over the parts. -/
def TextChoice.addPart (choice : TextChoice) (part : Part) : TextChoice :=
  match part.inlineData with
  | some media =>
      choice.append part
        (if Text.hasPrefix media.mimeType "image" then media.image else media.link)
  | none =>
      match part.functionCall with
      | some call =>
          { choice with
            finishReason := finishReasonToolCalls
            toolCalls := choice.toolCalls ++ (getResponseToolCall call).toList }
      | none =>
          if part.thought then { choice with reasoningContent := [⟨part, part.text⟩] }
          else
            match part.executableCode with
            | some code => choice.append part code.block
            | none =>
                match part.codeExecutionResult with
                | some result => choice.append part result.block
                | none => if part.text ≠ "\n" then choice.append part part.text else choice

/-- A choice before the finish reason of its candidate is looked at. -/
def scanned (candidate : Candidate) : TextChoice :=
  candidate.parts.foldl TextChoice.addPart ⟨candidate.index, [], [], [], finishReasonStop⟩

/-- The body of the loop over the candidates; `isToolCall` is declared outside of it. -/
def addCandidate (s : Bool × List TextChoice) (candidate : Candidate) : Bool × List TextChoice :=
  let choice := scanned candidate
  let isToolCall := s.1 || decide (choice.toolCalls ≠ [])
  let finishReason := (candidate.finishReason.map mapFinishReason).getD choice.finishReason
  (isToolCall,
    s.2 ++ [{ choice with
      finishReason := if isToolCall then finishReasonToolCalls else finishReason }])

/-- `responseGeminiChat2OpenAI`: the choices. -/
def responseGeminiChat2OpenAI (candidates : List Candidate) : List TextChoice :=
  (candidates.foldl addCandidate (false, [])).2

/-! ## A chunk of a stream -/

/-- `dto.ChatCompletionsStreamResponseChoice` with its delta. -/
structure StreamChoice where
  index : Int
  reasoningContent : Option (List Shown)
  content : Option (List Shown)
  toolCalls : List ToolCallResponse
  finishReason : Option String
deriving DecidableEq, Repr

/-- The variables of the loop over the parts. -/
structure Scan where
  texts : List Shown
  toolCalls : List ToolCallResponse
  isTools : Bool
  isThought : Bool
deriving DecidableEq, Repr

def Scan.append (s : Scan) (part : Part) (text : String) : Scan :=
  { s with texts := s.texts ++ [⟨part, text⟩] }

/-- The body of the loop over the parts. -/
def Scan.addPart (s : Scan) (part : Part) : Scan :=
  match part.inlineData with
  | some media =>
      if Text.hasPrefix media.mimeType "image" then s.append part media.image else s
  | none =>
      match part.functionCall with
      | some call =>
          { s with
            isTools := true
            toolCalls := s.toolCalls ++ (getResponseToolCall call).toList.map
              ({ · with index := some s.toolCalls.length }) }
      | none =>
          if part.thought then { s.append part part.text with isThought := true }
          else
            match part.executableCode with
            | some code => s.append part (code.block ++ "\n")
            | none =>
                match part.codeExecutionResult with
                | some result => s.append part (result.block ++ "\n")
                | none => if part.text ≠ "\n" then s.append part part.text else s

def scan (parts : List Part) : Scan := parts.foldl Scan.addPart ⟨[], [], false, false⟩

/-- The candidate ends, and the stop chunk is to say so. -/
def Candidate.stops (candidate : Candidate) : Bool := candidate.finishReason = some "STOP"

/-- The body of the loop over the candidates. -/
def streamChoice (candidate : Candidate) : StreamChoice :=
  let s := scan candidate.parts
  let finishReason :=
    if candidate.stops then none else candidate.finishReason.map mapFinishReason
  { index := candidate.index
    reasoningContent := if s.isThought then some s.texts else none
    content := if s.isThought then none else some s.texts
    toolCalls := s.toolCalls
    finishReason := if s.isTools then some finishReasonToolCalls else finishReason }

/-- `streamResponseGeminiChat2OpenAI`: the choices, and `isStop`. -/
def streamResponseGeminiChat2OpenAI (candidates : List Candidate) : List StreamChoice × Bool :=
  (candidates.map streamChoice, candidates.any Candidate.stops)

/-- `IsToolCall`. -/
def isToolCall : List StreamChoice → Bool
  | [] => false
  | choice :: _ => choice.toolCalls ≠ []

/-- `IsFinished`. -/
def isFinished : List StreamChoice → Bool
  | [] => false
  | choice :: _ => choice.finishReason.any (· ≠ "")

/-- `ClearToolCalls`. -/
def clearToolCalls (choices : List StreamChoice) : List StreamChoice :=
  if isToolCall choices then
    choices.map fun choice =>
      { choice with toolCalls := choice.toolCalls.map ({ · with id := "", name := "" }) }
  else choices

/-- `response.Choices[0].FinishReason = nil`. -/
def clearFinish : List StreamChoice → List StreamChoice
  | [] => []
  | choice :: choices => { choice with finishReason := none } :: choices

/-- `GenerateStartEmptyResponse`, with the tool calls that its choice is given. -/
def startResponse (toolCalls : List ToolCallResponse) : List StreamChoice :=
  [⟨0, none, some [], toolCalls, none⟩]

/-- `GenerateStopResponse`. -/
def stopResponse (finishReason : String) : List StreamChoice :=
  [⟨0, none, none, [], some finishReason⟩]

/-! ## The stream -/

/-- The variables of `GeminiChatStreamHandler`, the count of responses, and the choices of
each chunk that was handed on. -/
structure Handler where
  finishReason : String
  toolCallIndexByChoice : Int → String → Option Int
  nextToolCallIndexByChoice : Int → Int
  sendResponseCount : Nat
  sent : List (List StreamChoice)

/-- The start of a stream. -/
def Handler.start : Handler := ⟨finishReasonStop, fun _ _ => none, fun _ => 0, 0, []⟩

/-- `handleStream`. -/
def Handler.handleStream (s : Handler) (choices : List StreamChoice) : Handler :=
  { s with sendResponseCount := s.sendResponseCount + 1, sent := s.sent ++ [choices] }

/-- The index of a tool call: the one its id has, or the next one of its choice. -/
def Handler.indexTool (s : Handler) (choiceKey : Int) (tool : ToolCallResponse) :
    Handler × ToolCallResponse :=
  if tool.id = "" then (s, tool)
  else
    match s.toolCallIndexByChoice choiceKey tool.id with
    | some idx => (s, { tool with index := some idx })
    | none =>
        let idx := s.nextToolCallIndexByChoice choiceKey
        ({ s with
            nextToolCallIndexByChoice :=
              Function.update s.nextToolCallIndexByChoice choiceKey (idx + 1)
            toolCallIndexByChoice :=
              Function.update s.toolCallIndexByChoice choiceKey
                (Function.update (s.toolCallIndexByChoice choiceKey) tool.id (some idx)) },
          { tool with index := some idx })

def Handler.indexTools (s : Handler) (choiceKey : Int) :
    List ToolCallResponse → Handler × List ToolCallResponse
  | [] => (s, [])
  | tool :: tools =>
      let first := s.indexTool choiceKey tool
      let rest := first.1.indexTools choiceKey tools
      (rest.1, first.2 :: rest.2)

/-- The loop over the choices of a response. -/
def Handler.indexChoices (s : Handler) : List StreamChoice → Handler × List StreamChoice
  | [] => (s, [])
  | choice :: choices =>
      let first := s.indexTools choice.index choice.toolCalls
      let rest := first.1.indexChoices choices
      (rest.1, { choice with toolCalls := first.2 } :: rest.2)

/-- The tool calls of the first choice, with no arguments. -/
def copiedToolCalls : List StreamChoice → List ToolCallResponse
  | [] => []
  | choice :: _ => choice.toolCalls.map ({ · with arguments := "" })

/-- The first response goes out, and what is left of the chunk. -/
def Handler.sendStart (s : Handler) (response : List StreamChoice) :
    Handler × List StreamChoice :=
  if isToolCall response then
    let s := { s with finishReason := finishReasonToolCalls }.handleStream
      (startResponse (copiedToolCalls response))
    let cleared := clearToolCalls response
    (s, if isFinished cleared then clearFinish cleared else cleared)
  else (s.handleStream (startResponse []), response)

/-- The callback of `GeminiChatStreamHandler` on the candidates of an event. -/
def Handler.onChunk (s : Handler) (candidates : List Candidate) : Handler :=
  let (response, isStop) := streamResponseGeminiChat2OpenAI candidates
  let (s, response) := s.indexChoices response
  let (s, response) := if s.sendResponseCount = 0 then s.sendStart response else (s, response)
  let s := s.handleStream response
  if isStop then s.handleStream (stopResponse s.finishReason) else s

/-- `GeminiChatStreamHandler`: the choices of each chunk. -/
def geminiChatStreamHandler (chunks : List (List Candidate)) : List (List StreamChoice) :=
  (chunks.foldl Handler.onChunk Handler.start).sent

end DazeApi.Convert.Gemini
