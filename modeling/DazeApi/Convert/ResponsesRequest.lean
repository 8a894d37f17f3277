import DazeApi.Lib.Pieces
import DazeApi.Convert.ChatRequest

/-!
# Chat requests as requests of the Responses API

`ChatCompletionsRequestToResponsesRequest` (`service/openaicompat/chat_to_responses.go`) makes
input items of the messages and instructions of the system texts.  The id of a call is sent as
it is and the id of its output trimmed, so the two agree exactly for ids without white space
around them (`converses_iff`).
-/

namespace DazeApi.Convert.ResponsesRequest

open Pieces

variable {J : Type}

/-! ## Requests -/

/-- A part, as `ParseContent` has it; the media themselves are carried over. -/
inductive Media (J : Type) where
  | text (text : String)
  | imageUrl (url : String) (image : J)
  | inputAudio (audio : J)
  | file (file : J)
  | videoUrl (video : J)
  | other (type : String)

/-- A content that is no string comes with its JSON text. -/
inductive Content (J : Type) where
  | none
  | string (s : String)
  | parts (json : String) (parts : List (Media J))

structure Message (J : Type) where
  role : String
  content : Content J
  toolCalls : List ToolCallRequest
  toolCallId : String

structure ChatRequest (J : Type) where
  model : String
  n : Option ℤ
  messages : List (Message J)

/-! ## Items -/

inductive ImageUrl (J : Type) where
  | url (url : String)
  | image (image : J)

inductive ContentPart (J : Type) where
  | text (type text : String)
  | inputImage (imageUrl : ImageUrl J)
  | inputAudio (audio : J)
  | inputFile (file : J)
  | inputVideo (video : J)
  | other (type : String)

inductive ItemContent (J : Type) where
  | string (s : String)
  | parts (parts : List (ContentPart J))

inductive Item (J : Type) where
  | message (role : String) (content : ItemContent J)
  | functionCall (callId name arguments : String)
  | functionCallOutput (callId output : String)

structure Responses (J : Type) where
  input : List (Item J)
  instructions : Option String

/-! ## Conversion -/

def normalizeChatImageURLToString (url : String) (image : J) : ImageUrl J :=
  if url ≠ "" then .url url else .image image

def contentPart (role : String) : Media J → ContentPart J
  | .text text => .text (if role = "assistant" then "output_text" else "input_text") text
  | .imageUrl url image => .inputImage (normalizeChatImageURLToString url image)
  | .inputAudio audio => .inputAudio audio
  | .file file => .inputFile file
  | .videoUrl video => .inputVideo video
  | .other type => .other type

def itemContent (role : String) : Content J → ItemContent J
  | .none => .string ""
  | .string s => .string s
  | .parts _ parts => .parts (parts.map (contentPart role))

/-- The output of a tool: a string, or the JSON text of the content. -/
def toolOutput : Content J → String
  | .none => ""
  | .string s => s
  | .parts json _ => json

def isTool (role : String) : Prop := role = "tool" ∨ role = "function"

def isSystem (role : String) : Prop := role = "system" ∨ role = "developer"

instance (role : String) : Decidable (isTool role) := inferInstanceAs (Decidable (_ ∨ _))

instance (role : String) : Decidable (isSystem role) := inferInstanceAs (Decidable (_ ∨ _))

def functionCall (tc : ToolCallRequest) : List (Item J) :=
  if Text.trimSpace tc.id = "" then []
  else if tc.type ≠ "" ∧ tc.type ≠ "function" then []
  else if Text.trimSpace tc.name = "" then []
  else [.functionCall tc.id (Text.trimSpace tc.name) tc.arguments]

/-- The input items of a message. -/
def inputItems (msg : Message J) : List (Item J) :=
  let role := Text.trimSpace msg.role
  if role = "" then []
  else if isTool role then
    let callId := Text.trimSpace msg.toolCallId
    if callId = "" then
      [.message "user" (.string ("[tool_output_missing_call_id] " ++ toolOutput msg.content))]
    else [.functionCallOutput callId (toolOutput msg.content)]
  else if isSystem role then []
  else
    .message role (itemContent role msg.content) ::
      if role = "assistant" then msg.toolCalls.flatMap functionCall else []

/-- A further line of a system text. -/
def addSystemText (sb : String) : Media J → String
  | .text text =>
      if Text.trimSpace text ≠ "" then (if sb ≠ "" then sb ++ "\n" else sb) ++ text else sb
  | _ => sb

/-- The part of the instructions that a message makes. -/
def instructionsParts (msg : Message J) : List String :=
  let role := Text.trimSpace msg.role
  if isSystem role then
    match msg.content with
    | .none => []
    | .string s => if Text.trimSpace s ≠ "" then [Text.trimSpace s] else []
    | .parts _ parts =>
        let s := Text.trimSpace (parts.foldl addSystemText "")
        if s ≠ "" then [s] else []
  else []

/-- `ChatCompletionsRequestToResponsesRequest`, its input and instructions. -/
def chatCompletionsRequestToResponsesRequest :
    Option (ChatRequest J) → Except String (Responses J)
  | none => .error "request is nil"
  | some req =>
      if req.model = "" then .error "model is required"
      else if req.n.getD 1 > 1 then
        .error "n>1 is not supported in responses compatibility mode"
      else
        let parts := req.messages.flatMap instructionsParts
        .ok ⟨req.messages.flatMap inputItems,
          if parts ≠ [] then some ("\n\n".intercalate parts) else none⟩

/-! ## What is meant -/

/-- Is the call sent? -/
def wanted (tc : ToolCallRequest) : Bool :=
  Text.trimSpace tc.id ≠ "" && (tc.type = "" || tc.type = "function") &&
    Text.trimSpace tc.name ≠ ""

/-- The items of a message, with a way to write the ids of calls. -/
def itemsOf (callId : String → String) (msg : Message J) : List (Item J) :=
  let role := Text.trimSpace msg.role
  if role = "" ∨ isSystem role then []
  else if isTool role then
    if Text.trimSpace msg.toolCallId = "" then
      [.message "user" (.string ("[tool_output_missing_call_id] " ++ toolOutput msg.content))]
    else [.functionCallOutput (callId msg.toolCallId) (toolOutput msg.content)]
  else
    .message role (itemContent role msg.content) ::
      ((if role = "assistant" then msg.toolCalls else []).filter wanted).map fun tc =>
        .functionCall (callId tc.id) tc.name tc.arguments

def Media.texts : Media J → List String
  | .text s => [s]
  | _ => []

def Content.texts : Content J → List String
  | .none => []
  | .string s => [s]
  | .parts _ ps => ps.flatMap Media.texts

def isBlank (s : String) : Bool := Text.trimSpace s = ""

/-- The texts of a system or developer message that are not blank. -/
def systemTexts (msg : Message J) : List String :=
  if isSystem (Text.trimSpace msg.role) then msg.content.texts.filter (!isBlank ·) else []

/-- One item for each message and call, in order, with the same way to write an id for calls and
for outputs, and the lines of each system message, with an empty line between two. -/
structure Converses (messages : List (Message J)) (result : Responses J) : Prop where
  input : ∃ callId, result.input = messages.flatMap (itemsOf callId)
  instructions : result.instructions =
    let texts := (messages.map systemTexts).filter (· ≠ [])
    if texts = [] then none
    else some ("\n\n".intercalate (texts.map fun lines => Text.trimSpace (Text.join lines '\n')))

/-! ## When it is -/

def sentCalls (msg : Message J) : List ToolCallRequest :=
  if Text.trimSpace msg.role = "assistant" then msg.toolCalls.filter wanted else []

/-- No name of a call has white space around it, and no id of a call that a tool answers. -/
structure Trimmed (messages : List (Message J)) : Prop where
  names : ∀ msg ∈ messages, ∀ tc ∈ sentCalls msg, Text.trimSpace tc.name = tc.name
  ids : ∀ msg ∈ messages, ∀ tc ∈ sentCalls msg, ∀ answer ∈ messages,
    isTool (Text.trimSpace answer.role) → answer.toolCallId = tc.id →
      Text.trimSpace tc.id = tc.id

/-! ## Instructions -/

section

variable {msg : Message J} {messages : List (Message J)}

theorem not_blank_ne_empty {s : String} (h : isBlank s = false) : s ≠ "" := by
  rintro rfl
  exact absurd h (by decide)

/-- A text with a line that is not blank is not blank. -/
theorem trimSpace_join_ne_empty {p : String} {ps : List String} (h : isBlank p = false) :
    Text.trimSpace (Text.join (p :: ps) '\n') ≠ "" := by
  intro hblank
  have hspace := Text.isSpace_of_trimSpace_eq_empty hblank
  rw [Text.toList_join_cons] at hspace
  refine of_decide_eq_false h ?_
  have hp : p.toList.dropWhile Text.isSpace = [] :=
    List.dropWhile_eq_nil_iff.2 fun c hc => hspace c (List.mem_append_left _ hc)
  rw [Text.trimSpace, hp]
  rfl

theorem addSystemText_text (sb s : String) :
    addSystemText sb (.text s : Media J) =
      if isBlank s then sb else (if sb ≠ "" then sb ++ "\n" else sb) ++ s := by
  by_cases hs : Text.trimSpace s = "" <;> simp [addSystemText, isBlank, hs]

theorem foldl_addSystemText_of_ne (parts : List (Media J)) {sb : String} (h : sb ≠ "") :
    (parts.foldl addSystemText sb).toList =
      sb.toList ++ Text.joinTail '\n' ((parts.flatMap Media.texts).filter (!isBlank ·)) := by
  induction parts generalizing sb with
  | nil => exact (List.append_nil _).symm
  | cons part parts ih =>
      cases part with
      | text s =>
          rw [List.foldl_cons, addSystemText_text, List.flatMap_cons]
          cases hs : isBlank s with
          | true => simpa [Media.texts, hs] using ih h
          | false =>
              have hne : sb ++ "\n" ++ s ≠ "" := by simp [h]
              simp [Media.texts, hs, h, ih hne, Text.joinTail_cons]
      | _ => exact ih h

/-- The lines of a message are joined. -/
theorem foldl_addSystemText (parts : List (Media J)) :
    parts.foldl addSystemText "" =
      Text.join ((parts.flatMap Media.texts).filter (!isBlank ·)) '\n' := by
  induction parts with
  | nil => rfl
  | cons part parts ih =>
      cases part with
      | text s =>
          rw [List.foldl_cons, addSystemText_text, List.flatMap_cons]
          cases hs : isBlank s with
          | true => simpa [Media.texts, hs] using ih
          | false =>
              refine String.toList_inj.1 ?_
              simp [Media.texts, hs, Text.toList_join_cons,
                foldl_addSystemText_of_ne parts (not_blank_ne_empty hs)]
      | _ => exact ih

theorem instructionsParts_eq (msg : Message J) :
    instructionsParts msg =
      if systemTexts msg = [] then []
      else [Text.trimSpace (Text.join (systemTexts msg) '\n')] := by
  have hlines (lines : List String) (hlines : ∀ p ∈ lines, isBlank p = false) :
      (if Text.trimSpace (Text.join lines '\n') ≠ "" then
          [Text.trimSpace (Text.join lines '\n')] else []) =
        if lines = [] then [] else [Text.trimSpace (Text.join lines '\n')] := by
    cases lines with
    | nil => rfl
    | cons p ps =>
        rw [if_pos (trimSpace_join_ne_empty (hlines p (.head ps))), if_neg (List.cons_ne_nil p ps)]
  have hkept (texts : List String) : ∀ p ∈ texts.filter (!isBlank ·), isBlank p = false := by
    intro p hp
    simpa using (List.mem_filter.1 hp).2
  rw [instructionsParts, systemTexts]
  split
  next hsystem =>
    cases hcontent : msg.content with
    | none => rfl
    | string s =>
        have hs := hlines _ (hkept [s])
        cases hblank : isBlank s with
        | true =>
            have hempty : Text.trimSpace s = "" := of_decide_eq_true hblank
            simp [Content.texts, hblank, hempty]
        | false =>
            have hjoin : Text.join [s] '\n' = s := by simp [Text.join, List.intercalate]
            simpa [Content.texts, hblank, hjoin] using hs
    | parts json ps =>
        simp only [foldl_addSystemText]
        exact hlines _ (hkept _)
  next => rfl

theorem flatMap_instructionsParts (messages : List (Message J)) :
    messages.flatMap instructionsParts =
      ((messages.map systemTexts).filter (· ≠ [])).map
        fun lines => Text.trimSpace (Text.join lines '\n') := by
  induction messages with
  | nil => rfl
  | cons msg messages ih =>
      rw [List.flatMap_cons, List.map_cons, List.filter_cons, instructionsParts_eq, ih]
      by_cases hlines : systemTexts msg = [] <;> simp [hlines]

/-! ## Input -/

theorem functionCall_eq (tc : ToolCallRequest) :
    (functionCall tc : List (Item J)) =
      if wanted tc then [.functionCall tc.id (Text.trimSpace tc.name) tc.arguments] else [] := by
  rw [functionCall]
  by_cases hid : Text.trimSpace tc.id = ""
  · simp [wanted, hid]
  · by_cases htype : tc.type = "" ∨ tc.type = "function"
    · by_cases hname : Text.trimSpace tc.name = ""
      · simp [wanted, hid, hname]
      · rw [if_neg hid, if_neg (by rwa [← not_or, not_not]), if_neg hname, if_pos]
        simp [wanted, hid, htype, hname]
    · rw [if_neg hid, if_pos (not_or.1 htype), if_neg]
      simp [wanted, htype]

theorem flatMap_functionCall (toolCalls : List ToolCallRequest) :
    toolCalls.flatMap functionCall =
      (toolCalls.filter wanted).map fun tc =>
        (.functionCall tc.id (Text.trimSpace tc.name) tc.arguments : Item J) := by
  rw [List.map_eq_flatMap, flatMap_filter]
  exact List.flatMap_congr fun tc _ => functionCall_eq tc

theorem length_inputItems (callId : String → String) (msg : Message J) :
    (inputItems msg).length = (itemsOf callId msg).length := by
  rw [inputItems, itemsOf]
  generalize Text.trimSpace msg.role = role
  by_cases hempty : role = ""
  · simp [hempty]
  · by_cases htool : isTool role
    · have hsystem : ¬ isSystem role := by
        rcases htool with rfl | rfl <;> decide
      by_cases hid : Text.trimSpace msg.toolCallId = "" <;> simp [hempty, htool, hsystem, hid]
    · by_cases hsystem : isSystem role
      · simp [hempty, htool, hsystem]
      · by_cases hassistant : role = "assistant"
        · subst hassistant
          simp [htool, hsystem, flatMap_functionCall]
        · simp [hempty, htool, hsystem, hassistant]

/-- The items of a message have trimmed names, ids of calls as they are, and trimmed ids of
outputs. -/
theorem inputItems_eq_iff (callId : String → String) (msg : Message J) :
    inputItems msg = itemsOf callId msg ↔
      (∀ tc ∈ sentCalls msg, tc.id = callId tc.id ∧ Text.trimSpace tc.name = tc.name) ∧
        (isTool (Text.trimSpace msg.role) → Text.trimSpace msg.toolCallId ≠ "" →
          Text.trimSpace msg.toolCallId = callId msg.toolCallId) := by
  rw [inputItems, itemsOf, sentCalls]
  generalize Text.trimSpace msg.role = role
  by_cases hempty : role = ""
  · subst hempty
    simp [isTool]
  · by_cases htool : isTool role
    · have hsystem : ¬ isSystem role := by
        rcases htool with rfl | rfl <;> decide
      have hassistant : role ≠ "assistant" := by
        rcases htool with rfl | rfl <;> decide
      by_cases hid : Text.trimSpace msg.toolCallId = "" <;>
        simp [hempty, htool, hsystem, hassistant, hid]
    · by_cases hsystem : isSystem role
      · have hassistant : role ≠ "assistant" := by
          rcases hsystem with rfl | rfl <;> decide
        simp [hempty, htool, hsystem, hassistant]
      · by_cases hassistant : role = "assistant"
        · subst hassistant
          simp [htool, hsystem, flatMap_functionCall, List.map_inj_left]
        · simp [hempty, htool, hsystem, hassistant]

/-- Calls and outputs can be given matching ids exactly if names and answered ids are trimmed. -/
theorem input_iff (messages : List (Message J)) :
    (∃ callId, messages.flatMap inputItems = messages.flatMap (itemsOf callId)) ↔
      Trimmed messages := by
  have hpieces (callId : String → String) :
      messages.flatMap inputItems = messages.flatMap (itemsOf callId) ↔
        ∀ msg ∈ messages, inputItems msg = itemsOf callId msg :=
    flatMap_eq_flatMap_iff fun msg _ => (length_inputItems callId msg).le
  have hid {msg : Message J} {tc : ToolCallRequest} (h : tc ∈ sentCalls msg) :
      Text.trimSpace tc.id ≠ "" := by
    rw [sentCalls] at h
    split at h
    next =>
      have hwanted := (List.mem_filter.1 h).2
      rw [wanted, Bool.and_eq_true, Bool.and_eq_true, decide_eq_true_eq] at hwanted
      exact hwanted.1.1
    next => cases h
  constructor
  · rintro ⟨callId, h⟩
    rw [hpieces] at h
    refine ⟨fun msg hmsg tc htc => ?_, fun msg hmsg tc htc answer hanswer htool heq => ?_⟩
    · exact (((inputItems_eq_iff callId msg).1 (h msg hmsg)).1 tc htc).2
    · have hcall := (((inputItems_eq_iff callId msg).1 (h msg hmsg)).1 tc htc).1
      have houtput := ((inputItems_eq_iff callId answer).1 (h answer hanswer)).2 htool
      rw [heq] at houtput
      exact (houtput (hid htc)).trans hcall.symm
  · classical
    intro h
    -- ids of calls as they are, and all others trimmed
    refine ⟨fun id => if ∃ msg ∈ messages, ∃ tc ∈ sentCalls msg, tc.id = id then id
      else Text.trimSpace id, (hpieces _).2 fun msg hmsg => (inputItems_eq_iff _ msg).2 ?_⟩
    refine ⟨fun tc htc => ⟨?_, h.names msg hmsg tc htc⟩, fun htool hne => ?_⟩
    · rw [if_pos ⟨msg, hmsg, tc, htc, rfl⟩]
    · split
      next hcall =>
        obtain ⟨caller, hcaller, tc, htc, heq⟩ := hcall
        rw [← heq]
        exact h.ids caller hcaller tc htc msg hmsg htool heq.symm
      next => rfl

end

/-- An accepted request keeps its conversation exactly if the names of its calls and the ids that
tools answer have no white space around them. -/
theorem converses_iff (req : ChatRequest J) (result : Responses J)
    (h : chatCompletionsRequestToResponsesRequest (some req) = .ok result) :
    Converses req.messages result ↔ Trimmed req.messages := by
  rw [chatCompletionsRequestToResponsesRequest] at h
  split at h
  · cases h
  · split at h
    · cases h
    · cases h
      rw [← input_iff]
      refine ⟨fun hkept => hkept.input, fun hinput => ⟨hinput, ?_⟩⟩
      rw [flatMap_instructionsParts]
      generalize (req.messages.map systemTexts).filter (· ≠ []) = texts
      cases texts <;> rfl

/-- A call with a blank behind its id, and its output. -/
def paddedId : ChatRequest Unit where
  model := "m"
  n := none
  messages := [⟨"assistant", .none, [⟨"call_1 ", "function", "look", "\x7b\x7d"⟩], ""⟩,
    ⟨"tool", .string "nothing", [], "call_1 "⟩]

theorem converses_iff_paddedId :
    chatCompletionsRequestToResponsesRequest (some paddedId) =
        .ok ⟨[.message "assistant" (.string ""), .functionCall "call_1 " "look" "\x7b\x7d",
          .functionCallOutput "call_1" "nothing"], none⟩ ∧
      (Converses paddedId.messages ⟨[.message "assistant" (.string ""),
        .functionCall "call_1 " "look" "\x7b\x7d", .functionCallOutput "call_1" "nothing"], none⟩ ↔
          Trimmed paddedId.messages) := by
  have h : chatCompletionsRequestToResponsesRequest (some paddedId) =
      .ok ⟨[.message "assistant" (.string ""), .functionCall "call_1 " "look" "\x7b\x7d",
        .functionCallOutput "call_1" "nothing"], none⟩ := by rfl
  exact ⟨h, converses_iff paddedId _ h⟩

/-- The output has another id than the call. -/
theorem not_converses_paddedId : ¬ ∀ (req : ChatRequest Unit) (result : Responses Unit),
    chatCompletionsRequestToResponsesRequest (some req) = .ok result →
      Converses req.messages result := by
  intro h
  have htrimmed := (input_iff paddedId.messages).1 (h paddedId _ rfl).input
  have hid := htrimmed.ids _ (.head _) ⟨"call_1 ", "function", "look", "\x7b\x7d"⟩ (by decide)
    _ (.tail _ (.head _)) (Or.inl (by decide)) rfl
  exact absurd hid (by decide)

end DazeApi.Convert.ResponsesRequest
