import DazeApi.Lib.Pieces
import DazeApi.Convert.ChatRequest

/-!
# Claude requests as OpenAI requests

`ClaudeToOpenAIRequest` (`service/convert.go`) makes messages of the blocks of a Claude message:
one for every tool result, and one for the rest, which has no texts if it has tool calls.  The
conversation is kept exactly if no message has texts and tool calls, and no assistant message
answers a call of its own (`keeps_iff`).
-/

namespace DazeApi.Convert.ClaudeRequest

open Pieces

variable {J R : Type}

/-! ## Requests -/

structure Source where
  mediaType : String
  data : String

/-- The content of a tool result: a string, or what `ParseMediaContent` gives. -/
inductive ResultContent (R : Type) where
  | string (s : String)
  | blocks (r : R)

/-- `dto.ClaudeMediaMessage`, with the fields of all kinds of blocks. -/
structure Block (J R : Type) where
  type : String
  text : Option String
  source : Source
  id : String
  name : String
  input : J
  toolUseId : String
  content : ResultContent R

inductive Role where
  | user
  | assistant
deriving DecidableEq

def Role.name : Role → String
  | .user => "user"
  | .assistant => "assistant"

inductive ClaudeContent (J R : Type) where
  | string (s : String)
  | blocks (bs : List (Block J R))

structure ClaudeMessage (J R : Type) where
  role : Role
  content : ClaudeContent J R

/-- The system texts of a request. -/
inductive ClaudeSystem where
  | none
  | string (s : String)
  | blocks (texts : List (Option String))

structure Request (J R : Type) where
  messages : List (ClaudeMessage J R)
  system : ClaudeSystem

/-- `json.Marshal` of the input of a call and of the blocks of a result. -/
structure Encode (J R : Type) where
  input : J → String
  blocks : R → String

/-! ## Messages -/

/-- The blocks of a message; a string has none. -/
def ClaudeMessage.blocks (m : ClaudeMessage J R) : List (Block J R) :=
  match m.content with
  | .string _ => []
  | .blocks bs => bs

/-- `SearchToolNameByToolCallId`. -/
def Request.searchToolNameByToolCallId (request : Request J R) (toolCallId : String) : String :=
  match (request.messages.flatMap ClaudeMessage.blocks).find? (·.id = toolCallId) with
  | some b => b.name
  | none => ""

inductive Kind where
  | text
  | image
  | toolUse
  | toolResult
  | other
deriving DecidableEq

def Block.kind (b : Block J R) : Kind :=
  if b.type = "text" ∨ b.type = "input_text" then .text
  else if b.type = "image" then .image
  else if b.type = "tool_use" then .toolUse
  else if b.type = "tool_result" then .toolResult
  else .other

def Encode.result (encode : Encode J R) : ResultContent R → String
  | .string s => s
  | .blocks r => encode.blocks r

/-- The tool message of a result. -/
def toolMessage (encode : Encode J R) (request : Request J R) (b : Block J R) : RequestMessage where
  role := "tool"
  content := .string (encode.result b.content)
  name := some (if b.name = "" then request.searchToolNameByToolCallId b.toolUseId else b.name)
  toolCalls := []
  toolCallId := b.toolUseId

/-- The tool call of a block. -/
def toolCall (encode : Encode J R) (b : Block J R) : ToolCallRequest :=
  ⟨b.id, "function", b.name, encode.input b.input⟩

/-- What the loop over the blocks has so far. -/
structure Blocks where
  tools : List RequestMessage
  toolCalls : List ToolCallRequest
  media : List MediaContent

def addBlock (encode : Encode J R) (request : Request J R) (acc : Blocks) (b : Block J R) :
    Blocks :=
  match b.kind with
  | .text => { acc with media := acc.media ++ [.text (b.text.getD "")] }
  | .image =>
      { acc with
        media := acc.media ++
          [.imageUrl ("data:" ++ b.source.mediaType ++ ";base64," ++ b.source.data) "" ""] }
  | .toolUse => { acc with toolCalls := acc.toolCalls ++ [toolCall encode b] }
  | .toolResult => { acc with tools := acc.tools ++ [toolMessage encode request b] }
  | .other => acc

/-- The message of the blocks; with tool calls it has no other content. -/
def Blocks.message (acc : Blocks) (role : Role) : RequestMessage where
  role := role.name
  content := if acc.media ≠ [] ∧ acc.toolCalls = [] then .media acc.media else .none
  name := none
  toolCalls := acc.toolCalls
  toolCallId := ""

def convertMessage (encode : Encode J R) (request : Request J R) (m : ClaudeMessage J R) :
    List RequestMessage :=
  match m.content with
  | .string s => RequestMessage.sent ⟨m.role.name, .string s, none, [], ""⟩
  | .blocks bs =>
      let acc := bs.foldl (addBlock encode request) ⟨[], [], []⟩
      acc.tools ++ (acc.message m.role).sent

/-- The system message; for Claude on OpenRouter it keeps its parts. -/
def systemMessages (openRouterClaude : Bool) : ClaudeSystem → List RequestMessage
  | .none => []
  | .string s => if s = "" then [] else [⟨"system", .string s, none, [], ""⟩]
  | .blocks texts =>
      if texts = [] then []
      else if openRouterClaude then
        [⟨"system", .media (texts.map fun t => .text (t.getD "")), none, [], ""⟩]
      else [⟨"system", .string (Text.concat (texts.map (·.getD ""))), none, [], ""⟩]

/-- `ClaudeToOpenAIRequest`, its messages. -/
def claudeToOpenAIRequest (encode : Encode J R) (openRouterClaude : Bool)
    (request : Request J R) : List RequestMessage :=
  systemMessages openRouterClaude request.system ++
    request.messages.flatMap (convertMessage encode request)

/-! ## What is meant -/

/-- What a conversation consists of. -/
inductive Item where
  | text (s : String)
  | call (id name arguments : String)
  | result (id content : String)

/-- The item of a block; images and other blocks are none. -/
def Block.items (encode : Encode J R) (b : Block J R) : List Item :=
  match b.kind with
  | .text => [.text (b.text.getD "")]
  | .toolUse => [.call b.id b.name (encode.input b.input)]
  | .toolResult => [.result b.toolUseId (encode.result b.content)]
  | _ => []

def Block.isResult (b : Block J R) : Bool := b.kind = .toolResult

/-- The items of a Claude message, with the results first. -/
def ClaudeMessage.hoisted (encode : Encode J R) (m : ClaudeMessage J R) : List Item :=
  match m.content with
  | .string s => [.text s]
  | .blocks bs =>
      (bs.filter Block.isResult).flatMap (Block.items encode) ++
        (bs.filter (!·.isResult)).flatMap (Block.items encode)

/-- The items of an OpenAI message. -/
def itemsOf (m : RequestMessage) : List Item :=
  if m.role = "system" then []
  else if m.role = "tool" then [.result m.toolCallId m.content.stringContent]
  else m.texts.map .text ++ m.toolCalls.map fun c => .call c.id c.name c.arguments

/-- The ids of the calls of an assistant's blocks. -/
def callIds (role : Role) (bs : List (Block J R)) : List String :=
  if role = .assistant then (bs.filter (·.kind = .toolUse)).map (·.id) else []

/-- For every result of the blocks: is it behind a call of its id in an assistant message? -/
def hadBlocks (role : Role) (seen : List String) : List (Block J R) → List Bool
  | [] => []
  | b :: bs =>
      (if b.isResult then [decide (b.toolUseId ∈ seen)] else []) ++
        hadBlocks role (seen ++ callIds role [b]) bs

def hadCalls (seen : List String) : List (ClaudeMessage J R) → List Bool
  | [] => []
  | m :: ms =>
      hadBlocks m.role seen m.blocks ++ hadCalls (seen ++ callIds m.role m.blocks) ms

/-- For every tool message: is it behind an assistant message with a call of its id? -/
def haveCalls (seen : List String) : List RequestMessage → List Bool
  | [] => []
  | m :: ms =>
      (if m.role = "tool" then [decide (m.toolCallId ∈ seen)] else []) ++
        haveCalls (seen ++ if m.role = "assistant" then m.toolCalls.map (·.id) else []) ms

/-- Every item occurs once, in order but for the results, and a tool message is behind its call
if the result was. -/
structure Keeps (encode : Encode J R) (request : Request J R) (result : List RequestMessage) :
    Prop where
  items : result.flatMap itemsOf = request.messages.flatMap (ClaudeMessage.hoisted encode)
  called : List.Forall₂ (fun had has => had = true → has = true)
    (hadCalls [] request.messages) (haveCalls [] result)

/-! ## When it is -/

/-- No message has texts and calls, and an assistant message that answers a call of its own is
behind another one with the call. -/
structure Separate (request : Request J R) : Prop where
  texts : ∀ m ∈ request.messages, (∃ b ∈ m.blocks, b.kind = .toolUse) →
    ∀ b ∈ m.blocks, b.kind ≠ .text
  answers : ∀ before m after, request.messages = before ++ m :: after →
    ∀ bs b cs, m.blocks = bs ++ b :: cs → b.kind = .toolResult →
      b.toolUseId ∈ callIds m.role bs →
        b.toolUseId ∈ before.flatMap fun m => callIds m.role m.blocks

/-! ## One message -/

section

variable {encode : Encode J R} {request : Request J R} {role : Role} {m : ClaudeMessage J R}

/-- What a block adds to the media. -/
def Block.media (b : Block J R) : List MediaContent :=
  match b.kind with
  | .text => [.text (b.text.getD "")]
  | .image => [.imageUrl ("data:" ++ b.source.mediaType ++ ";base64," ++ b.source.data) "" ""]
  | _ => []

def Block.isCall (b : Block J R) : Bool := b.kind = .toolUse

theorem foldl_addBlock (encode : Encode J R) (request : Request J R) (acc : Blocks)
    (bs : List (Block J R)) :
    bs.foldl (addBlock encode request) acc =
      ⟨acc.tools ++ (bs.filter Block.isResult).map (toolMessage encode request),
        acc.toolCalls ++ (bs.filter Block.isCall).map (toolCall encode),
        acc.media ++ bs.flatMap Block.media⟩ := by
  induction bs generalizing acc with
  | nil => simp
  | cons b bs ih =>
      rw [List.foldl_cons, ih, List.filter_cons, List.filter_cons, List.flatMap_cons]
      cases hkind : b.kind <;>
        simp [addBlock, Block.isResult, Block.isCall, Block.media, hkind]

/-- The message of the blocks of a message. -/
def rest (encode : Encode J R) (role : Role) (bs : List (Block J R)) : RequestMessage where
  role := role.name
  content :=
    if bs.flatMap Block.media ≠ [] ∧ bs.filter Block.isCall = [] then
      .media (bs.flatMap Block.media)
    else .none
  name := none
  toolCalls := (bs.filter Block.isCall).map (toolCall encode)
  toolCallId := ""

theorem convertMessage_blocks (encode : Encode J R) (request : Request J R) (role : Role)
    (bs : List (Block J R)) :
    convertMessage encode request ⟨role, .blocks bs⟩ =
      (bs.filter Block.isResult).map (toolMessage encode request) ++
        (rest encode role bs).sent := by
  simp [convertMessage, foldl_addBlock, Blocks.message, rest]

theorem name_ne (role : Role) : role.name ≠ "system" ∧ role.name ≠ "tool" := by
  cases role <;> decide

/-- The texts of blocks without calls, and the calls alone of others. -/
theorem itemsOf_rest (encode : Encode J R) (role : Role) (bs : List (Block J R)) :
    (rest encode role bs).sent.flatMap itemsOf =
      if bs.filter Block.isCall = [] then
        (bs.flatMap Block.media).flatMap fun c => c.texts.map .text
      else (bs.filter Block.isCall).map fun b => .call b.id b.name (encode.input b.input) := by
  obtain ⟨hsystem, htool⟩ := name_ne role
  by_cases hcalls : bs.filter Block.isCall = []
  · rw [if_pos hcalls]
    by_cases hmedia : bs.flatMap Block.media = []
    · simp [RequestMessage.sent, rest, hcalls, hmedia, RequestContent.parse]
    · simp [RequestMessage.sent, rest, hcalls, hmedia, RequestContent.parse, itemsOf, hsystem,
        htool, RequestMessage.texts, List.map_flatMap]
  · rw [if_neg hcalls]
    simp [RequestMessage.sent, rest, hcalls, RequestContent.parse, itemsOf, hsystem, htool,
      RequestMessage.texts, toolCall]

theorem itemsOf_tools (encode : Encode J R) (request : Request J R) (bs : List (Block J R)) :
    ((bs.filter Block.isResult).map (toolMessage encode request)).flatMap itemsOf =
      (bs.filter Block.isResult).flatMap (Block.items encode) := by
  rw [List.flatMap_map]
  refine List.flatMap_congr fun b hb => ?_
  have hkind : b.kind = .toolResult := of_decide_eq_true (List.mem_filter.1 hb).2
  simp [itemsOf, toolMessage, Block.items, hkind, RequestContent.stringContent]

/-- The call of a block. -/
def Block.callItems (encode : Encode J R) (b : Block J R) : List Item :=
  if b.isCall then [.call b.id b.name (encode.input b.input)] else []

/-- The item of a block that is no result. -/
def Block.restItems (encode : Encode J R) (b : Block J R) : List Item :=
  if !b.isResult then b.items encode else []

theorem length_callItems_le (encode : Encode J R) (b : Block J R) :
    (b.callItems encode).length ≤ (b.restItems encode).length := by
  cases hkind : b.kind <;>
    simp [Block.callItems, Block.restItems, Block.isCall, Block.isResult, Block.items, hkind]

theorem callItems_eq_iff (encode : Encode J R) (b : Block J R) :
    b.callItems encode = b.restItems encode ↔ b.kind ≠ .text := by
  cases hkind : b.kind <;>
    simp [Block.callItems, Block.restItems, Block.isCall, Block.isResult, Block.items, hkind]

theorem restItems_of_not_call (encode : Encode J R) {b : Block J R} (h : b.kind ≠ .toolUse) :
    (b.media.flatMap fun c => c.texts.map Item.text) = b.restItems encode := by
  cases hkind : b.kind <;>
    simp_all [Block.media, Block.restItems, Block.isResult, Block.items, MediaContent.texts]

theorem filter_isCall_eq_nil_iff (bs : List (Block J R)) :
    bs.filter Block.isCall = [] ↔ ¬ ∃ b ∈ bs, b.kind = .toolUse := by
  simp [List.filter_eq_nil_iff, Block.isCall]

/-- What is left of the blocks without results. -/
theorem itemsOf_rest_cases (encode : Encode J R) (role : Role) (bs : List (Block J R)) :
    ((rest encode role bs).sent.flatMap itemsOf).length ≤
        (bs.flatMap (Block.restItems encode)).length ∧
      ((rest encode role bs).sent.flatMap itemsOf = bs.flatMap (Block.restItems encode) ↔
        ((∃ b ∈ bs, b.kind = .toolUse) → ∀ b ∈ bs, b.kind ≠ .text)) := by
  rw [itemsOf_rest]
  by_cases hcalls : bs.filter Block.isCall = []
  · have hnone := (filter_isCall_eq_nil_iff bs).1 hcalls
    have heq : ((bs.flatMap Block.media).flatMap fun c => c.texts.map Item.text) =
        bs.flatMap (Block.restItems encode) := by
      rw [List.flatMap_assoc]
      refine List.flatMap_congr fun b hb => restItems_of_not_call encode fun hkind => ?_
      exact hnone ⟨b, hb, hkind⟩
    rw [if_pos hcalls, heq]
    exact ⟨Nat.le_refl _, iff_of_true rfl fun hsome => absurd hsome hnone⟩
  · have hsome : ∃ b ∈ bs, b.kind = .toolUse := by
      rwa [filter_isCall_eq_nil_iff, not_not] at hcalls
    have heq : ((bs.filter Block.isCall).map fun b =>
        Item.call b.id b.name (encode.input b.input)) = bs.flatMap (Block.callItems encode) := by
      rw [List.map_eq_flatMap, flatMap_filter]
      rfl
    have hle : ∀ b ∈ bs, (b.callItems encode).length ≤ (b.restItems encode).length :=
      fun b _ => length_callItems_le encode b
    rw [if_neg hcalls, heq]
    refine ⟨length_flatMap_le hle, ?_⟩
    rw [flatMap_eq_flatMap_iff hle, forall_prop_of_true hsome]
    exact forall₂_congr fun b _ => callItems_eq_iff encode b

/-- A message keeps its items exactly if it has no texts beside calls; it never has more. -/
theorem convertMessage_items (encode : Encode J R) (request : Request J R)
    (m : ClaudeMessage J R) :
    ((convertMessage encode request m).flatMap itemsOf).length ≤ (m.hoisted encode).length ∧
      ((convertMessage encode request m).flatMap itemsOf = m.hoisted encode ↔
        ((∃ b ∈ m.blocks, b.kind = .toolUse) → ∀ b ∈ m.blocks, b.kind ≠ .text)) := by
  obtain ⟨role, content⟩ := m
  cases content with
  | string s =>
      have heq : (convertMessage encode request ⟨role, .string s⟩).flatMap itemsOf =
          [.text s] := by
        obtain ⟨hsystem, htool⟩ := name_ne role
        simp [convertMessage, RequestMessage.sent, RequestContent.parse, itemsOf, hsystem, htool,
          RequestMessage.texts, MediaContent.texts]
      rw [heq]
      exact ⟨Nat.le_refl _, iff_of_true rfl fun _ => List.forall_mem_nil _⟩
  | blocks bs =>
      obtain ⟨hle, hiff⟩ := itemsOf_rest_cases encode role bs
      have hhoisted : (⟨role, .blocks bs⟩ : ClaudeMessage J R).hoisted encode =
          (bs.filter Block.isResult).flatMap (Block.items encode) ++
            bs.flatMap (Block.restItems encode) := by
        exact congrArg (_ ++ ·) (flatMap_filter (fun b => !b.isResult) _ bs)
      rw [convertMessage_blocks, List.flatMap_append, itemsOf_tools, hhoisted,
        List.length_append, List.length_append, List.append_cancel_left_eq]
      exact ⟨Nat.add_le_add_left hle _, hiff⟩

/-! ## Calls before their results -/

theorem callIds_append (role : Role) (bs cs : List (Block J R)) :
    callIds role (bs ++ cs) = callIds role bs ++ callIds role cs := by
  rw [callIds, callIds, callIds]
  split
  next => rw [List.filter_append, List.map_append]
  next => rfl

/-- The results of a message find their calls if those that find them in it do so before it. -/
theorem hadBlocks_iff (role : Role) (seen own : List String) (bs : List (Block J R)) :
    List.Forall₂ (fun had has => had = true → has = true) (hadBlocks role own bs)
        ((bs.filter Block.isResult).map fun b => decide (b.toolUseId ∈ seen)) ↔
      ∀ before b after, bs = before ++ b :: after → b.kind = .toolResult →
        b.toolUseId ∈ own ++ callIds role before → b.toolUseId ∈ seen := by
  induction bs generalizing own with
  | nil =>
      refine iff_of_true List.Forall₂.nil fun before b after h => ?_
      exact absurd h.symm (List.append_ne_nil_of_right_ne_nil _ (List.cons_ne_nil _ _))
  | cons b bs ih =>
      have hnil : callIds role ([] : List (Block J R)) = [] := by
        rw [callIds]
        split <;> rfl
      have hcons (before : List (Block J R)) :
          own ++ callIds role (b :: before) = own ++ callIds role [b] ++ callIds role before := by
        rw [List.append_assoc, ← callIds_append]
        rfl
      have htail : (∀ before c after, bs = before ++ c :: after → c.kind = .toolResult →
            c.toolUseId ∈ own ++ callIds role (b :: before) → c.toolUseId ∈ seen) ↔
          List.Forall₂ (fun had has => had = true → has = true)
            (hadBlocks role (own ++ callIds role [b]) bs)
            ((bs.filter Block.isResult).map fun b => decide (b.toolUseId ∈ seen)) := by
        rw [ih]
        refine forall_congr' fun before => ?_
        rw [hcons]
      rw [forall_split_cons, hnil, List.append_nil, hadBlocks, List.filter_cons, htail]
      by_cases hresult : b.isResult = true
      · have hkind : b.kind = .toolResult := of_decide_eq_true hresult
        rw [if_pos hresult, if_pos hresult, List.map_cons, List.singleton_append,
          List.forall₂_cons, decide_eq_true_eq, decide_eq_true_eq]
        exact and_congr_left fun _ => ⟨fun h _ => h, fun h => h hkind⟩
      · have hkind : b.kind ≠ .toolResult := fun h => hresult (decide_eq_true h)
        rw [if_neg hresult, if_neg hresult, List.nil_append]
        exact (and_iff_right fun h => absurd h hkind).symm

theorem length_hadBlocks (role : Role) (own : List String) (bs : List (Block J R)) :
    (hadBlocks role own bs).length = (bs.filter Block.isResult).length := by
  induction bs generalizing own with
  | nil => rfl
  | cons b bs ih =>
      rw [hadBlocks, List.length_append, ih, List.filter_cons]
      split
      next => rw [List.length_singleton, List.length_cons, Nat.add_comm]
      next => rw [List.length_nil, Nat.zero_add]

theorem haveCalls_tools (encode : Encode J R) (request : Request J R) (seen : List String)
    (bs : List (Block J R)) (messages : List RequestMessage) :
    haveCalls seen (bs.map (toolMessage encode request) ++ messages) =
      bs.map (fun b => decide (b.toolUseId ∈ seen)) ++ haveCalls seen messages := by
  induction bs with
  | nil => rfl
  | cons b bs ih =>
      rw [List.map_cons, List.cons_append, haveCalls, List.map_cons, List.cons_append]
      have htool : (toolMessage encode request b).role = "tool" := rfl
      rw [htool, if_pos rfl, if_neg (by decide), List.append_nil, ih]
      rfl

/-- A message has its results before its calls. -/
theorem haveCalls_convertMessage (encode : Encode J R) (request : Request J R)
    (seen : List String) (m : ClaudeMessage J R) (messages : List RequestMessage) :
    haveCalls seen (convertMessage encode request m ++ messages) =
      ((m.blocks.filter Block.isResult).map fun b => decide (b.toolUseId ∈ seen)) ++
        haveCalls (seen ++ callIds m.role m.blocks) messages := by
  obtain ⟨role, content⟩ := m
  have hassistant : role.name = "assistant" ↔ role = .assistant := by cases role <;> decide
  obtain ⟨-, htool⟩ := name_ne role
  cases content with
  | string s =>
      have hids : callIds role ([] : List (Block J R)) = [] := by
        rw [callIds]
        split <;> rfl
      simp [convertMessage, RequestMessage.sent, RequestContent.parse, haveCalls, htool,
        ClaudeMessage.blocks, hids]
  | blocks bs =>
      rw [convertMessage_blocks, List.append_assoc, haveCalls_tools]
      refine congrArg (_ ++ ·) ?_
      have hids : callIds role bs =
          if role.name = "assistant" then (rest encode role bs).toolCalls.map (·.id) else [] := by
        rw [callIds, rest, List.map_map, if_congr hassistant rfl rfl]
        rfl
      rw [RequestMessage.sent]
      split
      next =>
        rw [List.singleton_append, haveCalls]
        simp only [ClaudeMessage.blocks, hids]
        simp [rest, htool]
      next hempty =>
        have hcalls : (rest encode role bs).toolCalls = [] := by
          rw [not_or, not_not, not_not] at hempty
          exact hempty.2
        simp [ClaudeMessage.blocks, hids, hcalls]

theorem calls_iff (encode : Encode J R) (request : Request J R) (seen : List String)
    (messages : List (ClaudeMessage J R)) :
    List.Forall₂ (fun had has => had = true → has = true) (hadCalls seen messages)
        (haveCalls seen (messages.flatMap (convertMessage encode request))) ↔
      ∀ before m after, messages = before ++ m :: after →
        ∀ bs b cs, m.blocks = bs ++ b :: cs → b.kind = .toolResult →
          b.toolUseId ∈ callIds m.role bs →
            b.toolUseId ∈ seen ++ before.flatMap fun m => callIds m.role m.blocks := by
  induction messages generalizing seen with
  | nil =>
      refine iff_of_true List.Forall₂.nil fun before m after h => ?_
      exact absurd h.symm (List.append_ne_nil_of_right_ne_nil _ (List.cons_ne_nil _ _))
  | cons m messages ih =>
      rw [forall_split_cons, List.flatMap_cons, hadCalls, haveCalls_convertMessage,
        forall₂_append_iff (by rw [length_hadBlocks, List.length_map]), hadBlocks_iff, ih,
        List.flatMap_nil, List.append_nil]
      refine and_congr ?_ ?_
      · refine forall₄_congr fun bs b cs _ => forall_congr' fun _ => ?_
        rw [List.mem_append]
        exact ⟨fun h hown => h (.inr hown), fun h hmem => hmem.elim id h⟩
      · simp only [List.flatMap_cons, List.append_assoc]

/-- The system message has no items and no calls. -/
theorem systemMessages_append (openRouterClaude : Bool) (system : ClaudeSystem)
    (messages : List RequestMessage) :
    (systemMessages openRouterClaude system ++ messages).flatMap itemsOf =
        messages.flatMap itemsOf ∧
      haveCalls [] (systemMessages openRouterClaude system ++ messages) =
        haveCalls [] messages := by
  have hsystem (content : RequestContent) :
      (⟨"system", content, none, [], ""⟩ :: messages).flatMap itemsOf =
          messages.flatMap itemsOf ∧
        haveCalls [] (⟨"system", content, none, [], ""⟩ :: messages) = haveCalls [] messages :=
    ⟨rfl, rfl⟩
  have hnone : ([] ++ messages).flatMap itemsOf = messages.flatMap itemsOf ∧
      haveCalls [] ([] ++ messages) = haveCalls [] messages := ⟨rfl, rfl⟩
  cases system with
  | none => exact hnone
  | string s =>
      rw [systemMessages]
      split
      next => exact hnone
      next => exact hsystem _
  | blocks texts =>
      rw [systemMessages]
      split
      next => exact hnone
      next =>
        split
        next => exact hsystem _
        next => exact hsystem _

end

/-- The conversation is kept exactly if no message has texts beside calls, and results behind a
call of their own message are also behind an earlier one. -/
theorem keeps_iff (encode : Encode J R) (openRouterClaude : Bool) (request : Request J R) :
    Keeps encode request (claudeToOpenAIRequest encode openRouterClaude request) ↔
      Separate request := by
  obtain ⟨hitems, hcalls⟩ := systemMessages_append openRouterClaude request.system
    (request.messages.flatMap (convertMessage encode request))
  have htexts : (claudeToOpenAIRequest encode openRouterClaude request).flatMap itemsOf =
        request.messages.flatMap (ClaudeMessage.hoisted encode) ↔
      ∀ m ∈ request.messages, (∃ b ∈ m.blocks, b.kind = .toolUse) →
        ∀ b ∈ m.blocks, b.kind ≠ .text := by
    rw [claudeToOpenAIRequest, hitems, List.flatMap_assoc, flatMap_eq_flatMap_iff]
    · exact forall₂_congr fun m _ => (convertMessage_items encode request m).2
    · exact fun m _ => (convertMessage_items encode request m).1
  have hanswers := calls_iff encode request [] request.messages
  rw [← hcalls] at hanswers
  constructor
  · rintro ⟨hitems, hcalled⟩
    exact ⟨htexts.1 hitems, hanswers.1 hcalled⟩
  · rintro ⟨hseparate, hearlier⟩
    exact ⟨htexts.2 hseparate, hanswers.2 hearlier⟩

/-- An assistant that says what it is about to do. -/
def toolTurn : Request Unit Unit where
  messages := [⟨.assistant, .blocks
    [⟨"text", some "Let me look.", ⟨"", ""⟩, "", "", (), "", .string ""⟩,
      ⟨"tool_use", none, ⟨"", ""⟩, "toolu_1", "look", (), "", .string ""⟩]⟩]
  system := .none

/-- The text beside the call is lost. -/
theorem not_keeps_toolTurn : ¬ ∀ (encode : Encode Unit Unit) (request : Request Unit Unit),
    Keeps encode request (claudeToOpenAIRequest encode false request) := by
  intro h
  have hitems := (h ⟨fun _ => "\x7b\x7d", fun _ => ""⟩ toolTurn).items
  have hlen := congrArg List.length hitems
  exact absurd hlen (by decide)

end DazeApi.Convert.ClaudeRequest
