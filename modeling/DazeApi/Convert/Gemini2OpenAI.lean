import Mathlib.Algebra.GroupWithZero.Nat
import Mathlib.Data.List.Nodup
import DazeApi.Lib.Decimal
import DazeApi.Convert.ChatRequest

/-!
# Gemini requests as OpenAI requests

`GeminiToOpenAIRequest` (`service/convert.go`) makes messages of the contents of a request.  The
id of a tool call is its number in its content, and a response has the id of the last call of
its own content.  Calls, responses, texts and stop sequences are kept exactly if one content at
most has calls, it has no text, there is no response, and the stop sequences are none or four or
more (`matched_iff`).
-/

namespace DazeApi.Convert.Gemini2OpenAI

variable {J : Type}

/-! ## Requests -/

structure InlineData where
  mimeType : String
  data : String

structure FileData where
  mimeType : String
  fileUri : String

structure FunctionCall (J : Type) where
  functionName : String
  arguments : J

/-- A part; the first of its fields that is there counts. -/
structure Part (J : Type) where
  text : String
  inlineData : Option InlineData
  fileData : Option FileData
  functionCall : Option (FunctionCall J)
  functionResponse : Option J

structure Content (J : Type) where
  role : String
  parts : List (Part J)

/-- A slice of strings, with what its array has behind it. -/
structure Slice where
  values : List String
  hidden : List String

structure GeminiChatRequest (J : Type) where
  contents : List (Content J)
  stopSequences : Slice
  systemInstructions : Option (List (Part J))

/-! ## Messages -/

structure GeneralOpenAIRequest where
  messages : List RequestMessage
  stop : List String

def convertGeminiRoleToOpenAI (geminiRole : String) : String :=
  match geminiRole with
  | "user" => "user"
  | "model" => "assistant"
  | "function" => "function"
  | _ => "user"

/-- `fmt.Sprintf("call_%d", n)`. -/
def callId (n : ℕ) : String := "call_" ++ String.ofList (Decimal.formatNat n)

/-- What the loop over the parts has so far. -/
structure Parts where
  responses : List RequestMessage
  media : List MediaContent
  toolCalls : List ToolCallRequest

def addPart (toJSONString : J → String) (acc : Parts) (part : Part J) : Parts :=
  if part.text ≠ "" then { acc with media := acc.media ++ [.text part.text] }
  else
    match part.inlineData, part.fileData, part.functionCall, part.functionResponse with
    | some d, _, _, _ =>
        { acc with
          media := acc.media ++
            [.imageUrl ("data:" ++ d.mimeType ++ ";base64," ++ d.data) "auto" d.mimeType] }
    | none, some d, _, _ =>
        { acc with media := acc.media ++ [.imageUrl d.fileUri "auto" d.mimeType] }
    | none, none, some call, _ =>
        { acc with
          toolCalls := acc.toolCalls ++
            [⟨callId (acc.toolCalls.length + 1), "function", call.functionName,
              toJSONString call.arguments⟩] }
    | none, none, none, some response =>
        { acc with
          responses := acc.responses ++
            [⟨"tool", .string (toJSONString response), none, [], callId acc.toolCalls.length⟩] }
    | none, none, none, none => acc

/-- The content of a message without tool calls. -/
def messageContent : List MediaContent → RequestContent
  | [] => .none
  | [.text s] => .string s
  | contents => .media contents

/-- The message of a content; with tool calls it has no other content. -/
def Parts.message (acc : Parts) (role : String) : RequestMessage where
  role := convertGeminiRoleToOpenAI role
  content := if acc.toolCalls ≠ [] then .none else messageContent acc.media
  name := none
  toolCalls := acc.toolCalls
  toolCallId := ""

/-- The messages of a content: its responses, and one with the rest of it. -/
def convertContent (toJSONString : J → String) (content : Content J) : List RequestMessage :=
  let acc := content.parts.foldl (addPart toJSONString) ⟨[], [], []⟩
  acc.responses ++ (acc.message content.role).sent

def extractTextFromGeminiParts (parts : List (Part J)) : String :=
  Text.join ((parts.map (·.text)).filter (· ≠ "")) '\n'

/-- `s[:n]`, which may go beyond the slice but not beyond its array. -/
def Slice.upTo (s : Slice) (n : ℕ) : Option (List String) :=
  if n ≤ (s.values ++ s.hidden).length then some ((s.values ++ s.hidden).take n) else none

/-- The stop sequences, of which OpenAI takes four at most; `none` is a panic. -/
def openaiStop (stopSequences : Slice) : Option (List String) :=
  if stopSequences.values ≠ [] then stopSequences.upTo 4 else some []

def systemMessages (request : GeminiChatRequest J) : List RequestMessage :=
  match request.systemInstructions with
  | some parts => [⟨"system", .string (extractTextFromGeminiParts parts), none, [], ""⟩]
  | none => []

/-- `GeminiToOpenAIRequest`, or `none` where it panics. -/
def geminiToOpenAIRequest (toJSONString : J → String) (request : GeminiChatRequest J) :
    Option GeneralOpenAIRequest :=
  (openaiStop request.stopSequences).map fun stop =>
    ⟨systemMessages request ++ request.contents.flatMap (convertContent toJSONString), stop⟩

/-! ## What is meant -/

def Part.isMedia (part : Part J) : Bool :=
  part.text ≠ "" || part.inlineData.isSome || part.fileData.isSome

def Part.isCall (part : Part J) : Bool := !part.isMedia && part.functionCall.isSome

def Part.isResponse (part : Part J) : Bool :=
  !part.isMedia && part.functionCall.isNone && part.functionResponse.isSome

def Content.calls (content : Content J) : ℕ := content.parts.countP Part.isCall

def Content.responses (content : Content J) : ℕ := content.parts.countP Part.isResponse

def Content.texts (content : Content J) : List String :=
  (content.parts.map (·.text)).filter (· ≠ "")

def hasCalls (content : Content J) : Bool := content.calls ≠ 0

/-- Responses follow the calls that they answer, in a later content. -/
def Prescribed (contents : List (Content J)) : Prop :=
  ∀ before content after, contents = before ++ content :: after →
    ((before ++ [content]).map Content.responses).sum ≤ (before.map Content.calls).sum

/-- The ids of all calls, in order, and those that the tool messages name. -/
def callIds (messages : List RequestMessage) : List String :=
  messages.flatMap fun m => m.toolCalls.map (·.id)

def answeredIds (messages : List RequestMessage) : List String :=
  (messages.filter (·.role = "tool")).map (·.toolCallId)

/-- The texts of messages with tool calls. -/
def textsWithCalls (messages : List RequestMessage) : List String :=
  (messages.filter (·.toolCalls ≠ [])).flatMap RequestMessage.texts

/-- Calls have their own ids, the tool messages name the calls in order, texts beside calls are
kept, and so are the first four stop sequences. -/
structure Matched (request : GeminiChatRequest J) (result : GeneralOpenAIRequest) : Prop where
  distinct : (callIds result.messages).Nodup
  answered : answeredIds result.messages =
    (callIds result.messages).take (answeredIds result.messages).length
  texts : textsWithCalls result.messages =
    (request.contents.filter hasCalls).flatMap Content.texts
  stop : result.stop = request.stopSequences.values.take 4

/-! ## When it is -/

structure Fits (request : GeminiChatRequest J) : Prop where
  oneTurn : (request.contents.filter hasCalls).length ≤ 1
  noResponse : ∀ content ∈ request.contents, content.responses = 0
  noText : ∀ content ∈ request.contents, hasCalls content = true → content.texts = []
  stops : request.stopSequences.values = [] ∨ 4 ≤ request.stopSequences.values.length

/-! ## One content -/

section

variable {toJSONString : J → String} {acc : Parts} {part : Part J} {content : Content J}
  {contents : List (Content J)}

theorem callId_injective {m n : ℕ} (h : callId m = callId n) : m = n := by
  have hlist := congrArg String.toList h
  simp only [callId, String.toList_append, String.toList_ofList] at hlist
  have hparse := congrArg Decimal.parseNat (List.append_cancel_left hlist)
  rw [Decimal.parseNat_formatNat, Decimal.parseNat_formatNat] at hparse
  exact Option.some.inj hparse

/-- Calls are numbered from one, and a response has the number of calls before it. -/
structure Built (acc : Parts) : Prop where
  ids : acc.toolCalls.map (·.id) =
    (List.range acc.toolCalls.length).map fun k => callId (k + 1)
  responses : ∀ m ∈ acc.responses, m.role = "tool" ∧ m.toolCalls = [] ∧
    ∃ k ≤ acc.toolCalls.length, m.toolCallId = callId k

/-- What a part adds. -/
theorem addPart_cases (toJSONString : J → String) (acc : Parts) (part : Part J) :
    (part.isMedia = true ∧ part.isCall = false ∧ part.isResponse = false ∧
        ∃ media, addPart toJSONString acc part = { acc with media := media }) ∨
      (part.isCall = true ∧ part.isResponse = false ∧
        ∃ name arguments, addPart toJSONString acc part = { acc with
          toolCalls := acc.toolCalls ++
            [⟨callId (acc.toolCalls.length + 1), "function", name, arguments⟩] }) ∨
      (part.isCall = false ∧ part.isResponse = true ∧
        ∃ text, addPart toJSONString acc part = { acc with
          responses := acc.responses ++
            [⟨"tool", text, none, [], callId acc.toolCalls.length⟩] }) ∨
      (part.isCall = false ∧ part.isResponse = false ∧ addPart toJSONString acc part = acc) := by
  obtain ⟨text, inlineData, fileData, functionCall, functionResponse⟩ := part
  by_cases htext : text = ""
  · subst htext
    cases inlineData with
    | some d => exact Or.inl ⟨rfl, rfl, rfl, _, rfl⟩
    | none =>
        cases fileData with
        | some d => exact Or.inl ⟨rfl, rfl, rfl, _, rfl⟩
        | none =>
            cases functionCall with
            | some call => exact Or.inr (Or.inl ⟨rfl, rfl, _, _, rfl⟩)
            | none =>
                cases functionResponse with
                | some response => exact Or.inr (Or.inr (Or.inl ⟨rfl, rfl, _, rfl⟩))
                | none => exact Or.inr (Or.inr (Or.inr ⟨rfl, rfl, rfl⟩))
  · have hmedia : (⟨text, inlineData, fileData, functionCall, functionResponse⟩ : Part J).isMedia =
        true := by simp [Part.isMedia, htext]
    refine Or.inl ⟨hmedia, by rw [Part.isCall, hmedia]; rfl, by rw [Part.isResponse, hmedia]; rfl,
      acc.media ++ [.text text], ?_⟩
    rw [addPart, if_pos htext]

theorem built_addPart (toJSONString : J → String) (h : Built acc) (part : Part J) :
    Built (addPart toJSONString acc part) := by
  obtain ⟨-, -, -, media, heq⟩ | ⟨-, -, name, arguments, heq⟩ | ⟨-, -, text, heq⟩ | ⟨-, -, heq⟩ :=
    addPart_cases toJSONString acc part
  · rw [heq]
    exact ⟨h.ids, h.responses⟩
  · rw [heq]
    constructor
    · simp only [List.map_append, h.ids, List.length_append, List.length_singleton,
        List.range_succ, List.map_cons, List.map_nil]
    · intro m hm
      obtain ⟨hrole, hcalls, k, hk, hid⟩ := h.responses m hm
      refine ⟨hrole, hcalls, k, ?_, hid⟩
      rw [List.length_append]
      exact Nat.le_add_right_of_le hk
  · rw [heq]
    refine ⟨h.ids, fun m hm => ?_⟩
    rcases List.mem_append.1 hm with hm | hm
    · exact h.responses m hm
    · rw [List.mem_singleton.1 hm]
      exact ⟨rfl, rfl, _, Nat.le_refl _, rfl⟩
  · rwa [heq]

theorem length_addPart (toJSONString : J → String) (acc : Parts) (part : Part J) :
    (addPart toJSONString acc part).toolCalls.length =
      acc.toolCalls.length + (if part.isCall then 1 else 0) ∧
    (addPart toJSONString acc part).responses.length =
      acc.responses.length + (if part.isResponse then 1 else 0) := by
  obtain ⟨-, hc, hr, media, heq⟩ | ⟨hc, hr, name, arguments, heq⟩ | ⟨hc, hr, text, heq⟩ |
    ⟨hc, hr, heq⟩ := addPart_cases toJSONString acc part <;>
    rw [heq, hc, hr] <;> simp

theorem foldl_addPart (toJSONString : J → String) (parts : List (Part J)) (h : Built acc) :
    Built (parts.foldl (addPart toJSONString) acc) ∧
      (parts.foldl (addPart toJSONString) acc).toolCalls.length =
        acc.toolCalls.length + parts.countP Part.isCall ∧
      (parts.foldl (addPart toJSONString) acc).responses.length =
        acc.responses.length + parts.countP Part.isResponse := by
  induction parts generalizing acc with
  | nil => exact ⟨h, rfl, rfl⟩
  | cons part parts ih =>
      obtain ⟨hbuilt, hcalls, hresponses⟩ := ih (built_addPart toJSONString h part)
      obtain ⟨hc, hr⟩ := length_addPart toJSONString acc part
      rw [List.foldl_cons, List.countP_cons, List.countP_cons]
      exact ⟨hbuilt, by rw [hcalls, hc]; omega, by rw [hresponses, hr]; omega⟩

theorem role_ne_tool (role : String) : convertGeminiRoleToOpenAI role ≠ "tool" := by
  unfold convertGeminiRoleToOpenAI
  split <;> decide

/-- What is read off the messages of a content. -/
theorem content_messages (toJSONString : J → String) (content : Content J) :
    callIds (convertContent toJSONString content) =
        (List.range content.calls).map (fun k => callId (k + 1)) ∧
      (answeredIds (convertContent toJSONString content)).length = content.responses ∧
      (∀ id ∈ answeredIds (convertContent toJSONString content),
        ∃ k ≤ content.calls, id = callId k) ∧
      textsWithCalls (convertContent toJSONString content) = [] := by
  have hempty : Built (⟨[], [], []⟩ : Parts) := ⟨rfl, List.forall_mem_nil _⟩
  obtain ⟨hbuilt, hcalls, hresponses⟩ :=
    foldl_addPart toJSONString content.parts hempty
  rw [convertContent]
  generalize content.parts.foldl (addPart toJSONString) ⟨[], [], []⟩ = acc at *
  rw [List.length_nil, Nat.zero_add] at hcalls hresponses
  have htoolcalls : ∀ m ∈ acc.responses, m.toolCalls = [] := fun m hm => (hbuilt.responses m hm).2.1
  have hroles : ∀ m ∈ acc.responses, m.role = "tool" := fun m hm => (hbuilt.responses m hm).1
  have hids : acc.responses.flatMap (fun m => m.toolCalls.map (·.id)) = [] := by
    rw [List.flatMap_eq_nil_iff]
    intro m hm
    rw [htoolcalls m hm]
    rfl
  have hfiltered : acc.responses.filter (·.role = "tool") = acc.responses := by
    rw [List.filter_eq_self]
    exact fun m hm => decide_eq_true (hroles m hm)
  have hnocalls : acc.responses.filter (·.toolCalls ≠ []) = [] := by
    rw [List.filter_eq_nil_iff]
    intro m hm
    simp [htoolcalls m hm]
  have hcallsOf : (acc.message content.role).toolCalls = acc.toolCalls := rfl
  have hrole : (acc.message content.role).role ≠ "tool" := role_ne_tool content.role
  have hcontent (hc : acc.toolCalls ≠ []) : (acc.message content.role).content = .none :=
    if_pos hc
  generalize acc.message content.role = message at *
  have hsent : message.sent = [message] ∨ message.sent = [] ∧ acc.toolCalls = [] := by
    rw [RequestMessage.sent]
    split
    next => exact Or.inl rfl
    next h => exact Or.inr ⟨rfl, by simpa [hcallsOf] using (not_or.1 h).2⟩
  have hanswered : (acc.responses ++ message.sent).filter (·.role = "tool") = acc.responses := by
    rw [List.filter_append, hfiltered]
    rcases hsent with h | ⟨h, -⟩ <;> simp [h, hrole]
  refine ⟨?_, ?_, ?_, ?_⟩
  · rw [callIds, List.flatMap_append, hids, List.nil_append, Content.calls, ← hcalls,
      ← hbuilt.ids]
    rcases hsent with h | ⟨h, hc⟩
    · simp [h, hcallsOf]
    · simp [h, hc]
  · rw [answeredIds, hanswered, List.length_map, hresponses]
    rfl
  · intro id hid
    rw [answeredIds, hanswered] at hid
    obtain ⟨m, hm, rfl⟩ := List.mem_map.1 hid
    obtain ⟨-, -, k, hk, heq⟩ := hbuilt.responses m hm
    exact ⟨k, by rwa [Content.calls, ← hcalls], heq⟩
  · rw [textsWithCalls, List.filter_append, hnocalls, List.nil_append]
    by_cases hc : acc.toolCalls = []
    · rcases hsent with h | ⟨h, -⟩ <;> simp [h, hcallsOf, hc]
    · rcases hsent with h | ⟨-, hnil⟩
      · simp [h, hcallsOf, hc, hcontent hc, RequestMessage.texts, RequestContent.parse]
      · exact absurd hnil hc

/-! ## All contents -/

theorem callIds_flatMap (contents : List (Content J)) :
    callIds (contents.flatMap (convertContent toJSONString)) =
      contents.flatMap fun c => (List.range c.calls).map fun k => callId (k + 1) := by
  rw [callIds, List.flatMap_assoc]
  exact List.flatMap_congr fun c _ => (content_messages toJSONString c).1

theorem answeredIds_flatMap (contents : List (Content J)) :
    answeredIds (contents.flatMap (convertContent toJSONString)) =
      contents.flatMap fun c => answeredIds (convertContent toJSONString c) := by
  rw [answeredIds, List.filter_flatMap, List.map_flatMap]
  rfl

theorem textsWithCalls_flatMap (contents : List (Content J)) :
    textsWithCalls (contents.flatMap (convertContent toJSONString)) = [] := by
  rw [textsWithCalls, List.filter_flatMap, List.flatMap_assoc, List.flatMap_eq_nil_iff]
  exact fun c _ => (content_messages toJSONString c).2.2.2

/-- Calls of two contents share an id. -/
theorem nodup_callIds_iff (contents : List (Content J)) :
    (contents.flatMap fun c => (List.range c.calls).map fun k => callId (k + 1)).Nodup ↔
      (contents.filter hasCalls).length ≤ 1 := by
  have hone (c : Content J) : ((List.range c.calls).map fun k => callId (k + 1)).Nodup :=
    List.nodup_range.map fun _ _ h => Nat.succ.inj (callId_injective h)
  induction contents with
  | nil => simp
  | cons c contents ih =>
      rw [List.flatMap_cons, List.filter_cons]
      by_cases hc : hasCalls c = true
      · rw [if_pos hc, List.length_cons, List.nodup_append]
        have hfirst : callId 1 ∈ (List.range c.calls).map fun k => callId (k + 1) := by
          refine List.mem_map.2 ⟨0, List.mem_range.2 ?_, rfl⟩
          rw [hasCalls, decide_eq_true_eq] at hc
          omega
        constructor
        · rintro ⟨-, -, hdisjoint⟩
          have hnone : contents.filter hasCalls = [] := by
            rw [List.filter_eq_nil_iff]
            intro d hd hcalls
            refine hdisjoint _ hfirst (callId 1) (List.mem_flatMap.2 ⟨d, hd, ?_⟩) rfl
            refine List.mem_map.2 ⟨0, List.mem_range.2 ?_, rfl⟩
            rw [hasCalls, decide_eq_true_eq] at hcalls
            omega
          rw [hnone]
          rfl
        · intro hle
          have hnone : contents.filter hasCalls = [] :=
            List.length_eq_zero_iff.1 (by omega)
          have hrest : (contents.flatMap fun c => (List.range c.calls).map fun k => callId (k + 1)) =
              [] := by
            rw [List.flatMap_eq_nil_iff]
            intro d hd
            have hzero := List.filter_eq_nil_iff.1 hnone d hd
            rw [hasCalls, decide_eq_true_eq, not_not] at hzero
            rw [hzero]
            rfl
          rw [hrest]
          exact ⟨hone c, List.nodup_nil, by simp⟩
      · have hzero : c.calls = 0 := by
          rwa [hasCalls, decide_eq_true_eq, not_not] at hc
        rw [if_neg hc, hzero]
        exact ih

theorem sum_pos_iff {l : List ℕ} : 0 < l.sum ↔ ∃ n ∈ l, 0 < n := by
  induction l with
  | nil => simp
  | cons n l ih => rw [List.sum_cons, List.exists_mem_cons_iff, ← ih]; omega

theorem answeredIds_eq_nil_iff (contents : List (Content J)) :
    answeredIds (contents.flatMap (convertContent toJSONString)) = [] ↔
      ∀ c ∈ contents, c.responses = 0 := by
  rw [answeredIds_flatMap, List.flatMap_eq_nil_iff]
  refine forall₂_congr fun c _ => ?_
  rw [← (content_messages toJSONString c).2.1, List.length_eq_zero_iff]

/-- With one turn of calls a later response names no call. -/
theorem no_response (toJSONString : J → String) (hprescribed : Prescribed contents)
    (hone : (contents.filter hasCalls).length ≤ 1)
    (hanswered : ∀ id ∈ answeredIds (contents.flatMap (convertContent toJSONString)),
      id ∈ callIds (contents.flatMap (convertContent toJSONString))) :
    ∀ c ∈ contents, c.responses = 0 := by
  intro c hc
  by_contra hne
  obtain ⟨before, after, rfl⟩ := List.append_of_mem hc
  have hle := hprescribed before c after rfl
  rw [List.map_append, List.sum_append, List.map_singleton, List.sum_singleton] at hle
  obtain ⟨n, hn, hpos⟩ := sum_pos_iff.1 (show 0 < (before.map Content.calls).sum by omega)
  obtain ⟨d, hd, rfl⟩ := List.mem_map.1 hn
  have hdcalls : d ∈ before.filter hasCalls := by
    rw [List.mem_filter, hasCalls, decide_eq_true_eq]
    exact ⟨hd, by omega⟩
  have hccalls : c.calls = 0 := by
    by_contra hcalls
    have hkeep : hasCalls c = true := decide_eq_true hcalls
    rw [List.filter_append, List.filter_cons_of_pos hkeep, List.length_append,
      List.length_cons] at hone
    have hpos' := List.length_pos_of_mem hdcalls
    omega
  obtain ⟨-, hlen, hids, -⟩ := content_messages toJSONString c
  obtain ⟨id, hid⟩ := List.exists_mem_of_length_pos
    (show 0 < (answeredIds (convertContent toJSONString c)).length by omega)
  obtain ⟨k, hk, rfl⟩ := hids id hid
  rw [hccalls, Nat.le_zero] at hk
  subst hk
  have hmem := hanswered (callId 0) (by
    rw [answeredIds_flatMap]
    exact List.mem_flatMap.2 ⟨c, hc, hid⟩)
  rw [callIds_flatMap] at hmem
  obtain ⟨e, -, he⟩ := List.mem_flatMap.1 hmem
  obtain ⟨j, -, hj⟩ := List.mem_map.1 he
  exact absurd (callId_injective hj) (Nat.succ_ne_zero j)

theorem openaiStop_iff (s : Slice) :
    (∃ stop, openaiStop s = some stop ∧ stop = s.values.take 4) ↔
      s.values = [] ∨ 4 ≤ s.values.length := by
  rw [openaiStop]
  by_cases hempty : s.values = []
  · rw [if_neg (by rwa [not_not]), hempty]
    exact iff_of_true ⟨[], rfl, rfl⟩ (Or.inl rfl)
  · rw [if_pos hempty, or_iff_right hempty, Slice.upTo]
    split
    next hle =>
      constructor
      · rintro ⟨stop, hstop, rfl⟩
        have hlen := congrArg List.length (Option.some.inj hstop)
        rw [List.length_take, List.length_take] at hlen
        omega
      · intro hlen
        exact ⟨_, rfl, List.take_append_of_le_length hlen⟩
    next hlt =>
      rw [List.length_append] at hlt
      refine iff_of_false ?_ (by omega)
      rintro ⟨stop, ⟨⟩, -⟩

/-- The system message has neither calls nor an answer. -/
theorem systemMessages_append (request : GeminiChatRequest J) (messages : List RequestMessage) :
    callIds (systemMessages request ++ messages) = callIds messages ∧
      answeredIds (systemMessages request ++ messages) = answeredIds messages ∧
        textsWithCalls (systemMessages request ++ messages) = textsWithCalls messages := by
  rw [systemMessages]
  split <;> exact ⟨rfl, rfl, rfl⟩

end

/-- In the prescribed order everything is matched exactly if one content at most has calls and
no text with them, nothing is answered, and the stop sequences are none or at least four. -/
theorem matched_iff (toJSONString : J → String) (request : GeminiChatRequest J)
    (hprescribed : Prescribed request.contents) :
    (∃ result, geminiToOpenAIRequest toJSONString request = some result ∧
      Matched request result) ↔ Fits request := by
  have htexts : (request.contents.filter hasCalls).flatMap Content.texts = [] ↔
      ∀ c ∈ request.contents, hasCalls c = true → c.texts = [] := by
    rw [List.flatMap_eq_nil_iff]
    simp only [List.mem_filter, and_imp]
  obtain ⟨hcalls, hanswers, htextsOf⟩ := systemMessages_append request
    (request.contents.flatMap (convertContent toJSONString))
  rw [callIds_flatMap] at hcalls
  rw [textsWithCalls_flatMap] at htextsOf
  constructor
  · rintro ⟨result, hresult, hmatched⟩
    obtain ⟨stop, hstop, rfl⟩ := Option.map_eq_some_iff.1 hresult
    obtain ⟨hdistinct, hanswered, htextsKept, hstopKept⟩ := hmatched
    rw [hcalls, nodup_callIds_iff] at hdistinct
    rw [htextsOf] at htextsKept
    refine ⟨hdistinct, no_response toJSONString hprescribed hdistinct ?_,
      htexts.1 htextsKept.symm, (openaiStop_iff _).1 ⟨stop, hstop, hstopKept⟩⟩
    intro id hid
    rw [← hanswers, hanswered] at hid
    rw [callIds_flatMap, ← hcalls]
    exact List.mem_of_mem_take hid
  · intro h
    obtain ⟨stop, hstop, hstopKept⟩ := (openaiStop_iff _).2 h.stops
    refine ⟨_, Option.map_eq_some_iff.2 ⟨stop, hstop, rfl⟩, ?_, ?_, ?_, hstopKept⟩
    · rw [hcalls, nodup_callIds_iff]
      exact h.oneTurn
    · rw [hanswers, (answeredIds_eq_nil_iff request.contents).2 h.noResponse]
      rfl
    · rw [htextsOf]
      exact (htexts.2 h.noText).symm

/-- Two turns of one call each. -/
def twoTurns : GeminiChatRequest Unit where
  contents := [⟨"model", [⟨"", none, none, some ⟨"f", ()⟩, none⟩]⟩,
    ⟨"user", [⟨"", none, none, none, some ()⟩]⟩,
    ⟨"model", [⟨"", none, none, some ⟨"g", ()⟩, none⟩]⟩]
  stopSequences := ⟨[], []⟩
  systemInstructions := none

/-- A turn of two calls, and four stop sequences. -/
def oneTurn : GeminiChatRequest Unit where
  contents := [⟨"model", [⟨"", none, none, some ⟨"f", ()⟩, none⟩,
    ⟨"", none, none, some ⟨"g", ()⟩, none⟩]⟩]
  stopSequences := ⟨["a", "b", "c", "d", "e"], []⟩
  systemInstructions := none

theorem matched_iff_oneTurn :
    (∃ result, geminiToOpenAIRequest (fun _ => "\x7b\x7d") oneTurn = some result ∧
      Matched oneTurn result) ↔ Fits oneTurn := by
  refine matched_iff _ oneTurn fun before content after h => ?_
  cases before with
  | nil =>
      cases h
      decide
  | cons c before =>
      have htail := (List.cons.inj h).2
      exact absurd htail.symm (List.append_ne_nil_of_right_ne_nil _ (List.cons_ne_nil _ _))

/-- The two calls share an id, and the response names none. -/
theorem not_matched_twoTurns : ¬ ∀ (toJSONString : Unit → String)
    (request : GeminiChatRequest Unit), Prescribed request.contents →
      ∃ result, geminiToOpenAIRequest toJSONString request = some result ∧
        Matched request result := by
  intro h
  obtain ⟨result, hresult, hmatched⟩ := h (fun _ => "\x7b\x7d") twoTurns (by
    intro before content after h
    match before, h with
    | [], h => cases h; decide
    | [_], h => cases h; decide
    | [_, _], h => cases h; decide
    | _ :: _ :: _ :: before, h =>
        have htail := (List.cons.inj (List.cons.inj (List.cons.inj h).2).2).2
        exact absurd htail.symm (List.append_ne_nil_of_right_ne_nil _ (List.cons_ne_nil _ _)))
  cases hresult
  exact absurd hmatched.distinct (by decide)

end DazeApi.Convert.Gemini2OpenAI
