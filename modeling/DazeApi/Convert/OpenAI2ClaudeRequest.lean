import DazeApi.Lib.Pieces
import DazeApi.Lib.Runs
import DazeApi.Convert.ChatRequest

/-!
# OpenAI requests as Claude requests

`RequestOpenAI2ClaudeMessage` (`relay/channel/claude/relay-claude.go`) first merges consecutive
texts of one role and then makes messages of blocks of what is left.  Merging cuts quotes off
both ends of the joined text and forgets the tool calls of all but the last message, and that is
all that is lost (`conversation_iff`).
-/

namespace DazeApi.Convert.OpenAI2ClaudeRequest

open Pieces Runs

variable {J : Type}

/-! ## Requests -/

/-- `dto.Message`; the tool calls may be missing, and a content of another type has no parts. -/
structure Message where
  role : String
  content : RequestContent
  toolCalls : Option (List ToolCallRequest)
  toolCallId : String

/-- `dto.ClaudeMediaMessage`. -/
inductive Block (J : Type) where
  | text (text : String)
  | image (mediaType data : String)
  | toolUse (id name : String) (input : J)
  | toolResult (toolUseId : String) (content : RequestContent)

inductive ClaudeContent (J : Type) where
  | string (s : String)
  | blocks (bs : List (Block J))

structure ClaudeMessage (J : Type) where
  role : String
  content : ClaudeContent J

/-- `dto.ClaudeRequest`, its system texts and its messages. -/
structure ClaudeRequest (J : Type) where
  system : List String
  messages : List (ClaudeMessage J)

/-- `json.Unmarshal` to an object, and the service that gets a file. -/
structure Env (J : Type) where
  unmarshal : String → Option J
  getBase64Data : String → Except String (String × String)

inductive Failure where
  | panic
  | error (message : String)

/-! ## Merging -/

/-- What the first loop has so far. -/
structure Formatted where
  formatMessages : List Message
  lastMessage : Message

/-- The message without the fields that its role does not have. -/
def fmtMessage (message : Message) : Message where
  role := message.role
  content := message.content
  toolCalls := if message.role = "assistant" then message.toolCalls else none
  toolCallId := if message.role = "tool" then message.toolCallId else ""

/-- A message without content has three dots. -/
def withContent (message : Message) : Message :=
  if message.content = .none then { message with content := .string "..." } else message

def isMerged (lastMessage message : Message) : Bool :=
  lastMessage.role = message.role && lastMessage.role ≠ "tool" &&
    lastMessage.content.isString && message.content.isString

def mergedContent (lastMessage message : Message) : RequestContent :=
  .string (Text.trimChar
    (lastMessage.content.stringContent ++ " " ++ message.content.stringContent) '"')

def formatMessage (acc : Formatted) (message : Message) : Formatted :=
  if isMerged acc.lastMessage message then
    let fmt := withContent
      { fmtMessage message with content := mergedContent acc.lastMessage message }
    ⟨acc.formatMessages.dropLast ++ [fmt], fmt⟩
  else
    let fmt := withContent (fmtMessage message)
    ⟨acc.formatMessages ++ [fmt], fmt⟩

def formatMessages (messages : List Message) : List Message :=
  (messages.foldl formatMessage ⟨[], ⟨"tool", .none, none, ""⟩⟩).formatMessages

/-! ## Converting -/

/-- What the second loop has so far. -/
structure Converted (J : Type) where
  claudeMessages : List (ClaudeMessage J)
  isFirstMessage : Bool
  systemMessages : List String

/-- A block for a part; a part that is neither a text nor an image has no image URL. -/
def mediaBlock (env : Env J) : MediaContent → Except Failure (Block J)
  | .text text => .ok (.text text)
  | .imageUrl url _ _ =>
      match env.getBase64Data url with
      | .ok (data, mediaType) => .ok (.image mediaType data)
      | .error message => .error (.error ("get file data failed: " ++ message))
  | .other _ => .error .panic

/-- The blocks of the tool calls; arguments that are no object are skipped. -/
def toolUses (env : Env J) (toolCalls : List ToolCallRequest) : List (Block J) :=
  toolCalls.filterMap fun toolCall =>
    (env.unmarshal toolCall.arguments).map (.toolUse toolCall.id toolCall.name)

def ClaudeContent.blocksOf : ClaudeContent J → List (Block J)
  | .string s => [.text s]
  | .blocks bs => bs

/-- A tool result goes to the last message, if that is the user's. -/
def addToolResult (claudeMessages : List (ClaudeMessage J)) (message : Message) :
    List (ClaudeMessage J) :=
  let result := .toolResult message.toolCallId message.content
  match claudeMessages.getLast? with
  | some last =>
      if last.role = "user" then
        claudeMessages.dropLast ++
          [{ last with content := .blocks (last.content.blocksOf ++ [result]) }]
      else claudeMessages ++ [⟨"user", .blocks [result]⟩]
  | none => claudeMessages ++ [⟨"user", .blocks [result]⟩]

/-- A text for the user in front of a conversation that somebody else begins. -/
def opening (message : Message) : List (ClaudeMessage J) :=
  if message.role ≠ "user" then [⟨"user", .blocks [.text "..."]⟩] else []

def convertMessage (env : Env J) (acc : Converted J) (message : Message) :
    Except Failure (Converted J) :=
  if message.role = "system" then
    .ok { acc with systemMessages :=
      acc.systemMessages ++ message.content.parse.flatMap MediaContent.texts }
  else
    let claudeMessages :=
      acc.claudeMessages ++ if acc.isFirstMessage then opening message else []
    if message.role = "tool" then
      .ok ⟨addToolResult claudeMessages message, false, acc.systemMessages⟩
    else if message.content.isString ∧ message.toolCalls = none then
      .ok ⟨claudeMessages ++ [⟨message.role, .string message.content.stringContent⟩], false,
        acc.systemMessages⟩
    else do
      let media ← message.content.parse.mapM (mediaBlock env)
      let blocks := media ++ toolUses env (message.toolCalls.getD [])
      return ⟨claudeMessages ++ [⟨message.role, .blocks blocks⟩], false, acc.systemMessages⟩

/-- `RequestOpenAI2ClaudeMessage`, its messages. -/
def requestOpenAI2ClaudeMessage (env : Env J) (messages : List Message) :
    Except Failure (ClaudeRequest J) := do
  let acc ← (formatMessages messages).foldlM (convertMessage env) ⟨[], true, []⟩
  return ⟨acc.systemMessages, acc.claudeMessages⟩

/-! ## What is meant -/

/-- What a conversation consists of; the arguments of a call are an object. -/
inductive Item (J : Type) where
  | text (s : String)
  | call (id name : String) (arguments : Option J)
  | result (id : String) (content : RequestContent)

def Block.items : Block J → List (Item J)
  | .text s => [.text s]
  | .image _ _ => []
  | .toolUse id name input => [.call id name (some input)]
  | .toolResult id content => [.result id content]

/-- The items of the messages of Claude. -/
def itemsOf (messages : List (ClaudeMessage J)) : List (Item J) :=
  messages.flatMap fun m => m.content.blocksOf.flatMap Block.items

/-- The texts of a message; one without content has three dots. -/
def Message.texts (m : Message) : List String :=
  (withContent m).content.parse.flatMap MediaContent.texts

def Message.calls (m : Message) : List ToolCallRequest :=
  if m.role = "assistant" then m.toolCalls.getD [] else []

/-- Consecutive texts of one role are joined. -/
def joins (m n : Message) : Bool := isMerged (withContent m) n

/-- The texts of a run; several messages are joined by a space. -/
def runTexts (r : Run Message) : List String :=
  if r.rest = [] then r.first.texts else [Text.join (r.elements.flatMap Message.texts) ' ']

/-- The texts of a run and all its calls, or the result of a tool. -/
def runItems (env : Env J) (r : Run Message) : List (Item J) :=
  if r.first.role = "system" then []
  else if r.first.role = "tool" then [.result r.first.toolCallId (withContent r.first).content]
  else
    (runTexts r).map .text ++ (r.elements.flatMap Message.calls).map fun c =>
      .call c.id c.name (env.unmarshal c.arguments)

def systemTexts (r : Run Message) : List String :=
  if r.first.role = "system" then runTexts r else []

/-- The text in front of a conversation that the user does not begin. -/
def openingItems (messages : List Message) : List (Item J) :=
  match (messages.map (·.role)).find? (· ≠ "system") with
  | some role => if role ≠ "user" then [.text "..."] else []
  | none => []

/-- The user is first, and everything occurs in order, with consecutive texts of a role joined. -/
structure Conversation (env : Env J) (messages : List Message) (result : ClaudeRequest J) :
    Prop where
  first : ∀ m, result.messages.head? = some m → m.role = "user"
  items : itemsOf result.messages =
    openingItems messages ++ (runs joins messages).flatMap (runItems env)
  system : result.system = (runs joins messages).flatMap systemTexts

/-- Contents are texts and arguments are objects. -/
structure Plain (env : Env J) (messages : List Message) : Prop where
  parts : ∀ m ∈ messages, ∀ c ∈ m.content.parse, ∃ s, c = .text s
  arguments : ∀ m ∈ messages, ∀ c ∈ m.calls, (env.unmarshal c.arguments).isSome

/-! ## When it is -/

/-- The joined texts have no quotes where they are cut off, and the last message alone has
calls. -/
structure Whole (r : Run Message) : Prop where
  first : ∀ s ∈ r.first.texts, s.toList.head? ≠ some '"'
  rest : ∀ m ∈ r.rest, ∀ s ∈ m.texts, s.toList.getLast? ≠ some '"'
  calls : ∀ m ∈ r.elements.dropLast, m.calls = []

/-- Every run of several messages is whole. -/
def Unquoted (messages : List Message) : Prop :=
  ∀ r ∈ runs joins messages, r.rest ≠ [] → Whole r

/-! ## Joined texts -/

section

variable {env : Env J} {s t n : String} {ns : List String}

/-- The texts of a run as they are merged. -/
def joinTrimmed (s : String) (ns : List String) : String :=
  ns.foldl (fun r n => Text.trimChar (r ++ " " ++ n) '"') s

def joinSpaced (s : String) (ns : List String) : String := ns.foldl (fun r n => r ++ " " ++ n) s

theorem toList_joinSpaced (s : String) (ns : List String) :
    (joinSpaced s ns).toList = s.toList ++ Text.joinTail ' ' ns := by
  induction ns generalizing s with
  | nil => exact (List.append_nil _).symm
  | cons n ns ih =>
      have hn := ih (s ++ " " ++ n)
      rw [joinSpaced] at hn ⊢
      rw [List.foldl_cons, hn, Text.joinTail_cons]
      simp

theorem join_eq_joinSpaced (s : String) (ns : List String) :
    Text.join (s :: ns) ' ' = joinSpaced s ns := by
  refine String.toList_inj.1 ?_
  rw [Text.toList_join_cons, toList_joinSpaced]

theorem trimChar_sublist (s : String) (c : Char) :
    (Text.trimChar s c).toList.Sublist s.toList := by
  rw [Text.trimChar, String.toList_ofList, ← List.reverse_sublist, List.reverse_reverse]
  exact (List.dropWhile_sublist _).trans (List.dropWhile_sublist _).reverse

theorem eq_of_length_trimChar {c : Char}
    (h : (Text.trimChar s c).toList.length = s.toList.length) : Text.trimChar s c = s :=
  String.toList_inj.1 ((trimChar_sublist s c).eq_of_length h)

theorem trimChar_eq_self_iff (s : String) (c : Char) (h : s ≠ "") :
    Text.trimChar s c = s ↔ s.toList.head? ≠ some c ∧ s.toList.getLast? ≠ some c := by
  constructor
  · intro heq
    have hdrop : (s.toList.dropWhile (· = c)).length ≤ s.toList.length :=
      (List.dropWhile_sublist _).length_le
    have hlen := congrArg (List.length ∘ String.toList) heq
    simp only [Function.comp_apply, Text.trimChar, String.toList_ofList, List.length_reverse]
      at hlen
    have hright := (List.dropWhile_sublist (l := (s.toList.dropWhile (· = c)).reverse)
      (fun x => decide (x = c))).length_le
    rw [List.length_reverse] at hright
    have hleft : s.toList.dropWhile (· = c) = s.toList :=
      (List.dropWhile_sublist _).eq_of_length (by omega)
    have hboth : s.toList.reverse.dropWhile (· = c) = s.toList.reverse := by
      refine (List.dropWhile_sublist _).eq_of_length ?_
      rw [hleft] at hlen
      rw [hlen, List.length_reverse]
    constructor
    · intro hhead
      obtain ⟨x, xs, hx⟩ := List.exists_cons_of_ne_nil (show s.toList ≠ [] by simpa using h)
      rw [hx] at hleft hhead
      rw [List.head?_cons, Option.some.injEq] at hhead
      have := congrArg List.length hleft
      rw [List.dropWhile_cons, if_pos (by simpa using hhead), List.length_cons] at this
      have hle := (List.dropWhile_sublist (l := xs) (fun x => decide (x = c))).length_le
      omega
    · intro hlast
      rw [← List.head?_reverse] at hlast
      obtain ⟨x, xs, hx⟩ := List.exists_cons_of_ne_nil
        (show s.toList.reverse ≠ [] by simpa using h)
      rw [hx] at hboth hlast
      rw [List.head?_cons, Option.some.injEq] at hlast
      have := congrArg List.length hboth
      rw [List.dropWhile_cons, if_pos (by simpa using hlast), List.length_cons] at this
      have hle := (List.dropWhile_sublist (l := xs) (fun x => decide (x = c))).length_le
      omega
  · rintro ⟨hhead, hlast⟩
    refine Text.trimChar_eq_self (fun x hx hc => ?_) fun x hx hc => ?_
    · exact hhead (hc ▸ hx)
    · exact hlast (hc ▸ hx)

theorem head?_spaced (s n : String) :
    (s ++ " " ++ n).toList.head? = some '"' ↔ s.toList.head? = some '"' := by
  rw [String.toList_append, String.toList_append, List.append_assoc, List.head?_append]
  cases s.toList.head? with
  | none => simp
  | some c => simp

theorem getLast?_spaced (s n : String) :
    (s ++ " " ++ n).toList.getLast? = some '"' ↔ n.toList.getLast? = some '"' := by
  rw [String.toList_append, String.toList_append, List.getLast?_append]
  cases n.toList.getLast? with
  | none => simp [List.getLast?_append]
  | some c => simp

/-- Merging keeps the texts exactly if no quote stands where it cuts. -/
theorem joinTrimmed_eq_iff (s : String) (ns : List String) :
    (joinTrimmed s ns).toList.length ≤ (joinSpaced s ns).toList.length ∧
      (joinTrimmed s ns = joinSpaced s ns ↔ (ns ≠ [] → s.toList.head? ≠ some '"') ∧
        ∀ n ∈ ns, n.toList.getLast? ≠ some '"') := by
  induction ns generalizing s with
  | nil =>
      rw [joinTrimmed, joinSpaced, List.foldl_nil, List.foldl_nil]
      exact ⟨Nat.le_refl _, by simp⟩
  | cons n ns ih =>
      have htrimmed : joinTrimmed s (n :: ns) =
          joinTrimmed (Text.trimChar (s ++ " " ++ n) '"') ns := rfl
      have hspaced : joinSpaced s (n :: ns) = joinSpaced (s ++ " " ++ n) ns := rfl
      have hne : s ++ " " ++ n ≠ "" := by simp
      have hself := trimChar_eq_self_iff (s ++ " " ++ n) '"' hne
      rw [ne_eq, ne_eq, head?_spaced, getLast?_spaced] at hself
      rw [htrimmed, hspaced, List.forall_mem_cons, forall_prop_of_true (List.cons_ne_nil n ns)]
      by_cases hcut : Text.trimChar (s ++ " " ++ n) '"' = s ++ " " ++ n
      · obtain ⟨hs, hn⟩ := hself.1 hcut
        obtain ⟨hle, hiff⟩ := ih (s ++ " " ++ n)
        rw [hcut]
        refine ⟨hle, hiff.trans ?_⟩
        simp only [ne_eq, head?_spaced]
        exact ⟨fun h => ⟨hs, hn, h.2⟩, fun h => ⟨fun _ => hs, h.2.2⟩⟩
      · obtain ⟨hle, -⟩ := ih (Text.trimChar (s ++ " " ++ n) '"')
        have hshort := (trimChar_sublist (s ++ " " ++ n) '"').length_le
        have hlt : (Text.trimChar (s ++ " " ++ n) '"').toList.length <
            (s ++ " " ++ n).toList.length :=
          lt_of_le_of_ne hshort fun h => hcut (eq_of_length_trimChar h)
        have htotal := congrArg List.length
          (toList_joinSpaced (Text.trimChar (s ++ " " ++ n) '"') ns)
        have htotal' := congrArg List.length (toList_joinSpaced (s ++ " " ++ n) ns)
        rw [List.length_append] at htotal htotal'
        refine ⟨by omega, iff_of_false (fun h => ?_) fun h => hcut (hself.2 ⟨h.1, h.2.1⟩)⟩
        rw [h] at hle
        omega

end

/-! ## The first loop -/

section

variable {m n a b c : Message} {messages : List Message} {r : Run Message}

/-- The message that a run begins with, and a further message of it. -/
def started (m : Message) : Message := withContent (fmtMessage m)

def merged (lastMessage message : Message) : Message :=
  withContent { fmtMessage message with content := mergedContent lastMessage message }

/-- The message of a run. -/
def formatted (r : Run Message) : Message := r.rest.foldl merged (started r.first)

@[simp] theorem withContent_role (m : Message) : (withContent m).role = m.role := by
  rw [withContent]
  split <;> rfl

@[simp] theorem withContent_toolCalls (m : Message) :
    (withContent m).toolCalls = m.toolCalls := by
  rw [withContent]
  split <;> rfl

@[simp] theorem withContent_toolCallId (m : Message) :
    (withContent m).toolCallId = m.toolCallId := by
  rw [withContent]
  split <;> rfl

theorem withContent_content (m : Message) :
    (withContent m).content =
      match m.content with
      | .none => .string "..."
      | content => content := by
  rw [withContent]
  cases h : m.content <;> simp [h]

theorem started_content (m : Message) : (started m).content = (withContent m).content := by
  rw [started, withContent_content, withContent_content]
  rfl

theorem merged_eq (m n : Message) :
    merged m n = { fmtMessage n with content := mergedContent m n } := by
  rw [merged, withContent, mergedContent]
  exact if_neg RequestContent.noConfusion

theorem isMerged_congr (hrole : a.role = b.role) (hcontent : a.content = b.content)
    (n : Message) : isMerged a n = isMerged b n := by
  rw [isMerged, isMerged, hrole, hcontent]

theorem isMerged_started (m n : Message) : isMerged (started m) n = joins m n := by
  refine isMerged_congr ?_ (started_content m) n
  rw [started, withContent_role, withContent_role]
  rfl

theorem isMerged_merged (h : isMerged a b = true) (c : Message) :
    isMerged (merged a b) c = joins b c := by
  rw [isMerged, Bool.and_eq_true] at h
  have hstring : (withContent b).content.isString = true := by
    rw [withContent_content]
    cases hb : b.content with
    | string s => rfl
    | _ => simp [RequestContent.isString, hb] at h
  rw [merged_eq, joins, isMerged, isMerged, hstring, withContent_role]
  rfl

/-- The loop, with a message in hand. -/
theorem foldl_formatMessage (messages : List Message) (before : List Message) (b : Message) :
    (messages.foldl formatMessage ⟨before ++ [b], b⟩).formatMessages =
      before ++ mergeFrom isMerged merged started b messages := by
  induction messages generalizing before b with
  | nil => rfl
  | cons m messages ih =>
      rw [List.foldl_cons, formatMessage, mergeFrom]
      cases h : isMerged b m with
      | true =>
          rw [if_pos rfl, if_pos rfl, List.dropLast_concat]
          exact ih before (merged b m)
      | false =>
          rw [if_neg Bool.false_ne_true, if_neg Bool.false_ne_true]
          refine (ih (before ++ [b]) (started m)).trans ?_
          rw [List.append_assoc]
          rfl

/-- The first loop makes one message of each run. -/
theorem formatMessages_eq (messages : List Message) :
    formatMessages messages = (runs joins messages).map formatted := by
  cases messages with
  | nil => rfl
  | cons m messages =>
      have hfirst : formatMessage ⟨[], ⟨"tool", .none, none, ""⟩⟩ m =
          ⟨[] ++ [started m], started m⟩ := by
        rw [formatMessage, if_neg]
        · rfl
        · simp [isMerged]
      obtain ⟨rest, rs, heq⟩ := runsFrom_ne_nil joins m messages
      rw [formatMessages, List.foldl_cons, hfirst, foldl_formatMessage, List.nil_append,
        mergeFrom_eq isMerged_started (fun b a c h => isMerged_merged h c) messages (started m) m
          (isMerged_started m) rest rs heq, runs, heq]
      rfl

/-! ## The message of a run -/

/-- The messages behind the first one of a run are texts of its role. -/
theorem rest_of_isChain {rest : List Message}
    (h : (m :: rest).IsChain fun a b => joins a b = true) :
    (∀ n ∈ rest, n.role = m.role ∧ ∃ s, n.content = .string s) ∧
      (rest ≠ [] → m.role ≠ "tool" ∧ ∃ s, (withContent m).content = .string s) := by
  induction rest generalizing m with
  | nil => exact ⟨List.forall_mem_nil _, fun h => absurd rfl h⟩
  | cons n rest ih =>
      obtain ⟨hjoins, hrest⟩ := List.isChain_cons_cons.1 h
      simp only [joins, isMerged, withContent_role, Bool.and_eq_true, decide_eq_true_eq] at hjoins
      obtain ⟨⟨⟨hrole, htool⟩, hm⟩, hn⟩ := hjoins
      have hstring {content : RequestContent} (h : content.isString = true) :
          ∃ s, content = .string s := by
        cases content with
        | string s => exact ⟨s, rfl⟩
        | _ => cases h
      refine ⟨List.forall_mem_cons.2 ⟨⟨hrole.symm, hstring hn⟩, fun k hk => ?_⟩, fun _ => ?_⟩
      · obtain ⟨hrole', hk⟩ := (ih hrest).1 k hk
        exact ⟨hrole'.trans hrole.symm, hk⟩
      · exact ⟨htool, hstring hm⟩

theorem texts_of_string {s : String} (h : (withContent m).content = .string s) :
    m.texts = [s] := by
  rw [Message.texts, h]
  rfl

theorem withContent_of_string {s : String} (h : m.content = .string s) :
    (withContent m).content = .string s := by
  rw [withContent_content, h]

/-- Merging has the role and the calls of the last message, and the texts of all. -/
theorem foldl_merged {s : String} {ns : List String} {rest : List Message}
    (hb : b = { fmtMessage m with content := .string s }) (hne : rest ≠ [])
    (hrest : rest.map (·.content) = ns.map .string) :
    ∃ last, last ∈ rest ∧ (m :: rest).getLast? = some last ∧
      rest.foldl merged b = { fmtMessage last with content := .string (joinTrimmed s ns) } := by
  induction rest generalizing b m s ns with
  | nil => exact absurd rfl hne
  | cons n rest ih =>
      cases ns with
      | nil => cases hrest
      | cons t ns =>
          rw [List.map_cons, List.map_cons, List.cons.injEq] at hrest
          obtain ⟨hn, hrest⟩ := hrest
          have hstep : merged b n = { fmtMessage n with
              content := .string (Text.trimChar (s ++ " " ++ t) '"') } := by
            rw [merged_eq, mergedContent, hn, hb]
            rfl
          rw [List.foldl_cons, hstep]
          by_cases hnil : rest = []
          · subst hnil
            cases ns with
            | nil => exact ⟨n, .head _, rfl, rfl⟩
            | cons t' ns => cases hrest
          · obtain ⟨last, hmem, hlast, heq⟩ := ih rfl hnil hrest
            exact ⟨last, .tail n hmem, by rwa [List.getLast?_cons_cons], heq⟩

end

/-! ## The second loop -/

section

variable {env : Env J} {acc : Converted J} {m : Message} {ms : List Message}

/-- The items that a message is converted to. -/
def messageItems (env : Env J) (m : Message) : List (Item J) :=
  if m.role = "system" then []
  else if m.role = "tool" then [.result m.toolCallId m.content]
  else
    (m.content.parse.flatMap MediaContent.texts).map .text ++
      (toolUses env (m.toolCalls.getD [])).flatMap Block.items

/-- The system texts that a message is converted to. -/
def messageSystem (m : Message) : List String :=
  if m.role = "system" then m.content.parse.flatMap MediaContent.texts else []

theorem itemsOf_append (before after : List (ClaudeMessage J)) :
    itemsOf (before ++ after) = itemsOf before ++ itemsOf after := List.flatMap_append

theorem itemsOf_singleton (m : ClaudeMessage J) :
    itemsOf [m] = m.content.blocksOf.flatMap Block.items := List.flatMap_singleton ..

theorem items_texts (texts : List String) :
    (texts.map (Block.text (J := J))).flatMap Block.items = texts.map .text := by
  rw [List.flatMap_map, List.map_eq_flatMap]
  rfl

/-- A tool result is behind everything, and the messages keep their roles. -/
theorem addToolResult_spec (claudeMessages : List (ClaudeMessage J)) (m : Message) :
    itemsOf (addToolResult claudeMessages m) =
        itemsOf claudeMessages ++ [.result m.toolCallId m.content] ∧
      ∃ roles, (addToolResult claudeMessages m).map ClaudeMessage.role =
        claudeMessages.map ClaudeMessage.role ++ roles := by
  have hnew : itemsOf (claudeMessages ++
        [⟨"user", .blocks [.toolResult m.toolCallId m.content]⟩] : List (ClaudeMessage J)) =
          itemsOf claudeMessages ++ [.result m.toolCallId m.content] ∧
      ∃ roles, (claudeMessages ++
          [⟨"user", .blocks [.toolResult m.toolCallId m.content]⟩] : List (ClaudeMessage J)).map
        ClaudeMessage.role = claudeMessages.map ClaudeMessage.role ++ roles := by
    rw [itemsOf_append, List.map_append]
    exact ⟨rfl, ["user"], rfl⟩
  rw [addToolResult]
  split
  next last hlast =>
    split
    next =>
      have hsplit : claudeMessages = claudeMessages.dropLast ++ [last] :=
        (List.dropLast_append_getLast? last hlast).symm
      generalize claudeMessages.dropLast = before at hsplit
      subst hsplit
      rw [itemsOf_append, itemsOf_append, List.map_append, List.map_append]
      constructor
      · simp [itemsOf, ClaudeContent.blocksOf, Block.items]
      · exact ⟨[], by simp⟩
    next => exact hnew
  next => exact hnew

theorem mapM_mediaBlock {media : List MediaContent} (h : ∀ c ∈ media, ∃ s, c = .text s) :
    media.mapM (mediaBlock env) = .ok ((media.flatMap MediaContent.texts).map .text) := by
  induction media with
  | nil => rfl
  | cons c media ih =>
      obtain ⟨⟨s, rfl⟩, hrest⟩ := List.forall_mem_cons.1 h
      rw [List.mapM_cons, ih hrest]
      rfl

/-- Before the first message nothing is converted, and later the user is first. -/
def Begun (acc : Converted J) : Prop :=
  if acc.isFirstMessage then acc.claudeMessages = []
  else (acc.claudeMessages.map ClaudeMessage.role).head? = some "user"

/-- What is put in front of the first message, if it is this one. -/
def openingOf (acc : Converted J) (m : Message) : List (ClaudeMessage J) :=
  if acc.isFirstMessage then opening m else []

theorem head?_openingOf (hbegun : Begun acc) (roles : List String)
    (h : m.role ≠ "user" ∨ roles.head? = some "user") :
    ((acc.claudeMessages ++ openingOf acc m).map ClaudeMessage.role ++ roles).head? =
      some "user" := by
  rw [Begun] at hbegun
  rw [openingOf]
  split at hbegun
  next hfirst =>
    rw [hbegun, if_pos hfirst, opening]
    split
    next => rfl
    next huser => exact h.resolve_left huser
  next hlater =>
    rw [if_neg hlater, List.append_nil, List.head?_append, hbegun]
    rfl

theorem begun_of_head? {claudeMessages : List (ClaudeMessage J)} {systemMessages : List String}
    (h : (claudeMessages.map ClaudeMessage.role).head? = some "user") :
    Begun (⟨claudeMessages, false, systemMessages⟩ : Converted J) := h

/-- One message adds its items. -/
theorem convertMessage_spec (env : Env J) (hbegun : Begun acc)
    (hparts : ∀ c ∈ m.content.parse, ∃ s, c = .text s) :
    ∃ acc', convertMessage env acc m = .ok acc' ∧ Begun acc' ∧
      acc'.systemMessages = acc.systemMessages ++ messageSystem m ∧
      (m.role = "system" → acc'.isFirstMessage = acc.isFirstMessage ∧
        acc'.claudeMessages = acc.claudeMessages) ∧
      (m.role ≠ "system" → acc'.isFirstMessage = false ∧
        itemsOf acc'.claudeMessages =
          itemsOf acc.claudeMessages ++ itemsOf (openingOf acc m) ++ messageItems env m) := by
  rw [convertMessage, messageSystem, messageItems]
  by_cases hsystem : m.role = "system"
  · rw [if_pos hsystem, if_pos hsystem]
    exact ⟨_, rfl, hbegun, rfl, fun _ => ⟨rfl, rfl⟩, fun h => absurd hsystem h⟩
  · rw [if_neg hsystem, if_neg hsystem, if_neg hsystem, List.append_nil]
    have hnew (content : ClaudeContent J)
        (hcontent : content.blocksOf.flatMap Block.items =
          (m.content.parse.flatMap MediaContent.texts).map .text ++
            (toolUses env (m.toolCalls.getD [])).flatMap Block.items) :
        Begun (⟨acc.claudeMessages ++ openingOf acc m ++ [⟨m.role, content⟩], false,
            acc.systemMessages⟩ : Converted J) ∧
          itemsOf (acc.claudeMessages ++ openingOf acc m ++ [⟨m.role, content⟩]) =
            itemsOf acc.claudeMessages ++ itemsOf (openingOf acc m) ++
              ((m.content.parse.flatMap MediaContent.texts).map .text ++
                (toolUses env (m.toolCalls.getD [])).flatMap Block.items) := by
      constructor
      · refine begun_of_head? ?_
        rw [List.map_append]
        refine head?_openingOf hbegun _ ?_
        by_cases huser : m.role = "user"
        · exact Or.inr (congrArg some huser)
        · exact Or.inl huser
      · rw [itemsOf_append, itemsOf_append, itemsOf_singleton, ← hcontent]
    by_cases htool : m.role = "tool"
    · obtain ⟨hitems, roles, hroles⟩ :=
        addToolResult_spec (acc.claudeMessages ++ openingOf acc m) m
      rw [if_pos htool, if_pos htool]
      refine ⟨_, rfl, begun_of_head? ?_, rfl, fun h => absurd h hsystem, fun _ => ⟨rfl, ?_⟩⟩
      · refine (congrArg List.head? hroles).trans (head?_openingOf hbegun roles (Or.inl ?_))
        rw [htool]
        decide
      · rw [← itemsOf_append]
        exact hitems
    · rw [if_neg htool, if_neg htool]
      by_cases hplain : m.content.isString = true ∧ m.toolCalls = none
      · rw [if_pos hplain]
        obtain ⟨hbegun', hitems⟩ := hnew (.string m.content.stringContent) (by
          rw [hplain.2]
          cases hcontent : m.content with
          | string s => rfl
          | _ => rw [hcontent] at hplain; cases hplain.1)
        exact ⟨_, rfl, hbegun', rfl, fun h => absurd h hsystem, fun _ => ⟨rfl, hitems⟩⟩
      · rw [if_neg hplain, mapM_mediaBlock hparts]
        obtain ⟨hbegun', hitems⟩ := hnew (.blocks
          ((m.content.parse.flatMap MediaContent.texts).map .text ++
            toolUses env (m.toolCalls.getD []))) (by
          rw [ClaudeContent.blocksOf, List.flatMap_append, items_texts])
        exact ⟨_, rfl, hbegun', rfl, fun h => absurd h hsystem, fun _ => ⟨rfl, hitems⟩⟩

/-- What is put in front of messages, if none was converted before. -/
def openingItemsOf (acc : Converted J) (ms : List Message) : List (Item J) :=
  if acc.isFirstMessage then openingItems ms else []

/-- All messages add their items. -/
theorem foldlM_convertMessage (env : Env J) (hbegun : Begun acc)
    (hparts : ∀ m ∈ ms, ∀ c ∈ m.content.parse, ∃ s, c = .text s) :
    ∃ acc', ms.foldlM (convertMessage env) acc = .ok acc' ∧ Begun acc' ∧
      acc'.systemMessages = acc.systemMessages ++ ms.flatMap messageSystem ∧
      itemsOf acc'.claudeMessages =
        itemsOf acc.claudeMessages ++ openingItemsOf acc ms ++ ms.flatMap (messageItems env) := by
  induction ms generalizing acc with
  | nil =>
      refine ⟨acc, rfl, hbegun, (List.append_nil _).symm, ?_⟩
      rw [openingItemsOf]
      split <;> simp [openingItems]
  | cons m ms ih =>
      obtain ⟨hm, hms⟩ := List.forall_mem_cons.1 hparts
      obtain ⟨next, hnext, hbegun', hsystem, hthis, hother⟩ := convertMessage_spec env hbegun hm
      obtain ⟨last, hlast, hbegun'', hsystem', hitems⟩ := ih hbegun' hms
      refine ⟨last, ?_, hbegun'', ?_, ?_⟩
      · rw [List.foldlM_cons, hnext]
        exact hlast
      · rw [hsystem', hsystem, List.flatMap_cons, List.append_assoc]
      · rw [hitems, List.flatMap_cons]
        by_cases hrole : m.role = "system"
        · obtain ⟨hfirst, hsame⟩ := hthis hrole
          have hopening : openingItemsOf next ms = openingItemsOf acc (m :: ms) := by
            simp [openingItemsOf, hfirst, openingItems, hrole]
          rw [hsame, hopening, messageItems, if_pos hrole, List.nil_append]
        · obtain ⟨hfirst, hadded⟩ := hother hrole
          have hopening : itemsOf (openingOf acc m) = openingItemsOf acc (m :: ms) := by
            rw [openingOf, openingItemsOf]
            split
            · by_cases huser : m.role = "user" <;>
                simp [openingItems, opening, hrole, huser, itemsOf, ClaudeContent.blocksOf,
                  Block.items]
            · rfl
          have hlater : openingItemsOf next ms = [] := by
            rw [openingItemsOf, hfirst]
            rfl
          rw [hadded, hopening, hlater, List.append_nil, List.append_assoc, List.append_assoc]

end

/-! ## One run -/

section

variable {env : Env J} {r : Run Message} {messages : List Message}

theorem started_eq (m : Message) :
    started m = { fmtMessage m with content := (withContent m).content } := by
  rw [started, withContent, withContent]
  have hcontent : (fmtMessage m).content = m.content := rfl
  rw [hcontent]
  split <;> rfl

theorem calls_fmtMessage (m : Message) : (fmtMessage m).toolCalls.getD [] = m.calls := by
  rw [Message.calls, fmtMessage]
  split <;> rfl

theorem items_toolUses {calls : List ToolCallRequest}
    (h : ∀ c ∈ calls, (env.unmarshal c.arguments).isSome) :
    (toolUses env calls).flatMap Block.items =
      calls.map fun c => .call c.id c.name (env.unmarshal c.arguments) := by
  induction calls with
  | nil => rfl
  | cons c calls ih =>
      obtain ⟨hc, hcalls⟩ := List.forall_mem_cons.1 h
      obtain ⟨input, hinput⟩ := Option.isSome_iff_exists.1 hc
      rw [toolUses] at ih ⊢
      rw [List.filterMap_cons, hinput, Option.map_some, List.flatMap_cons, ih hcalls,
        List.map_cons, hinput]
      rfl

/-- What a run of several messages is merged to. -/
theorem formatted_of_rest (hchain : r.elements.IsChain fun a b => joins a b = true)
    (hne : r.rest ≠ []) :
    ∃ s ns last, ns ≠ [] ∧ r.first.texts = [s] ∧ r.rest.flatMap Message.texts = ns ∧
      r.elements = r.elements.dropLast ++ [last] ∧ last.role = r.first.role ∧
      r.first.role ≠ "tool" ∧
      formatted r = { fmtMessage last with content := .string (joinTrimmed s ns) } := by
  obtain ⟨hrest, hfirst⟩ := rest_of_isChain hchain
  obtain ⟨htool, s, hs⟩ := hfirst hne
  have hcontents : ∀ rest : List Message, (∀ n ∈ rest, ∃ t, n.content = .string t) →
      rest.map (·.content) = (rest.flatMap Message.texts).map .string := by
    intro rest h
    induction rest with
    | nil => rfl
    | cons n rest ih =>
        obtain ⟨⟨t, ht⟩, hrest⟩ := List.forall_mem_cons.1 h
        rw [List.map_cons, List.flatMap_cons, texts_of_string (withContent_of_string ht),
          ih hrest, ht]
        rfl
  have hmap := hcontents r.rest fun n hn => (hrest n hn).2
  have hstarted : started r.first = { fmtMessage r.first with content := .string s } := by
    rw [started_eq, hs]
  obtain ⟨last, hmem, hlast, heq⟩ := foldl_merged hstarted hne hmap
  refine ⟨s, _, last, ?_, texts_of_string hs, rfl, ?_, (hrest last hmem).1, htool, heq⟩
  · intro hnil
    rw [hnil] at hmap
    exact hne (List.map_eq_nil_iff.1 hmap)
  · exact (List.dropLast_append_getLast? last hlast).symm

/-- A run of one message keeps its items. -/
theorem run_of_single (hne : r.rest = [])
    (harguments : ∀ c ∈ r.first.calls, (env.unmarshal c.arguments).isSome) :
    messageItems env (formatted r) = runItems env r ∧
      messageSystem (formatted r) = systemTexts r := by
  obtain ⟨m, rest⟩ := r
  subst hne
  have hcalls : (toolUses env ((fmtMessage m).toolCalls.getD [])).flatMap Block.items =
      m.calls.map fun c => .call c.id c.name (env.unmarshal c.arguments) := by
    rw [calls_fmtMessage]
    exact items_toolUses harguments
  have hrole : (fmtMessage m).role = m.role := rfl
  have hformatted : formatted ⟨m, []⟩ =
      { fmtMessage m with content := (withContent m).content } := started_eq m
  rw [hformatted, messageItems, runItems, messageSystem, systemTexts, hrole, hcalls]
  constructor
  · split
    next => rfl
    next =>
      split
      next htool => rw [fmtMessage, if_pos htool]
      next => rw [Run.elements, List.flatMap_singleton]; rfl
  · rfl

/-- A run of several messages keeps its items exactly if it is whole; it never has more. -/
theorem run_of_rest (hchain : r.elements.IsChain fun a b => joins a b = true) (hne : r.rest ≠ [])
    (harguments : ∀ m ∈ r.elements, ∀ c ∈ m.calls, (env.unmarshal c.arguments).isSome) :
    (messageItems env (formatted r)).length ≤ (runItems env r).length ∧
      (messageSystem (formatted r)).length ≤ (systemTexts r).length ∧
      (messageItems env (formatted r) = runItems env r ∧
        messageSystem (formatted r) = systemTexts r ↔ Whole r) := by
  obtain ⟨s, ns, last, hns, hs, hrest, hlast, hrole, htool, hformatted⟩ :=
    formatted_of_rest hchain hne
  have hroles : ∀ m ∈ r.elements, m.role = r.first.role :=
    List.forall_mem_cons.2 ⟨rfl, fun m hm => ((rest_of_isChain hchain).1 m hm).1⟩
  have htexts : runTexts r = [joinSpaced s ns] := by
    rw [runTexts, if_neg hne, Run.elements, List.flatMap_cons, hs, hrest, List.singleton_append,
      join_eq_joinSpaced]
  have hwhole : Whole r ↔
      joinTrimmed s ns = joinSpaced s ns ∧ r.elements.dropLast.flatMap Message.calls = [] := by
    rw [(joinTrimmed_eq_iff s ns).2, forall_prop_of_true hns, List.flatMap_eq_nil_iff]
    constructor
    · rintro ⟨hfirst, hquotes, hcalls⟩
      refine ⟨⟨hfirst s (by rw [hs]; exact .head _), fun n hn => ?_⟩, hcalls⟩
      rw [← hrest] at hn
      obtain ⟨m, hm, hn⟩ := List.mem_flatMap.1 hn
      exact hquotes m hm n hn
    · rintro ⟨⟨hfirst, hquotes⟩, hcalls⟩
      refine ⟨fun t ht => ?_, fun m hm t ht => hquotes t ?_, hcalls⟩
      · rw [hs, List.mem_singleton] at ht
        rwa [ht]
      · rw [← hrest]
        exact List.mem_flatMap.2 ⟨m, hm, ht⟩
  have hlastcalls : (toolUses env ((fmtMessage last).toolCalls.getD [])).flatMap Block.items =
      last.calls.map fun c => .call c.id c.name (env.unmarshal c.arguments) := by
    rw [calls_fmtMessage]
    exact items_toolUses (harguments last (by rw [hlast]; simp))
  have hrolelast : (fmtMessage last).role = r.first.role := hrole
  rw [hformatted, messageItems, messageSystem, runItems, systemTexts, hrolelast, htexts, hwhole,
    hlastcalls]
  by_cases hsystem : r.first.role = "system"
  · have hcalls : r.elements.dropLast.flatMap Message.calls = [] := by
      rw [List.flatMap_eq_nil_iff]
      intro m hm
      rw [Message.calls, hroles m ((List.dropLast_sublist _).mem hm), hsystem]
      rfl
    simp only [if_pos hsystem, hcalls, and_true, true_and]
    refine ⟨Nat.le_refl _, ?_, ?_⟩
    · simp [RequestContent.parse, MediaContent.texts]
    · simp [RequestContent.parse, MediaContent.texts]
  · have hall : r.elements.flatMap Message.calls =
        r.elements.dropLast.flatMap Message.calls ++ last.calls := by
      conv_lhs => rw [hlast, List.flatMap_append, List.flatMap_singleton]
    simp only [if_neg hsystem, if_neg htool, hall, and_true]
    refine ⟨?_, Nat.le_refl _, ?_⟩
    · simp [RequestContent.parse, MediaContent.texts]
    · simp [RequestContent.parse, MediaContent.texts]

end

/-! ## The whole conversation -/

section

variable {env : Env J} {messages : List Message}

theorem elements_subset {r : Run Message} (h : r ∈ runs joins messages) :
    ∀ m ∈ r.elements, m ∈ messages := by
  intro m hm
  rw [← flatMap_elements_runs joins messages]
  exact List.mem_flatMap.2 ⟨r, h, hm⟩

theorem roles_of_run {r : Run Message} (h : r ∈ runs joins messages) :
    ∀ m ∈ r.elements, m.role = r.first.role :=
  List.forall_mem_cons.2
    ⟨rfl, fun m hm => ((rest_of_isChain (isChain_of_mem_runs h)).1 m hm).1⟩

/-- The message of a run has its role, and texts if the run has. -/
theorem formatted_spec {r : Run Message} (h : r ∈ runs joins messages) :
    (formatted r).role = r.first.role ∧
      ((∀ m ∈ messages, ∀ c ∈ m.content.parse, ∃ s, c = .text s) →
        ∀ c ∈ (formatted r).content.parse, ∃ s, c = .text s) := by
  by_cases hne : r.rest = []
  · have hformatted : formatted r = started r.first := by
      rw [formatted, hne]
      rfl
    rw [hformatted]
    refine ⟨withContent_role _, fun hparts c hc => ?_⟩
    rw [started_content, withContent_content] at hc
    have hfirst := hparts r.first (elements_subset h r.first (.head _))
    cases hcontent : r.first.content with
    | none =>
        rw [hcontent] at hc
        exact ⟨"...", List.mem_singleton.1 hc⟩
    | string s =>
        rw [hcontent] at hc
        exact ⟨s, List.mem_singleton.1 hc⟩
    | media contents =>
        rw [hcontent] at hc hfirst
        exact hfirst c hc
  · obtain ⟨s, ns, last, -, -, -, -, hrole, -, hformatted⟩ :=
      formatted_of_rest (isChain_of_mem_runs h) hne
    rw [hformatted]
    exact ⟨hrole, fun _ c hc => ⟨_, List.mem_singleton.1 hc⟩⟩

/-- The first role that is not the system's is that of the runs. -/
theorem find?_roles (rs : List (Run Message))
    (h : ∀ r ∈ rs, ∀ m ∈ r.elements, m.role = r.first.role) :
    ((rs.flatMap Run.elements).map (·.role)).find? (· ≠ "system") =
      (rs.map fun r => r.first.role).find? (· ≠ "system") := by
  induction rs with
  | nil => rfl
  | cons r rs ih =>
      obtain ⟨hr, hrs⟩ := List.forall_mem_cons.1 h
      have hroles : r.elements.map (·.role) =
          List.replicate (r.rest.length + 1) r.first.role := by
        rw [List.eq_replicate_iff]
        refine ⟨by simp [Run.elements], fun role hrole => ?_⟩
        obtain ⟨m, hm, rfl⟩ := List.mem_map.1 hrole
        exact hr m hm
      rw [List.flatMap_cons, List.map_append, List.find?_append, ih hrs, hroles, List.map_cons,
        List.find?_cons, List.find?_replicate]
      by_cases hsystem : r.first.role = "system" <;> simp [hsystem]

theorem openingItems_formatMessages (messages : List Message) :
    (openingItems (formatMessages messages) : List (Item J)) = openingItems messages := by
  have hroles : (formatMessages messages).map (·.role) =
      (runs joins messages).map fun r => r.first.role := by
    rw [formatMessages_eq, List.map_map]
    exact List.map_congr_left fun r hr => (formatted_spec hr).1
  have hfind := find?_roles (runs joins messages) fun r hr => roles_of_run hr
  rw [flatMap_elements_runs, ← hroles] at hfind
  rw [openingItems, openingItems, hfind]

theorem run_iff (h : Plain env messages) {r : Run Message} (hr : r ∈ runs joins messages) :
    (messageItems env (formatted r)).length ≤ (runItems env r).length ∧
      (messageSystem (formatted r)).length ≤ (systemTexts r).length ∧
      (messageItems env (formatted r) = runItems env r ∧
        messageSystem (formatted r) = systemTexts r ↔ (r.rest ≠ [] → Whole r)) := by
  have harguments : ∀ m ∈ r.elements, ∀ c ∈ m.calls, (env.unmarshal c.arguments).isSome :=
    fun m hm => h.arguments m (elements_subset hr m hm)
  by_cases hne : r.rest = []
  · obtain ⟨hitems, hsystem⟩ := run_of_single hne (harguments r.first (.head _))
    rw [hitems, hsystem]
    exact ⟨Nat.le_refl _, Nat.le_refl _, iff_of_true ⟨rfl, rfl⟩ fun h => absurd hne h⟩
  · obtain ⟨hitems, hsystem, hwhole⟩ := run_of_rest (isChain_of_mem_runs hr) hne harguments
    exact ⟨hitems, hsystem, hwhole.trans ⟨fun h _ => h, fun h => h hne⟩⟩

end

/-- Texts, calls and results are kept exactly if no joined text has a quote where it is cut, and
in a run of joined texts the last message alone has calls. -/
theorem conversation_iff (env : Env J) (messages : List Message) (h : Plain env messages) :
    (∃ result, requestOpenAI2ClaudeMessage env messages = .ok result ∧
      Conversation env messages result) ↔ Unquoted messages := by
  have hparts : ∀ m ∈ formatMessages messages, ∀ c ∈ m.content.parse, ∃ s, c = .text s := by
    rw [formatMessages_eq]
    intro m hm
    obtain ⟨r, hr, rfl⟩ := List.mem_map.1 hm
    exact (formatted_spec hr).2 h.parts
  have hempty : Begun (⟨[], true, []⟩ : Converted J) := rfl
  obtain ⟨acc, hacc, hbegun, hsystem, hitems⟩ := foldlM_convertMessage env hempty hparts
  have hresult : requestOpenAI2ClaudeMessage env messages =
      .ok ⟨acc.systemMessages, acc.claudeMessages⟩ := by
    rw [requestOpenAI2ClaudeMessage, hacc]
    rfl
  have hfirst : ∀ m, acc.claudeMessages.head? = some m → m.role = "user" := by
    intro m hm
    rw [Begun] at hbegun
    split at hbegun
    · rw [hbegun] at hm
      cases hm
    · rw [List.head?_map, hm] at hbegun
      exact Option.some.inj hbegun
  rw [formatMessages_eq, List.flatMap_map] at hsystem
  rw [show itemsOf (Converted.claudeMessages ⟨[], true, []⟩ : List (ClaudeMessage J)) = [] from rfl,
    show openingItemsOf (⟨[], true, []⟩ : Converted J) (formatMessages messages) =
      openingItems (formatMessages messages) from rfl, openingItems_formatMessages,
    formatMessages_eq, List.flatMap_map, List.nil_append] at hitems
  have hkept : Conversation env messages ⟨acc.systemMessages, acc.claudeMessages⟩ ↔
      (runs joins messages).flatMap (fun r => messageItems env (formatted r)) =
          (runs joins messages).flatMap (runItems env) ∧
        (runs joins messages).flatMap (fun r => messageSystem (formatted r)) =
          (runs joins messages).flatMap systemTexts := by
    constructor
    · intro hkept
      refine ⟨?_, hsystem.symm.trans hkept.system⟩
      exact List.append_cancel_left (hitems.symm.trans hkept.items)
    · rintro ⟨hruns, hsystems⟩
      refine ⟨hfirst, ?_, hsystem.trans hsystems⟩
      rw [hitems, hruns]
  have hpieces : Conversation env messages ⟨acc.systemMessages, acc.claudeMessages⟩ ↔
      Unquoted messages := by
    rw [hkept, flatMap_eq_flatMap_iff fun r hr => (run_iff h hr).1,
      flatMap_eq_flatMap_iff fun r hr => (run_iff h hr).2.1, Unquoted]
    constructor
    · rintro ⟨hruns, hsystems⟩ r hr
      exact (run_iff h hr).2.2.1 ⟨hruns r hr, hsystems r hr⟩
    · intro hall
      exact ⟨fun r hr => ((run_iff h hr).2.2.2 (hall r hr)).1,
        fun r hr => ((run_iff h hr).2.2.2 (hall r hr)).2⟩
  rw [← hpieces, hresult]
  exact ⟨fun ⟨_, heq, hkept⟩ => Except.ok.inj heq ▸ hkept, fun hkept => ⟨_, rfl, hkept⟩⟩

/-- Objects are what is in braces, and no file can be got. -/
def bracesEnv : Env Unit where
  unmarshal s := if Text.hasPrefix s "\x7b" then some () else none
  getBase64Data _ := .error "no file"

/-- A call with a text, and a further text of the assistant. -/
def callThenText : List Message :=
  [⟨"user", .string "look", none, ""⟩,
    ⟨"assistant", .string "on it", some [⟨"call_1", "function", "look", "\x7b\x7d"⟩], ""⟩,
    ⟨"assistant", .string "still looking", none, ""⟩]

theorem plain_callThenText : Plain bracesEnv callThenText where
  parts := by simp [callThenText, RequestContent.parse]
  arguments := by
    simp [callThenText, Message.calls, bracesEnv]
    decide

theorem conversation_iff_callThenText :
    (∃ result, requestOpenAI2ClaudeMessage bracesEnv callThenText = .ok result ∧
      Conversation bracesEnv callThenText result) ↔ Unquoted callThenText :=
  conversation_iff bracesEnv callThenText plain_callThenText

/-- The call is lost. -/
theorem not_conversation_callThenText : ¬ ∀ (env : Env Unit) (messages : List Message),
    Plain env messages → ∃ result, requestOpenAI2ClaudeMessage env messages = .ok result ∧
      Conversation env messages result := by
  intro h
  obtain ⟨result, hresult, hkept⟩ := h bracesEnv callThenText plain_callThenText
  cases hresult
  exact absurd (congrArg List.length hkept.items) (by decide)

end DazeApi.Convert.OpenAI2ClaudeRequest
