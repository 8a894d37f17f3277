import DazeApi.Convert.Claude2OpenAI
import DazeApi.Convert.Transcript
import DazeApi.Lib.Run

/-!
# Claude messages, streamed and whole

A message is a list of blocks, and its stream sends them one after the other, each in as
many pieces as the provider likes.  `Streamed` is a block with such a stream of it, so
that a list of them is a message together with one of its streams.

The two converters agree on it where at most the last text and the last thinking of the
message say something, since the whole message keeps only these, where the first two
blocks are not both tool calls, since the stream gives these one index, and where no input
is streamed as the empty text, which stands for an empty object but is no JSON.
-/

namespace DazeApi.Convert.Claude2OpenAI

/-! ## Messages and their streams -/

/-- What is used of `encoding/json`: a value that is written is read back, and the empty
text is not read. -/
structure Json (ω : Type) where
  marshal : Option ω → String
  unmarshal : String → Option (Option ω)
  emptyObject : ω
  unmarshal_marshal : ∀ v, unmarshal (marshal v) = some v
  unmarshal_empty : unmarshal "" = none

/-- The pieces of a text put together. -/
def joined : List String → String
  | [] => ""
  | s :: ss => s ++ joined ss

inductive ThinkingDelta where
  | thinking (s : String)
  | signature
deriving DecidableEq, Repr

/-- The thinking of a delta; a signature is none. -/
def ThinkingDelta.text : ThinkingDelta → String
  | .thinking s => s
  | .signature => ""

/-- What the stream makes of a delta. -/
def ThinkingDelta.sent : ThinkingDelta → String
  | .thinking s => s
  | .signature => "\n"

variable {ω : Type}

/-- A block with a stream of it.  The pieces of a tool call are a text of its input, or
empty for the empty object. -/
inductive Streamed (J : Json ω) where
  | text (first : Option String) (deltas : List String)
  | thinking (deltas : List ThinkingDelta)
  | toolUse (id name : String) (pieces : List String) (input : Option ω)
      (reads : J.unmarshal (joined pieces) = some input ∨
        joined pieces = "" ∧ input = some J.emptyObject)

/-- A part of a message or of an event that has a type only. -/
def media (type : String) : ClaudeMediaMessage ω :=
  ⟨type, none, none, none, none, "", "", "", none⟩

def event (type : String) : ClaudeResponse ω := ⟨"", type, "", [], "", none, none, none, none⟩

def startEvent (i : Nat) (b : ClaudeMediaMessage ω) : ClaudeResponse ω :=
  { event "content_block_start" with index := some i, contentBlock := some b }

def deltaEvent (i : Nat) (d : ClaudeMediaMessage ω) : ClaudeResponse ω :=
  { event "content_block_delta" with index := some i, delta := some d }

def stopEvent (i : Nat) : ClaudeResponse ω := { event "content_block_stop" with index := some i }

namespace Streamed

variable {J : Json ω}

/-- The block of the message. -/
def block : Streamed J → ClaudeMediaMessage ω
  | .text first deltas =>
      { (media "text" : ClaudeMediaMessage ω) with text := some (first.getD "" ++ joined deltas) }
  | .thinking deltas =>
      { (media "thinking" : ClaudeMediaMessage ω) with
        thinking := some (joined (deltas.map (·.text))) }
  | .toolUse id name _ input _ =>
      { (media "tool_use" : ClaudeMediaMessage ω) with id := id, name := name, input := input }

/-- The events between start and stop. -/
def deltaEvents (i : Nat) : Streamed J → List (ClaudeResponse ω)
  | .text _ deltas => deltas.map fun s => deltaEvent i { media "text_delta" with text := some s }
  | .thinking deltas =>
      deltas.map fun d =>
        match d with
        | .thinking s => deltaEvent i { media "thinking_delta" with thinking := some s }
        | .signature => deltaEvent i (media "signature_delta")
  | .toolUse _ _ pieces _ _ =>
      pieces.map fun s => deltaEvent i { media "input_json_delta" with partialJson := some s }

/-- The block of the start: it has the id and the name of a tool call, and of a text
perhaps the first piece. -/
def startBlock : Streamed J → ClaudeMediaMessage ω
  | .text first _ => { (media "text" : ClaudeMediaMessage ω) with text := first }
  | .thinking _ => { (media "thinking" : ClaudeMediaMessage ω) with thinking := some "" }
  | .toolUse id name _ _ _ =>
      { (media "tool_use" : ClaudeMediaMessage ω) with id := id, name := name }

def events (i : Nat) (b : Streamed J) : List (ClaudeResponse ω) :=
  startEvent i b.startBlock :: (b.deltaEvents i ++ [stopEvent i])

end Streamed

variable {J : Json ω}

/-- The events of the blocks from an index on. -/
def blockEvents : Nat → List (Streamed J) → List (ClaudeResponse ω)
  | _, [] => []
  | i, b :: bs => b.events i ++ blockEvents (i + 1) bs

/-- The stream of a message. -/
def streamOf (id model stopReason : String) (bs : List (Streamed J)) :
    List (ClaudeResponse ω) :=
  { event "message_start" with message := some { media "message" with id := id, model := model } } ::
    (blockEvents 0 bs ++
      [{ event "message_delta" with delta := some { media "" with stopReason := some stopReason } },
        event "message_stop"])

/-- The whole message. -/
def messageOf (id model stopReason : String) (bs : List (Streamed J)) : ClaudeResponse ω :=
  { event "message" with
    id := id, model := model, content := bs.map (·.block), stopReason := stopReason }

/-- A signature, whose chunk has a line break for reasoning. -/
def isSignature (r : ClaudeResponse ω) : Bool := r.delta.any (·.type = "signature_delta")

/-! ## Agreement -/

/-- The stream gives what the whole message gives: the content, the tool calls with
their arguments read as JSON, and the reasoning, signatures left aside. -/
def Agrees (J : Json ω) (events : List (ClaudeResponse ω)) (message : ClaudeResponse ω) : Prop :=
  ∃ tr unsigned,
    (streamChunks events).map (transcript 0) = some tr ∧
    (streamChunks (events.filter (!isSignature ·))).map (transcript 0) = some unsigned ∧
    ∀ choice ∈ (responseClaude2OpenAI J.marshal message).choices,
      choice.message.content = .text tr.content ∧
      choice.message.reasoningContent = unsigned.reasoning ∧
      choice.message.toolCalls.map (fun t => (t.id, t.name, J.unmarshal t.arguments)) =
        tr.calls.map fun call => (call.2.id, call.2.name, J.unmarshal call.2.arguments)

namespace Streamed

def isToolUse : Streamed J → Bool
  | .toolUse .. => true
  | _ => false

/-- The text of a text block. -/
def text? : Streamed J → Option String
  | .text first deltas => some (first.getD "" ++ joined deltas)
  | _ => none

/-- The input of a tool call is streamed as a text of it. -/
def spelled : Streamed J → Prop
  | .toolUse _ _ pieces _ _ => joined pieces ≠ ""
  | _ => True

/-- The thinking of a thinking block. -/
def thinking? : Streamed J → Option String
  | .thinking deltas => some (joined (deltas.map (·.text)))
  | _ => none

end Streamed

/-- Only the last text may say something. -/
def onlyLast (texts : List String) : Prop := ∀ s ∈ texts.dropLast, s = ""

/-- The first two blocks are tool calls, to which the stream gives one index. -/
def sharesIndex : List (Streamed J) → Bool
  | b₀ :: b₁ :: _ => b₀.isToolUse && b₁.isToolUse
  | _ => false

/-! ## The stream event by event -/

/-- An event, as the client sees the chunk of it. -/
def play (tr : Transcript) (r : ClaudeResponse ω) : Option Transcript :=
  (streamResponseClaude2OpenAI r).map fun c =>
    match c with
    | some c => tr.addChunk 0 c
    | none => tr

theorem transcript_streamChunks : ∀ (events : List (ClaudeResponse ω)) (tr : Transcript),
    (streamChunks events).map (fun chunks => chunks.foldl (·.addChunk 0) tr) =
      Run.exec play tr events
  | [], _ => rfl
  | r :: events, tr => by
      have ih := transcript_streamChunks events
      simp only [streamChunks, Option.map_map, List.mapM_cons] at ih ⊢
      rw [Run.exec, play]
      cases streamResponseClaude2OpenAI r with
      | none => rfl
      | some c =>
          simp only [Option.map_some, Option.bind_some, ← ih]
          cases events.mapM streamResponseClaude2OpenAI with
          | none => rfl
          | some chunks =>
              cases c with
              | none => simp
              | some c => simp

/-- The index that the stream gives to the tool call of a block. -/
def toolIndex (i : Nat) : Int := if (i : Int) - 1 < 0 then 0 else (i : Int) - 1

namespace Streamed

/-- What the stream sends for reasoning. -/
def sent : Streamed J → String
  | .thinking deltas => joined (deltas.map (·.sent))
  | _ => ""

/-- What the stream sends for a tool call. -/
def fragments (i : Nat) : Streamed J → List ToolCallResponse
  | .toolUse id name pieces _ _ =>
      ⟨some (toolIndex i), id, name, ""⟩ :: pieces.map fun s => ⟨some (toolIndex i), "", "", s⟩
  | _ => []

end Streamed

theorem addChunk_chunkOf (tr : Transcript) (id model role : String)
    (content reasoningContent : Option String) (tools : List ToolCallResponse)
    (finishReason : Option String) :
    tr.addChunk 0 (chunkOf id model role content reasoningContent tools finishReason) =
      { content := tr.content ++ if tools ≠ [] then "" else content.getD ""
        reasoning := tr.reasoning ++ reasoningContent.getD ""
        calls := tools.foldl addFragment tr.calls
        finishReasons := tr.finishReasons ++ finishReason.toList } := by
  simp only [Transcript.addChunk, chunkOf, Transcript.addChoice, Transcript.addDelta,
    Delta.getContentString, Delta.getReasoningContent, decide_true, List.filter_cons, if_true,
    List.filter_nil, List.foldl_cons, List.foldl_nil, Option.or_none]
  split
  next => rfl
  next => rfl

theorem play_start (tr : Transcript) (i : Nat) (b : Streamed J) :
    play tr (startEvent i b.startBlock) =
      some { tr with
        content := tr.content ++ (b.startBlock.text.getD "")
        calls := ((b.fragments i).take 1).foldl addFragment tr.calls } := by
  cases b with
  | text first deltas =>
      simp [play, streamResponseClaude2OpenAI, addChunk_chunkOf, startEvent, event,
        Streamed.startBlock, media, Streamed.fragments]
  | thinking deltas =>
      simp [play, streamResponseClaude2OpenAI, addChunk_chunkOf, startEvent, event,
        Streamed.startBlock, media, Streamed.fragments]
  | toolUse id name pieces input reads =>
      simp [play, streamResponseClaude2OpenAI, addChunk_chunkOf, startEvent, event,
        Streamed.startBlock, media, Streamed.fragments, toolIndex, ClaudeResponse.fcIdx]

/-- The deltas of a block. -/
theorem exec_text (i : Nat) : ∀ (deltas : List String) (tr : Transcript),
    Run.exec play tr (deltas.map fun s =>
        deltaEvent i { (media "text_delta" : ClaudeMediaMessage ω) with text := some s }) =
      some { tr with content := tr.content ++ joined deltas }
  | [], tr => by simp [joined]
  | s :: deltas, tr => by
      have hplay : play tr (deltaEvent i
          { (media "text_delta" : ClaudeMediaMessage ω) with text := some s }) =
            some { tr with content := tr.content ++ s } := by
        simp [play, streamResponseClaude2OpenAI, addChunk_chunkOf, deltaEvent, event, media]
      rw [List.map_cons, Run.exec, hplay, Option.bind_some, exec_text i deltas, joined,
        String.append_assoc]

theorem exec_thinking (i : Nat) : ∀ (deltas : List ThinkingDelta) (tr : Transcript),
    Run.exec play tr ((Streamed.thinking deltas : Streamed J).deltaEvents i) =
      some { tr with reasoning := tr.reasoning ++ joined (deltas.map (·.sent)) }
  | [], tr => by simp [joined, Streamed.deltaEvents]
  | d :: deltas, tr => by
      have ih := exec_thinking i deltas
      rw [Streamed.deltaEvents] at ih ⊢
      have hplay : play tr ((match d with
          | .thinking s =>
              deltaEvent i { (media "thinking_delta" : ClaudeMediaMessage ω) with thinking := some s }
          | .signature => deltaEvent i (media "signature_delta")) : ClaudeResponse ω) =
            some { tr with reasoning := tr.reasoning ++ d.sent } := by
        cases d with
        | thinking s =>
            simp [play, streamResponseClaude2OpenAI, addChunk_chunkOf, deltaEvent, event, media,
              ThinkingDelta.sent]
        | signature =>
            simp [play, streamResponseClaude2OpenAI, addChunk_chunkOf, deltaEvent, event, media,
              ThinkingDelta.sent]
      rw [List.map_cons, Run.exec, hplay, Option.bind_some, ih, List.map_cons, joined,
        String.append_assoc]

theorem exec_pieces (i : Nat) : ∀ (pieces : List String) (tr : Transcript),
    Run.exec play tr (pieces.map fun s =>
        deltaEvent i { (media "input_json_delta" : ClaudeMediaMessage ω) with partialJson := some s }) =
      some { tr with
        calls := (pieces.map fun s => ⟨some (toolIndex i), "", "", s⟩).foldl addFragment tr.calls }
  | [], tr => rfl
  | s :: pieces, tr => by
      have hplay : play tr (deltaEvent i
          { (media "input_json_delta" : ClaudeMediaMessage ω) with partialJson := some s }) =
            some { tr with calls := addFragment tr.calls ⟨some (toolIndex i), "", "", s⟩ } := by
        simp [play, streamResponseClaude2OpenAI, addChunk_chunkOf, deltaEvent, event, media,
          toolIndex, ClaudeResponse.fcIdx]
      rw [List.map_cons, Run.exec, hplay, Option.bind_some, exec_pieces i pieces]
      rfl

theorem play_stop (tr : Transcript) (i : Nat) :
    play tr (stopEvent i : ClaudeResponse ω) = some tr := rfl

/-- A block, start to stop. -/
theorem exec_events (b : Streamed J) (i : Nat) (tr : Transcript) :
    Run.exec play tr (b.events i) =
      some { tr with
        content := tr.content ++ b.text?.getD ""
        reasoning := tr.reasoning ++ b.sent
        calls := (b.fragments i).foldl addFragment tr.calls } := by
  rw [Streamed.events, Run.exec, play_start, Option.bind_some, Run.exec_append]
  cases b with
  | text first deltas =>
      rw [Streamed.deltaEvents, exec_text]
      simp [Run.exec, play_stop, Streamed.startBlock, Streamed.text?, Streamed.sent,
        Streamed.fragments, String.append_assoc]
  | thinking deltas =>
      rw [exec_thinking]
      simp [Run.exec, play_stop, Streamed.startBlock, Streamed.text?, Streamed.sent,
        Streamed.fragments, media]
  | toolUse id name pieces input reads =>
      rw [Streamed.deltaEvents, exec_pieces]
      simp [Run.exec, play_stop, Streamed.startBlock, Streamed.text?, Streamed.sent,
        Streamed.fragments, media]

/-- The fragments of the tool calls from an index on. -/
def callFragments : Nat → List (Streamed J) → List ToolCallResponse
  | _, [] => []
  | i, b :: bs => b.fragments i ++ callFragments (i + 1) bs

theorem exec_blockEvents : ∀ (bs : List (Streamed J)) (i : Nat) (tr : Transcript),
    Run.exec play tr (blockEvents i bs) =
      some { tr with
        content := tr.content ++ joined (bs.map fun b => b.text?.getD "")
        reasoning := tr.reasoning ++ joined (bs.map (·.sent))
        calls := (callFragments i bs).foldl addFragment tr.calls }
  | [], i, tr => by simp [blockEvents, joined, callFragments]
  | b :: bs, i, tr => by
      rw [blockEvents, Run.exec_append, exec_events, Option.bind_some, exec_blockEvents bs]
      simp only [List.map_cons, joined, String.append_assoc, callFragments, List.foldl_append]

/-- A stream, put together. -/
theorem transcript_streamOf (id model stopReason : String) (bs : List (Streamed J)) :
    ∃ tr, (streamChunks (streamOf id model stopReason bs)).map (transcript 0) = some tr ∧
      tr.content = joined (bs.map fun b => b.text?.getD "") ∧
      tr.reasoning = joined (bs.map (·.sent)) ∧
      tr.calls = (callFragments 0 bs).foldl addFragment [] := by
  have hplayed := transcript_streamChunks (streamOf id model stopReason bs) .empty
  have hstart : play .empty ({ event "message_start" with
      message := some { media "message" with id := id, model := model } } : ClaudeResponse ω) =
        some .empty := rfl
  have hdelta : ∀ tr : Transcript, ∃ tr' : Transcript,
      play tr ({ event "message_delta" with
        delta := some { media "" with stopReason := some stopReason } } : ClaudeResponse ω) =
          some tr' ∧ tr'.content = tr.content ∧ tr'.reasoning = tr.reasoning ∧
        tr'.calls = tr.calls := by
    intro tr
    refine ⟨_, rfl, ?_⟩
    simp [addChunk_chunkOf]
  obtain ⟨tr', htr', hcontent, hreasoning, hcalls⟩ := hdelta
    { Transcript.empty with
      content := Transcript.empty.content ++ joined (bs.map fun b => b.text?.getD "")
      reasoning := Transcript.empty.reasoning ++ joined (bs.map (·.sent))
      calls := (callFragments 0 bs).foldl addFragment Transcript.empty.calls }
  have hstop : play tr' (event "message_stop" : ClaudeResponse ω) = some tr' := rfl
  refine ⟨tr', hplayed.trans ?_, ?_, ?_, hcalls⟩
  · rw [streamOf, Run.exec, hstart, Option.bind_some, Run.exec_append, exec_blockEvents,
      Option.bind_some, Run.exec, htr', Option.bind_some, Run.exec, hstop]
    rfl
  · simp [hcontent, Transcript.empty]
  · simp [hreasoning, Transcript.empty]

/-! ## Signatures -/

/-- The block without its signatures. -/
def Streamed.unsigned : Streamed J → Streamed J
  | .thinking deltas => .thinking (deltas.filter (· ≠ .signature))
  | b => b

theorem filter_deltaEvents (i : Nat) (b : Streamed J) :
    (b.deltaEvents i).filter (!isSignature ·) = b.unsigned.deltaEvents i := by
  cases b with
  | text first deltas =>
      refine List.filter_eq_self.2 fun r hr => ?_
      obtain ⟨s, -, rfl⟩ := List.mem_map.1 hr
      rfl
  | thinking deltas =>
      induction deltas with
      | nil => rfl
      | cons d deltas ih =>
          simp only [Streamed.deltaEvents, Streamed.unsigned] at ih ⊢
          cases d with
          | thinking s =>
              rw [List.map_cons, List.filter_cons_of_pos rfl, ih, List.filter_cons_of_pos (by simp)]
              rfl
          | signature =>
              rw [List.map_cons, List.filter_cons_of_neg (by simp [isSignature, deltaEvent, media]),
                ih, List.filter_cons_of_neg (by simp)]
  | toolUse id name pieces input reads =>
      refine List.filter_eq_self.2 fun r hr => ?_
      obtain ⟨s, -, rfl⟩ := List.mem_map.1 hr
      rfl

theorem filter_events (i : Nat) (b : Streamed J) :
    (b.events i).filter (!isSignature ·) = b.unsigned.events i := by
  have hstart : b.unsigned.startBlock = b.startBlock := by cases b <;> rfl
  rw [Streamed.events, List.filter_cons_of_pos rfl, List.filter_append, filter_deltaEvents,
    Streamed.events, hstart]
  rfl

theorem filter_blockEvents : ∀ (bs : List (Streamed J)) (i : Nat),
    (blockEvents i bs).filter (!isSignature ·) = blockEvents i (bs.map (·.unsigned))
  | [], _ => rfl
  | b :: bs, i => by
      rw [blockEvents, List.filter_append, filter_events, filter_blockEvents bs, List.map_cons,
        blockEvents]

theorem filter_streamOf (id model stopReason : String) (bs : List (Streamed J)) :
    (streamOf id model stopReason bs).filter (!isSignature ·) =
      streamOf id model stopReason (bs.map (·.unsigned)) := by
  rw [streamOf, List.filter_cons_of_pos rfl, List.filter_append, filter_blockEvents]
  rfl

theorem sent_unsigned (b : Streamed J) : b.unsigned.sent = b.thinking?.getD "" := by
  cases b with
  | thinking deltas =>
      simp only [Streamed.unsigned, Streamed.sent, Streamed.thinking?, Option.getD_some]
      induction deltas with
      | nil => rfl
      | cons d deltas ih =>
          cases d with
          | thinking s => simpa [joined, ThinkingDelta.sent, ThinkingDelta.text] using ih
          | signature => simpa [joined, ThinkingDelta.text] using ih
  | text first deltas => rfl
  | toolUse id name pieces input reads => rfl

/-! ## The whole message -/

/-- The tool call of a block, as the whole message has it. -/
def Streamed.tool? : Streamed J → Option ToolCallResponse
  | .toolUse id name _ input _ => some ⟨none, id, name, J.marshal input⟩
  | _ => none

theorem foldl_collected : ∀ (bs : List (Streamed J)) (acc : Collected),
    (bs.map (·.block)).foldl (Collected.add J.marshal) acc =
      { responseText := (bs.filterMap (·.text?)).getLast?.getD acc.responseText
        thinkingContent := (bs.filterMap (·.thinking?)).getLast?.getD acc.thinkingContent
        tools := acc.tools ++ bs.filterMap (·.tool?) }
  | [], acc => by simp
  | b :: bs, acc => by
      rw [List.map_cons, List.foldl_cons, foldl_collected bs]
      cases b with
      | text first deltas =>
          simp [Collected.add, Streamed.block, media, Streamed.text?, Streamed.thinking?,
            Streamed.tool?, List.getLast?_cons]
      | thinking deltas =>
          simp [Collected.add, Streamed.block, media, Streamed.text?, Streamed.thinking?,
            Streamed.tool?, List.getLast?_cons]
      | toolUse id name pieces input reads =>
          simp [Collected.add, Streamed.block, media, Streamed.text?, Streamed.thinking?,
            Streamed.tool?]

theorem responseClaude2OpenAI_messageOf (id model stopReason : String) (bs : List (Streamed J)) :
    (responseClaude2OpenAI J.marshal (messageOf id model stopReason bs)).choices =
      [{ index := 0
         message :=
          { content := .text ((bs.filterMap (·.text?)).getLast?.getD "")
            reasoningContent := (bs.filterMap (·.thinking?)).getLast?.getD ""
            toolCalls := bs.filterMap (·.tool?) }
         finishReason := stopReasonClaude2OpenAI stopReason }] := by
  simp only [responseClaude2OpenAI, messageOf, foldl_collected, List.nil_append]
  -- The text of the first block is there to begin with, and is overwritten by the texts.
  cases bs with
  | nil => rfl
  | cons b bs =>
      cases b with
      | text first deltas => simp [Streamed.text?, List.getLast?_cons]
      | thinking deltas => rfl
      | toolUse id name pieces input reads => rfl

/-! ## Texts -/

theorem length_last_le : ∀ ss : List String, (ss.getLast?.getD "").length ≤ (joined ss).length
  | [] => Nat.le_refl _
  | [s] => by simp [joined]
  | s :: s' :: ss => by
      have ih := length_last_le (s' :: ss)
      rw [List.getLast?_cons_cons, joined, String.length_append]
      omega

/-- All the texts together are the last of them exactly if the others are empty. -/
theorem joined_eq_last : ∀ ss : List String, joined ss = ss.getLast?.getD "" ↔ onlyLast ss
  | [] => by simp [joined, onlyLast]
  | [s] => by simp [joined, onlyLast]
  | s :: s' :: ss => by
      have ih := joined_eq_last (s' :: ss)
      rw [joined, List.getLast?_cons_cons, onlyLast, List.dropLast_cons_cons]
      simp only [onlyLast] at ih
      constructor
      · intro h
        have hlength := congrArg String.length h
        have hle := length_last_le (s' :: ss)
        rw [String.length_append] at hlength
        have hs : s = "" := by
          rw [← String.length_eq_zero_iff]
          omega
        rw [hs, String.empty_append] at h
        intro t ht
        rcases List.mem_cons.1 ht with rfl | ht
        · exact hs
        · exact ih.1 h t ht
      · intro h
        rw [h s (by simp), String.empty_append]
        exact ih.2 fun t ht => h t (List.mem_cons_of_mem _ ht)

/-- Blocks of another kind have no part in it. -/
theorem joined_map_getD {α : Type} (f : α → Option String) (bs : List α) :
    joined (bs.map fun b => (f b).getD "") = joined (bs.filterMap f) := by
  induction bs with
  | nil => rfl
  | cons b bs ih =>
      cases hb : f b with
      | none => simp [joined, hb, ih]
      | some s => simp [joined, hb, ih]

/-! ## Tool calls -/

/-- The tool calls from a block on, as the stream should give them. -/
def expectedCalls : Nat → List (Streamed J) → List (Int × ToolCall)
  | _, [] => []
  | i, .toolUse id name pieces _ _ :: bs =>
      (toolIndex i, ⟨id, name, joined pieces⟩) :: expectedCalls (i + 1) bs
  | i, _ :: bs => expectedCalls (i + 1) bs

theorem foldl_pieces (k : Int) (call : ToolCall) {calls : List (Int × ToolCall)}
    (h : ∀ call' ∈ calls, call'.1 ≠ k) (pieces : List String) :
    (pieces.map fun s => (⟨some k, "", "", s⟩ : ToolCallResponse)).foldl addFragment
        (calls ++ [(k, call)]) =
      calls ++ [(k, { call with arguments := call.arguments ++ joined pieces })] := by
  induction pieces generalizing call with
  | nil => simp [joined]
  | cons s pieces ih =>
      have hlast : addFragment (calls ++ [(k, call)]) ⟨some k, "", "", s⟩ =
          calls ++ [(k, { call with arguments := call.arguments ++ s })] :=
        addFragment_last (t := ⟨some k, "", "", s⟩) (k := k) rfl rfl rfl h
      rw [List.map_cons, List.foldl_cons, hlast, ih, joined, String.append_assoc]

/-- A tool call with a new index stays by itself. -/
theorem foldl_fragments {id name : String} {pieces : List String} {input : Option ω}
    {reads : J.unmarshal (joined pieces) = some input ∨
      joined pieces = "" ∧ input = some J.emptyObject} {i : Nat}
    {calls : List (Int × ToolCall)} (h : ∀ call ∈ calls, call.1 ≠ toolIndex i) :
    ((Streamed.toolUse id name pieces input reads).fragments i).foldl addFragment calls =
      calls ++ [(toolIndex i, ⟨id, name, joined pieces⟩)] := by
  rw [Streamed.fragments, List.foldl_cons, addFragment_of_not_mem h, Option.getD_some,
    foldl_pieces _ _ h, String.empty_append]

/-- From the second block on every index is new. -/
theorem foldl_callFragments : ∀ (bs : List (Streamed J)) {i : Nat} {calls : List (Int × ToolCall)},
    1 ≤ i → (∀ call ∈ calls, call.1 < toolIndex i) →
      (callFragments i bs).foldl addFragment calls = calls ++ expectedCalls i bs
  | [], i, calls, _, _ => by simp [callFragments, expectedCalls]
  | b :: bs, i, calls, hi, h => by
      have hnext : toolIndex (i + 1) = toolIndex i + 1 := by
        simp only [toolIndex]
        split <;> split <;> omega
      have hnext' : ∀ call ∈ calls, call.1 < toolIndex (i + 1) := by
        intro call hcall
        have := h call hcall
        omega
      rw [callFragments, List.foldl_append]
      cases b with
      | text first deltas => exact foldl_callFragments bs (by omega) hnext'
      | thinking deltas => exact foldl_callFragments bs (by omega) hnext'
      | toolUse id name pieces input reads =>
          rw [foldl_fragments fun call hcall => Int.ne_of_lt (h call hcall),
            foldl_callFragments bs (by omega), expectedCalls, List.append_assoc]
          · rfl
          · intro call hcall
            rcases List.mem_append.1 hcall with hcall | hcall
            · exact hnext' call hcall
            · rw [List.mem_singleton.1 hcall]
              dsimp only
              omega

/-- The tool calls of the stream, with their arguments read, are those of the message
where they are spelled out. -/
theorem map_expectedCalls : ∀ (bs : List (Streamed J)) (i : Nat),
    (bs.filterMap (·.tool?)).map (fun t => (t.id, t.name, J.unmarshal t.arguments)) =
        (expectedCalls i bs).map (fun call =>
          (call.2.id, call.2.name, J.unmarshal call.2.arguments)) ↔
      ∀ b ∈ bs, b.spelled
  | [], _ => by simp [expectedCalls]
  | b :: bs, i => by
      have ih := map_expectedCalls bs (i + 1)
      cases b with
      | text first deltas => simpa [expectedCalls, Streamed.tool?, Streamed.spelled] using ih
      | thinking deltas => simpa [expectedCalls, Streamed.tool?, Streamed.spelled] using ih
      | toolUse id name pieces input reads =>
          have hread : some input = J.unmarshal (joined pieces) ↔ joined pieces ≠ "" := by
            constructor
            · intro h hempty
              rw [hempty, J.unmarshal_empty] at h
              cases h
            · intro h
              exact (reads.resolve_right fun hr => h hr.1).symm
          have htools : (Streamed.toolUse id name pieces input reads :: bs).filterMap (·.tool?) =
              ⟨none, id, name, J.marshal input⟩ :: bs.filterMap (·.tool?) := rfl
          rw [htools, expectedCalls, List.map_cons, List.map_cons, List.forall_mem_cons,
            List.cons.injEq, ih, J.unmarshal_marshal, Prod.mk.injEq, Prod.mk.injEq, hread]
          simp [Streamed.spelled]

/-- A block gives at most one call. -/
theorem length_pieces (k : Int) (pieces : List String) :
    ∀ {calls : List (Int × ToolCall)}, k ∈ calls.map Prod.fst →
      ((pieces.map fun s => (⟨some k, "", "", s⟩ : ToolCallResponse)).foldl addFragment
        calls).length = calls.length := by
  induction pieces with
  | nil => exact fun _ => rfl
  | cons s pieces ih =>
      intro calls hk
      have hmem := index_mem_addFragment ⟨some k, "", "", s⟩ calls
      have hlength := length_addFragment ⟨some k, "", "", s⟩ calls
      rw [Option.getD_some] at hmem hlength
      rw [if_pos hk] at hlength
      rw [List.map_cons, List.foldl_cons, ih hmem, hlength]

theorem length_fragments {id name : String} {pieces : List String} {input : Option ω}
    {reads : J.unmarshal (joined pieces) = some input ∨
      joined pieces = "" ∧ input = some J.emptyObject} (i : Nat) (calls : List (Int × ToolCall)) :
    (((Streamed.toolUse id name pieces input reads).fragments i).foldl addFragment calls).length =
      if toolIndex i ∈ calls.map Prod.fst then calls.length else calls.length + 1 := by
  have hmem := index_mem_addFragment ⟨some (toolIndex i), id, name, ""⟩ calls
  have hlength := length_addFragment ⟨some (toolIndex i), id, name, ""⟩ calls
  rw [Option.getD_some] at hmem hlength
  rw [Streamed.fragments, List.foldl_cons, length_pieces _ _ hmem, hlength]

theorem length_callFragments_le : ∀ (bs : List (Streamed J)) (i : Nat)
    (calls : List (Int × ToolCall)),
    ((callFragments i bs).foldl addFragment calls).length ≤
      calls.length + (bs.filterMap (·.tool?)).length
  | [], _, calls => by simp [callFragments]
  | b :: bs, i, calls => by
      rw [callFragments, List.foldl_append]
      have ih := length_callFragments_le bs (i + 1)
      cases b with
      | text first deltas => exact ih calls
      | thinking deltas => exact ih calls
      | toolUse id name pieces input reads =>
          have hnext := ih
            (((Streamed.toolUse id name pieces input reads).fragments i).foldl addFragment calls)
          rw [length_fragments] at hnext
          simp only [List.filterMap_cons, Streamed.tool?, List.length_cons] at hnext ⊢
          split at hnext
          next => omega
          next => omega

/-- The first two blocks apart, every tool call is by itself. -/
theorem foldl_callFragments_of_not_shares {bs : List (Streamed J)} (h : sharesIndex bs = false) :
    (callFragments 0 bs).foldl addFragment [] = expectedCalls 0 bs := by
  cases bs with
  | nil => rfl
  | cons b₀ bs =>
      have hrest : (callFragments 1 bs).foldl addFragment [] = expectedCalls 1 bs := by
        have hall := foldl_callFragments bs (i := 1) (Nat.le_refl 1)
          (fun call (hcall : call ∈ []) => by cases hcall)
        rwa [List.nil_append] at hall
      cases b₀ with
      | text first deltas => exact hrest
      | thinking deltas => exact hrest
      | toolUse id name pieces input reads =>
          rw [callFragments, List.foldl_append, foldl_fragments (fun call hcall => by cases hcall),
            List.nil_append, expectedCalls]
          -- The second block has the same index, but is no tool call.
          have hbehind : ∀ (bs : List (Streamed J)),
              (callFragments 2 bs).foldl addFragment
                  [(toolIndex 0, ⟨id, name, joined pieces⟩)] =
                (toolIndex 0, ⟨id, name, joined pieces⟩) :: expectedCalls 2 bs := by
            intro bs
            refine foldl_callFragments bs (by omega) fun call hcall => ?_
            rw [List.mem_singleton.1 hcall]
            show toolIndex 0 < toolIndex 2
            decide
          cases bs with
          | nil => rfl
          | cons b₁ bs =>
              cases b₁ with
              | text first deltas => exact hbehind bs
              | thinking deltas => exact hbehind bs
              | toolUse id' name' pieces' input' reads' => cases h

/-- Two tool calls at the beginning are one in the stream. -/
theorem length_lt_of_two {b₀ b₁ : Streamed J} (bs : List (Streamed J))
    (h₀ : b₀.isToolUse = true) (h₁ : b₁.isToolUse = true) :
    ((callFragments 0 (b₀ :: b₁ :: bs)).foldl addFragment []).length <
      ((b₀ :: b₁ :: bs).filterMap (·.tool?)).length := by
  cases b₀ with
  | text first deltas => cases h₀
  | thinking deltas => cases h₀
  | toolUse id name pieces input reads =>
      cases b₁ with
      | text first deltas => cases h₁
      | thinking deltas => cases h₁
      | toolUse id' name' pieces' input' reads' =>
          have hfirst : ((Streamed.toolUse id name pieces input reads).fragments 0).foldl
              addFragment [] = [(toolIndex 0, ⟨id, name, joined pieces⟩)] :=
            foldl_fragments fun call hcall => by cases hcall
          have hindex : toolIndex 1 ∈ [(toolIndex 0, (⟨id, name, joined pieces⟩ : ToolCall))].map
              Prod.fst := List.mem_singleton.2 rfl
          have hsecond :
              (((Streamed.toolUse id' name' pieces' input' reads').fragments 1).foldl addFragment
                [(toolIndex 0, ⟨id, name, joined pieces⟩)]).length = _ := length_fragments 1 _
          rw [if_pos hindex, List.length_singleton] at hsecond
          have hrest := length_callFragments_le bs 2
            (((Streamed.toolUse id' name' pieces' input' reads').fragments 1).foldl addFragment
              [(toolIndex 0, ⟨id, name, joined pieces⟩)])
          rw [hsecond] at hrest
          have htools : ((Streamed.toolUse id name pieces input reads ::
              Streamed.toolUse id' name' pieces' input' reads' :: bs).filterMap
                (·.tool?)).length = (bs.filterMap (·.tool?)).length + 2 := rfl
          rw [callFragments, callFragments, List.foldl_append, List.foldl_append, hfirst, htools]
          exact Nat.lt_of_le_of_lt hrest (by omega)

/-- Every tool call is by itself exactly if the first two blocks are not both such, and
has its arguments exactly if they are spelled out. -/
theorem calls_iff (bs : List (Streamed J)) :
    (bs.filterMap (·.tool?)).map (fun t => (t.id, t.name, J.unmarshal t.arguments)) =
        ((callFragments 0 bs).foldl addFragment []).map (fun call =>
          (call.2.id, call.2.name, J.unmarshal call.2.arguments)) ↔
      sharesIndex bs = false ∧ ∀ b ∈ bs, b.spelled := by
  cases hshares : sharesIndex bs with
  | false => simp [foldl_callFragments_of_not_shares hshares, map_expectedCalls]
  | true =>
      simp only [Bool.true_eq_false, false_and, iff_false]
      intro h
      have hlength := congrArg List.length h
      simp only [List.length_map] at hlength
      match bs with
      | b₀ :: b₁ :: bs =>
          rw [sharesIndex, Bool.and_eq_true] at hshares
          have hlt := length_lt_of_two bs hshares.1 hshares.2
          omega

/-! ## The agreement -/

/-- JSON with `null` and the empty object. -/
def emptyJson : Json Unit where
  marshal
    | none => "null"
    | some _ => "\x7b\x7d"
  emptyObject := ()
  unmarshal s := if s = "null" then some none else if s = "\x7b\x7d" then some (some ()) else none
  unmarshal_marshal v := by
    cases v with
    | none => rfl
    | some u => rfl
  unmarshal_empty := by decide +kernel

/-- A tool call without parameters. -/
def emptyCall (id name : String) : Streamed emptyJson :=
  .toolUse id name ["\x7b", "\x7d"] (some ()) (Or.inl (by decide +kernel))

end DazeApi.Convert.Claude2OpenAI
