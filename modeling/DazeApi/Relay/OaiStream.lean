import DazeApi.Convert.ThinkToContent
import DazeApi.Lib.Decimal
import DazeApi.Lib.Json
import DazeApi.Quota.ResponsesUsage
import DazeApi.Relay.SseLines

/-!
# The stream of an OpenAI upstream

`OaiStreamHandler` (`relay/channel/openai/relay-openai.go`), with `handleLastResponse` and
`HandleFinalResponse` (`helper.go`), for a client of the same format.  The data handler runs one
chunk behind: it writes the chunk that it holds when the next one comes.  Of the last chunk it is
decided after the stream whether it is written, from its usage and its texts.
-/

namespace DazeApi.Relay.OaiStream

open Quota (UpstreamUsage ResponseBody)
open DazeApi.Convert (Choice)
open DazeApi.Convert.ThinkToContent (ThinkingContentInfo)

/-- `dto.ChatCompletionsStreamResponse`. -/
structure StreamResponse where
  id : String
  object : String
  created : Int
  model : String
  systemFingerprint : Option String
  choices : List Choice
  usage : Option UpstreamUsage

/-- The usage, if `ValidUsage` accepts it. -/
def StreamResponse.validUsage (r : StreamResponse) : Option UpstreamUsage :=
  r.usage.filter fun u => Quota.validUsage (some u.toUsage)

/-- What `common.Unmarshal` reads out of a text, and what `common.Marshal` writes.  Of the struct
for audio models only the usage is read, which may be missing. -/
structure Codec where
  unmarshal : String → Option StreamResponse
  unmarshalUsage : String → Option (Option UpstreamUsage)
  readBody : String → ResponseBody
  marshal : StreamResponse → String
  unmarshal_empty : unmarshal "" = none

structure Info where
  upstreamModelName : String
  channelType : Int
  forceFormat : Bool
  thinkingToContent : Bool
  thinkingContentInfo : ThinkingContentInfo
  shouldIncludeUsage : Bool

def isAudioModel (info : Info) : Bool :=
  Text.contains (Text.toLower info.upstreamModelName) "audio"

/-- The variables of the data handler, the flags of the request, and the data events that are
written. -/
structure State where
  lastStreamData : String
  secondLastStreamData : String
  thinkingContentInfo : ThinkingContentInfo
  written : List String

def initial (info : Info) : State := ⟨"", "", info.thinkingContentInfo, []⟩

def State.stringData (s : State) (str : String) : State :=
  { s with written := s.written ++ [str] }

section

variable (codec : Codec) (info : Info)

def sendStreamData (s : State) (data : String) : State :=
  if data = "" then s
  else if !info.forceFormat && !info.thinkingToContent then s.stringData data
  else
    match codec.unmarshal data with
    | none => s
    | some r =>
        if !info.thinkingToContent then s.stringData (codec.marshal r)
        else
          let sent := Convert.ThinkToContent.sendStreamData s.thinkingContentInfo r.choices
          { s with
            thinkingContentInfo := sent.1
            written := s.written ++ sent.2.map fun cs => codec.marshal { r with choices := cs } }

/-- The data handler. -/
def handleData (s : State) (data : String) : State :=
  let s := if s.lastStreamData ≠ "" then sendStreamData codec info s s.lastStreamData else s
  if data ≠ "" then
    { s with
      secondLastStreamData :=
        if isAudioModel info && s.lastStreamData ≠ "" then s.lastStreamData
        else s.secondLastStreamData
      lastStreamData := data }
  else s

/-- The usage in the chunk before the last one, which audio models give there. -/
def audioUsage (secondLastStreamData : String) : Option UpstreamUsage :=
  if isAudioModel info && secondLastStreamData ≠ "" then
    (codec.unmarshalUsage secondLastStreamData).bind fun usage =>
      usage.filter fun u => Quota.validUsage (some u.toUsage)
  else none

/-- The variables after the stream. -/
structure Last where
  responseId : String
  createAt : Int
  systemFingerprint : String
  model : String
  usage : UpstreamUsage
  containStreamUsage : Bool
  shouldSendLastResp : Bool

def handleLastResponse (lastStreamData : String) (l : Last) : Last :=
  match codec.unmarshal lastStreamData with
  | none => l
  | some r =>
      let l :=
        { l with
          responseId := r.id
          createAt := r.created
          systemFingerprint := r.systemFingerprint.getD ""
          model := r.model }
      match r.validUsage with
      | none => l
      | some usage =>
          { l with
            containStreamUsage := true
            usage := usage
            shouldSendLastResp :=
              if !info.shouldIncludeUsage then
                r.choices.any fun choice =>
                  choice.delta.getContentString ≠ "" || choice.delta.getReasoningContent ≠ ""
              else l.shouldSendLastResp }

def generateFinalUsageResponse (id : String) (createAt : Int) (model : String)
    (usage : UpstreamUsage) : StreamResponse :=
  ⟨id, "chat.completion.chunk", createAt, model, none, [], some usage⟩

def handleFinalResponse (s : State) (l : Last) : State :=
  let s :=
    if info.shouldIncludeUsage && !l.containStreamUsage then
      let response := generateFinalUsageResponse l.responseId l.createAt l.model l.usage
      s.stringData (codec.marshal { response with systemFingerprint := some l.systemFingerprint })
    else s
  s.stringData "[DONE]"

/-- The variables before the last chunk is looked at. -/
def beforeLast (secondLastStreamData : String) : Last where
  responseId := ""
  createAt := 0
  systemFingerprint := ""
  model := info.upstreamModelName
  usage := (audioUsage codec info secondLastStreamData).getD 0
  containStreamUsage := (audioUsage codec info secondLastStreamData).isSome
  shouldSendLastResp := true

/-- The data events that are written for the payloads of the scanner, and the usage that is
returned. -/
def oaiStreamHandler (chunks : List String) : List String × UpstreamUsage :=
  let s := chunks.foldl (handleData codec info) (initial info)
  let l := handleLastResponse codec info s.lastStreamData
    (beforeLast codec info s.secondLastStreamData)
  let s := if l.shouldSendLastResp then sendStreamData codec info s s.lastStreamData else s
  let usage :=
    Quota.applyUsagePostProcessing info.channelType (codec.readBody s.lastStreamData) l.usage
  let s := handleFinalResponse codec info s { l with usage := usage }
  (s.written, usage)

/-! ## What is meant -/

/-- The last chunk, decoded. -/
def lastResponse (chunks : List String) : Option StreamResponse :=
  chunks.getLast?.bind codec.unmarshal

/-- The usage that the stream gives: that of the last chunk, or for an audio model that of the one
before it. -/
def givenUsage (chunks : List String) : Option UpstreamUsage :=
  ((lastResponse codec chunks).bind StreamResponse.validUsage).or
    (audioUsage codec info (chunks.dropLast.getLast?.getD ""))

/-- The last chunk carries usage that the client did not ask for. -/
def Unasked (chunks : List String) (r : StreamResponse) : Prop :=
  info.shouldIncludeUsage = false ∧ lastResponse codec chunks = some r ∧ r.validUsage ≠ none

def HasText (r : StreamResponse) : Prop :=
  ∃ choice ∈ r.choices,
    choice.delta.getContentString ≠ "" ∨ choice.delta.getReasoningContent ≠ ""

/-- What is written of the last chunk.  Of one that carries usage without being asked for it, and
choices without text, nothing is said but that it is not written twice. -/
structure LastWritten (chunks final : List String) : Prop where
  atMostOnce : final.Sublist chunks.getLast?.toList
  withheld : ∀ r, Unasked codec info chunks r → r.choices = [] → final = []
  sent : (∀ r, Unasked codec info chunks r → HasText r) → final = chunks.getLast?.toList

/-- A client that asks for usage is given it by the relay if the stream does not. -/
structure UsageWritten (chunks made : List String) (usage : UpstreamUsage) : Prop where
  nothing : info.shouldIncludeUsage = false ∨ givenUsage codec info chunks ≠ none → made = []
  chunk : info.shouldIncludeUsage = true → givenUsage codec info chunks = none →
    ∃ r : StreamResponse, made = [codec.marshal r] ∧ r.choices = [] ∧ r.usage = some usage

/-- The chunks before the last one, what is written of that, the usage of the relay, and the end;
the usage that is returned is that of the last chunk, of which the post-processing keeps the
counts. -/
structure Relayed (chunks : List String) (out : List String × UpstreamUsage) : Prop where
  written : ∃ final made, LastWritten codec info chunks final ∧
    UsageWritten codec info chunks made out.2 ∧
    out.1 = chunks.dropLast ++ final ++ made ++ ["[DONE]"]
  usage : ∀ r u, lastResponse codec chunks = some r → r.validUsage = some u →
    out.2 = Quota.applyUsagePostProcessing info.channelType
      (codec.readBody (chunks.getLast?.getD "")) u ∧
    out.2.promptTokens = u.promptTokens ∧ out.2.completionTokens = u.completionTokens ∧
    out.2.totalTokens = u.totalTokens

/-- Every chunk is written once and in order, and then the end, except for a last chunk with usage
that the client did not ask for and without choices. -/
structure EachOnce (chunks : List String) (out : List String × UpstreamUsage) : Prop where
  written : out.1 = chunks ++ ["[DONE]"] ∨
    info.shouldIncludeUsage = false ∧
      (∃ r, lastResponse codec chunks = some r ∧ r.usage ≠ none ∧ r.choices = []) ∧
      out.1 = chunks.dropLast ++ ["[DONE]"]
  usage : ∀ r u, lastResponse codec chunks = some r → r.validUsage = some u →
    out.2 = Quota.applyUsagePostProcessing info.channelType
      (codec.readBody (chunks.getLast?.getD "")) u

end

section

variable {codec : Codec} {info : Info} {chunks : List String} {s : State} {data : String}

/-! ## The chunks before the last one -/

theorem sendStreamData_verbatim (hforce : info.forceFormat = false)
    (hthink : info.thinkingToContent = false) (hdata : data ≠ "") :
    sendStreamData codec info s data = s.stringData data := by
  rw [sendStreamData, if_neg hdata, hforce, hthink]
  rfl

theorem sendStreamData_empty : sendStreamData codec info s "" = s := if_pos rfl

/-- An empty payload writes the chunk that is held once more. -/
theorem handleData_empty (hforce : info.forceFormat = false)
    (hthink : info.thinkingToContent = false) (hheld : s.lastStreamData ≠ "") :
    handleData codec info s "" = s.stringData s.lastStreamData := by
  rw [handleData, if_pos hheld, sendStreamData_verbatim hforce hthink hheld]
  rfl

/-- A chunk takes the place of the one that is held. -/
theorem handleData_held (hforce : info.forceFormat = false)
    (hthink : info.thinkingToContent = false) (hheld : s.lastStreamData ≠ "") (hdata : data ≠ "") :
    handleData codec info s data =
      { s with
        lastStreamData := data
        secondLastStreamData :=
          if isAudioModel info && s.lastStreamData ≠ "" then s.lastStreamData
          else s.secondLastStreamData
        written := s.written ++ [s.lastStreamData] } := by
  rw [handleData, if_pos hheld, sendStreamData_verbatim hforce hthink hheld, if_pos hdata]
  generalize isAudioModel info = audio
  rfl

/-- The chunks before the last one are written, and that is held. -/
structure Behind (info : Info) (chunks : List String) (s : State) : Prop where
  written : s.written = chunks.dropLast
  last : s.lastStreamData = chunks.getLast?.getD ""
  secondLast : isAudioModel info = true →
    s.secondLastStreamData = chunks.dropLast.getLast?.getD ""

theorem Behind.initial : Behind info [] (initial info) := ⟨rfl, rfl, fun _ => rfl⟩

theorem getLast?_snoc_getD (chunks : List String) (data : String) :
    (chunks ++ [data]).getLast?.getD "" = data := by
  rw [List.getLast?_concat]
  rfl

theorem Behind.handleData (hforce : info.forceFormat = false)
    (hthink : info.thinkingToContent = false) (h : Behind info chunks s)
    (hchunks : "" ∉ chunks) (hdata : data ≠ "") :
    Behind info (chunks ++ [data]) (handleData codec info s data) := by
  rcases List.eq_nil_or_concat chunks with rfl | ⟨before, held, rfl⟩
  · -- nothing is held before the first chunk
    have hheld : s.lastStreamData = "" := h.last
    have hwritten : s.written = [] := h.written
    rw [OaiStream.handleData, if_neg (not_not.2 hheld), if_pos hdata]
    refine ⟨hwritten, rfl, ?_⟩
    intro haudio
    have hsecond : s.secondLastStreamData = "" := h.secondLast haudio
    dsimp only
    rw [hheld, hsecond, ite_self]
    rfl
  · rw [List.concat_eq_append] at h hchunks ⊢
    have hlast : s.lastStreamData = held := by rw [h.last, getLast?_snoc_getD]
    have hwritten : s.written = before := by rw [h.written, List.dropLast_concat]
    have hheld : s.lastStreamData ≠ "" := by
      rintro hempty
      rw [hlast] at hempty
      exact hchunks (by rw [hempty]; simp)
    rw [handleData_held hforce hthink hheld hdata, hlast, hwritten]
    refine ⟨?_, ?_, ?_⟩
    · rw [List.dropLast_concat]
    · rw [getLast?_snoc_getD]
    · intro haudio
      have hboth : (isAudioModel info && decide (held ≠ "")) = true := by
        rw [haudio, Bool.true_and]
        exact decide_eq_true (hlast ▸ hheld)
      rw [List.dropLast_concat, getLast?_snoc_getD, hboth]
      rfl

theorem behind_foldl (hforce : info.forceFormat = false)
    (hthink : info.thinkingToContent = false) (hchunks : "" ∉ chunks) :
    Behind info chunks (chunks.foldl (handleData codec info) (initial info)) := by
  induction chunks using List.reverseRecOn with
  | nil => exact .initial
  | append_singleton chunks data ih =>
      rw [List.mem_append, not_or, List.mem_singleton] at hchunks
      rw [List.foldl_append]
      exact (ih hchunks.1).handleData hforce hthink hchunks.1 (Ne.symm hchunks.2)

theorem empty_not_mem_accepted (lines : List String) : "" ∉ Scanner.accepted lines := by
  intro h
  obtain ⟨line, -, hpayload⟩ := Scanner.exists_payload_of_mem_accepted h
  exact (Scanner.payload_spec hpayload).1 rfl

/-! ## After the stream -/

theorem Behind.unmarshal_last (h : Behind info chunks s) :
    codec.unmarshal s.lastStreamData = lastResponse codec chunks := by
  rw [h.last, lastResponse]
  cases chunks.getLast? with
  | none => exact codec.unmarshal_empty
  | some data => rfl

theorem Behind.audioUsage_eq (h : Behind info chunks s) :
    audioUsage codec info s.secondLastStreamData =
      audioUsage codec info (chunks.dropLast.getLast?.getD "") := by
  cases haudio : isAudioModel info with
  | false =>
      rw [audioUsage, audioUsage, haudio]
      rfl
  | true => rw [h.secondLast haudio]

/-- The variables after the last chunk has been looked at. -/
def afterLast (codec : Codec) (info : Info) (s : State) : Last :=
  handleLastResponse codec info s.lastStreamData (beforeLast codec info s.secondLastStreamData)

theorem Behind.usage_afterLast (h : Behind info chunks s) :
    (afterLast codec info s).usage = (givenUsage codec info chunks).getD 0 ∧
      (afterLast codec info s).containStreamUsage = (givenUsage codec info chunks).isSome := by
  rw [afterLast, handleLastResponse, h.unmarshal_last, givenUsage, ← h.audioUsage_eq, beforeLast]
  generalize audioUsage codec info s.secondLastStreamData = audio
  cases lastResponse codec chunks with
  | none =>
      rw [Option.bind_none, Option.none_or]
      exact ⟨rfl, rfl⟩
  | some r =>
      rw [Option.bind_some]
      dsimp only
      cases r.validUsage with
      | none =>
          rw [Option.none_or]
          exact ⟨rfl, rfl⟩
      | some usage => exact ⟨rfl, rfl⟩

/-- A last chunk with usage that the client did not ask for is sent exactly if it has text. -/
theorem Behind.shouldSend_of_unasked {r : StreamResponse} (h : Behind info chunks s)
    (hr : Unasked codec info chunks r) :
    (afterLast codec info s).shouldSendLastResp = true ↔ HasText r := by
  obtain ⟨hasked, hlast, husage⟩ := hr
  obtain ⟨usage, husage⟩ := Option.ne_none_iff_exists'.1 husage
  rw [afterLast, handleLastResponse, h.unmarshal_last, hlast]
  dsimp only
  rw [husage, hasked]
  show (r.choices.any fun choice => choice.delta.getContentString ≠ "" ||
    choice.delta.getReasoningContent ≠ "") = true ↔ _
  rw [List.any_eq_true, HasText]
  simp

/-- Every other chunk is sent. -/
theorem Behind.shouldSend_of_not_unasked (h : Behind info chunks s)
    (hnone : ∀ r, ¬ Unasked codec info chunks r) :
    (afterLast codec info s).shouldSendLastResp = true := by
  rw [afterLast, handleLastResponse, h.unmarshal_last]
  cases hlast : lastResponse codec chunks with
  | none => rfl
  | some r =>
      dsimp only
      cases husage : r.validUsage with
      | none => rfl
      | some usage =>
          cases hasked : info.shouldIncludeUsage with
          | true => rfl
          | false =>
              refine absurd ⟨hasked, hlast, ?_⟩ (hnone r)
              rw [husage]
              exact Option.some_ne_none usage

/-- What is written of the chunk that is held. -/
def finalOf (codec : Codec) (info : Info) (chunks : List String) (s : State) : List String :=
  if (afterLast codec info s).shouldSendLastResp then chunks.getLast?.toList else []

theorem Behind.lastWritten (h : Behind info chunks s) :
    LastWritten codec info chunks (finalOf codec info chunks s) := by
  refine ⟨?_, ?_, ?_⟩
  · rw [finalOf]
    split
    · exact List.Sublist.refl _
    · exact List.nil_sublist _
  · intro r hr hchoices
    refine if_neg ?_
    rw [h.shouldSend_of_unasked hr, HasText, hchoices]
    rintro ⟨choice, hmem, -⟩
    cases hmem
  · intro htext
    refine if_pos ?_
    by_cases hr : ∃ r, Unasked codec info chunks r
    · obtain ⟨r, hr⟩ := hr
      exact (h.shouldSend_of_unasked hr).2 (htext r hr)
    · exact h.shouldSend_of_not_unasked fun r hr' => hr ⟨r, hr'⟩

theorem Behind.written_last (hforce : info.forceFormat = false)
    (hthink : info.thinkingToContent = false) (h : Behind info chunks s) (hchunks : "" ∉ chunks) :
    (if (afterLast codec info s).shouldSendLastResp then
      sendStreamData codec info s s.lastStreamData else s).written =
    chunks.dropLast ++ finalOf codec info chunks s := by
  rw [finalOf]
  split
  · cases hlast : chunks.getLast? with
    | none =>
        rw [h.last, hlast, Option.getD_none, sendStreamData_empty, h.written]
        exact (List.append_nil _).symm
    | some data =>
        have hdata : data ≠ "" := by
          rintro rfl
          exact hchunks (List.mem_of_getLast? hlast)
        rw [h.last, hlast, Option.getD_some, sendStreamData_verbatim hforce hthink hdata]
        show s.written ++ [data] = _
        rw [h.written]
        rfl
  · rw [h.written, List.append_nil]

theorem normalize_counts (u : Quota.Usage) :
    u.normalizeInputTokenDetails.promptTokens = u.promptTokens ∧
      u.normalizeInputTokenDetails.completionTokens = u.completionTokens ∧
      u.normalizeInputTokenDetails.totalTokens = u.totalTokens := by
  rw [Quota.Usage.normalizeInputTokenDetails]
  cases u.inputTokensDetails with
  | none => exact ⟨rfl, rfl, rfl⟩
  | some src => exact ⟨rfl, rfl, rfl⟩

/-- The post-processing changes details only. -/
theorem postProcessing_counts (channelType : Int) (body : ResponseBody) (u : UpstreamUsage) :
    (Quota.applyUsagePostProcessing channelType body u).promptTokens = u.promptTokens ∧
      (Quota.applyUsagePostProcessing channelType body u).completionTokens = u.completionTokens ∧
      (Quota.applyUsagePostProcessing channelType body u).totalTokens = u.totalTokens := by
  rw [Quota.UpstreamUsage.applyUsagePostProcessing_eq]
  split
  · exact normalize_counts u.toUsage
  · exact normalize_counts u.toUsage

theorem lastStreamData_sendStreamData (s : State) (data : String) :
    (sendStreamData codec info s data).lastStreamData = s.lastStreamData := by
  rw [sendStreamData]
  split
  · rfl
  · split
    · rfl
    · cases codec.unmarshal data with
      | none => rfl
      | some r =>
          dsimp only
          split
          · rfl
          · rfl

/-- The usage chunk of the relay, if there is one, and the end. -/
theorem handleFinalResponse_spec (s : State) {l : Last}
    (hcontain : l.containStreamUsage = (givenUsage codec info chunks).isSome) :
    ∃ made, UsageWritten codec info chunks made l.usage ∧
      (handleFinalResponse codec info s l).written = s.written ++ made ++ ["[DONE]"] := by
  cases hasked : info.shouldIncludeUsage with
  | false =>
      refine ⟨[], ⟨fun _ => rfl, fun h => ?_⟩, ?_⟩
      · rw [hasked] at h
        cases h
      · rw [handleFinalResponse, hasked, List.append_nil]
        rfl
  | true =>
      cases hgiven : givenUsage codec info chunks with
      | some usage =>
          rw [hgiven] at hcontain
          refine ⟨[], ⟨fun _ => rfl, fun _ h => ?_⟩, ?_⟩
          · rw [hgiven] at h
            cases h
          · rw [handleFinalResponse, hasked, hcontain, List.append_nil]
            rfl
      | none =>
          rw [hgiven] at hcontain
          refine ⟨[codec.marshal
            { generateFinalUsageResponse l.responseId l.createAt l.model l.usage with
              systemFingerprint := some l.systemFingerprint }],
            ⟨?_, fun _ _ => ⟨_, rfl, rfl, rfl⟩⟩, ?_⟩
          · rw [hasked, hgiven]
            rintro (h | h)
            · cases h
            · exact absurd rfl h
          · rw [handleFinalResponse, hasked, hcontain]
            rfl

/-- Every payload of the scanner is written once and in order, and then the end.  Of the last one
this depends on its usage, and before the end the relay gives the usage that the client asks for
and the stream does not give. -/
theorem oaiStreamHandler_relays (codec : Codec) (info : Info) (lines : List String)
    (hforce : info.forceFormat = false) (hthink : info.thinkingToContent = false) :
    Relayed codec info (Scanner.accepted lines)
      (oaiStreamHandler codec info (Scanner.accepted lines)) := by
  have hchunks := empty_not_mem_accepted lines
  generalize Scanner.accepted lines = chunks at hchunks ⊢
  have h : Behind info chunks (chunks.foldl (handleData codec info) (initial info)) :=
    behind_foldl hforce hthink hchunks
  unfold oaiStreamHandler
  extract_lets s l sent usage out
  have hwritten : sent.written = chunks.dropLast ++ finalOf codec info chunks s :=
    h.written_last hforce hthink hchunks
  have husage : l.usage = (givenUsage codec info chunks).getD 0 ∧
      l.containStreamUsage = (givenUsage codec info chunks).isSome := h.usage_afterLast
  have hlast : sent.lastStreamData = s.lastStreamData := by
    show (if l.shouldSendLastResp then _ else s).lastStreamData = _
    split
    · exact lastStreamData_sendStreamData s _
    · rfl
  have hcontain : ({ l with usage := usage } : Last).containStreamUsage =
      (givenUsage codec info chunks).isSome := husage.2
  obtain ⟨made, hmade, hout⟩ := handleFinalResponse_spec sent hcontain
  have hreturned : usage = Quota.applyUsagePostProcessing info.channelType
      (codec.readBody sent.lastStreamData) l.usage := rfl
  -- the usage is known by `hreturned` from here on
  clear_value usage
  rw [hlast, h.last] at hreturned
  refine ⟨⟨finalOf codec info chunks s, made, h.lastWritten, hmade, ?_⟩, ?_⟩
  · show out.written = _
    rw [hout, hwritten]
  · intro r u hr hu
    have hgiven : givenUsage codec info chunks = some u := by
      rw [givenUsage, hr, Option.bind_some, hu]
      rfl
    rw [husage.1, hgiven, Option.getD_some] at hreturned
    refine ⟨hreturned, ?_⟩
    rw [hreturned]
    exact postProcessing_counts info.channelType _ u

/-! ## A stream without usage -/

def numberJson (n : Int) : JsonText.Json := .num (String.ofList (Decimal.formatInt n))

/-- A usage whose details are zero. -/
def usageJson (u : UpstreamUsage) : JsonText.Json :=
  .obj [("prompt_tokens", numberJson u.promptTokens),
    ("completion_tokens", numberJson u.completionTokens),
    ("total_tokens", numberJson u.totalTokens),
    ("prompt_tokens_details", .obj [("cached_tokens", .num "0"), ("text_tokens", .num "0"),
      ("audio_tokens", .num "0"), ("image_tokens", .num "0")]),
    ("completion_tokens_details", .obj [("text_tokens", .num "0"), ("audio_tokens", .num "0"),
      ("reasoning_tokens", .num "0")]),
    ("input_tokens", .num "0"), ("output_tokens", .num "0"), ("input_tokens_details", .null),
    ("claude_cache_creation_5_m_tokens", .num "0"),
    ("claude_cache_creation_1_h_tokens", .num "0")]

def emptyChunk : String := "\x7b\"choices\":[]\x7d"

/-- A codec that knows one chunk, and writes those without choices. -/
def emptyCodec : Codec where
  unmarshal data := if data = emptyChunk then some ⟨"", "", 0, "", none, [], none⟩ else none
  unmarshalUsage data := if data = emptyChunk then some none else none
  readBody _ := ⟨none, none, none, none⟩
  marshal r := String.ofList (JsonText.print (.obj
    [("id", .str r.id), ("object", .str r.object), ("created", numberJson r.created),
      ("model", .str r.model),
      ("system_fingerprint", (r.systemFingerprint.map JsonText.Json.str).getD .null),
      ("choices", .arr []), ("usage", (r.usage.map usageJson).getD .null)]))
  unmarshal_empty := by decide

def plainInfo (shouldIncludeUsage : Bool) : Info where
  upstreamModelName := "gpt-4o"
  channelType := Quota.channelTypeOpenAI
  forceFormat := false
  thinkingToContent := false
  thinkingContentInfo := Convert.ThinkToContent.start
  shouldIncludeUsage := shouldIncludeUsage

theorem oaiStreamHandler_relays_unasked :
    Relayed emptyCodec (plainInfo false) (Scanner.accepted ["data: " ++ emptyChunk, "data: [DONE]"])
      (oaiStreamHandler emptyCodec (plainInfo false)
        (Scanner.accepted ["data: " ++ emptyChunk, "data: [DONE]"])) :=
  oaiStreamHandler_relays emptyCodec (plainInfo false) _ rfl rfl

/-- A client that asks for usage gets a chunk that is not of the stream, and one for which
reasoning becomes content gets the chunks written anew. -/
theorem not_eachOnce_asked :
    ¬ EachOnce emptyCodec (plainInfo true)
        (Scanner.accepted ["data: " ++ emptyChunk, "data: [DONE]"])
        (oaiStreamHandler emptyCodec (plainInfo true)
          (Scanner.accepted ["data: " ++ emptyChunk, "data: [DONE]"])) ∧
      ¬ EachOnce emptyCodec { plainInfo false with thinkingToContent := true }
        (Scanner.accepted ["data: " ++ emptyChunk, "data: [DONE]"])
        (oaiStreamHandler emptyCodec { plainInfo false with thinkingToContent := true }
          (Scanner.accepted ["data: " ++ emptyChunk, "data: [DONE]"])) := by
  have haccepted : Scanner.accepted ["data: " ++ emptyChunk, "data: [DONE]"] = [emptyChunk] := by
    decide +kernel
  rw [haccepted]
  constructor
  · intro h
    have hlength : (oaiStreamHandler emptyCodec (plainInfo true) [emptyChunk]).1.length = 3 := rfl
    rcases h.written with honce | ⟨hasked, -⟩
    · rw [honce] at hlength
      cases hlength
    · cases hasked
  · intro h
    have hfirst : (oaiStreamHandler emptyCodec { plainInfo false with thinkingToContent := true }
        [emptyChunk]).1.head? ≠ some emptyChunk := by decide +kernel
    rcases h.written with honce | ⟨-, ⟨r, hr, husage, -⟩, -⟩
    · rw [honce] at hfirst
      exact hfirst rfl
    · have heq : lastResponse emptyCodec [emptyChunk] = some ⟨"", "", 0, "", none, [], none⟩ := by
        rw [lastResponse, List.getLast?_singleton, Option.bind_some]
        show (if emptyChunk = emptyChunk then _ else none) = _
        exact if_pos rfl
      rw [heq, Option.some.injEq] at hr
      subst hr
      exact husage rfl

end

end DazeApi.Relay.OaiStream
