import DazeApi.Quota.ResponsesUsage
import Mathlib.Logic.Function.Basic

/-!
# Calls of built-in tools

`GenRelayInfoResponses` (`relay/common/relay_info.go`) enters the tools that a request
declares in `BuiltInTools`.  `OaiResponsesHandler` and `OaiResponsesStreamHandler`
(`relay/channel/openai/relay_responses.go`) count their calls there, the first over the tools
that the response declares, the second over the output items that are done.
-/

namespace DazeApi.Quota

/-- `dto.BuildInToolWebSearchPreview`. -/
def buildInToolWebSearchPreview : String := "web_search_preview"

/-- `dto.BuildInToolFileSearch`. -/
def buildInToolFileSearch : String := "file_search"

/-- `dto.BuildInCallWebSearchCall`. -/
def buildInCallWebSearchCall : String := "web_search_call"

/-- `dto.ResponsesOutputTypeImageGenerationCall`. -/
def responsesOutputTypeImageGenerationCall : String := "image_generation_call"

/-- `dto.ResponsesOutputTypeItemDone`. -/
def responsesOutputTypeItemDone : String := "response.output_item.done"

/-- `ResponsesUsageInfo.BuiltInTools`. -/
abbrev BuiltInTools := String → Option BuildInToolInfo

/-- The fields of a declared tool that are read, as `Interface2String` gives them. -/
structure ResponsesTool where
  type : String
  searchContextSize : String

/-- `BuiltInTools` as `GenRelayInfoResponses` fills it. -/
def genBuiltInTools (tools : List ResponsesTool) : BuiltInTools :=
  tools.foldl
    (fun builtInTools tool =>
      let searchContextSize :=
        if tool.type = buildInToolWebSearchPreview then
          if tool.searchContextSize = "" then "medium" else tool.searchContextSize
        else ""
      Function.update builtInTools tool.type (some ⟨0, searchContextSize⟩))
    fun _ => none

/-- `CallCount++` at this tool, if there is one. -/
def BuiltInTools.countCall (builtInTools : BuiltInTools) (toolType : String) : BuiltInTools :=
  match builtInTools toolType with
  | some tool =>
      Function.update builtInTools toolType (some { tool with callCount := tool.callCount + 1 })
  | none => builtInTools

/-- `dto.ResponsesOutput`, as far as the handlers read it. -/
structure ResponsesOutput where
  type : String
  quality : String
  size : String

/-- `dto.OpenAIResponsesResponse`, as far as the handlers read it, of a request that did not
fail. -/
structure OpenAIResponsesResponse where
  output : List ResponsesOutput
  tools : List ResponsesTool
  usage : Option UpstreamUsage

namespace OpenAIResponsesResponse

/-- The first call of the image generation. -/
def imageGenerationCall (r : OpenAIResponsesResponse) : Option ResponsesOutput :=
  r.output.find? fun output => output.type = responsesOutputTypeImageGenerationCall

/-- `HasImageGenerationCall`. -/
def hasImageGenerationCall (r : OpenAIResponsesResponse) : Bool := r.imageGenerationCall.isSome

/-- `GetQuality`. -/
def getQuality (r : OpenAIResponsesResponse) : String :=
  (r.imageGenerationCall.map ResponsesOutput.quality).getD ""

/-- `GetSize`. -/
def getSize (r : OpenAIResponsesResponse) : String :=
  (r.imageGenerationCall.map ResponsesOutput.size).getD ""

/-- The items of this type in the output. -/
def calls (r : OpenAIResponsesResponse) (callType : String) : Nat :=
  r.output.countP fun output => output.type = callType

end OpenAIResponsesResponse

/-- What the two handlers write. -/
structure ResponsesState where
  usage : UpstreamUsage
  ctx : Ctx
  builtInTools : Option BuiltInTools

/-- The usage and the image call of a response. -/
def ResponsesState.readResponse (s : ResponsesState) (r : OpenAIResponsesResponse) :
    ResponsesState :=
  let s :=
    match r.usage with
    | some usage => { s with usage := applyOpenAIResponsesUsage s.usage usage }
    | none => s
  if r.hasImageGenerationCall then
    { s with
      ctx :=
        { s.ctx with
          imageGenerationCall := true
          imageGenerationCallQuality := r.getQuality
          imageGenerationCallSize := r.getSize } }
  else s

/-- `OaiResponsesHandler`. -/
def oaiResponsesHandler (s : ResponsesState) (r : OpenAIResponsesResponse) : ResponsesState :=
  let s := s.readResponse r
  { s with
    builtInTools := s.builtInTools.map fun builtInTools =>
      r.tools.foldl (fun counted tool => counted.countCall tool.type) builtInTools }

/-- `dto.ResponsesStreamResponse`, as far as the handler reads it. -/
structure ResponsesStreamResponse where
  type : String
  response : Option OpenAIResponsesResponse
  item : Option ResponsesOutput

/-- What `OaiResponsesStreamHandler` does with one event, if it can be parsed. -/
def ResponsesState.readEvent (s : ResponsesState) :
    Option ResponsesStreamResponse → ResponsesState
  | none => s
  | some event =>
      if event.type = "response.completed" ∨ event.type = "response.incomplete" then
        match event.response with
        | some r => s.readResponse r
        | none => s
      else if event.type = responsesOutputTypeItemDone then
        match event.item with
        | some item =>
            if item.type = buildInCallWebSearchCall then
              { s with
                builtInTools := s.builtInTools.map fun builtInTools =>
                  builtInTools.countCall buildInToolWebSearchPreview }
            else s
        | none => s
      else s

/-- `OaiResponsesStreamHandler`. -/
def oaiResponsesStreamHandler (s : ResponsesState)
    (events : List (Option ResponsesStreamResponse)) : ResponsesState :=
  events.foldl ResponsesState.readEvent s

/-! ## Counting calls -/

/-- The calls of a tool; a tool that was not declared has none. -/
def BuiltInTools.callCount (builtInTools : BuiltInTools) (toolType : String) : Int :=
  ((builtInTools toolType).map BuildInToolInfo.callCount).getD 0

namespace BuiltInTools

variable (builtInTools : BuiltInTools) (toolType : String)

/-- Counting changes neither which tools there are nor their sizes. -/
theorem countCall_searchContextSize (t : String) :
    (builtInTools.countCall toolType t).map BuildInToolInfo.searchContextSize =
      (builtInTools t).map BuildInToolInfo.searchContextSize := by
  unfold countCall
  cases htool : builtInTools toolType with
  | none => rfl
  | some tool =>
      by_cases ht : t = toolType
      · subst ht
        simp [htool]
      · simp [Function.update_of_ne ht]

theorem callCount_countCall (t : String) :
    (builtInTools.countCall toolType).callCount t =
      builtInTools.callCount t +
        if t = toolType ∧ (builtInTools t).isSome then 1 else 0 := by
  unfold countCall callCount
  cases htool : builtInTools toolType with
  | none =>
      have hnone : ¬ (t = toolType ∧ (builtInTools t).isSome) := by
        rintro ⟨rfl, hsome⟩
        simp [htool] at hsome
      rw [if_neg hnone, add_zero]
  | some tool =>
      by_cases ht : t = toolType
      · subst ht
        simp [htool]
      · simp [ht]

theorem isSome_eq_of_sizes {m m' : BuiltInTools} {t : String}
    (h : (m t).map BuildInToolInfo.searchContextSize =
      (m' t).map BuildInToolInfo.searchContextSize) :
    (m t).isSome = (m' t).isSome := by
  rw [← Option.isSome_map, h, Option.isSome_map]

/-- A tool with the same size and the same calls is the same. -/
theorem apply_eq_of_callCount {m m' : BuiltInTools} {t : String}
    (hsize : (m t).map BuildInToolInfo.searchContextSize =
      (m' t).map BuildInToolInfo.searchContextSize)
    (hcount : m.callCount t = m'.callCount t) :
    m t = m' t := by
  unfold callCount at hcount
  cases hm : m t with
  | none =>
      rw [hm] at hsize
      exact (Option.map_eq_none_iff.1 hsize.symm).symm
  | some tool =>
      rw [hm] at hsize hcount
      obtain ⟨tool', hm', hsame⟩ := Option.map_eq_some_iff.1 hsize.symm
      rw [hm'] at hcount ⊢
      obtain ⟨count, size⟩ := tool
      obtain ⟨count', size'⟩ := tool'
      exact congrArg some (BuildInToolInfo.mk.injEq .. ▸ ⟨hcount, hsame.symm⟩)

/-- Counting the calls of a list of tools. -/
def countCalls (toolTypes : List String) : BuiltInTools :=
  toolTypes.foldl countCall builtInTools

theorem countCalls_searchContextSize (toolTypes : List String) (t : String) :
    (builtInTools.countCalls toolTypes t).map BuildInToolInfo.searchContextSize =
      (builtInTools t).map BuildInToolInfo.searchContextSize := by
  unfold countCalls
  induction toolTypes generalizing builtInTools with
  | nil => rfl
  | cons first rest ih =>
      rw [List.foldl_cons, ih, countCall_searchContextSize]

/-- A tool that was declared is counted each time it is in the list. -/
theorem callCount_countCalls (toolTypes : List String) (t : String) :
    (builtInTools.countCalls toolTypes).callCount t =
      builtInTools.callCount t +
        if (builtInTools t).isSome then (toolTypes.count t : Int) else 0 := by
  unfold countCalls
  induction toolTypes generalizing builtInTools with
  | nil => simp
  | cons first rest ih =>
      have hsome := isSome_eq_of_sizes (builtInTools.countCall_searchContextSize first t)
      rw [List.foldl_cons, ih, callCount_countCall, hsome, List.count_cons]
      by_cases ht : first = t
      · subst ht
        by_cases hdeclared : (builtInTools first).isSome <;> simp [hdeclared]
        ring
      · have hne : ¬ (t = first ∧ (builtInTools t).isSome) := fun h => ht h.1.symm
        simp [ht, hne]

end BuiltInTools

/-! ## The two handlers -/

/-- The types of the tools that a list declares. -/
def declaredTypes (tools : List ResponsesTool) : List String := tools.map ResponsesTool.type

/-- Every declared tool is entered, with no calls. -/
theorem genBuiltInTools_spec (tools : List ResponsesTool) (t : String) :
    ((genBuiltInTools tools t).isSome ↔ t ∈ declaredTypes tools) ∧
      (genBuiltInTools tools).callCount t = 0 := by
  unfold genBuiltInTools declaredTypes
  induction tools using List.reverseRecOn with
  | nil => simp [BuiltInTools.callCount]
  | append_singleton earlier tool ih =>
      rw [List.foldl_append, List.foldl_cons, List.foldl_nil]
      by_cases ht : t = tool.type
      · subst ht
        simp [BuiltInTools.callCount]
      · unfold BuiltInTools.callCount at ih ⊢
        rw [Function.update_of_ne ht]
        simpa [ht] using ih

theorem readResponse_builtInTools (s : ResponsesState) (r : OpenAIResponsesResponse) :
    (s.readResponse r).builtInTools = s.builtInTools := by
  unfold ResponsesState.readResponse
  cases r.usage <;> (dsimp only; split <;> rfl)

theorem oaiResponsesHandler_builtInTools (s : ResponsesState) (r : OpenAIResponsesResponse) :
    (oaiResponsesHandler s r).builtInTools =
      s.builtInTools.map fun builtInTools => builtInTools.countCalls (declaredTypes r.tools) := by
  unfold oaiResponsesHandler BuiltInTools.countCalls declaredTypes
  dsimp only
  rw [readResponse_builtInTools]
  simp only [List.foldl_map]

/-- The item that an event says is done. -/
def doneItem (event : Option ResponsesStreamResponse) : Option ResponsesOutput :=
  event.bind fun event => if event.type = responsesOutputTypeItemDone then event.item else none

/-- The web searches among the items that events say are done. -/
def webSearchCalls (events : List (Option ResponsesStreamResponse)) : Nat :=
  (events.filterMap doneItem).countP fun item => item.type = buildInCallWebSearchCall

/-- An event counts a call of the web search when it says that one is done. -/
theorem readEvent_builtInTools (s : ResponsesState) (event : Option ResponsesStreamResponse) :
    (s.readEvent event).builtInTools =
      s.builtInTools.map fun builtInTools =>
        builtInTools.countCalls
          (List.replicate (webSearchCalls [event]) buildInToolWebSearchPreview) := by
  have hnone : s.builtInTools = s.builtInTools.map fun builtInTools =>
      builtInTools.countCalls (List.replicate 0 buildInToolWebSearchPreview) :=
    Option.map_id'.symm
  cases event with
  | none => exact hnone
  | some event =>
      unfold ResponsesState.readEvent webSearchCalls
      dsimp only
      by_cases hcompleted : event.type = "response.completed" ∨ event.type = "response.incomplete"
      · have hdone : doneItem (some event) = none := by
          rcases hcompleted with h | h <;>
            simp [doneItem, h, responsesOutputTypeItemDone]
        rw [if_pos hcompleted, List.filterMap_cons_none hdone]
        cases event.response with
        | none => exact hnone
        | some r => exact (readResponse_builtInTools s r).trans hnone
      · rw [if_neg hcompleted]
        by_cases hdone : event.type = responsesOutputTypeItemDone
        · have hitem : doneItem (some event) = event.item := by simp [doneItem, hdone]
          rw [if_pos hdone]
          cases hevent : event.item with
          | none =>
              rw [List.filterMap_cons_none (hitem.trans hevent)]
              exact hnone
          | some item =>
              rw [List.filterMap_cons_some (hitem.trans hevent)]
              by_cases hcall : item.type = buildInCallWebSearchCall
              · simp [hcall, BuiltInTools.countCalls]
              · simpa [hcall] using hnone
        · have hitem : doneItem (some event) = none := by simp [doneItem, hdone]
          rw [if_neg hdone, List.filterMap_cons_none hitem]
          exact hnone

/-- A stream counts the calls of the web search that its events say are done, and no others. -/
theorem oaiResponsesStreamHandler_builtInTools (s : ResponsesState)
    (events : List (Option ResponsesStreamResponse)) :
    (oaiResponsesStreamHandler s events).builtInTools =
      s.builtInTools.map fun builtInTools =>
        builtInTools.countCalls
          (List.replicate (webSearchCalls events) buildInToolWebSearchPreview) := by
  unfold oaiResponsesStreamHandler
  induction events generalizing s with
  | nil => exact Option.map_id'.symm
  | cons event rest ih =>
      have hsplit : webSearchCalls (event :: rest) =
          webSearchCalls [event] + webSearchCalls rest := by
        unfold webSearchCalls
        rw [← List.countP_append, ← List.filterMap_append, List.singleton_append]
      rw [List.foldl_cons, ih, readEvent_builtInTools, Option.map_map, hsplit]
      unfold BuiltInTools.countCalls
      simp only [List.replicate_add, List.foldl_append]
      rfl

/-! ## Both modes bill the calls -/

/-- An output item for a call of the file search. -/
def fileSearchCall : String := "file_search_call"

/-- Events that say of each item of the output that it is done, in some order. -/
def StreamOf (r : OpenAIResponsesResponse) (events : List (Option ResponsesStreamResponse)) :
    Prop :=
  (events.filterMap doneItem).Perm r.output

namespace ResponsesState

/-- The state in which a request that declares these tools starts. -/
def start (usage : UpstreamUsage) (ctx : Ctx) (declared : List ResponsesTool) : ResponsesState :=
  ⟨usage, ctx, some (genBuiltInTools declared)⟩

/-- The calls of a tool. -/
def callCount (s : ResponsesState) (t : String) : Int :=
  match s.builtInTools with
  | some builtInTools => builtInTools.callCount t
  | none => 0

/-- What the web search and the file search cost. -/
def searchCharges (s : ResponsesState) (info : RelayInfo) (groupDiscount : ℚ) : ℚ × ℚ :=
  let info := { info with builtInTools := s.builtInTools }
  ((webSearch s.ctx info groupDiscount).charge, (fileSearch info groupDiscount).charge)

end ResponsesState

/-- Both modes count each tool alike and the searches as often as the output calls them; so
both charge the same, and nothing for a search that was not called. -/
def BilledByCalls (declared : List ResponsesTool) (r : OpenAIResponsesResponse) : Prop :=
  ∀ (usage : UpstreamUsage) (ctx : Ctx) (events : List (Option ResponsesStreamResponse)),
    StreamOf r events →
      let start := ResponsesState.start usage ctx declared
      let whole := oaiResponsesHandler start r
      let streamed := oaiResponsesStreamHandler start events
      (∀ t, whole.callCount t = streamed.callCount t) ∧
        streamed.callCount buildInToolWebSearchPreview = r.calls buildInCallWebSearchCall ∧
        streamed.callCount buildInToolFileSearch = r.calls fileSearchCall ∧
        ∀ (info : RelayInfo) (groupDiscount : ℚ),
          whole.searchCharges info groupDiscount = streamed.searchCharges info groupDiscount ∧
          (r.calls buildInCallWebSearchCall = 0 →
            (whole.searchCharges info groupDiscount).1 = 0) ∧
          (r.calls fileSearchCall = 0 → (whole.searchCharges info groupDiscount).2 = 0)

/-- The response declares the web search as often as it calls it, calls no file search, and
declares no other tool of the request. -/
structure DeclaresCalls (declared : List ResponsesTool) (r : OpenAIResponsesResponse) : Prop where
  web : r.calls buildInCallWebSearchCall =
    if buildInToolWebSearchPreview ∈ declaredTypes declared then
      (declaredTypes r.tools).count buildInToolWebSearchPreview
    else 0
  file : r.calls fileSearchCall = 0
  others : ∀ t ∈ declaredTypes declared,
    t ≠ buildInToolWebSearchPreview → t ∉ declaredTypes r.tools

section

variable {declared : List ResponsesTool} {r : OpenAIResponsesResponse}
  {events : List (Option ResponsesStreamResponse)} (usage : UpstreamUsage) (ctx : Ctx)

theorem webSearchCalls_of_streamOf (h : StreamOf r events) :
    webSearchCalls events = r.calls buildInCallWebSearchCall :=
  h.countP_eq _

theorem exists_streamOf (r : OpenAIResponsesResponse) : ∃ events, StreamOf r events := by
  refine ⟨r.output.map fun item => some ⟨responsesOutputTypeItemDone, none, some item⟩, ?_⟩
  unfold StreamOf
  rw [List.filterMap_map]
  have hitem : doneItem ∘ (fun item => some ⟨responsesOutputTypeItemDone, none, some item⟩) =
      some := by
    funext item
    simp [doneItem]
  rw [hitem, List.filterMap_some]

/-- The whole response counts the tools that it declares. -/
theorem callCount_whole (t : String) :
    (oaiResponsesHandler (.start usage ctx declared) r).callCount t =
      if t ∈ declaredTypes declared then ((declaredTypes r.tools).count t : Int) else 0 := by
  obtain ⟨hsome, hzero⟩ := genBuiltInTools_spec declared t
  unfold ResponsesState.callCount
  rw [oaiResponsesHandler_builtInTools]
  show ((genBuiltInTools declared).countCalls (declaredTypes r.tools)).callCount t = _
  rw [BuiltInTools.callCount_countCalls, hzero, zero_add]
  exact if_congr hsome rfl rfl

/-- The stream counts the web searches that are done. -/
theorem callCount_streamed (h : StreamOf r events) (t : String) :
    (oaiResponsesStreamHandler (.start usage ctx declared) events).callCount t =
      if t = buildInToolWebSearchPreview ∧ t ∈ declaredTypes declared then
        (r.calls buildInCallWebSearchCall : Int)
      else 0 := by
  obtain ⟨hsome, hzero⟩ := genBuiltInTools_spec declared t
  unfold ResponsesState.callCount
  rw [oaiResponsesStreamHandler_builtInTools, webSearchCalls_of_streamOf h]
  show ((genBuiltInTools declared).countCalls (List.replicate _ _)).callCount t = _
  rw [BuiltInTools.callCount_countCalls, hzero, zero_add, List.count_replicate]
  by_cases ht : t = buildInToolWebSearchPreview
  · subst ht
    simp [hsome]
  · simp [ht, Ne.symm ht]

theorem ResponsesState.callCount_eq {s : ResponsesState} {m : BuiltInTools}
    (hs : s.builtInTools = some m) (t : String) : s.callCount t = m.callCount t := by
  unfold ResponsesState.callCount
  rw [hs]

/-- The charges depend on the entries of the two searches only. -/
theorem searchCharges_congr {s s' : ResponsesState} {m m' : BuiltInTools}
    (hs : s.builtInTools = some m) (hs' : s'.builtInTools = some m')
    (hweb : m buildInToolWebSearchPreview = m' buildInToolWebSearchPreview)
    (hfile : m buildInToolFileSearch = m' buildInToolFileSearch)
    (info : RelayInfo) (groupDiscount : ℚ) :
    s.searchCharges info groupDiscount = s'.searchCharges info groupDiscount := by
  unfold buildInToolWebSearchPreview at hweb
  unfold buildInToolFileSearch at hfile
  unfold ResponsesState.searchCharges webSearch fileSearch
  dsimp only
  rw [hs, hs']
  dsimp only
  rw [hweb, hfile]

/-- A search with no calls costs nothing. -/
theorem searchCharges_fst_eq_zero {s : ResponsesState} {m : BuiltInTools}
    (hs : s.builtInTools = some m) (hcount : s.callCount buildInToolWebSearchPreview = 0)
    (info : RelayInfo) (groupDiscount : ℚ) :
    (s.searchCharges info groupDiscount).1 = 0 := by
  rw [ResponsesState.callCount_eq hs] at hcount
  unfold BuiltInTools.callCount buildInToolWebSearchPreview at hcount
  unfold ResponsesState.searchCharges webSearch
  dsimp only
  rw [hs]
  dsimp only
  cases hm : m "web_search_preview" with
  | none => rfl
  | some tool =>
      have hzero : tool.callCount = 0 := by simpa [hm] using hcount
      dsimp only
      rw [if_neg (by omega)]
      rfl

theorem searchCharges_snd_eq_zero {s : ResponsesState} {m : BuiltInTools}
    (hs : s.builtInTools = some m) (hcount : s.callCount buildInToolFileSearch = 0)
    (info : RelayInfo) (groupDiscount : ℚ) :
    (s.searchCharges info groupDiscount).2 = 0 := by
  rw [ResponsesState.callCount_eq hs] at hcount
  unfold BuiltInTools.callCount buildInToolFileSearch at hcount
  unfold ResponsesState.searchCharges fileSearch
  dsimp only
  rw [hs]
  dsimp only
  cases hm : m "file_search" with
  | none => rfl
  | some tool =>
      have hzero : tool.callCount = 0 := by simpa [hm] using hcount
      dsimp only
      rw [if_neg (by omega)]
      rfl

/-- Both counts agree with the calls exactly when the response declares what it calls. -/
theorem callCounts_iff (h : StreamOf r events) :
    (∀ t, (oaiResponsesHandler (.start usage ctx declared) r).callCount t =
        (oaiResponsesStreamHandler (.start usage ctx declared) events).callCount t) ∧
      (oaiResponsesStreamHandler (.start usage ctx declared) events).callCount
        buildInToolWebSearchPreview = r.calls buildInCallWebSearchCall ∧
      (oaiResponsesStreamHandler (.start usage ctx declared) events).callCount
        buildInToolFileSearch = r.calls fileSearchCall ↔
      DeclaresCalls declared r := by
  have hfileNe : buildInToolFileSearch ≠ buildInToolWebSearchPreview := by decide
  simp only [callCount_whole, callCount_streamed usage ctx h]
  constructor
  · rintro ⟨hall, hweb, hfile⟩
    refine ⟨?_, ?_, ?_⟩
    · have hsame := hall buildInToolWebSearchPreview
      split
      next hdeclared =>
        rw [if_pos hdeclared, if_pos ⟨rfl, hdeclared⟩] at hsame
        omega
      next hdeclared =>
        rw [if_neg fun hboth => hdeclared hboth.2] at hweb
        omega
    · rw [if_neg fun hboth => hfileNe hboth.1] at hfile
      omega
    · intro t ht hne
      have hsame := hall t
      rw [if_pos ht, if_neg fun hboth => hne hboth.1] at hsame
      exact List.count_eq_zero.1 (by omega)
  · rintro ⟨hweb, hfile, hothers⟩
    refine ⟨fun t => ?_, ?_, ?_⟩
    · by_cases ht : t ∈ declaredTypes declared
      · rw [if_pos ht]
        by_cases hwebType : t = buildInToolWebSearchPreview
        · subst hwebType
          rw [if_pos ht] at hweb
          rw [if_pos ⟨rfl, ht⟩, hweb]
        · rw [if_neg fun hboth => hwebType hboth.1,
            List.count_eq_zero.2 (hothers t ht hwebType), Nat.cast_zero]
      · rw [if_neg ht, if_neg fun hboth => ht hboth.2]
    · split
      next => rfl
      next hdeclared =>
        rw [if_neg fun hin => hdeclared ⟨trivial, hin⟩] at hweb
        rw [hweb, Nat.cast_zero]
    · rw [if_neg fun hboth => hfileNe hboth.1, hfile, Nat.cast_zero]

/-- Counts that agree give charges that agree. -/
theorem searchCharges_eq
    (hall : ∀ t, (oaiResponsesHandler (.start usage ctx declared) r).callCount t =
      (oaiResponsesStreamHandler (.start usage ctx declared) events).callCount t)
    (info : RelayInfo) (groupDiscount : ℚ) :
    (oaiResponsesHandler (.start usage ctx declared) r).searchCharges info groupDiscount =
      (oaiResponsesStreamHandler (.start usage ctx declared) events).searchCharges info
        groupDiscount := by
  have hwhole := oaiResponsesHandler_builtInTools (.start usage ctx declared) r
  have hstreamed := oaiResponsesStreamHandler_builtInTools (.start usage ctx declared) events
  have hentry : ∀ t, (genBuiltInTools declared).countCalls (declaredTypes r.tools) t =
      (genBuiltInTools declared).countCalls
        (List.replicate (webSearchCalls events) buildInToolWebSearchPreview) t := by
    intro t
    refine BuiltInTools.apply_eq_of_callCount ?_ ?_
    · rw [BuiltInTools.countCalls_searchContextSize, BuiltInTools.countCalls_searchContextSize]
    · rw [← ResponsesState.callCount_eq hwhole, ← ResponsesState.callCount_eq hstreamed]
      exact hall t
  exact searchCharges_congr hwhole hstreamed (hentry _) (hentry _) info groupDiscount

/-- The calls are billed alike in both modes exactly when the response declares what it
calls. -/
theorem billedByCalls_iff (declared : List ResponsesTool) (r : OpenAIResponsesResponse) :
    BilledByCalls declared r ↔ DeclaresCalls declared r := by
  constructor
  · intro hbilled
    obtain ⟨events, hevents⟩ := exists_streamOf r
    obtain ⟨hall, hweb, hfile, -⟩ := hbilled 0 noTools events hevents
    exact (callCounts_iff 0 noTools hevents).1 ⟨hall, hweb, hfile⟩
  · intro hdeclares usage ctx events hevents start whole streamed
    obtain ⟨hall, hweb, hfile⟩ := (callCounts_iff usage ctx hevents).2 hdeclares
    refine ⟨hall, hweb, hfile, fun info groupDiscount =>
      ⟨searchCharges_eq usage ctx hall info groupDiscount, fun hnone => ?_, fun hnone => ?_⟩⟩
    · refine searchCharges_fst_eq_zero (oaiResponsesHandler_builtInTools start r) ?_ _ _
      rw [hall, hweb, hnone, Nat.cast_zero]
    · refine searchCharges_snd_eq_zero (oaiResponsesHandler_builtInTools start r) ?_ _ _
      rw [hall, hfile, hnone, Nat.cast_zero]

end

/-- A response that declares the web search and does not call it. -/
def declaredOnly : OpenAIResponsesResponse :=
  ⟨[⟨"message", "", ""⟩], [⟨buildInToolWebSearchPreview, ""⟩], none⟩

/-- A search that was declared and not called counts as a call, unless the response is
streamed. -/
theorem not_billedByCalls_declaredOnly :
    (oaiResponsesHandler (.start 0 noTools declaredOnly.tools) declaredOnly).callCount
        buildInToolWebSearchPreview = 1 ∧
      (oaiResponsesStreamHandler (.start 0 noTools declaredOnly.tools)
          [some ⟨responsesOutputTypeItemDone, none, some ⟨"message", "", ""⟩⟩]).callCount
        buildInToolWebSearchPreview = 0 ∧
      ¬ BilledByCalls declaredOnly.tools declaredOnly := by
  have hwhole : (oaiResponsesHandler (.start 0 noTools declaredOnly.tools)
      declaredOnly).callCount buildInToolWebSearchPreview = 1 := by decide
  have hstreamed : (oaiResponsesStreamHandler (.start 0 noTools declaredOnly.tools)
      [some ⟨responsesOutputTypeItemDone, none, some ⟨"message", "", ""⟩⟩]).callCount
        buildInToolWebSearchPreview = 0 := by decide
  refine ⟨hwhole, hstreamed, fun hbilled => ?_⟩
  have hstream : StreamOf declaredOnly
      [some ⟨responsesOutputTypeItemDone, none, some ⟨"message", "", ""⟩⟩] := .refl _
  have hsame := (hbilled 0 noTools _ hstream).1 buildInToolWebSearchPreview
  rw [hwhole, hstreamed] at hsame
  exact absurd hsame (by decide)

end DazeApi.Quota
