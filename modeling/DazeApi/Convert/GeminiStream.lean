import DazeApi.Convert.GeminiParts
import DazeApi.Convert.Transcript

/-!
# What a client receives of a Gemini stream

A client takes the choices of an index out of all chunks.  The texts and the finish reasons
of these are those of the pieces of the candidate (`view_handler`), but for the first piece
of a stream that opens with a function call, and for the stop chunks, which are all for
choice 0.
-/

namespace DazeApi.Convert.Gemini

/-- The choices of an index in some chunks. -/
def received (k : Int) (sent : List (List StreamChoice)) : List StreamChoice :=
  sent.flatten.filter (·.index = k)

/-- The candidates of an index. -/
def piecesOf (k : Int) (candidates : List Candidate) : List Candidate :=
  candidates.filter (·.index = k)

/-- The stream opens with a function call: the first candidate of this chunk has one. -/
def opens : List Candidate → Bool
  | [] => false
  | c :: _ => c.tools ≠ []

section

variable {k : Int} {s : Handler}

@[simp] theorem received_nil (k : Int) : received k [] = [] := rfl

@[simp] theorem received_append (k : Int) (a b : List (List StreamChoice)) :
    received k (a ++ b) = received k a ++ received k b := by
  simp [received]

theorem received_singleton (k : Int) (choices : List StreamChoice) :
    received k [choices] = choices.filter (·.index = k) := by
  simp [received]

@[simp] theorem piecesOf_append (k : Int) (a b : List Candidate) :
    piecesOf k (a ++ b) = piecesOf k a ++ piecesOf k b := by
  simp [piecesOf]

/-! ## What numbering and clearing leave -/

theorem indexTool_frame (s : Handler) (key : Int) (tool : ToolCallResponse) :
    (s.indexTool key tool).1.finishReason = s.finishReason ∧
      (s.indexTool key tool).1.sendResponseCount = s.sendResponseCount ∧
      (s.indexTool key tool).1.sent = s.sent := by
  unfold Handler.indexTool
  repeat' split
  all_goals exact ⟨rfl, rfl, rfl⟩

theorem indexTools_frame (s : Handler) (key : Int) (tools : List ToolCallResponse) :
    (s.indexTools key tools).1.finishReason = s.finishReason ∧
      (s.indexTools key tools).1.sendResponseCount = s.sendResponseCount ∧
      (s.indexTools key tools).1.sent = s.sent := by
  induction tools generalizing s with
  | nil => exact ⟨rfl, rfl, rfl⟩
  | cons tool tools ih =>
      obtain ⟨hfinish, hcount, hsent⟩ := indexTool_frame s key tool
      obtain ⟨hfinish', hcount', hsent'⟩ := ih (s.indexTool key tool).1
      exact ⟨hfinish'.trans hfinish, hcount'.trans hcount, hsent'.trans hsent⟩

theorem indexChoices_frame (s : Handler) (choices : List StreamChoice) :
    (s.indexChoices choices).1.finishReason = s.finishReason ∧
      (s.indexChoices choices).1.sendResponseCount = s.sendResponseCount ∧
      (s.indexChoices choices).1.sent = s.sent := by
  induction choices generalizing s with
  | nil => exact ⟨rfl, rfl, rfl⟩
  | cons choice choices ih =>
      obtain ⟨hfinish, hcount, hsent⟩ := indexTools_frame s choice.index choice.toolCalls
      obtain ⟨hfinish', hcount', hsent'⟩ := ih (s.indexTools choice.index choice.toolCalls).1
      exact ⟨hfinish'.trans hfinish, hcount'.trans hcount, hsent'.trans hsent⟩

/-- A choice without its tool calls. -/
def StreamChoice.untooled (choice : StreamChoice) : StreamChoice := { choice with toolCalls := [] }

theorem map_untooled_indexChoices (s : Handler) (choices : List StreamChoice) :
    (s.indexChoices choices).2.map StreamChoice.untooled =
      choices.map StreamChoice.untooled := by
  induction choices generalizing s with
  | nil => rfl
  | cons choice choices ih =>
      have htail := ih (s.indexTools choice.index choice.toolCalls).1
      rw [Handler.indexChoices, List.map_cons, List.map_cons, htail]
      rfl

theorem map_untooled_clearToolCalls (choices : List StreamChoice) :
    (clearToolCalls choices).map StreamChoice.untooled = choices.map StreamChoice.untooled := by
  unfold clearToolCalls
  split
  · rw [List.map_map]
    exact List.map_congr_left fun _ _ => rfl
  · rfl

theorem map_untooled_clearFinish (choices : List StreamChoice) :
    (clearFinish choices).map StreamChoice.untooled =
      clearFinish (choices.map StreamChoice.untooled) := by
  cases choices <;> rfl

theorem isFinished_map_untooled (choices : List StreamChoice) :
    isFinished (choices.map StreamChoice.untooled) = isFinished choices := by
  cases choices <;> rfl

theorem length_indexTools (s : Handler) (key : Int) (tools : List ToolCallResponse) :
    (s.indexTools key tools).2.length = tools.length := by
  induction tools generalizing s with
  | nil => rfl
  | cons tool tools ih => rw [Handler.indexTools, List.length_cons, ih, List.length_cons]

theorem streamChoice_toolCalls (c : Candidate) : (streamChoice c).toolCalls.map bare = c.tools :=
  (scan_spec c.parts).2.1

theorem isToolCall_indexChoices (s : Handler) (candidates : List Candidate) :
    isToolCall (s.indexChoices (candidates.map streamChoice)).2 = opens candidates := by
  cases candidates with
  | nil => rfl
  | cons c candidates =>
      have hlength : (s.indexTools c.index (streamChoice c).toolCalls).2.length =
          c.tools.length := by
        rw [length_indexTools, ← streamChoice_toolCalls, List.length_map]
      show decide ((s.indexTools c.index (streamChoice c).toolCalls).2 ≠ []) =
        decide (c.tools ≠ [])
      rw [decide_eq_decide, ← List.length_pos_iff, ← List.length_pos_iff, hlength]

/-- A piece that opens the stream ends with a function call. -/
theorem finishReason_of_tools {c : Candidate} (h : c.tools ≠ []) :
    (streamChoice c).finishReason = some finishReasonToolCalls := by
  have hcalls : (scan c.parts).isTools = true := by
    rw [(scan_spec c.parts).2.2.1, List.any_eq_true]
    obtain ⟨tool, htool⟩ := List.exists_mem_of_ne_nil _ h
    obtain ⟨part, hpart, hcall⟩ := List.mem_filterMap.1 htool
    refine ⟨part, hpart, ?_⟩
    unfold Part.call? at hcall
    unfold Part.calls
    split at hcall
    next hdata =>
      obtain ⟨call, hfunction, -⟩ := Option.bind_eq_some_iff.1 hcall
      simp [hdata, hfunction]
    next => cases hcall
  unfold streamChoice
  dsimp only
  rw [if_pos hcalls]

theorem isFinished_of_opens {candidates : List Candidate} (h : opens candidates = true) :
    isFinished (candidates.map streamChoice) = true := by
  cases candidates with
  | nil => cases h
  | cons c candidates =>
      have hreason := finishReason_of_tools (of_decide_eq_true h)
      show (streamChoice c).finishReason.any (· ≠ "") = true
      rw [hreason]
      rfl

/-! ## One chunk -/

/-- The stop chunk after some candidates. -/
def stopsOf (finishReason : String) (candidates : List Candidate) : List (List StreamChoice) :=
  if candidates.any Candidate.stops then [stopResponse finishReason] else []

/-- The reason that stop chunks have in a stream with this first chunk. -/
def stopReason (first : List Candidate) : String :=
  if opens first then finishReasonToolCalls else finishReasonStop

/-- The tables of the indices. -/
def Handler.tables (s : Handler) : (Int → String → Option Int) × (Int → Int) :=
  (s.toolCallIndexByChoice, s.nextToolCallIndexByChoice)

/-- A chunk that is not the first. -/
theorem onChunk_next (h : s.sendResponseCount ≠ 0) (candidates : List Candidate) :
    (s.onChunk candidates).sent = s.sent ++ [(s.indexChoices (candidates.map streamChoice)).2] ++
        stopsOf s.finishReason candidates ∧
      (s.onChunk candidates).sendResponseCount ≠ 0 ∧
      (s.onChunk candidates).finishReason = s.finishReason ∧
      (s.onChunk candidates).tables =
        (s.indexChoices (candidates.map streamChoice)).1.tables := by
  obtain ⟨hfinish, hcount, hsent⟩ := indexChoices_frame s (candidates.map streamChoice)
  unfold Handler.onChunk streamResponseGeminiChat2OpenAI stopsOf
  dsimp only
  rw [hcount, if_neg h]
  split
  next => simp [Handler.handleStream, Handler.tables, hfinish, hsent]
  next => simp [Handler.handleStream, Handler.tables, hfinish, hsent]

/-- The first chunk. -/
theorem onChunk_first (h : s.sendResponseCount = 0) (hreason : s.finishReason = finishReasonStop)
    (candidates : List Candidate) :
    (s.onChunk candidates).sent = s.sent ++
        (if opens candidates then
          [startResponse (copiedToolCalls (s.indexChoices (candidates.map streamChoice)).2),
            clearFinish (clearToolCalls (s.indexChoices (candidates.map streamChoice)).2)]
        else [startResponse [], (s.indexChoices (candidates.map streamChoice)).2]) ++
        stopsOf (stopReason candidates) candidates ∧
      (s.onChunk candidates).sendResponseCount ≠ 0 ∧
      (s.onChunk candidates).finishReason = stopReason candidates ∧
      (s.onChunk candidates).tables =
        (s.indexChoices (candidates.map streamChoice)).1.tables := by
  obtain ⟨hfinish, hcount, hsent⟩ := indexChoices_frame s (candidates.map streamChoice)
  have hopens := isToolCall_indexChoices s candidates
  have hcleared : (clearToolCalls (s.indexChoices (candidates.map streamChoice)).2).map
      StreamChoice.untooled = (candidates.map streamChoice).map StreamChoice.untooled := by
    rw [map_untooled_clearToolCalls, map_untooled_indexChoices]
  unfold Handler.onChunk streamResponseGeminiChat2OpenAI stopsOf stopReason Handler.sendStart
  dsimp only
  rw [hcount, if_pos h, hopens]
  cases ho : opens candidates with
  | true =>
      have hfinished : isFinished
          (clearToolCalls (s.indexChoices (candidates.map streamChoice)).2) = true := by
        rw [← isFinished_map_untooled, hcleared, isFinished_map_untooled, isFinished_of_opens ho]
      rw [hfinished]
      split
      next => simp [Handler.handleStream, Handler.tables, hsent]
      next => simp [Handler.handleStream, Handler.tables, hsent]
  | false =>
      split
      next => simp [Handler.handleStream, Handler.tables, hfinish, hsent, hreason]
      next => simp [Handler.handleStream, Handler.tables, hfinish, hsent, hreason]

end

/-! ## What the chunks have for a choice -/

section View

variable {β : Type} {v : StreamChoice → List β} {k : Int}

/-- What the choices of an index have, one after the other. -/
def view (v : StreamChoice → List β) (k : Int) (sent : List (List StreamChoice)) : List β :=
  (received k sent).flatMap v

@[simp] theorem view_nil (v : StreamChoice → List β) (k : Int) : view v k [] = [] := rfl

@[simp] theorem view_append (v : StreamChoice → List β) (k : Int)
    (a b : List (List StreamChoice)) : view v k (a ++ b) = view v k a ++ view v k b := by
  simp [view]

theorem view_cons (v : StreamChoice → List β) (k : Int) (choices : List StreamChoice)
    (sent : List (List StreamChoice)) :
    view v k (choices :: sent) = view v k [choices] ++ view v k sent :=
  view_append v k [choices] sent

/-- What is in the pieces of each chunk is in those of all. -/
theorem flatMap_piecesOf (f : Candidate → List β) (k : Int) (chunks : List (List Candidate)) :
    (chunks.flatMap fun candidates => (piecesOf k candidates).flatMap f) =
      (piecesOf k chunks.flatten).flatMap f := by
  induction chunks with
  | nil => rfl
  | cons candidates chunks ih =>
      rw [List.flatMap_cons, ih, List.flatten_cons, piecesOf_append, List.flatMap_append]

theorem view_stopsOf (v : StreamChoice → List β) (k : Int) (finishReason : String)
    (candidates : List Candidate) :
    view v k (stopsOf finishReason candidates) =
      if k = 0 ∧ candidates.any Candidate.stops then v ⟨0, none, none, [], some finishReason⟩
      else [] := by
  unfold stopsOf
  cases candidates.any Candidate.stops with
  | false => simp
  | true =>
      by_cases hk : k = 0
      · simp [view, received, stopResponse, hk]
      · simp [view, received, stopResponse, hk, Ne.symm hk]

/-- The choices of a chunk, before its calls are numbered. -/
theorem view_streamChoice (v : StreamChoice → List β) (k : Int) (candidates : List Candidate) :
    view v k [candidates.map streamChoice] =
      (piecesOf k candidates).flatMap fun c => v (streamChoice c) := by
  rw [view, received_singleton, List.filter_map, List.flatMap_map]
  rfl

/-- What does not look at tool calls sees the same in choices that differ in these. -/
theorem view_congr (hv : ∀ c : StreamChoice, v c.untooled = v c) {a b : List StreamChoice}
    (h : a.map StreamChoice.untooled = b.map StreamChoice.untooled) :
    view v k [a] = view v k [b] := by
  have huntooled : ∀ choices : List StreamChoice,
      view v k [choices] = view v k [choices.map StreamChoice.untooled] := by
    intro choices
    simp only [view, received_singleton, List.filter_map, List.flatMap_map, hv]
    rfl
  rw [huntooled a, huntooled b, h]

/-- The choices of the first chunk: one that opens the stream does not finish. -/
def openedChoices (first : List Candidate) : List StreamChoice :=
  if opens first then clearFinish (first.map streamChoice) else first.map streamChoice

theorem view_chunks (hv : ∀ c : StreamChoice, v c.untooled = v c) (k : Int)
    (chunks : List (List Candidate)) {s : Handler} (h : s.sendResponseCount ≠ 0) :
    view v k (chunks.foldl Handler.onChunk s).sent =
      view v k s.sent ++ chunks.flatMap fun candidates =>
        ((piecesOf k candidates).flatMap fun c => v (streamChoice c)) ++
          view v k (stopsOf s.finishReason candidates) := by
  induction chunks generalizing s with
  | nil => simp
  | cons candidates chunks ih =>
      obtain ⟨hsent, hcount, hfinish, -⟩ := onChunk_next h candidates
      have hchunk : view v k [(s.indexChoices (candidates.map streamChoice)).2] =
          (piecesOf k candidates).flatMap fun c => v (streamChoice c) := by
        rw [view_congr hv (map_untooled_indexChoices s _), view_streamChoice]
      rw [List.foldl_cons, ih hcount, hsent, hfinish, view_append, view_append, hchunk,
        List.flatMap_cons]
      simp only [List.append_assoc]

theorem view_start (hv : ∀ c : StreamChoice, v c.untooled = v c)
    (hstart : v ⟨0, none, some [], [], none⟩ = []) (k : Int) (tools : List ToolCallResponse) :
    view v k [startResponse tools] = [] := by
  have hnone : v ⟨0, none, some [], tools, none⟩ = [] := (hv _).symm.trans hstart
  by_cases hk : k = 0
  · simp [view, received, startResponse, hk, hnone]
  · simp [view, received, startResponse, Ne.symm hk]

theorem view_first (hv : ∀ c : StreamChoice, v c.untooled = v c)
    (hstart : v ⟨0, none, some [], [], none⟩ = []) (k : Int) (first : List Candidate) :
    view v k (Handler.start.onChunk first).sent =
      view v k [openedChoices first] ++ view v k (stopsOf (stopReason first) first) := by
  obtain ⟨hsent, -, -, -⟩ := onChunk_first (s := Handler.start) rfl rfl first
  have hindexed := map_untooled_indexChoices Handler.start (first.map streamChoice)
  rw [hsent, view_append, view_append]
  refine congrArg (· ++ _) ?_
  show [] ++ _ = _
  rw [List.nil_append]
  unfold openedChoices
  split
  · rw [view_cons, view_start hv hstart, List.nil_append]
    refine view_congr hv ?_
    rw [map_untooled_clearFinish, map_untooled_clearToolCalls, hindexed, map_untooled_clearFinish]
  · rw [view_cons, view_start hv hstart, List.nil_append]
    exact view_congr hv hindexed

/-- What the whole stream has for a choice. -/
theorem view_handler (hv : ∀ c : StreamChoice, v c.untooled = v c)
    (hstart : v ⟨0, none, some [], [], none⟩ = []) (k : Int) (first : List Candidate)
    (rest : List (List Candidate)) :
    view v k (geminiChatStreamHandler (first :: rest)) =
      view v k [openedChoices first] ++ view v k (stopsOf (stopReason first) first) ++
        rest.flatMap fun candidates =>
          ((piecesOf k candidates).flatMap fun c => v (streamChoice c)) ++
            view v k (stopsOf (stopReason first) candidates) := by
  obtain ⟨-, hcount, hfinish, -⟩ := onChunk_first (s := Handler.start) rfl rfl first
  rw [geminiChatStreamHandler, List.foldl_cons, view_chunks hv k rest hcount, hfinish,
    view_first hv hstart]

/-- What looks at the texts alone sees those of the pieces. -/
theorem view_texts (hv : ∀ c : StreamChoice, v c.untooled = v c)
    (hfinish : ∀ c : StreamChoice, v { c with finishReason := none } = v c)
    (hstart : v ⟨0, none, some [], [], none⟩ = []) (hstop : v ⟨0, none, none, [], none⟩ = [])
    (k : Int) (chunks : List (List Candidate)) :
    view v k (geminiChatStreamHandler chunks) =
      (piecesOf k chunks.flatten).flatMap fun c => v (streamChoice c) := by
  have hstops : ∀ (reason : String) (candidates : List Candidate),
      view v k (stopsOf reason candidates) = [] := by
    intro reason candidates
    rw [view_stopsOf, ← hfinish, hstop, ite_self]
  cases chunks with
  | nil => rfl
  | cons first rest =>
      have hopened : view v k [openedChoices first] = view v k [first.map streamChoice] := by
        unfold openedChoices
        split
        · cases first with
          | nil => rfl
          | cons c first =>
              simp only [view, received_singleton, List.map_cons, clearFinish, List.filter_cons]
              split <;> simp [hfinish]
        · rfl
      rw [view_handler hv hstart, hopened, view_streamChoice, hstops, List.append_nil]
      simp only [hstops, List.append_nil]
      rw [flatMap_piecesOf, ← List.flatMap_append, ← piecesOf_append, List.flatten_cons]

end View

end DazeApi.Convert.Gemini
