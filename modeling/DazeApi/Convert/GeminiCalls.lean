import DazeApi.Convert.GeminiTexts

/-!
# The tool calls of a stream

The tool calls of a choice are numbered in the order in which they come.  A stream that opens
with a function call sends the names of the calls of its first choice in a chunk for choice 0,
and clears those of all calls of its first chunk (`fragments_handler`).  So a client puts
the calls of the answer together exactly if the first choice is choice 0 and no other choice
of that chunk has a call (`calls_iff`), names that are empty aside.
-/

namespace DazeApi.Convert.Gemini

/-! ## Numbers -/

/-- Tool calls with indices one after the other. -/
def numbered : Nat → List ToolCallResponse → List ToolCallResponse
  | _, [] => []
  | n, tool :: tools => { tool with index := some (n : Int) } :: numbered (n + 1) tools

theorem numbered_append (n : Nat) (a b : List ToolCallResponse) :
    numbered n (a ++ b) = numbered n a ++ numbered (n + a.length) b := by
  induction a generalizing n with
  | nil => rfl
  | cons tool a ih =>
      rw [List.cons_append, numbered, numbered, ih, List.length_cons, List.cons_append]
      congr 3
      omega

/-- The indices that the calls had before do not matter. -/
theorem numbered_map_bare (n : Nat) (tools : List ToolCallResponse) :
    numbered n (tools.map bare) = numbered n tools := by
  induction tools generalizing n with
  | nil => rfl
  | cons tool tools ih => rw [List.map_cons, numbered, numbered, ih]; rfl

/-- Changes that leave the indices alone. -/
theorem map_numbered {f : ToolCallResponse → ToolCallResponse}
    (hf : ∀ tool i, f { tool with index := i } = { f tool with index := i }) (n : Nat)
    (tools : List ToolCallResponse) : (numbered n tools).map f = numbered n (tools.map f) := by
  induction tools generalizing n with
  | nil => rfl
  | cons tool tools ih => rw [numbered, List.map_cons, hf, ih, List.map_cons, numbered]

section

variable {s : Handler} {done : Int → List String} {k : Int}

/-- The tables have the calls with these ids, choice by choice. -/
structure Counts (s : Handler) (done : Int → List String) : Prop where
  next : ∀ k, s.nextToolCallIndexByChoice k = (done k).length
  known : ∀ k id, s.toolCallIndexByChoice k id ≠ none → id ∈ done k

theorem Counts.start : Counts Handler.start fun _ => [] :=
  ⟨fun _ => rfl, fun _ _ h => absurd rfl h⟩

theorem Counts.of_tables {s' : Handler} (h : Counts s done) (htables : s'.tables = s.tables) :
    Counts s' done := by
  obtain ⟨hindex, hnext⟩ := Prod.mk.inj htables
  exact ⟨fun k => by rw [hnext, h.next], fun k id => by rw [hindex]; exact h.known k id⟩

/-- A call with a new id has the next index. -/
theorem Counts.indexTool (h : Counts s done) {tool : ToolCallResponse} (hid : tool.id ≠ "")
    (hnew : tool.id ∉ done k) :
    (s.indexTool k tool).2 = { tool with index := some ((done k).length : Int) } ∧
      Counts (s.indexTool k tool).1 (Function.update done k (done k ++ [tool.id])) := by
  have hnone : s.toolCallIndexByChoice k tool.id = none := by
    by_contra hsome
    exact hnew (h.known k tool.id hsome)
  unfold Handler.indexTool
  rw [if_neg hid, hnone]
  dsimp only
  rw [h.next]
  refine ⟨rfl, fun j => ?_, fun j id hj => ?_⟩
  · by_cases hjk : j = k
    · subst hjk
      simp
    · simp [hjk, h.next]
  · dsimp only at hj
    by_cases hjk : j = k
    · subst hjk
      rw [Function.update_self] at hj ⊢
      by_cases hsame : id = tool.id
      · simp [hsame]
      · rw [Function.update_of_ne hsame] at hj
        exact List.mem_append_left _ (h.known j id hj)
    · rw [Function.update_of_ne hjk] at hj ⊢
      exact h.known j id hj

theorem Counts.indexTools (tools : List ToolCallResponse) {s : Handler}
    {done : Int → List String} (h : Counts s done) (hids : ∀ tool ∈ tools, tool.id ≠ "")
    (hnodup : (done k ++ tools.map (·.id)).Nodup) :
    (s.indexTools k tools).2 = numbered (done k).length tools ∧
      Counts (s.indexTools k tools).1
        (Function.update done k (done k ++ tools.map (·.id))) := by
  induction tools generalizing s done with
  | nil =>
      refine ⟨rfl, ?_⟩
      rw [List.map_nil, List.append_nil, Function.update_eq_self]
      exact h
  | cons tool tools ih =>
      rw [List.forall_mem_cons] at hids
      have hsplit : done k ++ (tool :: tools).map (·.id) =
          (done k ++ [tool.id]) ++ tools.map (·.id) := by simp
      rw [hsplit] at hnodup ⊢
      have hnew : tool.id ∉ done k := by
        intro hmem
        have hfirst := (List.nodup_append.1 (List.nodup_append.1 hnodup).1).2.2
        exact hfirst _ hmem _ (List.mem_singleton_self _) rfl
      obtain ⟨htool, hcounts⟩ := h.indexTool hids.1 hnew
      have hself : Function.update done k (done k ++ [tool.id]) k = done k ++ [tool.id] :=
        Function.update_self ..
      obtain ⟨htools, hcounts'⟩ := ih hcounts hids.2 (by rw [hself]; exact hnodup)
      rw [hself, Function.update_idem] at hcounts'
      rw [hself, List.length_append, List.length_singleton] at htools
      refine ⟨?_, hcounts'⟩
      rw [Handler.indexTools, numbered, ← htool, ← htools]

/-- The calls of a chunk are numbered after those that came before. -/
theorem Counts.indexChoices (choices : List StreamChoice) {s : Handler}
    {done : Int → List String} (h : Counts s done)
    (hids : ∀ k, ∀ tool ∈ view StreamChoice.toolCalls k [choices], tool.id ≠ "")
    (hnodup : ∀ k, (done k ++ (view StreamChoice.toolCalls k [choices]).map (·.id)).Nodup) :
    (∀ k, view StreamChoice.toolCalls k [(s.indexChoices choices).2] =
      numbered (done k).length (view StreamChoice.toolCalls k [choices])) ∧
      Counts (s.indexChoices choices).1
        fun k => done k ++ (view StreamChoice.toolCalls k [choices]).map (·.id) := by
  induction choices generalizing s done with
  | nil =>
      refine ⟨fun _ => rfl, ?_⟩
      have hdone : (fun k => done k ++ (view StreamChoice.toolCalls k [[]]).map (·.id)) = done := by
        funext k
        exact List.append_nil _
      rw [hdone]
      exact h
  | cons choice choices ih =>
      have hcons : ∀ (c : StreamChoice) (cs : List StreamChoice) (k : Int),
          view StreamChoice.toolCalls k [c :: cs] =
            (if c.index = k then c.toolCalls else []) ++ view StreamChoice.toolCalls k [cs] := by
        intro c cs k
        rw [view, view, received_singleton, received_singleton, List.filter_cons]
        by_cases hk : c.index = k <;> simp [hk]
      have hfirst : ∀ k, Function.update done choice.index
          (done choice.index ++ choice.toolCalls.map (·.id)) k =
            done k ++ (if choice.index = k then choice.toolCalls else []).map (·.id) := by
        intro k
        by_cases hk : choice.index = k
        · subst hk
          rw [Function.update_self, if_pos rfl]
        · rw [Function.update_of_ne (Ne.symm hk), if_neg hk, List.map_nil, List.append_nil]
      simp only [hcons] at hids hnodup ⊢
      have hself := hnodup choice.index
      rw [if_pos rfl, List.map_append, ← List.append_assoc] at hself
      have hidsSelf : ∀ tool ∈ choice.toolCalls, tool.id ≠ "" := fun tool hmem =>
        hids choice.index tool (by rw [if_pos rfl]; exact List.mem_append_left _ hmem)
      obtain ⟨htools, hcounts⟩ := h.indexTools choice.toolCalls hidsSelf
        (List.nodup_append.1 hself).1
      obtain ⟨hviews, hcounts'⟩ := ih hcounts
        (fun k tool hmem => hids k tool (List.mem_append_right _ hmem))
        (fun k => by rw [hfirst, List.append_assoc, ← List.map_append]; exact hnodup k)
      refine ⟨fun k => ?_, ?_⟩
      · rw [Handler.indexChoices, hcons, hviews, hfirst, numbered_append]
        dsimp only
        rw [htools]
        by_cases hk : choice.index = k
        · subst hk
          simp
        · simp [hk, numbered]
      · refine Eq.mp (congrArg (Counts _) (funext fun k => ?_)) hcounts'
        rw [hfirst, List.append_assoc, ← List.map_append]

/-! ## The calls of a stream -/

/-- The tool calls of the candidates of an index. -/
def toolsAt (k : Int) (candidates : List Candidate) : List ToolCallResponse :=
  (piecesOf k candidates).flatMap Candidate.tools

@[simp] theorem toolsAt_append (k : Int) (a b : List Candidate) :
    toolsAt k (a ++ b) = toolsAt k a ++ toolsAt k b := by
  simp [toolsAt]

theorem toolsAt_cons (k : Int) (c : Candidate) (candidates : List Candidate) :
    toolsAt k (c :: candidates) = (if c.index = k then c.tools else []) ++ toolsAt k candidates := by
  rw [toolsAt, toolsAt, piecesOf, piecesOf, List.filter_cons]
  by_cases hk : c.index = k <;> simp [hk]

/-- The calls of some candidates have different ids, choice by choice, and after others. -/
structure Fresh (done : Int → List String) (candidates : List Candidate) : Prop where
  named : ∀ k, ∀ tool ∈ toolsAt k candidates, tool.id ≠ ""
  nodup : ∀ k, (done k ++ (toolsAt k candidates).map (·.id)).Nodup

theorem Fresh.left {a b : List Candidate} (h : Fresh done (a ++ b)) : Fresh done a where
  named k tool hmem := h.named k tool (by rw [toolsAt_append]; exact List.mem_append_left _ hmem)
  nodup k := by
    have hk := h.nodup k
    rw [toolsAt_append, List.map_append, ← List.append_assoc] at hk
    exact (List.nodup_append.1 hk).1

theorem Fresh.right {a b : List Candidate} (h : Fresh done (a ++ b)) :
    Fresh (fun k => done k ++ (toolsAt k a).map (·.id)) b where
  named k tool hmem := h.named k tool (by rw [toolsAt_append]; exact List.mem_append_right _ hmem)
  nodup k := by
    have hk := h.nodup k
    rwa [toolsAt_append, List.map_append, ← List.append_assoc] at hk

theorem view_toolCalls (k : Int) (candidates : List Candidate) :
    (view StreamChoice.toolCalls k [candidates.map streamChoice]).map bare =
      toolsAt k candidates := by
  rw [view_streamChoice, List.map_flatMap]
  exact List.flatMap_congr fun c _ => streamChoice_toolCalls c

theorem map_id_view (k : Int) (candidates : List Candidate) :
    (view StreamChoice.toolCalls k [candidates.map streamChoice]).map (·.id) =
      (toolsAt k candidates).map (·.id) := by
  rw [← view_toolCalls, List.map_map]
  rfl

/-- The calls of a chunk are numbered after those of the chunks before. -/
theorem Counts.chunk {candidates : List Candidate} (h : Counts s done)
    (hfresh : Fresh done candidates) :
    (∀ k, view StreamChoice.toolCalls k [(s.indexChoices (candidates.map streamChoice)).2] =
      numbered (done k).length (toolsAt k candidates)) ∧
      Counts (s.indexChoices (candidates.map streamChoice)).1
        fun k => done k ++ (toolsAt k candidates).map (·.id) := by
  have hids : ∀ k, ∀ tool ∈ view StreamChoice.toolCalls k [candidates.map streamChoice],
      tool.id ≠ "" := by
    intro k tool hmem
    have hbare : bare tool ∈ toolsAt k candidates := by
      rw [← view_toolCalls]
      exact List.mem_map_of_mem hmem
    exact hfresh.named k (bare tool) hbare
  obtain ⟨hviews, hcounts⟩ := h.indexChoices (candidates.map streamChoice) hids
    (fun k => by rw [map_id_view]; exact hfresh.nodup k)
  simp only [map_id_view] at hcounts
  refine ⟨fun k => ?_, hcounts⟩
  rw [hviews, ← view_toolCalls, numbered_map_bare]

theorem view_toolCalls_stopsOf (k : Int) (reason : String) (candidates : List Candidate) :
    view StreamChoice.toolCalls k (stopsOf reason candidates) = [] := by
  rw [view_stopsOf, ite_self]

/-- The fragments of the chunks after the first. -/
theorem fragments_chunks (k : Int) (chunks : List (List Candidate)) {s : Handler}
    {done : Int → List String} (hcount : s.sendResponseCount ≠ 0) (h : Counts s done)
    (hfresh : Fresh done chunks.flatten) :
    view StreamChoice.toolCalls k (chunks.foldl Handler.onChunk s).sent =
      view StreamChoice.toolCalls k s.sent ++
        numbered (done k).length (toolsAt k chunks.flatten) := by
  induction chunks generalizing s done with
  | nil => simp [toolsAt, piecesOf, numbered]
  | cons candidates chunks ih =>
      rw [List.flatten_cons] at hfresh ⊢
      obtain ⟨hviews, hcounts⟩ := h.chunk hfresh.left
      obtain ⟨hsent, hcount', -, htables⟩ := onChunk_next hcount candidates
      rw [List.foldl_cons, ih hcount' (hcounts.of_tables htables) hfresh.right, hsent, view_append,
        view_append, hviews, view_toolCalls_stopsOf, toolsAt_append, numbered_append]
      simp

/-! ## The first chunk -/

/-- The tool calls of the first candidate. -/
def firstTools : List Candidate → List ToolCallResponse
  | [] => []
  | c :: _ => c.tools

/-- A call that is sent ahead, with no arguments. -/
def silent (tool : ToolCallResponse) : ToolCallResponse := { tool with arguments := "" }

/-- A call whose name has been sent ahead. -/
def cleared (tool : ToolCallResponse) : ToolCallResponse := { tool with id := "", name := "" }

/-- What the start chunk has of calls for a choice. -/
def copiesAt (k : Int) (first : List Candidate) : List ToolCallResponse :=
  if k = 0 ∧ opens first then (firstTools first).map silent else []

/-- What the first chunk itself has of calls for a choice. -/
def openedTools (k : Int) (first : List Candidate) : List ToolCallResponse :=
  if opens first then (toolsAt k first).map cleared else toolsAt k first

theorem copiedToolCalls_eq {first : List Candidate} (hfresh : Fresh (fun _ => []) first) :
    copiedToolCalls (Handler.start.indexChoices (first.map streamChoice)).2 =
      numbered 0 ((firstTools first).map silent) := by
  cases first with
  | nil => rfl
  | cons c first =>
      have hids : (streamChoice c).toolCalls.map (·.id) = c.tools.map (·.id) := by
        rw [← streamChoice_toolCalls, List.map_map]
        rfl
      have hnodup : (c.tools.map (·.id)).Nodup := by
        have hself := hfresh.nodup c.index
        rw [toolsAt_cons, if_pos rfl, List.nil_append, List.map_append] at hself
        exact (List.nodup_append.1 hself).1
      have hnamed : ∀ tool ∈ (streamChoice c).toolCalls, tool.id ≠ "" := by
        intro tool hmem
        have hbare : bare tool ∈ c.tools := by
          rw [← streamChoice_toolCalls]
          exact List.mem_map_of_mem hmem
        refine hfresh.named c.index (bare tool) ?_
        rw [toolsAt_cons, if_pos rfl]
        exact List.mem_append_left _ hbare
      have htools := (Counts.start.indexTools (k := c.index) (streamChoice c).toolCalls hnamed
        (by rw [hids]; exact hnodup)).1
      show ((Handler.start.indexTools c.index (streamChoice c).toolCalls).2).map silent = _
      rw [htools, ← numbered_map_bare, streamChoice_toolCalls, map_numbered fun _ _ => rfl]
      rfl

theorem view_clearToolCalls (k : Int) {choices : List StreamChoice}
    (h : isToolCall choices = true) :
    view StreamChoice.toolCalls k [clearFinish (clearToolCalls choices)] =
      (view StreamChoice.toolCalls k [choices]).map cleared := by
  have hfinish : ∀ cs : List StreamChoice,
      view StreamChoice.toolCalls k [clearFinish cs] = view StreamChoice.toolCalls k [cs] := by
    intro cs
    cases cs with
    | nil => rfl
    | cons c cs =>
        simp only [view, received_singleton, clearFinish, List.filter_cons]
        split <;> simp
  rw [hfinish, clearToolCalls, if_pos h, view, view, received_singleton, received_singleton,
    List.filter_map, List.flatMap_map, List.map_flatMap]
  rfl

theorem fragments_first (k : Int) {first : List Candidate}
    (hfresh : Fresh (fun _ => []) first) :
    view StreamChoice.toolCalls k (Handler.start.onChunk first).sent =
      numbered 0 (copiesAt k first) ++ numbered 0 (openedTools k first) := by
  obtain ⟨hsent, -, -, -⟩ := onChunk_first (s := Handler.start) rfl rfl first
  obtain ⟨hviews, -⟩ := Counts.start.chunk hfresh
  have hindexed : view StreamChoice.toolCalls k
      [(Handler.start.indexChoices (first.map streamChoice)).2] = numbered 0 (toolsAt k first) :=
    hviews k
  have hstart : ∀ tools : List ToolCallResponse,
      view StreamChoice.toolCalls k [startResponse tools] = if k = 0 then tools else [] := by
    intro tools
    by_cases hk : k = 0
    · simp [view, received, startResponse, hk]
    · simp [view, received, startResponse, hk, Ne.symm hk]
  rw [hsent, view_append, view_append, view_toolCalls_stopsOf, List.append_nil]
  show [] ++ _ = _
  rw [List.nil_append]
  unfold copiesAt openedTools
  cases ho : opens first with
  | true =>
      have htool := (isToolCall_indexChoices Handler.start first).trans ho
      rw [if_pos rfl, if_pos rfl, view_cons, hstart, copiedToolCalls_eq hfresh,
        view_clearToolCalls k htool, hindexed, map_numbered fun _ _ => rfl]
      by_cases hk : k = 0
      · rw [if_pos hk, if_pos ⟨hk, rfl⟩]
      · rw [if_neg hk, if_neg fun h => hk h.1]
        rfl
  | false =>
      simp only [Bool.false_eq_true, if_false, and_false]
      rw [view_cons, hstart, ite_self, hindexed]
      rfl

/-- The fragments of tool calls that the stream has for a choice. -/
theorem fragments_handler (k : Int) {first : List Candidate} {rest : List (List Candidate)}
    (hfresh : Fresh (fun _ => []) (first ++ rest.flatten)) :
    view StreamChoice.toolCalls k (geminiChatStreamHandler (first :: rest)) =
      numbered 0 (copiesAt k first) ++
        numbered 0 (openedTools k first ++ toolsAt k rest.flatten) := by
  obtain ⟨-, hcount, -, htables⟩ := onChunk_first (s := Handler.start) rfl rfl first
  obtain ⟨-, hcounts⟩ := Counts.start.chunk hfresh.left
  have hlength : (openedTools k first).length = (toolsAt k first).length := by
    unfold openedTools
    split
    · exact List.length_map _
    · rfl
  rw [geminiChatStreamHandler, List.foldl_cons,
    fragments_chunks k rest hcount (hcounts.of_tables htables) hfresh.right,
    fragments_first k hfresh.left, numbered_append, hlength, List.append_assoc]
  simp

end

/-! ## Fragments put together -/

/-- The calls that a client makes of fragments: those of one index are one call. -/
def callsOf (fragments : List ToolCallResponse) : List (Int × ToolCall) :=
  fragments.foldl addFragment []

/-- The name and the arguments of a tool call. -/
def told (tool : ToolCallResponse) : String × String := (tool.name, tool.arguments)

/-- The name and the arguments of a call that was put together. -/
def spoken (call : ToolCall) : String × String := (call.name, call.arguments)

def numberedCalls : Nat → List ToolCall → List (Int × ToolCall)
  | _, [] => []
  | n, call :: calls => ((n : Int), call) :: numberedCalls (n + 1) calls

/-- Fragments joined to calls one by one. -/
def joinTools : List ToolCall → List ToolCallResponse → List ToolCall
  | calls, [] => calls
  | [], tool :: tools => ⟨tool.id, tool.name, tool.arguments⟩ :: joinTools [] tools
  | call :: calls, tool :: tools =>
      ⟨fill call.id tool.id, fill call.name tool.name, call.arguments ++ tool.arguments⟩ ::
        joinTools calls tools

/-- Fragments with indices one after the other are joined one by one. -/
theorem foldl_numbered (calls : List ToolCall) (tools : List ToolCallResponse) {n : Nat}
    {pre : List (Int × ToolCall)} (hpre : ∀ call ∈ pre, call.1 < n) :
    (numbered n tools).foldl addFragment (pre ++ numberedCalls n calls) =
      pre ++ numberedCalls n (joinTools calls tools) := by
  induction tools generalizing n calls pre with
  | nil => rw [joinTools]; rfl
  | cons tool tools ih =>
      have hskip : ∀ call ∈ pre,
          call.1 ≠ ({ tool with index := some (n : Int) } : ToolCallResponse).index.getD 0 :=
        fun call hcall => Int.ne_of_lt (hpre call hcall)
      have hnext : ∀ call : ToolCall, ∀ c ∈ pre ++ [((n : Int), call)], c.1 < ((n + 1 : Nat) : Int) := by
        intro call c hc
        rcases List.mem_append.1 hc with hc | hc
        · have hlt := hpre c hc
          omega
        · rw [List.mem_singleton.1 hc]
          exact Int.ofNat_lt.2 (Nat.lt_succ_self n)
      rw [numbered, List.foldl_cons, addFragment_append hskip]
      cases calls with
      | nil =>
          have hjoin := ih [] (hnext ⟨tool.id, tool.name, tool.arguments⟩)
          rw [numberedCalls, List.append_nil] at hjoin
          rw [numberedCalls, addFragment, Option.getD_some, hjoin, joinTools, numberedCalls,
            List.append_assoc, List.singleton_append]
      | cons call calls =>
          have hjoin := ih calls (hnext ⟨fill call.id tool.id, fill call.name tool.name,
            call.arguments ++ tool.arguments⟩)
          rw [List.append_assoc, List.singleton_append] at hjoin
          rw [numberedCalls, addFragment, Option.getD_some, if_pos rfl, hjoin, joinTools,
            numberedCalls, List.append_assoc, List.singleton_append]

theorem callsOf_numbered (a b : List ToolCallResponse) :
    callsOf (numbered 0 a ++ numbered 0 b) =
      numberedCalls 0 (joinTools (joinTools [] a) b) := by
  have hnone : ∀ call ∈ ([] : List (Int × ToolCall)), call.1 < ((0 : Nat) : Int) := by simp
  have hfirst := foldl_numbered [] a hnone
  have hsecond := foldl_numbered (joinTools [] a) b hnone
  rw [callsOf, List.foldl_append]
  simp only [numberedCalls, List.nil_append] at hfirst hsecond
  rw [hfirst, hsecond]

theorem spoken_numberedCalls (n : Nat) (calls : List ToolCall) :
    ((numberedCalls n calls).map fun call => spoken call.2) = calls.map spoken := by
  induction calls generalizing n with
  | nil => rfl
  | cons call calls ih => rw [numberedCalls, List.map_cons, List.map_cons, ih]

theorem le_of_mem_numberedCalls {n : Nat} {calls : List ToolCall} {c : Int × ToolCall}
    (h : c ∈ numberedCalls n calls) : (n : Int) ≤ c.1 := by
  induction calls generalizing n with
  | nil => cases h
  | cons call calls ih =>
      rcases List.mem_cons.1 h with rfl | h
      · exact Int.le_refl _
      · have hle := ih h
        omega

/-- The calls have distinct indices. -/
theorem nodup_fst_numberedCalls (n : Nat) (calls : List ToolCall) :
    ((numberedCalls n calls).map Prod.fst).Nodup := by
  induction calls generalizing n with
  | nil => exact List.nodup_nil
  | cons call calls ih =>
      rw [numberedCalls, List.map_cons, List.nodup_cons]
      refine ⟨fun hmem => ?_, ih (n + 1)⟩
      obtain ⟨c, hc, heq⟩ := List.mem_map.1 hmem
      have hle := le_of_mem_numberedCalls hc
      omega

theorem length_joinTools (calls : List ToolCall) (tools : List ToolCallResponse) :
    (joinTools calls tools).length = max calls.length tools.length := by
  induction tools generalizing calls with
  | nil => simp [joinTools]
  | cons tool tools ih =>
      cases calls with
      | nil => rw [joinTools, List.length_cons, ih]; simp
      | cons call calls => rw [joinTools, List.length_cons, ih]; simp

theorem spoken_joinTools_nil (tools : List ToolCallResponse) :
    (joinTools [] tools).map spoken = tools.map told := by
  induction tools with
  | nil => rfl
  | cons tool tools ih => rw [joinTools, List.map_cons, ih]; rfl

/-- Names that were sent ahead come together with the arguments. -/
theorem spoken_joinTools_cleared (a b : List ToolCallResponse) :
    (joinTools (joinTools [] (a.map silent)) (a.map cleared ++ b)).map spoken =
      a.map told ++ b.map told := by
  induction a with
  | nil => exact spoken_joinTools_nil b
  | cons tool a ih =>
      have hfill : fill tool.name "" = tool.name := by
        unfold fill
        split
        next h => exact h.symm
        next => rfl
      rw [List.map_cons, List.map_cons, List.cons_append, joinTools, joinTools, List.map_cons, ih]
      simp [spoken, told, silent, cleared, hfill]

/-- Empty names that were sent ahead change nothing if there are enough calls. -/
theorem spoken_joinTools_silent {a b : List ToolCallResponse} (hname : ∀ tool ∈ a, tool.name = "")
    (hle : a.length ≤ b.length) :
    (joinTools (joinTools [] (a.map silent)) b).map spoken = b.map told := by
  induction a generalizing b with
  | nil => exact spoken_joinTools_nil b
  | cons tool a ih =>
      cases b with
      | nil => cases hle
      | cons other b =>
          rw [List.forall_mem_cons] at hname
          rw [List.map_cons, joinTools, joinTools, List.map_cons, List.map_cons,
            ih hname.2 (Nat.le_of_succ_le_succ hle)]
          simp [spoken, told, silent, fill, hname.1]

/-- Calls whose names were cleared are told alike if they had none. -/
theorem told_cleared_iff (a b : List ToolCallResponse) :
    (a.map cleared ++ b).map told = (a ++ b).map told ↔ ∀ tool ∈ a, tool.name = "" := by
  rw [List.map_append, List.map_append, List.append_left_inj, List.map_map, List.map_inj_left]
  refine forall₂_congr fun tool _ => ?_
  simp only [Function.comp_apply, told, cleared, Prod.mk.injEq, and_true]
  exact eq_comm

/-! ## The calls of the answer -/

/-- A candidate whose calls have empty names. -/
def Candidate.Nameless (c : Candidate) : Prop := ∀ tool ∈ c.tools, tool.name = ""

/-- A client puts the calls of the answer together. -/
def SameCalls (candidates : List Candidate) (chunks : List (List Candidate)) : Prop :=
  ∀ k, ((callsOf (view StreamChoice.toolCalls k (geminiChatStreamHandler chunks))).map
    fun call => spoken call.2) = (answeredOf k candidates).flatMap fun c => c.toolCalls.map told

/-- The stream does not open with a function call; or its first choice is choice 0 and no
other choice of the first chunk has a call, empty names aside. -/
def CallsFit (candidates : List Candidate) : List (List Candidate) → Prop
  | (c :: others) :: _ => c.tools ≠ [] →
      (c.index = 0 ∨ c.Nameless ∧ c.tools.length ≤ (toolsAt 0 candidates).length) ∧
        ∀ d ∈ others, d.Nameless
  | _ => True

/-- No two function calls of a candidate have one UUID. -/
def DistinctIds (candidates : List Candidate) : Prop :=
  ∀ c ∈ candidates, ((c.parts.filterMap (·.functionCall)).map (·.uuid)).Nodup

instance (candidates : List Candidate) : Decidable (DistinctIds candidates) :=
  inferInstanceAs (Decidable (∀ c ∈ candidates, _))

section

variable {candidates : List Candidate} {chunks : List (List Candidate)}

theorem Candidate.map_id_tools_sublist (c : Candidate) :
    (c.tools.map (·.id)).Sublist ((c.parts.filterMap (·.functionCall)).map callId) := by
  unfold Candidate.tools
  induction c.parts with
  | nil => exact .slnil
  | cons part parts ih =>
      cases hcall : part.functionCall with
      | none =>
          have hnone : part.call? = none := by simp [Part.call?, hcall]
          rw [List.filterMap_cons_none hnone, List.filterMap_cons_none hcall]
          exact ih
      | some call =>
          rw [List.filterMap_cons_some hcall, List.map_cons]
          cases htool : part.call? with
          | none =>
              rw [List.filterMap_cons_none htool]
              exact ih.cons _
          | some tool =>
              have hid : tool.id = callId call := by
                unfold Part.call? at htool
                split at htool
                · rw [hcall, Option.bind_some, getResponseToolCall, Option.map_eq_some_iff] at htool
                  obtain ⟨args, -, rfl⟩ := htool
                  rfl
                · cases htool
              rw [List.filterMap_cons_some htool, List.map_cons, hid]
              exact ih.cons_cons _

theorem callId_injective {a b : FunctionCall} (h : callId a = callId b) : a.uuid = b.uuid := by
  unfold callId at h
  have hlist := congrArg String.toList h
  rw [String.toList_append, String.toList_append, List.append_right_inj] at hlist
  exact String.toList_inj.1 hlist

theorem callId_ne_empty (call : FunctionCall) : callId call ≠ "" := by
  intro h
  have hlength := congrArg String.length h
  rw [callId, String.length_append] at hlength
  have hcall : "call_".length = 5 := rfl
  rw [hcall] at hlength
  simp at hlength

theorem Splits.toolsAt_eq (h : Splits candidates chunks) (k : Int) :
    toolsAt k chunks.flatten = toolsAt k candidates :=
  h.flatMap_parts (List.filterMap Part.call?) (fun _ _ => List.filterMap_append ..) rfl k

theorem Splits.fresh (h : Splits candidates chunks) (hids : DistinctIds candidates) :
    Fresh (fun _ => []) chunks.flatten := by
  have htools : ∀ k, toolsAt k chunks.flatten = [] ∨
      ∃ c ∈ candidates, toolsAt k chunks.flatten = c.tools := by
    intro k
    rw [h.toolsAt_eq]
    by_cases hk : k ∈ candidates.map (·.index)
    · obtain ⟨c, hc, rfl⟩ := List.mem_map.1 hk
      refine .inr ⟨c, hc, ?_⟩
      rw [toolsAt, piecesOf_eq_singleton h.distinct hc, List.flatMap_singleton]
    · refine .inl ?_
      rw [toolsAt, piecesOf_eq_nil hk]
      rfl
  refine ⟨fun k tool hmem => ?_, fun k => ?_⟩
  · rcases htools k with hnone | ⟨c, -, hc⟩
    · rw [hnone] at hmem
      cases hmem
    · rw [hc] at hmem
      have hid := c.map_id_tools_sublist.subset (List.mem_map_of_mem hmem)
      obtain ⟨call, -, hcall⟩ := List.mem_map.1 hid
      rw [← hcall]
      exact callId_ne_empty call
  · rw [List.nil_append]
    rcases htools k with hnone | ⟨c, hc, heq⟩
    · rw [hnone]
      exact List.nodup_nil
    · rw [heq]
      refine c.map_id_tools_sublist.nodup ?_
      have huuids := hids c hc
      rw [List.Nodup, List.pairwise_map] at huuids ⊢
      exact huuids.imp fun hne heq => hne (callId_injective heq)

/-- The calls of a choice, put together, are told as those of the answer. -/
def SameCallsAt (k : Int) (first : List Candidate) (rest : List (List Candidate)) : Prop :=
  (joinTools (joinTools [] (copiesAt k first))
    (openedTools k first ++ toolsAt k rest.flatten)).map spoken =
      (toolsAt k first ++ toolsAt k rest.flatten).map told

theorem answeredCalls_eq (k : Int) (candidates : List Candidate) :
    ((answeredOf k candidates).flatMap fun c => c.toolCalls.map told) =
      (toolsAt k candidates).map told := by
  rw [flatMap_answeredOf fun _ _ => rfl, toolsAt, List.map_flatMap]
  exact List.flatMap_congr fun c _ => congrArg (List.map told) (scanned_spec c).2.2.1

theorem sameCalls_iff {first : List Candidate} {rest : List (List Candidate)}
    (h : Splits candidates (first :: rest)) (hids : DistinctIds candidates) :
    SameCalls candidates (first :: rest) ↔ ∀ k, SameCallsAt k first rest := by
  refine forall_congr' fun k => ?_
  have hfresh := h.fresh hids
  have htotal := h.toolsAt_eq k
  rw [List.flatten_cons] at hfresh htotal
  rw [fragments_handler k hfresh, callsOf_numbered, answeredCalls_eq, ← htotal, toolsAt_append,
    SameCallsAt, spoken_numberedCalls]

theorem nameless_iff {others : List Candidate} :
    (∀ d ∈ others, d.Nameless) ↔ ∀ k, ∀ tool ∈ toolsAt k others, tool.name = "" := by
  constructor
  · intro h k tool hmem
    obtain ⟨d, hd, htool⟩ := List.mem_flatMap.1 hmem
    exact h d (List.mem_of_mem_filter hd) tool htool
  · intro h d hd tool htool
    refine h d.index tool (List.mem_flatMap.2 ⟨d, ?_, htool⟩)
    exact List.mem_filter.2 ⟨hd, decide_eq_true rfl⟩

/-- A stream that does not open with a call has all calls as they are. -/
theorem sameCallsAt_of_not_opens {first : List Candidate} (h : opens first = false) (k : Int)
    (rest : List (List Candidate)) : SameCallsAt k first rest := by
  unfold SameCallsAt copiesAt openedTools
  rw [h, if_neg fun hk => Bool.false_ne_true hk.2, if_neg Bool.false_ne_true]
  exact spoken_joinTools_nil _

/-- Where nothing is sent ahead, the calls are the same if those of the first chunk have no
names. -/
theorem sameCallsAt_iff_of_ne {k : Int} (hk : k ≠ 0) {first : List Candidate}
    (ho : opens first = true) (rest : List (List Candidate)) :
    SameCallsAt k first rest ↔ ∀ tool ∈ toolsAt k first, tool.name = "" := by
  unfold SameCallsAt copiesAt openedTools
  rw [if_neg fun h => hk h.1, if_pos ho]
  rw [joinTools, spoken_joinTools_nil, told_cleared_iff]

theorem sameCallsAt_zero {c : Candidate} {others : List Candidate} (htools : c.tools ≠ [])
    (rest : List (List Candidate)) :
    SameCallsAt 0 (c :: others) rest ↔
      (joinTools (joinTools [] (c.tools.map silent))
        ((toolsAt 0 (c :: others)).map cleared ++ toolsAt 0 rest.flatten)).map spoken =
          (toolsAt 0 (c :: others) ++ toolsAt 0 rest.flatten).map told := by
  have ho : opens (c :: others) = true := decide_eq_true htools
  unfold SameCallsAt copiesAt openedTools
  rw [if_pos ⟨rfl, ho⟩, if_pos ho]
  rfl

/-- Choice 0 comes first: its names are sent ahead, and those of the others are lost. -/
theorem sameCallsAt_zero_first {c : Candidate} {others : List Candidate} (htools : c.tools ≠ [])
    (hindex : c.index = 0) (rest : List (List Candidate)) :
    SameCallsAt 0 (c :: others) rest ↔ ∀ tool ∈ toolsAt 0 others, tool.name = "" := by
  have hsplit : (c.tools ++ (toolsAt 0 others ++ toolsAt 0 rest.flatten)).map told =
      c.tools.map told ++ (toolsAt 0 others ++ toolsAt 0 rest.flatten).map told := List.map_append
  rw [sameCallsAt_zero htools, toolsAt_cons, if_pos hindex, List.map_append, List.append_assoc,
    spoken_joinTools_cleared, List.append_assoc, hsplit, List.append_right_inj, told_cleared_iff]

/-- Another choice comes first, and sends its calls ahead for choice 0. -/
theorem sameCallsAt_zero_other {c : Candidate} {others : List Candidate} (htools : c.tools ≠ [])
    (hindex : c.index ≠ 0) (hname : c.Nameless) (rest : List (List Candidate)) :
    SameCallsAt 0 (c :: others) rest ↔
      c.tools.length ≤ (toolsAt 0 others ++ toolsAt 0 rest.flatten).length ∧
        ∀ tool ∈ toolsAt 0 others, tool.name = "" := by
  have hlength : ((toolsAt 0 others).map cleared ++ toolsAt 0 rest.flatten).length =
      (toolsAt 0 others ++ toolsAt 0 rest.flatten).length := by simp
  rw [sameCallsAt_zero htools, toolsAt_cons, if_neg hindex, List.nil_append, ← hlength]
  constructor
  · intro hsame
    have hle : c.tools.length ≤
        ((toolsAt 0 others).map cleared ++ toolsAt 0 rest.flatten).length := by
      have hmax := congrArg List.length hsame
      rw [List.length_map, List.length_map, length_joinTools, length_joinTools, List.length_map,
        ← hlength] at hmax
      simp only [List.length_nil, Nat.zero_max] at hmax
      exact (Nat.le_max_left _ _).trans hmax.le
    rw [spoken_joinTools_silent hname hle, told_cleared_iff] at hsame
    exact ⟨hle, hsame⟩
  · rintro ⟨hle, hothers⟩
    rw [spoken_joinTools_silent hname hle, told_cleared_iff]
    exact hothers

/-- The stream opens with the calls of its first choice: these are lost unless it is choice
0, and those of the others are. -/
theorem sameCallsAt_iff_of_opens {c : Candidate} {others : List Candidate} (htools : c.tools ≠ [])
    (rest : List (List Candidate)) :
    (∀ k, SameCallsAt k (c :: others) rest) ↔
      (c.index = 0 ∨ c.Nameless ∧
        c.tools.length ≤ (toolsAt 0 others ++ toolsAt 0 rest.flatten).length) ∧
        ∀ d ∈ others, d.Nameless := by
  have ho : opens (c :: others) = true := decide_eq_true htools
  have hnames : ∀ k, (∀ tool ∈ toolsAt k (c :: others), tool.name = "") ↔
      (c.index = k → c.Nameless) ∧ ∀ tool ∈ toolsAt k others, tool.name = "" := by
    intro k
    rw [toolsAt_cons, List.forall_mem_append]
    by_cases hk : c.index = k
    · simp [hk, Candidate.Nameless]
    · simp [hk]
  have hother : ∀ k ≠ 0, (SameCallsAt k (c :: others) rest ↔
      (c.index = k → c.Nameless) ∧ ∀ tool ∈ toolsAt k others, tool.name = "") :=
    fun k hk => (sameCallsAt_iff_of_ne hk ho rest).trans (hnames k)
  rw [nameless_iff]
  by_cases hindex : c.index = 0
  · have hzero : SameCallsAt 0 (c :: others) rest ↔ ∀ tool ∈ toolsAt 0 others, tool.name = "" :=
      sameCallsAt_zero_first htools hindex rest
    constructor
    · refine fun hsame => ⟨.inl hindex, fun k => ?_⟩
      by_cases hk : k = 0
      · rw [hk]
        exact hzero.1 (hsame 0)
      · exact ((hother k hk).1 (hsame k)).2
    · rintro ⟨-, hothers⟩ k
      by_cases hk : k = 0
      · rw [hk]
        exact hzero.2 (hothers 0)
      · exact (hother k hk).2 ⟨fun heq => absurd (heq.symm.trans hindex) hk, hothers k⟩
  · constructor
    · intro hsame
      have hname : c.Nameless := ((hother c.index hindex).1 (hsame c.index)).1 rfl
      obtain ⟨hle, hzero⟩ := (sameCallsAt_zero_other htools hindex hname rest).1 (hsame 0)
      refine ⟨.inr ⟨hname, hle⟩, fun k => ?_⟩
      by_cases hk : k = 0
      · rw [hk]
        exact hzero
      · exact ((hother k hk).1 (hsame k)).2
    · rintro ⟨hfirst, hothers⟩ k
      obtain ⟨hname, hle⟩ := hfirst.resolve_left hindex
      by_cases hk : k = 0
      · rw [hk]
        exact (sameCallsAt_zero_other htools hindex hname rest).2 ⟨hle, hothers 0⟩
      · exact (hother k hk).2 ⟨fun _ => hname, hothers k⟩

/-- When the calls of a stream are those of the answer. -/
theorem calls_iff (h : Splits candidates chunks) (hids : DistinctIds candidates) :
    SameCalls candidates chunks ↔ CallsFit candidates chunks := by
  match chunks, h with
  | [], h =>
      refine iff_of_true (fun k => ?_) trivial
      have hnone : toolsAt k candidates = [] := (h.toolsAt_eq k).symm
      rw [answeredCalls_eq, hnone]
      rfl
  | [] :: rest, h =>
      rw [sameCalls_iff h hids]
      exact iff_of_true (fun k => sameCallsAt_of_not_opens rfl k rest) trivial
  | (c :: others) :: rest, h =>
      rw [sameCalls_iff h hids]
      by_cases htools : c.tools = []
      · have ho : opens (c :: others) = false := decide_eq_false fun hne => hne htools
        exact iff_of_true (fun k => sameCallsAt_of_not_opens ho k rest)
          fun hne => absurd htools hne
      · have hzero : c.index ≠ 0 → toolsAt 0 candidates =
            toolsAt 0 others ++ toolsAt 0 rest.flatten := by
          intro hindex
          rw [← h.toolsAt_eq, List.flatten_cons, toolsAt_append, toolsAt_cons, if_neg hindex,
            List.nil_append]
        rw [sameCallsAt_iff_of_opens htools rest]
        by_cases hindex : c.index = 0
        · simp [CallsFit, htools, hindex]
        · simp [CallsFit, htools, hzero hindex]

end

end DazeApi.Convert.Gemini
