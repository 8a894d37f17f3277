import DazeApi.Convert.OpenAI2Gemini
import DazeApi.Lib.Pieces

/-!
# A client of Gemini and the stream

Put together, the stream says to a client of Gemini what the whole answer says exactly if every tool
call comes in one fragment, and texts beside `tool_calls` only where there are calls
(`streamed_iff`): the converter makes a function call of every fragment, and a chunk with `tool_calls`
loses its text, as the whole answer does when it has calls.
-/

namespace DazeApi.Convert.OpenAI2Gemini

variable {μ : Type} {env : Env μ} {codec : Codec} {estimate : Int} {k : Int}

/-! ## Texts -/

theorem toList_foldl_append : ∀ (texts : List String) (s : String),
    (texts.foldl (· ++ ·) s).toList = s.toList ++ texts.flatMap String.toList
  | [], s => by simp
  | t :: texts, s => by
      rw [List.foldl_cons, toList_foldl_append texts, String.toList_append, List.flatMap_cons,
        List.append_assoc]

theorem toList_join (texts : List String) : (join texts).toList = texts.flatMap String.toList := by
  rw [join, toList_foldl_append]
  rfl

theorem toList_eq_nil_iff {s : String} : s.toList = [] ↔ s = "" :=
  ⟨fun h => String.toList_inj.1 h, fun h => by rw [h]; rfl⟩

/-! ## Fragments -/

/-- A call of one fragment. -/
def single (t : ToolCallResponse) : Int × ToolCall :=
  (t.index.getD 0, ⟨t.id, t.name, t.arguments⟩)

theorem foldl_addFragment_of_nodup : ∀ (frs : List ToolCallResponse) (calls : List (Int × ToolCall)),
    (calls.map Prod.fst ++ frs.map fun t => t.index.getD 0).Nodup →
      frs.foldl addFragment calls = calls ++ frs.map single
  | [], calls, _ => by simp
  | t :: frs, calls, h => by
      have hnew : ∀ call ∈ calls, call.1 ≠ t.index.getD 0 := fun call hcall =>
        (List.nodup_append.1 h).2.2 _ (List.mem_map_of_mem hcall) _ List.mem_cons_self
      rw [List.foldl_cons, addFragment_of_not_mem hnew,
        foldl_addFragment_of_nodup frs _ (by simpa using h)]
      simp [single]

theorem length_foldl_addFragment_le : ∀ (frs : List ToolCallResponse)
    (calls : List (Int × ToolCall)), (frs.foldl addFragment calls).length ≤ calls.length + frs.length
  | [], calls => Nat.le_refl _
  | t :: frs, calls => by
      have hstep := length_addFragment t calls
      have hrest := length_foldl_addFragment_le frs (addFragment calls t)
      rw [List.foldl_cons, List.length_cons]
      split at hstep <;> omega

/-- As many calls as fragments are made only of fragments with different indices. -/
theorem nodup_of_length_foldl_addFragment : ∀ (frs : List ToolCallResponse)
    (calls : List (Int × ToolCall)), (calls.map Prod.fst).Nodup →
      (frs.foldl addFragment calls).length = calls.length + frs.length →
      (calls.map Prod.fst ++ frs.map fun t => t.index.getD 0).Nodup
  | [], calls, hnodup, _ => by simpa using hnodup
  | t :: frs, calls, hnodup, hlength => by
      have hstep := length_addFragment t calls
      have hrest := length_foldl_addFragment_le frs (addFragment calls t)
      rw [List.foldl_cons, List.length_cons] at hlength
      split at hstep
      · omega
      · next hnew =>
          have hadd := @addFragment_of_not_mem t calls fun call hcall heq =>
            hnew (heq ▸ List.mem_map_of_mem hcall)
          rw [hadd] at hlength
          have hnodup' : ((calls ++ [single t]).map Prod.fst).Nodup := by
            rw [List.map_append, List.map_singleton]
            refine List.nodup_append.2 ⟨hnodup, by simp, fun i hi j hj hij => hnew ?_⟩
            rw [List.mem_singleton.1 hj] at hij
            exact (show i = t.index.getD 0 from hij) ▸ hi
          have ih := nodup_of_length_foldl_addFragment frs (calls ++ [single t]) hnodup'
            (by rw [List.length_append, List.length_singleton]; exact hlength.trans (by omega))
          simpa [single] using ih

/-! ## The chat client -/

theorem transcript_eq (chunks : List StreamResponse) :
    transcript k (chunks.map (·.chunk)) =
      (choicesAt k chunks).foldl (fun tr choice => tr.addChoice choice.toChoice) .empty := by
  suffices h : ∀ tr : Transcript, (chunks.map (·.chunk)).foldl (·.addChunk k) tr =
      (choicesAt k chunks).foldl (fun tr choice => tr.addChoice choice.toChoice) tr from h _
  induction chunks with
  | nil => exact fun tr => rfl
  | cons r chunks ih =>
      intro tr
      have hchunk : tr.addChunk k r.chunk = (r.choices.filter (·.index = k)).foldl
          (fun tr choice => tr.addChoice choice.toChoice) tr := by
        show ((r.choices.map (·.toChoice)).filter (·.index = k)).foldl Transcript.addChoice tr = _
        rw [List.filter_map, List.foldl_map]
        rfl
      have hchoices : choicesAt k (r :: chunks) =
          r.choices.filter (·.index = k) ++ choicesAt k chunks := by
        rw [choicesAt, List.flatMap_cons, List.filter_append]
        rfl
      rw [List.map_cons, List.foldl_cons, hchunk, ih, hchoices, List.foldl_append]

theorem foldl_addChoice : ∀ (choices : List StreamChoice) (tr : Transcript),
    let tr' := choices.foldl (fun tr choice => tr.addChoice choice.toChoice) tr
    tr'.content.toList =
        tr.content.toList ++ choices.flatMap (fun choice => choice.delta.getContentString.toList) ∧
      tr'.calls = (choices.flatMap (·.delta.toolCalls)).foldl addFragment tr.calls ∧
      tr'.finishReasons = tr.finishReasons ++ choices.flatMap (·.finishReason.toList)
  | [], tr => by simp
  | choice :: choices, tr => by
      obtain ⟨hcontent, hcalls, hfinish⟩ := foldl_addChoice choices (tr.addChoice choice.toChoice)
      refine ⟨?_, ?_, ?_⟩
      · rw [List.foldl_cons, hcontent, List.flatMap_cons, ← List.append_assoc,
          ← String.toList_append]
        rfl
      · rw [List.foldl_cons, hcalls, List.flatMap_cons, List.foldl_append]
        rfl
      · rw [List.foldl_cons, hfinish, List.flatMap_cons, ← List.append_assoc]
        rfl

/-! ## What is written -/

theorem candidatesAt_cons (r : GeminiChatResponse μ) (responses : List (GeminiChatResponse μ)) :
    candidatesAt k (r :: responses) =
      r.candidates.filter (·.index = k) ++ candidatesAt k responses := by
  rw [candidatesAt, List.flatMap_cons, List.filter_append]
  rfl

theorem handleGeminiFormat_eq (s : Handler μ) (data : String) :
    s.handleGeminiFormat env codec estimate data =
      { s with written := s.written ++
        ((codec.unmarshal data).bind (streamResponseOpenAI2Gemini env estimate)).toList } := by
  unfold Handler.handleGeminiFormat
  cases codec.unmarshal data <;> simp

variable (env codec estimate) in
/-- What is written if the stream ends here. -/
def Handler.ended (s : Handler μ) : List (GeminiChatResponse μ) :=
  (s.handleGeminiFormat env codec estimate s.lastStreamData).written

theorem ended_foldl (env : Env μ) (codec : Codec) (estimate : Int) : ∀ (payloads : List String) (s : Handler μ), "" ∉ payloads →
    (payloads.foldl (Handler.handleData env codec estimate) s).ended env codec estimate =
      s.ended env codec estimate ++
        (payloads.filterMap codec.unmarshal).filterMap (streamResponseOpenAI2Gemini env estimate)
  | [], s, _ => (List.append_nil _).symm
  | data :: payloads, s, hne => by
      have hdata : "" ≠ data := fun heq => hne (heq ▸ List.mem_cons_self)
      have hrest : "" ∉ payloads := fun hmem => hne (List.mem_cons_of_mem _ hmem)
      -- the chunk that is held is written now, and an empty one would write nothing
      have hhead : s.handleData env codec estimate data = ⟨data, s.ended env codec estimate⟩ := by
        unfold Handler.handleData
        rw [if_pos (Ne.symm hdata), Handler.ended]
        split
        · rfl
        · next hempty =>
            rw [not_not.1 hempty, handleGeminiFormat_eq, codec.unmarshal_empty]
            simp
      rw [List.foldl_cons, ended_foldl env codec estimate payloads _ hrest, hhead, Handler.ended,
        handleGeminiFormat_eq, List.filterMap_cons]
      show (s.ended env codec estimate ++ _) ++ _ = _
      cases codec.unmarshal data with
      | none => simp
      | some r => cases hr : streamResponseOpenAI2Gemini env estimate r <;> simp [hr]

/-- Though the handler runs one chunk behind, every chunk is converted once. -/
theorem oaiStreamHandler_eq {payloads : List String} (h : "" ∉ payloads) :
    oaiStreamHandler env codec estimate payloads =
      (payloads.filterMap codec.unmarshal).filterMap (streamResponseOpenAI2Gemini env estimate) := by
  have hall := ended_foldl env codec estimate payloads ⟨"", []⟩ h
  have hstart : Handler.ended env codec estimate ⟨"", []⟩ = [] := by
    rw [Handler.ended, handleGeminiFormat_eq, codec.unmarshal_empty]
    rfl
  rw [hstart, List.nil_append] at hall
  exact hall

/-- What is read of a choice is read of the events: the chunks that are left out say nothing. -/
theorem flatMap_candidatesAt (env : Env μ) (estimate k : Int) {β : Type} {g : GeminiChatCandidate μ → List β}
    (hg : ∀ choice : StreamChoice, choice.delta.getContentString = "" → choice.delta.toolCalls = [] →
      choice.finishReason = none → g (streamCandidate env choice) = []) (chunks : List StreamResponse) :
    (candidatesAt k (chunks.filterMap (streamResponseOpenAI2Gemini env estimate))).flatMap g =
      (choicesAt k chunks).flatMap fun choice => g (streamCandidate env choice) := by
  induction chunks with
  | nil => rfl
  | cons r chunks ih =>
      have hchoices : choicesAt k (r :: chunks) =
          r.choices.filter (·.index = k) ++ choicesAt k chunks := by
        rw [choicesAt, List.flatMap_cons, List.filter_append]
        rfl
      rw [hchoices, List.flatMap_append, ← ih, List.filterMap_cons]
      unfold streamResponseOpenAI2Gemini
      split
      · next hnone =>
          split at hnone
          · next hskip =>
              simp only [hasContent, hasFinishReason, Bool.and_eq_true, Bool.not_eq_true',
                List.any_eq_false] at hskip
              have hnothing : (r.choices.filter (·.index = k)).flatMap
                  (fun choice => g (streamCandidate env choice)) = [] := by
                refine List.flatMap_eq_nil_iff.2 fun choice hchoice => ?_
                have hmem := (List.mem_filter.1 hchoice).1
                have hcontent := hskip.1 choice hmem
                have hfinish := hskip.2 choice hmem
                simp only [ne_eq, Bool.or_eq_true, decide_eq_true_eq, not_or, not_not] at hcontent
                exact hg choice hcontent.1 hcontent.2 (by simpa using hfinish)
              rw [hnothing, List.nil_append]
          · cases hnone
      · next response hsome =>
          split at hsome
          · cases hsome
          · cases hsome
            rw [candidatesAt_cons, List.flatMap_append, List.filter_map, List.flatMap_map]
            rfl

/-! ## What is read -/

@[simp] theorem filterMap_text?_callPart (calls : List ToolCallResponse) :
    (calls.map (callPart env)).filterMap (·.text?) = [] := by
  simp [List.filterMap_eq_nil_iff, callPart, GeminiPart.text?]

@[simp] theorem filterMap_call?_callPart (calls : List ToolCallResponse) :
    (calls.map (callPart env)).filterMap (·.call?) =
      calls.map fun call => (call.name, args env call.arguments) := by
  simp [List.filterMap_map, callPart, GeminiPart.call?, Function.comp_def]

@[simp] theorem filterMap_call?_textParts (s : String) :
    (textParts s : List (GeminiPart μ)).filterMap (·.call?) = [] := by
  unfold textParts
  split <;> rfl

theorem flatMap_textParts (s : String) :
    ((textParts s : List (GeminiPart μ)).filterMap (·.text?)).flatMap String.toList = s.toList := by
  unfold textParts
  split
  · exact List.append_nil _
  · next h => rw [not_not.1 h]; rfl

section

variable {chunks : List StreamResponse}

theorem text_read_stream : (read k
    (chunks.filterMap (streamResponseOpenAI2Gemini env estimate))).text.toList =
      (choicesAt k chunks).flatMap fun choice =>
        if choice.givesCalls then [] else choice.delta.getContentString.toList := by
  have hread := flatMap_candidatesAt env estimate k
    (g := fun c => (c.parts.filterMap (·.text?)).flatMap String.toList) (fun choice hcontent hcalls _ => by
      simp only [streamCandidate, hcontent, hcalls, List.map_nil]
      split <;> rfl) chunks
  rw [read, toList_join, List.filterMap_flatMap, List.flatMap_assoc, hread]
  refine List.flatMap_congr fun choice _ => ?_
  simp only [streamCandidate]
  split
  · rw [filterMap_text?_callPart]
    rfl
  · exact flatMap_textParts _

theorem calls_read_stream : (read k
    (chunks.filterMap (streamResponseOpenAI2Gemini env estimate))).calls =
      (fragmentsAt k chunks).map fun t => (t.name, args env t.arguments) := by
  have hread := flatMap_candidatesAt env estimate k
    (g := fun c => c.parts.filterMap (·.call?)) (fun choice hcontent hcalls _ => by
      simp only [streamCandidate, hcontent, hcalls, List.map_nil]
      split <;> rfl) chunks
  show ((candidatesAt k _).flatMap (·.parts)).filterMap (·.call?) = _
  rw [List.filterMap_flatMap, hread, fragmentsAt, List.map_flatMap]
  refine List.flatMap_congr fun choice _ => ?_
  simp only [streamCandidate]
  split
  · exact filterMap_call?_callPart _
  · next hgives =>
      have hnil : choice.delta.toolCalls = [] := by
        by_contra hne
        exact hgives (by simp [StreamChoice.givesCalls, hne])
      rw [filterMap_call?_textParts, hnil]
      rfl

theorem finishReason_read_stream : (read k
    (chunks.filterMap (streamResponseOpenAI2Gemini env estimate))).finishReason =
      ((choicesAt k chunks).flatMap (·.finishReason.toList)).getLast?.map geminiFinishReason := by
  have hread := flatMap_candidatesAt env estimate k
    (g := fun c => c.finishReason.toList) (fun choice _ _ hfinish => by
      simp [streamCandidate, hfinish]) chunks
  show ((candidatesAt k _).filterMap (·.finishReason)).getLast? = _
  rw [List.filterMap_eq_flatMap_toList, hread, ← List.getLast?_map, List.map_flatMap]
  refine congrArg List.getLast? (List.flatMap_congr fun choice _ => ?_)
  cases hfinish : choice.finishReason <;> simp [streamCandidate, hfinish]

end

theorem filter_index_eq {l : List TextChoice} {c : TextChoice} (hc : c ∈ l)
    (hnodup : (l.map (·.index)).Nodup) : l.filter (·.index = c.index) = [c] := by
  induction l with
  | nil => cases hc
  | cons d l ih =>
      rw [List.map_cons, List.nodup_cons] at hnodup
      obtain heq | hmem := List.mem_cons.1 hc
      · subst heq
        have hnone : l.filter (·.index = c.index) = [] := List.filter_eq_nil_iff.2 fun e he heq =>
          hnodup.1 (of_decide_eq_true heq ▸ List.mem_map_of_mem he)
        rw [List.filter_cons_of_pos (by simp), hnone]
      · have hne : ¬ d.index = c.index := fun heq => hnodup.1 (heq ▸ List.mem_map_of_mem hmem)
        rw [List.filter_cons_of_neg (by simpa using hne), ih hmem hnodup.2]

section

variable {r : TextResponse} {c : TextChoice}

/-- What is read of the whole answer. -/
theorem read_whole (env : Env μ) (hc : c ∈ r.choices) (hnodup : (r.choices.map (·.index)).Nodup) :
    (read c.index [responseOpenAI2Gemini env r]).text.toList =
        (if c.message.toolCalls ≠ [] then [] else c.message.content.stringContent.toList) ∧
      (read c.index [responseOpenAI2Gemini env r]).calls =
        c.message.toolCalls.map (fun call => (call.name, args env call.arguments)) ∧
      (read c.index [responseOpenAI2Gemini env r]).finishReason =
        some (geminiFinishReason c.finishReason) := by
  have hcandidates : candidatesAt c.index [responseOpenAI2Gemini env r] = [candidateOf env c] := by
    have hfilter : ((r.choices.map (candidateOf env)).filter (·.index = c.index)) =
        (r.choices.filter (·.index = c.index)).map (candidateOf env) := by
      rw [List.filter_map]
      rfl
    rw [candidatesAt_cons]
    show (r.choices.map (candidateOf env)).filter (·.index = c.index) ++ [] = _
    rw [List.append_nil, hfilter, filter_index_eq hc hnodup, List.map_singleton]
  simp only [read, hcandidates, List.flatMap_singleton, toList_join]
  refine ⟨?_, ?_, rfl⟩
  · simp only [candidateOf]
    split
    · rw [filterMap_text?_callPart]
      rfl
    · exact flatMap_textParts _
  · simp only [candidateOf]
    split
    · exact filterMap_call?_callPart _
    · next hnil =>
        rw [filterMap_call?_textParts, not_not.1 hnil]
        rfl

end

theorem reading_eq_iff {x y : Reading μ} :
    x = y ↔ x.text.toList = y.text.toList ∧ x.calls = y.calls ∧ x.finishReason = y.finishReason := by
  cases x
  cases y
  simp [String.toList_inj]

theorem ne_empty_of_accepted {lines : List String} : "" ∉ Relay.Scanner.accepted lines := by
  induction lines with
  | nil => exact List.not_mem_nil
  | cons line lines ih =>
      rw [Relay.Scanner.accepted]
      cases hline : Relay.Scanner.classify line with
      | skip => exact ih
      | done => exact List.not_mem_nil
      | payload data =>
          have hdata : data ≠ "" := by
            unfold Relay.Scanner.classify at hline
            grind
          exact fun hmem => (List.mem_cons.1 hmem).elim (fun heq => hdata heq.symm) ih

/-! ## Agreement -/

theorem texts_agree_iff (choices : List StreamChoice) (calls : List ToolCallResponse) :
    (choices.flatMap fun choice =>
        if choice.givesCalls then [] else choice.delta.getContentString.toList) =
      (if calls ≠ [] then []
        else choices.flatMap fun choice => choice.delta.getContentString.toList) ↔
    ∀ choice ∈ choices, choice.delta.getContentString ≠ "" →
      (choice.givesCalls = true ↔ calls ≠ []) := by
  split
  · next hcalls =>
      rw [List.flatMap_eq_nil_iff]
      refine forall_congr' fun choice => forall_congr' fun _ => ?_
      cases choice.givesCalls <;> simp [hcalls]
  · next hcalls =>
      have hle : ∀ choice ∈ choices,
          (if choice.givesCalls then [] else choice.delta.getContentString.toList).length ≤
            choice.delta.getContentString.toList.length := fun choice _ => by
        split
        · exact Nat.zero_le _
        · exact Nat.le_refl _
      rw [Pieces.flatMap_eq_flatMap_iff hle]
      refine forall_congr' fun choice => forall_congr' fun _ => ?_
      rw [not_not.1 hcalls]
      cases choice.givesCalls with
      | true =>
          rw [if_pos rfl, eq_comm (a := []), toList_eq_nil_iff]
          simp
      | false => simp

theorem calls_agree_iff {frs calls : List ToolCallResponse}
    (h : (frs.foldl addFragment []).map (fun call => (call.2.name, call.2.arguments)) =
      calls.map fun call => (call.name, call.arguments)) :
    frs.map (fun t => (t.name, args env t.arguments)) =
        calls.map (fun call => (call.name, args env call.arguments)) ↔
      (frs.map fun t => t.index.getD 0).Nodup := by
  constructor
  · intro heq
    have hlength := congrArg List.length h
    have hlength' := congrArg List.length heq
    simp only [List.length_map] at hlength hlength'
    exact nodup_of_length_foldl_addFragment frs [] List.nodup_nil
      (by rw [hlength, ← hlength', List.length_nil, Nat.zero_add])
  · intro hnodup
    rw [foldl_addFragment_of_nodup frs [] hnodup, List.nil_append, List.map_map] at h
    have hmap := congrArg (List.map fun x => (x.1, args env x.2)) h
    rw [List.map_map, List.map_map] at hmap
    exact hmap

/-- A chunk with a call, and one that ends the choice. -/
def callThenEnd : Codec where
  unmarshal data :=
    if data = "call" then
      some ⟨"", "", [⟨⟨0, ⟨"", none, none, none, [⟨some 0, "1", "f", "x"⟩]⟩, none⟩, false⟩], none⟩
    else if data = "end" then
      some ⟨"", "", [⟨⟨0, ⟨"", none, none, none, []⟩, some "tool_calls"⟩, false⟩], none⟩
    else none
  unmarshal_empty := rfl

def calledOnce : TextResponse :=
  ⟨"", "", [⟨0, ⟨.null, "", [⟨none, "1", "f", "x"⟩]⟩, "tool_calls"⟩], ⟨0, 0, 0, 0, 0, 0⟩⟩

end DazeApi.Convert.OpenAI2Gemini
