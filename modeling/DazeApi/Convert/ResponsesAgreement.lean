import DazeApi.Convert.ResponsesScan
import Mathlib.Algebra.BigOperators.Intervals

/-!
# When the chat stream agrees with the response

The stream has the joined text deltas and the calls that came before them
(`streamed_describes`); the response has the output texts in its own order, or other texts
when there are none, and its calls only without a text.  `streamed_agrees_iff` says for which
responses and orders of events the two are the same.
-/

namespace DazeApi.Convert.Responses

open DazeApi.Relay

/-! ## The texts of a response -/

/-- A text that the stream has. -/
def isOutputText (out : ResponsesOutput) (c : ResponsesOutputContent) : Bool :=
  out.type = "message" && c.type = "output_text"

theorem outputText_eq (out : ResponsesOutput) :
    outputText out = Text.concat (out.content.map fun c =>
      if isOutputText out c then c.text else "") := by
  rw [outputText]
  split
  next h =>
    rw [Text.concat_map_filter]
    simp [isOutputText, h]
  next h =>
    refine (Text.concat_eq_empty_iff.2 fun p hp => ?_).symm
    obtain ⟨c, _, rfl⟩ := List.mem_map.1 hp
    simp [isOutputText, h]

theorem length_outputText_le (out : ResponsesOutput) :
    (outputText out).length ≤ (anyText out).length := by
  rw [outputText_eq, anyText]
  refine Text.length_concat_map_le fun c _ => ?_
  split
  next => exact Nat.le_refl _
  next => simp

/-- The stream has all the texts of an item. -/
theorem outputText_eq_anyText {out : ResponsesOutput}
    (h : ∀ c ∈ out.content, c.text ≠ "" → isOutputText out c = true) :
    outputText out = anyText out := by
  rw [outputText_eq, anyText]
  refine congrArg Text.concat (List.map_congr_left fun c hc => ?_)
  by_cases htext : c.text = ""
  · rw [htext, ite_self]
  · rw [if_pos (h c hc htext)]

theorem isOutputText_of_length {out : ResponsesOutput}
    (h : (outputText out).length = (anyText out).length) :
    ∀ c ∈ out.content, c.text ≠ "" → isOutputText out c = true := by
  rw [outputText_eq, anyText] at h
  intro c hc htext
  have hlen := Text.length_eq_of_length_concat (fun c _ => by
    split
    next => exact Nat.le_refl _
    next => simp) h c hc
  by_contra hnot
  rw [if_neg hnot] at hlen
  exact htext (String.length_eq_zero_iff.1 hlen.symm)

/-- The role of an item lets its text through. -/
def isAssistant (out : ResponsesOutput) : Bool := out.role = "" || out.role = "assistant"

theorem assistantText_eq (out : ResponsesOutput) :
    assistantText out = if isAssistant out then outputText out else "" := by
  rw [assistantText, outputText]
  by_cases htype : out.type = "message"
  · by_cases hrole : isAssistant out = true
    · have hrole' : ¬ (out.role ≠ "" ∧ out.role ≠ "assistant") := by
        simp only [isAssistant, Bool.or_eq_true, decide_eq_true_eq] at hrole
        tauto
      rw [if_neg (not_not.2 htype), if_neg hrole', if_pos hrole, if_pos htype]
    · have hrole' : out.role ≠ "" ∧ out.role ≠ "assistant" := by
        simpa [isAssistant] using hrole
      rw [if_neg (not_not.2 htype), if_pos hrole', if_neg hrole]
  · rw [if_pos htype, if_neg htype, ite_self]

/-! ## The texts of the steps -/

section

variable {resp : OpenAIResponsesResponse} {steps : List Step}

theorem textOf_cons (st : Step) (steps : List Step) :
    textOf (st :: steps) = textDelta st ++ textOf steps := by
  rw [textOf, List.map_cons, Text.concat_cons]
  rfl

/-- The steps of an item have its text. -/
theorem Track.textOf {out : ResponsesOutput} (h : Track out (steps.map (·.piece))) :
    textOf steps = outputText out := by
  have hpieces : ∀ {ps : List Piece}, steps.map (·.piece) = ps →
      Responses.textOf steps = Text.concat (ps.map fun p => textDelta ⟨0, out, p⟩) := by
    rintro ps rfl
    rw [Responses.textOf, List.map_map]
    rfl
  rw [Track] at h
  split at h
  next hcall =>
    obtain ⟨args, deltas, heq, _⟩ := h
    have hnot : ¬ out.type = "message" := by
      have htype : out.type = "function_call" := by simpa [isCall] using hcall
      rw [htype]
      decide
    rw [hpieces heq, outputText, if_neg hnot]
    refine Text.concat_eq_empty_iff.2 fun p hp => ?_
    simp only [List.map_cons, List.map_append, List.map_map, List.mem_cons, List.mem_append,
      List.mem_map, List.map_nil, List.not_mem_nil, or_false] at hp
    rcases hp with rfl | ⟨d, _, rfl⟩ | rfl <;> rfl
  next =>
    split at h
    next hmessage =>
      obtain ⟨args, deltas, heq, htext⟩ := h
      rw [hpieces heq, List.map_cons, List.map_append, List.map_map, Text.concat_cons,
        Text.concat_append, ← htext]
      have hmap : (fun p => textDelta ⟨0, out, p⟩) ∘ Piece.text = id := rfl
      rw [hmap, List.map_id]
      simp [textDelta]
    next hnot =>
      obtain ⟨args, heq⟩ := h
      rw [hpieces heq, outputText, if_neg hnot]
      rfl

/-- The texts at the places add up to the text of the steps. -/
theorem length_textOf {n : Nat} (h : ∀ st ∈ steps, st.pos < n) :
    (textOf steps).length =
      ∑ pos ∈ Finset.range n, (textOf (steps.filter (·.pos = pos))).length := by
  induction steps with
  | nil => simp [textOf]
  | cons st steps ih =>
      rw [List.forall_mem_cons] at h
      have hfilter : ∀ pos, (textOf ((st :: steps).filter (·.pos = pos))).length =
          (if st.pos = pos then (textDelta st).length else 0) +
            (textOf (steps.filter (·.pos = pos))).length := by
        intro pos
        rw [List.filter_cons]
        by_cases hpos : st.pos = pos
        · simp [hpos, textOf_cons]
        · simp [hpos]
      rw [Finset.sum_congr rfl fun pos _ => hfilter pos, Finset.sum_add_distrib,
        Finset.sum_ite_eq, if_pos (Finset.mem_range.2 h.1), textOf_cons, String.length_append,
        ih h.2]

theorem sum_range_getElem? {α : Type} (f : α → Nat) (l : List α) :
    ∑ pos ∈ Finset.range l.length, (l[pos]?.map f).getD 0 = (l.map f).sum := by
  induction l with
  | nil => rfl
  | cons x l ih =>
      rw [List.length_cons, Finset.sum_range_succ', List.map_cons, List.sum_cons, ← ih]
      simp [Nat.add_comm]

/-- The text deltas are as long together as the output texts. -/
theorem Describes.length_textOf (h : Describes resp steps) :
    (textOf steps).length = (Text.concat (resp.output.map outputText)).length := by
  have hpos : ∀ st ∈ steps, st.pos < resp.output.length := fun st hst =>
    (List.getElem?_eq_some_iff.1 (h.listed st hst)).1
  have hlen : ∀ parts : List String,
      (Text.concat parts).length = (parts.map String.length).sum := by
    intro parts
    induction parts with
    | nil => rfl
    | cons p ps ih => rw [Text.concat_cons, String.length_append, ih, List.map_cons, List.sum_cons]
  rw [Responses.length_textOf hpos, hlen, List.map_map, ← sum_range_getElem?]
  refine Finset.sum_congr rfl fun pos hmem => ?_
  have hlt := Finset.mem_range.1 hmem
  have hout := List.getElem?_eq_getElem hlt
  rw [hout, Option.map_some, Option.getD_some, Function.comp_apply,
    (h.track pos _ hout).textOf]

end

/-! ## The text of the stream and the text of the response -/

/-- The texts of a response are those that are streamed: with assistant text, no text of
another role, and without, no text but the output texts of messages. -/
def Texts (resp : OpenAIResponsesResponse) : Prop :=
  if ∃ out ∈ resp.output, isAssistant out = true ∧ outputText out ≠ "" then
    ∀ out ∈ resp.output, isAssistant out = false → outputText out = ""
  else
    ∀ out ∈ resp.output, ∀ c ∈ out.content, c.text ≠ "" → isOutputText out c = true

section

variable {resp : OpenAIResponsesResponse} {steps : List Step} {text : String}

theorem exists_assistantText_iff :
    Text.concat (resp.output.map assistantText) ≠ "" ↔
      ∃ out ∈ resp.output, isAssistant out = true ∧ outputText out ≠ "" := by
  rw [ne_eq, Text.concat_eq_empty_iff]
  simp only [List.forall_mem_map, assistantText_eq]
  push Not
  refine exists_congr fun out => and_congr_right fun _ => ?_
  by_cases h : isAssistant out = true <;> simp [h]

theorem length_assistantText_le (out : ResponsesOutput) :
    (assistantText out).length ≤ (outputText out).length := by
  rw [assistantText_eq]
  split
  next => exact Nat.le_refl _
  next => simp

theorem assistantText_eq_outputText {out : ResponsesOutput}
    (h : isAssistant out = false → outputText out = "") : assistantText out = outputText out := by
  rw [assistantText_eq]
  split
  next => rfl
  next hrole => exact (h (by simpa using hrole)).symm

theorem outputText_eq_empty_of_length {out : ResponsesOutput}
    (h : (assistantText out).length = (outputText out).length) (hrole : isAssistant out = false) :
    outputText out = "" := by
  rw [assistantText_eq, hrole] at h
  exact String.length_eq_zero_iff.1 h.symm

/-- Texts no longer one by one are the same together when they are as long. -/
theorem concat_eq_of_length {f g : ResponsesOutput → String} {p : ResponsesOutput → Prop}
    {l : List ResponsesOutput} (hle : ∀ out ∈ l, (f out).length ≤ (g out).length)
    (hp : ∀ out ∈ l, (f out).length = (g out).length → p out)
    (heq : ∀ out ∈ l, p out → f out = g out)
    (hlen : (Text.concat (l.map f)).length = (Text.concat (l.map g)).length) :
    Text.concat (l.map f) = Text.concat (l.map g) ∧ ∀ out ∈ l, p out := by
  have hone := Text.length_eq_of_length_concat hle hlen
  have hall : ∀ out ∈ l, p out := fun out hout => hp out hout (hone out hout)
  exact ⟨congrArg Text.concat (List.map_congr_left fun out hout => heq out hout (hall out hout)),
    hall⟩

/-- A response has the texts of its stream as soon as they are as long. -/
theorem extractOutputText_of_length
    (h : (Text.concat (resp.output.map outputText)).length = (extractOutputText resp).length) :
    Text.concat (resp.output.map outputText) = extractOutputText resp ∧ Texts resp := by
  rw [Texts]
  by_cases hassistant : Text.concat (resp.output.map assistantText) = ""
  · rw [extractOutputText, if_neg (not_not.2 hassistant)] at h ⊢
    rw [if_neg fun hex => exists_assistantText_iff.2 hex hassistant]
    exact concat_eq_of_length (fun out _ => length_outputText_le out)
      (fun out _ => isOutputText_of_length) (fun out _ => outputText_eq_anyText) h
  · rw [extractOutputText, if_pos hassistant] at h ⊢
    rw [if_pos (exists_assistantText_iff.1 hassistant)]
    obtain ⟨heq, hall⟩ := concat_eq_of_length
      (fun out (_ : out ∈ resp.output) => length_assistantText_le out)
      (fun out _ => outputText_eq_empty_of_length) (fun out _ => assistantText_eq_outputText) h.symm
    exact ⟨heq.symm, hall⟩

theorem extractOutputText_of_texts (h : Texts resp) :
    Text.concat (resp.output.map outputText) = extractOutputText resp := by
  rw [Texts] at h
  by_cases hassistant : Text.concat (resp.output.map assistantText) = ""
  · rw [if_neg fun hex => exists_assistantText_iff.2 hex hassistant] at h
    rw [extractOutputText, if_neg (not_not.2 hassistant)]
    exact congrArg Text.concat
      (List.map_congr_left fun out hout => outputText_eq_anyText (h out hout))
  · rw [if_pos (exists_assistantText_iff.1 hassistant)] at h
    rw [extractOutputText, if_pos hassistant]
    exact congrArg Text.concat
      (List.map_congr_left fun out hout => (assistantText_eq_outputText (h out hout)).symm)

/-- The stream has the text of the response when the deltas come in its order and its texts
are streamed. -/
theorem textOf_eq_iff (h : Describes resp steps) :
    textOf steps = extractOutputText resp ↔
      textOf steps = Text.concat (resp.output.map outputText) ∧ Texts resp := by
  constructor
  · intro heq
    have hlen := h.length_textOf
    rw [heq] at hlen
    obtain ⟨hconcat, htexts⟩ := extractOutputText_of_length hlen.symm
    exact ⟨heq.trans hconcat.symm, htexts⟩
  · rintro ⟨horder, htexts⟩
    exact horder.trans (extractOutputText_of_texts htexts)

/-! ## The calls of the stream and the calls of the response -/

/-- A call as a client has it. -/
def callOf (x : ResponsesOutput) : ToolCall :=
  ⟨callId x.toOutputItem, callName x.toOutputItem, x.arguments⟩

theorem map_snd_numbered : ∀ (os : OpenCalls) (n : Nat),
    (numbered n os).map Prod.snd =
      os.map fun o => ⟨callId o.1.toOutputItem, callName o.1.toOutputItem, o.2⟩
  | [], _ => rfl
  | o :: os, n => by rw [numbered, List.map_cons, map_snd_numbered os (n + 1), List.map_cons]

/-- The calls of a stream without text. -/
theorem calls_of_silent (h : Describes resp steps) :
    (numbered 0 (opens steps)).map Prod.snd = (addedCalls steps).map callOf := by
  rw [map_snd_numbered, ← map_fst_opens, List.map_map]
  refine List.map_congr_left fun o ho => ?_
  rw [Function.comp_apply, callOf, snd_of_mem_opens h ho]

/-- Every call of the response is added by some step. -/
theorem Describes.mem_addedCalls_iff (h : Describes resp steps) {x : ResponsesOutput} :
    x ∈ addedCalls steps ↔ x ∈ resp.output ∧ isOpen x = true := by
  constructor
  · intro hx
    have h' : Describes resp (steps ++ []) := by rwa [List.append_nil]
    obtain ⟨hopen, pos, hpos⟩ := h'.exists_pos hx
    exact ⟨List.mem_of_getElem? hpos, hopen⟩
  · rintro ⟨hx, hopen⟩
    obtain ⟨pos, hpos⟩ := List.mem_iff_getElem?.1 hx
    obtain ⟨args, deltas, heq, _⟩ := (h.track pos x hpos).eq_of_isCall (isOpen_iff.1 hopen).1
    have hmem : Piece.added args ∈ piecesAt pos steps := heq ▸ List.mem_cons_self
    obtain ⟨st, hst, hpiece⟩ := List.mem_map.1 hmem
    obtain ⟨hst, hat⟩ := List.mem_filter.1 hst
    have hlisted := h.listed st hst
    rw [of_decide_eq_true hat, hpos, Option.some.injEq] at hlisted
    exact mem_addedCalls.2 ⟨hopen, st, hst, hlisted.symm, args, hpiece⟩

theorem eq_of_map_eq {α β : Type} {f : α → β} :
    ∀ {l l' : List α}, (∀ x ∈ l, ∀ y ∈ l', f x = f y → x = y) → l.map f = l'.map f → l = l'
  | [], [], _, _ => rfl
  | [], _ :: _, _, h => by cases h
  | _ :: _, [], _, h => by cases h
  | x :: l, y :: l', hf, h => by
      rw [List.map_cons, List.map_cons, List.cons.injEq] at h
      rw [hf x List.mem_cons_self y List.mem_cons_self h.1,
        eq_of_map_eq (fun x hx y hy => hf x (List.mem_cons_of_mem _ hx) y
          (List.mem_cons_of_mem _ hy)) h.2]

/-- The calls of a response that has no text. -/
def namedCalls (resp : OpenAIResponsesResponse) : List ResponsesOutput :=
  resp.output.filter fun out => isCall out.toOutputItem && callName out.toOutputItem ≠ ""

theorem mem_namedCalls {x : ResponsesOutput} :
    x ∈ namedCalls resp ↔
      x ∈ resp.output ∧ isCall x.toOutputItem = true ∧ callName x.toOutputItem ≠ "" := by
  simp [namedCalls]

/-- The response names the calls that the stream can have, and no others. -/
def Named (resp : OpenAIResponsesResponse) : Prop :=
  ∀ out ∈ resp.output, isCall out.toOutputItem = true →
    (callId out.toOutputItem = "" ↔ callName out.toOutputItem = "")

/-- The calls are the same when those with an id are those with a name and are added in the
order of the response. -/
theorem map_callOf_eq_iff (h : Describes resp steps) :
    (addedCalls steps).map callOf = (namedCalls resp).map callOf ↔
      Named resp ∧ addedCalls steps = resp.output.filter isOpen := by
  have hfilter : Named resp → namedCalls resp = resp.output.filter isOpen := by
    intro hnamed
    refine List.filter_congr fun out hout => ?_
    rw [isOpen]
    cases hcall : isCall out.toOutputItem with
    | false => rw [Bool.false_and, Bool.false_and]
    | true => simp [hnamed out hout hcall]
  constructor
  · intro heq
    have hnamed : Named resp := by
      intro out hout hcall
      rw [← not_iff_not]
      constructor
      · intro hid
        have hmem : callOf out ∈ (namedCalls resp).map callOf :=
          heq ▸ List.mem_map_of_mem (h.mem_addedCalls_iff.2 ⟨hout, isOpen_iff.2 ⟨hcall, hid⟩⟩)
        obtain ⟨y, hy, hyout⟩ := List.mem_map.1 hmem
        rw [callOf, callOf, ToolCall.mk.injEq] at hyout
        exact hyout.2.1 ▸ (mem_namedCalls.1 hy).2.2
      · intro hname
        have hmem : callOf out ∈ (addedCalls steps).map callOf :=
          heq ▸ List.mem_map_of_mem (mem_namedCalls.2 ⟨hout, hcall, hname⟩)
        obtain ⟨y, hy, hyout⟩ := List.mem_map.1 hmem
        rw [callOf, callOf, ToolCall.mk.injEq] at hyout
        exact hyout.1 ▸ (isOpen_iff.1 (h.mem_addedCalls_iff.1 hy).2).2
    refine ⟨hnamed, ?_⟩
    rw [hfilter hnamed] at heq
    refine eq_of_map_eq (fun x hx y hy hxy => ?_) heq
    obtain ⟨hx, hxopen⟩ := h.mem_addedCalls_iff.1 hx
    obtain ⟨hy, hyopen⟩ := List.mem_filter.1 hy
    obtain ⟨i, hi⟩ := List.mem_iff_getElem?.1 hx
    obtain ⟨j, hj⟩ := List.mem_iff_getElem?.1 hy
    rw [callOf, callOf, ToolCall.mk.injEq] at hxy
    have hij := h.calls i j x y hi hj (isOpen_iff.1 hxopen).1 (isOpen_iff.1 hyopen).1 hxy.1
      (isOpen_iff.1 hxopen).2
    rw [hij, hj, Option.some.injEq] at hi
    exact hi.symm
  · rintro ⟨hnamed, heq⟩
    rw [heq, hfilter hnamed]

end

/-! ## The stream and the response -/

/-- The events and the response for which the two agree.  The text deltas come in the order
of the response, and its texts are those that are streamed.  Without text, the calls with an
id are those with a name and are added in the order of the response; with text, no call is
added before the first of it. -/
structure Fits (resp : OpenAIResponsesResponse) (steps : List Step) : Prop where
  order : textOf steps = Text.concat (resp.output.map outputText)
  texts : Texts resp
  calls : if textOf steps = "" then Named resp ∧ addedCalls steps = resp.output.filter isOpen
    else addedCalls (beforeText steps) = []

section

variable {resp : OpenAIResponsesResponse} {steps : List Step}

theorem content_convert (resp : OpenAIResponsesResponse) :
    (responsesResponseToChatCompletionsResponse resp).message.content.stringContent =
      extractOutputText resp := by
  rw [responsesResponseToChatCompletionsResponse]
  show (if (if extractOutputText resp = "" then toolCalls resp else []) = [] then
    extractOutputText resp else "") = extractOutputText resp
  by_cases htext : extractOutputText resp = ""
  · rw [htext, ite_self]
  · rw [if_neg htext, if_pos rfl]

theorem map_toolCalls (resp : OpenAIResponsesResponse) :
    (toolCalls resp).map (fun t => (⟨t.id, t.name, t.arguments⟩ : ToolCall)) =
      (namedCalls resp).map callOf := by
  rw [toolCalls, namedCalls, List.map_map]
  rfl

theorem calls_convert_of_silent (h : extractOutputText resp = "") :
    (responsesResponseToChatCompletionsResponse resp).message.toolCalls = toolCalls resp := by
  simp [responsesResponseToChatCompletionsResponse, h]

theorem calls_convert_of_spoken (h : extractOutputText resp ≠ "") :
    (responsesResponseToChatCompletionsResponse resp).message.toolCalls = [] := by
  simp [responsesResponseToChatCompletionsResponse, h]

theorem finishReason_convert (resp : OpenAIResponsesResponse) :
    (responsesResponseToChatCompletionsResponse resp).finishReason =
      if (responsesResponseToChatCompletionsResponse resp).message.toolCalls = [] then "stop"
      else "tool_calls" :=
  rfl

/-- The calls of the stream are those of the response. -/
theorem calls_eq_iff (h : Describes resp steps) (htext : textOf steps = extractOutputText resp) :
    (numbered 0 (opens (beforeText steps))).map Prod.snd =
        (responsesResponseToChatCompletionsResponse resp).message.toolCalls.map
          (fun t => ⟨t.id, t.name, t.arguments⟩) ↔
      if textOf steps = "" then Named resp ∧ addedCalls steps = resp.output.filter isOpen
      else addedCalls (beforeText steps) = [] := by
  by_cases hsilent : textOf steps = ""
  · rw [if_pos hsilent, beforeText_of_silent hsilent, calls_of_silent h,
      calls_convert_of_silent (htext ▸ hsilent), map_toolCalls, map_callOf_eq_iff h]
  · rw [if_neg hsilent, calls_convert_of_spoken (htext ▸ hsilent), List.map_nil, map_snd_numbered,
      List.map_eq_nil_iff, ← map_fst_opens, List.map_eq_nil_iff]

/-- With the same calls, the stream has the finish reason of the response. -/
theorem stopReason_eq (htext : textOf steps = extractOutputText resp)
    (hcalls : (numbered 0 (opens (beforeText steps))).map Prod.snd =
      (responsesResponseToChatCompletionsResponse resp).message.toolCalls.map
        (fun t => ⟨t.id, t.name, t.arguments⟩)) :
    stopReason (textOf steps) (opens (beforeText steps)) =
      (responsesResponseToChatCompletionsResponse resp).finishReason := by
  rw [map_snd_numbered] at hcalls
  have hlen := congrArg List.length hcalls
  rw [List.length_map, List.length_map] at hlen
  have hnil : opens (beforeText steps) = [] ↔
      (responsesResponseToChatCompletionsResponse resp).message.toolCalls = [] := by
    rw [← List.length_eq_zero_iff, hlen, List.length_eq_zero_iff]
  rw [stopReason, finishReason_convert]
  by_cases hsilent : textOf steps = ""
  · by_cases hempty : opens (beforeText steps) = []
    · rw [if_neg fun hand => hand.2 hempty, if_pos (hnil.1 hempty)]
    · rw [if_pos ⟨hsilent, hempty⟩, if_neg fun heq => hempty (hnil.2 heq)]
  · rw [if_neg fun hand => hsilent hand.1, if_pos (calls_convert_of_spoken (htext ▸ hsilent))]

theorem exists_of_mem_numbered : ∀ {os : OpenCalls} {n : Nat} {call : Int × ToolCall},
    call ∈ numbered n os → ∃ o ∈ os,
      call.2 = ⟨callId o.1.toOutputItem, callName o.1.toOutputItem, o.2⟩
  | o :: os, n, call, h => by
      rcases List.mem_cons.1 h with rfl | h
      · exact ⟨o, List.mem_cons_self, rfl⟩
      · obtain ⟨o', ho', heq⟩ := exists_of_mem_numbered h
        exact ⟨o', List.mem_cons_of_mem _ ho', heq⟩

/-- With the same calls, every call of the stream has its full arguments. -/
theorem arguments_eq (h : Describes resp steps)
    (hcalls : if textOf steps = "" then Named resp ∧ addedCalls steps = resp.output.filter isOpen
      else addedCalls (beforeText steps) = []) {call : Int × ToolCall}
    (hcall : call ∈ numbered 0 (opens (beforeText steps))) :
    ∃ out ∈ resp.output, isCall out.toOutputItem = true ∧ callId out.toOutputItem = call.2.id ∧
      call.2.arguments = out.arguments := by
  obtain ⟨o, ho, heq⟩ := exists_of_mem_numbered hcall
  by_cases hsilent : textOf steps = ""
  · rw [beforeText_of_silent hsilent] at ho
    have hadded : o.1 ∈ addedCalls steps := map_fst_opens steps ▸ List.mem_map_of_mem ho
    obtain ⟨hout, hopen⟩ := h.mem_addedCalls_iff.1 hadded
    exact ⟨o.1, hout, (isOpen_iff.1 hopen).1, by rw [heq], by rw [heq, snd_of_mem_opens h ho]⟩
  · rw [if_neg hsilent, ← map_fst_opens, List.map_eq_nil_iff] at hcalls
    rw [hcalls] at ho
    cases ho

/-- The chat stream of a response has the text, the calls and the finish reason of the
converted response exactly when the events fit. -/
theorem streamed_agrees_iff {io : ChatCodec} {items : List StreamItem} (hio : Connected io)
    (hd : Describes resp steps) (hs : Streams io steps items) (responseId model : String)
    (createAt : Int) (format : RelayFormat) (shouldIncludeUsage : Bool) :
    Agrees resp
        (streamed io format shouldIncludeUsage (ToChat.start responseId model createAt) items)
        (responsesResponseToChatCompletionsResponse resp) ↔
      Fits resp steps := by
  obtain ⟨hcontent, hcalls, hreasons⟩ :=
    streamed_describes hio hd hs responseId model createAt format shouldIncludeUsage
  constructor
  · intro h
    have htext : textOf steps = extractOutputText resp := by
      rw [← hcontent, h.content, content_convert]
    obtain ⟨horder, htexts⟩ := (textOf_eq_iff hd).1 htext
    exact ⟨horder, htexts, (calls_eq_iff hd htext).1 (hcalls ▸ h.calls)⟩
  · intro h
    have htext := (textOf_eq_iff hd).2 ⟨h.order, h.texts⟩
    have hsame := (calls_eq_iff hd htext).2 h.calls
    exact
      { content := by rw [hcontent, content_convert, htext]
        calls := by rw [hcalls, hsame]
        finishReasons := by rw [hreasons, stopReason_eq htext hsame]
        arguments := by
          intro call hcall
          exact arguments_eq hd h.calls (hcalls ▸ hcall) }

end

/-! ## A message and a call -/

def sampleMessage : ResponsesOutput :=
  ⟨⟨"message", "msg_1", "", "", ""⟩, "assistant", [⟨"output_text", "Hi"⟩]⟩

def sampleCall : ResponsesOutput :=
  ⟨⟨"function_call", "fc_1", "call_1", "f", "\x7b\x7d"⟩, "", []⟩

def sampleResponse : OpenAIResponsesResponse := ⟨[sampleMessage, sampleCall]⟩

def messageSteps : List Step :=
  [⟨0, sampleMessage, .added ""⟩, ⟨0, sampleMessage, .text "Hi"⟩, ⟨0, sampleMessage, .done⟩]

def callSteps : List Step :=
  [⟨1, sampleCall, .added ""⟩, ⟨1, sampleCall, .arguments "\x7b\x7d"⟩, ⟨1, sampleCall, .done⟩]

/-- The payload of an event. -/
def samplePayload (type fields : String) : String :=
  "\x7b\"type\":\"" ++ type ++ "\"" ++ fields ++ "\x7d"

def messagePayloads : List String :=
  [samplePayload "response.output_item.added"
      ",\"item\":\x7b\"type\":\"message\",\"id\":\"msg_1\",\"role\":\"assistant\",\"content\":[]\x7d",
    samplePayload "response.output_text.delta" ",\"item_id\":\"msg_1\",\"delta\":\"Hi\"",
    samplePayload "response.output_item.done"
      ",\"item\":\x7b\"type\":\"message\",\"id\":\"msg_1\",\"role\":\"assistant\"\x7d"]

def callPayloads : List String :=
  [samplePayload "response.output_item.added"
      (",\"item\":\x7b\"type\":\"function_call\",\"id\":\"fc_1\"," ++
        "\"call_id\":\"call_1\",\"name\":\"f\",\"arguments\":\"\"\x7d"),
    samplePayload "response.function_call_arguments.delta"
      ",\"item_id\":\"fc_1\",\"delta\":\"\x7b\x7d\"",
    samplePayload "response.output_item.done"
      (",\"item\":\x7b\"type\":\"function_call\",\"id\":\"fc_1\"," ++
        "\"call_id\":\"call_1\",\"name\":\"f\",\"arguments\":\"\x7b\x7d\"\x7d")]

def completedPayload : String := samplePayload "response.completed" ""

/-- A codec that knows the payloads of the sample. -/
def sampleCodec : ChatCodec where
  unmarshal payload :=
    ((messagePayloads ++ callPayloads ++ [completedPayload]).zip
      ((messageSteps ++ callSteps).map Step.event ++ [completed none])).lookup payload
  emit _ chunk := .ok ["data: " ++ chunk.id]
  finalUsage chunks := .ok (toString chunks.length)

theorem connected_sampleCodec : Connected sampleCodec := fun _ chunk => ⟨["data: " ++ chunk.id], rfl⟩

/-- The message first. -/
def messageFirst : List StreamItem :=
  (messagePayloads ++ callPayloads ++ [completedPayload]).map .data

/-- The call first. -/
def callFirst : List StreamItem :=
  (callPayloads ++ messagePayloads ++ [completedPayload]).map .data

theorem getElem?_sampleResponse {i : Nat} {x : ResponsesOutput}
    (h : sampleResponse.output[i]? = some x) :
    i = 0 ∧ x = sampleMessage ∨ i = 1 ∧ x = sampleCall := by
  match i, h with
  | 0, h => exact Or.inl ⟨rfl, (Option.some.inj h).symm⟩
  | 1, h => exact Or.inr ⟨rfl, (Option.some.inj h).symm⟩
  | i + 2, h => cases h

theorem describes_sample {steps : List Step}
    (hlisted : ∀ st ∈ steps, sampleResponse.output[st.pos]? = some st.item)
    (hmessage : piecesAt 0 steps = messageSteps.map (·.piece))
    (hcall : piecesAt 1 steps = callSteps.map (·.piece)) : Describes sampleResponse steps where
  listed := hlisted
  track := by
    intro pos out hout
    rcases getElem?_sampleResponse hout with ⟨rfl, rfl⟩ | ⟨rfl, rfl⟩
    · rw [hmessage]
      exact ⟨"", ["Hi"], rfl, rfl⟩
    · rw [hcall]
      exact ⟨"", ["\x7b\x7d"], rfl, rfl⟩
  calls := by
    intro i j x y hx hy hxcall hycall _ _
    rcases getElem?_sampleResponse hx with ⟨rfl, rfl⟩ | ⟨rfl, rfl⟩
    · cases hxcall
    · rcases getElem?_sampleResponse hy with ⟨rfl, rfl⟩ | ⟨rfl, rfl⟩
      · cases hycall
      · rfl
  ids := by
    intro i j x y hx hy hxcall hycall _ _
    rcases getElem?_sampleResponse hx with ⟨rfl, rfl⟩ | ⟨rfl, rfl⟩
    · cases hxcall
    · rcases getElem?_sampleResponse hy with ⟨rfl, rfl⟩ | ⟨rfl, rfl⟩
      · cases hycall
      · rfl

theorem describes_messageFirst : Describes sampleResponse (messageSteps ++ callSteps) :=
  describes_sample (by decide) rfl rfl

theorem describes_callFirst : Describes sampleResponse (callSteps ++ messageSteps) :=
  describes_sample (by decide) rfl rfl

theorem streams_messageFirst : Streams sampleCodec (messageSteps ++ callSteps) messageFirst :=
  ⟨none, by decide +kernel⟩

theorem streams_callFirst : Streams sampleCodec (callSteps ++ messageSteps) callFirst :=
  ⟨none, by decide +kernel⟩

theorem fits_messageFirst : Fits sampleResponse (messageSteps ++ callSteps) where
  order := rfl
  texts := by
    rw [Texts, if_pos ⟨sampleMessage, by simp [sampleResponse], by decide, by decide⟩]
    decide
  calls := rfl

/-- The message first: the text agrees, and the call is in neither. -/
theorem streamed_agrees_messageFirst :
    Agrees sampleResponse
      (streamed sampleCodec .openAI false (ToChat.start "resp_1" "gpt" 0) messageFirst)
      (responsesResponseToChatCompletionsResponse sampleResponse) :=
  (streamed_agrees_iff connected_sampleCodec describes_messageFirst streams_messageFirst "resp_1" "gpt" 0
    .openAI false).2 fits_messageFirst

/-- The call first: the stream has it, and the response with its text has not. -/
theorem not_streamed_agrees_callFirst :
    Describes sampleResponse (callSteps ++ messageSteps) ∧
      Streams sampleCodec (callSteps ++ messageSteps) callFirst ∧
        ¬ Agrees sampleResponse
          (streamed sampleCodec .openAI false (ToChat.start "resp_1" "gpt" 0) callFirst)
          (responsesResponseToChatCompletionsResponse sampleResponse) := by
  refine ⟨describes_callFirst, streams_callFirst, fun h => ?_⟩
  have hcalls := (streamed_describes connected_sampleCodec describes_callFirst streams_callFirst
    "resp_1" "gpt" 0 .openAI false).2.1
  have hnone : (responsesResponseToChatCompletionsResponse sampleResponse).message.toolCalls = [] :=
    rfl
  have hsome : opens (beforeText (callSteps ++ messageSteps)) = [(sampleCall, "\x7b\x7d")] := rfl
  have hagree := h.calls
  rw [hcalls, hnone, hsome] at hagree
  cases hagree

end DazeApi.Convert.Responses
