import DazeApi.Convert.Gemini

/-!
# What the loops over the parts do

Both loops of the Gemini converters take each part for a medium, a function call, a thought
or a text, in this order.  `scan_spec` and `scanned_spec` say what a whole loop leaves: in a
stream the texts of a chunk with a thought are all reasoning, and only images are shown;
without a stream all media are, and of several thoughts the last is left.
-/

namespace DazeApi.Convert.Gemini

/-! ## Classes of parts -/

/-- The part is an image. -/
def Part.isImage (part : Part) : Bool :=
  part.inlineData.any fun media => Text.hasPrefix media.mimeType "image"

/-- The part is taken for a function call. -/
def Part.calls (part : Part) : Bool := part.inlineData.isNone && part.functionCall.isSome

/-- The part is taken for a thought. -/
def Part.thinks (part : Part) : Bool :=
  part.inlineData.isNone && part.functionCall.isNone && part.thought

/-- The part is taken for code, the output of code, or a text that is no line break. -/
def Part.says (part : Part) : Bool :=
  part.inlineData.isNone && part.functionCall.isNone && !part.thought &&
    (part.executableCode.isSome || part.codeExecutionResult.isSome || part.text ≠ "\n")

/-- The part has a text in a stream. -/
def Part.streamed (part : Part) : Bool := part.isImage || part.thinks || part.says

/-- The part has a text in the content of an answer without a stream. -/
def Part.answered (part : Part) : Bool := part.inlineData.isSome || part.says

/-- The tool call that is made of a part. -/
def Part.call? (part : Part) : Option ToolCallResponse :=
  if part.inlineData.isNone then part.functionCall.bind getResponseToolCall else none

section

variable {part : Part} {parts : List Part}

theorem Part.streamed_of_thinks (h : part.thinks = true) : part.streamed = true := by
  simp [Part.streamed, h]

theorem Part.not_answered_of_thinks (h : part.thinks = true) : part.answered = false := by
  simp only [Part.thinks, Bool.and_eq_true, Option.isNone_iff_eq_none] at h
  simp [Part.answered, Part.says, h.1.1, h.1.2, h.2]

/-- Apart from media that are no image, the two show the same texts. -/
theorem Part.streamed_eq_answered (hmedia : part.inlineData.isSome = true → part.isImage = true)
    (hthinks : part.thinks = false) : part.streamed = part.answered := by
  rw [Part.streamed, Part.answered, hthinks, Bool.or_false]
  cases hdata : part.inlineData with
  | none => simp [Part.isImage, hdata]
  | some media => simp [hmedia (by rw [hdata]; rfl)]

theorem Part.isImage_of_streamed (hs : part.streamed = true)
    (hmedia : part.inlineData.isSome = true) : part.isImage = true := by
  obtain ⟨media, hdata⟩ := Option.isSome_iff_exists.1 hmedia
  simpa [Part.streamed, Part.thinks, Part.says, hdata] using hs

/-- Each part is of one class. -/
theorem Part.class_cases {motive : Part → Prop}
    (image : ∀ part media, part.inlineData = some media →
      Text.hasPrefix media.mimeType "image" = true → motive part)
    (media : ∀ part media, part.inlineData = some media →
      Text.hasPrefix media.mimeType "image" = false → motive part)
    (call : ∀ part call, part.inlineData = none → part.functionCall = some call → motive part)
    (thought : ∀ part, part.inlineData = none → part.functionCall = none → part.thought = true →
      motive part)
    (code : ∀ part code, part.inlineData = none → part.functionCall = none →
      part.thought = false → part.executableCode = some code → motive part)
    (result : ∀ part result, part.inlineData = none → part.functionCall = none →
      part.thought = false → part.executableCode = none →
      part.codeExecutionResult = some result → motive part)
    (text : ∀ part, part.inlineData = none → part.functionCall = none → part.thought = false →
      part.executableCode = none → part.codeExecutionResult = none → motive part)
    (part : Part) : motive part := by
  cases hdata : part.inlineData with
  | some m =>
      cases himage : Text.hasPrefix m.mimeType "image" with
      | true => exact image part m hdata himage
      | false => exact media part m hdata himage
  | none =>
      cases hcall : part.functionCall with
      | some c => exact call part c hdata hcall
      | none =>
          cases hthought : part.thought with
          | true => exact thought part hdata hcall hthought
          | false =>
              cases hcode : part.executableCode with
              | some c => exact code part c hdata hcall hthought hcode
              | none =>
                  cases hresult : part.codeExecutionResult with
                  | some r => exact result part r hdata hcall hthought hcode hresult
                  | none => exact text part hdata hcall hthought hcode hresult

end

/-! ## One part -/

/-- A tool call without its index. -/
def bare (tool : ToolCallResponse) : ToolCallResponse := { tool with index := none }

@[simp] theorem bare_withIndex (tool : ToolCallResponse) (i : Option Int) :
    bare { tool with index := i } = bare tool := rfl

theorem bare_of_getResponseToolCall {call : FunctionCall} {tool : ToolCallResponse}
    (h : getResponseToolCall call = some tool) : bare tool = tool := by
  obtain ⟨args, -, rfl⟩ := Option.map_eq_some_iff.1 h
  rfl

/-- What a chunk makes of a part. -/
theorem Scan.addPart_spec (s : Scan) (part : Part) :
    (s.addPart part).texts.map (·.part) =
        s.texts.map (·.part) ++ (if part.streamed then [part] else []) ∧
      (s.addPart part).toolCalls.map bare = s.toolCalls.map bare ++ part.call?.toList ∧
      (s.addPart part).isTools = (s.isTools || part.calls) ∧
      (s.addPart part).isThought = (s.isThought || part.thinks) := by
  induction part using Part.class_cases with
  | image part media hdata himage =>
      simp [Scan.addPart, Scan.append, Part.streamed, Part.isImage, Part.thinks, Part.says,
        Part.calls, Part.call?, hdata, himage]
  | media part media hdata himage =>
      simp [Scan.addPart, Part.streamed, Part.isImage, Part.thinks, Part.says, Part.calls,
        Part.call?, hdata, himage]
  | call part call hdata hcall =>
      cases htool : getResponseToolCall call with
      | none =>
          simp [Scan.addPart, Part.streamed, Part.isImage, Part.thinks, Part.says, Part.calls,
            Part.call?, hdata, hcall, htool]
      | some tool =>
          have hbare : bare tool = tool := bare_of_getResponseToolCall htool
          simp [Scan.addPart, Part.streamed, Part.isImage, Part.thinks, Part.says, Part.calls,
            Part.call?, hdata, hcall, htool, hbare]
  | thought part hdata hcall hthought =>
      simp [Scan.addPart, Scan.append, Part.streamed, Part.isImage, Part.thinks, Part.calls,
        Part.call?, hdata, hcall, hthought]
  | code part code hdata hcall hthought hcode =>
      simp [Scan.addPart, Scan.append, Part.streamed, Part.isImage, Part.thinks, Part.says,
        Part.calls, Part.call?, hdata, hcall, hthought, hcode]
  | result part result hdata hcall hthought hcode hresult =>
      simp [Scan.addPart, Scan.append, Part.streamed, Part.isImage, Part.thinks, Part.says,
        Part.calls, Part.call?, hdata, hcall, hthought, hcode, hresult]
  | text part hdata hcall hthought hcode hresult =>
      by_cases htext : part.text = "\n" <;>
        simp [Scan.addPart, Scan.append, Part.streamed, Part.isImage, Part.thinks, Part.says,
          Part.calls, Part.call?, hdata, hcall, hthought, hcode, hresult, htext]

/-- What an answer without a stream makes of a part. -/
theorem TextChoice.addPart_spec (choice : TextChoice) (part : Part) :
    (choice.addPart part).content.map (·.part) =
        choice.content.map (·.part) ++ (if part.answered then [part] else []) ∧
      (choice.addPart part).reasoningContent.map (·.part) =
        (if part.thinks then [part] else choice.reasoningContent.map (·.part)) ∧
      (choice.addPart part).toolCalls = choice.toolCalls ++ part.call?.toList ∧
      (choice.addPart part).finishReason =
        (if part.calls then finishReasonToolCalls else choice.finishReason) ∧
      (choice.addPart part).index = choice.index := by
  induction part using Part.class_cases with
  | image part media hdata himage =>
      simp [TextChoice.addPart, TextChoice.append, Part.answered, Part.thinks, Part.calls,
        Part.call?, hdata]
  | media part media hdata himage =>
      simp [TextChoice.addPart, TextChoice.append, Part.answered, Part.thinks, Part.calls,
        Part.call?, hdata]
  | call part call hdata hcall =>
      simp [TextChoice.addPart, Part.answered, Part.thinks, Part.says, Part.calls, Part.call?,
        hdata, hcall]
  | thought part hdata hcall hthought =>
      simp [TextChoice.addPart, Part.answered, Part.thinks, Part.says, Part.calls, Part.call?,
        hdata, hcall, hthought]
  | code part code hdata hcall hthought hcode =>
      simp [TextChoice.addPart, TextChoice.append, Part.answered, Part.thinks, Part.says,
        Part.calls, Part.call?, hdata, hcall, hthought, hcode]
  | result part result hdata hcall hthought hcode hresult =>
      simp [TextChoice.addPart, TextChoice.append, Part.answered, Part.thinks, Part.says,
        Part.calls, Part.call?, hdata, hcall, hthought, hcode, hresult]
  | text part hdata hcall hthought hcode hresult =>
      by_cases htext : part.text = "\n" <;>
        simp [TextChoice.addPart, TextChoice.append, Part.answered, Part.thinks, Part.says,
          Part.calls, Part.call?, hdata, hcall, hthought, hcode, hresult, htext]

/-! ## All parts -/

/-- The tool calls of a candidate. -/
def Candidate.tools (c : Candidate) : List ToolCallResponse := c.parts.filterMap Part.call?

/-- What a chunk makes of the parts of a candidate. -/
theorem scan_spec (parts : List Part) :
    (scan parts).texts.map (·.part) = parts.filter Part.streamed ∧
      (scan parts).toolCalls.map bare = parts.filterMap Part.call? ∧
      (scan parts).isTools = parts.any Part.calls ∧
      (scan parts).isThought = parts.any Part.thinks := by
  induction parts using List.reverseRecOn with
  | nil => exact ⟨rfl, rfl, rfl, rfl⟩
  | append_singleton parts part ih =>
      obtain ⟨htexts, htools, hisTools, hisThought⟩ := ih
      obtain ⟨htexts', htools', hisTools', hisThought'⟩ := (scan parts).addPart_spec part
      have hscan : scan (parts ++ [part]) = (scan parts).addPart part := List.foldl_concat ..
      rw [hscan, htexts', htools', hisTools', hisThought', htexts, htools, hisTools, hisThought]
      refine ⟨?_, ?_, ?_, ?_⟩
      · rw [List.filter_append, List.filter_singleton]
        cases part.streamed <;> rfl
      · rw [List.filterMap_append]
        cases hcall : part.call? <;> simp [hcall]
      · simp
      · simp

/-- What an answer without a stream makes of the parts of a candidate. -/
theorem scanned_spec (c : Candidate) :
    (scanned c).content.map (·.part) = c.parts.filter Part.answered ∧
      (scanned c).reasoningContent.map (·.part) = (c.parts.filter Part.thinks).getLast?.toList ∧
      (scanned c).toolCalls = c.tools ∧
      (scanned c).finishReason =
        (if c.parts.any Part.calls then finishReasonToolCalls else finishReasonStop) ∧
      (scanned c).index = c.index := by
  obtain ⟨parts, finishReason, index⟩ := c
  unfold scanned Candidate.tools
  dsimp only
  induction parts using List.reverseRecOn with
  | nil => exact ⟨rfl, rfl, rfl, rfl, rfl⟩
  | append_singleton parts part ih =>
      rw [List.foldl_concat]
      obtain ⟨hcontent, hreasoning, htools, hfinish, hindex⟩ := ih
      obtain ⟨hcontent', hreasoning', htools', hfinish', hindex'⟩ := TextChoice.addPart_spec
        (parts.foldl TextChoice.addPart ⟨index, [], [], [], finishReasonStop⟩) part
      rw [hcontent', hreasoning', htools', hfinish', hindex', hcontent, hreasoning, htools, hfinish,
        hindex]
      refine ⟨?_, ?_, ?_, ?_, rfl⟩
      · rw [List.filter_append, List.filter_singleton]
        cases part.answered <;> rfl
      · rw [List.filter_append, List.filter_singleton]
        cases part.thinks <;> simp
      · rw [List.filterMap_append]
        cases hcall : part.call? <;> simp [hcall]
      · have hany : (parts ++ [part]).any Part.calls = (parts.any Part.calls || part.calls) := by
          simp
        rw [hany]
        cases parts.any Part.calls <;> cases part.calls <;> rfl

end DazeApi.Convert.Gemini
