import DazeApi.Convert.Chat

/-!
# Reasoning as content

With `thinkToContent` the chunks of a stream are sent with their reasoning as content, behind
`<think>` and before `</think>` (`relay/channel/openai/relay-openai.go`).  Three flags of the
request remember which tags have been sent.  A stream of one choice arrives intact exactly if
its reasoning is in one piece, which a chunk with nothing but content ends (`intact_iff`).
-/

namespace DazeApi.Convert

/-- The choice with another content and without reasoning. -/
def Choice.withContent (c : Choice) (s : String) : Choice :=
  { c with
    delta := { c.delta with content := some s, reasoningContent := none, reasoning := none } }

def Choice.withoutReasoning (c : Choice) : Choice :=
  { c with delta := { c.delta with reasoningContent := none, reasoning := none } }

/-- A chunk with its reasoning, if it has any, in place of its content. -/
def Choice.converted (c : Choice) : Choice :=
  if c.delta.getReasoningContent ≠ "" then c.withContent c.delta.getReasoningContent
  else if c.delta.getContentString = "" then c.withoutReasoning
  else c

/-- A text of a stream. -/
inductive Piece where
  | reasoning (s : String)
  | content (s : String)

/-- The texts of a chunk; reasoning comes before content. -/
def Choice.pieces (c : Choice) : List Piece :=
  (if c.delta.getReasoningContent = "" then [] else [.reasoning c.delta.getReasoningContent]) ++
    (if c.delta.getContentString = "" then [] else [.content c.delta.getContentString])

def Choice.thinks (c : Choice) : Prop := c.delta.getReasoningContent ≠ ""

def Choice.speaks (c : Choice) : Prop := c.delta.getContentString ≠ ""

namespace ThinkToContent

structure ThinkingContentInfo where
  isFirstThinkingContent : Bool
  sendLastThinkingContent : Bool
  hasSentThinkingContent : Bool

/-! ## What is sent -/

/-- The loop over the choices; `done` are those that are changed already. -/
def processChoices (hasThinkingContent hasContent : Bool) :
    ThinkingContentInfo → List Choice → List Choice → ThinkingContentInfo × List (List Choice)
  | info, done, [] => (info, [done])
  | info, done, choice :: rest =>
      let converted :=
        if choice.delta.getReasoningContent ≠ "" then
          choice.withContent choice.delta.getReasoningContent
        else if !hasThinkingContent && !hasContent then choice.withoutReasoning
        else choice
      if hasContent && !info.sendLastThinkingContent && info.hasSentThinkingContent then
        let result := processChoices hasThinkingContent hasContent
          { info with sendLastThinkingContent := true } (done ++ [converted]) rest
        (result.1, (done ++ choice :: rest).map (·.withContent "\n</think>\n") :: result.2)
      else processChoices hasThinkingContent hasContent info (done ++ [converted]) rest

/-- `sendStreamData` with `thinkToContent`: the flags after a chunk, and the chunks sent. -/
def sendStreamData (info : ThinkingContentInfo) (choices : List Choice) :
    ThinkingContentInfo × List (List Choice) :=
  let hasThinkingContent := choices.any (·.delta.getReasoningContent ≠ "")
  let hasContent := choices.any (·.delta.getContentString ≠ "")
  let thinkingContent := Text.concat (choices.map (·.delta.getReasoningContent))
  if info.isFirstThinkingContent && hasThinkingContent then
    ({ info with isFirstThinkingContent := false, hasSentThinkingContent := true },
      [choices.map (·.withContent ("<think>\n" ++ thinkingContent))])
  else if choices = [] then (info, [choices])
  else processChoices hasThinkingContent hasContent info [] choices

/-- The chunks sent for a stream. -/
def sendStream : ThinkingContentInfo → List (List Choice) → List (List Choice)
  | _, [] => []
  | info, chunk :: chunks =>
      (sendStreamData info chunk).2 ++ sendStream (sendStreamData info chunk).1 chunks

/-- The flags of a new request. -/
def start : ThinkingContentInfo := ⟨true, false, false⟩

/-! ## What is meant -/

/-- The text of chunks, their tool-call fragments and their finish reasons. -/
def textOf (chunks : List (List Choice)) : String :=
  Text.concat (chunks.flatten.map (·.delta.getContentString))

def callsOf (chunks : List (List Choice)) : List ToolCallResponse := chunks.flatten.flatMap (·.delta.toolCalls)

def finishesOf (chunks : List (List Choice)) : List String :=
  chunks.flatten.filterMap (·.finishReason)

/-- The texts one after another, reasoning between tags; at first a section is open or not. -/
def enclose : Bool → List Piece → String
  | true, [] => "\n</think>\n"
  | false, [] => ""
  | true, .reasoning s :: ps => s ++ enclose true ps
  | false, .reasoning s :: ps => "<think>\n" ++ (s ++ enclose true ps)
  | true, .content s :: ps => "\n</think>\n" ++ (s ++ enclose false ps)
  | false, .content s :: ps => s ++ enclose false ps

/-- Nothing of the stream is lost, repeated or left outside its section. -/
structure Intact (stream : List Choice) : Prop where
  text : textOf (sendStream start (stream.map fun c => [c])) =
    enclose false (stream.flatMap Choice.pieces)
  calls : callsOf (sendStream start (stream.map fun c => [c])) =
    stream.flatMap (·.delta.toolCalls)
  finishes : finishesOf (sendStream start (stream.map fun c => [c])) =
    stream.filterMap (·.finishReason)

/-! ## When it is -/

/-- No reasoning behind its section. -/
def After (stream : List Choice) : Prop := ∀ c ∈ stream, ¬ c.thinks

/-- The section goes on until a chunk with content, which has nothing else. -/
def During : List Choice → Prop
  | [] => False
  | c :: stream =>
      (¬ c.speaks ∧ During stream) ∨
        (c.speaks ∧ ¬ c.thinks ∧ c.delta.toolCalls = [] ∧ c.finishReason = none ∧ After stream)

/-- The first chunk with reasoning has no content. -/
def Before : List Choice → Prop
  | [] => True
  | c :: stream => (¬ c.thinks ∧ Before stream) ∨ (c.thinks ∧ ¬ c.speaks ∧ During stream)

/-! ## One chunk -/

/-- The flags while a section is open. -/
def opened : ThinkingContentInfo := ⟨false, false, true⟩

/-- The flags behind the section. -/
def closed : ThinkingContentInfo := ⟨false, true, true⟩

section

variable {c : Choice} {stream : List Choice} {info : ThinkingContentInfo}

theorem toolCalls_converted (c : Choice) : c.converted.delta.toolCalls = c.delta.toolCalls := by
  rw [Choice.converted]
  split
  next => rfl
  next => split <;> rfl

theorem finishReason_converted (c : Choice) : c.converted.finishReason = c.finishReason := by
  rw [Choice.converted]
  split
  next => rfl
  next => split <;> rfl

theorem content_converted_of_thinks (h : c.thinks) :
    c.converted.delta.getContentString = c.delta.getReasoningContent := by
  rw [Choice.thinks] at h
  rw [Choice.converted, if_pos h]
  rfl

theorem content_converted (h : ¬ c.thinks) :
    c.converted.delta.getContentString = c.delta.getContentString := by
  rw [Choice.thinks] at h
  rw [Choice.converted, if_neg h]
  split <;> rfl

theorem not_thinks_iff : ¬ c.thinks ↔ c.delta.getReasoningContent = "" := by
  rw [Choice.thinks, not_not]

theorem not_speaks_iff : ¬ c.speaks ↔ c.delta.getContentString = "" := by
  rw [Choice.speaks, not_not]

/-- Unless a tag is due the chunk is sent once. -/
theorem send_eq (hfirst : info.isFirstThinkingContent = true → ¬ c.thinks)
    (hclose : c.speaks →
      info.sendLastThinkingContent = true ∨ info.hasSentThinkingContent = false) :
    sendStreamData info [c] = (info, [[c.converted]]) := by
  rw [not_thinks_iff] at hfirst
  rw [Choice.speaks] at hclose
  by_cases hr : c.delta.getReasoningContent = ""
  · by_cases hc : c.delta.getContentString = ""
    · simp [sendStreamData, processChoices, Choice.converted, hr, hc]
    · rcases hclose hc with h | h <;>
        simp [sendStreamData, processChoices, Choice.converted, hr, hc, h]
  · have hnot : info.isFirstThinkingContent = false := by
      cases h : info.isFirstThinkingContent with
      | true => exact absurd (hfirst h) hr
      | false => rfl
    by_cases hc : c.delta.getContentString = ""
    · simp [sendStreamData, processChoices, Choice.converted, hr, hc, hnot]
    · rcases hclose hc with h | h <;>
        simp [sendStreamData, processChoices, Choice.converted, hr, hc, hnot, h]

theorem send_start_thinks (h : c.thinks) : sendStreamData start [c] =
    (opened, [[c.withContent ("<think>\n" ++ c.delta.getReasoningContent)]]) := by
  rw [Choice.thinks] at h
  simp [sendStreamData, start, opened, h, Text.concat]

theorem send_opened_speaks (h : c.speaks) : sendStreamData opened [c] =
    (closed, [[c.withContent "\n</think>\n"], [c.converted]]) := by
  rw [Choice.speaks] at h
  by_cases hr : c.delta.getReasoningContent = "" <;>
    simp [sendStreamData, processChoices, opened, closed, Choice.converted, hr, h]

theorem send_start (h : ¬ c.thinks) : sendStreamData start [c] = (start, [[c.converted]]) :=
  send_eq (fun _ => h) fun _ => Or.inr rfl

theorem send_opened (h : ¬ c.speaks) : sendStreamData opened [c] = (opened, [[c.converted]]) :=
  send_eq (by rintro ⟨⟩) fun hspeaks => absurd hspeaks h

theorem send_closed (c : Choice) : sendStreamData closed [c] = (closed, [[c.converted]]) :=
  send_eq (by rintro ⟨⟩) fun _ => Or.inl rfl

/-! ## Texts -/

/-- The chunks sent for a stream of one choice, from flags on. -/
def sent (info : ThinkingContentInfo) (stream : List Choice) : List (List Choice) :=
  sendStream info (stream.map fun c => [c])

theorem sent_cons (info : ThinkingContentInfo) (c : Choice) (stream : List Choice) :
    sent info (c :: stream) =
      (sendStreamData info [c]).2 ++ sent (sendStreamData info [c]).1 stream := rfl

theorem textOf_cons (c : Choice) (chunks : List (List Choice)) :
    textOf ([c] :: chunks) = c.delta.getContentString ++ textOf chunks := rfl

theorem callsOf_cons (c : Choice) (chunks : List (List Choice)) :
    callsOf ([c] :: chunks) = c.delta.toolCalls ++ callsOf chunks := rfl

theorem finishesOf_cons (c : Choice) (chunks : List (List Choice)) :
    finishesOf ([c] :: chunks) = c.finishReason.toList ++ finishesOf chunks := by
  rw [finishesOf, List.flatten_cons, List.singleton_append, List.filterMap_cons, finishesOf]
  cases c.finishReason <;> rfl

theorem filterMap_finishReason (c : Choice) (stream : List Choice) :
    (c :: stream).filterMap (·.finishReason) =
      c.finishReason.toList ++ stream.filterMap (·.finishReason) := by
  rw [List.filterMap_cons]
  cases c.finishReason <;> rfl

/-- The length of all texts. -/
def rawLength : List Piece → ℕ
  | [] => 0
  | .reasoning s :: ps => s.length + rawLength ps
  | .content s :: ps => s.length + rawLength ps

theorem rawLength_append (ps qs : List Piece) :
    rawLength (ps ++ qs) = rawLength ps + rawLength qs := by
  induction ps with
  | nil => exact (Nat.zero_add _).symm
  | cons p ps ih =>
      cases p with
      | reasoning s => rw [List.cons_append, rawLength, rawLength, ih, Nat.add_assoc]
      | content s => rw [List.cons_append, rawLength, rawLength, ih, Nat.add_assoc]

theorem rawLength_pieces (c : Choice) : rawLength c.pieces =
    c.delta.getReasoningContent.length + c.delta.getContentString.length := by
  rw [Choice.pieces, rawLength_append]
  congr 1
  · split
    next h => rw [h]; rfl
    next => rfl
  · split
    next h => rw [h]; rfl
    next => rfl

/-- An open section is closed. -/
theorem le_length_enclose (inside : Bool) (ps : List Piece) :
    rawLength ps + (if inside then 10 else 0) ≤ (enclose inside ps).length := by
  induction ps generalizing inside with
  | nil => cases inside <;> exact Nat.le_refl _
  | cons p ps ih =>
      have hopen := ih true
      have hclosed := ih false
      rw [if_pos rfl] at hopen
      rw [if_neg Bool.false_ne_true] at hclosed
      cases p with
      | reasoning s =>
          cases inside with
          | true => simp only [rawLength, enclose, String.length_append, if_true]; omega
          | false =>
              rw [if_neg Bool.false_ne_true]
              simp only [rawLength, enclose, String.length_append]
              omega
      | content s =>
          cases inside with
          | true =>
              have hlen : "\n</think>\n".length = 10 := rfl
              simp only [rawLength, enclose, String.length_append, if_true, hlen]
              omega
          | false =>
              rw [if_neg Bool.false_ne_true]
              simp only [rawLength, enclose, String.length_append]
              omega

/-- Reasoning comes with both tags. -/
theorem lt_length_enclose {ps : List Piece} {s : String} (h : .reasoning s ∈ ps) :
    rawLength ps < (enclose false ps).length := by
  induction ps with
  | nil => cases h
  | cons p ps ih =>
      cases p with
      | reasoning s =>
          have hopen := le_length_enclose true ps
          rw [if_pos rfl] at hopen
          simp only [rawLength, enclose, String.length_append]
          omega
      | content t =>
          have hrest := ih (List.mem_of_ne_of_mem (by rintro ⟨⟩) h)
          simp only [rawLength, enclose, String.length_append]
          omega

/-! ### Behind the section -/

theorem sent_closed_cons (c : Choice) (stream : List Choice) :
    sent closed (c :: stream) = [c.converted] :: sent closed stream := by
  rw [sent_cons, send_closed]
  rfl

theorem length_converted_le (c : Choice) :
    c.converted.delta.getContentString.length ≤ rawLength c.pieces := by
  rw [rawLength_pieces]
  by_cases h : c.thinks
  · rw [content_converted_of_thinks h]
    exact Nat.le_add_right _ _
  · rw [content_converted h]
    exact Nat.le_add_left _ _

theorem length_closed_le (stream : List Choice) :
    (textOf (sent closed stream)).length ≤ rawLength (stream.flatMap Choice.pieces) := by
  induction stream with
  | nil => exact Nat.le_refl _
  | cons c stream ih =>
      rw [sent_closed_cons, textOf_cons, String.length_append, List.flatMap_cons, rawLength_append]
      exact Nat.add_le_add (length_converted_le c) ih

theorem pieces_of_not_thinks (h : ¬ c.thinks) : c.pieces =
    if c.delta.getContentString = "" then [] else [.content c.delta.getContentString] := by
  rw [Choice.pieces, if_pos (not_thinks_iff.1 h), List.nil_append]

theorem pieces_of_not_speaks (h : ¬ c.speaks) : c.pieces =
    if c.delta.getReasoningContent = "" then []
    else [.reasoning c.delta.getReasoningContent] := by
  rw [Choice.pieces, if_pos (not_speaks_iff.1 h), List.append_nil]

theorem enclose_false_of_not_thinks (h : ¬ c.thinks) (ps : List Piece) :
    enclose false (c.pieces ++ ps) = c.delta.getContentString ++ enclose false ps := by
  rw [pieces_of_not_thinks h]
  split
  next hc => rw [hc, String.empty_append, List.nil_append]
  next => rfl

theorem enclose_true_of_not_speaks (h : ¬ c.speaks) (ps : List Piece) :
    enclose true (c.pieces ++ ps) = c.delta.getReasoningContent ++ enclose true ps := by
  rw [pieces_of_not_speaks h]
  split
  next hr => rw [hr, String.empty_append, List.nil_append]
  next => rfl

theorem text_closed_iff (stream : List Choice) :
    textOf (sent closed stream) = enclose false (stream.flatMap Choice.pieces) ↔
      After stream := by
  constructor
  · intro h c hc hthinks
    have hmem : Piece.reasoning c.delta.getReasoningContent ∈ stream.flatMap Choice.pieces := by
      refine List.mem_flatMap.2 ⟨c, hc, List.mem_append_left _ ?_⟩
      rw [Choice.thinks] at hthinks
      rw [if_neg hthinks]
      exact List.mem_singleton_self _
    have hlt := lt_length_enclose hmem
    rw [← h] at hlt
    exact absurd (length_closed_le stream) (Nat.not_le.2 hlt)
  · intro h
    induction stream with
    | nil => rfl
    | cons c stream ih =>
        rw [After, List.forall_mem_cons] at h
        rw [sent_closed_cons, textOf_cons, content_converted h.1, ih h.2, List.flatMap_cons,
          enclose_false_of_not_thinks h.1]

theorem calls_closed (stream : List Choice) :
    callsOf (sent closed stream) = stream.flatMap (·.delta.toolCalls) := by
  induction stream with
  | nil => rfl
  | cons c stream ih =>
      rw [sent_closed_cons, callsOf_cons, ih, toolCalls_converted, List.flatMap_cons]

theorem finishes_closed (stream : List Choice) :
    finishesOf (sent closed stream) = stream.filterMap (·.finishReason) := by
  induction stream with
  | nil => rfl
  | cons c stream ih =>
      rw [sent_closed_cons, finishesOf_cons, ih, finishReason_converted, filterMap_finishReason]

/-! ### In the section -/

/-- The chunks sent from flags on are what is meant for the stream. -/
def Meant (info : ThinkingContentInfo) (inside : Bool) (stream : List Choice) : Prop :=
  textOf (sent info stream) = enclose inside (stream.flatMap Choice.pieces) ∧
    callsOf (sent info stream) = stream.flatMap (·.delta.toolCalls) ∧
    finishesOf (sent info stream) = stream.filterMap (·.finishReason)

/-- A chunk that is sent once, with the text that is meant. -/
theorem meant_cons_iff {info' : ThinkingContentInfo} {inside inside' : Bool} {d : Choice}
    {tag : String} (hsend : sendStreamData info [c] = (info', [[d]]))
    (hcalls : d.delta.toolCalls = c.delta.toolCalls) (hfinish : d.finishReason = c.finishReason)
    (htext : enclose inside (c.pieces ++ stream.flatMap Choice.pieces) =
      tag ++ enclose inside' (stream.flatMap Choice.pieces))
    (hcontent : d.delta.getContentString = tag) :
    Meant info inside (c :: stream) ↔ Meant info' inside' stream := by
  have hsent : sent info (c :: stream) = [d] :: sent info' stream := by
    rw [sent_cons, hsend]
    rfl
  rw [Meant, Meant, hsent, textOf_cons, callsOf_cons, finishesOf_cons, List.flatMap_cons,
    List.flatMap_cons, filterMap_finishReason, hcalls, hfinish, htext, hcontent,
    String.append_right_inj, List.append_cancel_left_eq, List.append_cancel_left_eq]

theorem length_opened_le (stream : List Choice) :
    (textOf (sent opened stream)).length ≤ rawLength (stream.flatMap Choice.pieces) + 10 := by
  induction stream with
  | nil => exact Nat.zero_le _
  | cons c stream ih =>
      have hle := length_converted_le c
      rw [List.flatMap_cons, rawLength_append, sent_cons]
      by_cases h : c.speaks
      · have hclosed := length_closed_le stream
        have hlen : "\n</think>\n".length = 10 := rfl
        rw [send_opened_speaks h]
        change (textOf ([_] :: [c.converted] :: sent closed stream)).length ≤ _
        rw [textOf_cons, textOf_cons, String.length_append, String.length_append,
          show (c.withContent "\n</think>\n").delta.getContentString = "\n</think>\n" from rfl]
        omega
      · rw [send_opened h]
        change (textOf ([c.converted] :: sent opened stream)).length ≤ _
        rw [textOf_cons, String.length_append]
        omega

/-- A chunk whose reasoning hides its content. -/
theorem length_enclose_both (hthinks : c.thinks) (hspeaks : c.speaks) (ps : List Piece) :
    rawLength ps + c.delta.getReasoningContent.length + 10 <
      (enclose true (c.pieces ++ ps)).length := by
  have hle := le_length_enclose false ps
  rw [Choice.thinks] at hthinks
  rw [Choice.speaks] at hspeaks
  have hpos : 0 < c.delta.getContentString.length := by
    rw [Nat.pos_iff_ne_zero, Ne, String.length_eq_zero_iff]
    exact hspeaks
  have hlen : "\n</think>\n".length = 10 := rfl
  rw [Choice.pieces, if_neg hthinks, if_neg hspeaks, List.singleton_append, List.cons_append,
    List.singleton_append, enclose, enclose, String.length_append, String.length_append,
    String.length_append]
  rw [if_neg Bool.false_ne_true] at hle
  omega

theorem meant_opened_iff (stream : List Choice) :
    Meant opened true stream ↔ During stream := by
  induction stream with
  | nil =>
      refine iff_of_false ?_ id
      rintro ⟨h, -⟩
      have hle := le_length_enclose true []
      have hempty : textOf (sent opened ([] : List Choice)) = "" := rfl
      rw [hempty, List.flatMap_nil] at h
      rw [← h] at hle
      exact absurd hle (by decide)
  | cons c stream ih =>
      rw [During]
      by_cases hspeaks : c.speaks
      · have hsent : sent opened (c :: stream) =
            [c.withContent "\n</think>\n"] :: [c.converted] :: sent closed stream := by
          rw [sent_cons, send_opened_speaks hspeaks]
          rfl
        have htag : (c.withContent "\n</think>\n").delta.getContentString = "\n</think>\n" := rfl
        simp only [hspeaks, not_true, false_and, true_and, false_or]
        by_cases hthinks : c.thinks
        · refine iff_of_false ?_ fun h => h.1 hthinks
          rintro ⟨htext, -⟩
          have hclosed := length_closed_le stream
          have hlong := length_enclose_both hthinks hspeaks (stream.flatMap Choice.pieces)
          have hlength := congrArg String.length htext
          have hlen : "\n</think>\n".length = 10 := rfl
          rw [hsent, textOf_cons, textOf_cons, List.flatMap_cons, htag,
            content_converted_of_thinks hthinks, String.length_append, String.length_append]
            at hlength
          omega
        · have henclose : enclose true ((c :: stream).flatMap Choice.pieces) = "\n</think>\n" ++
              (c.delta.getContentString ++ enclose false (stream.flatMap Choice.pieces)) := by
            rw [List.flatMap_cons, pieces_of_not_thinks hthinks, if_neg hspeaks]
            rfl
          rw [Meant, hsent, textOf_cons, textOf_cons, htag, content_converted hthinks, henclose,
            String.append_right_inj, String.append_right_inj, text_closed_iff, callsOf_cons,
            callsOf_cons, calls_closed, toolCalls_converted, finishesOf_cons, finishesOf_cons,
            finishes_closed, finishReason_converted, List.flatMap_cons, filterMap_finishReason]
          have hcancel {α : Type} (l m : List α) : l ++ (l ++ m) = l ++ m ↔ l = [] := by
            rw [List.append_cancel_left_eq, List.append_left_eq_self]
          have hcalls : (c.withContent "\n</think>\n").delta.toolCalls = c.delta.toolCalls := rfl
          have hfinish : (c.withContent "\n</think>\n").finishReason = c.finishReason := rfl
          rw [hcalls, hfinish, hcancel, hcancel, Option.toList_eq_nil_iff]
          constructor
          · rintro ⟨hafter, hnocalls, hnofinish⟩
            exact ⟨hthinks, hnocalls, hnofinish, hafter⟩
          · rintro ⟨-, hnocalls, hnofinish, hafter⟩
            exact ⟨hafter, hnocalls, hnofinish⟩
      · simp only [hspeaks, not_false_eq_true, true_and, false_and, or_false]
        rw [← ih]
        refine meant_cons_iff (send_opened hspeaks) (toolCalls_converted c)
          (finishReason_converted c) (enclose_true_of_not_speaks hspeaks _) ?_
        by_cases hthinks : c.thinks
        · exact content_converted_of_thinks hthinks
        · rw [content_converted hthinks, not_speaks_iff.1 hspeaks, not_thinks_iff.1 hthinks]

/-! ### Before the section -/

theorem meant_start_iff (stream : List Choice) : Meant start false stream ↔ Before stream := by
  induction stream with
  | nil => exact iff_of_true ⟨rfl, rfl, rfl⟩ trivial
  | cons c stream ih =>
      rw [Before]
      by_cases hthinks : c.thinks
      · have htag (s : String) : (c.withContent s).delta.getContentString = s := rfl
        simp only [hthinks, not_true, false_and, true_and, false_or]
        by_cases hspeaks : c.speaks
        · refine iff_of_false ?_ fun h => h.1 hspeaks
          rintro ⟨htext, -⟩
          have hopened := length_opened_le stream
          have hlong := length_enclose_both hthinks hspeaks (stream.flatMap Choice.pieces)
          have henclose : enclose false (c.pieces ++ stream.flatMap Choice.pieces) =
              "<think>\n" ++ enclose true (c.pieces ++ stream.flatMap Choice.pieces) := by
            rw [Choice.thinks] at hthinks
            rw [Choice.pieces, if_neg hthinks]
            rfl
          have hlength := congrArg String.length htext
          rw [sent_cons, send_start_thinks hthinks, List.flatMap_cons, henclose,
            String.length_append] at hlength
          change (textOf ([_] :: sent opened stream)).length = _ at hlength
          rw [textOf_cons, htag, String.length_append, String.length_append] at hlength
          omega
        · simp only [hspeaks, not_false_eq_true, true_and]
          rw [← meant_opened_iff]
          refine meant_cons_iff (send_start_thinks hthinks) rfl rfl ?_ (htag _)
          have hpieces : c.pieces = [.reasoning c.delta.getReasoningContent] := by
            rw [Choice.thinks] at hthinks
            rw [pieces_of_not_speaks hspeaks, if_neg hthinks]
          rw [hpieces, String.append_assoc]
          rfl
      · simp only [hthinks, not_false_eq_true, true_and, false_and, or_false]
        rw [← ih]
        exact meant_cons_iff (send_start hthinks) (toolCalls_converted c)
          (finishReason_converted c) (enclose_false_of_not_thinks hthinks _)
          (content_converted hthinks)

end

/-- A stream arrives intact exactly if its reasoning is in one piece, no chunk has reasoning and
content, and the chunk that ends the piece has nothing but content. -/
theorem intact_iff (stream : List Choice) : Intact stream ↔ Before stream := by
  rw [← meant_start_iff]
  exact ⟨fun h => ⟨h.text, h.calls, h.finishes⟩, fun h => ⟨h.1, h.2.1, h.2.2⟩⟩

/-- Reasoning and content in one chunk. -/
def both : Choice := ⟨0, ⟨"assistant", some "answer", some "thought", none, []⟩, none⟩

/-- The content that comes with the first reasoning is lost. -/
theorem not_intact_both : ¬ ∀ stream : List (Choice), Intact stream := by
  intro h
  exact absurd (h [both]).text (by decide)

end ThinkToContent

end DazeApi.Convert
