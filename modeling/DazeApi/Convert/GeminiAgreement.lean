import Mathlib.Data.List.Perm.Basic
import DazeApi.Convert.GeminiCalls

/-!
# Gemini answers with and without a stream

A stream of Gemini and the answer without one agree when their texts do, their tool calls
do, and each choice is given one finish reason that says whether its candidate has a function
call.  `classified_iff` says which answers, split in which way, are converted alike.

A piece with a function call ends its choice at once, but for the one that opens the stream;
a candidate that stops is ended by the stop chunk, which is for choice 0.
-/

namespace DazeApi.Convert.Gemini

/-! ## What ends a choice -/

/-- A part of the piece is taken for a function call. -/
def Candidate.callsTool (c : Candidate) : Bool := c.parts.any Part.calls

/-- The piece ends its choice: it has a function call, or a reason that is not left to the
stop chunk. -/
def Candidate.ends (c : Candidate) : Bool := c.callsTool || (c.finishReason.isSome && !c.stops)

/-- The pieces that may end a choice: all but one that opens the stream. -/
def enders : List (List Candidate) → List Candidate
  | [] => []
  | first :: rest => (if opens first then first.tail else first) ++ rest.flatten

/-- The pieces that end a choice. -/
def endings (k : Int) (chunks : List (List Candidate)) : List Candidate :=
  (piecesOf k (enders chunks)).filter Candidate.ends

/-- The number of stop chunks for a choice. -/
def stopsAt (k : Int) (chunks : List (List Candidate)) : Nat :=
  if k = 0 then chunks.countP fun candidates => candidates.any Candidate.stops else 0

/-- The stream opens with a function call. -/
def opensStream : List (List Candidate) → Bool
  | [] => false
  | first :: _ => opens first

/-- The finish reason of a choice of a stream, if it has one. -/
def StreamChoice.finishes (c : StreamChoice) : List String := c.finishReason.toList

/-- The reason with which a piece ends its choice. -/
def Candidate.endReason (c : Candidate) : String :=
  if c.callsTool then finishReasonToolCalls else mapFinishReason (c.finishReason.getD "")

theorem mapFinishReason_ne (reason : String) : mapFinishReason reason ≠ finishReasonToolCalls := by
  unfold mapFinishReason
  repeat' split
  all_goals decide

theorem endReason_eq_iff (c : Candidate) :
    c.endReason = finishReasonToolCalls ↔ c.callsTool = true := by
  unfold Candidate.endReason
  split
  next h => exact iff_of_true rfl h
  next h => exact iff_of_false (mapFinishReason_ne _) h

theorem finishes_streamChoice (c : Candidate) :
    (streamChoice c).finishes = if c.ends then [c.endReason] else [] := by
  have htools : (scan c.parts).isTools = c.callsTool := (scan_spec c.parts).2.2.1
  unfold StreamChoice.finishes streamChoice Candidate.ends Candidate.endReason
  dsimp only
  rw [htools]
  cases c.callsTool with
  | true => rfl
  | false =>
      cases c.stops with
      | true => simp
      | false => cases c.finishReason <;> rfl

theorem flatMap_finishes (candidates : List Candidate) :
    (candidates.flatMap fun c => (streamChoice c).finishes) =
      (candidates.filter Candidate.ends).map Candidate.endReason := by
  induction candidates with
  | nil => rfl
  | cons c candidates ih =>
      rw [List.flatMap_cons, ih, finishes_streamChoice, List.filter_cons]
      split <;> rfl

section

variable {candidates : List Candidate} {chunks : List (List Candidate)} {k : Int}

theorem view_finishes_stopsOf (k : Int) (reason : String) (candidates : List Candidate) :
    view StreamChoice.finishes k (stopsOf reason candidates) =
      List.replicate (stopsAt k [candidates]) reason := by
  rw [view_stopsOf]
  unfold stopsAt
  by_cases hk : k = 0
  · cases hany : candidates.any Candidate.stops <;> simp [hk, hany, StreamChoice.finishes]
  · simp [hk]

/-- The piece that opens the stream does not end its choice. -/
theorem view_finishes_opened (k : Int) (first : List Candidate) :
    view StreamChoice.finishes k [openedChoices first] =
      ((piecesOf k (if opens first then first.tail else first)).filter Candidate.ends).map
        Candidate.endReason := by
  rw [← flatMap_finishes]
  unfold openedChoices
  split
  · cases first with
    | nil => rfl
    | cons c first =>
        rw [List.tail_cons, ← view_streamChoice]
        simp only [view, received_singleton, List.map_cons, clearFinish, List.filter_cons]
        split <;> simp [StreamChoice.finishes]
  · exact view_streamChoice _ k first

theorem stopsAt_cons (k : Int) (candidates : List Candidate) (chunks : List (List Candidate)) :
    stopsAt k (candidates :: chunks) = stopsAt k [candidates] + stopsAt k chunks := by
  unfold stopsAt
  split
  · rw [List.countP_cons, List.countP_cons, List.countP_nil]
    omega
  · rfl

theorem flatMap_stops (k : Int) (reason : String) (chunks : List (List Candidate)) :
    (chunks.flatMap fun candidates => List.replicate (stopsAt k [candidates]) reason) =
      List.replicate (stopsAt k chunks) reason := by
  induction chunks with
  | nil => simp [stopsAt]
  | cons candidates chunks ih =>
      rw [List.flatMap_cons, ih, List.replicate_append_replicate, ← stopsAt_cons]

/-- The finish reasons that a stream has for a choice. -/
def finishesAt (k : Int) (chunks : List (List Candidate)) : List String :=
  view StreamChoice.finishes k (geminiChatStreamHandler chunks)

/-- They are those of the pieces that end the choice, and those of the stop chunks. -/
theorem finishesAt_perm (k : Int) (first : List Candidate) (rest : List (List Candidate)) :
    (finishesAt k (first :: rest)).Perm
      ((endings k (first :: rest)).map Candidate.endReason ++
        List.replicate (stopsAt k (first :: rest)) (stopReason first)) := by
  rw [finishesAt, view_handler (fun _ => rfl) rfl, view_finishes_opened]
  simp only [view_finishes_stopsOf]
  have hrest := (List.flatMap_append_perm rest
    (fun candidates => (piecesOf k candidates).flatMap fun c => (streamChoice c).finishes)
    (fun candidates => List.replicate (stopsAt k [candidates]) (stopReason first))).symm
  rw [flatMap_piecesOf, flatMap_finishes, flatMap_stops] at hrest
  refine (hrest.append_left _).trans ?_
  rw [endings, enders, piecesOf_append, List.filter_append, List.map_append,
    stopsAt_cons k first rest, ← List.replicate_append_replicate, List.append_assoc,
    List.append_assoc]
  exact (List.perm_append_comm_assoc _ _ _).append_left _

/-- The stream gives a choice one finish reason, which says whether its candidate has a
function call. -/
def OneFinish (chunks : List (List Candidate)) (c : Candidate) : Prop :=
  ∃ reason, finishesAt c.index chunks = [reason] ∧ (reason = finishReasonToolCalls ↔ c.HasCall)

/-- One piece or one stop chunk ends the choice: a piece with a function call, or a stop chunk
of a stream that opens with one, exactly when the candidate has a function call. -/
def EndsOnce (chunks : List (List Candidate)) (c : Candidate) : Prop :=
  (endings c.index chunks).length + stopsAt c.index chunks = 1 ∧
    (c.HasCall ↔ (∃ piece ∈ endings c.index chunks, piece.callsTool = true) ∨
      stopsAt c.index chunks ≠ 0 ∧ opensStream chunks = true)

theorem exists_eq_singleton_iff {α : Type} {l : List α} {x : α} {P : Prop} :
    (∃ y, l = [y] ∧ (y = x ↔ P)) ↔ l.length = 1 ∧ (P ↔ x ∈ l) := by
  constructor
  · rintro ⟨y, rfl, hy⟩
    exact ⟨rfl, by rw [← hy, List.mem_singleton, eq_comm]⟩
  · rintro ⟨hlength, hx⟩
    obtain ⟨y, rfl⟩ := List.length_eq_one_iff.1 hlength
    exact ⟨y, rfl, by rw [hx, List.mem_singleton, eq_comm]⟩

theorem oneFinish_iff (chunks : List (List Candidate)) (c : Candidate) :
    OneFinish chunks c ↔ EndsOnce chunks c := by
  unfold OneFinish EndsOnce
  cases chunks with
  | nil =>
      refine iff_of_false ?_ ?_
      · rintro ⟨reason, hnone, -⟩
        cases hnone
      · rintro ⟨hone, -⟩
        simp [endings, enders, piecesOf, stopsAt] at hone
  | cons first rest =>
      have hperm := finishesAt_perm c.index first rest
      have hreason : stopReason first = finishReasonToolCalls ↔ opens first = true := by
        unfold stopReason
        cases opens first <;> decide
      have hmem : finishReasonToolCalls ∈ finishesAt c.index (first :: rest) ↔
          (∃ piece ∈ endings c.index (first :: rest), piece.callsTool = true) ∨
            stopsAt c.index (first :: rest) ≠ 0 ∧ opensStream (first :: rest) = true := by
        rw [hperm.mem_iff, List.mem_append, List.mem_map, List.mem_replicate,
          eq_comm (b := stopReason first), hreason]
        simp only [endReason_eq_iff]
        rfl
      rw [exists_eq_singleton_iff, hmem, hperm.length_eq, List.length_append, List.length_map,
        List.length_replicate]

/-! ## The answer without a stream -/

/-- Without a stream each choice says whether its candidate has a function call. -/
def ToldCalls (candidates : List Candidate) : Prop :=
  List.Forall₂ (fun c choice => choice.finishReason = finishReasonToolCalls ↔ c.HasCall) candidates
    (responseGeminiChat2OpenAI candidates)

/-- A candidate has a function call exactly if one up to it has tool calls, or it has no
finish reason of its own and a part that is taken for a call. -/
def CallsInOrder (candidates : List Candidate) : Prop :=
  ∀ before c after, candidates = before ++ c :: after →
    (c.HasCall ↔ (∃ d ∈ before ++ [c], d.tools ≠ []) ∨ c.finishReason = none ∧ c.callsTool = true)

theorem finishReason_ended_iff (c : Candidate) (told : Bool) :
    ((scanned c).ended (if told then finishReasonToolCalls
      else (c.finishReason.map mapFinishReason).getD (scanned c).finishReason)).finishReason =
        finishReasonToolCalls ↔ told = true ∨ c.finishReason = none ∧ c.callsTool = true := by
  have hscanned : (scanned c).finishReason =
      if c.callsTool then finishReasonToolCalls else finishReasonStop := (scanned_spec c).2.2.2.1
  have hstop : finishReasonStop ≠ finishReasonToolCalls := by decide
  rw [hscanned, TextChoice.ended]
  cases told with
  | true => simp
  | false =>
      cases hreason : c.finishReason with
      | none => cases c.callsTool <;> simp [hstop]
      | some reason => simp [mapFinishReason_ne]

theorem forall₂_choicesFrom (candidates : List Candidate) (told : Bool) :
    List.Forall₂ (fun c choice => choice.finishReason = finishReasonToolCalls ↔ c.HasCall)
        candidates (choicesFrom told candidates) ↔
      ∀ before c after, candidates = before ++ c :: after →
        (c.HasCall ↔ (told = true ∨ ∃ d ∈ before ++ [c], d.tools ≠ []) ∨
          c.finishReason = none ∧ c.callsTool = true) := by
  induction candidates generalizing told with
  | nil =>
      refine iff_of_true .nil fun before c after heq => ?_
      simp at heq
  | cons c candidates ih =>
      have htold : ((told || decide (c.tools ≠ [])) = true) ↔ told = true ∨ c.tools ≠ [] := by simp
      rw [choicesFrom, List.forall₂_cons, ih, finishReason_ended_iff, htold]
      constructor
      · rintro ⟨hhead, htail⟩ before d after heq
        cases before with
        | nil =>
            obtain ⟨rfl, -⟩ := List.cons.inj heq
            rw [← hhead]
            simp
        | cons b before =>
            obtain ⟨rfl, hrest⟩ := List.cons.inj heq
            rw [htail before d after hrest]
            simp [or_assoc]
      · intro hall
        refine ⟨?_, fun before d after heq => ?_⟩
        · rw [hall [] c candidates rfl]
          simp
        · rw [hall (c :: before) d after (by rw [heq]; rfl)]
          simp [or_assoc]

theorem toldCalls_iff (candidates : List Candidate) :
    ToldCalls candidates ↔ CallsInOrder candidates := by
  rw [ToldCalls, responseGeminiChat2OpenAI_eq, forall₂_choicesFrom, CallsInOrder]
  simp only [Bool.false_eq_true, false_or]

/-! ## Agreement -/

/-- The stream and the answer without one agree. -/
structure Agrees (candidates : List Candidate) (chunks : List (List Candidate)) : Prop where
  reasoning : SameReasoning candidates chunks
  content : SameContent candidates chunks
  calls : SameCalls candidates chunks
  indices : ∀ k, ((callsOf (view StreamChoice.toolCalls k (geminiChatStreamHandler chunks))).map
    Prod.fst).Nodup
  finish : ∀ c ∈ candidates, OneFinish chunks c
  told : ToldCalls candidates

/-- The candidates, and the chunks that they are split over, are of a kind that is converted
alike. -/
structure Fits (candidates : List Candidate) (chunks : List (List Candidate)) : Prop where
  texts : TextsFit candidates chunks
  calls : CallsFit candidates chunks
  finish : ∀ c ∈ candidates, EndsOnce chunks c
  told : CallsInOrder candidates

theorem nodup_indices (h : Splits candidates chunks) (hids : DistinctIds candidates) (k : Int) :
    ((callsOf (view StreamChoice.toolCalls k (geminiChatStreamHandler chunks))).map
      Prod.fst).Nodup := by
  cases chunks with
  | nil => exact List.nodup_nil
  | cons first rest =>
      have hfresh := h.fresh hids
      rw [List.flatten_cons] at hfresh
      rw [fragments_handler k hfresh, callsOf_numbered]
      exact nodup_fst_numberedCalls _ _

/-- The stream and the answer without one agree exactly if the candidates and the chunks are
of that kind. -/
theorem classified_iff (h : Splits candidates chunks) (hids : DistinctIds candidates) :
    Agrees candidates chunks ↔ Fits candidates chunks := by
  constructor
  · intro hagrees
    exact ⟨(texts_iff h).1 ⟨hagrees.reasoning, hagrees.content⟩, (calls_iff h hids).1 hagrees.calls,
      fun c hc => (oneFinish_iff chunks c).1 (hagrees.finish c hc),
      (toldCalls_iff candidates).1 hagrees.told⟩
  · intro hfits
    obtain ⟨hreasoning, hcontent⟩ := (texts_iff h).2 hfits.texts
    exact ⟨hreasoning, hcontent, (calls_iff h hids).2 hfits.calls, nodup_indices h hids,
      fun c hc => (oneFinish_iff chunks c).2 (hfits.finish c hc),
      (toldCalls_iff candidates).2 hfits.told⟩

end

/-! ## Two answers -/

/-- A part with a text alone. -/
def textPart (text : String) : Part := ⟨text, false, none, none, none, none⟩

def thoughtPart (text : String) : Part := { textPart text with thought := true }

def imagePart : Part := { textPart "" with inlineData := some ⟨"image/png", "iVBO"⟩ }

/-- A call of the weather. -/
def callPart : Part :=
  { textPart "" with functionCall := some ⟨"weather", some "\x7b\"city\":\"Paris\"\x7d", "7f3a"⟩ }

/-- An answer that begins with its call. -/
def callFirst : List Candidate :=
  [⟨[callPart, thoughtPart "sunny", imagePart, textPart "It is sunny."], some "STOP", 0⟩]

def callFirstChunks : List (List Candidate) :=
  [[⟨[callPart], none, 0⟩], [⟨[thoughtPart "sunny"], none, 0⟩],
    [⟨[imagePart, textPart "It is sunny."], some "STOP", 0⟩]]

/-- An answer that ends with its call, and has its thought and its text in one chunk. -/
def callLast : List Candidate :=
  [⟨[thoughtPart "Where?", textPart "Let me look.", callPart], some "STOP", 0⟩]

def callLastChunks : List (List Candidate) :=
  [[⟨[thoughtPart "Where?", textPart "Let me look."], none, 0⟩], [⟨[callPart], some "STOP", 0⟩]]

theorem splits_callFirst : Splits callFirst callFirstChunks where
  distinct := by decide
  known := by decide
  pieces c hc := by
    rw [List.mem_singleton.1 hc]
    exact ⟨[⟨[callPart], none, 0⟩, ⟨[thoughtPart "sunny"], none, 0⟩], _, rfl, rfl, by decide, rfl⟩

theorem splits_callLast : Splits callLast callLastChunks where
  distinct := by decide
  known := by decide
  pieces c hc := by
    rw [List.mem_singleton.1 hc]
    exact ⟨[⟨[thoughtPart "Where?", textPart "Let me look."], none, 0⟩], _, rfl, rfl, by decide, rfl⟩

theorem fits_callFirst : Fits callFirst callFirstChunks where
  texts := ⟨by decide +kernel, by decide +kernel, by decide +kernel⟩
  calls _ := ⟨.inl rfl, List.forall_mem_nil _⟩
  finish c hc := by
    rw [List.mem_singleton.1 hc]
    exact ⟨by decide +kernel, by decide +kernel⟩
  told := (toldCalls_iff callFirst).1 (.cons (by decide +kernel) .nil)

theorem agrees_callFirst : Agrees callFirst callFirstChunks :=
  (classified_iff splits_callFirst (by decide +kernel)).2 fits_callFirst

/-- The text goes to the reasoning, and the stream ends the choice twice. -/
theorem not_agrees_callLast :
    Splits callLast callLastChunks ∧ DistinctIds callLast ∧
      view StreamChoice.reasoningParts 0 (geminiChatStreamHandler callLastChunks) =
        [thoughtPart "Where?", textPart "Let me look."] ∧
      finishesAt 0 callLastChunks = ["tool_calls", "stop"] ∧
      ¬ Agrees callLast callLastChunks := by
  have hfinishes : finishesAt 0 callLastChunks = ["tool_calls", "stop"] := by decide +kernel
  refine ⟨splits_callLast, by decide +kernel, by decide +kernel, hfinishes, fun h => ?_⟩
  obtain ⟨reason, hone, -⟩ := h.finish _ (List.mem_singleton_self _)
  cases hfinishes.symm.trans hone

end DazeApi.Convert.Gemini
