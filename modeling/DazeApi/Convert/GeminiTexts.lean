import Mathlib.Data.List.Flatten
import DazeApi.Convert.GeminiStream

/-!
# Which texts are reasoning

The parts of each candidate of an answer are split over the chunks of a stream.  The stream
shows the same parts as reasoning and the same as content as the answer without a stream
exactly if all media are images, no candidate has two thoughts, and a thought shares its
chunk with no other text of its candidate (`texts_iff`).
-/

namespace DazeApi.Convert.Gemini

/-- Chunks that the candidates of an answer are split over: the pieces of each have its parts
in order, and the last has its finish reason. -/
structure Splits (candidates : List Candidate) (chunks : List (List Candidate)) : Prop where
  distinct : (candidates.map (·.index)).Nodup
  known : ∀ piece ∈ chunks.flatten, piece.index ∈ candidates.map (·.index)
  pieces : ∀ c ∈ candidates, ∃ pieces last, piecesOf c.index chunks.flatten = pieces ++ [last] ∧
    (pieces ++ [last]).flatMap (·.parts) = c.parts ∧
    (∀ piece ∈ pieces, piece.finishReason = none) ∧ last.finishReason = c.finishReason

/-- The choices of an index in an answer without a stream. -/
def answeredOf (k : Int) (candidates : List Candidate) : List TextChoice :=
  (responseGeminiChat2OpenAI candidates).filter (·.index = k)

/-- The parts that a choice of a stream shows as reasoning. -/
def StreamChoice.reasoningParts (c : StreamChoice) : List Part :=
  (c.reasoningContent.getD []).map (·.part)

/-- The parts that a choice of a stream shows as content. -/
def StreamChoice.contentParts (c : StreamChoice) : List Part :=
  (c.content.getD []).map (·.part)

/-- A piece with a thought. -/
def Candidate.thinks (c : Candidate) : Bool := c.parts.any Part.thinks

/-- The texts of a stream can be told as those of the answer. -/
structure TextsFit (candidates : List Candidate) (chunks : List (List Candidate)) : Prop where
  media : ∀ c ∈ candidates, ∀ part ∈ c.parts, part.inlineData.isSome = true → part.isImage = true
  thoughts : ∀ c ∈ candidates, c.parts.countP Part.thinks ≤ 1
  alone : ∀ piece ∈ chunks.flatten, piece.thinks = true → piece.parts.countP Part.streamed = 1

section

variable {candidates : List Candidate} {chunks : List (List Candidate)} {k : Int}

/-! ## The answer without a stream -/

/-- A choice with another finish reason. -/
def TextChoice.ended (choice : TextChoice) (reason : String) : TextChoice :=
  { choice with finishReason := reason }

@[simp] theorem TextChoice.ended_index (choice : TextChoice) (reason : String) :
    (choice.ended reason).index = choice.index := rfl

/-- The choices of an answer, after candidates of which one had tool calls or none. -/
def choicesFrom : Bool → List Candidate → List TextChoice
  | _, [] => []
  | told, c :: candidates =>
      let isToolCall := told || decide (c.tools ≠ [])
      (scanned c).ended
          (if isToolCall then finishReasonToolCalls
          else (c.finishReason.map mapFinishReason).getD (scanned c).finishReason) ::
        choicesFrom isToolCall candidates

theorem foldl_addCandidate (candidates : List Candidate) (s : Bool × List TextChoice) :
    (candidates.foldl addCandidate s).2 = s.2 ++ choicesFrom s.1 candidates := by
  induction candidates generalizing s with
  | nil => simp [choicesFrom]
  | cons c candidates ih =>
      have htools : (scanned c).toolCalls = c.tools := (scanned_spec c).2.2.1
      rw [List.foldl_cons, ih, choicesFrom, ← htools]
      simp [addCandidate, TextChoice.ended]

theorem responseGeminiChat2OpenAI_eq (candidates : List Candidate) :
    responseGeminiChat2OpenAI candidates = choicesFrom false candidates := by
  rw [responseGeminiChat2OpenAI, foldl_addCandidate, List.nil_append]

theorem flatMap_choicesFrom {β : Type} {v : TextChoice → List β}
    (hv : ∀ (c : TextChoice) (reason : String), v (c.ended reason) = v c)
    (k : Int) (candidates : List Candidate) (told : Bool) :
    ((choicesFrom told candidates).filter (·.index = k)).flatMap v =
      (piecesOf k candidates).flatMap fun c => v (scanned c) := by
  induction candidates generalizing told with
  | nil => rfl
  | cons c candidates ih =>
      have hindex : (scanned c).index = c.index := (scanned_spec c).2.2.2.2
      have htail := ih (told || decide (c.tools ≠ []))
      unfold piecesOf at htail ⊢
      rw [choicesFrom, List.filter_cons, List.filter_cons]
      rw [TextChoice.ended_index, hindex]
      split
      · rw [List.flatMap_cons, List.flatMap_cons, hv, htail]
      · exact htail

theorem flatMap_answeredOf {β : Type} {v : TextChoice → List β}
    (hv : ∀ (c : TextChoice) (reason : String), v (c.ended reason) = v c)
    (k : Int) (candidates : List Candidate) :
    (answeredOf k candidates).flatMap v =
      (piecesOf k candidates).flatMap fun c => v (scanned c) := by
  rw [answeredOf, responseGeminiChat2OpenAI_eq, flatMap_choicesFrom hv]

/-! ## The pieces of a candidate -/

/-- A candidate is the only one of its index. -/
theorem piecesOf_eq_singleton (h : (candidates.map (·.index)).Nodup) {c : Candidate}
    (hc : c ∈ candidates) : piecesOf c.index candidates = [c] := by
  induction candidates with
  | nil => cases hc
  | cons d candidates ih =>
      rw [List.map_cons, List.nodup_cons] at h
      rw [piecesOf, List.filter_cons]
      rcases List.mem_cons.1 hc with rfl | hc
      · have hnone : candidates.filter (fun d => decide (d.index = c.index)) = [] := by
          rw [List.filter_eq_nil_iff]
          intro d hd heq
          exact h.1 (List.mem_map.2 ⟨d, hd, of_decide_eq_true heq⟩)
        rw [hnone, decide_eq_true rfl, if_pos rfl]
      · have hne : d.index ≠ c.index := fun heq => h.1 (List.mem_map.2 ⟨c, hc, heq.symm⟩)
        rw [decide_eq_false hne, if_neg (by decide)]
        exact ih h.2 hc

theorem piecesOf_eq_nil (h : k ∉ candidates.map (·.index)) : piecesOf k candidates = [] := by
  rw [piecesOf, List.filter_eq_nil_iff]
  intro c hc heq
  exact h (List.mem_map.2 ⟨c, hc, of_decide_eq_true heq⟩)

namespace Splits

theorem parts_eq (h : Splits candidates chunks) {c : Candidate} (hc : c ∈ candidates) :
    (piecesOf c.index chunks.flatten).flatMap (·.parts) = c.parts := by
  obtain ⟨pieces, last, hpieces, hparts, -, -⟩ := h.pieces c hc
  rw [hpieces, hparts]

theorem pieces_eq_nil (h : Splits candidates chunks) (hk : k ∉ candidates.map (·.index)) :
    piecesOf k chunks.flatten = [] := by
  refine piecesOf_eq_nil fun hmem => hk ?_
  obtain ⟨piece, hpiece, rfl⟩ := List.mem_map.1 hmem
  exact h.known piece hpiece

/-- What is one after the other in the pieces of a candidate is what it has as a whole. -/
theorem flatMap_parts (h : Splits candidates chunks) {β : Type} (f : List Part → List β)
    (happend : ∀ a b, f (a ++ b) = f a ++ f b) (hnil : f [] = []) (k : Int) :
    ((piecesOf k chunks.flatten).flatMap fun c => f c.parts) =
      (piecesOf k candidates).flatMap fun c => f c.parts := by
  have hall : ∀ cs : List Candidate,
      (cs.flatMap fun c => f c.parts) = f (cs.flatMap (·.parts)) := by
    intro cs
    induction cs with
    | nil => exact hnil.symm
    | cons c cs ih => rw [List.flatMap_cons, List.flatMap_cons, happend, ih]
  by_cases hk : k ∈ candidates.map (·.index)
  · obtain ⟨c, hc, rfl⟩ := List.mem_map.1 hk
    rw [hall, h.parts_eq hc, piecesOf_eq_singleton h.distinct hc, List.flatMap_singleton]
  · rw [h.pieces_eq_nil hk, piecesOf_eq_nil hk]

/-- A piece is one of its candidate. -/
theorem exists_candidate (h : Splits candidates chunks) {piece : Candidate}
    (hpiece : piece ∈ chunks.flatten) :
    ∃ c ∈ candidates, piece ∈ piecesOf c.index chunks.flatten := by
  obtain ⟨c, hc, hindex⟩ := List.mem_map.1 (h.known piece hpiece)
  exact ⟨c, hc, List.mem_filter.2 ⟨hpiece, decide_eq_true hindex.symm⟩⟩

end Splits

/-! ## The texts of a stream -/

/-- The same parts are shown as reasoning. -/
def SameReasoning (candidates : List Candidate) (chunks : List (List Candidate)) : Prop :=
  ∀ k, view StreamChoice.reasoningParts k (geminiChatStreamHandler chunks) =
    (answeredOf k candidates).flatMap fun c => c.reasoningContent.map (·.part)

/-- The same parts are shown as content. -/
def SameContent (candidates : List Candidate) (chunks : List (List Candidate)) : Prop :=
  ∀ k, view StreamChoice.contentParts k (geminiChatStreamHandler chunks) =
    (answeredOf k candidates).flatMap fun c => c.content.map (·.part)

/-- The reasoning of a piece: all its texts, if one is a thought. -/
def Candidate.reasoned (c : Candidate) : List Part :=
  if c.thinks then c.parts.filter Part.streamed else []

/-- The content of a piece: all its texts, if none is a thought. -/
def Candidate.contained (c : Candidate) : List Part :=
  if c.thinks then [] else c.parts.filter Part.streamed

theorem reasoningParts_streamChoice (c : Candidate) :
    (streamChoice c).reasoningParts = c.reasoned := by
  obtain ⟨htexts, -, -, hthought⟩ := scan_spec c.parts
  unfold StreamChoice.reasoningParts streamChoice Candidate.reasoned Candidate.thinks
  dsimp only
  rw [hthought, ← htexts]
  split <;> rfl

theorem contentParts_streamChoice (c : Candidate) :
    (streamChoice c).contentParts = c.contained := by
  obtain ⟨htexts, -, -, hthought⟩ := scan_spec c.parts
  unfold StreamChoice.contentParts streamChoice Candidate.contained Candidate.thinks
  dsimp only
  rw [hthought, ← htexts]
  split <;> rfl

theorem sameReasoning_iff : SameReasoning candidates chunks ↔
    ∀ k, (piecesOf k chunks.flatten).flatMap Candidate.reasoned =
      (piecesOf k candidates).flatMap fun c => (c.parts.filter Part.thinks).getLast?.toList := by
  have hstream : ∀ k, view StreamChoice.reasoningParts k (geminiChatStreamHandler chunks) =
      (piecesOf k chunks.flatten).flatMap Candidate.reasoned := by
    intro k
    rw [view_texts (fun _ => rfl) (fun _ => rfl) rfl rfl]
    simp only [reasoningParts_streamChoice]
  have hanswer : ∀ k,
      ((answeredOf k candidates).flatMap fun c => c.reasoningContent.map (·.part)) =
        (piecesOf k candidates).flatMap fun c => (c.parts.filter Part.thinks).getLast?.toList := by
    intro k
    rw [flatMap_answeredOf fun _ _ => rfl]
    exact List.flatMap_congr fun c _ => (scanned_spec c).2.1
  unfold SameReasoning
  simp only [hstream, hanswer]

theorem sameContent_iff (h : Splits candidates chunks) : SameContent candidates chunks ↔
    ∀ k, (piecesOf k chunks.flatten).flatMap Candidate.contained =
      (piecesOf k chunks.flatten).flatMap fun c => c.parts.filter Part.answered := by
  have hstream : ∀ k, view StreamChoice.contentParts k (geminiChatStreamHandler chunks) =
      (piecesOf k chunks.flatten).flatMap Candidate.contained := by
    intro k
    rw [view_texts (fun _ => rfl) (fun _ => rfl) rfl rfl]
    simp only [contentParts_streamChoice]
  have hanswer : ∀ k, ((answeredOf k candidates).flatMap fun c => c.content.map (·.part)) =
      (piecesOf k chunks.flatten).flatMap fun c => c.parts.filter Part.answered := by
    intro k
    rw [flatMap_answeredOf fun _ _ => rfl,
      h.flatMap_parts (List.filter Part.answered) (fun _ _ => List.filter_append ..) rfl]
    exact List.flatMap_congr fun c _ => (scanned_spec c).1
  unfold SameContent
  simp only [hstream, hanswer]

/-- The thoughts of a piece are among its reasoning. -/
theorem thoughts_sublist_reasoned (c : Candidate) :
    (c.parts.filter Part.thinks).Sublist c.reasoned := by
  unfold Candidate.reasoned
  split
  next => exact List.monotone_filter_right _ fun _ => Part.streamed_of_thinks
  next hthinks =>
    have hnone : c.parts.filter Part.thinks = [] := by
      rw [List.filter_eq_nil_iff]
      intro part hpart hthought
      exact hthinks (List.any_eq_true.2 ⟨part, hpart, hthought⟩)
    rw [hnone]

theorem Splits.thoughts_eq (h : Splits candidates chunks) {c : Candidate} (hc : c ∈ candidates) :
    ((piecesOf c.index chunks.flatten).flatMap fun p => p.parts.filter Part.thinks) =
      c.parts.filter Part.thinks := by
  rw [h.flatMap_parts (List.filter Part.thinks) (fun _ _ => List.filter_append ..) rfl,
    piecesOf_eq_singleton h.distinct hc, List.flatMap_singleton]

/-- A piece whose thought stands alone shows it as reasoning and nothing as content. -/
theorem TextsFit.piece (hfit : TextsFit candidates chunks) (h : Splits candidates chunks)
    {piece : Candidate} (hpiece : piece ∈ chunks.flatten) :
    piece.reasoned = piece.parts.filter Part.thinks ∧
      piece.contained = piece.parts.filter Part.answered := by
  obtain ⟨c, hc, hmem⟩ := h.exists_candidate hpiece
  have hshown : ∀ part ∈ piece.parts, part.thinks = false → part.streamed = part.answered := by
    intro part hpart hthinks
    refine Part.streamed_eq_answered (hfit.media c hc part ?_) hthinks
    rw [← h.parts_eq hc]
    exact List.mem_flatMap.2 ⟨piece, hmem, hpart⟩
  cases hthinks : piece.thinks with
  | false =>
      have hnone : ∀ part ∈ piece.parts, part.thinks = false :=
        fun part hpart => Bool.eq_false_iff.2 (List.any_eq_false.1 hthinks part hpart)
      have hthoughts : piece.parts.filter Part.thinks = [] := by
        rw [List.filter_eq_nil_iff]
        intro part hpart
        rw [hnone part hpart]
        decide
      simp only [Candidate.reasoned, Candidate.contained, hthinks, hthoughts]
      exact ⟨rfl, List.filter_congr fun part hpart => hshown part hpart (hnone part hpart)⟩
  | true =>
      have hsublist := thoughts_sublist_reasoned piece
      have hreasoned : piece.reasoned = piece.parts.filter Part.streamed := if_pos hthinks
      have hsome : 1 ≤ (piece.parts.filter Part.thinks).length := by
        rw [← List.countP_eq_length_filter]
        exact List.countP_pos_iff.2 (List.any_eq_true.1 hthinks)
      have halone : (piece.parts.filter Part.streamed).length = 1 := by
        rw [← List.countP_eq_length_filter]
        exact hfit.alone piece hpiece hthinks
      have hthoughts : piece.parts.filter Part.thinks = piece.reasoned :=
        hsublist.eq_of_length_le (by rw [hreasoned, halone]; exact hsome)
      refine ⟨hthoughts.symm, ?_⟩
      have hcontained : piece.contained = [] := if_pos hthinks
      rw [hcontained, eq_comm, List.filter_eq_nil_iff]
      intro part hpart hanswered
      -- a part that is shown is the thought, which is no content
      have hthought : part.thinks = true := by
        by_contra hno
        have hstreamed := (hshown part hpart (Bool.eq_false_iff.2 hno)).trans hanswered
        have hmem : part ∈ piece.parts.filter Part.thinks := by
          rw [hthoughts, hreasoned]
          exact List.mem_filter.2 ⟨hpart, hstreamed⟩
        exact hno (List.mem_filter.1 hmem).2
      rw [Part.not_answered_of_thinks hthought] at hanswered
      cases hanswered

theorem texts_of_fit (hfit : TextsFit candidates chunks) (h : Splits candidates chunks) :
    SameReasoning candidates chunks ∧ SameContent candidates chunks := by
  have hpiece : ∀ k, ∀ piece ∈ piecesOf k chunks.flatten,
      piece.reasoned = piece.parts.filter Part.thinks ∧
        piece.contained = piece.parts.filter Part.answered :=
    fun k piece hmem => hfit.piece h (List.mem_of_mem_filter hmem)
  rw [sameReasoning_iff, sameContent_iff h]
  refine ⟨fun k => ?_, fun k => List.flatMap_congr fun piece hmem => (hpiece k piece hmem).2⟩
  rw [List.flatMap_congr fun piece hmem => (hpiece k piece hmem).1,
    h.flatMap_parts (List.filter Part.thinks) (fun _ _ => List.filter_append ..) rfl]
  refine List.flatMap_congr fun c hc => ?_
  have hle := hfit.thoughts c (List.mem_of_mem_filter hc)
  rw [List.countP_eq_length_filter] at hle
  match c.parts.filter Part.thinks, hle with
  | [], _ => rfl
  | [part], _ => rfl

theorem fit_of_texts (h : Splits candidates chunks) (hreasoning : SameReasoning candidates chunks)
    (hcontent : SameContent candidates chunks) : TextsFit candidates chunks := by
  rw [sameReasoning_iff] at hreasoning
  rw [sameContent_iff h] at hcontent
  have hone : ∀ c ∈ candidates,
      ((piecesOf c.index chunks.flatten).flatMap Candidate.reasoned).length ≤ 1 := by
    intro c hc
    rw [hreasoning, piecesOf_eq_singleton h.distinct hc, List.flatMap_singleton]
    cases (c.parts.filter Part.thinks).getLast? <;> simp
  refine ⟨?_, ?_, ?_⟩
  · intro c hc part hpart hmedia
    have hanswered : part ∈ (piecesOf c.index chunks.flatten).flatMap fun p =>
        p.parts.filter Part.answered := by
      rw [← h.parts_eq hc] at hpart
      obtain ⟨piece, hpiece, hpart⟩ := List.mem_flatMap.1 hpart
      refine List.mem_flatMap.2 ⟨piece, hpiece, List.mem_filter.2 ⟨hpart, ?_⟩⟩
      simp [Part.answered, hmedia]
    rw [← hcontent] at hanswered
    obtain ⟨piece, -, hcontained⟩ := List.mem_flatMap.1 hanswered
    unfold Candidate.contained at hcontained
    split at hcontained
    next => cases hcontained
    next => exact Part.isImage_of_streamed (List.mem_filter.1 hcontained).2 hmedia
  · intro c hc
    rw [List.countP_eq_length_filter, ← h.thoughts_eq hc]
    exact (List.Sublist.flatMap_right _ fun p _ => thoughts_sublist_reasoned p).length_le.trans
      (hone c hc)
  · intro piece hpiece hthinks
    obtain ⟨c, hc, hmem⟩ := h.exists_candidate hpiece
    have hreasoned : piece.reasoned = piece.parts.filter Part.streamed := if_pos hthinks
    have hle : (piece.parts.filter Part.streamed).length ≤ 1 := by
      rw [← hreasoned]
      have hsublist : piece.reasoned.Sublist
          ((piecesOf c.index chunks.flatten).flatMap Candidate.reasoned) := by
        obtain ⟨before, after, hsplit⟩ := List.append_of_mem hmem
        rw [hsplit, List.flatMap_append, List.flatMap_cons]
        exact (List.sublist_append_left _ _).trans (List.sublist_append_right _ _)
      exact hsublist.length_le.trans (hone c hc)
    obtain ⟨part, hpart, hthought⟩ := List.any_eq_true.1 hthinks
    have hpos : 0 < piece.parts.countP Part.streamed :=
      List.countP_pos_iff.2 ⟨part, hpart, Part.streamed_of_thinks hthought⟩
    rw [← List.countP_eq_length_filter] at hle
    omega

/-- When the texts of a stream are told as those of the answer. -/
theorem texts_iff (h : Splits candidates chunks) :
    SameReasoning candidates chunks ∧ SameContent candidates chunks ↔
      TextsFit candidates chunks :=
  ⟨fun htexts => fit_of_texts h htexts.1 htexts.2, fun hfit => texts_of_fit hfit h⟩

end

end DazeApi.Convert.Gemini
