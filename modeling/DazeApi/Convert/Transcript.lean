import DazeApi.Convert.Chat

/-!
# What a client makes of a chat stream

A client puts the chunks of a stream together, choice by choice: it joins the contents
and the reasonings, and the fragments of tool calls by their index.
-/

namespace DazeApi.Convert

/-- A tool call with all its arguments. -/
structure ToolCall where
  id : String
  name : String
  arguments : String
deriving DecidableEq, Repr

/-- A choice put together. -/
structure Transcript where
  content : String
  reasoning : String
  calls : List (Int × ToolCall)
  finishReasons : List String
deriving DecidableEq, Repr

/-- An id or a name stays as it came first. -/
def fill (old new : String) : String := if old = "" then new else old

/-- A fragment goes to the call of its index. -/
def addFragment : List (Int × ToolCall) → ToolCallResponse → List (Int × ToolCall)
  | [], t => [(t.index.getD 0, ⟨t.id, t.name, t.arguments⟩)]
  | (i, call) :: calls, t =>
      if i = t.index.getD 0 then
        (i, ⟨fill call.id t.id, fill call.name t.name, call.arguments ++ t.arguments⟩) :: calls
      else (i, call) :: addFragment calls t

namespace Transcript

def empty : Transcript := ⟨"", "", [], []⟩

variable (tr : Transcript)

def addDelta (d : Delta) : Transcript where
  content := tr.content ++ d.getContentString
  reasoning := tr.reasoning ++ d.getReasoningContent
  calls := d.toolCalls.foldl addFragment tr.calls
  finishReasons := tr.finishReasons

def addChoice (choice : Choice) : Transcript :=
  { tr.addDelta choice.delta with
    finishReasons := tr.finishReasons ++ choice.finishReason.toList }

/-- The part of a chunk that is for the choice of an index. -/
def addChunk (index : Int) (c : Chunk) : Transcript :=
  (c.choices.filter (·.index = index)).foldl addChoice tr

end Transcript

/-- The choice of an index, put together from a stream. -/
def transcript (index : Int) (chunks : List Chunk) : Transcript :=
  chunks.foldl (·.addChunk index) .empty

/-! ## Fragments -/

/-- A fragment with a new index begins a call. -/
theorem addFragment_of_not_mem {t : ToolCallResponse} :
    ∀ {calls : List (Int × ToolCall)}, (∀ call ∈ calls, call.1 ≠ t.index.getD 0) →
      addFragment calls t = calls ++ [(t.index.getD 0, ⟨t.id, t.name, t.arguments⟩)]
  | [], _ => rfl
  | (i, call) :: calls, h => by
      rw [addFragment, if_neg (h (i, call) (by simp)),
        addFragment_of_not_mem fun call' hcall' => h call' (by simp [hcall'])]
      rfl

/-- A fragment passes the calls of other indices. -/
theorem addFragment_append {t : ToolCallResponse} {calls : List (Int × ToolCall)} :
    ∀ {pre : List (Int × ToolCall)}, (∀ call ∈ pre, call.1 ≠ t.index.getD 0) →
      addFragment (pre ++ calls) t = pre ++ addFragment calls t
  | [], _ => rfl
  | (i, call) :: pre, h => by
      rw [List.cons_append, addFragment, if_neg (h (i, call) (by simp)),
        addFragment_append fun call' hcall' => h call' (by simp [hcall'])]
      rfl

/-- A fragment without id and name gives arguments to the last call. -/
theorem addFragment_last {t : ToolCallResponse} {k : Int} {call : ToolCall}
    (hindex : t.index.getD 0 = k) (hid : t.id = "") (hname : t.name = "") :
    ∀ {calls : List (Int × ToolCall)}, (∀ call ∈ calls, call.1 ≠ k) →
      addFragment (calls ++ [(k, call)]) t =
        calls ++ [(k, { call with arguments := call.arguments ++ t.arguments })]
  | [], _ => by
      have hfill : ∀ old, fill old "" = old := by
        intro old
        rw [fill]
        split
        next h => exact h.symm
        next => rfl
      simp [addFragment, hindex, hid, hname, hfill]
  | (i, call') :: calls, h => by
      have hne : ¬ i = t.index.getD 0 := hindex.symm ▸ h (i, call') (by simp)
      rw [List.cons_append, addFragment, if_neg hne,
        addFragment_last hindex hid hname fun call'' hmem => h call'' (by simp [hmem])]
      rfl

theorem index_mem_addFragment (t : ToolCallResponse) :
    ∀ calls : List (Int × ToolCall), t.index.getD 0 ∈ (addFragment calls t).map Prod.fst
  | [] => by simp [addFragment]
  | (i, call) :: calls => by
      rw [addFragment]
      split
      next h => simp [h]
      next => exact List.mem_cons_of_mem _ (index_mem_addFragment t calls)

/-- A fragment begins a call only where its index is new. -/
theorem length_addFragment (t : ToolCallResponse) :
    ∀ calls : List (Int × ToolCall), (addFragment calls t).length =
      if t.index.getD 0 ∈ calls.map Prod.fst then calls.length else calls.length + 1
  | [] => by simp [addFragment]
  | (i, call) :: calls => by
      have ih := length_addFragment t calls
      rw [addFragment]
      by_cases h : i = t.index.getD 0
      · simp [h]
      · have h' : ¬ t.index.getD 0 = i := fun heq => h heq.symm
        simp only [h, if_false, List.length_cons, ih, List.map_cons, List.mem_cons, h', false_or]
        split
        next => rfl
        next => rfl

end DazeApi.Convert
