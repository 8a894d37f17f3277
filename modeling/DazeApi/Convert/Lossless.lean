import Mathlib.Algebra.Ring.Nat
import DazeApi.Convert.ClaudeEvents

/-!
# What the Claude conversion loses

An answer that is streamed in chunks says the same thing as its chunks put together:
some reasoning, some content and a list of tool calls.  `said` reads this off the chunks
and `Received` off the events that the converter makes of them, and the converter for
whole responses is given the chunks put together.

The stream loses whatever its branches do not look at: content beside reasoning, text
beside tool calls, all tool calls of the first chunk but one, and arguments for a tool
call whose block was closed.  `kept` says of the chunks that nothing of this occurs.
-/

namespace DazeApi.Convert.OpenAI2Claude

/-! ## What the chunks say -/

/-- A tool call with all its arguments. -/
structure Call where
  id : String
  name : String
  arguments : String
deriving DecidableEq, Repr

structure Said where
  reasoning : String
  content : String
  calls : List Call
deriving DecidableEq, Repr

/-- A fragment of a tool call is the next call, or more arguments of one. -/
def addFragment (calls : List Call) (p : Int × ToolCallResponse) : List Call :=
  if p.1 = calls.length then calls ++ [⟨p.2.id, p.2.name, p.2.arguments⟩]
  else
    calls.modify p.1.toNat fun call =>
      { call with arguments := call.arguments ++ p.2.arguments }

def Said.addDelta (a : Said) (d : Delta) : Said where
  reasoning := a.reasoning ++ d.getReasoningContent
  content := a.content ++ d.getContentString
  calls := (State.offsets d.toolCalls).foldl addFragment a.calls

def Said.add (a : Said) (c : Chunk) : Said :=
  match c.choices with
  | [] => a
  | choice :: _ => a.addDelta choice.delta

def said (chunks : List Chunk) : Said := chunks.foldl Said.add ⟨"", "", []⟩

/-- One fragment after those of so many calls: the first of the next call, with its id
and its name, or a later one, with neither. -/
def admitCall (calls : Nat) (p : Int × ToolCallResponse) : Option Nat :=
  if p.1 = calls then if p.2.id ≠ "" ∧ p.2.name ≠ "" then some (calls + 1) else none
  else if 0 ≤ p.1 ∧ p.1 < calls ∧ p.2.id = "" ∧ p.2.name = "" then some calls
  else none

/-- The reason with which a chunk of one choice ends the answer. -/
def ending (c : Chunk) : Option (Option String) :=
  match c.choices with
  | [choice] => some choice.finish
  | _ => none

/-- A streamed answer of one choice. -/
structure Answer where
  init : List Chunk
  last : Chunk
  reason : String
  goes_on : ∀ c ∈ init, ending c = some none
  ends : ending last = some (some reason)
  numbered : (Run.exec admitCall 0 ((init ++ [last]).flatMap fragments)).isSome = true
  tool_calls : (said (init ++ [last])).calls ≠ [] → reason = "tool_calls"

namespace Answer

variable (a : Answer)

def chunks : List Chunk := a.init ++ [a.last]

/-- The answer as a response without stream. -/
def response (id model : String) (usage : Usage) : TextResponse where
  id := id
  model := model
  choices :=
    [{ index := 0
       message :=
        { content := .text (said a.chunks).content
          reasoningContent := (said a.chunks).reasoning
          toolCalls := (said a.chunks).calls.map fun call =>
            ⟨none, call.id, call.name, call.arguments⟩ }
       finishReason := a.reason }]
  usage := usage

end Answer

/-! ## What the events say -/

/-- A `tool_use` block as far as it was received. -/
structure ToolBlock where
  index : Int
  call : Call
deriving DecidableEq, Repr

structure Received where
  reasoning : String
  content : String
  blocks : List ToolBlock
  stopReason : Option String
deriving DecidableEq, Repr

/-- More arguments for the block of an index. -/
def extend (i : Int) (s : String) : List ToolBlock → List ToolBlock
  | [] => []
  | b :: bs =>
      if b.index = i then
        { b with call := { b.call with arguments := b.call.arguments ++ s } } :: bs
      else b :: extend i s bs

namespace Received

def read (r : Received) : Event → Received
  | .contentBlockStart i (.toolUse id name) =>
      { r with blocks := r.blocks ++ [⟨i, id, name, ""⟩] }
  | .contentBlockDelta i (.inputJson s) => { r with blocks := extend i s r.blocks }
  | .contentBlockDelta _ (.text s) => { r with content := r.content ++ s }
  | .contentBlockDelta _ (.thinking s) => { r with reasoning := r.reasoning ++ s }
  | .messageDelta _ reason => { r with stopReason := some reason }
  | _ => r

def said (r : Received) : Said := ⟨r.reasoning, r.content, r.blocks.map (·.call)⟩

end Received

def received (es : List Event) : Received := es.foldl Received.read ⟨"", "", [], none⟩

/-! ## Agreement of the two converters -/

section

variable {ω : Type} (unmarshal : String → Option ω)

/-- The text of a message. -/
def ClaudeMessage.text (m : ClaudeMessage ω) : String :=
  m.content.foldl (fun acc c => match c with | .text s => acc ++ s | _ => acc) ""

/-- The `tool_use` blocks of a message. -/
def ClaudeMessage.toolUses (m : ClaudeMessage ω) : List (String × String × Input ω) :=
  m.content.filterMap fun c =>
    match c with
    | .toolUse id name input => some (id, name, input)
    | .text _ => none

/-- The stream says what the message says. -/
def Agrees (r : Received) (m : ClaudeMessage ω) : Prop :=
  r.content = m.text ∧
    r.blocks.map (fun b => (b.call.id, b.call.name, inputOf unmarshal b.call.arguments)) =
      m.toolUses ∧
    r.stopReason = some m.stopReason

end

/-! ## What is kept -/

/-- How many tool calls have appeared, and from which on they are in the open group. -/
structure Group where
  calls : Nat
  first : Nat
deriving DecidableEq, Repr

namespace Group

variable (g : Group)

def close : Group := { g with first := g.calls }

/-- Reasoning or content closes the group. -/
def text (d : Delta) : Group :=
  if d.getReasoningContent ≠ "" ∨ d.getContentString ≠ "" then g.close else g

/-- Arguments have to be for a call of the open group. -/
def fragment (p : Int × ToolCallResponse) : Option Group :=
  if p.2.name ≠ "" then some { g with calls := g.calls + 1 }
  else if p.2.arguments = "" ∨ g.first ≤ p.1 then some g
  else none

/-- Of the first chunk one tool call is read, and reasoning or content. -/
def firstDelta (d : Delta) : Option Group :=
  if d.toolCalls.tail.all (fun t => t.name = "" ∧ t.arguments = "") ∧
      (d.getReasoningContent = "" ∨ d.getContentString = "") then
    some (Group.text ⟨if d.toolCalls = [] then 0 else 1, 0⟩ d)
  else none

/-- Of another chunk the tool calls are read, or reasoning, or content. -/
def nextDelta (d : Delta) : Option Group :=
  match d.toolCalls with
  | [] => if d.getReasoningContent = "" ∨ d.getContentString = "" then some (g.text d) else none
  | ts =>
      if d.getReasoningContent = "" ∧ d.getContentString = "" then
        Run.exec fragment g (State.offsets ts)
      else none

def firstChunk (c : Chunk) : Option Group :=
  match c.choices with
  | [] => some ⟨0, 0⟩
  | choice :: _ => firstDelta choice.delta

def nextChunk (c : Chunk) : Option Group :=
  match c.choices with
  | [] => some g
  | choice :: _ => g.nextDelta choice.delta

end Group

/-- Everything in the chunks is read, and every argument finds its block open. -/
def kept : List Chunk → Bool
  | [] => true
  | c :: cs => ((Group.firstChunk c).bind fun g => Run.exec Group.nextChunk g cs).isSome

/-! ## Weights

What a stream has lost it does not find again, so that what was received is compared
with what was said by its size. -/

def Call.weight (call : Call) : Nat := call.arguments.length + 1

def Said.weight (a : Said) : Nat :=
  a.reasoning.length + a.content.length + (a.calls.map Call.weight).sum

/-- What an event can add. -/
def Event.weight : Event → Nat
  | .contentBlockStart _ (.toolUse _ _) => 1
  | .contentBlockDelta _ (.inputJson s) => s.length
  | .contentBlockDelta _ (.text s) => s.length
  | .contentBlockDelta _ (.thinking s) => s.length
  | _ => 0

/-- What a fragment of a tool call adds. -/
def fragmentWeight (p : Int × ToolCallResponse) : Nat :=
  p.2.arguments.length + if p.2.name ≠ "" then 1 else 0

theorem weight_extend (i : Int) (s : String) :
    ∀ bs : List ToolBlock, (((extend i s bs).map (·.call)).map Call.weight).sum ≤
      ((bs.map (·.call)).map Call.weight).sum + s.length
  | [] => by simp [extend]
  | b :: bs => by
      have ih := weight_extend i s bs
      rw [extend]
      split
      next =>
        simp only [List.map_cons, List.sum_cons, Call.weight, String.length_append]
        omega
      next =>
        simp only [List.map_cons, List.sum_cons]
        omega

theorem weight_read (r : Received) (e : Event) :
    (r.read e).said.weight ≤ r.said.weight + e.weight := by
  cases e with
  | contentBlockStart i b =>
      cases b <;> simp [Received.read, Received.said, Said.weight, Event.weight, Call.weight]
      omega
  | contentBlockDelta i d =>
      cases d with
      | inputJson s =>
          have h := weight_extend i s r.blocks
          simp only [Received.read, Received.said, Said.weight, Event.weight]
          omega
      | text s =>
          simp only [Received.read, Received.said, Said.weight, Event.weight, String.length_append]
          omega
      | thinking s =>
          simp only [Received.read, Received.said, Said.weight, Event.weight, String.length_append]
          omega
  | _ => exact Nat.le_refl _

theorem weight_reads : ∀ (es : List Event) (r : Received),
    (es.foldl Received.read r).said.weight ≤ r.said.weight + (es.map Event.weight).sum
  | [], r => by simp
  | e :: es, r => by
      have hread := weight_read r e
      have hrest := weight_reads es (r.read e)
      rw [List.foldl_cons, List.map_cons, List.sum_cons]
      omega

theorem weight_toolEvents (base : Int) (p : Int × ToolCallResponse) :
    ((State.toolEvents base p).map Event.weight).sum = fragmentWeight p := by
  simp only [State.toolEvents, fragmentWeight, List.map_append, List.sum_append]
  split <;> split <;> simp_all [Event.weight]
  omega

theorem weight_toolEvents_flatMap (base : Int) : ∀ ps : List (Int × ToolCallResponse),
    ((ps.flatMap (State.toolEvents base)).map Event.weight).sum = (ps.map fragmentWeight).sum
  | [] => rfl
  | p :: ps => by
      rw [List.flatMap_cons, List.map_append, List.sum_append, weight_toolEvents,
        weight_toolEvents_flatMap base ps, List.map_cons, List.sum_cons]

theorem weight_modify (s : String) : ∀ (calls : List Call) (k : Nat), k < calls.length →
    ((calls.modify k fun call => { call with arguments := call.arguments ++ s }).map
        Call.weight).sum = (calls.map Call.weight).sum + s.length
  | [], _, hk => by cases hk
  | call :: calls, 0, _ => by
      simp only [List.modify_zero_cons, List.map_cons, List.sum_cons, Call.weight,
        String.length_append]
      omega
  | call :: calls, k + 1, hk => by
      have ih := weight_modify s calls k (by simpa using hk)
      simp only [List.modify_succ_cons, List.map_cons, List.sum_cons, ih]
      omega

/-- A fragment of the next call, or of one that has appeared. -/
theorem admitCall_cases {calls n : Nat} {p : Int × ToolCallResponse}
    (h : admitCall calls p = some n) :
    p.1 = calls ∧ p.2.name ≠ "" ∧ n = calls + 1 ∨
      0 ≤ p.1 ∧ p.1 < calls ∧ p.2.name = "" ∧ n = calls := by
  simp only [admitCall] at h
  split at h
  next hk =>
    split at h
    next hname => exact Or.inl ⟨hk, hname.2, (Option.some.inj h).symm⟩
    next => cases h
  next =>
    split at h
    next hlater => exact Or.inr ⟨hlater.1, hlater.2.1, hlater.2.2.2, (Option.some.inj h).symm⟩
    next => cases h

theorem weight_addFragment {calls : List Call} {n : Nat} {p : Int × ToolCallResponse}
    (h : admitCall calls.length p = some n) :
    (addFragment calls p).length = n ∧
      ((addFragment calls p).map Call.weight).sum =
        (calls.map Call.weight).sum + fragmentWeight p := by
  rcases admitCall_cases h with ⟨hk, hname, rfl⟩ | ⟨h0, hk, hname, rfl⟩
  · rw [addFragment, if_pos hk]
    simp [fragmentWeight, hname, Call.weight]
  · rw [addFragment, if_neg (by omega), weight_modify _ _ _ (by omega)]
    simp [fragmentWeight, hname]

theorem weight_addFragments : ∀ (ps : List (Int × ToolCallResponse)) {calls : List Call} {n : Nat},
    Run.exec admitCall calls.length ps = some n →
      (ps.foldl addFragment calls).length = n ∧
        ((ps.foldl addFragment calls).map Call.weight).sum =
          (calls.map Call.weight).sum + (ps.map fragmentWeight).sum
  | [], calls, n, h => by
      cases h
      simp
  | p :: ps, calls, n, h => by
      obtain ⟨m, hm, hms⟩ := Run.exec_cons_eq_some.1 h
      obtain ⟨hlength, hweight⟩ := weight_addFragment hm
      rw [← hlength] at hms
      obtain ⟨hlength', hweight'⟩ := weight_addFragments ps hms
      refine ⟨hlength', ?_⟩
      rw [List.foldl_cons, hweight', hweight, List.map_cons, List.sum_cons]
      omega

/-- What a delta adds. -/
def deltaWeight (d : Delta) : Nat :=
  d.getReasoningContent.length + d.getContentString.length +
    ((State.offsets d.toolCalls).map fragmentWeight).sum

theorem weight_addDelta {a : Said} {d : Delta} {n : Nat}
    (h : Run.exec admitCall a.calls.length (State.offsets d.toolCalls) = some n) :
    (a.addDelta d).calls.length = n ∧ (a.addDelta d).weight = a.weight + deltaWeight d := by
  obtain ⟨hlength, hweight⟩ := weight_addFragments _ h
  refine ⟨hlength, ?_⟩
  simp only [Said.weight, Said.addDelta, String.length_append, hweight, deltaWeight]
  omega

/-! ## Blocks and calls -/

/-- Arguments for an index without a block are lost. -/
theorem extend_of_not_mem {i : Int} (s : String) :
    ∀ {bs : List ToolBlock}, (∀ b ∈ bs, b.index ≠ i) → extend i s bs = bs
  | [], _ => rfl
  | b :: bs, h => by
      rw [extend, if_neg (h b (by simp)), extend_of_not_mem s fun b' hb' => h b' (by simp [hb'])]

theorem extend_append {i : Int} (s : String) (cs : List ToolBlock) :
    ∀ {bs : List ToolBlock}, (∀ b ∈ bs, b.index ≠ i) →
      extend i s (bs ++ cs) = bs ++ extend i s cs
  | [], _ => rfl
  | b :: bs, h => by
      rw [List.cons_append, extend, if_neg (h b (by simp)),
        extend_append s cs fun b' hb' => h b' (by simp [hb'])]
      rfl

/-- Arguments for the block at a position, which is the first of its index. -/
theorem calls_extend {i : Int} (s : String) :
    ∀ {bs : List ToolBlock} {k : Nat}, (∀ b, bs[k]? = some b → b.index = i) →
      (∀ j b, j < k → bs[j]? = some b → b.index ≠ i) →
      (extend i s bs).map (·.call) = (bs.map (·.call)).modify k fun call =>
        { call with arguments := call.arguments ++ s }
  | [], k, _, _ => by simp [extend]
  | b :: bs, 0, hat, _ => by
      rw [extend, if_pos (hat b rfl)]
      simp
  | b :: bs, k + 1, hat, hbefore => by
      rw [extend, if_neg (hbefore 0 b (by omega) rfl)]
      have hat' : ∀ b', bs[k]? = some b' → b'.index = i := hat
      have hbefore' : ∀ j b', j < k → bs[j]? = some b' → b'.index ≠ i :=
        fun j b' hj hb' => hbefore (j + 1) b' (by omega) hb'
      simp [calls_extend s hat' hbefore']

theorem index_extend (i : Int) (s : String) :
    ∀ bs : List ToolBlock, (extend i s bs).map (·.index) = bs.map (·.index)
  | [] => rfl
  | b :: bs => by
      rw [extend]
      split
      next => simp
      next => simp [index_extend i s bs]

/-- The blocks of the calls of the open group stand from `base` on, the others before. -/
def Placed (base : Int) (first : Nat) (bs : List ToolBlock) : Prop :=
  ∀ j i, (bs.map (·.index))[j]? = some i → if first ≤ j then i = base + j else i < base

theorem Placed.ne {base k : Int} {first : Nat} {bs : List ToolBlock} (h : Placed base first bs)
    (h0 : 0 ≤ k) {j : Nat} {b : ToolBlock} (hj : bs[j]? = some b) (hk : k < first ∨ k ≠ j) :
    b.index ≠ base + k := by
  have hindex := h j b.index (by simp [hj])
  split at hindex
  next => omega
  next => omega

theorem Placed.append {base : Int} {first : Nat} {bs : List ToolBlock} (h : Placed base first bs)
    (hfirst : first ≤ bs.length) (call : Call) :
    Placed base first (bs ++ [⟨base + bs.length, call⟩]) := by
  intro j i hj
  rw [List.map_append] at hj
  by_cases hlt : j < bs.length
  · rw [List.getElem?_append_left (by simpa using hlt)] at hj
    exact h j i hj
  · rw [List.getElem?_append_right (by simpa using hlt), List.length_map] at hj
    have hzero : j - bs.length = 0 := by
      have := List.getElem?_eq_some_iff.1 hj
      obtain ⟨hlen, -⟩ := this
      simpa using hlen
    rw [hzero] at hj
    have hi : base + bs.length = i := by simpa using hj
    rw [if_pos (by omega)]
    omega

/-! ## The fragments of a chunk -/

/-- What has been received is what was said, and the blocks stand where they belong; or
something is lost. -/
def Reads (base : Int) (r : Received) (a : Said) : Option Group → Prop
  | none => r.said.weight < a.weight
  | some g =>
      r.said = a ∧ a.calls.length = g.calls ∧ g.first ≤ g.calls ∧ Placed base g.first r.blocks

/-- A fragment that is said. -/
def Said.fragment (a : Said) (p : Int × ToolCallResponse) : Said :=
  { a with calls := addFragment a.calls p }

theorem addFragment_empty {calls : List Call} {p : Int × ToolCallResponse}
    (hk : p.1 ≠ calls.length) (hargs : p.2.arguments = "") : addFragment calls p = calls := by
  rw [addFragment, if_neg hk, hargs]
  have hid : (fun call : Call => { call with arguments := call.arguments ++ "" }) = id := by
    funext call
    simp
  rw [hid, List.modify_id]

section

variable {base : Int} {r : Received} {a : Said} {g : Group} {p : Int × ToolCallResponse}

/-- The first fragment of a call starts a block of the group. -/
theorem reads_first (h : Reads base r a (some g)) (hk : p.1 = g.calls) (hname : p.2.name ≠ "") :
    Reads base ((State.toolEvents base p).foldl Received.read r) (a.fragment p)
      (some { g with calls := g.calls + 1 }) := by
  obtain ⟨rfl, hcalls, hfirst, hplaced⟩ := h
  have hlength : r.blocks.length = g.calls := by simpa [Received.said] using hcalls
  have hother : ∀ b ∈ r.blocks, b.index ≠ base + p.1 := by
    intro b hb
    obtain ⟨j, hj⟩ := List.mem_iff_getElem?.1 hb
    obtain ⟨hjlt, -⟩ := List.getElem?_eq_some_iff.1 hj
    exact hplaced.ne (by omega) hj (Or.inr (by omega))
  -- The start and the arguments make one block.
  have hread : (State.toolEvents base p).foldl Received.read r =
      { r with blocks := r.blocks ++ [⟨base + p.1, p.2.id, p.2.name, p.2.arguments⟩] } := by
    simp only [State.toolEvents, hname, ne_eq, not_false_eq_true, if_true, List.cons_append,
      List.nil_append, List.foldl_cons, Received.read]
    by_cases hargs : p.2.arguments = ""
    · simp [hargs]
    · simp [hargs, Received.read, extend_append _ _ hother, extend]
  rw [hread]
  refine ⟨?_, ?_, by simp only; omega, ?_⟩
  · simp [Received.said, Said.fragment, addFragment, hk, hlength]
  · simp [Said.fragment, addFragment, hk, hcalls]
  · rw [hk, ← hlength]
    exact hplaced.append (by omega) _

/-- A later fragment is received if its call is of the open group. -/
theorem reads_later (h : Reads base r a (some g)) (h0 : 0 ≤ p.1) (hk : p.1 < g.calls)
    (hname : p.2.name = "") :
    Reads base ((State.toolEvents base p).foldl Received.read r) (a.fragment p)
      (if p.2.arguments = "" ∨ g.first ≤ p.1 then some g else none) := by
  obtain ⟨rfl, hcalls, hfirst, hplaced⟩ := h
  have hne : p.1 ≠ r.said.calls.length := by omega
  by_cases hargs : p.2.arguments = ""
  · have hsame : r.said.fragment p = r.said := by
      rw [Said.fragment, addFragment_empty hne hargs]
    rw [if_pos (Or.inl hargs), hsame]
    simp only [State.toolEvents, hname, hargs]
    exact ⟨rfl, hcalls, hfirst, hplaced⟩
  · have hread : (State.toolEvents base p).foldl Received.read r =
        { r with blocks := extend (base + p.1) p.2.arguments r.blocks } := by
      simp [State.toolEvents, hname, hargs, Received.read]
    rw [hread]
    by_cases hlive : g.first ≤ p.1
    · rw [if_pos (Or.inr hlive)]
      have hat : ∀ b, r.blocks[p.1.toNat]? = some b → b.index = base + p.1 := by
        intro b hb
        have hindex := hplaced p.1.toNat b.index (by simp [hb])
        rw [if_pos (by omega)] at hindex
        omega
      have hbefore : ∀ j b, j < p.1.toNat → r.blocks[j]? = some b → b.index ≠ base + p.1 :=
        fun j b hj hb => hplaced.ne h0 hb (Or.inr (by omega))
      have hextend := calls_extend p.2.arguments hat hbefore
      refine ⟨?_, ?_, hfirst, ?_⟩
      · rw [Said.fragment, addFragment, if_neg hne]
        simp only [Received.said, hextend]
      · rw [Said.fragment, addFragment, if_neg hne]
        simpa using hcalls
      · intro j i hj
        rw [index_extend] at hj
        exact hplaced j i hj
    · rw [if_neg (by simp [hargs, hlive])]
      have hlost : extend (base + p.1) p.2.arguments r.blocks = r.blocks := by
        refine extend_of_not_mem _ fun b hb => ?_
        obtain ⟨j, hj⟩ := List.mem_iff_getElem?.1 hb
        exact hplaced.ne h0 hj (Or.inl (by omega))
      have hweight := weight_modify p.2.arguments r.said.calls p.1.toNat (by omega)
      have hpos : 0 < p.2.arguments.length := by
        rw [Nat.pos_iff_ne_zero]
        simpa using hargs
      simp only [Reads, hlost, Said.fragment, addFragment, hne, if_false, Said.weight, hweight]
      simp only [Received.said]
      omega

end

/-- One fragment. -/
theorem reads_fragment {base : Int} {r : Received} {a : Said} {g : Group}
    {p : Int × ToolCallResponse} {n : Nat} (h : Reads base r a (some g))
    (hp : admitCall g.calls p = some n) :
    Reads base ((State.toolEvents base p).foldl Received.read r) (a.fragment p) (g.fragment p) ∧
      ∀ g', g.fragment p = some g' → g'.calls = n := by
  rcases admitCall_cases hp with ⟨hk, hname, rfl⟩ | ⟨h0, hk, hname, rfl⟩
  · have hfragment : g.fragment p = some { g with calls := g.calls + 1 } := by
      simp [Group.fragment, hname]
    rw [hfragment]
    refine ⟨reads_first h hk hname, ?_⟩
    rintro g' ⟨⟩
    rfl
  · have hfragment : g.fragment p =
        if p.2.arguments = "" ∨ g.first ≤ p.1 then some g else none := by
      simp [Group.fragment, hname]
    rw [hfragment]
    refine ⟨reads_later h h0 hk hname, ?_⟩
    intro g' hg'
    split at hg'
    next =>
      cases hg'
      rfl
    next => cases hg'

theorem foldl_fragment : ∀ (ps : List (Int × ToolCallResponse)) (a : Said),
    ps.foldl Said.fragment a = { a with calls := ps.foldl addFragment a.calls }
  | [], _ => rfl
  | p :: ps, a => by
      rw [List.foldl_cons, foldl_fragment ps, List.foldl_cons]
      rfl

theorem weight_foldl_fragment {ps : List (Int × ToolCallResponse)} {a : Said} {n : Nat}
    (hn : Run.exec admitCall a.calls.length ps = some n) :
    (ps.foldl Said.fragment a).weight = a.weight + (ps.map fragmentWeight).sum := by
  obtain ⟨-, hweight⟩ := weight_addFragments ps hn
  rw [foldl_fragment]
  simp only [Said.weight, hweight]
  omega

/-- What is lost stays lost. -/
theorem weight_fragments {base : Int} {ps : List (Int × ToolCallResponse)} {r : Received}
    {a : Said} {n : Nat} (h : r.said.weight < a.weight)
    (hn : Run.exec admitCall a.calls.length ps = some n) :
    ((ps.flatMap (State.toolEvents base)).foldl Received.read r).said.weight <
      (ps.foldl Said.fragment a).weight := by
  have hreads := weight_reads (ps.flatMap (State.toolEvents base)) r
  rw [weight_toolEvents_flatMap] at hreads
  rw [weight_foldl_fragment hn]
  omega

/-- The fragments of a chunk. -/
theorem reads_fragments {base : Int} :
    ∀ (ps : List (Int × ToolCallResponse)) {r : Received} {a : Said} {g : Group} {n : Nat},
      Reads base r a (some g) → Run.exec admitCall g.calls ps = some n →
      Reads base ((ps.flatMap (State.toolEvents base)).foldl Received.read r)
          (ps.foldl Said.fragment a) (Run.exec Group.fragment g ps) ∧
        ∀ g', Run.exec Group.fragment g ps = some g' → g'.calls = n
  | [], r, a, g, n, h, hn => by
      cases hn
      refine ⟨h, ?_⟩
      rintro g' ⟨⟩
      rfl
  | p :: ps, r, a, g, n, h, hn => by
      obtain ⟨m, hm, hms⟩ := Run.exec_cons_eq_some.1 hn
      obtain ⟨hone, hcalls⟩ := reads_fragment h hm
      rw [List.flatMap_cons, List.foldl_append, List.foldl_cons, Run.exec]
      cases hg : g.fragment p with
      | none =>
          rw [hg] at hone
          have hlength : (a.fragment p).calls.length = m := by
            obtain ⟨rfl, hcalls, -⟩ := h
            exact (weight_addFragment (by rw [hcalls]; exact hm)).1
          refine ⟨weight_fragments hone (hlength.symm ▸ hms), ?_⟩
          rintro g' ⟨⟩
      | some g₁ =>
          rw [hg] at hone
          have hcalls₁ := hcalls g₁ hg
          exact reads_fragments ps hone (hcalls₁ ▸ hms)

/-! ## The state of the converter -/

/-- What was received of the events so far. -/
def heard (s : State) : Received := received s.events

theorem heard_emit (s : State) (es : List Event) :
    heard (s.emit es) = es.foldl Received.read (heard s) := List.foldl_append

/-- Stops say nothing. -/
theorem read_openStops (s : State) (r : Received) : s.openStops.foldl Received.read r = r := by
  have hstop : ∀ e ∈ s.openStops, ∀ r : Received, r.read e = r := by
    intro e he r
    rw [State.openStops] at he
    split at he
    next => cases List.mem_singleton.1 he; rfl
    next => cases List.mem_singleton.1 he; rfl
    next =>
      obtain ⟨offset, -, rfl⟩ := List.mem_map.1 he
      rfl
    next => cases he
  generalize s.openStops = es at hstop
  induction es with
  | nil => rfl
  | cons e es ih =>
      rw [List.foldl_cons, hstop e (by simp)]
      exact ih fun e' he' => hstop e' (by simp [he'])

theorem heard_advance (s : State) : heard s.stopOpenBlocksAndAdvance = heard s := by
  have hstop : heard s.stopOpenBlocks = heard s := by
    rw [State.stopOpenBlocks, heard_emit, read_openStops]
  rw [State.stopOpenBlocksAndAdvance]
  split
  next => rfl
  next => exact hstop
  next => exact hstop

theorem heard_enterTools (s : State) : heard s.enterTools = heard s := by
  rw [State.enterTools]
  split
  next => exact heard_advance s
  next => rfl

/-- The reasoning or the content of a delta. -/
def Received.text (r : Received) (d : Delta) : Received :=
  { r with
    reasoning := r.reasoning ++ d.getReasoningContent
    content := r.content ++ if d.getReasoningContent = "" then d.getContentString else "" }

/-- The blocks of the tool calls stand where the state has them. -/
def InPlace (s : State) (g : Group) (bs : List ToolBlock) : Prop :=
  if s.lastMessagesType = .tools then
    Placed s.toolCallBaseIndex g.first bs ∧ 0 ≤ s.toolCallMaxIndexOffset ∧
      (g.first = g.calls ∨ (g.calls : Int) ≤ s.toolCallMaxIndexOffset + 1)
  else g.first = g.calls ∧ ∀ b ∈ bs, b.index < s.index

/-- The converter has passed on what was said, or has lost something. -/
def Keeps (s : State) (a : Said) : Option Group → Prop
  | none => (heard s).said.weight < a.weight
  | some g =>
      (heard s).said = a ∧ a.calls.length = g.calls ∧ g.first ≤ g.calls ∧
        InPlace s g (heard s).blocks

section

variable {s s' : State} {a : Said} {g : Group}

/-- The blocks stand before the index with which the next block begins. -/
theorem index_lt_advance (h : Keeps s a (some g)) :
    ∀ b ∈ (heard s).blocks, b.index < s.stopOpenBlocksAndAdvance.index := by
  obtain ⟨rfl, hcalls, -, hplace⟩ := h
  have hlength : (heard s).blocks.length = g.calls := by simpa [Received.said] using hcalls
  rw [InPlace] at hplace
  intro b hb
  cases hlast : s.lastMessagesType with
  | tools =>
      rw [if_pos hlast] at hplace
      obtain ⟨hplaced, h0, hmax⟩ := hplace
      obtain ⟨j, hj⟩ := List.mem_iff_getElem?.1 hb
      obtain ⟨hjlt, -⟩ := List.getElem?_eq_some_iff.1 hj
      have hindex := hplaced j b.index (by simp [hj])
      simp only [State.stopOpenBlocksAndAdvance, hlast]
      split at hindex
      next => omega
      next => omega
  | none =>
      rw [if_neg (by simp [hlast])] at hplace
      simpa [State.stopOpenBlocksAndAdvance, hlast] using hplace.2 b hb
  | text =>
      rw [if_neg (by simp [hlast])] at hplace
      have hindex := hplace.2 b hb
      simp only [State.stopOpenBlocksAndAdvance, hlast]
      omega
  | thinking =>
      rw [if_neg (by simp [hlast])] at hplace
      have hindex := hplace.2 b hb
      simp only [State.stopOpenBlocksAndAdvance, hlast]
      omega

/-- After a block of text or thinking began, or went on. -/
theorem inPlace_block (h : Keeps s a (some g)) (hlast : s'.lastMessagesType ≠ .tools)
    (hindex : s'.index = s.stopOpenBlocksAndAdvance.index ∨
      s'.index = s.index ∧ s.lastMessagesType ≠ .tools) :
    InPlace s' g.close (heard s).blocks := by
  have hadvance := index_lt_advance h
  obtain ⟨-, -, -, hplace⟩ := h
  rw [InPlace, if_neg hlast]
  refine ⟨rfl, ?_⟩
  rcases hindex with hindex | ⟨hindex, hs⟩
  · rw [hindex]
    exact hadvance
  · rw [InPlace, if_neg hs] at hplace
    rw [hindex]
    exact hplace.2

end

/-- The reasoning and the content of a delta, as they are said. -/
def Said.addText (a : Said) (d : Delta) : Said :=
  { a with
    reasoning := a.reasoning ++ d.getReasoningContent
    content := a.content ++ d.getContentString }

theorem addDelta_eq (a : Said) (d : Delta) :
    a.addDelta d = ((State.offsets d.toolCalls).foldl Said.fragment a).addText d := by
  rw [foldl_fragment]
  rfl

/-- What the two branches for reasoning and content have in common. -/
structure Texts (s s' : State) (d : Delta) : Prop where
  heard : heard s' = (heard s).text d
  same : d.getReasoningContent = "" → d.getContentString = "" → s' = s
  block : d.getReasoningContent ≠ "" ∨ d.getContentString ≠ "" →
    s'.lastMessagesType ≠ .tools ∧ (s'.index = s.stopOpenBlocksAndAdvance.index ∨
      s'.index = s.index ∧ s.lastMessagesType ≠ .tools)

/-- One block of text or thinking, with the delta that the block is for. -/
theorem texts_of_cases {s : State} {d : Delta} (block : LastMessage → Block → BlockDelta → State)
    (hheard : ∀ last b δ, b = .text ∨ b = .thinking → δ.kind ≠ .toolUse →
      heard (block last b δ) = (heard s).read (.contentBlockDelta 0 δ))
    (hlast : ∀ last b δ, (block last b δ).lastMessagesType = last)
    (hindex : ∀ last b δ, last ≠ .tools →
      (block last b δ).index = s.stopOpenBlocksAndAdvance.index ∨
        (block last b δ).index = s.index ∧ s.lastMessagesType ≠ .tools) :
    Texts s
      (if d.getReasoningContent ≠ "" then
        block .thinking .thinking (.thinking d.getReasoningContent)
      else if d.getContentString ≠ "" then block .text .text (.text d.getContentString)
      else s) d := by
  split
  next hr =>
    refine ⟨?_, fun h => absurd h hr, fun _ => ⟨?_, hindex _ _ _ (by simp)⟩⟩
    · rw [hheard _ _ _ (Or.inr rfl) (by simp [BlockDelta.kind])]
      simp [Received.read, Received.text, hr]
    · simp [hlast]
  next hr =>
    have hr' : d.getReasoningContent = "" := by simpa using hr
    split
    next hc =>
      refine ⟨?_, fun _ h => absurd h hc, fun _ => ⟨?_, hindex _ _ _ (by simp)⟩⟩
      · rw [hheard _ _ _ (Or.inl rfl) (by simp [BlockDelta.kind])]
        simp [Received.read, Received.text, hr']
      · simp [hlast]
    next hc =>
      have hc' : d.getContentString = "" := by simpa using hc
      refine ⟨by simp [Received.text, hr', hc'], fun _ _ => rfl, fun h => ?_⟩
      rcases h with h | h
      · exact absurd hr' h
      · exact absurd hc' h

theorem read_start {r : Received} {b : Block} (hb : b = .text ∨ b = .thinking) (i : Int) :
    r.read (.contentBlockStart i b) = r := by
  rcases hb with rfl | rfl
  · rfl
  · rfl

theorem read_delta (r : Received) {d : BlockDelta} (hd : d.kind ≠ .toolUse) (i j : Int) :
    r.read (.contentBlockDelta i d) = r.read (.contentBlockDelta j d) := by
  cases d with
  | inputJson s => exact absurd rfl hd
  | text s => rfl
  | thinking s => rfl

theorem texts_sendText (s : State) (d : Delta) : Texts s (s.sendText d) d := by
  refine texts_of_cases (fun last b δ => (s.enterBlock last b).sendDelta δ) ?_ ?_ ?_
  · intro last b δ hb hδ
    rw [State.sendDelta, heard_emit, List.foldl_cons, List.foldl_nil, read_delta _ hδ _ 0,
      State.enterBlock]
    split
    next =>
      rw [heard_emit, List.foldl_cons, List.foldl_nil, read_start hb]
      exact congrArg (Received.read · _) (heard_advance s)
    next => rfl
  · intro last b δ
    simp only [State.sendDelta, State.emit, State.enterBlock]
    split
    next => rfl
    next h => exact not_not.1 h
  · intro last b δ hlast
    simp only [State.sendDelta, State.emit, State.enterBlock]
    split
    next => exact Or.inl rfl
    next h => exact Or.inr ⟨rfl, by rw [not_not.1 h]; exact hlast⟩

theorem texts_firstText (s : State) (d : Delta) : Texts s (s.firstText d) d := by
  refine texts_of_cases s.firstBlock ?_ ?_ ?_
  · intro last b δ hb hδ
    simp only [State.firstBlock]
    rw [heard_emit, List.foldl_cons, List.foldl_cons, List.foldl_nil, read_start hb,
      read_delta _ hδ _ 0]
    congr 1
    split
    next => exact heard_advance s
    next => rfl
  · intro last b δ
    rfl
  · intro last b δ hlast
    simp only [State.firstBlock, State.emit]
    split
    next => exact Or.inl rfl
    next h => exact Or.inr ⟨rfl, by rw [not_not.1 h]; exact hlast⟩

section

variable {s s' : State} {a : Said} {g : Group} {d : Delta}

theorem weight_text (r : Received) (d : Delta) :
    (r.text d).said.weight ≤
      r.said.weight + d.getReasoningContent.length + d.getContentString.length := by
  simp only [Received.text, Received.said, Said.weight, String.length_append]
  split
  next => omega
  next =>
    simp only [String.length_empty]
    omega

theorem weight_addText (a : Said) (d : Delta) :
    (a.addText d).weight =
      a.weight + d.getReasoningContent.length + d.getContentString.length := by
  simp only [Said.addText, Said.weight, String.length_append]
  omega

theorem length_pos_of_ne {s : String} (h : s ≠ "") : 0 < s.length := by
  rw [Nat.pos_iff_ne_zero]
  simpa using h

/-- Reasoning and content together are not kept, one of them is. -/
theorem keeps_text (h : Keeps s a (some g)) (ht : Texts s s' d) :
    Keeps s' (a.addText d)
      (if d.getReasoningContent = "" ∨ d.getContentString = "" then some (g.text d) else none) := by
  have hplace := fun (hlast : s'.lastMessagesType ≠ .tools) hindex => inPlace_block h hlast hindex
  obtain ⟨rfl, hcalls, hfirst, hsame⟩ := h
  split
  next hone =>
    have hsaid : ((heard s).text d).said = (heard s).said.addText d := by
      rcases hone with hr | hc
      · simp [Received.text, Received.said, Said.addText, hr]
      · simp [Received.text, Received.said, Said.addText, hc]
    rw [Keeps, ht.heard, hsaid, Group.text]
    split
    next hsome =>
      obtain ⟨hlast, hindex⟩ := ht.block hsome
      exact ⟨rfl, hcalls, Nat.le_refl _, hplace hlast hindex⟩
    next hnone =>
      rw [ht.same (by_contra fun h => hnone (Or.inl h)) (by_contra fun h => hnone (Or.inr h))]
      exact ⟨rfl, hcalls, hfirst, hsame⟩
  next hboth =>
    rw [Keeps, ht.heard, weight_addText]
    have hr : d.getReasoningContent ≠ "" := fun h => hboth (Or.inl h)
    have hc : d.getContentString ≠ "" := fun h => hboth (Or.inr h)
    have hlength := length_pos_of_ne hc
    simp only [Received.text, Received.said, Said.weight, String.length_append, hr, if_false,
      String.length_empty]
    omega

end

/-! ## A chunk after the first -/

theorem foldl_maxOffset {calls n : Nat} : ∀ {ps : List (Int × ToolCallResponse)} {m : Int},
    Run.exec admitCall calls ps = some n →
      m ≤ ps.foldl (fun m p => if m < p.1 then p.1 else m) m ∧
        (n = calls ∨ (n : Int) ≤ ps.foldl (fun m p => if m < p.1 then p.1 else m) m + 1) := by
  intro ps
  induction ps generalizing calls with
  | nil =>
      intro m hn
      cases hn
      exact ⟨Int.le_refl _, Or.inl rfl⟩
  | cons p ps ih =>
      intro m hn
      obtain ⟨c, hc, hcs⟩ := Run.exec_cons_eq_some.1 hn
      obtain ⟨hle, hcalls⟩ := ih (m := if m < p.1 then p.1 else m) hcs
      rw [List.foldl_cons]
      have hm : m ≤ (if m < p.1 then p.1 else m) ∧ p.1 ≤ (if m < p.1 then p.1 else m) := by
        split <;> omega
      refine ⟨by omega, ?_⟩
      rcases admitCall_cases hc with ⟨hk, -, rfl⟩ | ⟨-, -, -, rfl⟩
      · omega
      · omega

/-- Fragments leave the group open. -/
theorem first_fragments {g g' : Group} {ps : List (Int × ToolCallResponse)}
    (h : Run.exec Group.fragment g ps = some g') : g'.first = g.first := by
  refine Run.exec_always (I := fun g' : Group => g'.first = g.first) ?_ rfl h
  intro g₁ p g₂ hg₁ hg₂
  rw [Group.fragment] at hg₂
  split at hg₂
  next =>
    cases hg₂
    exact hg₁
  next =>
    split at hg₂
    next =>
      cases hg₂
      exact hg₁
    next => cases hg₂

section

variable {s : State} {a : Said} {g : Group} {n : Nat}

/-- The tool blocks begin behind all others, or go on. -/
theorem reads_enterTools (h : Keeps s a (some g)) :
    Reads s.enterTools.toolCallBaseIndex (heard s) a (some g) ∧
      s.enterTools.lastMessagesType = .tools ∧ 0 ≤ s.enterTools.toolCallMaxIndexOffset ∧
      (g.first = g.calls ∨ (g.calls : Int) ≤ s.enterTools.toolCallMaxIndexOffset + 1) := by
  have hadvance := index_lt_advance h
  obtain ⟨rfl, hcalls, hfirst, hplace⟩ := h
  rw [InPlace] at hplace
  by_cases hlast : s.lastMessagesType = .tools
  · have hsame : s.enterTools = s := by simp [State.enterTools, hlast]
    rw [if_pos hlast] at hplace
    rw [hsame]
    exact ⟨⟨rfl, hcalls, hfirst, hplace.1⟩, hlast, hplace.2⟩
  · rw [if_neg hlast] at hplace
    simp only [State.enterTools, ne_eq, hlast, not_false_eq_true, if_true]
    refine ⟨⟨rfl, hcalls, hfirst, ?_⟩, trivial, Int.le_refl _, Or.inl hplace.1⟩
    intro j i hj
    have hlength : (heard s).blocks.length = g.calls := by simpa [Received.said] using hcalls
    obtain ⟨hjlt, -⟩ := List.getElem?_eq_some_iff.1 hj
    rw [List.length_map] at hjlt
    obtain ⟨b, hb, rfl⟩ := List.mem_map.1 (List.mem_of_getElem? hj)
    rw [if_neg (by omega)]
    exact hadvance b hb

theorem heard_sendToolCalls (s : State) (ts : List ToolCallResponse) :
    heard (s.enterTools.sendToolCalls ts) =
      ((State.offsets ts).flatMap (State.toolEvents s.enterTools.toolCallBaseIndex)).foldl
        Received.read (heard s) := by
  rw [← heard_enterTools s]
  exact heard_emit _ _

theorem weight_sendToolCalls (s : State) (ts : List ToolCallResponse) :
    (heard (s.enterTools.sendToolCalls ts)).said.weight ≤
      (heard s).said.weight + ((State.offsets ts).map fragmentWeight).sum := by
  rw [heard_sendToolCalls, ← weight_toolEvents_flatMap s.enterTools.toolCallBaseIndex]
  exact weight_reads _ _

theorem keeps_tools (h : Keeps s a (some g)) (ts : List ToolCallResponse)
    (hn : Run.exec admitCall g.calls (State.offsets ts) = some n) :
    Keeps (s.enterTools.sendToolCalls ts) ((State.offsets ts).foldl Said.fragment a)
      (Run.exec Group.fragment g (State.offsets ts)) := by
  obtain ⟨hreads, hlast, h0, hmax⟩ := reads_enterTools h
  obtain ⟨hreads', hcalls⟩ := reads_fragments (State.offsets ts) hreads hn
  rw [← heard_sendToolCalls] at hreads'
  cases hg : Run.exec Group.fragment g (State.offsets ts) with
  | none =>
      rw [hg] at hreads'
      exact hreads'
  | some g' =>
      rw [hg] at hreads'
      obtain ⟨hsaid, hlength, hfirst, hplaced⟩ := hreads'
      refine ⟨hsaid, hlength, hfirst, ?_⟩
      rw [InPlace, if_pos (show (s.enterTools.sendToolCalls ts).lastMessagesType = .tools from hlast)]
      obtain ⟨hle, hn'⟩ := foldl_maxOffset (m := s.enterTools.toolCallMaxIndexOffset) hn
      refine ⟨hplaced, Int.le_trans h0 hle, ?_⟩
      have hg' := hcalls g' hg
      have hsame := first_fragments hg
      simp only [State.sendToolCalls]
      omega

end

/-- A delta of a chunk after the first. -/
def State.send (s : State) (d : Delta) : State :=
  match d.toolCalls with
  | [] => s.sendText d
  | ts => s.enterTools.sendToolCalls ts

/-- What is sent of a delta is no more than it says. -/
theorem weight_send (s : State) (d : Delta) :
    (heard (s.send d)).said.weight ≤ (heard s).said.weight + deltaWeight d := by
  rw [State.send, deltaWeight]
  split
  next hts =>
    have htext := weight_text (heard s) d
    rw [(texts_sendText s d).heard]
    omega
  next hts =>
    have htools := weight_sendToolCalls s d.toolCalls
    omega

theorem keeps_send {s : State} {a : Said} {g : Group} {d : Delta} {n : Nat}
    (h : Keeps s a (some g))
    (hn : Run.exec admitCall g.calls (State.offsets d.toolCalls) = some n) :
    Keeps (s.send d) (a.addDelta d) (g.nextDelta d) ∧
      ∀ g', g.nextDelta d = some g' → g'.calls = n := by
  rw [addDelta_eq, State.send, Group.nextDelta]
  cases hts : d.toolCalls with
  | nil =>
      rw [hts] at hn
      refine ⟨keeps_text h (texts_sendText s d), ?_⟩
      intro g' hg'
      dsimp only at hg'
      split at hg'
      next =>
        cases hg'
        rw [← Option.some.inj hn, Group.text]
        split
        next => rfl
        next => rfl
      next => cases hg'
  | cons t ts =>
      rw [hts] at hn
      have htools := keeps_tools h (t :: ts) hn
      dsimp only
      split
      next hnone =>
        have hsame : ((State.offsets (t :: ts)).foldl Said.fragment a).addText d =
            (State.offsets (t :: ts)).foldl Said.fragment a := by
          simp [Said.addText, hnone.1, hnone.2]
        rw [hsame]
        obtain ⟨hreads, -⟩ := reads_enterTools h
        exact ⟨htools, (reads_fragments _ hreads hn).2⟩
      next hsome =>
        -- The text beside the tool calls is lost.
        refine ⟨?_, fun g' hg' => by cases hg'⟩
        obtain ⟨rfl, hcalls, -⟩ := h
        have hsend := weight_sendToolCalls s (t :: ts)
        have hsaid := weight_foldl_fragment (by rw [hcalls]; exact hn)
        have hlength : 0 < d.getReasoningContent.length + d.getContentString.length := by
          by_cases hr : d.getReasoningContent = ""
          · have := length_pos_of_ne fun hc => hsome ⟨hr, hc⟩
            omega
          · have := length_pos_of_ne hr
            omega
        rw [Keeps, weight_addText]
        omega

/-! ## Before the end of the message -/

/-- The message goes on, and the usage is the one that was known when it began. -/
structure Going (s : State) (usage : Option Usage) : Prop where
  done : s.done = false
  count : s.sendResponseCount ≠ 0
  usage : s.usage = usage
  stopReason : (heard s).stopReason = none

theorem Going.of_writes {s s' : State} {usage : Option Usage} (h : Going s usage)
    (hw : Writes s s') (hstop : (heard s').stopReason = (heard s).stopReason) : Going s' usage :=
  ⟨hw.done.trans h.done, hw.count ▸ h.count, hw.usage.trans h.usage, hstop.trans h.stopReason⟩

theorem stopReason_reads {es : List Event} (hes : ∀ u reason, .messageDelta u reason ∉ es) :
    ∀ r : Received, (es.foldl Received.read r).stopReason = r.stopReason := by
  induction es with
  | nil => exact fun _ => rfl
  | cons e es ih =>
      intro r
      have hread : (r.read e).stopReason = r.stopReason := by
        cases e with
        | messageDelta u reason => exact absurd (by simp) (hes u reason)
        | contentBlockStart i b => cases b <;> rfl
        | contentBlockDelta i d => cases d <;> rfl
        | _ => rfl
      rw [List.foldl_cons, ih fun u reason hmem => hes u reason (by simp [hmem]), hread]

theorem not_mem_toolEvents (base : Int) (p : Int × ToolCallResponse) (u : ClaudeUsage)
    (reason : String) : .messageDelta u reason ∉ State.toolEvents base p := by
  rw [State.toolEvents]
  split <;> split <;> simp

theorem writes_send (s : State) (d : Delta) : Writes s (s.send d) := by
  rw [State.send]
  split
  next => exact writes_sendText s d
  next => exact writes_tools s _

theorem going_send {s : State} {usage : Option Usage} (h : Going s usage) (d : Delta) :
    Going (s.send d) usage := by
  refine h.of_writes (writes_send s d) ?_
  rw [State.send]
  split
  next =>
    rw [(texts_sendText s d).heard]
    rfl
  next =>
    rw [heard_sendToolCalls]
    refine stopReason_reads ?_ _
    intro u reason hmem
    obtain ⟨p, -, hp⟩ := List.mem_flatMap.1 hmem
    exact not_mem_toolEvents _ p u reason hp

/-- A chunk after the first, up to the end of the message. -/
theorem stream_next {s : State} {usage : Option Usage} (h : Going s usage) {c : Chunk}
    {choice : Choice} (hc : c.choices = [choice]) :
    s.streamResponseOpenAI2Claude c =
      (({ s with sendResponseCount := s.sendResponseCount + 1 } : State).send
        choice.delta).finishIf choice c.usage := by
  have hstream : s.streamResponseOpenAI2Claude c =
      ({ s with sendResponseCount := s.sendResponseCount + 1 } : State).nextChunk c := by
    simp [State.streamResponseOpenAI2Claude, h.done, h.count]
  rw [hstream, State.nextChunk, hc]
  rfl

/-- What a chunk after the first leaves, before the message ends. -/
theorem keeps_next {s : State} {usage : Option Usage} {a : Said} {o : Option Group} {n : Nat}
    {c : Chunk} {choice : Choice} (h : Keeps s a o) (hgoing : Going s usage)
    (hc : c.choices = [choice])
    (hn : Run.exec admitCall a.calls.length (fragments c) = some n) :
    ∃ s', s.streamResponseOpenAI2Claude c = s'.finishIf choice c.usage ∧ Going s' usage ∧
      Keeps s' (a.add c) (o.bind fun g => g.nextChunk c) ∧ (a.add c).calls.length = n := by
  have hnext : ∀ g : Group, g.nextChunk c = g.nextDelta choice.delta := by
    intro g
    rw [Group.nextChunk, hc]
  have hadd : a.add c = a.addDelta choice.delta := by rw [Said.add, hc]
  rw [fragments, hc] at hn
  simp only [hnext, hadd]
  obtain ⟨hlength, hweight⟩ := weight_addDelta hn
  refine ⟨_, stream_next hgoing hc, going_send ?_ _, ?_, hlength⟩
  · exact ⟨hgoing.done, by simp, hgoing.usage, hgoing.stopReason⟩
  · cases o with
    | none =>
        have hlost : (heard s).said.weight < a.weight := h
        have hsend := weight_send
          ({ s with sendResponseCount := s.sendResponseCount + 1 } : State) choice.delta
        have hsame : heard ({ s with sendResponseCount := s.sendResponseCount + 1 } : State) =
          heard s := rfl
        rw [hsame] at hsend
        rw [Option.bind_none, Keeps]
        omega
    | some g =>
        have hcalls : a.calls.length = g.calls := h.2.1
        rw [hcalls] at hn
        exact (keeps_send (s := { s with sendResponseCount := s.sendResponseCount + 1 }) h hn).1

/-! ## The first chunk -/

/-- Fragments that say nothing. -/
theorem foldl_fragment_of_silent : ∀ {ps : List (Int × ToolCallResponse)} {a : Said} {n : Nat},
    (∀ p ∈ ps, p.2.name = "" ∧ p.2.arguments = "") →
      Run.exec admitCall a.calls.length ps = some n → ps.foldl Said.fragment a = a
  | [], _, _, _, _ => rfl
  | p :: ps, a, n, hps, hn => by
      obtain ⟨m, hm, hms⟩ := Run.exec_cons_eq_some.1 hn
      obtain ⟨hname, hargs⟩ := hps p (by simp)
      rcases admitCall_cases hm with ⟨-, hname', -⟩ | ⟨-, hk, -, rfl⟩
      · exact absurd hname hname'
      · have hsame : a.fragment p = a := by
          rw [Said.fragment, addFragment_empty (by omega) hargs]
        rw [List.foldl_cons, hsame]
        exact foldl_fragment_of_silent (fun q hq => hps q (by simp [hq])) hms

theorem weight_pos_of_not_silent :
    ∀ {ps : List (Int × ToolCallResponse)} {p : Int × ToolCallResponse}, p ∈ ps →
      ¬(p.2.name = "" ∧ p.2.arguments = "") → 0 < (ps.map fragmentWeight).sum
  | [], _, hp, _ => by cases hp
  | q :: ps, p, hp, h => by
      rw [List.map_cons, List.sum_cons]
      rcases List.mem_cons.1 hp with rfl | hp
      · rw [fragmentWeight]
        by_cases hname : p.2.name = ""
        · have hlength := length_pos_of_ne fun hargs => h ⟨hname, hargs⟩
          omega
        · rw [if_pos hname]
          omega
      · have ih := weight_pos_of_not_silent hp h
        omega

/-- The state after the start of the message and the tool call that is read. -/
def State.firstCall (s : State) (d : Delta) : State :=
  match d.toolCalls with
  | [] => s
  | t :: _ => s.firstToolCall t

/-- The one tool call of the first chunk that is read. -/
theorem heard_firstToolCall {s : State} (hs : (heard s).blocks = []) (t : ToolCallResponse) :
    heard (s.firstToolCall t) =
      { heard s with blocks := [⟨0, t.id, t.name, t.arguments⟩] } := by
  rw [State.firstToolCall, heard_emit, List.foldl_cons]
  have hstart : heard ({ s with
      lastMessagesType := .tools, toolCallBaseIndex := 0, toolCallMaxIndexOffset := 0 } : State) =
        heard s := rfl
  rw [hstart]
  by_cases hargs : t.arguments = ""
  · simp [hargs, Received.read, hs]
  · simp [hargs, Received.read, hs, extend]

theorem keeps_firstText {s : State} {d : Delta} {g : Group} {a : Said} (h : Keeps s a (some g)) :
    Keeps (s.firstText d) (a.addText d)
      (if d.getReasoningContent = "" ∨ d.getContentString = "" then some (g.text d) else none) :=
  keeps_text h (texts_firstText s d)

theorem keeps_firstDelta {s : State} {d : Delta} {n : Nat} (hs : (heard s).said = ⟨"", "", []⟩)
    (hlast : s.lastMessagesType = .none)
    (hn : Run.exec admitCall 0 (State.offsets d.toolCalls) = some n) :
    Keeps ((s.firstCall d).firstText d) (Said.addDelta ⟨"", "", []⟩ d) (Group.firstDelta d) := by
  have hblocks : (heard s).blocks = [] := by
    have hcalls := congrArg Said.calls hs
    simpa [Received.said] using hcalls
  rw [addDelta_eq, Group.firstDelta, State.firstCall]
  cases hts : d.toolCalls with
  | nil =>
      have hkeeps : Keeps s ⟨"", "", []⟩ (some ⟨0, 0⟩) := by
        refine ⟨hs, rfl, Nat.le_refl _, ?_⟩
        rw [InPlace, if_neg (by simp [hlast]), hblocks]
        exact ⟨rfl, by simp⟩
      have htext := keeps_firstText (d := d) hkeeps
      simpa [State.offsets] using htext
  | cons t ts =>
      rw [hts] at hn
      have hsnd := map_snd_offsets (t :: ts)
      cases hps : State.offsets (t :: ts) with
      | nil => simp [hps] at hsnd
      | cons p ps =>
          rw [hps] at hn hsnd
          obtain ⟨rfl, hps'⟩ : p.2 = t ∧ ps.map Prod.snd = ts := by simpa using hsnd
          obtain ⟨m, hm, hms⟩ := Run.exec_cons_eq_some.1 hn
          have hfirst := admitCall_cases hm
          obtain ⟨hk, -, rfl⟩ := hfirst.resolve_right (by omega)
          have hsaid : Said.fragment ⟨"", "", []⟩ p =
              ⟨"", "", [⟨p.2.id, p.2.name, p.2.arguments⟩]⟩ := by
            simp [Said.fragment, addFragment, hk]
          have hheard := heard_firstToolCall hblocks p.2
          have hkeeps : Keeps (s.firstToolCall p.2) (Said.fragment ⟨"", "", []⟩ p)
              (some ⟨1, 0⟩) := by
            refine ⟨?_, by rw [hsaid]; rfl, by simp, ?_⟩
            · rw [hheard, hsaid]
              simp only [Received.said, Said.mk.injEq] at hs
              simp [Received.said, hs.1, hs.2.1]
            · rw [InPlace, if_pos (show (s.firstToolCall p.2).lastMessagesType = .tools from rfl),
                hheard]
              refine ⟨?_, by simp [State.firstToolCall, State.emit],
                Or.inr (by simp [State.firstToolCall, State.emit])⟩
              have hplaced : Placed 0 0 [] := fun j i hj => by simp at hj
              exact hplaced.append (by simp) _
          have htext := keeps_firstText (d := d) hkeeps
          have hadmit : Run.exec admitCall (Said.fragment ⟨"", "", []⟩ p).calls.length ps =
              some n := by
            rw [hsaid]
            exact hms
          rw [List.foldl_cons, List.tail_cons]
          by_cases hsilent : ts.all (fun t => t.name = "" ∧ t.arguments = "") = true
          · have hnone : ∀ q ∈ ps, q.2.name = "" ∧ q.2.arguments = "" := by
              intro q hq
              have hmem : q.2 ∈ ts := hps' ▸ List.mem_map_of_mem hq
              simpa using List.all_eq_true.1 hsilent q.2 hmem
            rw [foldl_fragment_of_silent hnone hadmit]
            simpa only [hsilent, true_and, reduceCtorEq, if_false] using htext
          · -- The other calls of the chunk are lost, whatever becomes of the text.
            rw [if_neg fun h => hsilent h.1]
            obtain ⟨t', ht', hloud⟩ : ∃ t ∈ ts, ¬(t.name = "" ∧ t.arguments = "") := by
              simpa using hsilent
            obtain ⟨q, hq, rfl⟩ := List.mem_map.1 (hps'.symm ▸ ht')
            have hpos := weight_pos_of_not_silent hq hloud
            have hweight := weight_text (heard (s.firstToolCall p.2)) d
            rw [← (texts_firstText _ d).heard, hkeeps.1] at hweight
            rw [Keeps, weight_addText, weight_foldl_fragment hadmit]
            dsimp only
            omega

/-- What the first chunk leaves, before the message ends. -/
theorem keeps_first (estimate : Int) (usage : Option Usage) {c : Chunk} {choice : Choice} {n : Nat}
    (hc : c.choices = [choice]) (hn : Run.exec admitCall 0 (fragments c) = some n) :
    ∃ s', (initial estimate usage).streamResponseOpenAI2Claude c = s'.finishIf choice c.usage ∧
      Going s' usage ∧ Keeps s' (Said.add ⟨"", "", []⟩ c) (Group.firstChunk c) ∧
      (Said.add ⟨"", "", []⟩ c).calls.length = n := by
  generalize hs₁ : ({ initial estimate usage with sendResponseCount := 1 } : State).emit
    [.messageStart c.id c.model estimate] = s₁
  have hstream : (initial estimate usage).streamResponseOpenAI2Claude c =
      ((s₁.firstCall choice.delta).firstText choice.delta).finishIf choice c.usage := by
    have hfirst : (initial estimate usage).streamResponseOpenAI2Claude c =
        ({ initial estimate usage with sendResponseCount := 1 } : State).firstChunk c := by
      simp [State.streamResponseOpenAI2Claude, initial]
    rw [hfirst, State.firstChunk, hc, ← hs₁]
    rfl
  have hgoing : Going s₁ usage := by
    rw [← hs₁]
    exact ⟨rfl, by simp [State.emit], rfl, rfl⟩
  have hadd : Said.add ⟨"", "", []⟩ c = Said.addDelta ⟨"", "", []⟩ choice.delta := by
    rw [Said.add, hc]
  have hgroup : Group.firstChunk c = Group.firstDelta choice.delta := by
    rw [Group.firstChunk, hc]
  rw [fragments, hc] at hn
  rw [hadd, hgroup]
  obtain ⟨hlength, -⟩ := weight_addDelta (a := ⟨"", "", []⟩) hn
  refine ⟨_, hstream, ?_, keeps_firstDelta (n := n) ?_ ?_ hn, hlength⟩
  · have hcall : Writes s₁ (s₁.firstCall choice.delta) ∧
        (heard (s₁.firstCall choice.delta)).stopReason = (heard s₁).stopReason := by
      rw [State.firstCall]
      split
      next => exact ⟨.refl s₁, rfl⟩
      next t ts hts =>
        refine ⟨⟨rfl, rfl, rfl, List.prefix_append _ _⟩, ?_⟩
        rw [heard_firstToolCall (by rw [← hs₁]; rfl)]
    refine (hgoing.of_writes hcall.1 hcall.2).of_writes (writes_firstText _ _) ?_
    rw [(texts_firstText _ _).heard]
    rfl
  · rw [← hs₁]
    rfl
  · rw [← hs₁]
    rfl

theorem ending_eq_some {c : Chunk} {reason : Option String} (h : ending c = some reason) :
    ∃ choice, c.choices = [choice] ∧ choice.finish = reason := by
  rw [ending] at h
  split at h
  next choice hc => exact ⟨choice, hc, Option.some.inj h⟩
  next => cases h

/-- The chunks between the first and the last. -/
theorem keeps_convert {usage : Option Usage} :
    ∀ {cs : List Chunk} {s : State} {a : Said} {o : Option Group} {n : Nat},
      Keeps s a o → Going s usage → (∀ c ∈ cs, ending c = some none) →
      Run.exec admitCall a.calls.length (cs.flatMap fragments) = some n →
      Going (convert s cs) usage ∧
        Keeps (convert s cs) (cs.foldl Said.add a)
          (o.bind fun g => Run.exec Group.nextChunk g cs) ∧
        (cs.foldl Said.add a).calls.length = n
  | [], s, a, o, n, h, hgoing, _, hn => by
      cases hn
      refine ⟨hgoing, ?_, rfl⟩
      cases o with
      | none => exact h
      | some g => exact h
  | c :: cs, s, a, o, n, h, hgoing, hcs, hn => by
      obtain ⟨choice, hc, hfinish⟩ := ending_eq_some (hcs c (by simp))
      rw [List.flatMap_cons, Run.exec_append] at hn
      obtain ⟨m, hm, hms⟩ := Option.bind_eq_some_iff.1 hn
      obtain ⟨s', hs', hgoing', hkeeps, hlength⟩ := keeps_next h hgoing hc hm
      have hstream : s.streamResponseOpenAI2Claude c = s' := by
        rw [hs', State.finishIf, hfinish]
      have hrest : ∀ c' ∈ cs, ending c' = some none := fun c' hc' => hcs c' (by simp [hc'])
      have ih := keeps_convert hkeeps hgoing' hrest (by rw [hlength]; exact hms)
      rw [convert, List.foldl_cons, hstream, List.foldl_cons]
      cases o with
      | none => exact ih
      | some g => exact ih

/-! ## The end of the message -/

theorem heard_finish {s : State} {choice : Choice} {usage : Option Usage} {reason : String}
    (usage' : Option Usage) (h : Going s usage) (hfinish : choice.finish = some reason) :
    (heard (s.finishIf choice usage')).said = (heard s).said ∧
      (heard (s.finishIf choice usage')).blocks = (heard s).blocks ∧
      (heard (s.finishIf choice usage')).stopReason =
        if (usage'.or usage).isSome then some (stopReasonOpenAI2Claude reason) else none := by
  have hstop : heard ({ s with finishReason := reason } : State).stopOpenBlocks = heard s := by
    rw [State.stopOpenBlocks, heard_emit, read_openStops]
    rfl
  have hend : ∀ t : State,
      heard ({ t.emit [.messageStop] with done := true } : State) = heard t :=
    fun t => heard_emit t _
  have hu : ({ s with finishReason := reason } : State).stopOpenBlocks.usage = usage := h.usage
  rw [State.finishIf, hfinish]
  simp only [State.finish, hu]
  cases hknown : usage'.or usage with
  | none =>
      rw [hend, hstop]
      exact ⟨rfl, rfl, h.stopReason⟩
  | some u =>
      rw [hend, heard_emit, hstop]
      exact ⟨rfl, rfl, rfl⟩

/-- A whole answer is received up to what is not kept of it, with its blocks and its
reason of the end. -/
theorem received_answer (a : Answer) (estimate : Int) (usage : Option Usage) :
    ((received (convert (initial estimate usage) a.chunks).events).said = said a.chunks ↔
        kept a.chunks = true) ∧
      (received (convert (initial estimate usage) a.chunks).events).stopReason =
        if (a.last.usage.or usage).isSome then some (stopReasonOpenAI2Claude a.reason)
        else none := by
  obtain ⟨n, hn⟩ := Option.isSome_iff_exists.1 a.numbered
  obtain ⟨choice, hlast, hfinish⟩ := ending_eq_some a.ends
  -- The last chunk, whether it is the first or not.
  have hend : ∃ s' o, convert (initial estimate usage) a.chunks = s'.finishIf choice a.last.usage ∧
      Going s' usage ∧ Keeps s' (said a.chunks) o ∧ o.isSome = kept a.chunks := by
    rw [Answer.chunks]
    cases hinit : a.init with
    | nil =>
        rw [hinit, List.nil_append, List.flatMap_singleton] at hn
        obtain ⟨s', hs', hgoing, hkeeps, -⟩ := keeps_first estimate usage hlast hn
        refine ⟨s', _, hs', hgoing, hkeeps, ?_⟩
        cases hg : Group.firstChunk a.last with
        | none => simp [kept, hg]
        | some g => simp [kept, hg, Run.exec]
    | cons c cs =>
        have hinits := a.goes_on
        rw [hinit] at hn hinits
        obtain ⟨first, hc, hnone⟩ := ending_eq_some (hinits c (by simp))
        rw [List.cons_append, List.flatMap_cons, Run.exec_append, List.flatMap_append] at hn
        obtain ⟨m, hm, hms⟩ := Option.bind_eq_some_iff.1 hn
        rw [Run.exec_append, List.flatMap_singleton] at hms
        obtain ⟨k, hk, hks⟩ := Option.bind_eq_some_iff.1 hms
        obtain ⟨s₁, hs₁, hgoing₁, hkeeps₁, hlength₁⟩ := keeps_first estimate usage hc hm
        rw [State.finishIf, hnone] at hs₁
        have hrest : ∀ c' ∈ cs, ending c' = some none := fun c' hc' => hinits c' (by simp [hc'])
        obtain ⟨hgoing₂, hkeeps₂, hlength₂⟩ := keeps_convert hkeeps₁ hgoing₁ hrest
          (by rw [hlength₁]; exact hk)
        obtain ⟨s', hs', hgoing, hkeeps, -⟩ := keeps_next hkeeps₂ hgoing₂ hlast
          (by rw [hlength₂]; exact hks)
        refine ⟨s', ((Group.firstChunk c).bind fun g => Run.exec Group.nextChunk g cs).bind
          fun g => g.nextChunk a.last, ?_, hgoing, ?_, ?_⟩
        · rw [← hs', List.cons_append, convert, List.foldl_cons, hs₁, List.foldl_append]
          rfl
        · rw [said, List.foldl_append, List.foldl_cons]
          exact hkeeps
        · rw [List.cons_append, kept]
          cases Group.firstChunk c with
          | none => rfl
          | some g =>
              simp only [Option.bind_some, Run.exec_append]
              cases Run.exec Group.nextChunk g cs with
              | none => rfl
              | some g' => simp [Run.exec]
  obtain ⟨s', o, hs', hgoing, hkeeps, hkept⟩ := hend
  obtain ⟨hsaid, -, hstop⟩ := heard_finish a.last.usage hgoing hfinish
  rw [hs']
  refine ⟨?_, hstop⟩
  have hheard : (heard (s'.finishIf choice a.last.usage)).said = said a.chunks ↔
      o.isSome = true := by
    rw [hsaid]
    cases o with
    | none =>
        have hlost : (heard s').said.weight < (said a.chunks).weight := hkeeps
        simp only [Option.isSome_none, Bool.false_eq_true, iff_false]
        intro heq
        rw [heq] at hlost
        omega
    | some g => simp [hkeeps.1]
  rw [← hkept]
  exact hheard

/-! ## The two converters -/

section

variable {ω : Type} (unmarshal : String → Option ω)

/-- The message that the converter without stream makes of an answer. -/
theorem message_answer (a : Answer) (id model : String) (usage : Usage) :
    let m := responseOpenAI2Claude unmarshal (a.response id model usage)
    m.text = (if a.reason = "tool_calls" then "" else (said a.chunks).content) ∧
      m.toolUses = (said a.chunks).calls.map (fun call =>
        (call.id, call.name, inputOf unmarshal call.arguments)) ∧
      m.stopReason = stopReasonOpenAI2Claude a.reason := by
  have hskip : ∀ (calls : List Call) (acc : String),
      (calls.map fun call => Content.toolUse call.id call.name
        (inputOf unmarshal call.arguments)).foldl
          (fun acc c => match c with | .text s => acc ++ s | _ => acc) acc = acc := by
    intro calls
    induction calls with
    | nil => exact fun _ => rfl
    | cons call calls ih => exact ih
  refine ⟨?_, ?_, rfl⟩
  · by_cases hreason : a.reason = "tool_calls"
    · have h := hskip (said a.chunks).calls ""
      simpa [responseOpenAI2Claude, Answer.response, choiceContent, hreason, ClaudeMessage.text,
        Function.comp_def] using h
    · simp [responseOpenAI2Claude, Answer.response, choiceContent, hreason, ClaudeMessage.text,
        MessageContent.stringContent]
  · by_cases hreason : a.reason = "tool_calls"
    · simp [responseOpenAI2Claude, Answer.response, choiceContent, hreason,
        ClaudeMessage.toolUses, Function.comp_def]
    · have hcalls : (said a.chunks).calls = [] := by_contra fun h => hreason (a.tool_calls h)
      simp [responseOpenAI2Claude, Answer.response, choiceContent, hreason,
        ClaudeMessage.toolUses, hcalls]

/-- The stream loses nothing and agrees with the conversion of the whole answer exactly
if all that the chunks say is kept, there is no content beside tool calls, and the usage
is known at the end. -/
theorem lossless_iff (a : Answer) (estimate : Int) (usage : Option Usage) (id model : String)
    (total : Usage) :
    ((received (convert (initial estimate usage) a.chunks).events).said = said a.chunks ∧
        Agrees unmarshal (received (convert (initial estimate usage) a.chunks).events)
          (responseOpenAI2Claude unmarshal (a.response id model total))) ↔
      kept a.chunks = true ∧ (a.reason = "tool_calls" → (said a.chunks).content = "") ∧
        (a.last.usage.or usage).isSome = true := by
  obtain ⟨hkept, hstop⟩ := received_answer a estimate usage
  obtain ⟨htext, htools, hreason⟩ := message_answer unmarshal a id model total
  rw [hkept, Agrees, htext, htools, hreason, hstop]
  refine and_congr_right fun h => ?_
  have hsaid := hkept.2 h
  generalize hr : received (convert (initial estimate usage) a.chunks).events = r at hsaid
  have hcontent : r.content = (said a.chunks).content := congrArg Said.content hsaid
  have hcalls : r.blocks.map (·.call) = (said a.chunks).calls := congrArg Said.calls hsaid
  have hblocks : r.blocks.map (fun b => (b.call.id, b.call.name,
      inputOf unmarshal b.call.arguments)) = (said a.chunks).calls.map (fun call =>
        (call.id, call.name, inputOf unmarshal call.arguments)) := by
    rw [← hcalls, List.map_map]
    rfl
  have hagree : (said a.chunks).content =
      (if a.reason = "tool_calls" then "" else (said a.chunks).content) ↔
        (a.reason = "tool_calls" → (said a.chunks).content = "") := by
    split
    next ht => simp [ht]
    next ht => simp [ht]
  have hknown : (if (a.last.usage.or usage).isSome = true then
      some (stopReasonOpenAI2Claude a.reason) else none) =
        some (stopReasonOpenAI2Claude a.reason) ↔ (a.last.usage.or usage).isSome = true := by
    split
    next hu => simp [hu]
    next hu => simp [hu]
  rw [hcontent, hblocks, hagree, hknown]
  simp

end

/-- Content beside the reasoning of the same chunk. -/
def reasoningAndContent : Answer where
  init := []
  last := ⟨"c", "m", [⟨0, ⟨"", some "hi", some "hm", none, []⟩, some "stop"⟩],
    some ⟨1, 1, 0, 0, 0, 0⟩⟩
  reason := "stop"
  goes_on := by simp
  ends := by decide +kernel
  numbered := by decide +kernel
  tool_calls := by decide +kernel

/-- The content is lost. -/
theorem not_lossless_reasoningAndContent :
    (received (convert (initial 0 none) reasoningAndContent.chunks).events).said ≠
      said reasoningAndContent.chunks := by
  decide +kernel

end DazeApi.Convert.OpenAI2Claude
