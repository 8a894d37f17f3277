import DazeApi.Convert.OpenAI2Claude
import DazeApi.Lib.Run

/-!
# Well-formed Claude streams

What a client may expect of the event stream of a message: one `message_start`, then
blocks that are numbered as they start, each with deltas of its own type and one stop,
and a `message_stop` once every block has stopped.  `accept` reads a stream event by
event and refuses the first that breaks this.

The converter keeps to it as long as the tool blocks that it believes open are the ones
that it has started.  It forgets two things.  Text or reasoning closes the tool blocks,
and a tool call that goes on afterwards is sent to a block that was never started; and
of the first chunk only one tool call is read.  `fits` follows the tool calls of the
input and says when this happens, and `wellFormed_iff_fits` that nothing else does.
-/

namespace DazeApi.Convert.OpenAI2Claude

/-! ## The protocol -/

inductive Kind where
  | text
  | thinking
  | toolUse
deriving DecidableEq, Repr

def Block.kind : Block → Kind
  | .text => .text
  | .thinking => .thinking
  | .toolUse _ _ => .toolUse

def BlockDelta.kind : BlockDelta → Kind
  | .text _ => .text
  | .thinking _ => .thinking
  | .inputJson _ => .toolUse

/-- Where a stream stands.  The blocks that were started are listed by their index, with
a flag that says that the block is open. -/
inductive Phase where
  | fresh
  | running (blocks : List (Kind × Bool))
  | stopped
deriving DecidableEq, Repr

/-- The block of an index. -/
def blockAt (blocks : List (Kind × Bool)) (i : Int) : Option (Kind × Bool) :=
  if 0 ≤ i then blocks[i.toNat]? else none

/-- One event of a stream, or `none` where it may not come. -/
def accept : Phase → Event → Option Phase
  | .fresh, .messageStart _ _ _ => some (.running [])
  | .running bs, .contentBlockStart i b =>
      if i = bs.length then some (.running (bs ++ [(b.kind, true)])) else none
  | .running bs, .contentBlockDelta i d =>
      if blockAt bs i = some (d.kind, true) then some (.running bs) else none
  | .running bs, .contentBlockStop i =>
      match blockAt bs i with
      | some (k, true) => some (.running (bs.set i.toNat (k, false)))
      | _ => none
  | .running bs, .messageDelta _ _ => some (.running bs)
  | .running bs, .messageStop => if bs.all (!·.2) then some .stopped else none
  | _, _ => none

/-- The stream has begun, and no event of it was refused. -/
def wellFormed (es : List Event) : Bool := (Run.exec accept .fresh es).any (· ≠ .fresh)

/-! ## The tool calls of the input -/

/-- The fragments of tool calls of a chunk, each with the index of its call. -/
def fragments (c : Chunk) : List (Int × ToolCallResponse) :=
  match c.choices with
  | [] => []
  | choice :: _ => State.offsets choice.delta.toolCalls

/-- One fragment after those of so many calls: the first fragment of the next call, with
its name, or a later one, without. -/
def admitFragment (calls : Nat) (p : Int × ToolCallResponse) : Option Nat :=
  if p.1 = calls then if p.2.name ≠ "" then some (calls + 1) else none
  else if 0 ≤ p.1 ∧ p.1 < calls ∧ p.2.name = "" then some calls
  else none

/-- The tool calls appear in the order 0, 1, 2, and so on, and the first fragment of
each, and no other, has its name. -/
def numbered (chunks : List Chunk) : Bool :=
  (Run.exec admitFragment 0 (chunks.flatMap fragments)).isSome

/-- What has become of the tool calls: how many have appeared, how many blocks of them,
from the first on, are open, and whether a fragment without name and arguments came for
one that has none. -/
structure Progress where
  calls : Nat
  opened : Nat
  stale : Bool
  ended : Bool
deriving DecidableEq, Repr

namespace Progress

variable (g : Progress)

/-- The open blocks are closed. -/
def close : Option Progress := if g.stale then none else some { g with opened := 0 }

/-- A fragment: a new call follows calls that are all open, and arguments go to a call
that is open. -/
def fit (p : Int × ToolCallResponse) : Option Progress :=
  if p.2.name ≠ "" then
    if g.opened = g.calls then some { g with calls := g.calls + 1, opened := g.opened + 1 }
    else none
  else if p.1 < g.opened then some g
  else if p.2.arguments = "" then some { g with stale := true }
  else none

/-- Reasoning or content closes the tool blocks. -/
def text (d : Delta) : Option Progress :=
  if d.getReasoningContent ≠ "" ∨ d.getContentString ≠ "" then g.close else some g

/-- A finish reason closes the tool blocks, and what follows is not read. -/
def finishIf (choice : Choice) : Option Progress :=
  match choice.finish with
  | some _ => g.close.map fun g => { g with ended := true }
  | none => some g

/-- The first chunk: one tool call is read. -/
def firstChunk (c : Chunk) : Option Progress :=
  match c.choices with
  | [] => some ⟨0, 0, false, false⟩
  | choice :: _ =>
      let ts := choice.delta.toolCalls
      let g : Progress :=
        ⟨ts.countP (·.name ≠ ""), if ts = [] then 0 else 1, false, false⟩
      (g.text choice.delta).bind fun g => g.finishIf choice

/-- A chunk after the first. -/
def nextChunk (c : Chunk) : Option Progress :=
  if g.ended then some g
  else
    match c.choices with
    | [] => some g
    | choice :: _ =>
        (match choice.delta.toolCalls with
          | [] => g.text choice.delta
          | ts => Run.exec fit g (State.offsets ts)).bind fun g => g.finishIf choice

end Progress

/-- Every fragment that is read finds the tool blocks as it needs them. -/
def fits : List Chunk → Bool
  | [] => true
  | c :: cs => ((Progress.firstChunk c).bind fun g => Run.exec Progress.nextChunk g cs).isSome

/-! ## Reading what the converter wrote -/

/-- Where the stream stands after the events so far. -/
def phase (s : State) : Option Phase := Run.exec accept .fresh s.events

theorem phase_emit (s : State) (es : List Event) :
    phase (s.emit es) = (phase s).bind fun p => Run.exec accept p es :=
  Run.exec_append s.events es

/-- A stream that was refused stays refused. -/
theorem phase_eq_none_of_isPrefix {s s' : State} (h : s.events <+: s'.events)
    (hs : phase s = none) : phase s' = none := by
  obtain ⟨es, hes⟩ := h
  have hemit := phase_emit s es
  rw [hs] at hemit
  rw [phase, ← hes]
  exact hemit

theorem blockAt_append (pre bs : List (Kind × Bool)) (j : Nat) :
    blockAt (pre ++ bs) (pre.length + j) = bs[j]? := by
  have htoNat : ((pre.length : Int) + j).toNat = pre.length + j := by omega
  rw [blockAt, if_pos (by omega), htoNat, List.getElem?_append_right (by omega)]
  congr 1
  omega

theorem blockAt_length (pre bs : List (Kind × Bool)) : blockAt (pre ++ bs) pre.length = bs.head? := by
  have h := blockAt_append pre bs 0
  rwa [← List.head?_eq_getElem?] at h

/-- The blocks that are stopped in turn have to be open, and are closed then. -/
theorem exec_stops (k : Kind) (m : Nat) :
    ∀ (pre : List (Kind × Bool)) (n : Nat) (base : Int), base = pre.length →
      Run.exec accept (.running (pre ++ List.replicate n (k, true)))
        ((List.range m).map fun (j : Nat) => .contentBlockStop (base + j)) =
      if m ≤ n then
        some (.running (pre ++ List.replicate m (k, false) ++ List.replicate (n - m) (k, true)))
      else none := by
  induction m with
  | zero =>
      intro pre n base _
      simp
  | succ m ih =>
      intro pre n base hbase
      have hfun : ((fun (j : Nat) => Event.contentBlockStop (base + j)) ∘ Nat.succ) =
          fun (j : Nat) => Event.contentBlockStop (base + 1 + j) := by
        funext j
        simp only [Function.comp_apply, Nat.succ_eq_add_one, Event.contentBlockStop.injEq]
        omega
      have hzero : base + (0 : Nat) = pre.length := by omega
      rw [List.range_succ_eq_map, List.map_cons, List.map_map, hfun, Run.exec, hzero]
      cases n with
      | zero =>
          have hat := blockAt_length pre []
          simp only [List.append_nil, List.head?_nil] at hat
          simp [accept, hat]
      | succ n =>
          have hat := blockAt_length pre (List.replicate (n + 1) (k, true))
          have hset : (pre ++ List.replicate (n + 1) (k, true)).set pre.length (k, false) =
              pre ++ [(k, false)] ++ List.replicate n (k, true) := by
            rw [List.set_append_right _ _ (Nat.le_refl _)]
            simp [List.replicate_succ]
          have hnext := ih (pre ++ [(k, false)]) n (base + 1) (by simp [hbase])
          simp only [List.replicate_succ, List.head?_cons] at hat
          simp only [accept, List.replicate_succ, hat, Int.toNat_natCast, Option.bind_some]
          rw [← List.replicate_succ, hset, hnext]
          simp

/-! ## What the converter leaves alone -/

/-- The functions of a call write events, and neither count the calls nor end the
message. -/
structure Writes (s s' : State) : Prop where
  done : s'.done = s.done
  count : s'.sendResponseCount = s.sendResponseCount
  usage : s'.usage = s.usage
  events : s.events <+: s'.events

theorem Writes.refl (s : State) : Writes s s := ⟨rfl, rfl, rfl, List.prefix_refl _⟩

theorem Writes.trans {s t u : State} (h : Writes s t) (h' : Writes t u) : Writes s u :=
  ⟨h'.done.trans h.done, h'.count.trans h.count, h'.usage.trans h.usage, h.events.trans h'.events⟩

theorem writes_emit (s : State) (es : List Event) : Writes s (s.emit es) :=
  ⟨rfl, rfl, rfl, List.prefix_append _ _⟩

theorem writes_advance (s : State) : Writes s s.stopOpenBlocksAndAdvance := by
  rw [State.stopOpenBlocksAndAdvance]
  split
  next => exact .refl s
  next => exact ⟨rfl, rfl, rfl, List.prefix_append _ _⟩
  next => exact ⟨rfl, rfl, rfl, List.prefix_append _ _⟩

theorem writes_firstBlock (s : State) (last : LastMessage) (b : Block) (d : BlockDelta) :
    Writes s (s.firstBlock last b d) := by
  have hopen : Writes s (if s.lastMessagesType ≠ last then s.stopOpenBlocksAndAdvance else s) := by
    split
    next => exact writes_advance s
    next => exact .refl s
  exact hopen.trans ⟨rfl, rfl, rfl, List.prefix_append _ _⟩

theorem writes_firstText (s : State) (d : Delta) : Writes s (s.firstText d) := by
  rw [State.firstText]
  split
  next => exact writes_firstBlock s _ _ _
  next =>
    split
    next => exact writes_firstBlock s _ _ _
    next => exact .refl s

theorem writes_enterBlock (s : State) (last : LastMessage) (b : Block) :
    Writes s (s.enterBlock last b) := by
  rw [State.enterBlock]
  split
  next => exact (writes_advance s).trans ⟨rfl, rfl, rfl, List.prefix_append _ _⟩
  next => exact .refl s

theorem writes_sendText (s : State) (d : Delta) : Writes s (s.sendText d) := by
  rw [State.sendText]
  split
  next => exact (writes_enterBlock s _ _).trans (writes_emit _ _)
  next =>
    split
    next => exact (writes_enterBlock s _ _).trans (writes_emit _ _)
    next => exact .refl s

theorem writes_tools (s : State) (ts : List ToolCallResponse) :
    Writes s (s.enterTools.sendToolCalls ts) := by
  have henter : Writes s s.enterTools := by
    rw [State.enterTools]
    split
    next => exact (writes_advance s).trans ⟨rfl, rfl, rfl, List.prefix_refl _⟩
    next => exact .refl s
  exact henter.trans ⟨rfl, rfl, rfl, List.prefix_append _ _⟩

theorem events_finishIf (s : State) (choice : Choice) (usage : Option Usage) :
    s.events <+: (s.finishIf choice usage).events := by
  rw [State.finishIf]
  split
  next =>
    simp only [State.finish, State.stopOpenBlocks]
    split
    next => simp [State.emit]
    next => simp [State.emit]
  next => exact List.prefix_refl _

theorem events_nextChunk (s : State) (c : Chunk) : s.events <+: (s.nextChunk c).events := by
  rw [State.nextChunk]
  split
  next => exact List.prefix_refl _
  next choice _ _ =>
    refine List.IsPrefix.trans ?_ (events_finishIf _ choice c.usage)
    split
    next => exact (writes_sendText s _).events
    next => exact (writes_tools s _).events

/-! ## The state and the stream -/

/-- The blocks after every stop. -/
def closeAll (bs : List (Kind × Bool)) : List (Kind × Bool) := bs.map fun b => (b.1, false)

theorem closeAll_of_closed {bs : List (Kind × Bool)} (h : ∀ b ∈ bs, b.2 = false) :
    closeAll bs = bs := by
  rw [closeAll, List.map_congr_left (g := id), List.map_id]
  intro b hb
  simp [← h b hb]

theorem closed_closeAll (bs : List (Kind × Bool)) : ∀ b ∈ closeAll bs, b.2 = false := by
  simp [closeAll]

/-- The blocks of the stream are those that the state of the converter speaks of.  A
fragment that came for a call without a block has raised the offset past the blocks. -/
def Sync (s : State) (g : Progress) (bs : List (Kind × Bool)) : Prop :=
  ∃ pre : List (Kind × Bool), (∀ b ∈ pre, b.2 = false) ∧
    match s.lastMessagesType with
    | .none => bs = pre ∧ s.index = pre.length ∧ g.opened = 0 ∧ g.stale = false
    | .text =>
        bs = pre ++ [(.text, true)] ∧ s.index = pre.length ∧ g.opened = 0 ∧ g.stale = false
    | .thinking =>
        bs = pre ++ [(.thinking, true)] ∧ s.index = pre.length ∧ g.opened = 0 ∧ g.stale = false
    | .tools =>
        bs = pre ++ List.replicate g.opened (.toolUse, true) ∧
          s.toolCallBaseIndex = pre.length ∧ g.opened ≤ g.calls ∧
          if g.stale then
            (g.opened : Int) ≤ s.toolCallMaxIndexOffset ∧ g.opened < g.calls
          else (g.opened : Int) = s.toolCallMaxIndexOffset + 1

theorem exec_stop (pre : List (Kind × Bool)) (k : Kind) {i : Int} (hi : i = pre.length) :
    Run.exec accept (.running (pre ++ [(k, true)])) [.contentBlockStop i] =
      some (.running (pre ++ [(k, false)])) := by
  have h := exec_stops k 1 pre 1 i hi
  simpa using h

/-- The stops of the open blocks are accepted unless an offset was raised past them. -/
theorem exec_openStops {s : State} {g : Progress} {bs : List (Kind × Bool)} (h : Sync s g bs) :
    Run.exec accept (.running bs) s.openStops =
      if g.stale then none else some (.running (closeAll bs)) := by
  obtain ⟨pre, hpre, h⟩ := h
  have hclosed := closeAll_of_closed hpre
  rw [closeAll] at hclosed
  cases hlast : s.lastMessagesType with
  | none =>
      simp only [hlast] at h
      obtain ⟨rfl, -, -, hstale⟩ := h
      simp [State.openStops, hlast, hstale, closeAll, hclosed]
  | text =>
      simp only [hlast] at h
      obtain ⟨rfl, hindex, -, hstale⟩ := h
      simp [State.openStops, hlast, hstale, exec_stop pre _ hindex, closeAll, hclosed]
  | thinking =>
      simp only [hlast] at h
      obtain ⟨rfl, hindex, -, hstale⟩ := h
      simp [State.openStops, hlast, hstale, exec_stop pre _ hindex, closeAll, hclosed]
  | tools =>
      simp only [hlast] at h
      obtain ⟨rfl, hbase, -, hmax⟩ := h
      simp only [State.openStops, hlast, exec_stops _ _ pre _ _ hbase]
      cases hstale : g.stale with
      | true =>
          simp only [hstale, if_true] at hmax
          rw [if_neg (by omega)]
          rfl
      | false =>
          simp only [hstale, Bool.false_eq_true, if_false] at hmax
          have hm : (s.toolCallMaxIndexOffset + 1).toNat = g.opened := by omega
          simp [hm, closeAll, hclosed]

/-- A stream that was refused, or one that is in step with the state. -/
def Rel (s : State) : Option Progress → Prop
  | none => phase s = none
  | some g => ∃ bs, phase s = some (.running bs) ∧ Sync s g bs

theorem phase_stopOpenBlocks {s : State} {g : Progress} {bs : List (Kind × Bool)}
    (hp : phase s = some (.running bs)) (h : Sync s g bs) :
    phase s.stopOpenBlocks = if g.stale then none else some (.running (closeAll bs)) := by
  rw [State.stopOpenBlocks, phase_emit, hp, Option.bind_some, exec_openStops h]

/-- Closing the open blocks. -/
theorem rel_advance {s : State} {g : Progress} (h : Rel s (some g)) :
    Rel s.stopOpenBlocksAndAdvance g.close ∧
      s.stopOpenBlocksAndAdvance.lastMessagesType = .none := by
  obtain ⟨bs, hp, hsync⟩ := h
  have hstops := phase_stopOpenBlocks hp hsync
  obtain ⟨pre, hpre, h⟩ := hsync
  -- What is left to see is the index: it is behind all blocks.
  have hrel : ∀ s', phase s' = phase s.stopOpenBlocks → s'.lastMessagesType = .none →
      (g.stale = false → s'.index = bs.length) → Rel s' g.close := by
    intro s' hp' hlast' hindex
    rw [hstops] at hp'
    cases hstale : g.stale with
    | true => simpa [Progress.close, Rel, hstale] using hp'
    | false =>
        simp only [hstale, Bool.false_eq_true, if_false] at hp'
        simp only [Progress.close, hstale, Bool.false_eq_true, if_false]
        refine ⟨_, hp', closeAll bs, closed_closeAll bs, ?_⟩
        simp [hlast', hindex hstale, closeAll]
  cases hlast : s.lastMessagesType with
  | none =>
      simp only [hlast] at h
      obtain ⟨rfl, hindex, -, hstale⟩ := h
      have hsame : s.stopOpenBlocksAndAdvance = s := by simp [State.stopOpenBlocksAndAdvance, hlast]
      rw [hsame]
      refine ⟨hrel s ?_ hlast fun _ => hindex, hlast⟩
      simp [State.stopOpenBlocks, State.openStops, hlast, phase_emit, hp]
  | text =>
      simp only [hlast] at h
      obtain ⟨rfl, hindex, -, -⟩ := h
      simp only [State.stopOpenBlocksAndAdvance, hlast]
      refine ⟨hrel _ rfl rfl fun _ => ?_, trivial⟩
      simp [hindex]
  | thinking =>
      simp only [hlast] at h
      obtain ⟨rfl, hindex, -, -⟩ := h
      simp only [State.stopOpenBlocksAndAdvance, hlast]
      refine ⟨hrel _ rfl rfl fun _ => ?_, trivial⟩
      simp [hindex]
  | tools =>
      simp only [hlast] at h
      obtain ⟨rfl, hbase, -, hmax⟩ := h
      simp only [State.stopOpenBlocksAndAdvance, hlast]
      refine ⟨hrel _ rfl rfl fun hstale => ?_, trivial⟩
      simp only [hstale, Bool.false_eq_true, if_false] at hmax
      simp only [List.length_append, List.length_replicate]
      omega

/-! ## Tool calls -/

/-- The open tool blocks and the greatest offset while the fragments of a chunk are
read. -/
structure Loop (g : Progress) (maxOffset : Int) : Prop where
  opened_le : g.opened ≤ g.calls
  stale : g.stale = true → (g.opened : Int) ≤ maxOffset ∧ g.opened < g.calls
  fresh : g.stale = false → maxOffset = (g.opened : Int) - 1 ∨ g.opened = 0 ∧ maxOffset = 0

/-- The stream with so many tool blocks open. -/
def toolPhase (pre : List (Kind × Bool)) (g : Progress) : Phase :=
  .running (pre ++ List.replicate g.opened (.toolUse, true))

/-- A delta to an open tool block. -/
theorem accept_arguments {pre : List (Kind × Bool)} {base k : Int} {n : Nat} (args : String)
    (hbase : base = pre.length) (h0 : 0 ≤ k) :
    accept (.running (pre ++ List.replicate n (.toolUse, true)))
        (.contentBlockDelta (base + k) (.inputJson args)) =
      if k < n then some (.running (pre ++ List.replicate n (.toolUse, true))) else none := by
  obtain ⟨j, rfl⟩ := Int.eq_ofNat_of_zero_le h0
  simp only [accept, hbase, blockAt_append, BlockDelta.kind, Int.ofNat_lt]
  by_cases hj : j < n
  · simp [hj]
  · simp [hj]

/-- The start of a tool block. -/
theorem accept_start {pre : List (Kind × Bool)} {base k : Int} {n : Nat} (id name : String)
    (hbase : base = pre.length) :
    accept (.running (pre ++ List.replicate n (.toolUse, true)))
        (.contentBlockStart (base + k) (.toolUse id name)) =
      if k = n then some (.running (pre ++ List.replicate (n + 1) (.toolUse, true))) else none := by
  have hblocks : pre ++ List.replicate n (Kind.toolUse, true) ++ [(Kind.toolUse, true)] =
      pre ++ List.replicate (n + 1) (Kind.toolUse, true) := by
    rw [List.append_assoc, ← List.replicate_succ']
  have hlength : base + k = (pre ++ List.replicate n (Kind.toolUse, true)).length ↔ k = n := by
    simp only [List.length_append, List.length_replicate]
    omega
  simp only [accept, hlength, Block.kind, hblocks]

/-- What the events of a fragment do to the stream. -/
def Sent (pre : List (Kind × Bool)) (base maxOffset : Int) (g : Progress)
    (p : Int × ToolCallResponse) (calls : Nat) : Option Progress → Prop
  | none => Run.exec accept (toolPhase pre g) (State.toolEvents base p) = none
  | some g' =>
      Run.exec accept (toolPhase pre g) (State.toolEvents base p) = some (toolPhase pre g') ∧
        Loop g' (if maxOffset < p.1 then p.1 else maxOffset) ∧ g'.calls = calls ∧
        g'.ended = g.ended ∧ (g'.stale = true ∨ 1 ≤ g'.opened)

section

variable {pre : List (Kind × Bool)} {base maxOffset k : Int} {g : Progress} {t : ToolCallResponse}

/-- A later fragment goes to the block of its call. -/
theorem sent_later (hbase : base = pre.length) (hloop : Loop g maxOffset) (hname : t.name = "")
    (h0 : 0 ≤ k) (hk : k < g.calls) :
    Sent pre base maxOffset g (k, t) g.calls (g.fit (k, t)) := by
  have hle := hloop.opened_le
  have hevents : Run.exec accept (toolPhase pre g) (State.toolEvents base (k, t)) =
      if t.arguments = "" ∨ k < g.opened then some (toolPhase pre g) else none := by
    simp only [State.toolEvents, hname, ne_eq, not_true_eq_false, if_false, List.nil_append]
    by_cases hargs : t.arguments = ""
    · simp [hargs]
    · simp only [hargs, not_false_eq_true, if_true, false_or, Run.exec, toolPhase,
        accept_arguments t.arguments hbase h0]
      split <;> rfl
  simp only [Progress.fit, hname, ne_eq, not_true_eq_false, if_false]
  by_cases hopen : k < g.opened
  · rw [if_pos hopen]
    refine ⟨by simp [hevents, hopen], ⟨hle, ?_, ?_⟩, rfl, rfl, Or.inr (by omega)⟩
    · intro hstale
      have h := hloop.stale hstale
      dsimp only
      split <;> omega
    · intro hfresh
      have h := hloop.fresh hfresh
      dsimp only
      split <;> omega
  · rw [if_neg hopen]
    by_cases hargs : t.arguments = ""
    · rw [if_pos hargs]
      refine ⟨hevents.trans (by simp [hargs, toolPhase]), ⟨hle, ?_, ?_⟩, rfl, rfl, Or.inl rfl⟩
      · intro _
        dsimp only
        split <;> omega
      · intro hfresh
        cases hfresh
    · rw [if_neg hargs]
      simp [Sent, hevents, hargs, hopen]

/-- The first fragment of a call starts the block behind the open ones. -/
theorem sent_first (hbase : base = pre.length) (hloop : Loop g maxOffset) (hname : t.name ≠ "")
    (hk : k = g.calls) :
    Sent pre base maxOffset g (k, t) (g.calls + 1) (g.fit (k, t)) := by
  have hle := hloop.opened_le
  simp only [Progress.fit, hname, ne_eq, not_false_eq_true, if_true]
  by_cases hall : g.opened = g.calls
  · rw [if_pos hall]
    have hstale : g.stale = false := by
      rw [← Bool.not_eq_true]
      intro hst
      have h := hloop.stale hst
      omega
    have hfresh := hloop.fresh hstale
    have hstart : k = g.opened := by omega
    refine ⟨?_, ⟨by simp [hall], ?_, ?_⟩, rfl, rfl, Or.inr (by simp)⟩
    · have harguments : k < (g.opened : Int) + 1 := by omega
      have h0 : 0 ≤ k := by omega
      simp only [State.toolEvents, hname, ne_eq, not_false_eq_true, if_true, List.cons_append,
        List.nil_append, Run.exec, toolPhase, accept_start _ _ hbase, hstart, Option.bind_some]
      rw [← hstart]
      split
      next => simp [Run.exec, accept_arguments _ hbase h0, harguments]
      next => rfl
    · intro hst
      rw [hstale] at hst
      cases hst
    · intro _
      dsimp only
      split <;> omega
  · rw [if_neg hall]
    have hne : ¬ k = g.opened := by omega
    simp [Sent, State.toolEvents, hname, Run.exec, toolPhase, accept_start _ _ hbase, hne]

end

/-- One fragment. -/
theorem sent_fragment {pre : List (Kind × Bool)} {base maxOffset : Int} {g : Progress}
    {p : Int × ToolCallResponse} {calls : Nat} (hbase : base = pre.length)
    (hloop : Loop g maxOffset) (hp : admitFragment g.calls p = some calls) :
    Sent pre base maxOffset g p calls (g.fit p) := by
  obtain ⟨k, t⟩ := p
  simp only [admitFragment] at hp
  split at hp
  next hk =>
    split at hp
    next hname =>
      cases hp
      exact sent_first hbase hloop hname hk
    next => cases hp
  next =>
    split at hp
    next hlater =>
      cases hp
      exact sent_later hbase hloop hlater.2.2 hlater.1 hlater.2.1
    next => cases hp

/-- The fragments of a chunk, one after the other. -/
theorem exec_fragments {pre : List (Kind × Bool)} {base : Int} (hbase : base = pre.length) :
    ∀ (ps : List (Int × ToolCallResponse)) (g : Progress) (maxOffset : Int) (calls : Nat),
      Loop g maxOffset → Run.exec admitFragment g.calls ps = some calls →
      match Run.exec Progress.fit g ps with
      | none => Run.exec accept (toolPhase pre g) (ps.flatMap (State.toolEvents base)) = none
      | some g' =>
          Run.exec accept (toolPhase pre g) (ps.flatMap (State.toolEvents base)) =
              some (toolPhase pre g') ∧
            Loop g' (ps.foldl (fun m p => if m < p.1 then p.1 else m) maxOffset) ∧
            g'.calls = calls ∧ g'.ended = g.ended ∧
            (ps ≠ [] → g'.stale = true ∨ 1 ≤ g'.opened)
  | [], g, maxOffset, calls, hloop, hcalls => by
      cases hcalls
      exact ⟨rfl, hloop, rfl, rfl, fun h => absurd rfl h⟩
  | p :: ps, g, maxOffset, calls, hloop, hcalls => by
      obtain ⟨c, hp, hps⟩ := Run.exec_cons_eq_some.1 hcalls
      have hsent := sent_fragment hbase hloop hp
      rw [Run.exec, List.flatMap_cons, Run.exec_append, List.foldl_cons]
      cases hfit : g.fit p with
      | none =>
          rw [hfit] at hsent
          have hnone : Run.exec accept (toolPhase pre g) (State.toolEvents base p) = none := hsent
          simp [hnone]
      | some g₁ =>
          rw [hfit] at hsent
          obtain ⟨hevents, hloop₁, hcalls₁, hended, hopen⟩ := hsent
          have ih := exec_fragments hbase ps g₁ _ calls hloop₁ (by rw [hcalls₁]; exact hps)
          simp only [hevents, Option.bind_some]
          cases hrest : Run.exec Progress.fit g₁ ps with
          | none =>
              rw [hrest] at ih
              exact ih
          | some g₂ =>
              rw [hrest] at ih
              obtain ⟨hall, hloop₂, hcalls₂, hended₂, hopen₂⟩ := ih
              refine ⟨hall, hloop₂, hcalls₂, hended₂.trans hended, fun _ => ?_⟩
              cases ps with
              | nil =>
                  cases hrest
                  exact hopen
              | cons q qs => exact hopen₂ (by simp)

/-- Where no tool blocks are open, none is counted. -/
theorem Sync.not_tools {s : State} {g : Progress} {bs : List (Kind × Bool)} (h : Sync s g bs)
    (hlast : s.lastMessagesType ≠ .tools) : g.opened = 0 ∧ g.stale = false := by
  obtain ⟨pre, -, h⟩ := h
  cases hl : s.lastMessagesType with
  | tools => exact absurd hl hlast
  | none =>
      simp only [hl] at h
      exact h.2.2
  | text =>
      simp only [hl] at h
      exact h.2.2
  | thinking =>
      simp only [hl] at h
      exact h.2.2

/-- The state in which the fragments of a chunk are read.  Where the tool blocks begin
with the chunk, there is none yet. -/
theorem enterTools_spec {s : State} {g : Progress} (h : Rel s (some g)) :
    ∃ pre, (∀ b ∈ pre, b.2 = false) ∧ phase s.enterTools = some (toolPhase pre g) ∧
      s.enterTools.toolCallBaseIndex = pre.length ∧
      s.enterTools.lastMessagesType = .tools ∧ Loop g s.enterTools.toolCallMaxIndexOffset := by
  by_cases hlast : s.lastMessagesType = .tools
  · have hsame : s.enterTools = s := by simp [State.enterTools, hlast]
    obtain ⟨bs, hp, pre, hpre, hsync⟩ := h
    simp only [hlast] at hsync
    obtain ⟨rfl, hbase, hle, hmax⟩ := hsync
    rw [hsame]
    refine ⟨pre, hpre, hp, hbase, hlast, hle, ?_, ?_⟩
    · intro hstale
      simpa [hstale] using hmax
    · intro hfresh
      simp only [hfresh, Bool.false_eq_true, if_false] at hmax
      omega
  · obtain ⟨bs₀, hp₀, hsync₀⟩ := h
    obtain ⟨hopened, hstale⟩ := hsync₀.not_tools hlast
    obtain ⟨hrel, hnone⟩ := rel_advance ⟨bs₀, hp₀, hsync₀⟩
    simp only [Progress.close, hstale, Bool.false_eq_true, if_false] at hrel
    obtain ⟨bs, hp, pre, hpre, hsync⟩ := hrel
    simp only [hnone] at hsync
    obtain ⟨rfl, hindex, -, -⟩ := hsync
    have hphase : phase s.enterTools = phase s.stopOpenBlocksAndAdvance := by
      simp [State.enterTools, hlast, phase]
    rw [hphase, hp]
    simp only [State.enterTools, ne_eq, hlast, not_false_eq_true, if_true]
    refine ⟨bs, hpre, by simp [toolPhase, hopened], hindex, trivial, by omega, ?_, ?_⟩
    · intro hst
      rw [hstale] at hst
      cases hst
    · intro _
      exact Or.inr ⟨hopened, rfl⟩

/-- The tool calls of a chunk after the first. -/
theorem rel_tools {s : State} {g : Progress} {ts : List ToolCallResponse} {calls : Nat}
    (h : Rel s (some g)) (hts : ts ≠ [])
    (hcalls : Run.exec admitFragment g.calls (State.offsets ts) = some calls) :
    Rel (s.enterTools.sendToolCalls ts) (Run.exec Progress.fit g (State.offsets ts)) ∧
      ∀ g', Run.exec Progress.fit g (State.offsets ts) = some g' →
        g'.calls = calls ∧ g'.ended = g.ended := by
  obtain ⟨pre, hpre, hp, hbase, hlast, hloop⟩ := enterTools_spec h
  have hexec := exec_fragments hbase (State.offsets ts) g _ calls hloop hcalls
  have hne : State.offsets ts ≠ [] := by simpa [State.offsets] using hts
  have hphase : phase (s.enterTools.sendToolCalls ts) =
      Run.exec accept (toolPhase pre g)
        ((State.offsets ts).flatMap (State.toolEvents s.enterTools.toolCallBaseIndex)) := by
    have hemit := phase_emit s.enterTools
      ((State.offsets ts).flatMap (State.toolEvents s.enterTools.toolCallBaseIndex))
    rw [hp] at hemit
    exact hemit
  cases hfit : Run.exec Progress.fit g (State.offsets ts) with
  | none =>
      rw [hfit] at hexec
      refine ⟨?_, fun g' hg' => by cases hg'⟩
      rw [Rel, hphase]
      exact hexec
  | some g' =>
      rw [hfit] at hexec
      obtain ⟨hall, hloop', hcalls', hended, hopen⟩ := hexec
      refine ⟨⟨_, hphase.trans hall, pre, hpre, ?_⟩, ?_⟩
      · have htools : (s.enterTools.sendToolCalls ts).lastMessagesType = .tools := hlast
        rw [htools]
        refine ⟨rfl, hbase, hloop'.opened_le, ?_⟩
        cases hstale : g'.stale with
        | true => exact hloop'.stale hstale
        | false =>
            have hfresh := hloop'.fresh hstale
            have hone := (hopen hne).resolve_left (by simp [hstale])
            simp only [Bool.false_eq_true, if_false, State.sendToolCalls]
            omega
      · rintro g'' ⟨⟩
        exact ⟨hcalls', hended⟩

/-! ## Text and reasoning -/

/-- A block that begins behind the others, with a delta. -/
theorem exec_start_delta (bs : List (Kind × Bool)) {b : Block} {d : BlockDelta} {i : Int}
    (hkind : d.kind = b.kind) (hi : i = bs.length) :
    Run.exec accept (.running bs) [.contentBlockStart i b, .contentBlockDelta i d] =
      some (.running (bs ++ [(b.kind, true)])) := by
  have hat := blockAt_length bs [(b.kind, true)]
  simp only [List.head?_cons] at hat
  simp [Run.exec, accept, hi, hkind, hat]

/-- The state that says that a block of text or of thinking is open. -/
def Opens (last : LastMessage) (b : Block) : Prop :=
  last = .text ∧ b.kind = .text ∨ last = .thinking ∧ b.kind = .thinking

section

variable {s s' : State} {g : Progress} {last : LastMessage} {b : Block} {d : BlockDelta}

/-- The open blocks are closed, and a block of text or thinking begins. -/
theorem rel_newBlock (h : Rel s (some g)) (hopens : Opens last b) (hkind : d.kind = b.kind)
    (hlast : s'.lastMessagesType = last) (hindex : s'.index = s.stopOpenBlocksAndAdvance.index)
    (hevents : s'.events = s.stopOpenBlocksAndAdvance.events ++
      [.contentBlockStart s.stopOpenBlocksAndAdvance.index b,
        .contentBlockDelta s.stopOpenBlocksAndAdvance.index d]) :
    Rel s' g.close := by
  obtain ⟨hrel, hnone⟩ := rel_advance h
  have hphase : phase s' = (phase s.stopOpenBlocksAndAdvance).bind fun p =>
      Run.exec accept p [.contentBlockStart s.stopOpenBlocksAndAdvance.index b,
        .contentBlockDelta s.stopOpenBlocksAndAdvance.index d] := by
    rw [phase, hevents]
    exact Run.exec_append _ _
  cases hstale : g.stale with
  | true =>
      simp only [Progress.close, hstale, if_true, Rel] at hrel ⊢
      rw [hphase, hrel]
      rfl
  | false =>
      simp only [Progress.close, hstale, Bool.false_eq_true, if_false] at hrel ⊢
      obtain ⟨bs, hp, pre, hpre, hsync⟩ := hrel
      simp only [hnone] at hsync
      obtain ⟨rfl, hi, -, -⟩ := hsync
      rw [hp, Option.bind_some, exec_start_delta bs hkind hi] at hphase
      refine ⟨_, hphase, bs, hpre, ?_⟩
      rcases hopens with ⟨rfl, hb⟩ | ⟨rfl, hb⟩
      · simp [hlast, hb, hindex, hi]
      · simp [hlast, hb, hindex, hi]

/-- A delta to the block of text or thinking that is open. -/
theorem rel_sendDelta (h : Rel s (some g)) (hopens : Opens s.lastMessagesType b)
    (hkind : d.kind = b.kind) : Rel (s.sendDelta d) g.close := by
  obtain ⟨bs, hp, hsync⟩ := h
  have hntools : s.lastMessagesType ≠ .tools := by
    rcases hopens with ⟨h, -⟩ | ⟨h, -⟩ <;> simp [h]
  obtain ⟨hopened, hstale⟩ := hsync.not_tools hntools
  have hclose : g.close = some g := by
    obtain ⟨calls, opened, stale, ended⟩ := g
    cases hopened
    cases hstale
    rfl
  have hat : blockAt bs s.index = some (d.kind, true) := by
    obtain ⟨pre, -, hs⟩ := hsync
    rcases hopens with ⟨hl, hb⟩ | ⟨hl, hb⟩
    · simp only [hl] at hs
      rw [hs.1, hs.2.1, blockAt_length, hkind, hb]
      rfl
    · simp only [hl] at hs
      rw [hs.1, hs.2.1, blockAt_length, hkind, hb]
      rfl
  rw [hclose]
  refine ⟨bs, ?_, hsync⟩
  rw [State.sendDelta, phase_emit, hp]
  simp [Run.exec, accept, hat]

theorem rel_block (h : Rel s (some g)) (hopens : Opens last b) (hkind : d.kind = b.kind) :
    Rel ((s.enterBlock last b).sendDelta d) g.close := by
  by_cases hlast : s.lastMessagesType = last
  · have hsame : s.enterBlock last b = s := by simp [State.enterBlock, hlast]
    rw [hsame]
    exact rel_sendDelta h (hlast ▸ hopens) hkind
  · simp only [State.enterBlock, ne_eq, hlast, not_false_eq_true, if_true]
    refine rel_newBlock h hopens hkind rfl rfl ?_
    simp [State.sendDelta, State.emit]

theorem rel_firstBlock (h : Rel s (some g)) (hopens : Opens last b) (hkind : d.kind = b.kind)
    (hlast : s.lastMessagesType ≠ last) : Rel (s.firstBlock last b d) g.close := by
  simp only [State.firstBlock, ne_eq, hlast, not_false_eq_true, if_true]
  exact rel_newBlock h hopens hkind rfl rfl rfl

theorem rel_sendText (h : Rel s (some g)) (d : Delta) : Rel (s.sendText d) (g.text d) := by
  simp only [State.sendText, Progress.text]
  split
  next hr =>
    rw [if_pos (Or.inl hr)]
    exact rel_block h (Or.inr ⟨rfl, rfl⟩) rfl
  next hr =>
    split
    next hc =>
      rw [if_pos (Or.inr hc)]
      exact rel_block h (Or.inl ⟨rfl, rfl⟩) rfl
    next hc =>
      rw [if_neg (by rintro (h | h) <;> contradiction)]
      exact h

theorem rel_firstText (h : Rel s (some g)) (d : Delta)
    (hlast : s.lastMessagesType = .none ∨ s.lastMessagesType = .tools) :
    Rel (s.firstText d) (g.text d) := by
  have hthinking : s.lastMessagesType ≠ .thinking := by
    rcases hlast with h | h <;> simp [h]
  have htext : s.lastMessagesType ≠ .text := by
    rcases hlast with h | h <;> simp [h]
  simp only [State.firstText, Progress.text]
  split
  next hr =>
    rw [if_pos (Or.inl hr)]
    exact rel_firstBlock h (Or.inr ⟨rfl, rfl⟩) rfl hthinking
  next hr =>
    split
    next hc =>
      rw [if_pos (Or.inr hc)]
      exact rel_firstBlock h (Or.inl ⟨rfl, rfl⟩) rfl htext
    next hc =>
      rw [if_neg (by rintro (h | h) <;> contradiction)]
      exact h

end

/-! ## Chunks -/

/-- The converter between two calls. -/
def AtChunk (s : State) : Option Progress → Prop
  | none => phase s = none
  | some g =>
      s.sendResponseCount ≠ 0 ∧ s.done = g.ended ∧
        if g.ended then phase s = some .stopped else Rel s (some g)

theorem text_ended {g g' : Progress} {d : Delta} (h : g.text d = some g') :
    g'.ended = g.ended ∧ g'.calls = g.calls := by
  simp only [Progress.text, Progress.close] at h
  split at h
  next =>
    split at h
    next => cases h
    next =>
      cases h
      exact ⟨rfl, rfl⟩
  next =>
    cases h
    exact ⟨rfl, rfl⟩

/-- The last events of a message. -/
theorem phase_finish {s : State} {g : Progress} (h : Rel s (some g)) (usage : Option Usage) :
    phase (s.finish usage) = if g.stale then none else some .stopped := by
  obtain ⟨bs, hp, hsync⟩ := h
  have hstops := phase_stopOpenBlocks hp hsync
  have hall : (closeAll bs).all (!·.2) = true := by simp [closeAll]
  have hstopped : ∀ s', phase s' = phase s.stopOpenBlocks →
      phase (s'.emit [.messageStop]) = if g.stale then none else some .stopped := by
    intro s' hs'
    rw [phase_emit, hs', hstops]
    split
    next => rfl
    next => simp [Run.exec, accept, hall]
  simp only [State.finish]
  split
  next =>
    refine hstopped _ ?_
    rw [phase_emit, hstops]
    split
    next => rfl
    next => rfl
  next => exact hstopped _ rfl

theorem atChunk_finishIf {s : State} {o : Option Progress} (choice : Choice) (usage : Option Usage)
    (h : Rel s o) (hcount : s.sendResponseCount ≠ 0) (hdone : s.done = false)
    (hended : ∀ g, o = some g → g.ended = false) :
    AtChunk (s.finishIf choice usage) (o.bind fun g => g.finishIf choice) := by
  cases o with
  | none => exact phase_eq_none_of_isPrefix (events_finishIf s choice usage) h
  | some g =>
      have hg := hended g rfl
      simp only [Option.bind_some, State.finishIf, Progress.finishIf]
      cases choice.finish with
      | none => exact ⟨hcount, by rw [hdone, hg], by simpa [hg] using h⟩
      | some reason =>
          have hphase := phase_finish (s := { s with finishReason := reason }) h usage
          simp only [Progress.close]
          cases hstale : g.stale with
          | true => simpa [AtChunk, hstale] using hphase
          | false =>
              simp only [hstale, Bool.false_eq_true, if_false] at hphase
              refine ⟨?_, rfl, hphase⟩
              simp only [State.finish]
              split <;> exact hcount

theorem finishIf_cases {g g' : Progress} {choice : Choice} (h : g.finishIf choice = some g') :
    g'.ended = true ∨ g' = g := by
  simp only [Progress.finishIf] at h
  split at h
  next =>
    obtain ⟨g₁, -, rfl⟩ := Option.map_eq_some_iff.1 h
    exact Or.inl rfl
  next =>
    cases h
    exact Or.inr rfl

/-- A chunk after the first. -/
theorem atChunk_next {s : State} {g : Progress} {c : Chunk} {calls : Nat}
    (h : AtChunk s (some g)) (hg : g.ended = false)
    (hcalls : Run.exec admitFragment g.calls (fragments c) = some calls) :
    AtChunk (s.streamResponseOpenAI2Claude c) (g.nextChunk c) ∧
      ∀ g', g.nextChunk c = some g' → g'.ended = true ∨ g'.calls = calls := by
  obtain ⟨hcount, hdone, hrel⟩ := h
  simp only [hg, Bool.false_eq_true, if_false] at hrel
  have hdone' : s.done = false := hdone.trans hg
  have hstream : s.streamResponseOpenAI2Claude c =
      ({ s with sendResponseCount := s.sendResponseCount + 1 } : State).nextChunk c := by
    simp [State.streamResponseOpenAI2Claude, hdone', hcount]
  rw [hstream, State.nextChunk, Progress.nextChunk, if_neg (by simp [hg])]
  generalize hs₁ : ({ s with sendResponseCount := s.sendResponseCount + 1 } : State) = s₁
  have hrel₁ : Rel s₁ (some g) := hs₁ ▸ hrel
  have hcount₁ : s₁.sendResponseCount ≠ 0 := by simp [← hs₁]
  have hdone₁ : s₁.done = false := by simpa [← hs₁] using hdone'
  cases hchoices : c.choices with
  | nil =>
      rw [fragments, hchoices] at hcalls
      refine ⟨⟨hcount₁, hdone₁.trans hg.symm, by simpa [hg] using hrel₁⟩, ?_⟩
      rintro g' ⟨⟩
      exact Or.inr (Option.some.inj hcalls)
  | cons choice rest =>
      rw [fragments, hchoices] at hcalls
      dsimp only at hcalls ⊢
      cases hts : choice.delta.toolCalls with
      | nil =>
          rw [hts] at hcalls
          have hw := writes_sendText s₁ choice.delta
          refine ⟨atChunk_finishIf choice c.usage (rel_sendText hrel₁ _) (hw.count ▸ hcount₁)
            (hw.done.trans hdone₁) fun g' hg' => (text_ended hg').1.trans hg, ?_⟩
          intro g' hg'
          obtain ⟨g₁, hg₁, hfin⟩ := Option.bind_eq_some_iff.1 hg'
          rcases finishIf_cases hfin with hend | rfl
          · exact Or.inl hend
          · exact Or.inr ((text_ended hg₁).2.trans (Option.some.inj hcalls))
      | cons t ts =>
          rw [hts] at hcalls
          have hw := writes_tools s₁ (t :: ts)
          obtain ⟨hrel₂, hnext⟩ := rel_tools hrel₁ (by simp) hcalls
          refine ⟨atChunk_finishIf choice c.usage hrel₂ (hw.count ▸ hcount₁)
            (hw.done.trans hdone₁) fun g' hg' => (hnext g' hg').2.trans hg, ?_⟩
          intro g' hg'
          obtain ⟨g₁, hg₁, hfin⟩ := Option.bind_eq_some_iff.1 hg'
          rcases finishIf_cases hfin with hend | rfl
          · exact Or.inl hend
          · exact Or.inr (hnext _ hg₁).1

/-- After the end of the message nothing is written. -/
theorem atChunk_ended {s : State} {g : Progress} {c : Chunk} (h : AtChunk s (some g))
    (hg : g.ended = true) :
    AtChunk (s.streamResponseOpenAI2Claude c) (g.nextChunk c) ∧ g.nextChunk c = some g := by
  obtain ⟨hcount, hdone, hphase⟩ := h
  simp only [hg, if_true] at hdone hphase
  have hnext : g.nextChunk c = some g := by simp [Progress.nextChunk, hg]
  rw [hnext]
  simp only [State.streamResponseOpenAI2Claude, hdone, if_true]
  refine ⟨⟨by simp, by simp [hg], ?_⟩, trivial⟩
  rw [if_pos hg]
  exact hphase

theorem events_firstChunk (s : State) (c : Chunk) : s.events <+: (s.firstChunk c).events := by
  rw [State.firstChunk]
  have hstart := (writes_emit s [.messageStart c.id c.model s.estimatePromptTokens]).events
  split
  next => exact hstart
  next choice _ _ =>
    refine hstart.trans (List.IsPrefix.trans ?_ (events_finishIf _ choice c.usage))
    refine List.IsPrefix.trans ?_ (writes_firstText _ choice.delta).events
    split
    next => exact List.prefix_refl _
    next => exact List.prefix_append _ _

theorem events_stream (s : State) (c : Chunk) :
    s.events <+: (s.streamResponseOpenAI2Claude c).events := by
  simp only [State.streamResponseOpenAI2Claude]
  split
  next => exact List.prefix_refl _
  next =>
    split
    next => exact events_firstChunk { s with sendResponseCount := s.sendResponseCount + 1 } c
    next => exact events_nextChunk { s with sendResponseCount := s.sendResponseCount + 1 } c

/-- A stream that was refused stays refused, whatever follows. -/
theorem phase_convert_of_none (cs : List Chunk) :
    ∀ {s : State}, phase s = none → phase (convert s cs) = none := by
  induction cs with
  | nil => exact id
  | cons c cs ih =>
      intro s hs
      exact ih (phase_eq_none_of_isPrefix (events_stream s c) hs)

/-- The chunks after the first. -/
theorem atChunk_convert (cs : List Chunk) :
    ∀ {s : State} {g : Progress}, AtChunk s (some g) →
      (g.ended = true ∨ (Run.exec admitFragment g.calls (cs.flatMap fragments)).isSome = true) →
      AtChunk (convert s cs) (Run.exec Progress.nextChunk g cs) := by
  induction cs with
  | nil => exact fun h _ => h
  | cons c cs ih =>
      intro s g h hcalls
      -- What the next chunk leaves, with the fragments that are still to come.
      have hnext : AtChunk (s.streamResponseOpenAI2Claude c) (g.nextChunk c) ∧
          ∀ g', g.nextChunk c = some g' → g'.ended = true ∨
            (Run.exec admitFragment g'.calls (cs.flatMap fragments)).isSome = true := by
        cases hg : g.ended with
        | true =>
            obtain ⟨hat, heq⟩ := atChunk_ended (c := c) h hg
            refine ⟨hat, fun g' hg' => Or.inl ?_⟩
            rw [heq] at hg'
            cases hg'
            exact hg
        | false =>
            rw [hg] at hcalls
            obtain ⟨last, hlast⟩ := Option.isSome_iff_exists.1 (hcalls.resolve_left (by simp))
            rw [List.flatMap_cons, Run.exec_append] at hlast
            obtain ⟨calls, hc, hcs⟩ := Option.bind_eq_some_iff.1 hlast
            obtain ⟨hat, hstep⟩ := atChunk_next h hg hc
            refine ⟨hat, fun g' hg' => (hstep g' hg').imp_right fun hcalls' => ?_⟩
            rw [hcalls', hcs]
            rfl
      obtain ⟨hat, hrest⟩ := hnext
      rw [Run.exec]
      cases hg' : g.nextChunk c with
      | none =>
          rw [hg'] at hat
          exact phase_convert_of_none cs hat
      | some g' =>
          rw [hg'] at hat
          exact ih hat (hrest g' hg')

/-! ## The first chunk -/

/-- The calls that have appeared are the fragments with a name. -/
theorem calls_of_admitFragment :
    ∀ {ps : List (Int × ToolCallResponse)} {n calls : Nat}, Run.exec admitFragment n ps = some calls →
      calls = n + (ps.map Prod.snd).countP (·.name ≠ "")
  | [], n, calls, h => by
      cases h
      simp
  | p :: ps, n, calls, h => by
      obtain ⟨m, hm, hms⟩ := Run.exec_cons_eq_some.1 h
      have ih := calls_of_admitFragment hms
      rw [List.map_cons, List.countP_cons, ih]
      simp only [admitFragment] at hm
      split at hm
      next =>
        split at hm
        next hname =>
          cases hm
          rw [if_pos (by simpa using hname)]
          omega
        next => cases hm
      next =>
        split at hm
        next hlater =>
          cases hm
          simp [hlater.2.2]
        next => cases hm

theorem map_snd_offsets (ts : List ToolCallResponse) : (State.offsets ts).map Prod.snd = ts := by
  rw [State.offsets, List.map_map]
  exact List.zipIdx_map_fst 0 ts

theorem phase_start {s : State} (hs : s.events = []) (id model : String) (n : Int) :
    phase (s.emit [.messageStart id model n]) = some (.running []) := by
  rw [phase_emit, phase, hs]
  rfl

/-- Before anything of the first chunk but the start of the message. -/
theorem rel_start (s : State) (c : Chunk) (hs : s.events = []) (hlast : s.lastMessagesType = .none)
    (hindex : s.index = 0) {g : Progress} (hopened : g.opened = 0) (hstale : g.stale = false) :
    Rel (s.emit [.messageStart c.id c.model s.estimatePromptTokens]) (some g) := by
  refine ⟨[], phase_start hs _ _ _, [], by simp, ?_⟩
  simp [State.emit, hlast, hindex, hopened, hstale]

/-- The tool call of the first chunk. -/
theorem rel_firstToolCall {s : State} {g : Progress} (t : ToolCallResponse)
    (hs : phase s = some (.running [])) (hopened : g.opened = 1) (hstale : g.stale = false)
    (hcalls : 1 ≤ g.calls) : Rel (s.firstToolCall t) (some g) := by
  refine ⟨[(.toolUse, true)], ?_, [], by simp, ?_⟩
  · have hphase : phase (s.firstToolCall t) = (phase s).bind fun p => Run.exec accept p
        (.contentBlockStart 0 (.toolUse t.id t.name) ::
          if t.arguments ≠ "" then [.contentBlockDelta 0 (.inputJson t.arguments)] else []) :=
      Run.exec_append s.events _
    rw [hphase, hs]
    split
    next => simp [Run.exec, accept, Block.kind, BlockDelta.kind, blockAt]
    next => simp [Run.exec, accept, Block.kind]
  · simp [State.firstToolCall, State.emit, hopened, hstale, hcalls]

theorem atChunk_first (estimate : Int) (usage : Option Usage) {c : Chunk} {calls : Nat}
    (hcalls : Run.exec admitFragment 0 (fragments c) = some calls) :
    AtChunk ((initial estimate usage).streamResponseOpenAI2Claude c) (Progress.firstChunk c) ∧
      ∀ g, Progress.firstChunk c = some g → g.ended = true ∨ g.calls = calls := by
  generalize hs₀ : ({ initial estimate usage with sendResponseCount := 1 } : State) = s₀
  have hstream : (initial estimate usage).streamResponseOpenAI2Claude c = s₀.firstChunk c := by
    simp [State.streamResponseOpenAI2Claude, initial, ← hs₀]
  have hevents : s₀.events = [] := by simp [← hs₀, initial]
  have hlast : s₀.lastMessagesType = .none := by simp [← hs₀, initial]
  have hindex : s₀.index = 0 := by simp [← hs₀, initial]
  have hcount : s₀.sendResponseCount ≠ 0 := by simp [← hs₀]
  have hdone : s₀.done = false := by simp [← hs₀, initial]
  rw [hstream, State.firstChunk, Progress.firstChunk]
  generalize hs₁ : s₀.emit [.messageStart c.id c.model s₀.estimatePromptTokens] = s₁
  have hrel : ∀ g : Progress, g.opened = 0 → g.stale = false → Rel s₁ (some g) := by
    intro g hopened hstale
    exact hs₁ ▸ rel_start s₀ c hevents hlast hindex hopened hstale
  have hw₁ : Writes s₀ s₁ := hs₁ ▸ writes_emit s₀ _
  cases hchoices : c.choices with
  | nil =>
      rw [fragments, hchoices] at hcalls
      refine ⟨⟨hw₁.count ▸ hcount, hw₁.done.trans hdone, hrel _ rfl rfl⟩, ?_⟩
      rintro g ⟨⟩
      exact Or.inr (Option.some.inj hcalls)
  | cons choice rest =>
      rw [fragments, hchoices] at hcalls
      dsimp only at hcalls ⊢
      have hcounted := calls_of_admitFragment hcalls
      rw [map_snd_offsets, Nat.zero_add] at hcounted
      generalize hg₀ : (⟨choice.delta.toolCalls.countP (·.name ≠ ""),
        if choice.delta.toolCalls = [] then 0 else 1, false, false⟩ : Progress) = g₀
      have hg₀calls : g₀.calls = calls := by rw [← hg₀, hcounted]
      have hg₀ended : g₀.ended = false := by rw [← hg₀]
      -- what follows the tool call does not depend on whether there was one
      have hrest : ∀ s₂, Rel s₂ (some g₀) → Writes s₁ s₂ →
          (s₂.lastMessagesType = .none ∨ s₂.lastMessagesType = .tools) →
          AtChunk ((s₂.firstText choice.delta).finishIf choice c.usage)
              ((g₀.text choice.delta).bind fun g => g.finishIf choice) ∧
            ∀ g, ((g₀.text choice.delta).bind fun g => g.finishIf choice) = some g →
              g.ended = true ∨ g.calls = calls := by
        intro s₂ hrel₂ hw₂ hlast₂
        have hw := hw₁.trans (hw₂.trans (writes_firstText s₂ choice.delta))
        have hcount₂ : (s₂.firstText choice.delta).sendResponseCount ≠ 0 := hw.count ▸ hcount
        refine ⟨atChunk_finishIf choice c.usage (rel_firstText hrel₂ _ hlast₂) hcount₂
          (hw.done.trans hdone)
          fun g hg => (text_ended hg).1.trans hg₀ended, ?_⟩
        intro g hg
        obtain ⟨g₁, hg₁, hfin⟩ := Option.bind_eq_some_iff.1 hg
        rcases finishIf_cases hfin with hend | rfl
        · exact Or.inl hend
        · exact Or.inr ((text_ended hg₁).2.trans hg₀calls)
      cases hts : choice.delta.toolCalls with
      | nil =>
          rw [hts] at hg₀
          refine hrest s₁ (hrel g₀ (by simp [← hg₀]) (by simp [← hg₀])) (.refl s₁) (Or.inl ?_)
          simp [← hs₁, State.emit, hlast]
      | cons t ts =>
          rw [hts] at hg₀ hcalls
          have hphase : phase s₁ = some (.running []) := hs₁ ▸ phase_start hevents _ _ _
          -- The first fragment of all is the first of its call.
          have hname : t.name ≠ "" := by
            obtain ⟨m, hm, -⟩ := Run.exec_cons_eq_some.1 hcalls
            simp only [admitFragment] at hm
            split at hm
            next =>
              split at hm
              next hname => exact hname
              next => cases hm
            next =>
              split at hm
              next hlater => omega
              next => cases hm
          refine hrest (s₁.firstToolCall t)
            (rel_firstToolCall t hphase (by simp [← hg₀]) (by simp [← hg₀]) ?_)
            ⟨rfl, rfl, rfl, List.prefix_append _ _⟩ (Or.inr rfl)
          simp [← hg₀, hname]

/-! ## Whole streams -/

theorem atChunk_iff {s : State} {o : Option Progress} (h : AtChunk s o) :
    wellFormed s.events = true ↔ o.isSome = true := by
  have hwell : wellFormed s.events = (phase s).any (· ≠ .fresh) := rfl
  cases o with
  | none =>
      rw [hwell, show phase s = none from h]
      simp
  | some g =>
      obtain ⟨-, -, hphase⟩ := h
      rw [hwell]
      split at hphase
      next => simp [hphase]
      next =>
        obtain ⟨bs, hp, -⟩ := hphase
        simp [hp]

/-- For every stream of chunks whose tool calls are numbered, the events of the converter
are well formed exactly if the fragments of the tool calls fit. -/
theorem wellFormed_iff_fits (estimate : Int) (usage : Option Usage) (c : Chunk) (cs : List Chunk)
    (h : numbered (c :: cs) = true) :
    wellFormed (convert (initial estimate usage) (c :: cs)).events = true ↔
      fits (c :: cs) = true := by
  obtain ⟨last, hlast⟩ := Option.isSome_iff_exists.1 h
  rw [List.flatMap_cons, Run.exec_append] at hlast
  obtain ⟨calls, hc, hcs⟩ := Option.bind_eq_some_iff.1 hlast
  obtain ⟨hat, hnext⟩ := atChunk_first estimate usage hc
  rw [convert, List.foldl_cons, fits]
  refine atChunk_iff ?_
  cases hg : Progress.firstChunk c with
  | none =>
      rw [hg] at hat
      exact phase_convert_of_none cs hat
  | some g =>
      rw [hg] at hat
      refine atChunk_convert cs hat ((hnext g hg).imp_right fun hcalls => ?_)
      rw [hcalls, hcs]
      rfl

/-- A chunk with the fragment of one tool call. -/
def toolChunk (index : Int) (name arguments : String) : Chunk :=
  ⟨"c", "m", [⟨0, ⟨"", none, none, none, [⟨some index, "", name, arguments⟩]⟩, none⟩], none⟩

/-- A chunk with a text, and the reason of the end if there is one. -/
def textChunk (text : String) (finishReason : Option String) : Chunk :=
  ⟨"c", "m", [⟨0, ⟨"", some text, none, none, []⟩, finishReason⟩], none⟩

theorem wellFormed_text_tools :
    wellFormed (convert (initial 0 none) [textChunk "hi" none, toolChunk 0 "f" "x",
      toolChunk 1 "g" "", toolChunk 0 "" "y", textChunk "" (some "tool_calls")]).events = true :=
  (wellFormed_iff_fits 0 none _ _ (by decide +kernel)).2 (by decide +kernel)

/-- A tool call that goes on after a text is sent to a block that was not started. -/
theorem not_wellFormed_tool_text_tool :
    ∃ chunks, numbered chunks = true ∧
      wellFormed (convert (initial 0 none) chunks).events = false :=
  ⟨[toolChunk 0 "f" "x", textChunk "hi" none, toolChunk 0 "" "y"], by decide +kernel⟩

end DazeApi.Convert.OpenAI2Claude
