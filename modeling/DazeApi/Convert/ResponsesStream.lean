import DazeApi.Convert.Responses

/-!
# What the chat stream has

The handler in step with the events of a response.  As long as no text has come, the calls
of the stream are those of the items that were added, with the arguments that came so far
(`Open`).  From the first text on no call changes any more (`Spoken`).  Events that describe
nothing, and the first chunk, leave both as they are (`Quiet`).
-/

namespace DazeApi.Convert.Responses

open DazeApi.Relay

/-- What a client has of the chunks that were sent. -/
def accumulated (s : ToChat) : Transcript := transcript 0 (s.sent.map toChunk)

/-- A chunk goes on with what the client has. -/
def addChunkDelta (tr : Transcript) : ChunkDelta → Transcript
  | .start => tr
  | .content text => { tr with content := tr.content ++ text }
  | .reasoning text => { tr with reasoning := tr.reasoning ++ text }
  | .toolCall index id name args =>
      { tr with calls := addFragment tr.calls ⟨some index, id, name, args⟩ }
  | .stop reason => { tr with finishReasons := tr.finishReasons ++ [reason] }

theorem transcript_snoc (cs : List ChatChunk) (c : ChatChunk) :
    transcript 0 ((cs ++ [c]).map toChunk) =
      addChunkDelta (transcript 0 (cs.map toChunk)) c.delta := by
  rw [List.map_append, transcript, List.foldl_append]
  cases hd : c.delta <;>
    simp [toChunk, hd, Transcript.addChunk, Transcript.addChoice, Transcript.addDelta,
      addChunkDelta, Delta.getContentString, Delta.getReasoningContent, transcript]

/-! ## One chunk -/

section

variable {io : ChatCodec} {s s' s'' : ToChat}

/-- The client takes every chunk. -/
def Connected (io : ChatCodec) : Prop := ∀ sent chunk, ∃ texts, io.emit sent chunk = .ok texts

/-- The step changes nothing that the calls and the text of the stream depend on. -/
structure Quiet (s s' : ToChat) : Prop where
  streamErr : s'.streamErr = none
  sentStop : s'.sentStop = s.sentStop
  outputText : s'.outputText = s.outputText
  sawToolCall : s'.sawToolCall = s.sawToolCall
  index : s'.toolCallIndexByID = s.toolCallIndexByID
  names : s'.toolCallNameByID = s.toolCallNameByID
  args : s'.toolCallArgsByID = s.toolCallArgsByID
  nameSent : s'.toolCallNameSent = s.toolCallNameSent
  canonical : s'.toolCallCanonicalIDByItemID = s.toolCallCanonicalIDByItemID
  content : (accumulated s').content = (accumulated s).content
  calls : (accumulated s').calls = (accumulated s).calls
  finishReasons : (accumulated s').finishReasons = (accumulated s).finishReasons

theorem Quiet.refl (h : s.streamErr = none) : Quiet s s :=
  ⟨h, rfl, rfl, rfl, rfl, rfl, rfl, rfl, rfl, rfl, rfl, rfl⟩

theorem Quiet.trans (h : Quiet s s') (h' : Quiet s' s'') : Quiet s s'' where
  streamErr := h'.streamErr
  sentStop := h'.sentStop.trans h.sentStop
  outputText := h'.outputText.trans h.outputText
  sawToolCall := h'.sawToolCall.trans h.sawToolCall
  index := h'.index.trans h.index
  names := h'.names.trans h.names
  args := h'.args.trans h.args
  nameSent := h'.nameSent.trans h.nameSent
  canonical := h'.canonical.trans h.canonical
  content := h'.content.trans h.content
  calls := h'.calls.trans h.calls
  finishReasons := h'.finishReasons.trans h.finishReasons

/-- A chunk that is sent is one that the client has. -/
theorem exists_sendChatChunk (hio : Connected io) (s : ToChat) (delta : ChunkDelta) :
    ∃ sent written, s.sendChatChunk io delta = { s with sent := sent, written := written } ∧
      transcript 0 (sent.map toChunk) = addChunkDelta (accumulated s) delta := by
  obtain ⟨texts, htexts⟩ := hio s.sent ⟨s.responseId, s.createAt, s.model, delta⟩
  refine ⟨s.sent ++ [⟨s.responseId, s.createAt, s.model, delta⟩],
    s.written ++ texts.map Write.data, ?_, ?_⟩
  · simp only [ToChat.sendChatChunk, htexts]
  · rw [transcript_snoc, accumulated]

theorem andThen_of_none {f : ToChat → ToChat} (h : s.streamErr = none) : s.andThen f = f s := by
  rw [ToChat.andThen, h]
  rfl

theorem exists_sendChatChunk_andThen (hio : Connected io) (h : s.streamErr = none)
    (delta : ChunkDelta) (f : ToChat → ToChat) :
    ∃ sent written, (s.sendChatChunk io delta).andThen f =
        f { s with sent := sent, written := written } ∧
      transcript 0 (sent.map toChunk) = addChunkDelta (accumulated s) delta := by
  obtain ⟨sent, written, hsend, htr⟩ := exists_sendChatChunk hio s delta
  exact ⟨sent, written, by rw [hsend]; exact andThen_of_none h, htr⟩

theorem quiet_sendStart (hio : Connected io) (h : s.streamErr = none) :
    Quiet s (s.sendStartIfNeeded io) := by
  rw [ToChat.sendStartIfNeeded]
  split
  next => exact .refl h
  next =>
    obtain ⟨sent, written, hsend, htr⟩ := exists_sendChatChunk_andThen hio h .start
      ({ · with sentStart := true })
    rw [hsend]
    exact ⟨h, rfl, rfl, rfl, rfl, rfl, rfl, rfl, rfl, by simp [accumulated, htr, addChunkDelta],
      by simp [accumulated, htr, addChunkDelta], by simp [accumulated, htr, addChunkDelta]⟩

theorem quiet_setHead (h : s.streamErr = none) (resp : Option ResponseMeta) :
    Quiet s (s.setHead resp) := by
  cases resp with
  | none => exact .refl h
  | some r => exact ⟨h, rfl, rfl, rfl, rfl, rfl, rfl, rfl, rfl, rfl, rfl, rfl⟩

theorem quiet_reasoning (hio : Connected io) (h : s.streamErr = none) (delta : String) :
    Quiet s (s.sendReasoningSummaryDelta io delta) := by
  rw [ToChat.sendReasoningSummaryDelta]
  split
  next => exact .refl h
  next =>
    have hfirst : Quiet s { s with needsReasoningSummarySeparator := false } :=
      ⟨h, rfl, rfl, rfl, rfl, rfl, rfl, rfl, rfl, rfl, rfl, rfl⟩
    have hstart := hfirst.trans (quiet_sendStart hio hfirst.streamErr)
    refine hstart.trans ?_
    dsimp only
    rw [andThen_of_none hstart.streamErr]
    obtain ⟨sent, written, hsend, htr⟩ := exists_sendChatChunk_andThen hio hstart.streamErr
      (.reasoning (s.separate delta)) ({ · with hasSentReasoningSummary := true })
    rw [hsend]
    exact ⟨hstart.streamErr, rfl, rfl, rfl, rfl, rfl, rfl, rfl, rfl,
      by simp [accumulated, htr, addChunkDelta], by simp [accumulated, htr, addChunkDelta],
      by simp [accumulated, htr, addChunkDelta]⟩

/-- An event that describes nothing is quiet. -/
theorem quiet_onEvent (hio : Connected io) (h : s.streamErr = none) {ev : ResponsesEvent}
    (hev : carries ev = false) : Quiet s (s.onEvent io ev) := by
  simp only [carries, List.mem_cons, List.not_mem_nil, or_false, decide_eq_false_iff_not,
    not_or] at hev
  obtain ⟨htext, hadded, hdone, hargs, hcompleted, herror, hfailed⟩ := hev
  simp only [ToChat.onEvent]
  split
  next => exact quiet_setHead h ev.response
  next => exact quiet_reasoning hio h ev.delta
  next =>
    split
    next => exact ⟨h, rfl, rfl, rfl, rfl, rfl, rfl, rfl, rfl, rfl, rfl, rfl⟩
    next => exact .refl h
  next heq => exact absurd heq htext
  next heq => exact absurd heq hadded
  next heq => exact absurd heq hdone
  next heq => exact absurd heq hargs
  next heq => exact absurd heq hcompleted
  next heq => exact absurd heq herror
  next heq => exact absurd heq hfailed
  next => exact .refl h

/-! ## A fragment of a call -/

/-- The index of a call, which may be new. -/
def callIndex (s : ToChat) (callID : String) : Nat :=
  (s.toolCallIndexByID.lookup callID).getD s.toolCallIndexByID.keys.length

/-- The names after a name has come. -/
def namesWith (s : ToChat) (callID name : String) : AList fun _ : String => String :=
  if name ≠ "" then s.toolCallNameByID.insert callID name else s.toolCallNameByID

/-- The name of a call, as far as it has come. -/
def knownName (s : ToChat) (callID name : String) : String :=
  let known := ((namesWith s callID name).lookup callID).getD ""
  if known ≠ "" then known else name

/-- The fragment has the name. -/
def sendsName (s : ToChat) (callID name : String) : Bool :=
  knownName s callID name ≠ "" ∧ callID ∉ s.toolCallNameSent

/-- What `sendToolCallDelta` does in a stream that has no text. -/
structure Sends (s : ToChat) (callID name argsDelta : String) (s' : ToChat) : Prop where
  streamErr : s'.streamErr = none
  sentStop : s'.sentStop = s.sentStop
  outputText : s'.outputText = s.outputText
  sawToolCall : s'.sawToolCall = true
  index : s'.toolCallIndexByID = s.toolCallIndexByID.insert callID (callIndex s callID)
  names : s'.toolCallNameByID = namesWith s callID name
  args : s'.toolCallArgsByID = s.toolCallArgsByID
  nameSent : s'.toolCallNameSent =
    if sendsName s callID name then callID :: s.toolCallNameSent else s.toolCallNameSent
  canonical : s'.toolCallCanonicalIDByItemID = s.toolCallCanonicalIDByItemID
  content : (accumulated s').content = (accumulated s).content
  calls : (accumulated s').calls = addFragment (accumulated s).calls
    ⟨some (callIndex s callID), callID,
      if sendsName s callID name then knownName s callID name else "", argsDelta⟩
  finishReasons : (accumulated s').finishReasons = (accumulated s).finishReasons

/-- The maps after a fragment. -/
def registered (s : ToChat) (callID name : String) : ToChat :=
  { s with
    toolCallIndexByID := s.toolCallIndexByID.insert callID (callIndex s callID)
    toolCallNameByID := namesWith s callID name
    toolCallNameSent :=
      if sendsName s callID name then callID :: s.toolCallNameSent else s.toolCallNameSent }

theorem sendToolCallDelta_eq (hio : Connected io) (h : s.streamErr = none) {callID name : String}
    (argsDelta : String) (hcall : callID ≠ "") (htext : s.outputText = "") :
    s.sendToolCallDelta io callID name argsDelta =
      ((registered (s.sendStartIfNeeded io) callID name).sendChatChunk io
        (.toolCall (callIndex (s.sendStartIfNeeded io) callID) callID
          (if sendsName (s.sendStartIfNeeded io) callID name then
            knownName (s.sendStartIfNeeded io) callID name else "") argsDelta)).andThen
        ({ · with sawToolCall := true }) := by
  have hstart := quiet_sendStart hio h
  rw [ToChat.sendToolCallDelta, if_neg hcall, if_neg (by simp [htext])]
  exact andThen_of_none hstart.streamErr

theorem sends_sendToolCallDelta (hio : Connected io) (h : s.streamErr = none)
    {callID name : String} (argsDelta : String) (hcall : callID ≠ "") (htext : s.outputText = "") :
    Sends s callID name argsDelta (s.sendToolCallDelta io callID name argsDelta) := by
  have hstart := quiet_sendStart hio h
  have hindex : callIndex (s.sendStartIfNeeded io) callID = callIndex s callID := by
    rw [callIndex, callIndex, hstart.index]
  have hnames : namesWith (s.sendStartIfNeeded io) callID name = namesWith s callID name := by
    rw [namesWith, namesWith, hstart.names]
  have hknown : knownName (s.sendStartIfNeeded io) callID name = knownName s callID name := by
    rw [knownName, knownName, hnames]
  have hsends : sendsName (s.sendStartIfNeeded io) callID name = sendsName s callID name := by
    rw [sendsName, sendsName, hknown, hstart.nameSent]
  rw [sendToolCallDelta_eq hio h argsDelta hcall htext]
  obtain ⟨sent, written, hsend, htr⟩ := exists_sendChatChunk_andThen hio
    (s := registered (s.sendStartIfNeeded io) callID name) hstart.streamErr
    (.toolCall (callIndex (s.sendStartIfNeeded io) callID) callID
      (if sendsName (s.sendStartIfNeeded io) callID name then
        knownName (s.sendStartIfNeeded io) callID name else "") argsDelta)
    ({ · with sawToolCall := true })
  rw [hsend]
  have hacc : accumulated (registered (s.sendStartIfNeeded io) callID name) =
      accumulated (s.sendStartIfNeeded io) := rfl
  rw [hacc] at htr
  refine ⟨hstart.streamErr, hstart.sentStop, hstart.outputText, rfl, ?_, hnames, hstart.args, ?_,
    hstart.canonical, ?_, ?_, ?_⟩
  · show (s.sendStartIfNeeded io).toolCallIndexByID.insert callID _ = _
    rw [hindex, hstart.index]
  · show (if sendsName (s.sendStartIfNeeded io) callID name then _ else _) = _
    rw [hsends, hstart.nameSent]
  · rw [accumulated, htr, addChunkDelta]
    exact hstart.content
  · rw [accumulated, htr, addChunkDelta]
    dsimp only
    rw [hstart.calls, hindex, hsends, hknown]
  · rw [accumulated, htr, addChunkDelta]
    exact hstart.finishReasons

end

/-! ## The calls of a stream without text -/

/-- The calls that were added, with what came of their arguments. -/
abbrev OpenCalls := List (ResponsesOutput × String)

def keys (os : OpenCalls) : List String := os.map fun o => callId o.1.toOutputItem

/-- The calls as a client has them, with indices from a number on. -/
def numbered : Nat → OpenCalls → List (Int × ToolCall)
  | _, [] => []
  | n, o :: os =>
      (n, ⟨callId o.1.toOutputItem, callName o.1.toOutputItem, o.2⟩) :: numbered (n + 1) os

/-- The call with an id. -/
def held (os : OpenCalls) (key : String) : Option (ResponsesOutput × String) :=
  os.find? fun o => callId o.1.toOutputItem = key

def heldName (os : OpenCalls) (key : String) : String :=
  ((held os key).map fun o => callName o.1.toOutputItem).getD ""

def heldArgs (os : OpenCalls) (key : String) : String := ((held os key).map Prod.snd).getD ""

section

variable {os pre post : OpenCalls} {x : ResponsesOutput} {a b key : String}

@[simp] theorem keys_append : keys (os ++ post) = keys os ++ keys post := List.map_append

@[simp] theorem keys_cons (o : ResponsesOutput × String) :
    keys (o :: os) = callId o.1.toOutputItem :: keys os := rfl

theorem keys_update : keys (pre ++ (x, a) :: post) = keys (pre ++ (x, b) :: post) := by simp

theorem held_eq_none (h : key ∉ keys os) : held os key = none := by
  rw [held, List.find?_eq_none]
  intro o ho
  simpa using fun heq => h (List.mem_map.2 ⟨o, ho, heq⟩)

theorem held_append : held (pre ++ post) key = (held pre key).or (held post key) :=
  List.find?_append

/-- The call at a place is the one with its id. -/
theorem held_middle (h : (keys (pre ++ (x, a) :: post)).Nodup) :
    held (pre ++ (x, a) :: post) (callId x.toOutputItem) = some (x, a) := by
  rw [keys_append, keys_cons] at h
  have hpre : callId x.toOutputItem ∉ keys pre := fun hmem =>
    (List.nodup_append.1 h).2.2 _ hmem _ List.mem_cons_self rfl
  rw [held_append, held_eq_none hpre, Option.none_or, held, List.find?_cons_of_pos (by simp)]

theorem held_update_of_ne (h : key ≠ callId x.toOutputItem) :
    held (pre ++ (x, b) :: post) key = held (pre ++ (x, a) :: post) key := by
  have hne : ¬ callId x.toOutputItem = key := fun heq => h heq.symm
  simp [held, hne]

theorem held_snoc_of_ne (h : key ≠ callId x.toOutputItem) :
    held (os ++ [(x, a)]) key = held os key := by
  have hne : ¬ callId x.toOutputItem = key := fun heq => h heq.symm
  simp [held, hne]

theorem held_snoc (h : callId x.toOutputItem ∉ keys os) :
    held (os ++ [(x, a)]) (callId x.toOutputItem) = some (x, a) := by
  rw [held_append, held_eq_none h]
  simp [held]

theorem getElem?_keys_snoc (h : key ∉ keys os) {i : Nat} :
    (keys os ++ [key])[i]? = some key ↔ i = os.length := by
  have hlen : (keys os).length = os.length := List.length_map ..
  constructor
  · intro hi
    rcases Nat.lt_or_ge i (keys os).length with hlt | hge
    · rw [List.getElem?_append_left hlt] at hi
      exact absurd (List.mem_of_getElem? hi) h
    · have hlt := (List.getElem?_eq_some_iff.1 hi).1
      rw [List.length_append, List.length_singleton] at hlt
      omega
  · rintro rfl
    rw [← hlen]
    simp

theorem getElem?_snoc_of_ne {ks : List String} {k : String} (h : key ≠ k) {i : Nat} :
    (ks ++ [k])[i]? = some key ↔ ks[i]? = some key := by
  rcases Nat.lt_or_ge i ks.length with hlt | hge
  · rw [List.getElem?_append_left hlt]
  · rw [List.getElem?_append_right hge, List.getElem?_eq_none hge]
    have hne : ¬ k = key := fun heq => h heq.symm
    rcases Nat.eq_zero_or_pos (i - ks.length) with h0 | h0
    · simp [h0, hne]
    · rw [List.getElem?_eq_none (by rw [List.length_singleton]; exact h0)]

theorem numbered_append : ∀ (os ps : OpenCalls) (n : Nat),
    numbered n (os ++ ps) = numbered n os ++ numbered (n + os.length) ps
  | [], _, _ => rfl
  | o :: os, ps, n => by
      rw [List.cons_append, numbered, numbered_append os ps (n + 1), numbered, List.cons_append,
        List.length_cons, Nat.add_right_comm, Nat.add_assoc]

theorem lt_of_mem_numbered : ∀ {os : OpenCalls} {n : Nat} {call : Int × ToolCall},
    call ∈ numbered n os → call.1 < n + os.length
  | o :: os, n, call, h => by
      rcases List.mem_cons.1 h with rfl | h
      · rw [List.length_cons]
        show (n : Int) < _
        omega
      · have hlt := lt_of_mem_numbered h
        rw [List.length_cons]
        omega

/-- A fragment of a new call. -/
theorem addFragment_numbered_snoc (os : OpenCalls) (x : ResponsesOutput) (a : String) :
    addFragment (numbered 0 os)
        ⟨some os.length, callId x.toOutputItem, callName x.toOutputItem, a⟩ =
      numbered 0 (os ++ [(x, a)]) := by
  rw [addFragment_of_not_mem, numbered_append]
  · simp [numbered]
  · intro call hcall
    have hlt := lt_of_mem_numbered hcall
    simp only [Option.getD_some, ne_eq]
    omega

/-- A fragment of a call that is there gives it more arguments. -/
theorem addFragment_numbered_middle (hx : callId x.toOutputItem ≠ "") (d : String) :
    ∀ (pre : OpenCalls) (n : Nat),
      addFragment (numbered n (pre ++ (x, a) :: post))
          ⟨some ((n + pre.length : Nat) : Int), callId x.toOutputItem, "", d⟩ =
        numbered n (pre ++ (x, a ++ d) :: post)
  | [], n => by
      simp [numbered, addFragment, fill, hx]
  | o :: pre, n => by
      have hne : ¬ (n : Int) = ((n + (o :: pre).length : Nat) : Int) := by
        rw [List.length_cons]
        omega
      have hlen : n + (o :: pre).length = n + 1 + pre.length := by
        rw [List.length_cons]
        omega
      rw [List.cons_append, numbered, addFragment, if_neg (by simpa using hne), hlen,
        addFragment_numbered_middle hx d pre (n + 1)]
      rfl

/-! ## The handler in step with the open calls -/

/-- What the client has, and the maps that go with it. -/
structure Sent (os : OpenCalls) (s : ToChat) : Prop where
  nodup : (keys os).Nodup
  nonblank : "" ∉ keys os
  streamErr : s.streamErr = none
  sentStop : s.sentStop = false
  outputText : s.outputText = ""
  sawToolCall : s.sawToolCall = !os.isEmpty
  index : ∀ key i, s.toolCallIndexByID.lookup key = some i ↔ (keys os)[i]? = some key
  size : s.toolCallIndexByID.keys.length = os.length
  nameSent : ∀ key, key ≠ "" → (key ∈ s.toolCallNameSent ↔ heldName os key ≠ "")
  content : (accumulated s).content = ""
  calls : (accumulated s).calls = numbered 0 os
  finishReasons : (accumulated s).finishReasons = []

/-- The maps of what has come. -/
structure Maps (os : OpenCalls) (s : ToChat) : Prop where
  names : ∀ key, key ≠ "" → (s.toolCallNameByID.lookup key).getD "" = heldName os key
  args : ∀ key, key ≠ "" → (s.toolCallArgsByID.lookup key).getD "" = heldArgs os key
  canonical : ∀ o ∈ os, Text.trimSpace o.1.id ≠ "" →
    s.toolCallCanonicalIDByItemID.lookup (Text.trimSpace o.1.id) = some (callId o.1.toOutputItem)
  blank : s.toolCallCanonicalIDByItemID.lookup "" = none

structure Open (os : OpenCalls) (s : ToChat) : Prop where
  sent : Sent os s
  maps : Maps os s

variable {io : ChatCodec} {s s' : ToChat} {name : String}

theorem Open.quiet (h : Open os s) (hq : Quiet s s') : Open os s' where
  sent :=
    { nodup := h.sent.nodup
      nonblank := h.sent.nonblank
      streamErr := hq.streamErr
      sentStop := hq.sentStop.trans h.sent.sentStop
      outputText := hq.outputText.trans h.sent.outputText
      sawToolCall := hq.sawToolCall.trans h.sent.sawToolCall
      index := by rw [hq.index]; exact h.sent.index
      size := by rw [hq.index]; exact h.sent.size
      nameSent := by rw [hq.nameSent]; exact h.sent.nameSent
      content := hq.content.trans h.sent.content
      calls := hq.calls.trans h.sent.calls
      finishReasons := hq.finishReasons.trans h.sent.finishReasons }
  maps :=
    { names := by rw [hq.names]; exact h.maps.names
      args := by rw [hq.args]; exact h.maps.args
      canonical := by rw [hq.canonical]; exact h.maps.canonical
      blank := by rw [hq.canonical]; exact h.maps.blank }

theorem heldName_of_held (h : held os key = some (x, a)) :
    heldName os key = callName x.toOutputItem := by
  rw [heldName, h]
  rfl

theorem heldArgs_of_held (h : held os key = some (x, a)) : heldArgs os key = a := by
  rw [heldArgs, h]
  rfl

/-- The name of a call that is there is known, whether or not it comes again. -/
theorem lookup_namesWith (h : Maps os s) (hheld : held os key = some (x, a))
    (hname : name = callName x.toOutputItem ∨ name = "") (key' : String) (hkey' : key' ≠ "") :
    ((namesWith s key name).lookup key').getD "" = heldName os key' := by
  rw [namesWith]
  split
  next hne =>
    by_cases heq : key' = key
    · rw [heq, AList.lookup_insert, Option.getD_some, heldName_of_held hheld]
      exact hname.resolve_right hne
    · rw [AList.lookup_insert_ne heq, h.names key' hkey']
  next => exact h.names key' hkey'

theorem knownName_eq (h : Maps os s) (hheld : held os key = some (x, a))
    (hname : name = callName x.toOutputItem ∨ name = "") (hkey : key ≠ "") :
    knownName s key name = callName x.toOutputItem := by
  rw [knownName, lookup_namesWith h hheld hname key hkey, heldName_of_held hheld]
  split
  next => rfl
  next hempty =>
    rw [not_not] at hempty
    rw [hempty] at hname ⊢
    exact hname.elim id id

theorem Maps.sends {argsDelta : String} (h : Maps os s) (hheld : held os key = some (x, a))
    (hname : name = callName x.toOutputItem ∨ name = "")
    (hs : Sends s key name argsDelta s') : Maps os s' where
  names := by rw [hs.names]; exact lookup_namesWith h hheld hname
  args := by rw [hs.args]; exact h.args
  canonical := by rw [hs.canonical]; exact h.canonical
  blank := by rw [hs.canonical]; exact h.blank

/-- The first fragment of a call. -/
theorem open_snoc (hio : Connected io) (h : Sent os s) (hm : Maps (os ++ [(x, a)]) s)
    (hnew : callId x.toOutputItem ∉ keys os) (hx : callId x.toOutputItem ≠ "") :
    Open (os ++ [(x, a)])
      (s.sendToolCallDelta io (callId x.toOutputItem) (callName x.toOutputItem) a) := by
  have hs : Sends s _ (callName x.toOutputItem) a _ :=
    sends_sendToolCallDelta hio h.streamErr a hx h.outputText
  have hheld : held (os ++ [(x, a)]) _ = some (x, a) := held_snoc hnew
  have hknown := knownName_eq hm hheld (Or.inl rfl) hx
  have hunsent : callId x.toOutputItem ∉ s.toolCallNameSent := by
    rw [h.nameSent _ hx, heldName, held_eq_none hnew]
    simp
  have hlookup : s.toolCallIndexByID.lookup (callId x.toOutputItem) = none := by
    cases hi : s.toolCallIndexByID.lookup (callId x.toOutputItem) with
    | none => rfl
    | some i => exact absurd (List.mem_of_getElem? ((h.index _ _).1 hi)) hnew
  have hindex : callIndex s (callId x.toOutputItem) = os.length := by
    rw [callIndex, hlookup, Option.getD_none, h.size]
  have hsends : sendsName s (callId x.toOutputItem) (callName x.toOutputItem) =
      decide (callName x.toOutputItem ≠ "") := by
    rw [sendsName, hknown]
    simp [hunsent]
  have hfragment : (if sendsName s (callId x.toOutputItem) (callName x.toOutputItem) then
      knownName s (callId x.toOutputItem) (callName x.toOutputItem) else "") =
        callName x.toOutputItem := by
    rw [hsends, hknown]
    by_cases hempty : callName x.toOutputItem = "" <;> simp [hempty]
  refine ⟨?_, hm.sends hheld (Or.inl rfl) hs⟩
  exact
    { nodup := by
        rw [keys_append]
        exact List.nodup_append.2 ⟨h.nodup, by simp [keys], by
          intro k hk k' hk' heq
          simp [keys] at hk'
          exact hnew (hk' ▸ heq ▸ hk)⟩
      nonblank := by
        rw [keys_append, List.mem_append]
        rintro (hmem | hmem)
        · exact h.nonblank hmem
        · simp [keys] at hmem
          exact hx hmem
      streamErr := hs.streamErr
      sentStop := hs.sentStop.trans h.sentStop
      outputText := hs.outputText.trans h.outputText
      sawToolCall := by simp [hs.sawToolCall]
      index := by
        intro key i
        rw [hs.index, hindex, keys_append]
        show _ ↔ (keys os ++ [callId x.toOutputItem])[i]? = some key
        by_cases heq : key = callId x.toOutputItem
        · rw [heq, AList.lookup_insert, Option.some_inj, eq_comm]
          exact (getElem?_keys_snoc hnew).symm
        · rw [AList.lookup_insert_ne heq, h.index, getElem?_snoc_of_ne heq]
      size := by
        rw [hs.index, AList.keys_insert, List.length_cons, List.length_append,
          List.erase_of_not_mem (fun hmem => AList.lookup_eq_none.1 hlookup hmem), h.size]
        rfl
      nameSent := by
        intro key hkey
        rw [hs.nameSent, hsends]
        by_cases heq : key = callId x.toOutputItem
        · rw [heq, heldName_of_held hheld]
          by_cases hempty : callName x.toOutputItem = "" <;> simp [hempty, hunsent]
        · rw [heldName, held_snoc_of_ne heq, ← heldName, ← h.nameSent key hkey]
          by_cases hempty : callName x.toOutputItem = "" <;> simp [hempty, heq]
      content := hs.content.trans h.content
      calls := by rw [hs.calls, h.calls, hfragment, hindex, addFragment_numbered_snoc]
      finishReasons := hs.finishReasons.trans h.finishReasons }

/-- A later fragment of a call. -/
theorem open_update (hio : Connected io) (h : Sent (pre ++ (x, a) :: post) s)
    (hm : Maps (pre ++ (x, a ++ b) :: post) s)
    (hname : name = callName x.toOutputItem ∨ name = "") :
    Open (pre ++ (x, a ++ b) :: post)
      (s.sendToolCallDelta io (callId x.toOutputItem) name b) := by
  have hkeys : keys (pre ++ (x, a ++ b) :: post) = keys (pre ++ (x, a) :: post) := keys_update
  have hnodup := hkeys ▸ h.nodup
  have hmem : callId x.toOutputItem ∈ keys (pre ++ (x, a) :: post) := by simp
  have hx : callId x.toOutputItem ≠ "" := fun heq => h.nonblank (heq ▸ hmem)
  have hs : Sends s _ name b _ := sends_sendToolCallDelta hio h.streamErr b hx h.outputText
  have hheld : held (pre ++ (x, a) :: post) _ = some (x, a) := held_middle h.nodup
  have hheld' : held (pre ++ (x, a ++ b) :: post) _ = some (x, a ++ b) := held_middle hnodup
  have hlookup : s.toolCallIndexByID.lookup (callId x.toOutputItem) = some pre.length := by
    rw [h.index, keys_append, keys_cons, List.getElem?_append_right (by simp [keys])]
    simp [keys]
  have hindex : callIndex s (callId x.toOutputItem) = pre.length := by
    rw [callIndex, hlookup, Option.getD_some]
  have hsends : sendsName s (callId x.toOutputItem) name = false := by
    rw [sendsName, knownName_eq hm hheld' hname hx, decide_eq_false_iff_not]
    rintro ⟨hne, hunsent⟩
    exact hunsent ((h.nameSent _ hx).2 (by rw [heldName_of_held hheld]; exact hne))
  have hfragment : (if sendsName s (callId x.toOutputItem) name then
      knownName s (callId x.toOutputItem) name else "") = "" := by
    rw [hsends]
    rfl
  refine ⟨?_, hm.sends hheld' hname hs⟩
  exact
    { nodup := hnodup
      nonblank := hkeys ▸ h.nonblank
      streamErr := hs.streamErr
      sentStop := hs.sentStop.trans h.sentStop
      outputText := hs.outputText.trans h.outputText
      sawToolCall := by simp [hs.sawToolCall]
      index := by
        intro key i
        rw [hs.index, hindex, hkeys, ← h.index]
        by_cases heq : key = callId x.toOutputItem
        · rw [heq, AList.lookup_insert, hlookup]
        · rw [AList.lookup_insert_ne heq]
      size := by
        have hin : callId x.toOutputItem ∈ s.toolCallIndexByID.keys :=
          AList.mem_keys.1 (AList.lookup_isSome.1 (by rw [hlookup]; rfl))
        have hpos := List.length_pos_of_mem hin
        rw [hs.index, AList.keys_insert, List.length_cons, List.length_erase_of_mem hin,
          Nat.sub_add_cancel hpos, h.size]
        simp
      nameSent := by
        intro key hkey
        rw [hs.nameSent, hsends, if_neg (by decide), h.nameSent key hkey]
        by_cases heq : key = callId x.toOutputItem
        · rw [heq, heldName_of_held hheld, heldName_of_held hheld']
        · rw [heldName, heldName, held_update_of_ne heq]
      content := hs.content.trans h.content
      calls := by
        have hmiddle : addFragment (numbered 0 (pre ++ (x, a) :: post))
            ⟨some ((pre.length : Nat) : Int), callId x.toOutputItem, "", b⟩ =
              numbered 0 (pre ++ (x, a ++ b) :: post) := by
          simpa only [Nat.zero_add] using addFragment_numbered_middle hx b pre 0
        rw [hs.calls, h.calls, hfragment, hindex, hmiddle]
      finishReasons := hs.finishReasons.trans h.finishReasons }

/-! ## The maps after an item -/

/-- The maps with what an event says of a call. -/
def noted (s : ToChat) (item : OutputItem) : ToChat :=
  { s with
    toolCallCanonicalIDByItemID :=
      if Text.trimSpace item.id ≠ "" ∧ callId item ≠ "" then
        s.toolCallCanonicalIDByItemID.insert (Text.trimSpace item.id) (callId item)
      else s.toolCallCanonicalIDByItemID
    toolCallNameByID :=
      if callName item ≠ "" then s.toolCallNameByID.insert (callId item) (callName item)
      else s.toolCallNameByID
    toolCallArgsByID :=
      if item.arguments ≠ "" then s.toolCallArgsByID.insert (callId item) item.arguments
      else s.toolCallArgsByID }

@[simp] theorem callId_withArguments (item : OutputItem) (arguments : String) :
    callId { item with arguments := arguments } = callId item := rfl

@[simp] theorem callName_withArguments (item : OutputItem) (arguments : String) :
    callName { item with arguments := arguments } = callName item := rfl

/-- What the stream lacks of the arguments of an item. -/
def missing (s : ToChat) (item : OutputItem) : String :=
  let prevArgs := (s.toolCallArgsByID.lookup (callId item)).getD ""
  let argsDelta :=
    if Text.hasPrefix item.arguments prevArgs then Text.dropPrefix item.arguments prevArgs
    else item.arguments
  if item.arguments ≠ "" then argsDelta else ""

theorem onOutputItem_of_isCall {item : OutputItem} (h : isCall item = true) :
    s.onOutputItem io item =
      (noted s item).sendToolCallDelta io (callId item) (callName item) (missing s item) := by
  have htype : item.type = "function_call" := by simpa [isCall] using h
  rw [ToChat.onOutputItem, if_neg (by simp [htype])]
  rfl

theorem onOutputItem_of_not_isCall {item : OutputItem} (h : isCall item = false) :
    s.onOutputItem io item = s := by
  have htype : item.type ≠ "function_call" := by simpa [isCall] using h
  rw [ToChat.onOutputItem, if_pos htype]

/-- What the client has does not depend on the maps of what has come. -/
theorem Sent.of_eq (h : Sent os s) (hsent : s'.sent = s.sent) (herr : s'.streamErr = s.streamErr)
    (hstop : s'.sentStop = s.sentStop) (htext : s'.outputText = s.outputText)
    (hsaw : s'.sawToolCall = s.sawToolCall) (hindex : s'.toolCallIndexByID = s.toolCallIndexByID)
    (hnames : s'.toolCallNameSent = s.toolCallNameSent) : Sent os s' where
  nodup := h.nodup
  nonblank := h.nonblank
  streamErr := herr.trans h.streamErr
  sentStop := hstop.trans h.sentStop
  outputText := htext.trans h.outputText
  sawToolCall := hsaw.trans h.sawToolCall
  index := by rw [hindex]; exact h.index
  size := by rw [hindex]; exact h.size
  nameSent := by rw [hnames]; exact h.nameSent
  content := by rw [accumulated, hsent]; exact h.content
  calls := by rw [accumulated, hsent]; exact h.calls
  finishReasons := by rw [accumulated, hsent]; exact h.finishReasons

theorem Sent.noted (h : Sent os s) (item : OutputItem) : Sent os (noted s item) := by
  -- field by field: the two states are not equal
  apply h.of_eq <;> dsimp only [Responses.noted]

/-- An item of a call without id changes no map that counts. -/
theorem Maps.noted_blank {item : OutputItem} (h : Maps os s) (hblank : callId item = "") :
    Maps os (noted s item) where
  names := by
    intro key hkey
    simp only [Responses.noted, hblank]
    split
    next => rw [AList.lookup_insert_ne hkey, h.names key hkey]
    next => exact h.names key hkey
  args := by
    intro key hkey
    simp only [Responses.noted, hblank]
    split
    next => rw [AList.lookup_insert_ne hkey, h.args key hkey]
    next => exact h.args key hkey
  canonical := by
    simp only [Responses.noted, hblank, ne_eq, not_true_eq_false, and_false, if_false]
    exact h.canonical
  blank := by
    simp only [Responses.noted, hblank, ne_eq, not_true_eq_false, and_false, if_false]
    exact h.blank

/-- An item of a call gives the call its name and its arguments, and its id leads there. -/
theorem Maps.noted {os' : OpenCalls} (h : Maps os s) (hx : callId x.toOutputItem ≠ "")
    (hself : held os' (callId x.toOutputItem) = some (x, a))
    (hother : ∀ key, key ≠ callId x.toOutputItem → held os' key = held os key)
    (hmem : ∀ o ∈ os', o.1 = x ∨ o ∈ os)
    (hids : ∀ o ∈ os, Text.trimSpace o.1.id = Text.trimSpace x.id → Text.trimSpace x.id ≠ "" →
      callId o.1.toOutputItem = callId x.toOutputItem)
    (hname : callName x.toOutputItem = "" → heldName os (callId x.toOutputItem) = "")
    (hargs : a = "" → heldArgs os (callId x.toOutputItem) = "") :
    Maps os' (noted s { x.toOutputItem with arguments := a }) where
  names := by
    intro key hkey
    rw [Responses.noted, callId_withArguments, callName_withArguments]
    dsimp only
    by_cases heq : key = callId x.toOutputItem
    · rw [heq, heldName_of_held hself]
      split
      next => rw [AList.lookup_insert, Option.getD_some]
      next hempty =>
        rw [not_not] at hempty
        rw [h.names _ hx, hname hempty, hempty]
    · rw [heldName, hother key heq, ← heldName, ← h.names key hkey]
      split
      next => rw [AList.lookup_insert_ne heq]
      next => rfl
  args := by
    intro key hkey
    rw [Responses.noted, callId_withArguments]
    dsimp only
    by_cases heq : key = callId x.toOutputItem
    · rw [heq, heldArgs_of_held hself]
      split
      next => rw [AList.lookup_insert, Option.getD_some]
      next hempty =>
        rw [not_not] at hempty
        rw [h.args _ hx, hargs hempty, hempty]
    · rw [heldArgs, hother key heq, ← heldArgs, ← h.args key hkey]
      split
      next => rw [AList.lookup_insert_ne heq]
      next => rfl
  canonical := by
    intro o ho hid
    rw [Responses.noted, callId_withArguments]
    dsimp only
    rcases hmem o ho with heq | hold
    · rw [heq] at hid ⊢
      rw [if_pos ⟨hid, hx⟩, AList.lookup_insert]
    · by_cases heq : Text.trimSpace o.1.id = Text.trimSpace x.id
      · rw [if_pos ⟨heq ▸ hid, hx⟩, heq, AList.lookup_insert, hids o hold heq (heq ▸ hid)]
      · split
        next => rw [AList.lookup_insert_ne heq, h.canonical o hold hid]
        next => exact h.canonical o hold hid
  blank := by
    rw [Responses.noted, callId_withArguments]
    dsimp only
    split
    next hid => rw [AList.lookup_insert_ne (Ne.symm hid.1), h.blank]
    next => exact h.blank

/-- An arguments delta gives the call more arguments. -/
theorem Maps.grow (h : Maps (pre ++ (x, a) :: post) s)
    (hnodup : (keys (pre ++ (x, a) :: post)).Nodup) (hx : callId x.toOutputItem ≠ "") :
    Maps (pre ++ (x, a ++ b) :: post)
      { s with
        toolCallArgsByID := s.toolCallArgsByID.insert (callId x.toOutputItem)
          ((s.toolCallArgsByID.lookup (callId x.toOutputItem)).getD "" ++ b) } where
  names := by
    intro key hkey
    rw [h.names key hkey]
    by_cases heq : key = callId x.toOutputItem
    · rw [heq, heldName_of_held (held_middle hnodup),
        heldName_of_held (held_middle (keys_update ▸ hnodup))]
    · rw [heldName, heldName, held_update_of_ne heq]
  args := by
    intro key hkey
    by_cases heq : key = callId x.toOutputItem
    · rw [heq, AList.lookup_insert, Option.getD_some, h.args _ hx,
        heldArgs_of_held (held_middle hnodup),
        heldArgs_of_held (held_middle (keys_update ▸ hnodup))]
    · rw [AList.lookup_insert_ne heq, h.args key hkey, heldArgs, heldArgs, held_update_of_ne heq]
  canonical := by
    intro o ho hid
    rw [List.mem_append, List.mem_cons] at ho
    rcases ho with hpre | rfl | hpost
    · exact h.canonical o (List.mem_append_left _ hpre) hid
    · exact h.canonical (x, a) (by simp) hid
    · exact h.canonical o (List.mem_append_right _ (List.mem_cons_of_mem _ hpost)) hid
  blank := h.blank

end

end DazeApi.Convert.Responses
