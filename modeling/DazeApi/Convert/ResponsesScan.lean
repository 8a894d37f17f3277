import DazeApi.Convert.ResponsesSteps

/-!
# The handler on the events of a response

The steps of a response taken one after the other.  Until a text comes, the stream has the
calls that the steps have opened (`open_step`); afterwards its calls stay and its text grows
(`Spoken`).  `streamed_describes` says what has been sent when the stream is over.
-/

namespace DazeApi.Convert.Responses

open DazeApi.Relay

/-! ## Steps before the text -/

/-- The text delta of a step. -/
def textDelta (st : Step) : String :=
  match st.piece with
  | .text delta => delta
  | _ => ""

section

variable {io : ChatCodec} {s : ToChat} {os : OpenCalls} {resp : OpenAIResponsesResponse}
variable {before after : List Step} {st : Step} {x : ResponsesOutput}

/-- Two open calls whose items share an id are one. -/
theorem callId_of_id (h : Describes resp (before ++ st :: after)) (hst : isOpen st.item = true)
    {o : ResponsesOutput × String} (ho : o ∈ opens before)
    (hid : Text.trimSpace o.1.id = Text.trimSpace st.item.id)
    (hblank : Text.trimSpace st.item.id ≠ "") :
    callId o.1.toOutputItem = callId st.item.toOutputItem := by
  have hadded : o.1 ∈ addedCalls before := map_fst_opens before ▸ List.mem_map_of_mem ho
  obtain ⟨hopen, pos, hpos⟩ := h.exists_pos hadded
  have hlisted := h.listed st (by simp)
  have heq := h.ids pos st.pos o.1 st.item hpos hlisted (isOpen_iff.1 hopen).1
    (isOpen_iff.1 hst).1 hid (hid ▸ hblank)
  rw [heq, hlisted, Option.some.injEq] at hpos
  rw [hpos]

/-- The event of an item that is no call, or of a call without id. -/
theorem Open.item_of_not_isOpen (h : Open os s) (hx : isOpen x = false) (args : String) :
    Open os (s.onOutputItem io { x.toOutputItem with arguments := args }) := by
  by_cases hcall : isCall x.toOutputItem = true
  · have hblank : callId x.toOutputItem = "" := by
      by_contra hne
      rw [isOpen_iff.2 ⟨hcall, hne⟩] at hx
      cases hx
    have hcall' : isCall { x.toOutputItem with arguments := args } = true := hcall
    have hblank' : callId { x.toOutputItem with arguments := args } = "" := hblank
    rw [onOutputItem_of_isCall hcall', hblank', ToChat.sendToolCallDelta, if_pos rfl]
    exact ⟨h.sent.noted _, h.maps.noted_blank hblank'⟩
  · rw [Bool.not_eq_true] at hcall
    have hcall' : isCall { x.toOutputItem with arguments := args } = false := hcall
    rw [onOutputItem_of_not_isCall hcall']
    exact h

/-- An item is added. -/
theorem open_added (hio : Connected io) (hd : Describes resp (before ++ st :: after))
    (h : Open (opens before) s) (hst : isOpen st.item = true) {args : String}
    (hpiece : st.piece = .added args) :
    Open (opens before ++ [(st.item, args)])
      (s.onOutputItem io { st.item.toOutputItem with arguments := args }) := by
  obtain ⟨hcall, hx⟩ := isOpen_iff.1 hst
  have hnew := not_mem_keys_of_added hd hst hpiece
  have hnone := held_eq_none hnew
  have hargs : heldArgs (opens before) (callId st.item.toOutputItem) = "" := by
    rw [heldArgs, hnone]
    rfl
  have hname : heldName (opens before) (callId st.item.toOutputItem) = "" := by
    rw [heldName, hnone]
    rfl
  have hmaps : Maps (opens before ++ [(st.item, args)])
      (noted s { st.item.toOutputItem with arguments := args }) :=
    h.maps.noted hx (held_snoc hnew) (fun key hkey => held_snoc_of_ne hkey)
      (fun o ho => by
        rcases List.mem_append.1 ho with ho | ho
        · exact Or.inr ho
        · rw [List.mem_singleton] at ho
          exact Or.inl (ho ▸ rfl))
      (fun o ho => callId_of_id hd hst ho) (fun _ => hname) (fun _ => hargs)
  have hmissing : missing s { st.item.toOutputItem with arguments := args } = args := by
    have hprev : (s.toolCallArgsByID.lookup (callId st.item.toOutputItem)).getD "" = "" := by
      rw [h.maps.args _ hx, hargs]
    show (if args ≠ "" then
      if Text.hasPrefix args ((s.toolCallArgsByID.lookup (callId st.item.toOutputItem)).getD "") then
        Text.dropPrefix args ((s.toolCallArgsByID.lookup (callId st.item.toOutputItem)).getD "")
      else args else "") = args
    rw [hprev]
    by_cases hempty : args = ""
    · rw [if_neg (not_not.2 hempty), hempty]
    · rw [if_pos hempty, if_pos (by simp [Text.hasPrefix])]
      exact String.toList_inj.1 (by simp [Text.dropPrefix])
  have hcall' : isCall { st.item.toOutputItem with arguments := args } = true := hcall
  rw [onOutputItem_of_isCall hcall', hmissing]
  exact open_snoc hio (h.sent.noted _) hmaps hnew hx

/-- What the item of a call has more than came before. -/
theorem missing_eq {a : String} (hm : Maps os s) (hx : callId x.toOutputItem ≠ "")
    (hheld : held os (callId x.toOutputItem) = some (x, a))
    (hpre : Text.hasPrefix x.arguments a = true) :
    missing s x.toOutputItem = Text.dropPrefix x.arguments a := by
  have hprev : (s.toolCallArgsByID.lookup (callId x.toOutputItem)).getD "" = a := by
    rw [hm.args _ hx, heldArgs_of_held hheld]
  rw [missing, hprev, if_pos hpre]
  split
  next => rfl
  next hempty =>
    rw [not_not] at hempty
    rw [hempty]
    exact String.toList_inj.1 (by simp [Text.dropPrefix])

theorem exists_split_of_held {a : String} (h : held os (callId x.toOutputItem) = some (x, a)) :
    ∃ pre post, os = pre ++ (x, a) :: post :=
  List.mem_iff_append.1 (List.mem_of_find?_eq_some h)

/-- The item of a call completes its arguments. -/
theorem Open.complete {a : String} (hio : Connected io) (h : Open os s)
    (hx : isOpen x = true) (hheld : held os (callId x.toOutputItem) = some (x, a))
    (hpre : Text.hasPrefix x.arguments a = true)
    (hids : ∀ o ∈ os, Text.trimSpace o.1.id = Text.trimSpace x.id → Text.trimSpace x.id ≠ "" →
      callId o.1.toOutputItem = callId x.toOutputItem) :
    Open (setArgs os (callId x.toOutputItem) fun _ => x.arguments)
      (s.onOutputItem io x.toOutputItem) := by
  obtain ⟨hcall, hne⟩ := isOpen_iff.1 hx
  have hmissing := missing_eq h.maps hne hheld hpre
  obtain ⟨pre, post, rfl⟩ := exists_split_of_held hheld
  have hfull := Text.append_dropPrefix hpre
  have hnodup : (keys (pre ++ (x, x.arguments) :: post)).Nodup := keys_update ▸ h.sent.nodup
  have hmaps : Maps (pre ++ (x, x.arguments) :: post) (noted s x.toOutputItem) :=
    h.maps.noted hne (held_middle hnodup) (fun key hkey => held_update_of_ne hkey)
      (fun o ho => by
        rw [List.mem_append, List.mem_cons] at ho
        rcases ho with hpre | rfl | hpost
        · exact Or.inr (List.mem_append_left _ hpre)
        · exact Or.inl rfl
        · exact Or.inr (List.mem_append_right _ (List.mem_cons_of_mem _ hpost)))
      hids (fun hempty => by rw [heldName_of_held hheld, hempty])
      (fun hempty => by
        rw [heldArgs_of_held hheld]
        rw [hempty] at hpre
        exact Text.eq_empty_of_hasPrefix_empty hpre)
  rw [onOutputItem_of_isCall hcall, hmissing, setArgs_middle h.sent.nodup]
  have hupdate (name : String) (hname : name = callName x.toOutputItem ∨ name = "") :=
    open_update (b := Text.dropPrefix x.arguments a) hio (h.sent.noted x.toOutputItem)
      (hfull.symm ▸ hmaps) hname
  have hopen := hupdate (callName x.toOutputItem) (Or.inl rfl)
  rw [hfull] at hopen
  exact hopen

/-- An item is done. -/
theorem open_done (hio : Connected io) (hd : Describes resp (before ++ st :: after))
    (h : Open (opens before) s) (hst : isOpen st.item = true) (hpiece : st.piece = .done) :
    Open (setArgs (opens before) (callId st.item.toOutputItem) fun _ => st.item.arguments)
      (s.onOutputItem io st.item.toOutputItem) := by
  have htrack := hd.split
  rw [hpiece] at htrack
  obtain ⟨args, deltas, hps, hpre, _⟩ :=
    htrack.before (isOpen_iff.1 hst).1 (fun a ha => by cases ha)
  have hheld := held_opens hd (hd.listed st (by simp)) hst
  rw [hps, argsOf_arguments, Option.map_some] at hheld
  refine h.complete hio hst hheld ?_ (fun o ho => callId_of_id hd hst ho)
  split
  next => exact Text.hasPrefix_of_append hpre
  next => exact hpre

/-- More arguments come. -/
theorem open_arguments (hio : Connected io) (hd : Describes resp (before ++ st :: after))
    (h : Open (opens before) s) (hst : isOpen st.item = true) {delta : String}
    (hpiece : st.piece = .arguments delta) (hid : Text.trimSpace st.item.id ≠ "") :
    Open (setArgs (opens before) (callId st.item.toOutputItem) (· ++ delta))
      (s.onArgumentsDelta io st.item.id delta) := by
  have hne := (isOpen_iff.1 hst).2
  have htrack := hd.split
  rw [hpiece] at htrack
  obtain ⟨args, deltas, hps, _, _⟩ :=
    htrack.before (isOpen_iff.1 hst).1 (fun a ha => by cases ha)
  have hheld := held_opens hd (hd.listed st (by simp)) hst
  rw [hps, argsOf_arguments, if_neg hid, Option.map_some] at hheld
  obtain ⟨pre, post, heq⟩ := exists_split_of_held hheld
  rw [heq] at h ⊢
  have hcanonical : s.canonicalID (Text.trimSpace st.item.id) = callId st.item.toOutputItem := by
    rw [ToChat.canonicalID, h.maps.canonical (st.item, args ++ Text.concat deltas) (by simp) hid]
    dsimp only
    rw [Option.getD_some, if_neg hne]
  rw [ToChat.onArgumentsDelta, hcanonical, if_neg hne, setArgs_middle h.sent.nodup]
  exact open_update hio (h.sent.of_eq rfl rfl rfl rfl rfl rfl rfl)
    (h.maps.grow h.sent.nodup hne) (Or.inr rfl)

/-- Arguments without an item id lead nowhere. -/
theorem onArgumentsDelta_of_blank (hm : Maps os s) (hid : Text.trimSpace x.id = "")
    (delta : String) : s.onArgumentsDelta io x.id delta = s := by
  have hcanonical : s.canonicalID "" = "" := by
    rw [ToChat.canonicalID, hm.blank]
    rfl
  rw [ToChat.onArgumentsDelta, hid, hcanonical, if_pos rfl]

/-- Arguments come only for calls. -/
theorem Track.arguments {ps qs : List Piece} {delta : String}
    (h : Track x (ps ++ .arguments delta :: qs)) : isCall x.toOutputItem = true := by
  by_contra hcall
  have hmem : Piece.arguments delta ∈ ps ++ .arguments delta :: qs := by simp
  rw [Track, if_neg hcall] at h
  split at h
  next =>
    obtain ⟨a, deltas, heq, _⟩ := h
    rw [heq] at hmem
    simp at hmem
  next =>
    obtain ⟨a, heq⟩ := h
    rw [heq] at hmem
    simp at hmem

/-- One step before the text. -/
theorem open_step (hio : Connected io) (hd : Describes resp (before ++ st :: after))
    (h : Open (opens before) s) (htext : textDelta st = "") :
    Open (opens (before ++ [st])) (s.onEvent io st.event) := by
  rw [opens_snoc, openStep]
  cases hpiece : st.piece with
  | added args =>
      have hevent : s.onEvent io st.event =
          s.onOutputItem io { st.item.toOutputItem with arguments := args } := by
        rw [Step.event, hpiece]
        rfl
      rw [hevent]
      by_cases hst : isOpen st.item = true
      · rw [if_pos hst]
        exact open_added hio hd h hst hpiece
      · rw [if_neg hst]
        exact h.item_of_not_isOpen (by simpa using hst) args
  | arguments delta =>
      have hevent : s.onEvent io st.event = s.onArgumentsDelta io st.item.id delta := by
        rw [Step.event, hpiece]
        rfl
      have htrack := hd.split
      rw [hpiece] at htrack
      rw [hevent]
      by_cases hid : Text.trimSpace st.item.id = ""
      · rw [onArgumentsDelta_of_blank h.maps hid]
        split
        next => exact h
        next => exact h
      · have hst : isOpen st.item = true := by
          refine isOpen_iff.2 ⟨htrack.arguments, ?_⟩
          rw [callId]
          split
          next => exact hid
          next hcall => exact hcall
        rw [if_pos hst]
        dsimp only
        rw [if_neg hid]
        exact open_arguments hio hd h hst hpiece hid
  | text delta =>
      have hempty : delta = "" := by simpa [textDelta, hpiece] using htext
      have hevent : s.onEvent io st.event =
          (s.sendStartIfNeeded io).andThen fun s => s := by
        rw [Step.event, hpiece, hempty]
        rfl
      have hquiet := quiet_sendStart hio h.sent.streamErr
      rw [hevent, andThen_of_none hquiet.streamErr]
      split
      next => exact h.quiet hquiet
      next => exact h.quiet hquiet
  | done =>
      have hevent : s.onEvent io st.event = s.onOutputItem io st.item.toOutputItem := by
        rw [Step.event, hpiece]
        rfl
      rw [hevent]
      by_cases hst : isOpen st.item = true
      · rw [if_pos hst]
        exact open_done hio hd h hst hpiece
      · rw [if_neg hst]
        exact h.item_of_not_isOpen (by simpa using hst) st.item.arguments

end

/-! ## Steps after the text -/

/-- The stream has text: its calls stay as they are. -/
structure Spoken (text : String) (os : OpenCalls) (s : ToChat) : Prop where
  nonempty : text ≠ ""
  streamErr : s.streamErr = none
  sentStop : s.sentStop = false
  outputText : s.outputText = text
  content : (accumulated s).content = text
  calls : (accumulated s).calls = numbered 0 os
  finishReasons : (accumulated s).finishReasons = []

section

variable {io : ChatCodec} {s s' : ToChat} {os : OpenCalls} {text : String}

theorem Spoken.quiet (h : Spoken text os s) (hq : Quiet s s') : Spoken text os s' where
  nonempty := h.nonempty
  streamErr := hq.streamErr
  sentStop := hq.sentStop.trans h.sentStop
  outputText := hq.outputText.trans h.outputText
  content := hq.content.trans h.content
  calls := hq.calls.trans h.calls
  finishReasons := hq.finishReasons.trans h.finishReasons

theorem Spoken.of_eq (h : Spoken text os s) (hsent : s'.sent = s.sent)
    (herr : s'.streamErr = s.streamErr) (hstop : s'.sentStop = s.sentStop)
    (htext : s'.outputText = s.outputText) : Spoken text os s' where
  nonempty := h.nonempty
  streamErr := herr.trans h.streamErr
  sentStop := hstop.trans h.sentStop
  outputText := htext.trans h.outputText
  content := by rw [accumulated, hsent]; exact h.content
  calls := by rw [accumulated, hsent]; exact h.calls
  finishReasons := by rw [accumulated, hsent]; exact h.finishReasons

/-- No fragment of a call is sent any more. -/
theorem Spoken.sendToolCallDelta (h : Spoken text os s) (callID name argsDelta : String) :
    s.sendToolCallDelta io callID name argsDelta = s := by
  rw [ToChat.sendToolCallDelta]
  split
  next => rfl
  next => rw [if_pos (h.outputText.symm ▸ h.nonempty)]

theorem Spoken.onOutputItem (h : Spoken text os s) (item : OutputItem) :
    Spoken text os (s.onOutputItem io item) := by
  by_cases hcall : isCall item = true
  · have hnoted : Spoken text os (noted s item) := by
      apply h.of_eq <;> dsimp only [noted]
    rw [onOutputItem_of_isCall hcall, hnoted.sendToolCallDelta]
    exact hnoted
  · rw [onOutputItem_of_not_isCall (by simpa using hcall)]
    exact h

theorem Spoken.onArgumentsDelta (h : Spoken text os s) (itemId delta : String) :
    Spoken text os (s.onArgumentsDelta io itemId delta) := by
  rw [ToChat.onArgumentsDelta]
  split
  next => exact h
  next =>
    have hargs : Spoken text os
        { s with
          toolCallArgsByID := s.toolCallArgsByID.insert (s.canonicalID (Text.trimSpace itemId))
            ((s.toolCallArgsByID.lookup (s.canonicalID (Text.trimSpace itemId))).getD "" ++
              delta) } := h.of_eq rfl rfl rfl rfl
    dsimp only
    rw [hargs.sendToolCallDelta]
    exact hargs

/-- A text delta goes to the client. -/
theorem exists_onText (hio : Connected io) (herr : s.streamErr = none) {st : Step} {delta : String}
    (hpiece : st.piece = .text delta) (hdelta : delta ≠ "") :
    ∃ sent written, s.onEvent io st.event =
        { s.sendStartIfNeeded io with
          outputText := (s.sendStartIfNeeded io).outputText ++ delta
          sent := sent, written := written } ∧
      transcript 0 (sent.map toChunk) =
        addChunkDelta (accumulated (s.sendStartIfNeeded io)) (.content delta) := by
  have hquiet := quiet_sendStart hio herr
  have hevent : s.onEvent io st.event = (s.sendStartIfNeeded io).andThen fun s =>
      if delta ≠ "" then
        { s with outputText := s.outputText ++ delta }.sendChatChunk io (.content delta)
      else s := by
    rw [Step.event, hpiece]
    rfl
  rw [hevent, andThen_of_none hquiet.streamErr, if_pos hdelta]
  obtain ⟨sent, written, hsend, htr⟩ := exists_sendChatChunk hio
    { s.sendStartIfNeeded io with outputText := (s.sendStartIfNeeded io).outputText ++ delta }
    (.content delta)
  exact ⟨sent, written, hsend, htr⟩

/-- The first text. -/
theorem Open.speak (hio : Connected io) (h : Open os s) {st : Step} {delta : String}
    (hpiece : st.piece = .text delta) (hdelta : delta ≠ "") :
    Spoken delta os (s.onEvent io st.event) := by
  have hstart := h.quiet (quiet_sendStart hio h.sent.streamErr)
  obtain ⟨sent, written, heq, htr⟩ := exists_onText hio h.sent.streamErr hpiece hdelta
  rw [heq]
  exact
    { nonempty := hdelta
      streamErr := hstart.sent.streamErr
      sentStop := hstart.sent.sentStop
      outputText := by
        show (s.sendStartIfNeeded io).outputText ++ delta = delta
        rw [hstart.sent.outputText, String.empty_append]
      content := by
        rw [accumulated, htr, addChunkDelta]
        show (accumulated (s.sendStartIfNeeded io)).content ++ delta = delta
        rw [hstart.sent.content, String.empty_append]
      calls := by rw [accumulated, htr]; exact hstart.sent.calls
      finishReasons := by rw [accumulated, htr]; exact hstart.sent.finishReasons }

/-- More text. -/
theorem Spoken.speak (hio : Connected io) (h : Spoken text os s) {st : Step} {delta : String}
    (hpiece : st.piece = .text delta) : Spoken (text ++ delta) os (s.onEvent io st.event) := by
  have hstart := h.quiet (quiet_sendStart hio h.streamErr)
  by_cases hdelta : delta = ""
  · have hevent : s.onEvent io st.event = (s.sendStartIfNeeded io).andThen fun s => s := by
      rw [Step.event, hpiece, hdelta]
      rfl
    rw [hevent, andThen_of_none hstart.streamErr, hdelta, String.append_empty]
    exact hstart
  · obtain ⟨sent, written, heq, htr⟩ := exists_onText hio h.streamErr hpiece hdelta
    rw [heq]
    exact
      { nonempty := fun hempty => h.nonempty (String.append_eq_empty_iff.1 hempty).1
        streamErr := hstart.streamErr
        sentStop := hstart.sentStop
        outputText := by
          show (s.sendStartIfNeeded io).outputText ++ delta = text ++ delta
          rw [hstart.outputText]
        content := by
          rw [accumulated, htr, addChunkDelta]
          show (accumulated (s.sendStartIfNeeded io)).content ++ delta = text ++ delta
          rw [hstart.content]
        calls := by rw [accumulated, htr]; exact hstart.calls
        finishReasons := by rw [accumulated, htr]; exact hstart.finishReasons }

/-! ## The text of the steps -/

/-- The text deltas joined. -/
def textOf (steps : List Step) : String := Text.concat (steps.map textDelta)

/-- The steps before the first text. -/
def beforeText (steps : List Step) : List Step := steps.takeWhile fun st => textDelta st = ""

theorem textOf_snoc (steps : List Step) (st : Step) :
    textOf (steps ++ [st]) = textOf steps ++ textDelta st := by
  simp [textOf]

theorem textOf_eq_empty_iff {steps : List Step} :
    textOf steps = "" ↔ ∀ st ∈ steps, textDelta st = "" := by
  induction steps with
  | nil => simp [textOf]
  | cons st steps ih =>
      rw [List.forall_mem_cons, ← ih, textOf, textOf, List.map_cons, Text.concat_cons,
        String.append_eq_empty_iff]

theorem beforeText_of_silent {steps : List Step} (h : textOf steps = "") :
    beforeText steps = steps := by
  rw [beforeText, List.takeWhile_eq_self_iff]
  intro st hst
  simpa using textOf_eq_empty_iff.1 h st hst

theorem beforeText_append_of_spoken {steps : List Step} (h : textOf steps ≠ "")
    (more : List Step) : beforeText (steps ++ more) = beforeText steps := by
  rw [beforeText, beforeText, List.takeWhile_append, if_neg]
  intro hlen
  have hall : steps.takeWhile (fun st => decide (textDelta st = "")) = steps :=
    (List.takeWhile_prefix _).eq_of_length hlen
  refine h (textOf_eq_empty_iff.2 fun st hst => ?_)
  have hst' := List.takeWhile_eq_self_iff.1 hall st hst
  simpa using hst'

theorem beforeText_snoc_of_text {steps : List Step} {st : Step} (h : textOf steps = "")
    (hst : textDelta st ≠ "") : beforeText (steps ++ [st]) = steps := by
  have hself := beforeText_of_silent h
  rw [beforeText] at hself ⊢
  rw [List.takeWhile_append, if_pos (by rw [hself]), List.takeWhile_cons_of_neg (by simpa using hst),
    List.append_nil]

end

/-! ## The whole stream -/

/-- The handler after some steps. -/
inductive After (before : List Step) (s : ToChat) : Prop where
  | silent (htext : textOf before = "") (h : Open (opens before) s)
  | spoken (h : Spoken (textOf before) (opens (beforeText before)) s)

/-- The finish reason of the stop chunk. -/
def stopReason (text : String) (os : OpenCalls) : String :=
  if text = "" ∧ os ≠ [] then "tool_calls" else "stop"

/-- The stop chunk has been sent. -/
structure Ended (text : String) (os : OpenCalls) (s : ToChat) : Prop where
  streamErr : s.streamErr = none
  sentStop : s.sentStop = true
  content : (accumulated s).content = text
  calls : (accumulated s).calls = numbered 0 os
  finishReasons : (accumulated s).finishReasons = [stopReason text os]

section

variable {io : ChatCodec} {s s' : ToChat} {os : OpenCalls} {text : String}
variable {resp : OpenAIResponsesResponse} {before after steps : List Step} {st : Step}
variable {items : List StreamItem}

theorem After.quiet (h : After before s) (hq : Quiet s s') : After before s' := by
  cases h with
  | silent htext h => exact .silent htext (h.quiet hq)
  | spoken h => exact .spoken (h.quiet hq)

theorem After.streamErr (h : After before s) : s.streamErr = none := by
  cases h with
  | silent _ h => exact h.sent.streamErr
  | spoken h => exact h.streamErr

/-- One step. -/
theorem After.step (hio : Connected io) (hd : Describes resp (before ++ st :: after))
    (h : After before s) : After (before ++ [st]) (s.onEvent io st.event) := by
  cases h with
  | silent htext h =>
      by_cases hst : textDelta st = ""
      · refine .silent ?_ (open_step hio hd h hst)
        rw [textOf_snoc, htext, hst, String.append_empty]
      · obtain ⟨delta, hpiece⟩ : ∃ delta, st.piece = .text delta := by
          cases hpiece : st.piece with
          | text delta => exact ⟨delta, rfl⟩
          | added _ => simp [textDelta, hpiece] at hst
          | arguments _ => simp [textDelta, hpiece] at hst
          | done => simp [textDelta, hpiece] at hst
        have hdelta : textDelta st = delta := by rw [textDelta, hpiece]
        refine .spoken ?_
        rw [textOf_snoc, htext, String.empty_append, hdelta, beforeText_snoc_of_text htext hst]
        exact h.speak hio hpiece (hdelta ▸ hst)
  | spoken h =>
      refine .spoken ?_
      rw [textOf_snoc, beforeText_append_of_spoken h.nonempty]
      cases hpiece : st.piece with
      | added args =>
          rw [Step.event, hpiece, textDelta, hpiece, String.append_empty]
          exact h.onOutputItem _
      | arguments delta =>
          rw [Step.event, hpiece, textDelta, hpiece, String.append_empty]
          exact h.onArgumentsDelta _ _
      | text delta =>
          rw [textDelta, hpiece]
          exact h.speak hio hpiece
      | done =>
          rw [Step.event, hpiece, textDelta, hpiece, String.append_empty]
          exact h.onOutputItem _

theorem Ended.quiet (h : Ended text os s) (hq : Quiet s s') : Ended text os s' where
  streamErr := hq.streamErr
  sentStop := hq.sentStop.trans h.sentStop
  content := hq.content.trans h.content
  calls := hq.calls.trans h.calls
  finishReasons := hq.finishReasons.trans h.finishReasons

/-- The stop chunk. -/
theorem ended_sendStop (hio : Connected io) (herr : s.streamErr = none) (hstop : s.sentStop = false)
    (hcontent : (accumulated s).content = text) (hcalls : (accumulated s).calls = numbered 0 os)
    (hreasons : (accumulated s).finishReasons = [])
    (hreason : (if s.sawToolCall ∧ s.outputText = "" then "tool_calls" else "stop") =
      stopReason text os) : Ended text os (s.sendStopIfNeeded io) := by
  rw [ToChat.sendStopIfNeeded, if_neg (by simp [hstop])]
  dsimp only
  rw [hreason]
  obtain ⟨sent, written, hsend, htr⟩ := exists_sendChatChunk_andThen hio herr
    (.stop (stopReason text os)) ({ · with sentStop := true })
  rw [hsend]
  exact
    { streamErr := herr
      sentStop := rfl
      content := by rw [accumulated, htr]; exact hcontent
      calls := by rw [accumulated, htr]; exact hcalls
      finishReasons := by
        rw [accumulated, htr, addChunkDelta]
        show (accumulated s).finishReasons ++ _ = _
        rw [hreasons, List.nil_append] }

/-- The end of the stream after all the steps. -/
theorem After.completed (hio : Connected io) (h : After steps s) (resp : Option ResponseMeta) :
    Ended (textOf steps) (opens (beforeText steps)) (s.onEvent io (completed resp)) := by
  have hhead := quiet_setHead h.streamErr resp
  have hstart := hhead.trans (quiet_sendStart hio hhead.streamErr)
  have h' := h.quiet hstart
  have hevent : s.onEvent io (Responses.completed resp) =
      ((s.setHead resp).sendStartIfNeeded io).andThen fun s => s.sendStopIfNeeded io := rfl
  rw [hevent, andThen_of_none h'.streamErr]
  cases h' with
  | silent htext h' =>
      rw [beforeText_of_silent htext]
      refine ended_sendStop hio h'.sent.streamErr h'.sent.sentStop (htext ▸ h'.sent.content)
        h'.sent.calls h'.sent.finishReasons ?_
      rw [h'.sent.sawToolCall, h'.sent.outputText, stopReason, htext]
      cases opens steps <;> simp
  | spoken h' =>
      refine ended_sendStop hio h'.streamErr h'.sentStop h'.content h'.calls h'.finishReasons ?_
      rw [h'.outputText, stopReason]
      simp [h'.nonempty]

theorem decoded_of_none {payload : String} (h : io.unmarshal payload = none) :
    decoded io (.data payload :: items) = decoded io items :=
  List.filterMap_cons_none h

theorem decoded_of_some {payload : String} {ev : ResponsesEvent}
    (h : io.unmarshal payload = some ev) :
    decoded io (.data payload :: items) = ev :: decoded io items :=
  List.filterMap_cons_some h

theorem scan_of_none {payload : String} (h : io.unmarshal payload = none) :
    s.scan io (.data payload :: items) = s.scan io items := by
  rw [ToChat.scan, h]

theorem scan_of_some {payload : String} {ev : ResponsesEvent}
    (h : io.unmarshal payload = some ev) (herr : (s.onEvent io ev).streamErr = none) :
    s.scan io (.data payload :: items) = (s.onEvent io ev).scan io items := by
  rw [ToChat.scan, h]
  simp [herr]

theorem quiet_ping (h : s.streamErr = none) :
    Quiet s { s with written := s.written ++ [.ping] } :=
  ⟨h, rfl, rfl, rfl, rfl, rfl, rfl, rfl, rfl, rfl, rfl, rfl⟩

/-- Nothing that is sent comes after the stop chunk. -/
theorem Ended.scan (hio : Connected io) :
    ∀ {items : List StreamItem} {s : ToChat}, Ended text os s →
      (decoded io items).filter carries = [] → Ended text os (s.scan io items)
  | [], _, h, _ => h
  | .ping :: items, s, h, hitems => by
      rw [ToChat.scan]
      exact Ended.scan hio (h.quiet (quiet_ping h.streamErr)) hitems
  | .data payload :: items, s, h, hitems => by
      cases hev : io.unmarshal payload with
      | none =>
          rw [decoded_of_none hev] at hitems
          rw [scan_of_none hev]
          exact Ended.scan hio h hitems
      | some ev =>
          rw [decoded_of_some hev, List.filter_cons] at hitems
          split at hitems
          next => cases hitems
          next hcarries =>
            have hq := quiet_onEvent hio h.streamErr (by simpa using hcarries : carries ev = false)
            rw [scan_of_some hev hq.streamErr]
            exact Ended.scan hio (h.quiet hq) hitems

/-- The run over the events. -/
theorem After.scan (hio : Connected io) {m : Option ResponseMeta} :
    ∀ {items : List StreamItem} {before after : List Step} {s : ToChat},
      Describes resp (before ++ after) → After before s →
        (decoded io items).filter carries = after.map Step.event ++ [Responses.completed m] →
          Ended (textOf (before ++ after)) (opens (beforeText (before ++ after)))
            (s.scan io items)
  | [], before, after, _, _, _, hitems => by simp [decoded] at hitems
  | .ping :: items, before, after, s, hd, h, hitems => by
      rw [ToChat.scan]
      exact After.scan hio hd (h.quiet (quiet_ping h.streamErr)) hitems
  | .data payload :: items, before, after, s, hd, h, hitems => by
      cases hev : io.unmarshal payload with
      | none =>
          rw [decoded_of_none hev] at hitems
          rw [scan_of_none hev]
          exact After.scan hio hd h hitems
      | some ev =>
          rw [decoded_of_some hev, List.filter_cons] at hitems
          split at hitems
          next =>
            cases after with
            | nil =>
                rw [List.map_nil, List.nil_append, List.cons.injEq] at hitems
                obtain ⟨rfl, hitems⟩ := hitems
                have hended := h.completed hio m
                rw [scan_of_some hev hended.streamErr, List.append_nil]
                exact hended.scan hio hitems
            | cons st after =>
                rw [List.map_cons, List.cons_append, List.cons.injEq] at hitems
                obtain ⟨rfl, hitems⟩ := hitems
                have hstep := h.step hio hd
                have hd' : Describes resp ((before ++ [st]) ++ after) := by
                  rwa [List.append_assoc, List.singleton_append]
                have hrun := After.scan hio hd' hstep hitems
                rw [List.append_assoc, List.singleton_append] at hrun
                rw [scan_of_some hev hstep.streamErr]
                exact hrun
          next hcarries =>
            have hq := quiet_onEvent hio h.streamErr (by simpa using hcarries : carries ev = false)
            rw [scan_of_some hev hq.streamErr]
            exact After.scan hio hd (h.quiet hq) hitems

/-- What is sent after the stream has ended changes no choice. -/
theorem Ended.finish (hio : Connected io) (h : Ended text os s) (format : RelayFormat)
    (shouldIncludeUsage : Bool) :
    (accumulated (s.finish io format shouldIncludeUsage)).content = text ∧
      (accumulated (s.finish io format shouldIncludeUsage)).calls = numbered 0 os ∧
        (accumulated (s.finish io format shouldIncludeUsage)).finishReasons =
          [stopReason text os] := by
  have hstart : Ended text os (if s.sentStart then s else s.sendChatChunk io .start) := by
    split
    next => exact h
    next =>
      obtain ⟨sent, written, hsend, htr⟩ := exists_sendChatChunk hio s .start
      rw [hsend]
      exact
        { streamErr := h.streamErr
          sentStop := h.sentStop
          content := by rw [accumulated, htr]; exact h.content
          calls := by rw [accumulated, htr]; exact h.calls
          finishReasons := by rw [accumulated, htr]; exact h.finishReasons }
  rw [ToChat.finish, andThen_of_none hstart.streamErr]
  rw [ToChat.sendStopIfNeeded, if_pos hstart.sentStop, andThen_of_none hstart.streamErr]
  split
  next =>
    split
    next =>
      split
      next => exact ⟨hstart.content, hstart.calls, hstart.finishReasons⟩
      next => exact ⟨hstart.content, hstart.calls, hstart.finishReasons⟩
    next => exact ⟨hstart.content, hstart.calls, hstart.finishReasons⟩
  next => exact ⟨hstart.content, hstart.calls, hstart.finishReasons⟩

/-- Nothing has come yet. -/
theorem after_start (responseId model : String) (createAt : Int) :
    After [] (ToChat.start responseId model createAt) := by
  refine .silent rfl ⟨?_, ?_⟩
  · exact
      { nodup := List.nodup_nil
        nonblank := List.not_mem_nil
        streamErr := rfl
        sentStop := rfl
        outputText := rfl
        sawToolCall := rfl
        index := fun key i => by simp [ToChat.start, keys, opens]
        size := rfl
        nameSent := fun key _ => by simp [ToChat.start, heldName, held, opens]
        content := rfl
        calls := rfl
        finishReasons := rfl }
  · exact
      { names := fun key _ => by simp [ToChat.start, heldName, held, opens]
        args := fun key _ => by simp [ToChat.start, heldArgs, held, opens]
        canonical := fun o ho => absurd ho List.not_mem_nil
        blank := rfl }

/-- What the stream of a response has: the text deltas in the order in which they came, and
the calls that were opened before the first of them. -/
theorem streamed_describes (hio : Connected io) (hd : Describes resp steps)
    (hs : Streams io steps items) (responseId model : String) (createAt : Int)
    (format : RelayFormat) (shouldIncludeUsage : Bool) :
    (streamed io format shouldIncludeUsage (ToChat.start responseId model createAt) items).content =
        textOf steps ∧
      (streamed io format shouldIncludeUsage (ToChat.start responseId model createAt) items).calls =
          numbered 0 (opens (beforeText steps)) ∧
        (streamed io format shouldIncludeUsage (ToChat.start responseId model createAt)
            items).finishReasons =
          [stopReason (textOf steps) (opens (beforeText steps))] := by
  obtain ⟨m, hitems⟩ := hs
  have hended : Ended (textOf steps) (opens (beforeText steps))
      ((ToChat.start responseId model createAt).scan io items) :=
    have hstart : After [] (ToChat.start responseId model createAt) :=
      after_start responseId model createAt
    After.scan hio hd hstart hitems
  rw [streamed, andThen_of_none hended.streamErr]
  exact hended.finish hio format shouldIncludeUsage

end

end DazeApi.Convert.Responses
