import DazeApi.Relay.Loop

/-!
# One response for a request

What a client reads before the final error object should come from one attempt.
The loop does not look at whether an attempt has written anything: the decision to
go on is made from the error alone.  So an attempt that fails in the middle of its
stream with an error that is retried is followed by a second response in the same
body.

`Sealed` is the restriction under which this does not happen, and
`one_response_of_sealed` the result over all runs.  Of the stream handlers,
`ClaudeStreamHandler` seals its attempt when a payload does not decode, since that
error is never retried, and not when the upstream reports an error.
-/

namespace DazeApi.Relay

open DazeApi.Types

/-! ## The errors of the stream handlers -/

/-- A payload that does not decode ends the request. -/
theorem refused_of_undecodable (r : Request) (err : String) (n : Int) :
    Refused r (newError err "bad_response_body" []) n := by
  have hcode : isChannelError (newError err "bad_response_body" []) = false := by
    show Text.hasPrefix "bad_response_body" "channel:" = false
    decide +kernel
  refine Or.inr ⟨hcode, Or.inr (Or.inr (Or.inr (Or.inr ⟨?_, ?_, Or.inl rfl⟩)))⟩
  · simp [newError, newErrorWithStatusCode]
  · simp [newError, newErrorWithStatusCode]

/-- The errors of `ClaudeStreamHandler`: that of a payload that does not decode, and
one that the upstream reports. -/
theorem claudeStreamFrom_err (io : ClaudeCodec) (format : RelayFormat) (usage : Bool)
    {e : NewAPIError} : ∀ (items : List StreamItem) (seen : List String),
    (claudeStreamFrom io format usage seen items).err = some e →
      (∃ err, e = newError err "bad_response_body" []) ∨
      ∃ ce, e = withClaudeError ce 500 ∧ ce.type ≠ ""
  | [], _, h => by cases h
  | .ping :: items, seen, h => claudeStreamFrom_err io format usage items seen h
  | .data payload :: items, seen, h => by
      simp only [claudeStreamFrom] at h
      split at h
      next e' he' =>
        cases h
        simp only [handleStreamResponseData] at he'
        split at he'
        next err _ =>
          cases he'
          exact Or.inl ⟨err, rfl⟩
        next resp _ =>
          split at he'
          next ce hce =>
            cases he'
            exact Or.inr ⟨ce, rfl, by simpa using (Option.filter_eq_some_iff.1 hce).2⟩
          next => split at he' <;> (try split at he') <;> cases he'
      next => exact claudeStreamFrom_err io format usage items _ h

/-- The form of the errors that an upstream reports inside of a stream. -/
def StreamError (e : NewAPIError) : Prop := e.statusCode = 500 ∧ e.skipRetry = false

theorem streamError_withOpenAIError (oe : OpenAIError) : StreamError (withOpenAIError oe 500) :=
  ⟨rfl, rfl⟩

theorem streamError_eventError (ev : ResponsesEvent) : StreamError (ToChat.eventError ev) := by
  simp only [ToChat.eventError]
  split
  · exact streamError_withOpenAIError _
  · exact streamError_withOpenAIError _

/-- The handler has failed with no other kind of error. -/
def ToChat.Clean (s : ToChat) : Prop := ∀ e, s.streamErr = some e → StreamError e

namespace ToChat

variable {io : ChatCodec} {s : ToChat}

theorem Clean.andThen {f : ToChat → ToChat} (hs : s.Clean)
    (hf : s.streamErr = none → (f s).Clean) : (s.andThen f).Clean := by
  simp only [ToChat.andThen]
  split
  next => exact hs
  next h => exact hf (by simpa using h)

theorem clean_of_none (h : s.streamErr = none) : s.Clean := by
  intro e he
  rw [h] at he
  cases he

theorem Clean.sendChatChunk (hs : s.Clean) (delta : ChunkDelta) :
    (s.sendChatChunk io delta).Clean := by
  simp only [ToChat.sendChatChunk]
  split
  · intro e he
    cases he
    exact streamError_withOpenAIError _
  · exact hs

theorem Clean.sendStartIfNeeded (hs : s.Clean) : (s.sendStartIfNeeded io).Clean := by
  simp only [ToChat.sendStartIfNeeded]
  split
  · exact hs
  · exact (hs.sendChatChunk _).andThen fun h => clean_of_none h

theorem Clean.sendStopIfNeeded (hs : s.Clean) : (s.sendStopIfNeeded io).Clean := by
  simp only [ToChat.sendStopIfNeeded]
  split
  · exact hs
  · exact (hs.sendChatChunk _).andThen fun h => clean_of_none h

theorem Clean.sendReasoningSummaryDelta (hs : s.Clean) (delta : String) :
    (s.sendReasoningSummaryDelta io delta).Clean := by
  simp only [ToChat.sendReasoningSummaryDelta]
  split
  · exact hs
  · have hs' : ({ s with needsReasoningSummarySeparator := false } : ToChat).Clean := hs
    exact hs'.sendStartIfNeeded.andThen fun h =>
      ((clean_of_none h).sendChatChunk _).andThen fun h' => clean_of_none h'

theorem Clean.sendToolCallDelta (hs : s.Clean) (callID name argsDelta : String) :
    (s.sendToolCallDelta io callID name argsDelta).Clean := by
  simp only [ToChat.sendToolCallDelta]
  split
  · exact hs
  · split
    · exact hs
    · refine hs.sendStartIfNeeded.andThen fun h => ?_
      refine Clean.andThen (Clean.sendChatChunk ?_ _) fun h' => ?_
      · exact clean_of_none h
      · exact clean_of_none h'

theorem Clean.setHead (hs : s.Clean) (resp : Option ResponseMeta) : (s.setHead resp).Clean := by
  cases resp with
  | none => exact hs
  | some r => exact hs

theorem Clean.onOutputItem (hs : s.Clean) (item : OutputItem) : (s.onOutputItem io item).Clean := by
  simp only [ToChat.onOutputItem]
  split
  · exact hs
  · exact Clean.sendToolCallDelta (by exact hs) _ _ _

theorem Clean.onArgumentsDelta (hs : s.Clean) (itemId delta : String) :
    (s.onArgumentsDelta io itemId delta).Clean := by
  simp only [ToChat.onArgumentsDelta]
  split
  · exact hs
  · exact Clean.sendToolCallDelta (by exact hs) _ _ _

theorem Clean.onEvent (hs : s.Clean) (ev : ResponsesEvent) : (s.onEvent io ev).Clean := by
  simp only [ToChat.onEvent]
  split
  · exact hs.setHead _
  · exact hs.sendReasoningSummaryDelta _
  · split
    · exact hs
    · exact hs
  · refine hs.sendStartIfNeeded.andThen fun h => ?_
    split
    · exact Clean.sendChatChunk (by exact clean_of_none h) _
    · exact clean_of_none h
  · split
    · exact hs
    · exact hs.onOutputItem _
  · split
    · exact hs
    · exact hs.onOutputItem _
  · exact hs.onArgumentsDelta _ _
  · exact (hs.setHead _).sendStartIfNeeded.andThen fun h => (clean_of_none h).sendStopIfNeeded
  · intro e he
    cases he
    exact streamError_eventError ev
  · intro e he
    cases he
    exact streamError_eventError ev
  · exact hs

theorem Clean.scan : ∀ (items : List StreamItem) {s : ToChat}, s.Clean → (s.scan io items).Clean
  | [], _, hs => hs
  | .ping :: items, _, hs => Clean.scan items (by exact hs)
  | .data payload :: items, s, hs => by
      simp only [ToChat.scan]
      split
      · exact Clean.scan items hs
      · split
        · exact hs.onEvent _
        · exact Clean.scan items (hs.onEvent _)

theorem Clean.finish (hs : s.Clean) (format : RelayFormat) (usage : Bool) :
    (s.finish io format usage).Clean := by
  simp only [ToChat.finish]
  have h1 : (if s.sentStart then s else s.sendChatChunk io .start).Clean := by
    split
    · exact hs
    · exact hs.sendChatChunk _
  refine h1.andThen fun h => (clean_of_none h).sendStopIfNeeded.andThen fun h' => ?_
  split
  · split
    · split
      · intro e he
        cases he
        exact streamError_withOpenAIError _
      · exact clean_of_none h'
    · exact clean_of_none h'
  · exact clean_of_none h'

end ToChat

/-- The errors of `OaiResponsesToChatStreamHandler`. -/
theorem oaiResponsesToChatStreamHandler_err (io : ChatCodec) (format : RelayFormat) (usage : Bool)
    {s : ToChat} (hs : s.streamErr = none) (items : List StreamItem) {e : NewAPIError}
    (h : (oaiResponsesToChatStreamHandler io format usage s items).err = some e) :
    StreamError e :=
  ((ToChat.Clean.scan items (ToChat.clean_of_none hs)).andThen fun h' =>
    (ToChat.clean_of_none h').finish format usage) e h

/-- An error that an upstream reports in its stream is retried while retries are
left, unless its code happens to be the one that is always skipped or the request
is bound to its channel. -/
theorem not_refused_of_streamError {r : Request} {e : NewAPIError} {n : Int} (he : StreamError e)
    (hcode : e.errorCode ≠ "bad_response_body") (haff : r.affinitySkipRetry = false)
    (hspec : r.specificChannelId = false) (hn : 0 < n)
    (hrange : shouldMatchStatusCodeRanges r.ranges 500 = true) : ¬ Refused r e n := by
  simp only [Refused, haff, hspec, he.1, he.2, hrange, hcode, Bool.false_eq_true, false_or]
  rintro ⟨-, h | h | h⟩
  · omega
  · omega
  · simp at h

/-! ## Runs -/

section

variable {κ : Type} (r : Request)

/-- All data that was written comes from one attempt. -/
def OneResponse (s : Loop) : Prop :=
  ∀ i j t u, (i, Write.data t) ∈ s.written → (j, Write.data u) ∈ s.written → i = j

/-- The loop will not make another pass. -/
def Loop.Over (s : Loop) : Prop := s.returned = true ∨ r.retryTimes < s.search.param.retry

/-- An attempt that fails after it has written data fails with an error that ends
the request, or in the last pass. -/
def Sealed (s : Loop) (a : Attempt κ) : Prop :=
  ∀ channel search e, getChannel r s a = (.ok channel, search) → a.body = none →
    (a.handler channel).hasData = true → (a.handler channel).err = some e →
      Refused r e (r.retryTimes - search.param.retry) ∨
        r.retryTimes < search.param.increaseRetry.retry

/-- Data was written, and then the loop is over. -/
def Closed (s : Loop) : Prop :=
  OneResponse s ∧ ((∃ i t, (i, Write.data t) ∈ s.written) → s.Over r)

theorem hasData_iff {d : Delivery} : d.hasData = true ↔ ∃ t, Write.data t ∈ d.writes := by
  simp only [Delivery.hasData, List.any_eq_true]
  constructor
  · rintro ⟨w, hw, hd⟩
    cases w with
    | ping => cases hd
    | data t => exact ⟨t, hw⟩
  · rintro ⟨t, ht⟩
    exact ⟨_, ht, rfl⟩

@[simp] theorem written_decide (s : Loop) (search : Search) (d : Delivery) :
    (s.decide r search d).written = s.written ++ d.writes.map fun w => (s.attempts, w) := by
  simp only [Loop.decide]
  split <;> rfl

/-- A sealed attempt that has written data ends the loop. -/
theorem over_decide {s : Loop} {search : Search} {d : Delivery}
    (h : ∀ e, d.err = some e → Refused r e (r.retryTimes - search.param.retry) ∨
      r.retryTimes < search.param.increaseRetry.retry) : (s.decide r search d).Over r := by
  simp only [Loop.decide, Loop.Over]
  split
  next hr =>
    cases he : d.err with
    | none => simp [he, shouldRetry] at hr
    | some e =>
        rcases h e he with hf | hlast
        · rw [he, (shouldRetry_eq_false_iff r e _).2 hf] at hr
          cases hr
        · exact Or.inr hlast
  next => exact Or.inl rfl

/-- A pass that is sealed keeps the data of one attempt, and none is made after it. -/
theorem closed_pass {s s' : Loop} {a : Attempt κ} (hI : Closed r s) (hs : Sealed r s a)
    (h : pass r s a = some s') : Closed r s' := by
  obtain ⟨hret, hle, hcases⟩ := pass_cases r h
  -- the loop was not over, so nothing was written before
  have hnone : ∀ i t, (i, Write.data t) ∉ s.written := by
    intro i t hw
    rcases hI.2 ⟨i, t, hw⟩ with ho | ho
    · rw [hret] at ho
      cases ho
    · omega
  rcases hcases with ⟨search, e, rfl⟩ | ⟨channel, search, hgc, hb, rfl⟩
  · refine ⟨?_, ?_⟩
    · intro i j t u hi _
      exact absurd hi (hnone i t)
    · rintro ⟨i, t, hw⟩
      exact absurd hw (hnone i t)
  · have hmem : ∀ i t, (i, Write.data t) ∈ (s.decide r search (a.handler channel)).written →
        i = s.attempts ∧ Write.data t ∈ (a.handler channel).writes := by
      intro i t hw
      rw [written_decide, List.mem_append, List.mem_map] at hw
      rcases hw with hw | ⟨w, hw, heq⟩
      · exact absurd hw (hnone i t)
      · cases heq
        exact ⟨rfl, hw⟩
    refine ⟨?_, ?_⟩
    · intro i j t u hi hj
      rw [(hmem i t hi).1, (hmem j u hj).1]
    · rintro ⟨i, t, hw⟩
      have hdata : (a.handler channel).hasData = true := hasData_iff.2 ⟨t, (hmem i t hw).2⟩
      exact over_decide r fun e he => hs channel search e hgc hb hdata he

/-- An attempt that sends one more response on the given channel. -/
def sendAgain (channel : κ) : Attempt κ where
  cached := fun _ => .ok channel
  pick := fun _ _ => .ok (some channel)
  setup := fun _ => none
  body := none
  handler := fun _ => ⟨[.data "again"], none⟩

/-- The restriction leaves out nothing but the defect: after an attempt that is not
sealed the loop makes another pass, and for a token of a fixed group any channel
with an answer makes it a second response. -/
theorem second_response_of_not_sealed {s s' : Loop} {a : Attempt κ} (channel : κ)
    (hgroup : r.tokenGroup ≠ "auto") (h : pass r s a = some s') (hs : ¬ Sealed r s a) :
    ∃ s'', pass r s' (sendAgain channel) = some s'' ∧ ¬ OneResponse s'' := by
  simp only [Sealed, not_forall, not_or, Int.not_lt] at hs
  obtain ⟨chosen, search, e, hgc, hb, hdata, he, hf, hnext⟩ := hs
  obtain ⟨hret, hle, -⟩ := pass_cases r h
  have hr : shouldRetry r (some e) (r.retryTimes - search.param.retry) = true := by
    rw [← Bool.not_eq_false, shouldRetry_eq_false_iff]
    exact hf
  have hs' : s' = s.deliver { search with param := search.param.increaseRetry }
      (a.handler chosen) := by
    rw [pass_eq_decide r hret hle hgc hb, Loop.decide, he, if_pos hr] at h
    exact (Option.some.inj h).symm
  have hgc' : getChannel r s' (sendAgain channel) = (.ok channel, s'.search) := by
    subst hs'
    simp [getChannel, sendAgain, Loop.deliver, cacheGetRandomSatisfiedChannel, hgroup]
  refine ⟨_, pass_eq_decide r (by rw [hs']; exact hret) (by rw [hs']; exact hnext) hgc' rfl, ?_⟩
  intro hone
  obtain ⟨t, ht⟩ := hasData_iff.1 hdata
  have hone' := hone s.attempts (s.attempts + 1) t "again"
    (by simp [hs', Loop.deliver, ht]) (by simp [hs', Loop.deliver, sendAgain])
  omega

/-- So a stream that breaks off with an error of its upstream, after some of it was
forwarded and with retries left, is followed by a second response. -/
theorem second_response_of_streamError {s s' : Loop} {a : Attempt κ} {chosen : κ} {search : Search}
    {e : NewAPIError} (channel : κ) (hgroup : r.tokenGroup ≠ "auto")
    (haff : r.affinitySkipRetry = false) (hspec : r.specificChannelId = false)
    (hrange : shouldMatchStatusCodeRanges r.ranges 500 = true) (h : pass r s a = some s')
    (hgc : getChannel r s a = (.ok chosen, search)) (hb : a.body = none)
    (hleft : search.param.retry < r.retryTimes) (hdata : (a.handler chosen).hasData = true)
    (herr : (a.handler chosen).err = some e) (he : StreamError e)
    (hcode : e.errorCode ≠ "bad_response_body") :
    ∃ s'', pass r s' (sendAgain channel) = some s'' ∧ ¬ OneResponse s'' := by
  refine second_response_of_not_sealed r channel hgroup h fun hsealed => ?_
  rcases hsealed chosen search e hgc hb hdata herr with hf | hlast
  · exact not_refused_of_streamError he hcode haff hspec (by omega) hrange hf
  · simp only [RetryParam.increaseRetry] at hlast
    split at hlast
    · exact absurd hlast (by simp; omega)
    · exact absurd hlast (by simp; omega)

/-- In every run in which each attempt that fails after writing data fails with an
error that ends the request, or in the last pass, all data that the client was sent
comes from one attempt. -/
theorem one_response_of_sealed (index : Option Nat) (as : List (Attempt κ)) (s : Loop)
    (hsealed : Run.Along (pass r) (Sealed r) (Loop.start index) as)
    (h : Run.exec (pass r) (Loop.start index) as = some s) : OneResponse s := by
  have hstart : Closed r (Loop.start index) := by
    refine ⟨?_, ?_⟩
    · intro i j t u hi _
      cases hi
    · rintro ⟨i, t, hw⟩
      cases hw
  exact (Run.exec_invariant (I := Closed r) (fun s a s' hI hP hs => closed_pass r hI hP hs)
    hstart hsealed h).1

end

/-! ## Two runs -/

/-- A Claude upstream with three payloads: the start of a message, a piece of text,
and an error event. -/
def exampleCodec : ClaudeCodec where
  unmarshal := fun data =>
    if data = "start" then .ok ⟨"message_start", none⟩
    else if data = "delta" then .ok ⟨"content_block_delta", none⟩
    else if data = "error" then .ok ⟨"error", some ⟨"overloaded_error", "Overloaded"⟩⟩
    else .error "invalid character"
  patchUsage := fun _ data => data
  toOpenAI := fun _ data => data
  finalUsage := fun _ => ""

/-- One retry, under the default rules. -/
def exampleRequest : Request where
  retryTimes := 1
  ranges := automaticRetryStatusCodeRanges
  affinitySkipRetry := false
  specificChannelId := false
  crossGroupRetry := false
  autoGroupsEnabled := false
  autoGroups := []
  tokenGroup := "default"
  modelName := "claude-sonnet-4"
  channelId := 1

/-- An attempt on a Claude channel that streams the payloads to a Claude client. -/
def claudeAttempt (payloads : List String) : Attempt Int where
  cached := fun id => .ok id
  pick := fun _ retry => .ok (some (retry + 1))
  setup := fun _ => none
  body := none
  handler := fun _ =>
    claudeStreamHandler exampleCodec .claude false (payloads.map StreamItem.data)

/-- The first attempt has sent the start of a message when its upstream reports that
it is overloaded.  The second one sends a whole message behind it. -/
theorem second_response_after_overload :
    ¬ ∀ (r : Request) (index : Option Nat) (as : List (Attempt Int)) (s : Loop),
        Run.exec (pass r) (Loop.start index) as = some s → OneResponse s := by
  intro h
  obtain ⟨s, hs, hw⟩ := Run.exists_of_any (pass exampleRequest) (Loop.start none)
    [claudeAttempt ["start", "error"], claudeAttempt ["start", "delta"]]
    (fun s => (0, Write.data "data: start\n") ∈ s.written ∧
      (1, Write.data "data: start\n") ∈ s.written) (by decide +kernel)
  simp only [decide_eq_true_eq] at hw
  have h01 := h exampleRequest none _ s hs 0 1 _ _ hw.1 hw.2
  cases h01

def undecodableRun : List (Attempt Int) :=
  [claudeAttempt ["error"], claudeAttempt ["start", "delta", "?"]]

/-- A first attempt that fails before it sends anything is retried, and a second one
that fails in the middle of its stream is not. -/
theorem one_response_of_undecodable :
    ∃ s, Run.exec (pass exampleRequest) (Loop.start none) undecodableRun = some s ∧
      (1, Write.data "data: delta\n") ∈ s.written ∧ OneResponse s := by
  obtain ⟨s, hs, hw⟩ := Run.exists_of_any (pass exampleRequest) (Loop.start none) undecodableRun
    (fun s => (1, Write.data "data: delta\n") ∈ s.written) (by decide +kernel)
  refine ⟨s, hs, by simpa using hw, one_response_of_sealed exampleRequest none undecodableRun s
    ⟨?_, fun m _ => ⟨?_, fun _ _ => trivial⟩⟩ hs⟩
  · intro channel search e _ _ hdata _
    have hnone : ((claudeAttempt ["error"]).handler channel).hasData = false := by
      show (claudeStreamHandler exampleCodec .claude false [.data "error"]).hasData = false
      decide +kernel
    rw [hnone] at hdata
    cases hdata
  · intro channel search e _ _ _ herr
    have hlast : ((claudeAttempt ["start", "delta", "?"]).handler channel).err =
        some (newError "invalid character" "bad_response_body" []) := by
      show (claudeStreamHandler exampleCodec .claude false
        [.data "start", .data "delta", .data "?"]).err = _
      decide +kernel
    rw [hlast] at herr
    cases herr
    exact Or.inl (refused_of_undecodable _ _ _)

end DazeApi.Relay
