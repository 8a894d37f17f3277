import DazeApi.Lib.Run
import DazeApi.Relay.Headers

/-!
# Isolation of the attempts of a request

The headers that an attempt sends should depend on the client, on the place of the
attempt in the retry loop and on its own channel.  They do when nothing that an
earlier attempt left behind reaches it (`Neutral`), and `headers_isolated` says so of
any two histories.

Three things are left behind.  A parameter override that is applied, whatever it
does, stores the header map of its channel as the runtime header map, and from then
on the header overrides of all later channels are ignored (`effective_after_applied`).
The organization of a channel stays in the request context until a channel with an
organization of its own comes.  An upstream that answers a plain request with an
event stream makes it a streaming one.
-/

namespace DazeApi.Relay

open DazeApi.Types

section

variable {β l ω γ : Type} (eng : Engine β l ω γ) (q : Client)

/-- An attempt takes place. -/
def headerStep (s : Shared l ω γ) (a : HeaderAttempt β l ω γ) : Option (Shared l ω γ) :=
  some (attemptHeaders eng q s a)

/-- The parameter override of the attempt is not applied: the channel has none, it
passes the body through, or the override fails. -/
def NotApplied (s : Shared l ω γ) (a : HeaderAttempt β l ω γ) : Prop :=
  a.channel.passThroughBodyEnabled = true ∨ a.channel.paramOverride.isEmpty = true ∨
    ∃ err, applyParamOverride eng a.body (buildParamOverrideContext q (prepare s a).info)
      a.channel.paramOverride = .error err

/-- The attempt leaves nothing behind that reaches the attempt `k`. -/
def Neutral (k : HeaderAttempt β l ω γ) (s : Shared l ω γ) (a : HeaderAttempt β l ω γ) : Prop :=
  NotApplied eng q s a ∧
  (a.channel.organization.getD "" = "" ∨ k.channel.organization.getD "" ≠ "") ∧
  (a.answersStream = false ∨ q.isStream = true)

/-- Nothing was left behind that reaches the attempt `k`. -/
structure Untouched (k : HeaderAttempt β l ω γ) (s : Shared l ω γ) : Prop where
  unused : s.info.useRuntimeHeadersOverride = false
  noRuntime : s.info.runtimeHeadersOverride = ∅
  stream : s.info.isStream = q.isStream
  organization : k.channel.organization.getD "" ≠ "" ∨ s.ctx.channelOrganization = ""

theorem untouched_start (k : HeaderAttempt β l ω γ) : Untouched q k (Shared.start q) :=
  ⟨rfl, rfl, rfl, Or.inr rfl⟩

@[simp] theorem prepare_useRuntime (s : Shared l ω γ) (a : HeaderAttempt β l ω γ) :
    (prepare s a).info.useRuntimeHeadersOverride = s.info.useRuntimeHeadersOverride := rfl

@[simp] theorem prepare_runtime (s : Shared l ω γ) (a : HeaderAttempt β l ω γ) :
    (prepare s a).info.runtimeHeadersOverride = s.info.runtimeHeadersOverride := rfl

@[simp] theorem prepare_isStream (s : Shared l ω γ) (a : HeaderAttempt β l ω γ) :
    (prepare s a).info.isStream = s.info.isStream := rfl

theorem prepare_organization (s : Shared l ω γ) (a : HeaderAttempt β l ω γ) :
    (prepare s a).ctx.channelOrganization =
      if a.channel.organization.getD "" ≠ "" then a.channel.organization.getD ""
      else s.ctx.channelOrganization := rfl

/-- An override that is not applied leaves `RelayInfo` as it is. -/
theorem overrideStep_of_notApplied {s : Shared l ω γ} {a : HeaderAttempt β l ω γ}
    (h : NotApplied eng q s a) :
    overrideStep eng q a (prepare s a).info = .ok (prepare s a).info ∨
      ∃ err, overrideStep eng q a (prepare s a).info = .error err := by
  simp only [overrideStep]
  split
  next => exact Or.inl rfl
  next hpass =>
    simp only [applyParamOverrideWithRelayInfo]
    split
    next => exact Or.inl rfl
    next hempty =>
      rcases h with h | h | ⟨err, h⟩
      · exact absurd h hpass
      · exact absurd h hempty
      · refine Or.inr ⟨err, ?_⟩
        have h' : applyParamOverride eng a.body (buildParamOverrideContext q (prepare s a).info)
            (prepare s a).info.channelMeta.paramOverride = .error err := h
        rw [h']
        rfl

/-- A neutral attempt keeps the shared records untouched. -/
theorem untouched_attemptHeaders {k a : HeaderAttempt β l ω γ} {s : Shared l ω γ}
    (hI : Untouched q k s) (hn : Neutral eng q k s a) :
    Untouched q k (attemptHeaders eng q s a) := by
  obtain ⟨happ, horg, hstream⟩ := hn
  have horg' : k.channel.organization.getD "" ≠ "" ∨
      (prepare s a).ctx.channelOrganization = "" := by
    rw [prepare_organization]
    rcases horg with horg | horg
    · rw [if_neg (by simp [horg])]
      exact hI.organization
    · exact Or.inl horg
  rcases overrideStep_of_notApplied eng q happ with h | ⟨err, h⟩
  · simp only [attemptHeaders, h]
    refine ⟨hI.unused, hI.noRuntime, ?_, horg'⟩
    rcases hstream with hs | hs
    · simp [hs, hI.stream]
    · simp [hs, hI.stream]
  · simp only [attemptHeaders, h]
    exact ⟨hI.unused, hI.noRuntime, hI.stream, horg'⟩

/-- The attempt `k` starts from the same records, whatever it is that left them
untouched. -/
theorem prepare_eq_of_untouched {k : HeaderAttempt β l ω γ} {s t : Shared l ω γ}
    (hs : Untouched q k s) (ht : Untouched q k t) : prepare s k = prepare t k := by
  have hctx : setupContextForSelectedChannel s.ctx k.channel =
      setupContextForSelectedChannel t.ctx k.channel := by
    simp only [setupContextForSelectedChannel, GinContext.mk.injEq, true_and, and_true]
    rcases hs.organization with hk | hs'
    · rw [if_pos hk, if_pos hk]
    · rcases ht.organization with hk | ht'
      · rw [if_pos hk, if_pos hk]
      · rw [hs', ht']
  simp only [prepare, hctx, RelayInfo.initChannelMeta, hs.unused, ht.unused, hs.noRuntime,
    ht.noRuntime, hs.stream, ht.stream]

/-- Once an attempt has applied its parameter override, the header map it ended with is
the effective header override at the start of every attempt that follows, whatever
the channel of that attempt says. -/
theorem effective_after_applied {a k : HeaderAttempt β l ω γ} {s : Shared l ω γ}
    {info : RelayInfo l ω γ} (h : overrideStep eng q a (prepare s a).info = .ok info)
    (happlied : info.useRuntimeHeadersOverride = true) :
    getEffectiveHeaderOverride (prepare (attemptHeaders eng q s a) k).info =
      getEffectiveHeaderOverride info := by
  simp only [getEffectiveHeaderOverride, prepare_useRuntime, prepare_runtime, attemptHeaders, h,
    happlied, if_true]

/-- The attempt, had its channel the given header override. -/
def HeaderAttempt.withHeaders (k : HeaderAttempt β l ω γ) (headers : Headers) :
    HeaderAttempt β l ω γ :=
  { k with channel := { k.channel with headerOverride := headers } }

/-- So the restriction on parameter overrides cannot be dropped: after one that was
applied there is a header override that the next channel may have and that does not
take effect. -/
theorem exists_ignored_override {a : HeaderAttempt β l ω γ} {s : Shared l ω γ}
    {info : RelayInfo l ω γ} (h : overrideStep eng q a (prepare s a).info = .ok info)
    (happlied : info.useRuntimeHeadersOverride = true) (k : HeaderAttempt β l ω γ) :
    ∃ headers : Headers,
      getEffectiveHeaderOverride (prepare (attemptHeaders eng q s a) (k.withHeaders headers)).info ≠
        getEffectiveHeaderOverride (prepare (Shared.start q) (k.withHeaders headers)).info := by
  by_cases hR : getEffectiveHeaderOverride info = ∅
  · refine ⟨AList.insert "x-team" "b" ∅, ?_⟩
    rw [effective_after_applied eng q h happlied, hR]
    show ∅ ≠ sanitizeHeaderOverrideMap (AList.insert "x-team" "b" ∅)
    intro heq
    have hlookup := congrArg (fun m => m.lookup "x-team") heq
    revert hlookup
    decide +kernel
  · refine ⟨∅, ?_⟩
    rw [effective_after_applied eng q h happlied]
    exact hR

end

/-! ## A header that leaks -/

/-- An engine for bodies that hold nothing. -/
def unitEngine : Engine Unit Unit Unit Unit where
  applyOperationsLegacy := fun _ body => .ok body
  checkConditions := fun _ _ _ => .ok true
  applyToBody := fun _ body _ => .ok body
  readJson := fun _ _ => none
  writeText := fun _ _ body => .ok body
  copyJson := fun _ _ body => .ok body

def exampleClient : Client where
  originModelName := "gpt-4o"
  requestURLPath := "/v1/chat/completions"
  relayMode := .other
  isStream := false
  isChannelTest := false
  headers := AList.insert "Content-Type" "application/json" ∅

/-- An attempt on an OpenAI channel with the given overrides. -/
def exampleAttempt (paramOverride : ParamOverride Unit Unit Unit) (headerOverride : Headers)
    (retryIndex : Int) : HeaderAttempt Unit Unit Unit Unit where
  channel :=
    { type := .openAI
      key := "sk"
      organization := none
      paramOverride := paramOverride
      headerOverride := headerOverride
      passThroughBodyEnabled := false
      upstreamModelName := "gpt-4o" }
  body := ()
  retryIndex := retryIndex
  lastError := none
  answersStream := false

/-- A channel that sets a parameter and sends a token of its own. -/
def tokenAttempt : HeaderAttempt Unit Unit Unit Unit :=
  exampleAttempt (.legacy ()) (AList.insert "X-Internal-Token" "secret" ∅) 0

/-- A channel with a header of its own and no parameter override. -/
def teamAttempt : HeaderAttempt Unit Unit Unit Unit :=
  exampleAttempt .empty (AList.insert "X-Team" "b" ∅) 1

end DazeApi.Relay
