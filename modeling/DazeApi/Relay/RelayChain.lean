import DazeApi.Relay.Delivery
import DazeApi.Relay.EventWire
import DazeApi.Relay.OaiStream

/-!
# Relays in a row

A relay whose upstream is again such a relay.  Each one runs the goroutines of
`StreamScannerHandler` on the lines that it reads, gives the payloads to `OaiStreamHandler`, and
puts pings between the events that this writes.  As long as nothing disturbs a run, the last
reader is given what the first upstream has said.
-/

namespace DazeApi.Relay.OaiStream

/-- One relay: its flags, a run of its goroutines, what it has written, and the setting for the
scanner buffer of the next one. -/
structure Hop where
  info : Info
  pingEnabled : Bool
  acts : List Scanner.Act
  events : List Event
  streamScannerMaxBufferMB : Int

/-- The lines that the next relay reads. -/
def Hop.lines (hop : Hop) : List String :=
  scanLines (getScannerBufferSize hop.streamScannerMaxBufferMB) (wire hop.events)

/-- The data events in their order, with pings anywhere. -/
def WithPings (events : List Event) (written : List String) : Prop :=
  events.filter (fun e => e ≠ .pingData) = written.map Event.stringData

/-- A relay that goes with the flags, and whose client asks for usage. -/
structure Info.Forwards (info : Info) : Prop where
  forceFormat : info.forceFormat = false
  thinkingToContent : info.thinkingToContent = false
  shouldIncludeUsage : info.shouldIncludeUsage = true

/-- Relays that read each what the one before has written. -/
inductive Chain (codec : Codec) : List Hop → List String → Prop where
  | nil (lines : List String) : Chain codec [] lines
  | cons {hop : Hop} {hops : List Hop} {lines : List String} {s : Scanner.State} :
      hop.info.Forwards →
      (∀ a ∈ hop.acts, Scanner.undisturbed a = true) →
      Run.exec Scanner.step (Scanner.initial hop.pingEnabled lines) hop.acts = some s →
      s.main.waited = true →
      WithPings hop.events (oaiStreamHandler codec hop.info s.calls).1 →
      Chain codec hops hop.lines → Chain codec (hop :: hops) lines

/-- The lines that are read behind the relays. -/
def lastLines : List Hop → List String → List String
  | [], lines => lines
  | hop :: hops, _ => lastLines hops hop.lines

section

variable {codec : Codec} {info : Info} {chunks lines written : List String} {events : List Event}

/-- A stream whose last chunk gives usage is written as it is to a client that asks for it. -/
theorem written_of_usage (hinfo : info.Forwards) (hchunks : "" ∉ chunks)
    (husage : (lastResponse codec chunks).bind StreamResponse.validUsage ≠ none) :
    (oaiStreamHandler codec info chunks).1 = chunks ++ ["[DONE]"] := by
  have h : Behind info chunks (chunks.foldl (handleData codec info) (initial info)) :=
    behind_foldl hinfo.forceFormat hinfo.thinkingToContent hchunks
  have hgiven : givenUsage codec info chunks ≠ none := by
    rw [givenUsage]
    intro hnone
    exact husage (Option.or_eq_none_iff.1 hnone).1
  unfold oaiStreamHandler
  extract_lets s l sent usage out
  have hwritten : sent.written = chunks.dropLast ++ finalOf codec info chunks s :=
    h.written_last hinfo.forceFormat hinfo.thinkingToContent hchunks
  have hsend : (afterLast codec info s).shouldSendLastResp = true := by
    refine h.shouldSend_of_not_unasked fun r hr => ?_
    exact absurd (hinfo.shouldIncludeUsage.symm.trans hr.1) (by decide)
  have hcontain : ({ l with usage := usage } : Last).containStreamUsage =
      (givenUsage codec info chunks).isSome := h.usage_afterLast.2
  obtain ⟨made, hmade, hout⟩ := handleFinalResponse_spec sent hcontain
  show out.written = _
  rw [hout, hwritten, hmade.nothing (Or.inr hgiven), finalOf, if_pos hsend, List.append_nil]
  congr 1
  cases hlast : chunks.getLast? with
  | none =>
      rw [List.getLast?_eq_none_iff] at hlast
      subst hlast
      rfl
  | some data => exact List.dropLast_append_getLast? data hlast

theorem calls_of_waited {s : Scanner.State} (h : Scanner.Inv lines s)
    (hmain : s.main.waited = true) : s.calls = Scanner.accepted lines := by
  have hleft := h.waited hmain
  obtain ⟨hclosed, hbuf⟩ := h.drained hleft
  have hhand : s.handler.inHand = [] := by
    cases hpos : s.handler with
    | recv | lock _ | call _ | unlock _ =>
        rw [hpos] at hleft
        cases hleft
    | wgDone _ | stop _ | exited _ => rfl
  have hrest : s.scanner.rest s.lines = [] := by
    have hscanner := h.closed.symm.trans hclosed
    cases hpos : s.scanner with
    | scan | check _ | send _ | close =>
        rw [hpos] at hscanner
        first | rfl | cases hscanner
    | wgDone | stop | exited => rfl
  have hdeliver := h.deliver
  rw [hhand, hbuf, hrest] at hdeliver
  simpa using hdeliver

theorem WithPings.nil_iff : WithPings [] written ↔ written = [] := by
  rw [WithPings, List.filter_nil, eq_comm, List.map_eq_nil_iff]

/-- Pings say nothing. -/
theorem WithPings.data (h : WithPings events written) : events.filterMap Event.data = written := by
  induction events generalizing written with
  | nil => rw [WithPings.nil_iff.1 h]; rfl
  | cons e events ih =>
      rw [WithPings, List.filter_cons] at h
      by_cases hping : e = .pingData
      · subst hping
        rw [if_neg (by decide)] at h
        exact ih h
      · rw [if_pos (by simpa using hping)] at h
        cases written with
        | nil => cases h
        | cons data written =>
            rw [List.map_cons, List.cons.injEq] at h
            obtain ⟨rfl, h⟩ := h
            show data :: events.filterMap Event.data = _
            rw [ih h]

theorem WithPings.named {bufferSize : Nat} (h : WithPings events written) :
    ∀ e ∈ events, e.Named bufferSize := by
  intro e he
  by_cases hping : e = .pingData
  · subst hping
    exact trivial
  · have hmem : e ∈ events.filter (fun e => e ≠ .pingData) :=
      List.mem_filter.2 ⟨he, by simpa using hping⟩
    rw [h] at hmem
    obtain ⟨data, -, rfl⟩ := List.mem_map.1 hmem
    exact trivial

theorem WithPings.said (hchunks : "[DONE]" ∉ chunks)
    (h : WithPings events (chunks ++ ["[DONE]"])) : said events = chunks := by
  rw [Relay.said, h.data, List.takeWhile_append_of_pos]
  · exact List.append_nil chunks
  · intro data hdata
    refine decide_eq_true ?_
    rintro rfl
    exact hchunks hdata

end

/-- A codec that knows one chunk, which gives usage. -/
def usageCodec : Codec where
  unmarshal data :=
    if data = "u" then
      some ⟨"", "", 0, "", none, [], some { (0 : Quota.UpstreamUsage) with promptTokens := 1 }⟩
    else none
  unmarshalUsage _ := none
  readBody _ := ⟨none, none, none, none⟩
  marshal _ := ""
  unmarshal_empty := by decide

/-- The relay writes a ping before the chunk. -/
def oneHop : Hop where
  info := plainInfo true
  pingEnabled := false
  acts :=
    [.scan, .scannerCheck .ready, .scannerSend .ready, .handlerReceive, .handlerLock,
      .handlerCall true, .handlerUnlock, .scan, .scannerCheck .ready, .scan, .scannerCheck .ready,
      .scannerLeave, .scannerLeave, .scannerLeave, .handlerReceive, .handlerLeave, .handlerLeave,
      .mainSelect .stop, .mainLeave, .mainLeave, .mainWait false]
  events := [.pingData, .stringData "u", .done]
  streamScannerMaxBufferMB := 1

end DazeApi.Relay.OaiStream
