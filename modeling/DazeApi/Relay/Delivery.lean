import DazeApi.Relay.Scanner

/-!
# Delivery of the payloads

Before `StreamScannerHandler` returns, the data handler has been called once on each
payload that the scanner accepted, in order, as long as the data handler returns true, the
main loop is not ended by a timer and its last wait does not expire.

A payload is in one of four places: still with the scanner, in `dataChan`, in the hand of
the data handler, or called; the four together are what the scanner accepts of the whole
body.  That none is dropped on the way rests on the tokens: until the scanner has closed
`dataChan` there is none, so neither the scanner nor the main loop stops before.
-/

namespace DazeApi.Relay.Scanner

/-- The payloads that the scanner has not sent yet. -/
def ScannerPos.rest (lines : List String) : ScannerPos → List String
  | .scan => accepted lines
  | .check line => accepted (line :: lines)
  | .send data => data :: accepted lines
  | _ => []

/-- The scanner has closed `dataChan`. -/
def ScannerPos.closed : ScannerPos → Bool
  | .wgDone | .stop | .exited => true
  | _ => false

/-- The payload that was taken out and not handled yet. -/
def HandlerPos.inHand : HandlerPos → List String
  | .lock data | .call data => [data]
  | _ => []

/-- The data handler goroutine has left its loop. -/
def HandlerPos.left : HandlerPos → Bool
  | .wgDone _ | .stop _ | .exited _ => true
  | _ => false

/-- The last wait is over. -/
def MainPos.waited : MainPos → Bool
  | .close | .returned => true
  | _ => false

/-- The steps without a failing data handler, without a timer of the main loop, and
without an expired wait. -/
def undisturbed : Act → Bool
  | .handlerCall success => success
  | .mainSelect .ticker | .mainSelect .drainDeadline => false
  | .mainWait expired => !expired
  | _ => true

/-- Nobody has been told to stop. -/
def Quiet (stopChan : Chan Bool) (ctxDone : Bool) (main : MainPos) : Prop :=
  stopChan.recv = none ∧ ctxDone = false ∧ main = .select

structure Inv (body : List String) (s : State) : Prop where
  deliver : s.calls ++ s.handler.inHand ++ s.dataChan.buf ++ s.scanner.rest s.lines = accepted body
  closed : s.dataChan.closed = s.scanner.closed
  quiet : s.dataChan.closed = false → Quiet s.stopChan s.ctxDone s.main
  drained : s.handler.left = true → s.dataChan.closed = true ∧ s.dataChan.buf = []
  success : ∀ b, s.handler = .unlock b → b = true
  waited : s.main.waited = true → s.handler.left = true

section

variable {body : List String} {s s' : State}

/-! ## Tokens -/

theorem takeStop_eq_some (h : s.takeStop = some s') : ∃ ch, s' = { s with stopChan := ch } := by
  obtain ⟨r, -, rfl⟩ := Option.map_eq_some_iff.1 h
  exact ⟨r.2, rfl⟩

theorem sendStop_eq_some (h : s.sendStop = some s') : ∃ ch, s' = { s with stopChan := ch } := by
  obtain ⟨ch, -, rfl⟩ := Option.map_eq_some_iff.1 h
  exact ⟨ch, rfl⟩

theorem Quiet.takeStop (h : Quiet s.stopChan s.ctxDone s.main) : s.takeStop = none := by
  rw [State.takeStop, h.1]
  rfl

/-- A token is taken only when `dataChan` is closed. -/
theorem Inv.closed_of_takeStop (h : Inv body s) (hs : s.takeStop = some s') :
    s.dataChan.closed = true := by
  by_contra hclosed
  rw [Quiet.takeStop (h.quiet (by simpa using hclosed))] at hs
  cases hs

theorem Inv.setStop (h : Inv body s) (hclosed : s.dataChan.closed = true) (ch : Chan Bool) :
    Inv body { s with stopChan := ch } :=
  ⟨h.deliver, h.closed, fun hc => absurd (hclosed.symm.trans hc) (by simp), h.drained, h.success,
    h.waited⟩

theorem Inv.takeStop (h : Inv body s) (hs : s.takeStop = some s') :
    Inv body s' ∧ s'.dataChan.closed = true := by
  have hclosed := h.closed_of_takeStop hs
  obtain ⟨ch, rfl⟩ := takeStop_eq_some hs
  exact ⟨h.setStop hclosed ch, hclosed⟩

theorem Inv.sendStop (h : Inv body s) (hclosed : s.dataChan.closed = true)
    (hs : s.sendStop = some s') : Inv body s' := by
  obtain ⟨ch, rfl⟩ := sendStop_eq_some hs
  exact h.setStop hclosed ch

/-! ## The scanner -/

/-- The scanner moves on with the same payloads before it. -/
theorem Inv.moveScanner (h : Inv body s) {lines : List String} {pos : ScannerPos}
    (hrest : pos.rest lines = s.scanner.rest s.lines) (hclosed : pos.closed = s.scanner.closed) :
    Inv body { s with lines := lines, scanner := pos } := by
  refine ⟨?_, h.closed.trans hclosed.symm, h.quiet, h.drained, h.success, h.waited⟩
  show s.calls ++ s.handler.inHand ++ s.dataChan.buf ++ pos.rest lines = accepted body
  rw [hrest]
  exact h.deliver

/-- The scanner is not told to return while it reads. -/
theorem Inv.not_scannerStopped (h : Inv body s) (hs : s.scanner.closed = false) (c : Choice) :
    scannerStopped s c = none := by
  have hq := h.quiet (h.closed.trans hs)
  cases c with
  | ready => rfl
  | stop => rw [scannerStopped, hq.takeStop]; rfl
  | ctx => simp [scannerStopped, hq.2.1]

theorem inv_scan (h : Inv body s) (hs : scan s = some s') : Inv body s' := by
  rw [scan] at hs
  split at hs
  next line lines hpos hlines =>
    cases hs
    exact h.moveScanner (by rw [hpos, hlines]; rfl) (by rw [hpos]; rfl)
  next hpos hlines =>
    cases hs
    exact h.moveScanner (by rw [hpos, hlines]; rfl) (by rw [hpos]; rfl)
  next => cases hs

theorem inv_scannerLine (h : Inv body s) {line : String} (hpos : s.scanner = .check line) :
    Inv body (scannerLine s line) := by
  rw [scannerLine]
  split
  next hline =>
    exact h.moveScanner (by simp [hpos, ScannerPos.rest, accepted, hline]) (by rw [hpos]; rfl)
  next hline =>
    exact h.moveScanner (by simp [hpos, ScannerPos.rest, accepted, hline]) (by rw [hpos]; rfl)
  next hline =>
    exact h.moveScanner (by simp [hpos, ScannerPos.rest, accepted, hline]) (by rw [hpos]; rfl)

theorem inv_scannerCheck {c : Choice} (h : Inv body s) (hs : scannerCheck s c = some s') :
    Inv body s' := by
  unfold scannerCheck at hs
  split at hs
  next line hpos =>
    split at hs
    next =>
      cases hs
      exact inv_scannerLine h hpos
    next => cases hs
  next line hpos _ =>
    rw [h.not_scannerStopped (by rw [hpos]; rfl)] at hs
    cases hs
  next => cases hs

theorem inv_scannerSend {c : Choice} (h : Inv body s) (hs : scannerSend s c = some s') :
    Inv body s' := by
  unfold scannerSend at hs
  split at hs
  next data hpos =>
    obtain ⟨ch, hch, rfl⟩ := Option.map_eq_some_iff.1 hs
    have hopen : s.dataChan.closed = false := by rw [h.closed, hpos]; rfl
    have hdel := h.deliver
    have hcl := h.closed
    rw [hpos] at hdel hcl
    rw [Chan.send_eq_some hch]
    refine ⟨?_, hcl, h.quiet, ?_, h.success, h.waited⟩
    · rw [← hdel]
      simp [ScannerPos.rest]
    · intro hleft
      exact absurd ((h.drained hleft).1.symm.trans hopen) (by simp)
  next data hpos _ =>
    rw [h.not_scannerStopped (by rw [hpos]; rfl)] at hs
    cases hs
  next => cases hs

theorem inv_scannerLeave (h : Inv body s) (hs : scannerLeave s = some s') : Inv body s' := by
  rw [scannerLeave] at hs
  split at hs
  next hpos =>
    cases hs
    have hdel := h.deliver
    rw [hpos] at hdel
    exact ⟨hdel, rfl, (fun hc => by cases hc), fun hleft => ⟨rfl, (h.drained hleft).2⟩, h.success,
      h.waited⟩
  next hpos =>
    cases hs
    exact h.moveScanner (by rw [hpos]; rfl) (by rw [hpos]; rfl)
  next hpos =>
    obtain ⟨m, hm, rfl⟩ := Option.map_eq_some_iff.1 hs
    have hI := h.sendStop (by rw [h.closed, hpos]; rfl) hm
    obtain ⟨ch, rfl⟩ := sendStop_eq_some hm
    exact hI.moveScanner (by rw [hpos]; rfl) (by rw [hpos]; rfl)
  next => cases hs

/-! ## The data handler -/

theorem inv_handlerReceive (h : Inv body s) (hs : handlerReceive s = some s') : Inv body s' := by
  rw [handlerReceive] at hs
  split at hs
  next hpos =>
    obtain ⟨r, hr, rfl⟩ := Option.map_eq_some_iff.1 hs
    have hwait : s.main.waited = true → False := by
      intro hw
      have hleft := h.waited hw
      rw [hpos] at hleft
      cases hleft
    have hdel := h.deliver
    rw [hpos] at hdel
    rcases Chan.recv_eq_some hr with ⟨data, rest, hbuf, rfl⟩ | ⟨hbuf, hclosed, rfl⟩
    · rw [hbuf] at hdel
      refine ⟨?_, h.closed, h.quiet, (fun hleft => by cases hleft), (fun b hb => by cases hb),
        fun hw => (hwait hw).elim⟩
      rw [← hdel]
      simp [HandlerPos.inHand]
    · exact ⟨hdel, h.closed, h.quiet, fun _ => ⟨hclosed, hbuf⟩, (fun b hb => by cases hb),
        fun _ => rfl⟩
  next => cases hs

/-- The data handler moves on within its loop. -/
theorem Inv.moveHandler (h : Inv body s) {pos : HandlerPos} {m : Option Writer}
    (hin : pos.inHand = s.handler.inHand) (hleft : pos.left = s.handler.left)
    (hok : ∀ b, pos = .unlock b → b = true) :
    Inv body { s with writeMutex := m, handler := pos } := by
  refine ⟨?_, h.closed, h.quiet, ?_, hok, ?_⟩
  · show s.calls ++ pos.inHand ++ s.dataChan.buf ++ s.scanner.rest s.lines = accepted body
    rw [hin]
    exact h.deliver
  · intro hl
    exact h.drained (hleft.symm.trans hl)
  · intro hw
    exact hleft.trans (h.waited hw)

theorem inv_handlerLock (h : Inv body s) (hs : handlerLock s = some s') : Inv body s' := by
  rw [handlerLock] at hs
  split at hs
  next data hpos _ =>
    cases hs
    exact h.moveHandler (by rw [hpos]; rfl) (by rw [hpos]; rfl) (fun b hb => by cases hb)
  next => cases hs

theorem inv_handlerCall (h : Inv body s) (hs : handlerCall s true = some s') : Inv body s' := by
  rw [handlerCall] at hs
  split at hs
  next data hpos =>
    cases hs
    have hdel := h.deliver
    have hdr := h.drained
    have hw := h.waited
    rw [hpos] at hdel hdr hw
    refine ⟨?_, h.closed, h.quiet, hdr, (fun b hb => by cases hb; rfl), hw⟩
    rw [← hdel]
    simp [HandlerPos.inHand]
  next => cases hs

theorem inv_handlerUnlock (h : Inv body s) (hs : handlerUnlock s = some s') : Inv body s' := by
  rw [handlerUnlock] at hs
  split at hs
  next success hpos =>
    cases hs
    have hok := h.success success hpos
    subst hok
    exact h.moveHandler (by rw [hpos]; rfl) (by rw [hpos]; rfl) (fun b hb => by cases hb)
  next => cases hs

theorem inv_handlerLeave (h : Inv body s) (hs : handlerLeave s = some s') : Inv body s' := by
  rw [handlerLeave] at hs
  split at hs
  next success hpos =>
    cases hs
    exact h.moveHandler (by rw [hpos]; rfl) (by rw [hpos]; rfl) (fun b hb => by cases hb)
  next success hpos =>
    obtain ⟨m, hm, rfl⟩ := Option.map_eq_some_iff.1 hs
    have hI := h.sendStop (h.drained (by rw [hpos]; rfl)).1 hm
    obtain ⟨ch, rfl⟩ := sendStop_eq_some hm
    exact hI.moveHandler (by rw [hpos]; rfl) (by rw [hpos]; rfl) (fun b hb => by cases hb)
  next => cases hs

/-! ## The pings -/

/-- The pings reach nothing that the payloads pass. -/
theorem Inv.movePing (h : Inv body s) (ping : PingPos) (pinger : PingerPos) (m : Option Writer) :
    Inv body { s with ping := ping, pinger := pinger, writeMutex := m } :=
  ⟨h.deliver, h.closed, h.quiet, h.drained, h.success, h.waited⟩

theorem inv_ofPing {a : Act} (h : Inv body s) (ha : ofPing a = true) (hs : step s a = some s') :
    Inv body s' := by
  obtain ⟨ping, pinger, m, rfl⟩ := step_ofPing ha hs
  exact h.movePing ping pinger m

theorem inv_pingStop (h : Inv body s) (hs : pingStop s .stop = some s') : Inv body s' := by
  unfold pingStop at hs
  split at hs
  next =>
    obtain ⟨m, hm, rfl⟩ := Option.map_eq_some_iff.1 hs
    exact (h.takeStop hm).1.movePing _ _ _
  next => cases hs

/-! ## The main loop -/

/-- The main loop moves on after it was told to stop. -/
theorem Inv.moveMain (h : Inv body s) (hclosed : s.dataChan.closed = true) {pos : MainPos}
    (hwaited : pos.waited = true → s.handler.left = true) (ctxDone : Bool) :
    Inv body { s with ctxDone := ctxDone, main := pos } :=
  ⟨h.deliver, h.closed, fun hc => absurd (hclosed.symm.trans hc) (by simp), h.drained, h.success,
    hwaited⟩

/-- Outside of its select, the main loop was told to stop. -/
theorem Inv.closed_of_main (h : Inv body s) (hmain : s.main ≠ .select) :
    s.dataChan.closed = true := by
  by_contra hclosed
  exact hmain (h.quiet (by simpa using hclosed)).2.2

theorem inv_mainSelect {e : MainEvent} (h : Inv body s) (he : undisturbed (.mainSelect e) = true)
    (hs : mainSelect s e = some s') : Inv body s' := by
  unfold mainSelect at hs
  split at hs
  next =>
    cases e with
    | ticker => cases he
    | drainDeadline => cases he
    | stop =>
        obtain ⟨m, hm, rfl⟩ := Option.map_eq_some_iff.1 hs
        obtain ⟨hI, hclosed⟩ := h.takeStop hm
        exact hI.moveMain hclosed (fun hw => by cases hw) _
    | client =>
        dsimp only at hs
        split at hs
        next => cases hs
        next =>
          cases hs
          exact ⟨h.deliver, h.closed, h.quiet, h.drained, h.success, h.waited⟩
  next => cases hs

theorem inv_mainLeave (h : Inv body s) (hs : mainLeave s = some s') : Inv body s' := by
  rw [mainLeave] at hs
  split at hs
  next hpos =>
    cases hs
    exact h.moveMain (h.closed_of_main (by simp [hpos])) (fun hw => by cases hw) _
  next hpos =>
    obtain ⟨m, hm, rfl⟩ := Option.map_eq_some_iff.1 hs
    have hclosed := h.closed_of_main (by simp [hpos])
    have hI := h.sendStop hclosed hm
    obtain ⟨ch, rfl⟩ := sendStop_eq_some hm
    exact hI.moveMain hclosed (fun hw => by cases hw) _
  next hpos =>
    cases hs
    have hclosed := h.closed_of_main (by simp [hpos])
    have hleft := h.waited (by rw [hpos]; rfl)
    exact (h.setStop hclosed s.stopChan.close).moveMain hclosed (fun _ => hleft) _
  next => cases hs

theorem left_of_waited (h : s.waited = true) : s.handler.left = true := by
  simp only [State.waited, Bool.and_eq_true] at h
  have hhandler := h.1.2
  split at hhandler
  next hpos => rw [hpos]; rfl
  next hpos => rw [hpos]; rfl
  next => cases hhandler

theorem inv_mainWait (h : Inv body s) (hs : mainWait s false = some s') : Inv body s' := by
  rw [mainWait] at hs
  split at hs
  next hwait =>
    cases hs
    have hleft := left_of_waited (hwait.2.resolve_left (by simp))
    exact h.moveMain (h.closed_of_main (by simp [hwait.1])) (fun _ => hleft) _
  next => cases hs

/-! ## Runs -/

theorem inv_step {a : Act} (h : Inv body s) (ha : undisturbed a = true) (hs : step s a = some s') :
    Inv body s' := by
  cases a with
  | scan => exact inv_scan h hs
  | scannerCheck c => exact inv_scannerCheck h hs
  | scannerSend c => exact inv_scannerSend h hs
  | scannerLeave => exact inv_scannerLeave h hs
  | handlerReceive => exact inv_handlerReceive h hs
  | handlerLock => exact inv_handlerLock h hs
  | handlerCall success =>
      cases success with
      | true => exact inv_handlerCall h hs
      | false => cases ha
  | handlerUnlock => exact inv_handlerUnlock h hs
  | handlerLeave => exact inv_handlerLeave h hs
  | pingStop e =>
      cases e with
      | stop => exact inv_pingStop h hs
      | ctx => exact inv_ofPing h rfl hs
      | client => exact inv_ofPing h rfl hs
      | timeout => exact inv_ofPing h rfl hs
  | mainSelect e => exact inv_mainSelect h ha hs
  | mainLeave => exact inv_mainLeave h hs
  | mainWait expired =>
      cases expired with
      | true => cases ha
      | false => exact inv_mainWait h hs
  | pingTick => exact inv_ofPing h rfl hs
  | pingSent => exact inv_ofPing h rfl hs
  | pingLeave => exact inv_ofPing h rfl hs
  | pingerLock => exact inv_ofPing h rfl hs
  | pingerWrite ok => exact inv_ofPing h rfl hs

theorem inv_initial (pingEnabled : Bool) (body : List String) : Inv body (initial pingEnabled body) :=
  ⟨rfl, rfl, fun _ => ⟨rfl, rfl, rfl⟩, (fun h => by cases h), (fun b hb => by cases hb),
    fun h => by cases h⟩

end

/-- When the last wait of `StreamScannerHandler` is over, the data handler has been called on
exactly the payloads that the scanner accepted, in their order. -/
theorem delivered (pingEnabled : Bool) (body : List String) (acts : List Act) (s : State)
    (hacts : ∀ a ∈ acts, undisturbed a = true)
    (h : Run.exec step (initial pingEnabled body) acts = some s) (hmain : s.main.waited = true) :
    s.calls = accepted body := by
  have hI : Inv body s :=
    Run.exec_invariant (fun s a s' hI ha hs => inv_step hI ha hs) (inv_initial pingEnabled body)
      (Run.along_of_mem hacts _) h
  have hleft := hI.waited hmain
  obtain ⟨hclosed, hbuf⟩ := hI.drained hleft
  have hin : s.handler.inHand = [] := by
    cases hpos : s.handler <;> rw [hpos] at hleft <;> first | rfl | cases hleft
  have hrest : s.scanner.rest s.lines = [] := by
    have hscanner := hI.closed.symm.trans hclosed
    cases hpos : s.scanner <;> rw [hpos] at hscanner <;> first | rfl | cases hscanner
  have hdel := hI.deliver
  rw [hin, hbuf, hrest] at hdel
  simpa using hdel

/-! ## A run -/

def exampleBody : List String :=
  ["data: a", ": comment", "data:b ", "", "data: [DONE]", "data: c"]

/-- The pings take the token of the scanner while the data handler has a payload in hand
and one is in `dataChan`. -/
def exampleRun : List Act :=
  [.scan, .scannerCheck .ready, .scannerSend .ready, .handlerReceive, .pingTick, .scan,
    .scannerCheck .ready, .handlerLock, .scan, .scannerCheck .ready, .scannerSend .ready, .scan,
    .scannerCheck .ready, .scan, .scannerCheck .ready, .scannerLeave, .scannerLeave,
    .scannerLeave, .pingStop .stop, .handlerCall true, .handlerUnlock, .handlerReceive,
    .handlerLock, .handlerCall true, .handlerUnlock, .handlerReceive, .handlerLeave,
    .handlerLeave, .mainSelect .stop, .mainLeave, .mainLeave, .pingLeave, .mainWait false,
    .mainLeave]

theorem delivered_exampleRun :
    ∃ s, Run.exec step (initial true exampleBody) exampleRun = some s ∧ s.main = .returned ∧
      accepted exampleBody = ["a", "b"] ∧ s.calls = accepted exampleBody := by
  obtain ⟨s, hs, hend⟩ := Run.exists_of_any step (initial true exampleBody) exampleRun
    (fun s => s.main = .returned) (by decide +kernel)
  have hmain := of_decide_eq_true hend
  exact ⟨s, hs, hmain, by decide +kernel,
    delivered true exampleBody exampleRun s (by decide) hs (by rw [hmain]; rfl)⟩

end DazeApi.Relay.Scanner
