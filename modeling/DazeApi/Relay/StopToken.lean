import DazeApi.Relay.Scanner

/-!
# The token of a failing data handler

When the data handler returns false, its goroutine exits and leaves a token in `stopChan`.
The main loop ends the stream when it receives it, and the scanner exits and leaves another
one.  The pings only exit: after that nobody knows that the stream has failed, until the
scanner comes to the end of the upstream body or a timer fires.

`stops_iff_keeps`: the stream is stopped in every state of a run exactly if the pings never
take the last token after such a failure, while the main loop is in its select and the
scanner is not on its way to a token of its own.
-/

namespace DazeApi.Relay.Scanner

/-- The steps of the scanner that do not read from upstream. -/
def ofScanner : Act → Bool
  | .scannerCheck _ | .scannerSend _ | .scannerLeave => true
  | _ => false

/-- The scanner can go on to a token without reading. -/
def CanSignal (s : State) : Prop :=
  ∃ acts s', (∀ a ∈ acts, ofScanner a = true) ∧ Run.exec step s acts = some s' ∧
    s'.stopChan.buf ≠ []

/-- A data handler that has failed and exited has stopped the stream, or is about to. -/
def Stops (s : State) : Prop :=
  s.handler = .exited false → s.main ≠ .select ∨ s.stopChan.buf ≠ [] ∨ CanSignal s

/-- The scanner is on its way to a token. -/
def ScannerPos.signals : ScannerPos → Bool
  | .check line => classify line = .done
  | .close | .wgDone | .stop => true
  | _ => false

/-- The pings do not take the token that would have ended the stream. -/
def keepsToken (s : State) : Act → Bool
  | .pingStop .stop =>
      s.handler ≠ .exited false || s.main ≠ .select || 1 < s.stopChan.buf.length ||
        s.scanner.signals
  | _ => true

/-- While the main loop is in its select, nothing is cancelled or closed. -/
structure Open (s : State) : Prop where
  cap : 0 < s.stopChan.cap
  ctx : s.main = .select → s.ctxDone = false
  closed : s.main = .select → s.stopChan.closed = false

section

variable {s s' : State}

/-! ## The way to a token -/

/-- The scanner reads on, and there is no token. -/
def Reading (s : State) : Prop :=
  s.stopChan.recv = none ∧ s.ctxDone = false ∧ s.scanner.signals = false

theorem reading_step {a : Act} (h : Reading s) (ha : ofScanner a = true) (hs : step s a = some s') :
    Reading s' := by
  obtain ⟨hrecv, hctx, hpos⟩ := h
  have hstopped : ∀ c, scannerStopped s c = none := by
    intro c
    cases c <;> simp [scannerStopped, State.takeStop, hrecv, hctx]
  cases a with
  | scannerCheck c =>
      simp only [step] at hs
      unfold scannerCheck at hs
      split at hs
      next line hline =>
        split at hs
        next =>
          cases hs
          rw [hline] at hpos
          rw [scannerLine]
          split
          next => exact ⟨hrecv, hctx, rfl⟩
          next => exact ⟨hrecv, hctx, rfl⟩
          next hdone => simp [ScannerPos.signals, hdone] at hpos
        next => cases hs
      next =>
        rw [hstopped] at hs
        cases hs
      next => cases hs
  | scannerSend c =>
      simp only [step] at hs
      unfold scannerSend at hs
      split at hs
      next =>
        obtain ⟨ch, -, rfl⟩ := Option.map_eq_some_iff.1 hs
        exact ⟨hrecv, hctx, rfl⟩
      next =>
        rw [hstopped] at hs
        cases hs
      next => cases hs
  | scannerLeave =>
      simp only [step, scannerLeave] at hs
      split at hs
      next hleave => rw [hleave] at hpos; cases hpos
      next hleave => rw [hleave] at hpos; cases hpos
      next hleave => rw [hleave] at hpos; cases hpos
      next => cases hs
  | _ => cases ha

theorem not_canSignal_of_reading (h : Reading s) : ¬ CanSignal s := by
  rintro ⟨acts, s', hacts, hs, hbuf⟩
  have hend : Reading s' :=
    Run.exec_invariant (fun s a s' hI ha hstep => reading_step hI ha hstep) h
      (Run.along_of_mem hacts s) hs
  exact hbuf (Chan.recv_eq_none_iff.1 hend.1).1

/-- One step of the scanner brings it nearer to the token. -/
theorem canSignal_of_step {a : Act} (ha : ofScanner a = true) (hs : step s a = some s')
    (h : CanSignal s') : CanSignal s := by
  obtain ⟨acts, t, hacts, ht, hbuf⟩ := h
  refine ⟨a :: acts, t, ?_, Run.exec_cons_eq_some.2 ⟨s', hs, ht⟩, hbuf⟩
  simpa [ha] using hacts

theorem canSignal_of_token (h : s.stopChan.buf ≠ []) : CanSignal s :=
  ⟨[], s, by simp, rfl, h⟩

theorem canSignal_stop (hcap : 0 < s.stopChan.cap) (hclosed : s.stopChan.closed = false)
    (hbuf : s.stopChan.buf = []) (hpos : s.scanner = .stop) : CanSignal s := by
  have hstep : step s .scannerLeave =
      some { s with stopChan := { s.stopChan with buf := [true] }, scanner := .exited } := by
    simp [step, scannerLeave, hpos, State.sendStop, Chan.safeSend, Chan.send, hclosed, hbuf, hcap]
  exact canSignal_of_step rfl hstep (canSignal_of_token (by simp))

theorem canSignal_close (hcap : 0 < s.stopChan.cap) (hclosed : s.stopChan.closed = false)
    (hbuf : s.stopChan.buf = []) (hpos : s.scanner = .close ∨ s.scanner = .wgDone) :
    CanSignal s := by
  have hdone : ∀ t : State, t.stopChan = s.stopChan → t.scanner = .wgDone → CanSignal t := by
    intro t ht htpos
    have hstep : step t .scannerLeave = some { t with scanner := .stop } := by
      simp [step, scannerLeave, htpos]
    exact canSignal_of_step rfl hstep (canSignal_stop (by rw [ht]; exact hcap)
      (by rw [ht]; exact hclosed) (by rw [ht]; exact hbuf) rfl)
  rcases hpos with hpos | hpos
  · have hstep : step s .scannerLeave =
        some { s with dataChan := s.dataChan.close, scanner := .wgDone } := by
      simp [step, scannerLeave, hpos]
    exact canSignal_of_step rfl hstep (hdone _ rfl rfl)
  · exact hdone s rfl hpos

/-- In its select with no token, the main loop depends on the position of the scanner. -/
theorem canSignal_iff (h : Open s) (hmain : s.main = .select) (hbuf : s.stopChan.buf = []) :
    CanSignal s ↔ s.scanner.signals = true := by
  have hctx := h.ctx hmain
  have hclosed := h.closed hmain
  have hrecv : s.stopChan.recv = none := Chan.recv_eq_none_iff.2 ⟨hbuf, hclosed⟩
  constructor
  · intro hcan
    by_contra hpos
    exact not_canSignal_of_reading ⟨hrecv, hctx, by simpa using hpos⟩ hcan
  · intro hpos
    cases hscanner : s.scanner with
    | scan => rw [hscanner] at hpos; cases hpos
    | send data => rw [hscanner] at hpos; cases hpos
    | exited => rw [hscanner] at hpos; cases hpos
    | close => exact canSignal_close h.cap hclosed hbuf (Or.inl hscanner)
    | wgDone => exact canSignal_close h.cap hclosed hbuf (Or.inr hscanner)
    | stop => exact canSignal_stop h.cap hclosed hbuf hscanner
    | check line =>
        rw [hscanner] at hpos
        have hline : classify line = .done := of_decide_eq_true hpos
        have hstep : step s (.scannerCheck .ready) = some s.scannerReturns := by
          simp [step, scannerCheck, hscanner, hrecv, hctx, scannerLine, hline]
        exact canSignal_of_step rfl hstep
          (canSignal_close (s := s.scannerReturns) h.cap hclosed hbuf (Or.inl rfl))

/-- `Stops` by the position of the scanner. -/
theorem stops_iff (h : Open s) :
    Stops s ↔ (s.handler = .exited false → s.main ≠ .select ∨ s.stopChan.buf ≠ [] ∨
      s.scanner.signals = true) := by
  by_cases hmain : s.main = .select
  · by_cases hbuf : s.stopChan.buf = []
    · rw [Stops, canSignal_iff h hmain hbuf]
    · simp [Stops, hbuf]
  · simp [Stops, hmain]

/-! ## Tokens -/

theorem takeStop_cases (h : s.takeStop = some s') :
    (∃ b bs, s.stopChan.buf = b :: bs ∧ s' = { s with stopChan := { s.stopChan with buf := bs } }) ∨
      s.stopChan.buf = [] ∧ s.stopChan.closed = true ∧ s' = s := by
  obtain ⟨r, hr, rfl⟩ := Option.map_eq_some_iff.1 h
  rcases Chan.recv_eq_some hr with ⟨b, bs, hbuf, rfl⟩ | ⟨hbuf, hclosed, rfl⟩
  · exact Or.inl ⟨b, bs, hbuf, rfl⟩
  · exact Or.inr ⟨hbuf, hclosed, rfl⟩

theorem sendStop_cases (h : s.sendStop = some s') :
    s.stopChan.closed = true ∧ s' = s ∨
      s.stopChan.closed = false ∧
        s' = { s with stopChan := { s.stopChan with buf := s.stopChan.buf ++ [true] } } := by
  obtain ⟨ch, hch, rfl⟩ := Option.map_eq_some_iff.1 h
  rcases Chan.safeSend_eq_some hch with ⟨hclosed, rfl⟩ | ⟨hclosed, rfl⟩
  · exact Or.inl ⟨hclosed, rfl⟩
  · exact Or.inr ⟨hclosed, rfl⟩

/-- A sent token is there, or the main loop has closed the channel. -/
theorem Open.sendStop (h : Open s) (hs : s.sendStop = some s') :
    Open s' ∧ (s'.main ≠ .select ∨ s'.stopChan.buf ≠ []) := by
  rcases sendStop_cases hs with ⟨hclosed, rfl⟩ | ⟨hclosed, rfl⟩
  · refine ⟨h, Or.inl ?_⟩
    intro hmain
    rw [h.closed hmain] at hclosed
    cases hclosed
  · exact ⟨⟨h.cap, h.ctx, h.closed⟩, Or.inr (by simp)⟩

theorem Open.takeStop (h : Open s) (hs : s.takeStop = some s') : Open s' := by
  rcases takeStop_cases hs with ⟨b, bs, -, rfl⟩ | ⟨-, -, rfl⟩
  · exact ⟨h.cap, h.ctx, h.closed⟩
  · exact h

/-! ## One step -/

/-- The parts of the state that `Stops` speaks of. -/
def stopsAt (handler : HandlerPos) (main : MainPos) (buf : List Bool) (scanner : ScannerPos) :
    Prop :=
  handler = .exited false → main ≠ .select ∨ buf ≠ [] ∨ scanner.signals = true

def StopsNow (s : State) : Prop := stopsAt s.handler s.main s.stopChan.buf s.scanner

theorem stopsNow_scannerStopped {c : Choice} (h : Open s) (hs : scannerStopped s c = some s') :
    Open s' ∧ StopsNow s' := by
  cases c with
  | ready => cases hs
  | stop =>
      obtain ⟨m, hm, rfl⟩ := Option.map_eq_some_iff.1 hs
      have hm' := h.takeStop hm
      exact ⟨⟨hm'.cap, hm'.ctx, hm'.closed⟩, fun _ => Or.inr (Or.inr rfl)⟩
  | ctx =>
      simp only [scannerStopped] at hs
      split at hs
      next =>
        cases hs
        exact ⟨⟨h.cap, h.ctx, h.closed⟩, fun _ => Or.inr (Or.inr rfl)⟩
      next => cases hs

/-- A scanner that is not on its way to a token may go anywhere. -/
theorem StopsNow.moveScanner (hst : StopsNow s) (hsig : s.scanner.signals = false)
    (pos : ScannerPos) : stopsAt s.handler s.main s.stopChan.buf pos := by
  intro hfail
  rcases hst hfail with hmain | hbuf | hpos
  · exact Or.inl hmain
  · exact Or.inr (Or.inl hbuf)
  · rw [hsig] at hpos
    cases hpos

theorem stopsNow_scan (h : Open s) (hs : scan s = some s') :
    Open s' ∧ (StopsNow s → StopsNow s') := by
  unfold scan at hs
  split at hs
  next hscan _ =>
    cases hs
    exact ⟨⟨h.cap, h.ctx, h.closed⟩, fun hst => hst.moveScanner (by rw [hscan]; rfl) _⟩
  next hscan _ =>
    cases hs
    exact ⟨⟨h.cap, h.ctx, h.closed⟩, fun hst => hst.moveScanner (by rw [hscan]; rfl) _⟩
  next => cases hs

theorem stopsNow_scannerCheck {c : Choice} (h : Open s) (hs : scannerCheck s c = some s') :
    Open s' ∧ (StopsNow s → StopsNow s') := by
  unfold scannerCheck at hs
  split at hs
  next line hpos =>
    split at hs
    next =>
      cases hs
      have hsig : classify line ≠ .done → s.scanner.signals = false := by
        intro hline
        rw [hpos]
        exact decide_eq_false hline
      rw [scannerLine]
      split
      next hline =>
        exact ⟨⟨h.cap, h.ctx, h.closed⟩, fun hst => hst.moveScanner (hsig (by simp [hline])) _⟩
      next hline =>
        exact ⟨⟨h.cap, h.ctx, h.closed⟩, fun hst => hst.moveScanner (hsig (by simp [hline])) _⟩
      next => exact ⟨⟨h.cap, h.ctx, h.closed⟩, fun _ _ => Or.inr (Or.inr rfl)⟩
    next => cases hs
  next =>
    obtain ⟨hopen, hnow⟩ := stopsNow_scannerStopped h hs
    exact ⟨hopen, fun _ => hnow⟩
  next => cases hs

theorem stopsNow_scannerSend {c : Choice} (h : Open s) (hs : scannerSend s c = some s') :
    Open s' ∧ (StopsNow s → StopsNow s') := by
  unfold scannerSend at hs
  split at hs
  next data hpos =>
    obtain ⟨ch, -, rfl⟩ := Option.map_eq_some_iff.1 hs
    exact ⟨⟨h.cap, h.ctx, h.closed⟩, fun hst => hst.moveScanner (by rw [hpos]; rfl) _⟩
  next =>
    obtain ⟨hopen, hnow⟩ := stopsNow_scannerStopped h hs
    exact ⟨hopen, fun _ => hnow⟩
  next => cases hs

theorem stopsNow_scannerLeave (h : Open s) (hs : scannerLeave s = some s') :
    Open s' ∧ StopsNow s' := by
  unfold scannerLeave at hs
  split at hs
  next =>
    cases hs
    exact ⟨⟨h.cap, h.ctx, h.closed⟩, fun _ => Or.inr (Or.inr rfl)⟩
  next =>
    cases hs
    exact ⟨⟨h.cap, h.ctx, h.closed⟩, fun _ => Or.inr (Or.inr rfl)⟩
  next =>
    obtain ⟨m, hm, rfl⟩ := Option.map_eq_some_iff.1 hs
    obtain ⟨hopen, hsent⟩ := h.sendStop hm
    exact ⟨⟨hopen.cap, hopen.ctx, hopen.closed⟩, fun _ => hsent.imp_right Or.inl⟩
  next => cases hs

theorem stopsNow_handlerLeave (h : Open s) (hs : handlerLeave s = some s') :
    Open s' ∧ StopsNow s' := by
  unfold handlerLeave at hs
  split at hs
  next =>
    cases hs
    exact ⟨⟨h.cap, h.ctx, h.closed⟩, fun hfail => by cases hfail⟩
  next =>
    obtain ⟨m, hm, rfl⟩ := Option.map_eq_some_iff.1 hs
    obtain ⟨hopen, hsent⟩ := h.sendStop hm
    exact ⟨⟨hopen.cap, hopen.ctx, hopen.closed⟩, fun _ => hsent.imp_right Or.inl⟩
  next => cases hs

/-- The data handler is in its loop. -/
theorem stopsNow_handlerLoop {a : Act}
    (ha : a = .handlerReceive ∨ a = .handlerLock ∨ (∃ b, a = .handlerCall b) ∨ a = .handlerUnlock)
    (h : Open s) (hs : step s a = some s') : Open s' ∧ StopsNow s' := by
  rcases ha with rfl | rfl | ⟨b, rfl⟩ | rfl
  · simp only [step, handlerReceive] at hs
    split at hs
    next =>
      obtain ⟨r, -, rfl⟩ := Option.map_eq_some_iff.1 hs
      refine ⟨⟨h.cap, h.ctx, h.closed⟩, fun hfail => ?_⟩
      dsimp only at hfail
      split at hfail <;> cases hfail
    next => cases hs
  · simp only [step] at hs
    unfold handlerLock at hs
    split at hs
    next =>
      cases hs
      exact ⟨⟨h.cap, h.ctx, h.closed⟩, fun hfail => by cases hfail⟩
    next => cases hs
  · simp only [step, handlerCall] at hs
    split at hs
    next =>
      cases hs
      exact ⟨⟨h.cap, h.ctx, h.closed⟩, fun hfail => by cases hfail⟩
    next => cases hs
  · simp only [step, handlerUnlock] at hs
    split at hs
    next =>
      cases hs
      refine ⟨⟨h.cap, h.ctx, h.closed⟩, fun hfail => ?_⟩
      dsimp only at hfail
      split at hfail <;> cases hfail
    next => cases hs

theorem stopsNow_ofPing {a : Act} (ha : ofPing a = true) (h : Open s) (hs : step s a = some s') :
    Open s' ∧ (StopsNow s → StopsNow s') := by
  obtain ⟨ping, pinger, m, rfl⟩ := step_ofPing ha hs
  exact ⟨⟨h.cap, h.ctx, h.closed⟩, fun hst => hst⟩

/-- Outside of the select there is nothing to show. -/
theorem stopsNow_of_left (hcap : 0 < s.stopChan.cap) (hmain : s.main ≠ .select) :
    Open s ∧ StopsNow s :=
  ⟨⟨hcap, fun h => absurd h hmain, fun h => absurd h hmain⟩, fun _ => Or.inl hmain⟩

theorem stopsNow_mainSelect {e : MainEvent} (h : Open s) (hs : mainSelect s e = some s') :
    Open s' ∧ (StopsNow s → StopsNow s') := by
  have hleft : ∀ t : State, 0 < t.stopChan.cap → t.main = .cancel →
      Open t ∧ (StopsNow s → StopsNow t) := by
    intro t hcap hmain
    obtain ⟨hopen, hnow⟩ := stopsNow_of_left hcap (by simp [hmain])
    exact ⟨hopen, fun _ => hnow⟩
  unfold mainSelect at hs
  split at hs
  next =>
    cases e with
    | ticker =>
        cases hs
        exact hleft _ h.cap rfl
    | stop =>
        obtain ⟨m, hm, rfl⟩ := Option.map_eq_some_iff.1 hs
        exact hleft _ (h.takeStop hm).cap rfl
    | drainDeadline =>
        dsimp only at hs
        split at hs <;> cases hs
        exact hleft _ h.cap rfl
    | client =>
        dsimp only at hs
        split at hs <;> cases hs
        exact ⟨⟨h.cap, h.ctx, h.closed⟩, fun hst => hst⟩
  next => cases hs

theorem stopsNow_mainLeave (h : Open s) (hs : mainLeave s = some s') : Open s' ∧ StopsNow s' := by
  unfold mainLeave at hs
  split at hs
  next =>
    cases hs
    exact stopsNow_of_left h.cap (by simp)
  next =>
    obtain ⟨m, hm, rfl⟩ := Option.map_eq_some_iff.1 hs
    exact stopsNow_of_left (h.sendStop hm).1.cap (by simp)
  next =>
    cases hs
    exact stopsNow_of_left h.cap (by simp)
  next => cases hs

theorem stopsNow_mainWait {expired : Bool} (h : Open s) (hs : mainWait s expired = some s') :
    Open s' ∧ StopsNow s' := by
  unfold mainWait at hs
  split at hs <;> cases hs
  exact stopsNow_of_left h.cap (by simp)

/-- The pings take a token: the stream is still stopped exactly if it was not the last one. -/
theorem stopsNow_pingStop_iff (h : Open s) (hs : pingStop s .stop = some s') :
    Open s' ∧ (StopsNow s' ↔ keepsToken s (.pingStop .stop) = true) := by
  unfold pingStop at hs
  split at hs
  next =>
    obtain ⟨m, hm, rfl⟩ := Option.map_eq_some_iff.1 hs
    have hopen := h.takeStop hm
    refine ⟨⟨hopen.cap, hopen.ctx, hopen.closed⟩, ?_⟩
    rcases takeStop_cases hm with ⟨b, bs, hbuf, rfl⟩ | ⟨hbuf, hclosed, rfl⟩
    · have hlen : bs ≠ [] ↔ 1 < (b :: bs).length := by
        cases bs <;> simp
      simp only [StopsNow, stopsAt, keepsToken, hlen, hbuf, ne_eq, decide_not, Bool.or_eq_true,
        Bool.not_eq_true', decide_eq_false_iff_not, decide_eq_true_eq, imp_iff_not_or, or_assoc]
    · -- a closed channel: the main loop has left its select
      have hmain : m.main ≠ .select := by
        intro hmain
        rw [h.closed hmain] at hclosed
        cases hclosed
      simp [StopsNow, stopsAt, keepsToken, hmain]
  next => cases hs

theorem stopsNow_step_iff {a : Act} (h : Open s) (hs : step s a = some s') :
    Open s' ∧ (StopsNow s → (StopsNow s' ↔ keepsToken s a = true)) := by
  by_cases ha : a = .pingStop .stop
  · subst ha
    obtain ⟨hopen, hiff⟩ := stopsNow_pingStop_iff h hs
    exact ⟨hopen, fun _ => hiff⟩
  · have hkeeps : keepsToken s a = true := by
      unfold keepsToken
      split
      next => exact absurd rfl ha
      next => rfl
    suffices hnow : Open s' ∧ (StopsNow s → StopsNow s') by
      exact ⟨hnow.1, fun hst => ⟨fun _ => hkeeps, fun _ => hnow.2 hst⟩⟩
    cases a with
    | scan => exact stopsNow_scan h hs
    | scannerCheck c => exact stopsNow_scannerCheck h hs
    | scannerSend c => exact stopsNow_scannerSend h hs
    | scannerLeave => exact (stopsNow_scannerLeave h hs).imp_right fun hnow _ => hnow
    | handlerReceive => exact (stopsNow_handlerLoop (by simp) h hs).imp_right fun hnow _ => hnow
    | handlerLock => exact (stopsNow_handlerLoop (by simp) h hs).imp_right fun hnow _ => hnow
    | handlerCall b => exact (stopsNow_handlerLoop (by simp) h hs).imp_right fun hnow _ => hnow
    | handlerUnlock => exact (stopsNow_handlerLoop (by simp) h hs).imp_right fun hnow _ => hnow
    | handlerLeave => exact (stopsNow_handlerLeave h hs).imp_right fun hnow _ => hnow
    | pingTick => exact stopsNow_ofPing rfl h hs
    | pingSent => exact stopsNow_ofPing rfl h hs
    | pingLeave => exact stopsNow_ofPing rfl h hs
    | pingerLock => exact stopsNow_ofPing rfl h hs
    | pingerWrite ok => exact stopsNow_ofPing rfl h hs
    | pingStop e =>
        have he : e ≠ .stop := fun he => ha (by rw [he])
        exact stopsNow_ofPing (by simpa [ofPing] using he) h hs
    | mainSelect e => exact stopsNow_mainSelect h hs
    | mainLeave => exact (stopsNow_mainLeave h hs).imp_right fun hnow _ => hnow
    | mainWait expired => exact (stopsNow_mainWait h hs).imp_right fun hnow _ => hnow

end

/-! ## Runs -/

theorem open_initial (pingEnabled : Bool) (body : List String) : Open (initial pingEnabled body) :=
  ⟨by simp [initial, Chan.make], fun _ => rfl, fun _ => rfl⟩

/-- In a run, a data handler that has failed has stopped the stream in every state, or is
about to, exactly if every step meets `keepsToken`. -/
theorem stops_iff_keeps (pingEnabled : Bool) (body : List String) (acts : List Act) (s : State)
    (h : Run.exec step (initial pingEnabled body) acts = some s) :
    Run.Always step Stops (initial pingEnabled body) acts ↔
      Run.Along step (fun s a => keepsToken s a = true) (initial pingEnabled body) acts := by
  have hopen : Run.Along step (fun s _ => Open s) (initial pingEnabled body) acts :=
    Run.Along.mono (P := fun _ _ => True) (fun _ _ hI _ => hI)
      (fun _ _ _ hI _ hs => (stopsNow_step_iff hI hs).1) (open_initial pingEnabled body)
      (Run.along_of_forall (fun _ _ => trivial) acts _)
  refine Run.always_iff_along ?_ acts _ s ?_ hopen h
  · intro s a s' hst hopen hs
    obtain ⟨hopen', hiff⟩ := stopsNow_step_iff hopen hs
    rw [stops_iff hopen']
    exact hiff ((stops_iff hopen).1 hst)
  · intro hfail
    cases hfail

/-! ## Two runs -/

/-- The data handler fails on the first payload and leaves its token. -/
def failing : List Act :=
  [.scan, .scannerCheck .ready, .scannerSend .ready, .handlerReceive, .handlerLock,
    .handlerCall false, .handlerUnlock, .handlerLeave, .handlerLeave]

theorem stops_failing :
    ∃ s, Run.exec step (initial true ["data: a"]) (failing ++ [.mainSelect .stop, .mainLeave]) =
        some s ∧
      s.handler = .exited false ∧
      Run.Always step Stops (initial true ["data: a"])
        (failing ++ [.mainSelect .stop, .mainLeave]) := by
  obtain ⟨s, hs, hend⟩ := Run.exists_of_any step (initial true ["data: a"])
    (failing ++ [.mainSelect .stop, .mainLeave]) (fun s => s.handler = .exited false)
    (by decide +kernel)
  exact ⟨s, hs, of_decide_eq_true hend, (stops_iff_keeps true _ _ s hs).2 (by decide +kernel)⟩

/-- The pings take the token, and the scanner waits for upstream. -/
theorem failing_not_stopped :
    ¬ ∀ (body : List String) (acts : List Act) (s : State),
      Run.exec step (initial true body) acts = some s → Stops s := by
  intro h
  obtain ⟨s, hs, hend⟩ := Run.exists_of_any step (initial true ["data: a"])
    (failing ++ [.pingStop .stop])
    (fun s => s.handler = .exited false ∧ s.main = .select ∧ s.stopChan = .make 3 ∧
      s.ctxDone = false ∧ s.scanner = .scan) (by decide +kernel)
  obtain ⟨hhandler, hmain, hstop, hctx, hscanner⟩ := of_decide_eq_true hend
  rcases h _ _ s hs hhandler with hleft | hbuf | hcan
  · exact hleft hmain
  · exact hbuf (by rw [hstop]; rfl)
  · exact not_canSignal_of_reading ⟨by rw [hstop]; rfl, hctx, by rw [hscanner]; rfl⟩ hcan

end DazeApi.Relay.Scanner
