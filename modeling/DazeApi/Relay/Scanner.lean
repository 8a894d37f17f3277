import DazeApi.Lib.Chan
import DazeApi.Lib.Run
import DazeApi.Lib.Text

/-!
# The stream scanner

`StreamScannerHandler` of `relay/helper/stream_scanner.go`.  One goroutine reads the lines
of the upstream body and puts the payloads among them into `dataChan`, one takes them out
and calls the data handler on each, and one sends pings.  The main loop waits for a token
in `stopChan`.  The scanner and the data handler send one when they exit, and so does the
main loop when it has left its select; the main loop, the scanner and the pings receive.

A goroutine is the position in its code.  A select is one step, and so is every statement
that another goroutine can see; which ready case a select takes is the label.  The body is
the list of lines that it yields before it ends, by its end or by an error.  `calls` is
what the data handler has been called on.
-/

namespace DazeApi.Relay.Scanner

/-! ## Lines -/

/-- What the scanner does with a line. -/
inductive Verdict where
  | skip
  | payload (data : String)
  | done
deriving DecidableEq, Repr

/-- The body of the loop of the scanner up to the send.  The five bytes that are cut are
characters, since the line begins with one of the two prefixes. -/
def classify (line : String) : Verdict :=
  if Text.byteLength line < 6 then .skip
  else if !Text.hasPrefix line "data:" && !Text.hasPrefix line "[DONE]" then .skip
  else
    let data := Text.trimSpace (String.ofList (line.toList.drop 5))
    if data = "" then .skip
    else if !Text.hasPrefix data "[DONE]" then .payload data
    else .done

/-- The payloads that the scanner accepts. -/
def accepted : List String → List String
  | [] => []
  | line :: lines =>
      match classify line with
      | .skip => accepted lines
      | .payload data => data :: accepted lines
      | .done => []

/-! ## Goroutines -/

inductive ScannerPos where
  | scan
  | check (line : String)
  | send (data : String)
  | close
  | wgDone
  | stop
  | exited
deriving DecidableEq, Repr

/-- The flag says that the data handler has returned true. -/
inductive HandlerPos where
  | recv
  | lock (data : String)
  | call (data : String)
  | unlock (success : Bool)
  | wgDone (success : Bool)
  | stop (success : Bool)
  | exited (success : Bool)
deriving DecidableEq, Repr

inductive PingPos where
  | wait
  | sending
  | wgDone
  | exited
deriving DecidableEq, Repr

/-- The goroutine that writes one ping; `sent` is what it has put into its channel. -/
inductive PingerPos where
  | idle
  | lock
  | write
  | sent (ok : Bool)
deriving DecidableEq, Repr

inductive MainPos where
  | select
  | cancel
  | stop
  | wait
  | close
  | returned
deriving DecidableEq, Repr

/-- The holder of `writeMutex`. -/
inductive Writer where
  | handler
  | pinger
deriving DecidableEq, Repr

structure State where
  lines : List String
  dataChan : Chan String
  stopChan : Chan Bool
  ctxDone : Bool
  writeMutex : Option Writer
  drainMode : Bool
  scanner : ScannerPos
  handler : HandlerPos
  ping : PingPos
  pinger : PingerPos
  main : MainPos
  calls : List String
deriving DecidableEq, Repr

/-- Without pings, their goroutine is not there. -/
def initial (pingEnabled : Bool) (lines : List String) : State where
  lines := lines
  dataChan := .make 10
  stopChan := .make 3
  ctxDone := false
  writeMutex := none
  drainMode := false
  scanner := .scan
  handler := .recv
  ping := if pingEnabled then .wait else .exited
  pinger := .idle
  main := .select
  calls := []

/-- The case of a select of the scanner: its own statement, or a reason to return. -/
inductive Choice where
  | ready
  | stop
  | ctx
deriving DecidableEq, Repr

/-- The events that end the pings. -/
inductive PingEvent where
  | stop
  | ctx
  | client
  | timeout
deriving DecidableEq, Repr

/-- The events of the main loop. -/
inductive MainEvent where
  | ticker
  | stop
  | drainDeadline
  | client
deriving DecidableEq, Repr

inductive Act where
  | scan
  | scannerCheck (c : Choice)
  | scannerSend (c : Choice)
  | scannerLeave
  | handlerReceive
  | handlerLock
  | handlerCall (success : Bool)
  | handlerUnlock
  | handlerLeave
  | pingTick
  | pingSent
  | pingStop (e : PingEvent)
  | pingLeave
  | pingerLock
  | pingerWrite (ok : Bool)
  | mainSelect (e : MainEvent)
  | mainLeave
  | mainWait (expired : Bool)
deriving DecidableEq, Repr

section

variable (s : State)

/-- A receive from `stopChan`. -/
def State.takeStop : Option State :=
  s.stopChan.recv.map fun r => { s with stopChan := r.2 }

/-- `SafeSendBool(stopChan, true)`. -/
def State.sendStop : Option State :=
  (s.stopChan.safeSend true).map fun c => { s with stopChan := c }

/-- The scanner returns: its deferred function follows. -/
def State.scannerReturns : State := { s with scanner := .close }

/-- A reason of the scanner to return. -/
def scannerStopped : Choice → Option State
  | .stop => s.takeStop.map State.scannerReturns
  | .ctx => if s.ctxDone then some s.scannerReturns else none
  | .ready => none

/-- `scanner.Scan()`. -/
def scan : Option State :=
  match s.scanner, s.lines with
  | .scan, line :: lines => some { s with lines := lines, scanner := .check line }
  | .scan, [] => some s.scannerReturns
  | _, _ => none

/-- What follows the select with a default. -/
def scannerLine (line : String) : State :=
  match classify line with
  | .skip => { s with scanner := .scan }
  | .payload data => { s with scanner := .send data }
  | .done => s.scannerReturns

/-- The select with a default, which is taken when nothing else is ready. -/
def scannerCheck (c : Choice) : Option State :=
  match s.scanner, c with
  | .check line, .ready =>
      if s.stopChan.recv = none ∧ s.ctxDone = false then some (scannerLine s line) else none
  | .check _, c => scannerStopped s c
  | _, _ => none

/-- The select around the send. -/
def scannerSend (c : Choice) : Option State :=
  match s.scanner, c with
  | .send data, .ready =>
      (s.dataChan.send data).map fun ch => { s with dataChan := ch, scanner := .scan }
  | .send _, c => scannerStopped s c
  | _, _ => none

/-- The deferred function of the scanner. -/
def scannerLeave : Option State :=
  match s.scanner with
  | .close => some { s with dataChan := s.dataChan.close, scanner := .wgDone }
  | .wgDone => some { s with scanner := .stop }
  | .stop => s.sendStop.map fun s => { s with scanner := .exited }
  | _ => none

/-- `range dataChan`. -/
def handlerReceive : Option State :=
  match s.handler with
  | .recv =>
      s.dataChan.recv.map fun r =>
        { s with
          dataChan := r.2
          handler := match r.1 with
            | some data => .lock data
            | none => .wgDone true }
  | _ => none

def handlerLock : Option State :=
  match s.handler, s.writeMutex with
  | .lock data, none => some { s with writeMutex := some .handler, handler := .call data }
  | _, _ => none

/-- The call of the data handler. -/
def handlerCall (success : Bool) : Option State :=
  match s.handler with
  | .call data => some { s with handler := .unlock success, calls := s.calls ++ [data] }
  | _ => none

def handlerUnlock : Option State :=
  match s.handler with
  | .unlock success =>
      some { s with writeMutex := none, handler := if success then .recv else .wgDone false }
  | _ => none

/-- The deferred function of the data handler goroutine. -/
def handlerLeave : Option State :=
  match s.handler with
  | .wgDone success => some { s with handler := .stop success }
  | .stop success => s.sendStop.map fun s => { s with handler := .exited success }
  | _ => none

/-- A tick of the pings starts a goroutine that writes one. -/
def pingTick : Option State :=
  match s.ping with
  | .wait => some { s with ping := .sending, pinger := .lock }
  | _ => none

/-- The ping was sent, or could not be. -/
def pingSent : Option State :=
  match s.ping, s.pinger with
  | .sending, .sent ok => some { s with pinger := .idle, ping := if ok then .wait else .wgDone }
  | _, _ => none

/-- The pings end.  They receive a token like any other and do not pass it on. -/
def pingStop (e : PingEvent) : Option State :=
  if s.ping = .wait ∨ s.ping = .sending ∧ e ≠ .client then
    match e with
    | .stop => s.takeStop.map fun s => { s with ping := .wgDone }
    | .ctx => if s.ctxDone then some { s with ping := .wgDone } else none
    | _ => some { s with ping := .wgDone }
  else none

def pingLeave : Option State :=
  match s.ping with
  | .wgDone => some { s with ping := .exited }
  | _ => none

def pingerLock : Option State :=
  match s.pinger, s.writeMutex with
  | .lock, none => some { s with writeMutex := some .pinger, pinger := .write }
  | _, _ => none

/-- `done <- PingData(c)`, and the unlock. -/
def pingerWrite (ok : Bool) : Option State :=
  match s.pinger with
  | .write => some { s with writeMutex := none, pinger := .sent ok }
  | _ => none

/-- The select of the main loop. -/
def mainSelect (e : MainEvent) : Option State :=
  if s.main = .select then
    match e with
    | .ticker => some { s with main := .cancel }
    | .stop => s.takeStop.map fun s => { s with main := .cancel }
    | .drainDeadline => if s.drainMode then some { s with main := .cancel } else none
    | .client => if s.drainMode then none else some { s with drainMode := true }
  else none

/-- The deferred functions of the main loop: `cancel()`, the token, and `close(stopChan)`
after the wait. -/
def mainLeave : Option State :=
  match s.main with
  | .cancel => some { s with ctxDone := true, main := .stop }
  | .stop => s.sendStop.map fun s => { s with main := .wait }
  | .close => some { s with stopChan := s.stopChan.close, main := .returned }
  | _ => none

/-- `wg.Wait()` returns. -/
def State.waited : Bool :=
  (match s.scanner with
    | .stop | .exited => true
    | _ => false) &&
  (match s.handler with
    | .stop _ | .exited _ => true
    | _ => false) &&
  s.ping = .exited

/-- The wait for the goroutines, which may expire. -/
def mainWait (expired : Bool) : Option State :=
  if s.main = .wait ∧ (expired = true ∨ s.waited = true) then some { s with main := .close }
  else none

def step : Act → Option State
  | .scan => Scanner.scan s
  | .scannerCheck c => Scanner.scannerCheck s c
  | .scannerSend c => Scanner.scannerSend s c
  | .scannerLeave => Scanner.scannerLeave s
  | .handlerReceive => Scanner.handlerReceive s
  | .handlerLock => Scanner.handlerLock s
  | .handlerCall success => Scanner.handlerCall s success
  | .handlerUnlock => Scanner.handlerUnlock s
  | .handlerLeave => Scanner.handlerLeave s
  | .pingTick => Scanner.pingTick s
  | .pingSent => Scanner.pingSent s
  | .pingStop e => Scanner.pingStop s e
  | .pingLeave => Scanner.pingLeave s
  | .pingerLock => Scanner.pingerLock s
  | .pingerWrite ok => Scanner.pingerWrite s ok
  | .mainSelect e => Scanner.mainSelect s e
  | .mainLeave => Scanner.mainLeave s
  | .mainWait expired => Scanner.mainWait s expired

end

/-! ## The pings -/

/-- The steps of the pings, but for the receipt of a token. -/
def ofPing : Act → Bool
  | .pingTick | .pingSent | .pingLeave | .pingerLock | .pingerWrite _ => true
  | .pingStop e => e ≠ .stop
  | _ => false

/-- The pings reach no other goroutine but through `stopChan` and `writeMutex`. -/
theorem step_ofPing {s s' : State} {a : Act} (ha : ofPing a = true) (hs : step s a = some s') :
    ∃ ping pinger m, s' = { s with ping := ping, pinger := pinger, writeMutex := m } := by
  cases a with
  | pingTick =>
      simp only [step, pingTick] at hs
      split at hs <;> cases hs
      exact ⟨_, _, _, rfl⟩
  | pingSent =>
      simp only [step] at hs
      unfold pingSent at hs
      split at hs <;> cases hs
      exact ⟨_, _, _, rfl⟩
  | pingLeave =>
      simp only [step, pingLeave] at hs
      split at hs <;> cases hs
      exact ⟨_, _, _, rfl⟩
  | pingerLock =>
      simp only [step] at hs
      unfold pingerLock at hs
      split at hs <;> cases hs
      exact ⟨_, _, _, rfl⟩
  | pingerWrite ok =>
      simp only [step, pingerWrite] at hs
      split at hs <;> cases hs
      exact ⟨_, _, _, rfl⟩
  | pingStop e =>
      simp only [step] at hs
      unfold pingStop at hs
      split at hs
      next =>
        cases e with
        | stop => cases ha
        | ctx =>
            dsimp only at hs
            split at hs <;> cases hs
            exact ⟨_, _, _, rfl⟩
        | client =>
            cases hs
            exact ⟨_, _, _, rfl⟩
        | timeout =>
            cases hs
            exact ⟨_, _, _, rfl⟩
      next => cases hs
  | _ => cases ha

end DazeApi.Relay.Scanner
