import DazeApi.Billing.Atomic
import DazeApi.Lib.Pool
import DazeApi.Lib.Run
import DazeApi.Quota.Text
import DazeApi.Realtime.Session
import DazeApi.Relay.Loop

/-!
# Requests and their ledgers

The requests of one user from `Relay` (`controller/relay.go`) to the last write: the pre-charge,
the passes of the retry loop, `PostTextConsumeQuota` (`service/text_quota.go`) with
`SettleBilling` (`service/billing.go`) after the attempt that succeeds, and the deferred `Refund`
after one that does not.  Any number of requests run at a time.

The ledgers are the wallet, the remaining quota of the tokens, the used quota and the request
count of the user, the used quota of the channels, and the log.  All updates of a balance add or
subtract, so the two of a pre-charge or of a settlement are one step here.  The log is taken to be
enabled.
-/

namespace DazeApi.Billing.Requests

open DazeApi.Relay (Attempt Loop pass getChannel)

/-! ## The ledgers -/

/-- A row that `RecordConsumeLog` writes, and whether its token was charged. -/
structure Log where
  tokenId : Nat
  isPlayground : Bool
  channelId : Int
  quota : Int
deriving DecidableEq, Repr

structure Ledgers where
  wallet : Int
  tokens : Nat → Int
  usedQuota : Int
  requestCount : Int
  channels : Int → Int
  logs : List Log

/-- The two balances that a request of the token sees. -/
def Ledgers.accounts (l : Ledgers) (tokenId : Nat) : Accounts := ⟨l.wallet, l.tokens tokenId⟩

def Ledgers.setAccounts (l : Ledgers) (tokenId : Nat) (acc : Accounts) : Ledgers :=
  { l with wallet := acc.wallet, tokens := Function.update l.tokens tokenId acc.token }

/-- `UpdateUserUsedQuotaAndRequestCount` and `UpdateChannelUsedQuota`. -/
def Ledgers.count (l : Ledgers) (channelId quota : Int) : Ledgers :=
  { l with
    usedQuota := l.usedQuota + quota
    requestCount := l.requestCount + 1
    channels := Function.update l.channels channelId (l.channels channelId + quota) }

/-! ## Requests -/

/-- What is fixed for a request before its pre-charge. -/
structure Request where
  billing : BillingEnv
  info : RelayInfo
  tokenId : Nat
  freeModel : Bool
  quotaToPreConsume : Int
  relay : Relay.Request
  /-- What the distributor has left in the context. -/
  autoGroupIndex : Option Nat

/-- What the handler of a successful attempt gives to `PostTextConsumeQuota`. -/
structure Consumption where
  env : Quota.Env
  ctx : Quota.Ctx
  info : Quota.RelayInfo
  usage : Option Quota.Usage

def Consumption.quota (c : Consumption) : Int :=
  (Quota.calculateTextQuotaSummary c.env c.ctx c.info c.usage).1.quotaMicrodollars

/-- Where a request is.  A channel is named by its id. -/
inductive Proc where
  | loop (session : Option BillingSession) (loop : Loop)
  | count (session : Option BillingSession) (channelId : Int) (c : Consumption)
  | settle (session : Option BillingSession) (channelId quota : Int)
  | log (channelId quota : Int)
  | refund (job : RefundJob)
  | ended (log : Option Log)

structure Exec where
  request : Request
  proc : Proc

/-- The pre-charge, which a free model does without. -/
def begin (r : Request) (l : Ledgers) (io : PreConsumeCalls) : Ledgers × Proc :=
  if r.freeModel then (l, .loop none (Loop.start r.autoGroupIndex))
  else
    match newBillingSession r.billing r.info r.quotaToPreConsume (l.accounts r.tokenId) io with
    | (acc, .error _) => (l.setAccounts r.tokenId acc, .ended none)
    | (acc, .ok session) =>
        (l.setAccounts r.tokenId acc, .loop (some session) (Loop.start r.autoGroupIndex))

/-- The deferred function after an error. -/
def failed (session : Option BillingSession) : Proc :=
  match session.bind fun s => s.refund.2 with
  | none => .ended none
  | some job => .refund job

/-- A pass of the retry loop, and what comes after it. -/
def passProc (r : Request) (session : Option BillingSession) (loop : Loop) (a : Attempt Int)
    (c : Consumption) : Option Proc :=
  (pass r.relay loop a).map fun loop' =>
    if !loop'.returned then .loop session loop'
    else
      match loop'.newAPIError, (getChannel r.relay loop a).1 with
      | none, .ok channelId => .count session channelId c
      | none, .error _ => .ended none
      | some _, _ => failed session

/-- The end of the loop by its condition. -/
def leaveProc (r : Request) (session : Option BillingSession) (loop : Loop) : Option Proc :=
  if !loop.returned && loop.search.param.retry > r.relay.retryTimes then
    some (if loop.newAPIError.isSome then failed session else .ended none)
  else none

/-- `SettleBilling`: the balances and the error. -/
def settleBilling (isPlayground : Bool) (session : Option BillingSession) (acc : Accounts)
    (actualQuota : Int) (io : SettleCalls) : Accounts × StoreErr :=
  match session with
  | some s => (s.settle acc actualQuota io).2
  | none =>
      -- `FinalPreConsumedQuota` has not been set
      let quotaDelta := actualQuota - 0
      if quotaDelta ≠ 0 then
        Realtime.postConsumeQuota isPlayground acc quotaDelta io.fundingErr io.tokenErr
      else (acc, none)

/-! ## The system -/

/-- `failed` says that a store has refused a write that the code then gives up. -/
structure State where
  ledgers : Ledgers
  execs : List Exec
  failed : Bool

def initial (before : Ledgers) : State := ⟨{ before with logs := [] }, [], false⟩

inductive Act where
  | start (r : Request) (io : PreConsumeCalls)
  | pass (i : Nat) (a : Attempt Int) (c : Consumption)
  | leave (i : Nat)
  | count (i : Nat)
  | settle (i : Nat) (io : SettleCalls)
  | log (i : Nat)
  | refundFunding (i : Nat) (err : StoreErr)
  | refundToken (i : Nat) (err : StoreErr)

def State.goto (s : State) (i : Nat) (e : Exec) (p : Proc) : State :=
  { s with execs := s.execs.set i { e with proc := p } }

/-- A refund of one balance, whose error is only logged. -/
def State.refunded (s : State) (tokenId : Nat) (r : Except String Accounts) : State :=
  match r with
  | .ok acc => { s with ledgers := s.ledgers.setAccounts tokenId acc }
  | .error _ => { s with failed := true }

/-- The step of a request that has been started. -/
def stepExec (s : State) (i : Nat) (e : Exec) : Act → Option State
  | .pass _ a c =>
      match e.proc with
      | .loop session loop => (passProc e.request session loop a c).map (s.goto i e)
      | _ => none
  | .leave _ =>
      match e.proc with
      | .loop session loop => (leaveProc e.request session loop).map (s.goto i e)
      | _ => none
  | .count _ =>
      match e.proc with
      | .count session channelId c =>
          let s := s.goto i e (.settle session channelId c.quota)
          if !Quota.validUsage c.usage then some s
          else if c.quota ≠ 0 then some { s with ledgers := s.ledgers.count channelId c.quota }
          else some s
      | _ => none
  | .settle _ io =>
      match e.proc with
      | .settle session channelId quota =>
          let r := settleBilling e.request.info.isPlayground session
            (s.ledgers.accounts e.request.tokenId) quota io
          let s := s.goto i e (.log channelId quota)
          some { s with
            ledgers := s.ledgers.setAccounts e.request.tokenId r.1
            failed := s.failed || r.2.isSome }
      | _ => none
  | .log _ =>
      match e.proc with
      | .log channelId quota =>
          let log := ⟨e.request.tokenId, e.request.info.isPlayground, channelId, quota⟩
          let s := s.goto i e (.ended (some log))
          some { s with ledgers := { s.ledgers with logs := s.ledgers.logs ++ [log] } }
      | _ => none
  | .refundFunding _ err =>
      match e.proc with
      | .refund (.funding consumed tokenConsumed isPlayground) =>
          let s := s.goto i e (.refund (.token tokenConsumed isPlayground))
          some (s.refunded e.request.tokenId
            (fundingRefund (s.ledgers.accounts e.request.tokenId) consumed err))
      | _ => none
  | .refundToken _ err =>
      match e.proc with
      | .refund (.token tokenConsumed isPlayground) =>
          let s := s.goto i e (.ended none)
          some (s.refunded e.request.tokenId
            (tokenRefund (s.ledgers.accounts e.request.tokenId) tokenConsumed isPlayground err))
      | _ => none
  | .start _ _ => none

/-- The request that a step belongs to. -/
def Act.index : Act → Option Nat
  | .start _ _ => none
  | .pass i _ _ | .leave i | .count i | .settle i _ | .log i | .refundFunding i _
  | .refundToken i _ => some i

def step (s : State) (a : Act) : Option State :=
  match a with
  | .start r io =>
      let b := begin r s.ledgers io
      some { s with
        ledgers := b.1
        execs := s.execs ++ [⟨r, b.2⟩]
        failed := s.failed || io.rollbackErr.isSome }
  | a =>
      match a.index with
      | none => none
      | some i =>
          match s.execs[i]? with
          | none => none
          | some e => stepExec s i e a

end DazeApi.Billing.Requests
