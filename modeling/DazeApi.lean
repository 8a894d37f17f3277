import DazeApi.Lib.Run
import DazeApi.Lib.RoundRobin
import DazeApi.Lib.Pool
import DazeApi.Lib.Mutex
import DazeApi.Lib.Chan
import DazeApi.Lib.Text
import DazeApi.Lib.Sql
import DazeApi.Lib.Table
import DazeApi.Lib.Positions
import DazeApi.Lib.Rounding
import DazeApi.Lib.Threshold
import DazeApi.Types.Error
import DazeApi.Tasks.Row
import DazeApi.Tasks.Billing
import DazeApi.Tasks.Polling
import DazeApi.Tasks.System
import DazeApi.Tasks.Cas
import DazeApi.Tasks.TerminalBilling
import DazeApi.Batch.Update
import DazeApi.Batch.Conservation
import DazeApi.Batch.SameTable
import DazeApi.Billing.Session
import DazeApi.Billing.Lifecycle
import DazeApi.Billing.PreConsume
import DazeApi.Billing.Overdraft
import DazeApi.Payment.Order
import DazeApi.Payment.CreditOnce
import DazeApi.Payment.Callback
import DazeApi.Realtime.Session
import DazeApi.Realtime.Accounting
import DazeApi.Relay.Retry
import DazeApi.Relay.Stream
import DazeApi.Relay.Loop
import DazeApi.Relay.OneResponse
import DazeApi.Relay.Scanner
import DazeApi.Relay.Delivery
import DazeApi.Relay.StopToken
import DazeApi.Users.Rebuild
import DazeApi.Users.Exact
import DazeApi.Users.Writers
import DazeApi.Users.Coherence
import DazeApi.Channels.Row
import DazeApi.Channels.Index
import DazeApi.Channels.Update
import DazeApi.Channels.Abilities
import DazeApi.Channels.MultiKey
import DazeApi.Channels.Represents
import DazeApi.Channels.Keyring
import DazeApi.Channels.Polling
import DazeApi.Channels.Lock
import DazeApi.Channels.Turns
import DazeApi.Channels.StatusSync
import DazeApi.Channels.Revive
import DazeApi.Channels.Covered
import DazeApi.Relay.Override
import DazeApi.Relay.Headers
import DazeApi.Relay.Isolation
import DazeApi.Convert.Chat
import DazeApi.Convert.OpenAI2Claude
import DazeApi.Convert.ClaudeEvents
import DazeApi.Convert.Lossless
import DazeApi.Convert.Transcript
import DazeApi.Convert.Claude2OpenAI
import DazeApi.Convert.ClaudeAgreement
import DazeApi.Convert.Gemini
import DazeApi.Convert.GeminiParts
import DazeApi.Convert.GeminiStream
import DazeApi.Convert.GeminiTexts
import DazeApi.Convert.GeminiCalls
import DazeApi.Convert.GeminiAgreement
import DazeApi.Lib.Window
import DazeApi.RateLimit.Limiter
import DazeApi.RateLimit.Agreement
import DazeApi.Lib.Draw
import DazeApi.Lib.Levels
import DazeApi.Channels.Selection
import DazeApi.Channels.SameSelection
import DazeApi.Relay.Search
import DazeApi.Convert.Responses
import DazeApi.Convert.ResponsesStream
import DazeApi.Convert.ResponsesSteps
import DazeApi.Convert.ResponsesScan
import DazeApi.Convert.ResponsesAgreement
import DazeApi.Payment.OrderLocks
import DazeApi.Billing.Atomic
import DazeApi.Tasks.TokenSettlement
import DazeApi.Tasks.StoredQuota
import DazeApi.Lib.Scaling
import DazeApi.Relay.TaskSubmit
import DazeApi.Relay.TaskRatios
import DazeApi.Relay.TaskCharge
import DazeApi.Tasks.SunoPoll
import DazeApi.Tasks.VideoRound
import DazeApi.Quota.Text
import DazeApi.Quota.Classes
import DazeApi.Quota.BilledOnce
import DazeApi.Quota.ClaudeViews
import DazeApi.Quota.Tiers
import DazeApi.Quota.OpenRouter
import DazeApi.Quota.PriceHelper
import DazeApi.Quota.FreeModel
import DazeApi.Quota.GeminiUsage
import DazeApi.Quota.ResponsesUsage
import DazeApi.Quota.ToolCalls
import DazeApi.Lib.Decimal
import DazeApi.Lib.Json
import DazeApi.Lib.GoJson
import DazeApi.Config.SaveLoad
import DazeApi.Channels.Proportional
import DazeApi.Lib.Chain
import DazeApi.Relay.ModelMapping
import DazeApi.Channels.Clawd
import DazeApi.Lib.Names
import DazeApi.Channels.UpstreamSync
import DazeApi.Lib.Heads
import DazeApi.Lib.Glob
import DazeApi.Channels.Affinity
import DazeApi.Lib.JsonPath
import DazeApi.Overrides.NegativeIndex
import DazeApi.Overrides.Wildcard
import DazeApi.Overrides.WildcardPlaces
import DazeApi.Overrides.WildcardAgreement
import DazeApi.Convert.ChatRequest
import DazeApi.Convert.ThinkToContent
import DazeApi.Convert.MarkdownImages
import DazeApi.Convert.Gemini2OpenAI
import DazeApi.Lib.Pieces
import DazeApi.Convert.ClaudeRequest
import DazeApi.Convert.ResponsesRequest
import DazeApi.Lib.Runs
import DazeApi.Convert.OpenAI2ClaudeRequest
import DazeApi.Lib.Failing
import DazeApi.Convert.Panics
import DazeApi.Lib.Assoc
import DazeApi.Overrides.HeaderPassthrough
import DazeApi.Overrides.PruneObjects
import DazeApi.Overrides.ParamOverride
import DazeApi.Overrides.Instructions
import DazeApi.Overrides.Untouched
import DazeApi.Overrides.SyncFields
import DazeApi.Lib.JsonDecode
import DazeApi.Lib.JsonWrite
import DazeApi.Lib.JsonDelete
import DazeApi.Overrides.Relocation
import DazeApi.Channels.RetryLevels
import DazeApi.RateLimit.Memory
import DazeApi.RateLimit.TokenBucket
import DazeApi.RateLimit.RedisWindow
import DazeApi.Relay.SseLines
import DazeApi.Relay.OaiStream
import DazeApi.Config.Ssrf
import DazeApi.Config.StatusCodes
import DazeApi.Users.AdminPermission
import DazeApi.Users.WhitelistAppend
import DazeApi.Convert.GeminiSchema
import DazeApi.Lib.Lines
import DazeApi.Relay.EventWire
import DazeApi.Relay.RelayChain
import DazeApi.Billing.Requests
import DazeApi.Billing.LedgerAgreement
import DazeApi.Users.Privileges
import DazeApi.Users.RootsStay
import DazeApi.Lib.Like
import DazeApi.Users.TokenSearch
import DazeApi.Body.Storage
import DazeApi.Body.Attempts
import DazeApi.Body.DiskStats
import DazeApi.Channels.EventBus
import DazeApi.Logs.AsyncWriter
import DazeApi.Logs.QuotaData
import DazeApi.Lib.Expiring
import DazeApi.Users.Verification
import DazeApi.Users.CodesUsedOnce
import DazeApi.Convert.OpenAI2Gemini
import DazeApi.Convert.GeminiClient
import DazeApi.Channels.Distributor
import DazeApi.Channels.Stickiness
