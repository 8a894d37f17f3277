import DazeApi.Types.Error
import Mathlib.Data.List.AList

/-!
# Parameter overrides

The part of `relay/common/override.go` that reads and writes headers: the header
map of a channel, the operations on it, and `ApplyParamOverride` around them.

A header map holds the text that `%v` gives for a value, since no value of it is
read in any other way.  An operation is given in its decoded form.  What the
operations do to the request body goes through `gjson` and `sjson` and is a
parameter, `Engine`; it may read the whole context, as conditions do.
-/

namespace DazeApi.Relay

open DazeApi.Types

/-! ## Header maps -/

/-- A map from header names to texts. -/
abbrev Headers := AList fun _ : String => String

/-- `normalizeHeaderContextKey`. -/
def normalizeHeaderContextKey (key : String) : String := Text.trimSpace (Text.toLower key)

/-- `isHeaderPassthroughRuleKeyForOverride`. -/
def isHeaderPassthroughRuleKeyForOverride (key : String) : Bool :=
  let key := Text.trimSpace (Text.toLower key)
  if key = "" then false
  else if key = "*" then true
  else Text.hasPrefix key "re:" || Text.hasPrefix key "regex:"

/-- One entry of `sanitizeHeaderOverrideMap`. -/
def sanitizeEntry (target : Headers) (key value : String) : Headers :=
  let normalizedKey := normalizeHeaderContextKey key
  let normalizedValue := Text.trimSpace value
  if normalizedKey = "" then target
  else if normalizedValue = "" then
    if isHeaderPassthroughRuleKeyForOverride normalizedKey then target.insert normalizedKey ""
    else target
  else target.insert normalizedKey normalizedValue

/-- `sanitizeHeaderOverrideMap`. -/
def sanitizeHeaderOverrideMap (source : Headers) : Headers :=
  source.entries.foldl (fun target e => sanitizeEntry target e.1 e.2) ∅

/-- `buildRequestHeadersContext`. -/
def buildRequestHeadersContext (headers : Headers) : Headers :=
  headers.entries.foldl
    (fun target e =>
      let normalized := normalizeHeaderContextKey e.1
      let value := Text.trimSpace e.2
      if normalized = "" ∨ value = "" then target else target.insert normalized value)
    ∅

/-! ## The context of an override -/

/-- `BuildParamOverrideContext`: what conditions and operations read. -/
structure Context where
  model : String
  upstreamModel : String
  originalModel : String
  requestPath : String
  requestHeaders : Headers
  headerOverride : Headers
  retryIndex : Int
  lastError : Option NewAPIError
  isChannelTest : Bool
deriving DecidableEq

/-- `getHeaderValueFromContext`: an overridden header before one of the client. -/
def getHeaderValueFromContext (ctx : Context) (headerName : String) : Option String :=
  let name := normalizeHeaderContextKey headerName
  let value (source : Headers) := ((source.lookup name).map Text.trimSpace).filter (· ≠ "")
  if name = "" then none else (value ctx.headerOverride).or (value ctx.requestHeaders)

/-- A mapping of header tokens: `parseHeaderReplacementTokens` of each value, and
`$keep_only_declared`. -/
structure HeaderMapping where
  entries : AList fun _ : String => Except String (List String)
  keepOnlyDeclared : Bool

/-- The value of a `set_header` operation. -/
inductive HeaderValue where
  | missing
  | text (v : String)
  | mapping (m : HeaderMapping)

/-- `splitHeaderListValue`. -/
def splitHeaderListValue (raw : String) : List String :=
  ((Text.splitAt raw ',').map Text.trimSpace).filter (· ≠ "")

/-- The loop of `resolveHeaderOverrideValueByMapping` over the tokens of the header. -/
def replaceTokens (m : HeaderMapping) : List String → Except String (List String)
  | [] => .ok []
  | token :: tokens => do
      let replacement :=
        (m.entries.lookup token).or
          (if m.keepOnlyDeclared then none else m.entries.lookup "*")
      let here ←
        match replacement with
        | some r => r
        | none => if m.keepOnlyDeclared then .ok [] else .ok [token]
      let rest ← replaceTokens m tokens
      return here ++ rest

/-- `resolveHeaderOverrideValueByMapping`. -/
def resolveHeaderOverrideValueByMapping (ctx : Context) (headerName : String)
    (m : HeaderMapping) : Except String (Option String) := do
  if m.entries.keys = [] then .error "header value mapping cannot be empty"
  else
    let appendTokens ← (m.entries.lookup "$append").getD (.ok [])
    let sourceTokens :=
      ((getHeaderValueFromContext ctx headerName).map splitHeaderListValue).getD []
    let resultTokens ← replaceTokens m sourceTokens
    match (resultTokens ++ appendTokens).eraseDups with
    | [] => return none
    | tokens => return some (",".intercalate tokens)

/-- `resolveHeaderOverrideValue`. -/
def resolveHeaderOverrideValue (ctx : Context) (headerName : String) :
    HeaderValue → Except String (Option String)
  | .missing => .error "header value is required"
  | .mapping m => resolveHeaderOverrideValueByMapping ctx headerName m
  | .text v => .ok (if Text.trimSpace v = "" then none else some (Text.trimSpace v))

/-- `setHeaderOverrideInContext`. -/
def setHeaderOverrideInContext (ctx : Context) (headerName : String) (value : HeaderValue)
    (keepOrigin : Bool) : Except String Context := do
  let name := normalizeHeaderContextKey headerName
  if name = "" then .error "header name is required"
  else if keepOrigin ∧ Text.trimSpace ((ctx.headerOverride.lookup name).getD "") ≠ "" then
    return ctx
  else
    match ← resolveHeaderOverrideValue ctx name value with
    | none => return { ctx with headerOverride := ctx.headerOverride.erase name }
    | some v => return { ctx with headerOverride := ctx.headerOverride.insert name v }

/-- `deleteHeaderOverrideInContext`. -/
def deleteHeaderOverrideInContext (ctx : Context) (headerName : String) : Except String Context :=
  let name := normalizeHeaderContextKey headerName
  if name = "" then .error "header name is required"
  else .ok { ctx with headerOverride := ctx.headerOverride.erase name }

/-- `copyHeaderInContext`, with `errSourceHeaderNotFound` as no result: its callers
ignore that error. -/
def copyHeaderInContext (ctx : Context) (fromHeader toHeader : String) (keepOrigin : Bool) :
    Except String (Option Context) := do
  let source := normalizeHeaderContextKey fromHeader
  let target := normalizeHeaderContextKey toHeader
  if source = "" ∨ target = "" then .error "copy_header from/to is required"
  else
    match getHeaderValueFromContext ctx source with
    | none => return none
    | some v => return some (← setHeaderOverrideInContext ctx target (.text v) keepOrigin)

/-- `moveHeaderInContext`. -/
def moveHeaderInContext (ctx : Context) (fromHeader toHeader : String) (keepOrigin : Bool) :
    Except String (Option Context) := do
  let source := normalizeHeaderContextKey fromHeader
  let target := normalizeHeaderContextKey toHeader
  if source = "" ∨ target = "" then .error "move_header from/to is required"
  else
    match ← copyHeaderInContext ctx source target keepOrigin with
    | none => return none
    | some ctx' =>
        if source = target then return some ctx'
        else return some (← deleteHeaderOverrideInContext ctx' source)

/-- The loop of `pass_headers`. -/
def passHeaders (keepOrigin : Bool) : List String → Context → Except String Context
  | [], ctx => .ok ctx
  | name :: names, ctx => do
      let ctx' ← copyHeaderInContext ctx name name keepOrigin
      passHeaders keepOrigin names (ctx'.getD ctx)

/-! ## Operations -/

/-- `syncTarget`. -/
inductive SyncTarget where
  | json (path : String)
  | header (name : String)
deriving DecidableEq, Repr

/-- An operation, decoded.  Those on the request body alone are of type `ω`. -/
inductive Action (ω : Type) where
  | setHeader (path : String) (value : HeaderValue) (keepOrigin : Bool)
  | deleteHeader (path : String)
  | copyHeader (source target path : String) (keepOrigin : Bool)
  | moveHeader (source target path : String) (keepOrigin : Bool)
  /-- With `parseHeaderPassThroughNames` of its value. -/
  | passHeaders (names : Except String (List String)) (keepOrigin : Bool)
  /-- With `parseSyncTarget` of its two ends. -/
  | syncFields (source target : Except String SyncTarget)
  | body (op : ω)

/-- `ParamOperation`: an action under conditions of type `γ`. -/
structure ParamOperation (ω γ : Type) where
  conditions : γ
  action : Action ω

/-- A `paramOverride` map after `tryParseOperations`: empty, without operations, or
with operations and the other keys. -/
inductive ParamOverride (l ω γ : Type) where
  | empty
  | legacy (fields : l)
  | operations (fields : Option l) (ops : List (ParamOperation ω γ))

/-- `len(paramOverride) == 0`. -/
def ParamOverride.isEmpty {l ω γ : Type} : ParamOverride l ω γ → Bool
  | .empty => true
  | _ => false

/-- What overrides do with a request body of type `β`: `applyOperationsLegacy`,
`checkConditions`, the operations on paths of the body, and the two ends of
`sync_fields` that lie in it. -/
structure Engine (β l ω γ : Type) where
  applyOperationsLegacy : l → β → Except String β
  checkConditions : γ → β → Context → Except String Bool
  applyToBody : ω → β → Context → Except String β
  readJson : String → β → Option HeaderValue
  writeText : String → String → β → Except String β
  copyJson : String → String → β → Except String β

section

variable {β l ω γ : Type} (eng : Engine β l ω γ)

/-- `syncFieldsBetweenTargets`: the end that is missing is written. -/
def syncFieldsBetweenTargets (body : β) (ctx : Context) :
    SyncTarget → SyncTarget → Except String (β × Context)
  | .json p, .json q =>
      match eng.readJson p body, eng.readJson q body with
      | some _, none => do return (← eng.copyJson p q body, ctx)
      | none, some _ => do return (← eng.copyJson q p body, ctx)
      | _, _ => .ok (body, ctx)
  | .json p, .header n =>
      match eng.readJson p body, getHeaderValueFromContext ctx n with
      | some v, none => do return (body, ← setHeaderOverrideInContext ctx n v false)
      | none, some v => do return (← eng.writeText p v body, ctx)
      | _, _ => .ok (body, ctx)
  | .header n, .json p =>
      match getHeaderValueFromContext ctx n, eng.readJson p body with
      | some v, none => do return (← eng.writeText p v body, ctx)
      | none, some v => do return (body, ← setHeaderOverrideInContext ctx n v false)
      | _, _ => .ok (body, ctx)
  | .header n, .header m =>
      match getHeaderValueFromContext ctx n, getHeaderValueFromContext ctx m with
      | some v, none => do return (body, ← setHeaderOverrideInContext ctx m (.text v) false)
      | none, some v => do return (body, ← setHeaderOverrideInContext ctx n (.text v) false)
      | _, _ => .ok (body, ctx)

/-- The ends of `copy_header` and `move_header`, with the path as default. -/
def headerEnd (header path : String) : String :=
  if Text.trimSpace header = "" then Text.trimSpace path else Text.trimSpace header

/-- One operation of `applyOperations` whose conditions hold. -/
def applyAction (body : β) (ctx : Context) : Action ω → Except String (β × Context)
  | .setHeader path value keepOrigin => do
      return (body, ← setHeaderOverrideInContext ctx path value keepOrigin)
  | .deleteHeader path => do
      return (body, ← deleteHeaderOverrideInContext ctx path)
  | .copyHeader source target path keepOrigin => do
      let ctx' ← copyHeaderInContext ctx (headerEnd source path) (headerEnd target path) keepOrigin
      return (body, ctx'.getD ctx)
  | .moveHeader source target path keepOrigin => do
      let ctx' ← moveHeaderInContext ctx (headerEnd source path) (headerEnd target path) keepOrigin
      return (body, ctx'.getD ctx)
  | .passHeaders names keepOrigin => do
      return (body, ← Relay.passHeaders keepOrigin (← names) ctx)
  | .syncFields source target => do
      syncFieldsBetweenTargets eng body ctx (← source) (← target)
  | .body op => do
      return (← eng.applyToBody op body ctx, ctx)

/-- `applyOperations`. -/
def applyOperations : List (ParamOperation ω γ) → β → Context → Except String (β × Context)
  | [], body, ctx => .ok (body, ctx)
  | op :: ops, body, ctx => do
      if ← eng.checkConditions op.conditions body ctx then
        let (body', ctx') ← applyAction eng body ctx op.action
        applyOperations ops body' ctx'
      else applyOperations ops body ctx

/-- `ApplyParamOverride`; the context it leaves is the one it was given, changed. -/
def applyParamOverride (body : β) (ctx : Context) :
    ParamOverride l ω γ → Except String (β × Context)
  | .empty => .ok (body, ctx)
  | .legacy fields => do
      return (← eng.applyOperationsLegacy fields body, ctx)
  | .operations none ops => applyOperations eng ops body ctx
  | .operations (some fields) ops => do
      applyOperations eng ops (← eng.applyOperationsLegacy fields body) ctx

end

end DazeApi.Relay
